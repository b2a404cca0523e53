/-
# Items under keys in templates

Where a value has an item under some keys, a template finds it there, in either mode. In a condition,
or in the source of a loop, a position beyond a sequence yields null; but only if it is a signed number.
An unsigned one, and each position beyond a string, is an error there as well.

Main statement: `index_beyond`.
-/

import BoundQuery.Proofs.Fallible
import BoundQuery.Proofs.Value.Items
import BoundQuery.Run.Walk
import BoundQuery.Template.Assembly

namespace BoundQuery

namespace Run

open Template (Operand Command)
open Text (Pos)

variable {pos : Pos} {mode : Mode}

/-- The item of a sequence under a signed number. -/
theorem indexAt_int (items : List Value) (i : Int64) (keys : List Value) :
    indexAt pos mode (.seq items) (.int i :: keys) =
      if 0 ≤ i.toInt ∧ i.toInt < items.length then
        indexAt pos mode (items.getD i.toInt.toNat .null) keys
      else match mode with
        | .lenient => .ok .null
        | .strict => .error ⟨pos, .indexOutOfRange i.toInt items.length⟩ := by
  cases mode <;> rw [indexAt, if_neg (by simp [Value.isNull])]

/-- A lookup that is left to the values themselves. -/
theorem indexAt_of_item_eq {v key : Value} (hnull : v.isNull = false)
    (hsigned : v.signedAtSequence key = false) (keys : List Value) :
    indexAt pos mode v (key :: keys) =
      match v.item key with
      | .ok next => indexAt pos mode next keys
      | .error fault => .error ⟨pos, .call "index" fault⟩ := by
  have hnot : ∀ items i, v = .seq items → key = .int i → False := by
    rintro items i rfl rfl
    cases hsigned
  have hlookup : ¬ (mode = .lenient ∧ v.isNull = true) := by simp [hnull]
  refine (indexAt.eq_4 _ _ _ _ _ hnot).trans ((if_neg hlookup).trans ?_)
  cases v.item key <;> rfl

/-- The item that a value has under a key is found in either mode. -/
theorem indexAt_of_item {v key next : Value} (h : v.item key = .ok next) (keys : List Value) :
    indexAt pos mode v (key :: keys) = indexAt pos mode next keys := by
  cases hsigned : v.signedAtSequence key with
  | false => rw [indexAt_of_item_eq (Value.isNull_of_item h) hsigned, h]
  | true =>
    obtain ⟨items, i, rfl, rfl⟩ := Value.signedAtSequence_iff.mp hsigned
    obtain ⟨_, hi, h⟩ := bind_eq_ok_iff.mp (show _ >>= _ = Except.ok next from h)
    obtain ⟨j, hj, hnext⟩ := bind_eq_ok_iff.mp h
    cases hi
    cases hnext
    obtain ⟨hrange, rfl⟩ := Value.checkIndex_eq_ok_iff.mp hj
    rw [indexAt_int, if_pos hrange]

/-- Keys after others go on with the item under those. -/
theorem indexAt_append {v item : Value} {before : List Value} (h : v.itemAt before = .ok item)
    (keys : List Value) : indexAt pos mode v (before ++ keys) = indexAt pos mode item keys := by
  induction before generalizing v with
  | nil =>
    cases h
    rfl
  | cons key before ih =>
    obtain ⟨next, hnext, hitem⟩ := bind_eq_ok_iff.mp h
    rw [List.cons_append, indexAt_of_item hnext, ih hitem]

/-- Beyond the positions of a value lenient lookup finds null, if the value is a sequence and the key
a signed number. Otherwise it fails as the builtin function does. -/
theorem indexAt_beyond {item key : Value} {n : Nat} {k : Int} (hitem : item.positions? = some n)
    (hkey : key.integer? = some k) (hout : ¬ (0 ≤ k ∧ k < n)) (keys : List Value) :
    indexAt pos .lenient item (key :: keys) =
      if item.signedAtSequence key then .ok .null
      else .error ⟨pos, .call "index" (.outOfRange k)⟩ := by
  cases hsigned : item.signedAtSequence key with
  | true =>
    obtain ⟨items, i, rfl, rfl⟩ := Value.signedAtSequence_iff.mp hsigned
    cases hitem
    cases hkey
    rw [indexAt_int, if_neg hout]
    rfl
  | false =>
    have hnull : item.isNull = false := by
      cases item with
      | null => cases hitem
      | _ => rfl
    rw [indexAt_of_item_eq hnull hsigned, Value.item_beyond hitem hkey hout]
    rfl

/-- A command `index`, where no function of the caller has this name. -/
theorem evalCommand_index {scene : Scene} (hbuiltin : Entries.find? "index" scene.functions = none)
    {operands : List Operand} {piped : Option Value} {captured after args : List Value}
    (hoperands : Eval.all (evalOperands scene pos operands) captured = (.ok args, after)) :
    evalCommand scene piped ⟨pos, .identifier "index" :: operands⟩ captured =
      (index pos scene.mode (args ++ piped.toList), after) := by
  have hdecides : decides? scene "index" = none := by
    rw [decides?, hbuiltin]
    rfl
  have happly : ∀ args, applyFunction scene pos "index" args =
      liftExcept (index pos scene.mode args) := by
    intro args
    unfold applyFunction
    rw [if_neg (by decide), hbuiltin]
    rfl
  rw [evalCommand, call, hdecides]
  change (Eval.all _ >>= fun args => applyFunction scene pos "index" (args ++ piped.toList)) _ = _
  rw [bind_apply, hoperands]
  dsimp only
  rw [happly]
  cases index pos scene.mode (args ++ piped.toList) <;> rfl

/-- A key of `index` in a condition or in the source of a loop, at an item that it is beyond: a whole
number that is no position of the sequence or string that the keys before it lead to. If the item is a
sequence and the key a signed number, the value is null, whatever keys follow. Otherwise the evaluation
fails as the builtin function does. -/
theorem index_beyond {scene : Scene} (hlenient : scene.mode = .lenient)
    (hbuiltin : Entries.find? "index" scene.functions = none) {operands : List Operand}
    {piped : Option Value} {captured after args : List Value}
    (hoperands : Eval.all (evalOperands scene pos operands) captured = (.ok args, after))
    {v item key : Value} {before keys : List Value}
    (hargs : args ++ piped.toList = v :: (before ++ key :: keys)) (hitem : v.itemAt before = .ok item)
    {n : Nat} {k : Int} (hpositions : item.positions? = some n) (hkey : key.integer? = some k)
    (hout : ¬ (0 ≤ k ∧ k < n)) :
    evalCommand scene piped ⟨pos, .identifier "index" :: operands⟩ captured =
      (if item.signedAtSequence key then .ok .null
        else .error ⟨pos, .call "index" (.outOfRange k)⟩, after) := by
  rw [evalCommand_index hbuiltin hoperands, hargs, hlenient, index, indexAt_append hitem,
    indexAt_beyond hpositions hkey hout]

/-- The commands are `index .L .I .J`, whose first key is beyond the sequence, and `index .S .I`, whose
key is beyond the string. -/
theorem index_beyond_sequence :
    ∃ dot : Value, ∃ sequence string : List Operand,
      Eval.all (evalOperands ⟨[], [], dot, .lenient⟩ ⟨1, 6⟩ sequence) [] =
        (.ok [.seq [.int 1], .int 5, .int 7], []) ∧
      evalCommand ⟨[], [], dot, .lenient⟩ none ⟨⟨1, 6⟩, .identifier "index" :: sequence⟩ [] =
        (.ok .null, []) ∧
      Eval.all (evalOperands ⟨[], [], dot, .lenient⟩ ⟨1, 6⟩ string) [] =
        (.ok [.string "abc", .int 5], []) ∧
      evalCommand ⟨[], [], dot, .lenient⟩ none ⟨⟨1, 6⟩, .identifier "index" :: string⟩ [] =
        (.error ⟨⟨1, 6⟩, .call "index" (.outOfRange 5)⟩, []) := by
  let dot : Value :=
    .map [("I", .int 5), ("J", .int 7), ("L", .seq [.int 1]), ("S", .string "abc")]
  let sequence : List Operand := [.field ["L"], .field ["I"], .field ["J"]]
  let string : List Operand := [.field ["S"], .field ["I"]]
  have hsequence : Eval.all (evalOperands ⟨[], [], dot, .lenient⟩ ⟨1, 6⟩ sequence) [] =
      (.ok [.seq [.int 1], .int 5, .int 7], []) := rfl
  have hstring : Eval.all (evalOperands ⟨[], [], dot, .lenient⟩ ⟨1, 6⟩ string) [] =
      (.ok [.string "abc", .int 5], []) := rfl
  have hbuiltin : Entries.find? "index" ([] : Registry) = none := rfl
  have hkey : (Value.int 5).integer? = some 5 := rfl
  refine ⟨dot, sequence, string, hsequence, ?_, hstring, ?_⟩
  · have hargs : [.seq [.int 1], .int 5, .int 7] ++ (none : Option Value).toList =
        .seq [.int 1] :: ([] ++ .int 5 :: [.int 7]) := rfl
    have hpositions : (Value.seq [.int 1]).positions? = some 1 := rfl
    exact index_beyond rfl hbuiltin hsequence hargs rfl hpositions hkey (by decide)
  · have hargs : [.string "abc", .int 5] ++ (none : Option Value).toList =
        .string "abc" :: ([] ++ .int 5 :: []) := rfl
    have hpositions : (Value.string "abc").positions? = some 3 := rfl
    exact index_beyond rfl hbuiltin hstring hargs rfl hpositions hkey (by decide)

/-- A position beyond a string makes a condition fail. -/
theorem condition_beyond_string :
    ∃ t : Template,
      Template.parse (Registry.resolves []) "{{if index .S 5}}y{{else}}n{{end}}".toList = .ok t ∧
      (execute [] t.capture (.map [("S", .string "abc")]) []).result =
        .error ⟨⟨1, 6⟩, .call "index" (.outOfRange 5)⟩ := by
  obtain ⟨t, hparse, ht⟩ := exists_of_any
    (x := Template.parse (Registry.resolves []) "{{if index .S 5}}y{{else}}n{{end}}".toList)
    (p := fun t => decide ((execute [] t.capture (.map [("S", .string "abc")]) []).result =
      .error ⟨⟨1, 6⟩, .call "index" (.outOfRange 5)⟩))
    (by decide +kernel)
  exact ⟨t, hparse, of_decide_eq_true ht⟩

end Run

end BoundQuery
