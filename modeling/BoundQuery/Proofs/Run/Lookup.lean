/-
# Lookup in templates and in functions

The builtin function follows a list of keys to its end. A template follows it key by key, and has words
of its own for a position beyond a sequence. Both find the same under the same keys, and where there is
nothing both fail, at the same key.

Main statement: `index_agrees`.
-/

import BoundQuery.Proofs.Run.Indexing

namespace BoundQuery

namespace Run

open Text (Pos)
open Value (FailsAt)

variable {pos : Pos} {mode : Mode} {v item key : Value} {keys args : List Value} {fault : CallFault}

/-! ### What is found -/

/-- What the builtin function finds a template finds in either mode. -/
theorem index_of_builtin (h : Builtin.index.apply args = .ok v) : index pos mode args = .ok v := by
  cases args with
  | nil => cases h
  | cons w keys =>
    have happend : indexAt pos mode w (keys ++ []) = indexAt pos mode v [] := indexAt_append h []
    rwa [List.append_nil] at happend

/-! ### What is not there -/

/-- What a template says of a step that fails: a signed number as the key of a sequence is reported with
the length of the sequence, and all else as the builtin function reports it. -/
def lookupFault (item key : Value) (fault : CallFault) : EvalFault :=
  match item, key with
  | .seq items, .int i => .indexOutOfRange i.toInt items.length
  | _, _ => .call "index" fault

theorem lookupFault_of_not_signed (h : item.signedAtSequence key = false) :
    lookupFault item key fault = .call "index" fault := by
  unfold lookupFault
  split
  · cases h
  · rfl

/-- A step that fails in the builtin function fails in a strict template. -/
theorem indexAt_of_item_error (h : item.item key = .error fault) (keys : List Value) :
    indexAt pos .strict item (key :: keys) = .error ⟨pos, lookupFault item key fault⟩ := by
  cases hsigned : item.signedAtSequence key with
  | true =>
    obtain ⟨items, i, rfl, rfl⟩ := Value.signedAtSequence_iff.mp hsigned
    rw [indexAt_int, if_neg (Value.not_position_of_item h)]
    rfl
  | false =>
    rw [lookupFault_of_not_signed hsigned]
    have hnot : ∀ items i, item = .seq items → key = .int i → False := by
      rintro items i rfl rfl
      cases hsigned
    have hstrict : ¬ (Mode.strict = .lenient ∧ item.isNull = true) := nofun
    rw [indexAt.eq_4 _ _ _ _ _ hnot, if_neg hstrict, h]

/-- The step at which the builtin function fails is the one at which a strict template does. -/
theorem index_of_failsAt (pos : Pos) (hfails : FailsAt args item key)
    (h : Builtin.index.apply args = .error fault) :
    index pos .strict args = .error ⟨pos, lookupFault item key fault⟩ := by
  induction hfails with
  | here keys hitem =>
    rcases bind_eq_error_iff.mp h with hitem' | ⟨next, hnext, -⟩
    · exact indexAt_of_item_error hitem' keys
    · rw [hitem] at hnext
      cases hnext
  | @later v k next _ _ keys hnext _ ih =>
    rcases bind_eq_error_iff.mp h with hitem | ⟨next', hnext', hrest⟩
    · rw [hnext] at hitem
      cases hitem
    · rw [hnext] at hnext'
      cases hnext'
      have hstep : indexAt pos .strict v (k :: keys) = indexAt pos .strict next keys :=
        indexAt_of_item hnext keys
      exact hstep.trans (ih hrest)

/-! ### Agreement -/

/-- Where the builtin function fails, a strict template fails for the same reason, and says so with the
length of the sequence where a signed number is beyond one. -/
theorem index_of_builtin_error (pos : Pos) (h : Builtin.index.apply args = .error fault) :
    (∃ items i, FailsAt args (.seq items) (.int i) ∧
      index pos .strict args = .error ⟨pos, .indexOutOfRange i.toInt items.length⟩) ∨
    (∀ items i, ¬ FailsAt args (.seq items) (.int i)) ∧
      index pos .strict args = .error ⟨pos, .call "index" fault⟩ := by
  cases args with
  | nil =>
    cases h
    exact .inr ⟨nofun, rfl⟩
  | cons v keys =>
    obtain ⟨item, key, hfails⟩ := Value.exists_failsAt h
    have hindex := index_of_failsAt pos hfails h
    cases hsigned : item.signedAtSequence key with
    | true =>
      obtain ⟨items, i, rfl, rfl⟩ := Value.signedAtSequence_iff.mp hsigned
      exact .inl ⟨items, i, hfails, hindex⟩
    | false =>
      rw [lookupFault_of_not_signed hsigned] at hindex
      refine .inr ⟨?_, hindex⟩
      intro items i hfails'
      obtain ⟨rfl, rfl⟩ := hfails.unique hfails'
      cases hsigned

/-- For all arguments: a strict template finds what the builtin function finds, and nothing else. Where
the builtin function fails the template fails at its position. If the first step that fails is a signed
number as the key of a sequence, it reports the number and the length of the sequence; otherwise it
reports that `index` failed as the builtin function did. A lenient template finds all that the builtin
function finds. -/
theorem index_agrees (pos : Pos) (args : List Value) :
    (∀ v, index pos .strict args = .ok v ↔ Builtin.index.apply args = .ok v) ∧
    (∀ fault, Builtin.index.apply args = .error fault →
      (∃ items i, FailsAt args (.seq items) (.int i) ∧
        index pos .strict args = .error ⟨pos, .indexOutOfRange i.toInt items.length⟩) ∨
      (∀ items i, ¬ FailsAt args (.seq items) (.int i)) ∧
        index pos .strict args = .error ⟨pos, .call "index" fault⟩) ∧
    ∀ v, Builtin.index.apply args = .ok v → index pos .lenient args = .ok v := by
  refine ⟨?_, fun _ h => index_of_builtin_error pos h, fun _ h => index_of_builtin h⟩
  intro v
  constructor
  · intro h
    cases hbuiltin : Builtin.index.apply args with
    | ok w =>
      rw [index_of_builtin hbuiltin] at h
      cases h
      rfl
    | error fault =>
      rcases index_of_builtin_error pos hbuiltin with ⟨_, _, -, herror⟩ | ⟨-, herror⟩
      · rw [h] at herror
        cases herror
      · rw [h] at herror
        cases herror
  · exact index_of_builtin

/-- The arguments are a map, the key of a sequence in it, and a number beyond that sequence. -/
theorem index_agrees_beyond :
    ∃ args : List Value, Builtin.index.apply args = .error (.outOfRange 5) ∧
      FailsAt args (.seq [.int 1]) (.int 5) ∧
      index ⟨1, 3⟩ .strict args = .error ⟨⟨1, 3⟩, .indexOutOfRange 5 1⟩ := by
  let args : List Value := [.map [("L", .seq [.int 1])], .string "L", .int 5]
  have hbuiltin : Builtin.index.apply args = .error (.outOfRange 5) := rfl
  have hfails : FailsAt args (.seq [.int 1]) (.int 5) := .later rfl (.here [] rfl)
  refine ⟨args, hbuiltin, hfails, ?_⟩
  rcases (index_agrees ⟨1, 3⟩ args).2.1 _ hbuiltin with ⟨items, i, hfails', hindex⟩ | ⟨hnone, -⟩
  · obtain ⟨hitems, hi⟩ := hfails.unique hfails'
    cases hitems
    cases hi
    exact hindex
  · exact absurd hfails (hnone [.int 1] 5)

end Run

end BoundQuery
