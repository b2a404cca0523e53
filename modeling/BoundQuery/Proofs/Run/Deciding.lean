/-
# Operands that decide

The functions `and` and `or` evaluate their operands from left to right, and only as far as it takes: up
to the first one whose value decides or that fails. What follows it is not looked at. A value handed on by
a pipeline counts as the last operand, although it is there before all others.

Main statement: `deciding_exactly`.
-/

import BoundQuery.Proofs.Fallible
import BoundQuery.Run.Pipeline

namespace BoundQuery.Run

open Template (Operand captureName)
open Text (Pos)

/-! ### How far operands are evaluated -/

/-- Operands that have values when they are evaluated one after the other, none of which decides. -/
structure Undecided (scene : Scene) (pos : Pos) (decides : Bool) (operands : List Operand)
    (captured values after : List Value) : Prop where
  evaluates : Eval.all (evalOperands scene pos operands) captured = (.ok values, after)
  truth : ∀ v ∈ values, v.isTruthy ≠ decides

/-- The operand at which evaluation stops: those before it leave the matter undecided, and it has a value
that decides, or fails. -/
inductive Stops (scene : Scene) (pos : Pos) (decides : Bool) (before : List Operand) (o : Operand)
    (captured : List Value) : Except EvalError Value → List Value → Prop
  | decides {values mid after : List Value} {v : Value} :
    Undecided scene pos decides before captured values mid →
    evalOperand scene pos o mid = (.ok v, after) → v.isTruthy = decides →
    Stops scene pos decides before o captured (.ok v) after
  | fails {values mid after : List Value} {err : EvalError} :
    Undecided scene pos decides before captured values mid →
    evalOperand scene pos o mid = (.error err, after) →
    Stops scene pos decides before o captured (.error err) after

section Stops

variable {scene : Scene} {pos : Pos} {decides : Bool} {o o' : Operand} {operands : List Operand}
  {captured values mid after : List Value} {v : Value} {outcome : Except EvalError Value}

theorem undecided_nil (captured : List Value) :
    Undecided scene pos decides [] captured [] captured :=
  ⟨rfl, nofun⟩

theorem all_cons_of_ok (h : evalOperand scene pos o captured = (.ok v, mid)) :
    Eval.all (evalOperands scene pos (o :: operands)) captured =
      (Eval.all (evalOperands scene pos operands) >>= fun vs => pure (v :: vs)) mid := by
  rw [evalOperands, Eval.all, bind_apply, h]

theorem Undecided.cons (h : evalOperand scene pos o captured = (.ok v, mid))
    (hv : v.isTruthy ≠ decides) (hrest : Undecided scene pos decides operands mid values after) :
    Undecided scene pos decides (o :: operands) captured (v :: values) after := by
  constructor
  · rw [all_cons_of_ok h, bind_apply, hrest.evaluates]
    rfl
  · intro w hw
    rcases List.mem_cons.mp hw with rfl | hw
    · exact hv
    · exact hrest.truth w hw

theorem Stops.cons (h : evalOperand scene pos o captured = (.ok v, mid))
    (hv : v.isTruthy ≠ decides) (hrest : Stops scene pos decides operands o' mid outcome after) :
    Stops scene pos decides (o :: operands) o' captured outcome after := by
  cases hrest with
  | decides hbefore ho hw => exact .decides (hbefore.cons h hv) ho hw
  | fails hbefore ho => exact .fails (hbefore.cons h hv) ho

/-- Either all operands leave the matter undecided, or evaluation stops at one of them. -/
theorem undecided_or_stops (scene : Scene) (pos : Pos) (decides : Bool) (operands : List Operand)
    (captured : List Value) :
    (∃ values after, Undecided scene pos decides operands captured values after) ∨
    ∃ before o rest outcome after, operands = before ++ o :: rest ∧
      Stops scene pos decides before o captured outcome after := by
  induction operands generalizing captured with
  | nil => exact .inl ⟨[], captured, undecided_nil captured⟩
  | cons o operands ih =>
    rcases ho : evalOperand scene pos o captured with ⟨err | v, mid⟩
    · exact .inr ⟨[], o, operands, _, mid, rfl, .fails (undecided_nil captured) ho⟩
    · by_cases hv : v.isTruthy = decides
      · exact .inr ⟨[], o, operands, _, mid, rfl, .decides (undecided_nil captured) ho hv⟩
      · rcases ih mid with ⟨values, after, hrest⟩ | ⟨before, o', rest, outcome, after, rfl, hrest⟩
        · exact .inl ⟨v :: values, after, hrest.cons ho hv⟩
        · exact .inr ⟨o :: before, o', rest, outcome, after, rfl, hrest.cons ho hv⟩

theorem exists_of_all_cons (h : Eval.all (evalOperands scene pos (o :: operands)) captured =
      (.ok values, after)) :
    ∃ v mid vs, values = v :: vs ∧ evalOperand scene pos o captured = (.ok v, mid) ∧
      Eval.all (evalOperands scene pos operands) mid = (.ok vs, after) := by
  obtain ⟨v, mid, hv, hrest⟩ := bind_apply_eq_ok_iff.mp h
  obtain ⟨vs, mid', hvs, hpure⟩ := bind_apply_eq_ok_iff.mp hrest
  cases hpure
  exact ⟨v, mid, vs, rfl, hv, hvs⟩

theorem firstDeciding_cons_of_ok (piped : Option Value) (last : Value)
    (h : evalOperand scene pos o captured = (.ok v, mid)) :
    Eval.firstDeciding decides piped last (evalOperands scene pos (o :: operands)) captured =
      if v.isTruthy = decides then (.ok v, mid)
      else Eval.firstDeciding decides piped v (evalOperands scene pos operands) mid := by
  rw [evalOperands, Eval.firstDeciding, bind_apply, h]
  by_cases hv : v.isTruthy = decides
  · simp only [beq_iff_eq, hv, if_true]
    rfl
  · simp only [beq_iff_eq, hv, if_false]

/-- Operands that leave the matter undecided leave it to those that follow. -/
theorem firstDeciding_append (h : Undecided scene pos decides operands captured values mid)
    (piped : Option Value) (last : Value) (rest : List Operand) :
    Eval.firstDeciding decides piped last (evalOperands scene pos (operands ++ rest)) captured =
      Eval.firstDeciding decides piped (values.getLastD last) (evalOperands scene pos rest) mid := by
  induction operands generalizing captured values last with
  | nil =>
    obtain ⟨heval, -⟩ := h
    cases heval
    rfl
  | cons o operands ih =>
    obtain ⟨v, next, vs, rfl, ho, hrest⟩ := exists_of_all_cons h.evaluates
    have hv : v.isTruthy ≠ decides := h.truth v List.mem_cons_self
    rw [List.cons_append, firstDeciding_cons_of_ok piped last ho, if_neg hv, List.getLastD_cons]
    exact ih ⟨hrest, fun w hw => h.truth w (List.mem_cons_of_mem v hw)⟩ v

/-- Where evaluation stops, what follows does not count. -/
theorem firstDeciding_of_stops (h : Stops scene pos decides operands o captured outcome after)
    (piped : Option Value) (last : Value) (rest : List Operand) :
    Eval.firstDeciding decides piped last (evalOperands scene pos (operands ++ o :: rest)) captured =
      (outcome, after) := by
  cases h with
  | decides hbefore ho hv =>
    rw [firstDeciding_append hbefore, firstDeciding_cons_of_ok piped _ ho, if_pos hv]
  | fails hbefore ho =>
    rw [firstDeciding_append hbefore, evalOperands, Eval.firstDeciding, bind_apply, ho]

/-- Where it does not stop, the value handed on is the outcome, or else the last value. -/
theorem firstDeciding_of_undecided (h : Undecided scene pos decides operands captured values after)
    (piped : Option Value) (last : Value) :
    Eval.firstDeciding decides piped last (evalOperands scene pos operands) captured =
      (.ok (piped.getD (values.getLastD last)), after) := by
  have happend := firstDeciding_append h piped last []
  rw [List.append_nil] at happend
  exact happend

/-- If all operands have values, the outcome is the first of these that decides; or else the value handed
on, or else the last. -/
theorem firstDeciding_of_all (piped : Option Value) (last : Value)
    (h : Eval.all (evalOperands scene pos operands) captured = (.ok values, after)) :
    ∃ mid, Eval.firstDeciding decides piped last (evalOperands scene pos operands) captured =
      (.ok ((values.find? fun v => v.isTruthy == decides).getD (piped.getD (values.getLastD last))),
        mid) := by
  induction operands generalizing captured values last with
  | nil =>
    cases h
    exact ⟨after, rfl⟩
  | cons o operands ih =>
    obtain ⟨v, mid, vs, rfl, ho, hrest⟩ := exists_of_all_cons h
    rw [firstDeciding_cons_of_ok piped last ho, List.find?_cons, List.getLastD_cons]
    by_cases hv : v.isTruthy = decides
    · rw [if_pos hv, beq_iff_eq.mpr hv]
      exact ⟨mid, rfl⟩
    · rw [if_neg hv, beq_eq_false_iff_ne.mpr hv]
      exact ih v hrest

/-- Operands have as many values, so there is one to be the last unless there are no operands. -/
theorem values_ne_nil (h : Eval.all (evalOperands scene pos operands) captured = (.ok values, after))
    (hoperands : operands ≠ []) : values ≠ [] := by
  cases operands with
  | nil => exact absurd rfl hoperands
  | cons o operands =>
    obtain ⟨v, mid, vs, rfl, -, -⟩ := exists_of_all_cons h
    exact List.cons_ne_nil v vs

theorem getLast?_handedOn {piped : Option Value} (h : values ≠ [] ∨ piped ≠ none) :
    (values ++ piped.toList).getLast? = some (piped.getD (values.getLastD .null)) := by
  cases piped with
  | some p => simp
  | none =>
    have hvalues : values ≠ [] := h.resolve_right fun hnone => hnone rfl
    obtain ⟨front, v, rfl⟩ := (List.eq_nil_or_concat values).resolve_left hvalues
    simp

/-- The builtin function on values that are all there, the one handed on among them. -/
theorem builtin_firstDeciding_append {piped : Option Value} (h : values ≠ [] ∨ piped ≠ none) :
    Builtin.firstDeciding decides (values ++ piped.toList) =
      .ok ((values.find? fun v => v.isTruthy == decides).getD (piped.getD (values.getLastD .null))) := by
  unfold Builtin.firstDeciding
  rw [List.find?_append, getLast?_handedOn h]
  cases values.find? fun v => v.isTruthy == decides with
  | some v => rfl
  | none =>
    cases piped with
    | none => rfl
    | some p => cases hp : p.isTruthy == decides <;> simp [hp]

/-- The outcome is the one at which evaluation stops; or, where it stops at no operand, the value handed
on, or else the last value. -/
theorem firstDeciding_eq_iff {piped : Option Value} (hgiven : operands ≠ [] ∨ piped ≠ none) :
    Eval.firstDeciding decides piped .null (evalOperands scene pos operands) captured =
        (outcome, after) ↔
      (∃ before o rest, operands = before ++ o :: rest ∧
        Stops scene pos decides before o captured outcome after) ∨
      ∃ values v, Undecided scene pos decides operands captured values after ∧
        (values ++ piped.toList).getLast? = some v ∧ outcome = .ok v := by
  have hlast : ∀ {values after}, Undecided scene pos decides operands captured values after →
      (values ++ piped.toList).getLast? = some (piped.getD (values.getLastD .null)) :=
    fun h => getLast?_handedOn (hgiven.imp_left (values_ne_nil h.evaluates))
  constructor
  · intro heval
    rcases undecided_or_stops scene pos decides operands captured with
      ⟨values, last, hall⟩ | ⟨before, o, rest, outcome', last, rfl, hstops⟩
    · rw [firstDeciding_of_undecided hall] at heval
      cases heval
      exact .inr ⟨values, _, hall, hlast hall, rfl⟩
    · rw [firstDeciding_of_stops hstops] at heval
      cases heval
      exact .inl ⟨before, o, rest, rfl, hstops⟩
  · rintro (⟨before, o, rest, rfl, hstops⟩ | ⟨values, v, hall, hv, rfl⟩)
    · exact firstDeciding_of_stops hstops piped .null rest
    · rw [hlast hall] at hv
      cases hv
      exact firstDeciding_of_undecided hall piped .null

end Stops

/-! ### Commands -/

section Commands

variable {scene : Scene} {name : String} {decides : Bool} {operands : List Operand}
  {piped : Option Value}

theorem decides?_of_mem (hname : (name, decides) ∈ [("and", false), ("or", true)])
    (hfree : Entries.find? name scene.functions = none) : decides? scene name = some decides := by
  rw [decides?, hfree]
  simp only [List.mem_cons, List.not_mem_nil, or_false, Prod.mk.injEq] at hname
  rcases hname with ⟨rfl, rfl⟩ | ⟨rfl, rfl⟩
  · rfl
  · rfl

theorem evalCommand_deciding (hdecides : decides? scene name = some decides)
    (h : operands ≠ [] ∨ piped ≠ none) (pos : Pos) :
    evalCommand scene piped ⟨pos, .identifier name :: operands⟩ =
      Eval.firstDeciding decides piped .null (evalOperands scene pos operands) := by
  rw [evalCommand, call, hdecides]
  dsimp only
  rw [if_neg]
  intro hempty
  obtain ⟨hoperands, hpiped⟩ := Bool.and_eq_true_iff.mp hempty
  rcases h with h | h
  · cases operands with
    | nil => exact h rfl
    | cons o operands => cases hoperands
  · exact h (Option.isNone_iff_eq_none.mp hpiped)

/-- The functions `and` and `or`, where no function of the caller has the name. With operands or a value
handed on, evaluation stops at the first operand that has a deciding value or fails, and this is the
outcome; where it stops at none, the outcome is the value handed on, or else the value of the last
operand. In other words, if all operands have values, the outcome is the first deciding one of these and
of the value handed on, or else the last. Whatever follows the operand at which evaluation stops, the
outcome is the same, and so are the captured values. Without operands and without a value handed on the
call fails, as a command and as an operand. -/
theorem deciding_exactly (hname : (name, decides) ∈ [("and", false), ("or", true)])
    (hfree : Entries.find? name scene.functions = none) (pos : Pos) (captured : List Value) :
    (∀ operands piped, operands ≠ [] ∨ piped ≠ none →
      (∀ outcome after,
        evalCommand scene piped ⟨pos, .identifier name :: operands⟩ captured = (outcome, after) ↔
          (∃ before o rest, operands = before ++ o :: rest ∧
            Stops scene pos decides before o captured outcome after) ∨
          ∃ values v, Undecided scene pos decides operands captured values after ∧
            (values ++ piped.toList).getLast? = some v ∧ outcome = .ok v) ∧
      ∀ values after, Eval.all (evalOperands scene pos operands) captured = (.ok values, after) →
        ∃ v after', Builtin.firstDeciding decides (values ++ piped.toList) = .ok v ∧
          evalCommand scene piped ⟨pos, .identifier name :: operands⟩ captured = (.ok v, after')) ∧
    (∀ before o outcome after, Stops scene pos decides before o captured outcome after →
      ∀ rest piped,
        evalCommand scene piped ⟨pos, .identifier name :: (before ++ o :: rest)⟩ captured =
          (outcome, after)) ∧
    evalCommand scene none ⟨pos, [.identifier name]⟩ captured =
      (.error ⟨pos, .call name (.wrongCount 0 1)⟩, captured) ∧
    evalOperand scene pos (.identifier name) captured =
      (.error ⟨pos, .call name (.wrongCount 0 1)⟩, captured) := by
  have hdecides := decides?_of_mem hname hfree
  refine ⟨?_, ?_, ?_, ?_⟩
  · intro operands piped hgiven
    rw [evalCommand_deciding hdecides hgiven]
    refine ⟨fun outcome after => firstDeciding_eq_iff hgiven, ?_⟩
    intro values after heval
    have hvalues : values ≠ [] ∨ piped ≠ none := hgiven.imp_left (values_ne_nil heval)
    obtain ⟨mid, hfirst⟩ := firstDeciding_of_all piped .null heval
    exact ⟨_, mid, builtin_firstDeciding_append hvalues, hfirst⟩
  · intro before o outcome after hstops rest piped
    have hoperands : before ++ o :: rest ≠ [] := by simp
    rw [evalCommand_deciding hdecides (.inl hoperands)]
    exact firstDeciding_of_stops hstops piped .null rest
  · rw [evalCommand, call, hdecides]
    rfl
  · rw [evalOperand, call, hdecides]
    rfl

/-- The commands are `or .A (.B | _sql_arg_) .B.C` and `or .A (.B | _sql_arg_)`: the second operand
captures a value and decides, so that the third one does not fail. -/
theorem deciding_exactly_captured :
    ∃ scene : Scene, ∃ before : List Operand, ∃ o after : Operand,
      Stops scene ⟨1, 3⟩ true before o [] (.ok (.string "?")) [.int 1] ∧
      (evalOperand scene ⟨1, 3⟩ after []).1 = .error ⟨⟨1, 3⟩, .notAMap "C" .int⟩ ∧
      evalCommand scene none ⟨⟨1, 3⟩, .identifier "or" :: (before ++ [o, after])⟩ [] =
        (.ok (.string "?"), [.int 1]) ∧
      evalCommand scene none ⟨⟨1, 3⟩, .identifier "or" :: (before ++ [o])⟩ [] =
        (.ok (.string "?"), [.int 1]) := by
  let scene : Scene := ⟨[], [], .map [("A", .int 0), ("B", .int 1)], .strict⟩
  let o : Operand :=
    .pipe ⟨⟨1, 9⟩, false, [], [⟨⟨1, 9⟩, [.field ["B"]]⟩, ⟨⟨1, 14⟩, [.identifier captureName]⟩]⟩
  have hbefore : Undecided scene ⟨1, 3⟩ true [.field ["A"]] [] [.int 0] [] :=
    ⟨rfl, by decide⟩
  have hstops : Stops scene ⟨1, 3⟩ true [.field ["A"]] o [] (.ok (.string "?")) [.int 1] :=
    .decides hbefore rfl (by decide)
  have hname : ("or", true) ∈ [("and", false), ("or", true)] := by decide
  obtain ⟨-, hrest, -⟩ := deciding_exactly hname (show Entries.find? "or" scene.functions = none from rfl)
    ⟨1, 3⟩ []
  exact ⟨scene, [.field ["A"]], o, .field ["B", "C"], hstops, rfl, hrest _ _ _ _ hstops _ none,
    hrest _ _ _ _ hstops _ none⟩

end Commands

end BoundQuery.Run
