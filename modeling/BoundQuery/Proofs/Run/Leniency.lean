/-
# Lenient evaluation

Conditions and the sources of loops are evaluated leniently: what is missing counts as null. This adds
to strict evaluation and changes nothing of it. Where strict evaluation ends, with a value or for a
reason that has nothing to do with what is missing, lenient evaluation ends alike, with the same values
captured; and it never fails for something missing itself.

Main statement: `evalPipeline_lenient`.
-/

import BoundQuery.Proofs.Run.Indexing
import Mathlib.Data.List.Forall2

namespace BoundQuery.Run

open Template (Operand Command Pipeline captureName)
open Text (Pos)

/-! ### What is missing -/

/-- Something that was looked up is not there. -/
def EvalFault.Missing : EvalFault → Prop
  | missingField _ | nilPointer _ | indexOutOfRange _ _ => True
  | _ => False

/-- A fault of strict evaluation in place of which lenient evaluation goes on with null: something is
missing, or is looked up in null. -/
def EvalFault.Pardoned : EvalFault → Prop
  | call name fault => name = "index" ∧ fault = .indexOfNil
  | fault => fault.Missing

/-- The outcomes of a strict and of a lenient computation: the same, unless the strict one is a fault
that is pardoned; and the lenient one is no fault for something missing. -/
structure Widens {α : Type} (x x' : Except EvalError α) : Prop where
  alike : (∃ e, x = .error e ∧ e.fault.Pardoned) ∨ x' = x
  finds : ∀ e, x' = .error e → ¬ e.fault.Missing

section Widens

variable {α : Type}

theorem widens_ok (a : α) : Widens (.ok a) (.ok a) :=
  ⟨.inr rfl, nofun⟩

theorem widens_error {pos : Pos} {fault : EvalFault} (h : ¬ fault.Missing) :
    Widens (.error ⟨pos, fault⟩ : Except EvalError α) (.error ⟨pos, fault⟩) := by
  refine ⟨.inr rfl, ?_⟩
  rintro _ ⟨⟩
  exact h

/-- In place of a pardoned fault there may be a value. -/
theorem widens_pardoned (pos : Pos) {fault : EvalFault} (h : fault.Pardoned) (a : α) :
    Widens (.error ⟨pos, fault⟩) (.ok a) :=
  ⟨.inl ⟨_, rfl, h⟩, nofun⟩

end Widens

theorem widens_follow (pos : Pos) (path : List String) (v : Value) (fields : List String) :
    Widens (follow pos .strict path v fields) (follow pos .lenient path v fields) := by
  induction fields generalizing path v with
  | nil => exact widens_ok v
  | cons name rest ih =>
    cases v with
    | map entries =>
      rw [follow, follow]
      cases Entries.find? name entries with
      | some next => exact ih _ next
      | none =>
        have hpardoned : (EvalFault.missingField name).Pardoned := trivial
        exact widens_pardoned pos hpardoned _
    | null =>
      have hpardoned : (EvalFault.nilPointer (path ++ [name])).Pardoned := trivial
      exact widens_pardoned pos hpardoned _
    | _ => exact widens_error id

theorem widens_indexAt (pos : Pos) (v : Value) (keys : List Value) :
    Widens (indexAt pos .strict v keys) (indexAt pos .lenient v keys) := by
  induction keys generalizing v with
  | nil => exact widens_ok v
  | cons key keys ih =>
    cases hnull : v.isNull with
    | true =>
      cases v with
      | null =>
        have hpardoned : (EvalFault.call "index" .indexOfNil).Pardoned := ⟨rfl, rfl⟩
        exact widens_pardoned pos hpardoned _
      | _ => cases hnull
    | false =>
      cases hsigned : v.signedAtSequence key with
      | true =>
        obtain ⟨items, i, rfl, rfl⟩ := Value.signedAtSequence_iff.mp hsigned
        rw [indexAt_int, indexAt_int]
        split
        · exact ih _
        · have hpardoned : (EvalFault.indexOutOfRange i.toInt items.length).Pardoned := trivial
          exact widens_pardoned pos hpardoned _
      | false =>
        -- A lookup that is left to the values themselves is the same in both modes.
        rw [indexAt_of_item_eq hnull hsigned, indexAt_of_item_eq hnull hsigned]
        cases v.item key with
        | ok next => exact ih next
        | error fault => exact widens_error id

theorem widens_index (pos : Pos) (args : List Value) :
    Widens (index pos .strict args) (index pos .lenient args) := by
  cases args with
  | nil => exact widens_error id
  | cons v keys => exact widens_indexAt pos v keys

/-! ### Strict and lenient side by side -/

namespace Eval

variable {α β : Type}

/-- The second evaluation ends as the first one does, with the same values captured, unless the first
one ends with a fault that is pardoned; and it does not fail for something missing. -/
structure Extends (e e' : Eval α) : Prop where
  alike : ∀ captured,
    (∃ err after, e captured = (.error err, after) ∧ err.fault.Pardoned) ∨
      e' captured = e captured
  finds : ∀ captured err after, e' captured = (.error err, after) → ¬ err.fault.Missing

theorem extends_pure (a : α) : Extends (pure a : Eval α) (pure a) :=
  ⟨fun _ => .inr rfl, nofun⟩

theorem extends_fail (pos : Pos) {fault : EvalFault} (h : ¬ fault.Missing) :
    Extends (fail pos fault : Eval α) (fail pos fault) := by
  refine ⟨fun _ => .inr rfl, ?_⟩
  rintro captured _ _ ⟨⟩
  exact h

theorem extends_liftExcept {x x' : Except EvalError α} (h : Widens x x') :
    Extends (liftExcept x : Eval α) (liftExcept x') := by
  have hlift : ∀ (y : Except EvalError α) (captured : List Value),
      (liftExcept y : Eval α) captured = (y, captured) := by
    intro y captured
    cases y <;> rfl
  constructor
  · intro captured
    rw [hlift, hlift]
    refine h.alike.imp ?_ fun heq => by rw [heq]
    rintro ⟨err, rfl, hpardoned⟩
    exact ⟨err, captured, rfl, hpardoned⟩
  · intro captured err after herr
    rw [hlift] at herr
    exact h.finds err (congrArg Prod.fst herr)

theorem extends_ofCall (pos : Pos) (name : String) (x : Except CallFault Value) :
    Extends (ofCall pos name x) (ofCall pos name x) := by
  cases x with
  | ok v => exact extends_pure v
  | error fault => exact extends_fail pos id

theorem extends_capture (v : Value) : Extends (capture v) (capture v) :=
  ⟨fun _ => .inr rfl, nofun⟩

theorem extends_bind {e e' : Eval α} {f f' : α → Eval β} (he : Extends e e')
    (hf : ∀ a, Extends (f a) (f' a)) : Extends (e >>= f) (e' >>= f') := by
  constructor
  · intro captured
    rw [bind_apply, bind_apply]
    rcases he.alike captured with ⟨err, after, herr, hpardoned⟩ | heq
    · exact .inl ⟨err, after, by rw [herr], hpardoned⟩
    · rw [heq]
      rcases e captured with ⟨outcome, after⟩
      cases outcome with
      | error err => exact .inr rfl
      | ok a => exact (hf a).alike after
  · intro captured err after herr
    rw [bind_apply] at herr
    have hfinds := he.finds captured
    generalize e' captured = outcome at herr hfinds
    rcases outcome with ⟨result, mid⟩
    cases result with
    | error err' =>
      cases herr
      exact hfinds _ _ rfl
    | ok a => exact (hf a).finds mid err after herr

theorem extends_all {es es' : List (Eval Value)} (h : List.Forall₂ Extends es es') :
    Extends (all es) (all es') := by
  induction h with
  | nil => exact extends_pure []
  | cons he _ ih =>
    rw [all, all]
    exact extends_bind he fun v => extends_bind ih fun vs => extends_pure (v :: vs)

/-- A value that lenient evaluation puts in place of a fault never decides for strict evaluation: that
one has failed there. -/
theorem extends_firstDeciding {es es' : List (Eval Value)} (h : List.Forall₂ Extends es es')
    (decides : Bool) (piped : Option Value) (last : Value) :
    Extends (firstDeciding decides piped last es) (firstDeciding decides piped last es') := by
  induction h generalizing last with
  | nil => exact extends_pure _
  | cons he _ ih =>
    rw [firstDeciding, firstDeciding]
    refine extends_bind he fun v => ?_
    split
    · exact extends_pure v
    · exact ih v

end Eval

/-! ### Pipelines -/

section Evaluation

open Eval

variable (functions : Registry) (bindings : Variables) (dot : Value)

theorem extends_applyFunction (pos : Pos) (name : String) (args : List Value) :
    Extends (applyFunction ⟨functions, bindings, dot, .strict⟩ pos name args)
      (applyFunction ⟨functions, bindings, dot, .lenient⟩ pos name args) := by
  unfold applyFunction
  by_cases hcapture : name == captureName
  · rw [if_pos hcapture, if_pos hcapture]
    split
    · exact extends_capture _
    · exact extends_fail pos id
  · rw [if_neg hcapture, if_neg hcapture]
    cases Entries.find? name functions with
    | some f => exact extends_ofCall pos name _
    | none =>
      rcases Builtin.ofName? name with _ | b
      · exact extends_fail pos id
      · cases b with
        | index => exact extends_liftExcept (widens_index pos args)
        | _ => exact extends_ofCall pos name _

theorem extends_call (pos : Pos) (name : String) {es es' : List (Eval Value)}
    (h : List.Forall₂ Extends es es') (piped : Option Value) :
    Extends (call ⟨functions, bindings, dot, .strict⟩ pos name es piped)
      (call ⟨functions, bindings, dot, .lenient⟩ pos name es' piped) := by
  have hempty : es.isEmpty = es'.isEmpty := by cases h <;> rfl
  have hdecides : decides? ⟨functions, bindings, dot, .strict⟩ name =
      decides? ⟨functions, bindings, dot, .lenient⟩ name := rfl
  unfold call
  rw [hdecides, hempty]
  split
  · split
    · exact extends_fail pos id
    · exact extends_firstDeciding h _ piped .null
  · exact extends_bind (extends_all h) fun args =>
      extends_applyFunction functions bindings dot pos name _

/-- A variable is not in scope in both modes, or in none. -/
theorem widens_variable (pos : Pos) (name : String) :
    Widens (Scene.variable ⟨functions, bindings, dot, .strict⟩ pos name)
      (Scene.variable ⟨functions, bindings, dot, .lenient⟩ pos name) := by
  unfold Scene.variable
  dsimp only
  split
  · exact widens_ok _
  · exact widens_error id

mutual

theorem extends_evalOperand (pos : Pos) : ∀ o : Operand,
    Extends (evalOperand ⟨functions, bindings, dot, .strict⟩ pos o)
      (evalOperand ⟨functions, bindings, dot, .lenient⟩ pos o)
  | .dot => extends_pure _
  | .field fields => extends_liftExcept (widens_follow pos [] dot fields)
  | .variable name fields =>
    extends_bind (extends_liftExcept (widens_variable functions bindings dot pos name)) fun v =>
      extends_liftExcept (widens_follow pos [] v fields)
  | .identifier name => extends_call functions bindings dot pos name .nil none
  | .chain base fields =>
    extends_bind (extends_evalOperand pos base) fun v =>
      extends_liftExcept (widens_follow pos [] v fields)
  | .pipe p => extends_evalPipeline p
  | .string _ => extends_pure _
  | .number _ => extends_pure _
  | .bool _ => extends_pure _
  | .nil => extends_pure _

theorem extends_evalOperands (pos : Pos) : ∀ operands : List Operand,
    List.Forall₂ Extends (evalOperands ⟨functions, bindings, dot, .strict⟩ pos operands)
      (evalOperands ⟨functions, bindings, dot, .lenient⟩ pos operands)
  | [] => .nil
  | o :: rest => .cons (extends_evalOperand pos o) (extends_evalOperands pos rest)

theorem extends_evalCommand (piped : Option Value) : ∀ c : Command,
    Extends (evalCommand ⟨functions, bindings, dot, .strict⟩ piped c)
      (evalCommand ⟨functions, bindings, dot, .lenient⟩ piped c)
  | ⟨_, []⟩ => extends_pure _
  | ⟨pos, first :: rest⟩ => by
    by_cases hfirst : ∃ name, first = .identifier name
    · obtain ⟨name, rfl⟩ := hfirst
      exact extends_call functions bindings dot pos name (extends_evalOperands pos rest) piped
    · have hnone : ∀ name, first = .identifier name → False := fun name hname => hfirst ⟨name, hname⟩
      rw [evalCommand.eq_3 _ _ _ _ _ hnone, evalCommand.eq_3 _ _ _ _ _ hnone]
      split
      · exact extends_fail pos id
      · exact extends_evalOperand pos first

theorem extends_evalCommands (piped : Option Value) : ∀ commands : List Command,
    Extends (evalCommands ⟨functions, bindings, dot, .strict⟩ piped commands)
      (evalCommands ⟨functions, bindings, dot, .lenient⟩ piped commands)
  | [] => extends_pure _
  | c :: rest =>
    extends_bind (extends_evalCommand piped c) fun v => extends_evalCommands (some v) rest

theorem extends_evalPipeline : ∀ p : Pipeline,
    Extends (evalPipeline ⟨functions, bindings, dot, .strict⟩ p)
      (evalPipeline ⟨functions, bindings, dot, .lenient⟩ p)
  | ⟨_, _, _, commands⟩ => extends_evalCommands none commands

end

/-- Lenient evaluation of a pipeline never fails for something missing. If strict evaluation has a
value, lenient evaluation has the same value, with the same values captured. If strict evaluation
fails, but not for something missing or looked up in null, lenient evaluation fails alike. -/
theorem evalPipeline_lenient (p : Pipeline) (captured : List Value) :
    (∀ err after, evalPipeline ⟨functions, bindings, dot, .lenient⟩ p captured = (.error err, after) →
      (∀ field, err.fault ≠ .missingField field) ∧ (∀ path, err.fault ≠ .nilPointer path) ∧
        ∀ i length, err.fault ≠ .indexOutOfRange i length) ∧
    (∀ v after, evalPipeline ⟨functions, bindings, dot, .strict⟩ p captured = (.ok v, after) →
      evalPipeline ⟨functions, bindings, dot, .lenient⟩ p captured = (.ok v, after)) ∧
    ∀ err after, evalPipeline ⟨functions, bindings, dot, .strict⟩ p captured = (.error err, after) →
      ¬ err.fault.Pardoned →
      evalPipeline ⟨functions, bindings, dot, .lenient⟩ p captured = (.error err, after) := by
  have hextends := extends_evalPipeline functions bindings dot p
  refine ⟨?_, ?_, ?_⟩
  · intro err after herr
    have hfinds := hextends.finds captured err after herr
    refine ⟨?_, ?_, ?_⟩
    · intro field heq
      exact hfinds (heq ▸ trivial)
    · intro path heq
      exact hfinds (heq ▸ trivial)
    · intro i length heq
      exact hfinds (heq ▸ trivial)
  · intro v after hv
    rcases hextends.alike captured with ⟨err, after', herr, -⟩ | heq
    · rw [hv] at herr
      cases herr
    · rw [heq, hv]
  · intro err after herr hpardoned
    rcases hextends.alike captured with ⟨err', after', herr', hpardoned'⟩ | heq
    · rw [herr] at herr'
      cases herr'
      exact absurd hpardoned' hpardoned
    · rw [heq, herr]

/-- The pipelines are `or .A .B.C | _sql_arg_`, whose second operand does not count, and `.A.C`. -/
theorem evalPipeline_lenient_decided :
    ∃ p q : Pipeline,
      evalPipeline ⟨[], [], .map [("A", .int 1)], .strict⟩ p [] = (.ok (.string "?"), [.int 1]) ∧
      evalPipeline ⟨[], [], .map [("A", .int 1)], .lenient⟩ p [] = (.ok (.string "?"), [.int 1]) ∧
      evalPipeline ⟨[], [], .map [("A", .int 1)], .strict⟩ q [] =
        (.error ⟨⟨1, 3⟩, .notAMap "C" .int⟩, []) ∧
      evalPipeline ⟨[], [], .map [("A", .int 1)], .lenient⟩ q [] =
        (.error ⟨⟨1, 3⟩, .notAMap "C" .int⟩, []) ∧
      ∀ field, EvalFault.notAMap "C" .int ≠ .missingField field := by
  let p : Pipeline :=
    ⟨⟨1, 3⟩, false, [], [⟨⟨1, 3⟩, [.identifier "or", .field ["A"], .field ["B", "C"]]⟩,
      ⟨⟨1, 14⟩, [.identifier captureName]⟩]⟩
  let q : Pipeline := ⟨⟨1, 3⟩, false, [], [⟨⟨1, 3⟩, [.field ["A", "C"]]⟩]⟩
  have hp : evalPipeline ⟨[], [], .map [("A", .int 1)], .strict⟩ p [] =
      (.ok (.string "?"), [.int 1]) := rfl
  have hq : evalPipeline ⟨[], [], .map [("A", .int 1)], .strict⟩ q [] =
      (.error ⟨⟨1, 3⟩, .notAMap "C" .int⟩, []) := rfl
  obtain ⟨-, hvalue, -⟩ := evalPipeline_lenient [] [] (.map [("A", .int 1)]) p []
  obtain ⟨hfinds, -, hfault⟩ := evalPipeline_lenient [] [] (.map [("A", .int 1)]) q []
  have hlenient := hfault _ _ hq id
  exact ⟨p, q, hp, hvalue _ _ hp, hq, hlenient, (hfinds _ _ hlenient).1⟩

end Evaluation

end BoundQuery.Run
