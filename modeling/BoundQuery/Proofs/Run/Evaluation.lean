/-
# What evaluation captures

The value of a pipeline, or its failure, does not depend on what was captured before; evaluation
only adds to it. A pipeline that does not name the capture function adds nothing, and handing its
value to the capture function adds that value. Evaluation writes nothing, so it does not fail as
writing does, and it fails for an undefined name only where the pipeline uses that name.

Main statements: `adds_evalPipeline`, `exists_evalPipeline`, `evalPipeline_of_notMem`,
`evalPipeline_capture`, `undefinedVariable_of_evalPipeline`, `undefinedFunction_of_evalPipeline`.
-/

import BoundQuery.Proofs.Fallible
import BoundQuery.Proofs.Template.Parts
import BoundQuery.Run.Pipeline

namespace BoundQuery.Run

open Template (Operand Command Pipeline captureName operandIdentifiers commandIdentifiers
  operandVariables commandVariables)
open Text (Pos)

/-! ### Failures -/

/-- A fault that lies with a value, as evaluation comes to it. -/
def EvalFault.Ordinary : EvalFault → Prop
  | missingField _ | nilPointer _ | notAMap _ _ | indexOutOfRange _ _ | notAFunction _ | call _ _ =>
    True
  | _ => False

/-- A fault that evaluation has: it lies with a value, or with the name of a variable or function. -/
def EvalFault.OfEvaluation : EvalFault → Prop
  | undefinedVariable _ | undefinedFunction _ => True
  | fault => fault.Ordinary

/-- The outcome is a value, or a failure that `F` allows. -/
def Evaluated {α : Type} (F : EvalFault → Prop) (outcome : Except EvalError α) : Prop :=
  ∀ e, outcome = .error e → F e.fault

variable {F : EvalFault → Prop}

theorem evaluated_ok {α : Type} (a : α) : Evaluated F (.ok a) := nofun

theorem evaluated_error {α : Type} {pos : Pos} {fault : EvalFault} (h : F fault) :
    Evaluated F (.error ⟨pos, fault⟩ : Except EvalError α) := by
  rintro _ ⟨⟩
  exact h

theorem evaluated_follow (pos : Pos) (mode : Mode) (path : List String) (v : Value)
    (fields : List String) : Evaluated EvalFault.Ordinary (follow pos mode path v fields) := by
  fun_induction follow pos mode path v fields with
  | case1 => exact evaluated_ok _
  | case2 _ _ _ _ _ _ ih => exact ih
  | case3 => exact evaluated_ok _
  | case4 => exact evaluated_error trivial
  | case5 => exact evaluated_ok _
  | case6 => exact evaluated_error trivial
  | case7 => exact evaluated_error trivial

theorem evaluated_indexAt (pos : Pos) (mode : Mode) (v : Value) (keys : List Value) :
    Evaluated EvalFault.Ordinary (indexAt pos mode v keys) := by
  induction keys generalizing v with
  | nil => exact evaluated_ok v
  | cons key keys ih =>
    unfold indexAt
    split
    · exact evaluated_ok _
    · split
      · split
        · exact ih _
        · split
          · exact evaluated_ok _
          · exact evaluated_error trivial
      · split
        · exact ih _
        · exact evaluated_error trivial

theorem evaluated_index (pos : Pos) (mode : Mode) (args : List Value) :
    Evaluated EvalFault.Ordinary (index pos mode args) := by
  cases args with
  | nil => exact evaluated_error trivial
  | cons v keys => exact evaluated_indexAt pos mode v keys

theorem evaluated_variable {scene : Scene} {name : String}
    (h : scene.bindings.lookup name = none → F (.undefinedVariable name)) (pos : Pos) :
    Evaluated F (scene.variable pos name) := by
  unfold Scene.variable
  split
  · exact evaluated_ok _
  · rename_i hlookup
    exact evaluated_error (h hlookup)

/-! ### Captured values -/

/-- A property of captured values that holds of none, and of values captured one after the other; and
faults among which are the ordinary ones. -/
structure Accumulates (P : List Value → Prop) (F : EvalFault → Prop) : Prop where
  nil : P []
  append {first then_ : List Value} : P first → P then_ → P (then_ ++ first)
  ordinary {fault : EvalFault} : fault.Ordinary → F fault

/-- What evaluation may capture, and how it may fail, where these variables and functions are named. -/
structure Allows (P : List Value → Prop) (F : EvalFault → Prop) (scene : Scene)
    (used functions : List String) : Prop extends Accumulates P F where
  capture : captureName ∈ functions → ∀ v, P [v]
  undefinedVariable {name : String} :
    name ∈ used → scene.bindings.lookup name = none → F (.undefinedVariable name)
  undefinedFunction {name : String} :
    name ∈ functions → name ≠ captureName → scene.functions.resolves name = false →
    F (.undefinedFunction name)

theorem Allows.mono {P : List Value → Prop} {scene : Scene}
    {used used' functions functions' : List String} (h : Allows P F scene used functions)
    (hused : ∀ x ∈ used', x ∈ used) (hfunctions : ∀ f ∈ functions', f ∈ functions) :
    Allows P F scene used' functions' where
  toAccumulates := h.toAccumulates
  capture hcapture := h.capture (hfunctions _ hcapture)
  undefinedVariable hname := h.undefinedVariable (hused _ hname)
  undefinedFunction hname := h.undefinedFunction (hfunctions _ hname)

namespace Eval

variable {α β : Type} {P : List Value → Prop}

/-- The evaluation has one outcome, which is no failure but one that `F` allows, and captures the same
values, which satisfy `P`, whatever was captured before. -/
def Adds (P : List Value → Prop) (F : EvalFault → Prop) (e : Eval α) : Prop :=
  ∃ outcome added, Evaluated F outcome ∧ P added ∧
    ∀ captured, e captured = (outcome, added ++ captured)

section Closure

variable (acc : Accumulates P F)
include acc

theorem adds_pure (a : α) : Adds P F (pure a : Eval α) :=
  ⟨.ok a, [], evaluated_ok a, acc.nil, fun _ => rfl⟩

theorem adds_fail (pos : Pos) {fault : EvalFault} (h : F fault) :
    Adds P F (fail pos fault : Eval α) :=
  ⟨.error ⟨pos, fault⟩, [], evaluated_error h, acc.nil, fun _ => rfl⟩

theorem adds_liftExcept {x : Except EvalError α} (h : Evaluated F x) :
    Adds P F (liftExcept x : Eval α) :=
  ⟨x, [], h, acc.nil, fun _ => by cases x <;> rfl⟩

theorem adds_ordinary {x : Except EvalError α} (h : Evaluated EvalFault.Ordinary x) :
    Adds P F (liftExcept x : Eval α) :=
  adds_liftExcept acc fun e he => acc.ordinary (h e he)

theorem adds_ofCall (pos : Pos) (name : String) (x : Except CallFault Value) :
    Adds P F (ofCall pos name x) := by
  cases x with
  | ok v => exact adds_pure acc v
  | error fault => exact adds_fail acc pos (acc.ordinary trivial)

theorem adds_bind {e : Eval α} {f : α → Eval β} (he : Adds P F e) (hf : ∀ a, Adds P F (f a)) :
    Adds P F (e >>= f) := by
  obtain ⟨outcome, added, heval, hadded, he⟩ := he
  cases outcome with
  | error err =>
    have herr : Evaluated F (.error err : Except EvalError β) := by
      rintro _ ⟨⟩
      exact heval err rfl
    exact ⟨.error err, added, herr, hadded, fun captured => by rw [bind_apply, he]⟩
  | ok a =>
    obtain ⟨outcome, added', heval', hadded', hf⟩ := hf a
    refine ⟨outcome, added' ++ added, heval', acc.append hadded hadded', ?_⟩
    intro captured
    rw [bind_apply, he]
    simp [hf]

theorem adds_all {es : List (Eval Value)} (h : ∀ e ∈ es, Adds P F e) : Adds P F (all es) := by
  induction es with
  | nil => exact adds_pure acc []
  | cons e rest ih =>
    rw [all]
    refine adds_bind acc (h e (by simp)) fun v => ?_
    exact adds_bind acc (ih fun e he => h e (by simp [he])) fun vs => adds_pure acc (v :: vs)

theorem adds_firstDeciding {es : List (Eval Value)} (h : ∀ e ∈ es, Adds P F e) (decides : Bool)
    (piped : Option Value) (last : Value) : Adds P F (firstDeciding decides piped last es) := by
  induction es generalizing last with
  | nil => exact adds_pure acc _
  | cons e rest ih =>
    rw [firstDeciding]
    refine adds_bind acc (h e (by simp)) fun v => ?_
    split
    · exact adds_pure acc v
    · exact ih (fun e he => h e (by simp [he])) v

end Closure

end Eval

/-! ### Calls -/

section Evaluation

open Eval

variable {P : List Value → Prop} {scene : Scene} {used functions : List String}

theorem adds_applyFunction (allows : Allows P F scene used functions) {name : String}
    (hname : name ∈ functions) (pos : Pos) (args : List Value) :
    Adds P F (applyFunction scene pos name args) := by
  have acc := allows.toAccumulates
  unfold applyFunction
  split
  · rename_i hcapture
    split
    · rename_i v
      have hv : P [v] := allows.capture (beq_iff_eq.mp hcapture ▸ hname) v
      exact ⟨.ok (.string "?"), [v], evaluated_ok _, hv, fun _ => rfl⟩
    · exact adds_fail acc pos (acc.ordinary trivial)
  · rename_i hcapture
    split
    · exact adds_ofCall acc pos name _
    · rename_i hregistered
      split
      · exact adds_ordinary acc (evaluated_index _ _ _)
      · exact adds_ofCall acc pos name _
      · rename_i hbuiltin
        refine adds_fail acc pos (allows.undefinedFunction hname (by simpa using hcapture) ?_)
        have hcontains : Entries.contains name scene.functions = false := by
          simp [Entries.contains, hregistered]
        simp [Registry.resolves, hcontains, hbuiltin]

theorem adds_call (allows : Allows P F scene used functions) {name : String}
    (hname : name ∈ functions) (pos : Pos) {operands : List (Eval Value)}
    (hops : ∀ e ∈ operands, Adds P F e) (piped : Option Value) :
    Adds P F (call scene pos name operands piped) := by
  have acc := allows.toAccumulates
  unfold call
  split
  · split
    · exact adds_fail acc pos (acc.ordinary trivial)
    · exact adds_firstDeciding acc hops _ piped .null
  · exact adds_bind acc (adds_all acc hops) fun args => adds_applyFunction allows hname pos _

/-! ### Operands, commands and pipelines -/

mutual

theorem adds_evalOperand (pos : Pos) :
    ∀ o : Operand, Allows P F scene o.variables o.identifiers → Adds P F (evalOperand scene pos o)
  | .dot, h => adds_pure h.toAccumulates _
  | .field _, h => adds_ordinary h.toAccumulates (evaluated_follow _ _ _ _ _)
  | .variable name fields, h => by
    have hname : name ∈ (Operand.variable name fields).variables := List.mem_singleton_self name
    refine adds_bind h.toAccumulates (adds_liftExcept h.toAccumulates
      (evaluated_variable (h.undefinedVariable hname) pos)) fun _ => ?_
    exact adds_ordinary h.toAccumulates (evaluated_follow _ _ _ _ _)
  | .identifier name, h => by
    have hname : name ∈ (Operand.identifier name).identifiers := List.mem_singleton_self name
    exact adds_call h hname pos (by simp) none
  | .chain base _, h => by
    have hbase : Allows P F scene base.variables base.identifiers :=
      h.mono (fun _ hx => hx) fun _ hf => hf
    exact adds_bind h.toAccumulates (adds_evalOperand pos base hbase) fun _ =>
      adds_ordinary h.toAccumulates (evaluated_follow _ _ _ _ _)
  | .pipe p, h => adds_evalPipeline p (h.mono (fun _ hx => hx) fun _ hf => hf)
  | .string _, h => adds_pure h.toAccumulates _
  | .number _, h => adds_pure h.toAccumulates _
  | .bool _, h => adds_pure h.toAccumulates _
  | .nil, h => adds_pure h.toAccumulates _

theorem adds_evalOperands (pos : Pos) :
    ∀ operands : List Operand,
      Allows P F scene (operandVariables operands) (operandIdentifiers operands) →
      ∀ e ∈ evalOperands scene pos operands, Adds P F e
  | [], _ => by simp [evalOperands]
  | o :: rest, h => by
    intro e he
    rcases List.mem_cons.mp he with rfl | he
    · refine adds_evalOperand pos o (h.mono ?_ ?_)
      · exact fun _ => List.mem_append_left _
      · exact fun _ => List.mem_append_left _
    · refine adds_evalOperands pos rest (h.mono ?_ ?_) e he
      · exact fun _ => List.mem_append_right _
      · exact fun _ => List.mem_append_right _

theorem adds_evalCommand (piped : Option Value) :
    ∀ c : Command, Allows P F scene c.variables c.identifiers →
      Adds P F (evalCommand scene piped c)
  | ⟨_, []⟩, h => adds_pure h.toAccumulates _
  | ⟨pos, first :: rest⟩, h => by
    by_cases hfirst : ∃ name, first = .identifier name
    · obtain ⟨name, rfl⟩ := hfirst
      have hname : name ∈ (Command.mk pos (.identifier name :: rest)).identifiers :=
        List.mem_append_left _ (List.mem_singleton_self name)
      refine adds_call h hname pos (adds_evalOperands pos rest (h.mono ?_ ?_)) piped
      · exact fun _ => List.mem_append_right _
      · exact fun _ => List.mem_append_right _
    · rw [evalCommand.eq_3 _ _ _ _ _ fun name hname => hfirst ⟨name, hname⟩]
      split
      · exact adds_fail h.toAccumulates pos (h.ordinary trivial)
      · refine adds_evalOperand pos first (h.mono ?_ ?_)
        · exact fun _ => List.mem_append_left _
        · exact fun _ => List.mem_append_left _

theorem adds_evalCommands (piped : Option Value) :
    ∀ commands : List Command,
      Allows P F scene (commandVariables commands) (commandIdentifiers commands) →
      Adds P F (evalCommands scene piped commands)
  | [], h => adds_pure h.toAccumulates _
  | c :: rest, h => by
    refine adds_bind h.toAccumulates (adds_evalCommand piped c (h.mono ?_ ?_)) fun v =>
      adds_evalCommands (some v) rest (h.mono ?_ ?_)
    · exact fun _ => List.mem_append_left _
    · exact fun _ => List.mem_append_left _
    · exact fun _ => List.mem_append_right _
    · exact fun _ => List.mem_append_right _

/-- Evaluation adds values that satisfy `P` to those captured before, and fails as `F` allows. What
has to be shown depends on the names in the pipeline. -/
theorem adds_evalPipeline :
    ∀ p : Pipeline, Allows P F scene p.variables p.identifiers → Adds P F (evalPipeline scene p)
  | ⟨_, _, _, commands⟩, h =>
    adds_evalCommands none commands (h.mono (fun _ => List.mem_append_right _) fun _ hf => hf)

end

/-- Whatever was captured before, the outcome of evaluation is the same, and so is what it adds. It
does not fail as a run does for a called template, a loop or a mark. -/
theorem exists_evalPipeline (scene : Scene) (p : Pipeline) :
    ∃ outcome added, Evaluated EvalFault.OfEvaluation outcome ∧
      ∀ captured, evalPipeline scene p captured = (outcome, added ++ captured) := by
  have allows : Allows (fun _ => True) EvalFault.OfEvaluation scene p.variables p.identifiers :=
    { nil := trivial
      append := fun _ _ => trivial
      ordinary := by
        intro fault hordinary
        cases fault <;> first | exact hordinary | trivial
      capture := fun _ _ => trivial
      undefinedVariable := fun _ _ => trivial
      undefinedFunction := fun _ _ _ => trivial }
  obtain ⟨outcome, added, heval, -, hp⟩ := adds_evalPipeline p allows
  exact ⟨outcome, added, heval, hp⟩

/-- Evaluation fails for an undefined variable only if the pipeline uses it and it is not in scope. -/
theorem undefinedVariable_of_evalPipeline {p : Pipeline} {captured : List Value} {pos : Pos}
    {name : String} (h : (evalPipeline scene p captured).1 = .error ⟨pos, .undefinedVariable name⟩) :
    name ∈ p.variables ∧ scene.bindings.lookup name = none := by
  have allows : Allows (fun _ => True)
      (fun fault => ∀ x, fault = .undefinedVariable x →
        x ∈ p.variables ∧ scene.bindings.lookup x = none) scene p.variables p.identifiers :=
    { nil := trivial
      append := fun _ _ => trivial
      ordinary := by
        rintro _ hordinary x rfl
        exact hordinary.elim
      capture := fun _ _ => trivial
      undefinedVariable := by
        rintro name hname hlookup x ⟨⟩
        exact ⟨hname, hlookup⟩
      undefinedFunction := by
        rintro name _ _ _ x ⟨⟩ }
  obtain ⟨outcome, added, heval, -, hp⟩ := adds_evalPipeline p allows
  rw [hp] at h
  exact heval _ h name rfl

/-- Evaluation fails for an undefined function only if the pipeline names it and it is not known. -/
theorem undefinedFunction_of_evalPipeline {p : Pipeline} {captured : List Value} {pos : Pos}
    {name : String} (h : (evalPipeline scene p captured).1 = .error ⟨pos, .undefinedFunction name⟩) :
    name ∈ p.identifiers ∧ name ≠ captureName ∧ scene.functions.resolves name = false := by
  have allows : Allows (fun _ => True)
      (fun fault => ∀ f, fault = .undefinedFunction f →
        f ∈ p.identifiers ∧ f ≠ captureName ∧ scene.functions.resolves f = false)
      scene p.variables p.identifiers :=
    { nil := trivial
      append := fun _ _ => trivial
      ordinary := by
        rintro _ hordinary f rfl
        exact hordinary.elim
      capture := fun _ _ => trivial
      undefinedVariable := by
        rintro name _ _ f ⟨⟩
      undefinedFunction := by
        rintro name hname hcapture hresolves f ⟨⟩
        exact ⟨hname, hcapture, hresolves⟩ }
  obtain ⟨outcome, added, heval, -, hp⟩ := adds_evalPipeline p allows
  rw [hp] at h
  exact heval _ h name rfl

/-! ### Capturing -/

/-- The value of a pipeline that does not name the capture function, and that nothing is captured on
the way. -/
theorem evalPipeline_of_notMem {p : Pipeline} (h : captureName ∉ p.identifiers) (scene : Scene) :
    ∃ outcome, Evaluated (· ≠ .adjacentPlaceholder) outcome ∧
      ∀ captured, evalPipeline scene p captured = (outcome, captured) := by
  have allows : Allows (· = []) (· ≠ .adjacentPlaceholder) scene p.variables p.identifiers :=
    { nil := rfl
      append := by
        rintro _ _ rfl rfl
        rfl
      ordinary := by
        rintro _ hordinary rfl
        exact hordinary
      capture := fun hmem => absurd hmem h
      undefinedVariable := fun _ _ => nofun
      undefinedFunction := fun _ _ _ => nofun }
  obtain ⟨outcome, added, heval, rfl, hp⟩ := adds_evalPipeline p allows
  exact ⟨outcome, heval, hp⟩

/-- Commands after others go on with the value of those. -/
theorem evalCommands_append (scene : Scene) (piped : Option Value) {first : List Command}
    (h : first ≠ []) (rest : List Command) :
    evalCommands scene piped (first ++ rest) =
      evalCommands scene piped first >>= fun v => evalCommands scene (some v) rest := by
  induction first generalizing piped with
  | nil => exact absurd rfl h
  | cons c first ih =>
    cases first with
    | nil => simp [evalCommands]
    | cons d first =>
      have hd := fun v => ih (some v) (List.cons_ne_nil d first)
      simp only [List.cons_append] at hd ⊢
      rw [evalCommands, evalCommands, bind_assoc]
      simp only [hd]

/-- The operands of the capture function all count. -/
theorem decides?_captureName (scene : Scene) : decides? scene captureName = none := by
  unfold decides?
  split <;> rfl

theorem evalCommand_capture (scene : Scene) (pos : Pos) (v : Value) :
    evalCommand scene (some v) ⟨pos, [.identifier captureName]⟩ = Eval.capture v := by
  simp [evalCommand, call, decides?_captureName, evalOperands, all, applyFunction]

/-- Without a value handed on the capture function fails. -/
theorem evalCommand_capture_none (scene : Scene) (pos : Pos) :
    evalCommand scene none ⟨pos, [.identifier captureName]⟩ =
      Eval.fail pos (.call captureName (.wrongCount 0 1)) := by
  simp [evalCommand, call, decides?_captureName, evalOperands, all, applyFunction]

/-- A pipeline whose value is handed on to the capture function yields what capturing the value
does. -/
theorem evalPipeline_capture (scene : Scene) {p : Pipeline} (h : p.commands ≠ []) (pos : Pos) :
    evalPipeline scene { p with commands := p.commands ++ [⟨pos, [.identifier captureName]⟩] } =
      evalPipeline scene p >>= Eval.capture := by
  obtain ⟨pos', assigns, names, commands⟩ := p
  simp only [evalPipeline]
  rw [evalCommands_append scene none h]
  simp [evalCommands, evalCommand_capture]

end Evaluation

end BoundQuery.Run
