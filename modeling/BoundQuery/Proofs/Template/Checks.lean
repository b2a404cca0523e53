/-
# What the check of a pipeline says

A pipeline passes its check if and only if it has no more names on its left than allowed, each command
can be executed where it stands, the variables that are used are in scope, the functions that are
named are known, and the pipelines in parentheses set no variables and can be executed too.

Main statement: `checkPipeline_eq_ok_iff`.
-/

import BoundQuery.Proofs.Fallible
import BoundQuery.Proofs.Template.Parts
import BoundQuery.Template.Check

namespace BoundQuery.Template

open Text (Pos)

/-! ### Commands -/

/-- Operands that may start a command at any stage, with arguments after them. -/
def Operand.leads : Operand → Bool
  | .identifier _ | .field _ | .chain _ _ | .variable _ _ => true
  | _ => false

/-- A command that may stand after `stage` others. -/
inductive Command.Executable (stage : Nat) : Command → Prop
  | leads {pos : Pos} {first : Operand} {rest : List Operand} :
      first.leads = true → Executable stage ⟨pos, first :: rest⟩
  | single {pos : Pos} {o : Operand} : stage = 0 → o ≠ .nil → Executable stage ⟨pos, [o]⟩

/-- Commands that may stand in a row after `stage` others. -/
def ExecutableFrom (stage : Nat) : List Command → Prop
  | [] => True
  | c :: rest => c.Executable stage ∧ ExecutableFrom (stage + 1) rest

/-- Each command of the pipeline may stand where it does. -/
def Pipeline.Executable (p : Pipeline) : Prop :=
  ExecutableFrom 0 p.commands

theorem Command.Executable.operands_ne_nil {stage : Nat} {c : Command} (h : c.Executable stage) :
    c.operands ≠ [] := by
  cases h <;> exact List.cons_ne_nil _ _

theorem operands_ne_nil_of_executableFrom {stage : Nat} {commands : List Command}
    (h : ExecutableFrom stage commands) : ∀ c ∈ commands, c.operands ≠ [] := by
  induction commands generalizing stage with
  | nil => simp
  | cons first rest ih =>
    intro c hc
    rcases List.mem_cons.mp hc with rfl | hc
    · exact h.1.operands_ne_nil
    · exact ih h.2 c hc

theorem executableFrom_append {stage : Nat} {commands others : List Command} :
    ExecutableFrom stage (commands ++ others) ↔
      ExecutableFrom stage commands ∧ ExecutableFrom (stage + commands.length) others := by
  induction commands generalizing stage with
  | nil => simp [ExecutableFrom]
  | cons c rest ih =>
    rw [List.cons_append, ExecutableFrom, ExecutableFrom, ih, and_assoc, List.length_cons]
    have hstage : stage + 1 + rest.length = stage + (rest.length + 1) := by omega
    rw [hstage]

/-- An operand that leads no command stands alone, at the first stage, and is not the word for null. -/
theorem executable_iff_of_not_leads {stage : Nat} {pos : Pos} {first : Operand}
    {rest : List Operand} (h : first.leads = false) :
    Command.Executable stage ⟨pos, first :: rest⟩ ↔ first ≠ .nil ∧ stage = 0 ∧ rest = [] := by
  constructor
  · rintro (hleads | ⟨hstage, hnil⟩)
    · rw [h] at hleads
      cases hleads
    · exact ⟨hnil, hstage, rfl⟩
  · rintro ⟨hnil, hstage, rfl⟩
    exact .single hstage hnil

theorem checkShape_eq_ok_iff {stage : Nat} {c : Command} :
    Names.checkShape stage c = .ok () ↔ c.Executable stage := by
  rcases c with ⟨pos, _ | ⟨first, rest⟩⟩
  · constructor
    · intro h
      cases h
    · intro h
      exact absurd rfl h.operands_ne_nil
  · cases hleads : first.leads with
    | true =>
      have hexecutable : Command.Executable stage ⟨pos, first :: rest⟩ := .leads hleads
      cases first <;> simp_all [Names.checkShape, Operand.leads]
    | false =>
      rw [executable_iff_of_not_leads hleads]
      -- What is left for the check to look at are the stage and the operands after the first.
      rcases Nat.eq_zero_or_pos stage with rfl | hstage
      · cases first <;> cases rest <;> simp_all [Names.checkShape, Operand.leads]
      · have hlater : stage ≠ 0 := Nat.pos_iff_ne_zero.mp hstage
        cases first <;> simp_all [Names.checkShape, Operand.leads]

/-! ### Names -/

namespace Names

/-- The function is one that every template may call, or that is known. -/
def Knows (names : Names) (function : String) : Prop :=
  function = captureName ∨ names.isFunction function = true

/-- The names at hand allow for these variables and functions, and for these pipelines in
parentheses. -/
structure Admits (names : Names) (used functions : List String) (inner : List Pipeline) : Prop where
  inScope : ∀ x ∈ used, x ∈ names.scope
  functions : ∀ f ∈ functions, names.Knows f
  inner : ∀ q ∈ inner, q.names = [] ∧ q.Executable

variable {names : Names}

theorem admits_nil : names.Admits [] [] [] :=
  ⟨by simp, by simp, by simp⟩

theorem admits_append {used used' functions functions' : List String}
    {inner inner' : List Pipeline} :
    names.Admits (used ++ used') (functions ++ functions') (inner ++ inner') ↔
      names.Admits used functions inner ∧ names.Admits used' functions' inner' := by
  constructor
  · rintro ⟨hvariables, hfunctions, hinner⟩
    rw [List.forall_mem_append] at hvariables hfunctions hinner
    exact ⟨⟨hvariables.1, hfunctions.1, hinner.1⟩, ⟨hvariables.2, hfunctions.2, hinner.2⟩⟩
  · rintro ⟨⟨hvariables, hfunctions, hinner⟩, ⟨hvariables', hfunctions', hinner'⟩⟩
    refine ⟨?_, ?_, ?_⟩ <;> rw [List.forall_mem_append]
    · exact ⟨hvariables, hvariables'⟩
    · exact ⟨hfunctions, hfunctions'⟩
    · exact ⟨hinner, hinner'⟩

theorem checkVariable_eq_ok_iff {pos : Pos} {name : String} :
    names.checkVariable pos name = .ok () ↔ name ∈ names.scope := by
  simp [checkVariable]

theorem checkVariables_eq_ok_iff {pos : Pos} {used : List String} :
    names.checkVariables pos used = .ok () ↔ ∀ name ∈ used, name ∈ names.scope := by
  induction used with
  | nil => simp [checkVariables]
  | cons first rest ih =>
    rw [checkVariables, check_bind_eq_ok_iff, checkVariable_eq_ok_iff, ih, List.forall_mem_cons]

theorem checkFunction_eq_ok_iff {pos : Pos} {name : String} :
    names.checkFunction pos name = .ok () ↔ names.Knows name := by
  unfold checkFunction Knows
  by_cases hcapture : name = captureName <;> simp [hcapture]

end Names

/-! ### Operands, commands and pipelines -/

section Checks

variable {names : Names}

mutual

theorem checkOperand_eq_ok_iff {pos : Pos} :
    ∀ o : Operand,
      names.checkOperand pos o = .ok () ↔ names.Admits o.variables o.identifiers o.inner
  | .identifier name => by
    rw [Names.checkOperand, Names.checkFunction_eq_ok_iff]
    constructor
    · intro h
      exact ⟨by simp [Operand.variables], by simpa [Operand.identifiers] using h,
        by simp [Operand.inner]⟩
    · intro h
      exact h.functions name (List.mem_singleton_self name)
  | .variable name _ => by
    rw [Names.checkOperand, Names.checkVariable_eq_ok_iff]
    constructor
    · intro h
      exact ⟨by simpa [Operand.variables] using h, by simp [Operand.identifiers],
        by simp [Operand.inner]⟩
    · intro h
      exact h.inScope name (List.mem_singleton_self name)
  | .chain base _ => by
    rw [Names.checkOperand, Operand.variables, Operand.identifiers, Operand.inner]
    exact checkOperand_eq_ok_iff base
  | .pipe p => by
    rw [Names.checkOperand, Operand.variables, Operand.identifiers, Operand.inner,
      checkPipeline_eq_ok_iff p, Nat.le_zero, List.length_eq_zero_iff]
    constructor
    · rintro ⟨hnames, hexecutable, h⟩
      refine ⟨h.inScope, h.functions, ?_⟩
      rw [List.forall_mem_cons]
      exact ⟨⟨hnames, hexecutable⟩, h.inner⟩
    · rintro ⟨hvariables, hfunctions, hinner⟩
      rw [List.forall_mem_cons] at hinner
      exact ⟨hinner.1.1, hinner.1.2, hvariables, hfunctions, hinner.2⟩
  | .dot | .field _ | .string _ | .number _ | .bool _ | .nil => by
    simp [Names.checkOperand, Operand.variables, Operand.identifiers, Operand.inner,
      Names.admits_nil]

theorem checkOperands_eq_ok_iff {pos : Pos} :
    ∀ operands : List Operand,
      names.checkOperands pos operands = .ok () ↔
        names.Admits (operandVariables operands) (operandIdentifiers operands)
          (operandsInner operands)
  | [] => by simp [Names.checkOperands, operandVariables, operandIdentifiers, operandsInner,
      Names.admits_nil]
  | o :: rest => by
    rw [Names.checkOperands, operandVariables, operandIdentifiers, operandsInner,
      Names.admits_append, check_bind_eq_ok_iff, checkOperand_eq_ok_iff o,
      checkOperands_eq_ok_iff rest]

theorem checkCommand_eq_ok_iff {stage : Nat} :
    ∀ c : Command,
      names.checkCommand stage c = .ok () ↔
        c.Executable stage ∧ names.Admits c.variables c.identifiers c.inner
  | ⟨_, operands⟩ => by
    rw [Names.checkCommand, Command.variables, Command.identifiers, Command.inner,
      check_bind_eq_ok_iff, checkShape_eq_ok_iff, checkOperands_eq_ok_iff operands]

theorem checkCommands_eq_ok_iff {stage : Nat} :
    ∀ commands : List Command,
      names.checkCommands stage commands = .ok () ↔
        ExecutableFrom stage commands ∧
          names.Admits (commandVariables commands) (commandIdentifiers commands)
            (commandsInner commands)
  | [] => by simp [Names.checkCommands, ExecutableFrom, commandVariables, commandIdentifiers,
      commandsInner, Names.admits_nil]
  | c :: rest => by
    rw [Names.checkCommands, ExecutableFrom, commandVariables, commandIdentifiers, commandsInner,
      Names.admits_append, check_bind_eq_ok_iff, checkCommand_eq_ok_iff c,
      checkCommands_eq_ok_iff rest]
    exact and_and_and_comm

/-- What the check of a pipeline says. -/
theorem checkPipeline_eq_ok_iff {most : Nat} {construct : Construct} :
    ∀ p : Pipeline,
      names.checkPipeline most construct p = .ok () ↔
        p.names.length ≤ most ∧ p.Executable ∧ names.Admits p.variables p.identifiers p.inner
  | ⟨pos, assigns, declared, commands⟩ => by
    rw [Names.checkPipeline]
    by_cases hlength : most < declared.length
    · rw [if_pos hlength]
      constructor
      · intro h
        cases h
      · rintro ⟨hle, -⟩
        exact absurd hlength (Nat.not_lt.mpr hle)
    · rw [if_neg hlength]
      have hle := Nat.le_of_not_lt hlength
      have hcommands : names.checkCommands 0 commands = .ok () ↔ _ := checkCommands_eq_ok_iff commands
      cases assigns with
      | false =>
        rw [if_neg Bool.false_ne_true, hcommands, Pipeline.variables, if_neg Bool.false_ne_true]
        exact (and_iff_right hle).symm
      | true =>
        rw [if_pos rfl, check_bind_eq_ok_iff, Names.checkVariables_eq_ok_iff, hcommands]
        constructor
        · rintro ⟨hassigned, hexecutable, h⟩
          refine ⟨hle, hexecutable, ?_, h.functions, h.inner⟩
          rw [Pipeline.variables, if_pos rfl, List.forall_mem_append]
          exact ⟨hassigned, h.inScope⟩
        · rintro ⟨-, hexecutable, hvariables, hfunctions, hinner⟩
          rw [Pipeline.variables, if_pos rfl, List.forall_mem_append] at hvariables
          exact ⟨hvariables.1, hexecutable, hvariables.2, hfunctions, hinner⟩

end

/-- A pipeline that passes its check uses variables in scope. -/
theorem mem_scope_of_checkPipeline {most : Nat} {construct : Construct} {p : Pipeline}
    (h : names.checkPipeline most construct p = .ok ()) : ∀ x ∈ p.variables, x ∈ names.scope :=
  ((checkPipeline_eq_ok_iff p).mp h).2.2.inScope

end Checks

end BoundQuery.Template
