/-
# Checks do not look at places

Whether a template passes its checks does not depend on where its parts stand: places are told in
messages alone. So templates that differ in places at most pass them together.

Main statements: `checkedNodes_unplaced`, `definitionsChecked_of_unplaced`.
-/

import BoundQuery.Proofs.Template.Following
import BoundQuery.Proofs.Template.Unplaced

namespace BoundQuery.Template

open Text (Pos)

/-! ### Pipelines -/

section Pipelines

variable {names : Names}

theorem leads_unplaced (o : Operand) : o.unplaced.leads = o.leads := by
  cases o <;> rfl

theorem unplaced_eq_nil_iff {o : Operand} : o.unplaced = .nil ↔ o = .nil := by
  cases o <;> simp [Operand.unplaced]

theorem executable_unplaced (stage : Nat) (c : Command) :
    c.unplaced.Executable stage ↔ c.Executable stage := by
  obtain ⟨pos, operands⟩ := c
  cases operands with
  | nil =>
    constructor
    · intro h
      exact absurd rfl h.operands_ne_nil
    · intro h
      exact absurd rfl h.operands_ne_nil
  | cons first rest =>
    rw [Command.unplaced, unplacedOperands]
    cases hleads : first.leads with
    | true =>
      have hunplaced : first.unplaced.leads = true := (leads_unplaced first).trans hleads
      exact iff_of_true (.leads hunplaced) (.leads hleads)
    | false =>
      have hunplaced : first.unplaced.leads = false := (leads_unplaced first).trans hleads
      have hempty : unplacedOperands rest = [] ↔ rest = [] := by
        cases rest <;> simp [unplacedOperands]
      rw [executable_iff_of_not_leads hunplaced, executable_iff_of_not_leads hleads, hempty, Ne, Ne,
        unplaced_eq_nil_iff]

/-- The check of a pipeline looks at its names, and at its commands. -/
theorem checkPipeline_iff {most : Nat} {construct : Construct} {pos : Pos} {assigns : Bool}
    {declared : List String} {commands : List Command} :
    names.checkPipeline most construct ⟨pos, assigns, declared, commands⟩ = .ok () ↔
      declared.length ≤ most ∧ (assigns = true → ∀ x ∈ declared, x ∈ names.scope) ∧
        names.checkCommands 0 commands = .ok () := by
  rw [Names.checkPipeline]
  by_cases hlength : most < declared.length
  · rw [if_pos hlength]
    constructor
    · intro h
      cases h
    · intro h
      exact absurd hlength (Nat.not_lt.mpr h.1)
  · rw [if_neg hlength]
    have hle := Nat.le_of_not_lt hlength
    cases assigns with
    | false =>
      rw [if_neg Bool.false_ne_true]
      constructor
      · intro h
        exact ⟨hle, fun h => (Bool.false_ne_true h).elim, h⟩
      · intro h
        exact h.2.2
    | true =>
      rw [if_pos rfl, check_bind_eq_ok_iff, Names.checkVariables_eq_ok_iff]
      constructor
      · intro h
        exact ⟨hle, fun _ => h.1, h.2⟩
      · intro h
        exact ⟨h.2.1 rfl, h.2.2⟩

mutual

theorem checkOperand_unplaced {pos pos' : Pos} : ∀ o : Operand,
    names.checkOperand pos o.unplaced = .ok () ↔ names.checkOperand pos' o = .ok ()
  | .identifier _ => by
    rw [Operand.unplaced, Names.checkOperand, Names.checkOperand, Names.checkFunction_eq_ok_iff,
      Names.checkFunction_eq_ok_iff]
    all_goals simp
  | .variable _ _ => by
    rw [Operand.unplaced, Names.checkOperand, Names.checkOperand, Names.checkVariable_eq_ok_iff,
      Names.checkVariable_eq_ok_iff]
    all_goals simp
  | .pipe p => by
    rw [Operand.unplaced, Names.checkOperand, Names.checkOperand]
    exact checkPipeline_unplaced p
  | .chain base _ => by
    rw [Operand.unplaced, Names.checkOperand, Names.checkOperand]
    exact checkOperand_unplaced base
  | .dot | .field _ | .string _ | .number _ | .bool _ | .nil => by
    simp [Operand.unplaced, Names.checkOperand]

theorem checkOperands_unplaced {pos pos' : Pos} : ∀ operands : List Operand,
    names.checkOperands pos (unplacedOperands operands) = .ok () ↔
      names.checkOperands pos' operands = .ok ()
  | [] => Iff.rfl
  | o :: rest => by
    rw [unplacedOperands, Names.checkOperands, Names.checkOperands, check_bind_eq_ok_iff,
      check_bind_eq_ok_iff, checkOperand_unplaced o, checkOperands_unplaced rest]

theorem checkCommand_unplaced {stage : Nat} : ∀ c : Command,
    names.checkCommand stage c.unplaced = .ok () ↔ names.checkCommand stage c = .ok ()
  | ⟨pos, operands⟩ => by
    have hshape := executable_unplaced stage ⟨pos, operands⟩
    rw [← checkShape_eq_ok_iff, ← checkShape_eq_ok_iff, Command.unplaced] at hshape
    rw [Command.unplaced, Names.checkCommand, Names.checkCommand, check_bind_eq_ok_iff,
      check_bind_eq_ok_iff, hshape, checkOperands_unplaced operands]

theorem checkCommands_unplaced {stage : Nat} : ∀ commands : List Command,
    names.checkCommands stage (unplacedCommands commands) = .ok () ↔
      names.checkCommands stage commands = .ok ()
  | [] => Iff.rfl
  | c :: rest => by
    rw [unplacedCommands, Names.checkCommands, Names.checkCommands, check_bind_eq_ok_iff,
      check_bind_eq_ok_iff, checkCommand_unplaced c, checkCommands_unplaced rest]

theorem checkPipeline_unplaced {most : Nat} {construct : Construct} : ∀ p : Pipeline,
    names.checkPipeline most construct p.unplaced = .ok () ↔
      names.checkPipeline most construct p = .ok ()
  | ⟨pos, assigns, declared, commands⟩ => by
    rw [Pipeline.unplaced, checkPipeline_iff, checkPipeline_iff, checkCommands_unplaced commands]

end

/-- What a pipeline declares does not depend on places. -/
theorem declare_unplaced (names : Names) (p : Pipeline) : names.declare p.unplaced = names.declare p := by
  cases p
  rfl

end Pipelines

/-! ### Nodes -/

theorem after_unplaced (names : Names) (n : Node) : names.after n.unplaced = names.after n := by
  cases n with
  | action p => exact declare_unplaced names p
  | text | control | invoke | jump => rfl

theorem afterAll_unplaced (names : Names) (nodes : List Node) :
    names.afterAll (unplacedNodes nodes) = names.afterAll nodes := by
  induction nodes generalizing names with
  | nil => rfl
  | cons n rest ih =>
    calc names.afterAll (unplacedNodes (n :: rest))
      _ = (names.after n.unplaced).afterAll (unplacedNodes rest) := rfl
      _ = (names.after n).afterAll rest := by rw [after_unplaced, ih]
      _ = names.afterAll (n :: rest) := rfl

mutual

theorem checked_unplaced {names : Names} {inLoop : Bool} : ∀ n : Node,
    n.unplaced.Checked names inLoop ↔ n.Checked names inLoop
  | .text _ | .jump _ _ => Iff.rfl
  | .action p => checkPipeline_unplaced p
  | .control kind pos p body otherwise => by
    rw [Node.unplaced, Node.Checked, Node.Checked, checkPipeline_unplaced, declare_unplaced,
      checkedNodes_unplaced body, afterAll_unplaced, checkedOtherwise_unplaced otherwise]
  | .invoke pos name data => by
    rw [Node.unplaced, Node.Checked, Node.Checked]
    cases data with
    | none => simp
    | some p => simp [checkPipeline_unplaced]

theorem checkedNodes_unplaced {names : Names} {inLoop : Bool} : ∀ nodes : List Node,
    CheckedNodes names inLoop (unplacedNodes nodes) ↔ CheckedNodes names inLoop nodes
  | [] => Iff.rfl
  | n :: rest => by
    rw [unplacedNodes, CheckedNodes, CheckedNodes, checked_unplaced n, after_unplaced,
      checkedNodes_unplaced rest]

theorem checkedOtherwise_unplaced {names : Names} {inLoop : Bool} :
    ∀ otherwise : Option (List Node),
      CheckedOtherwise names inLoop (unplacedOtherwise otherwise) ↔
        CheckedOtherwise names inLoop otherwise
  | none => Iff.rfl
  | some nodes => by
    rw [unplacedOtherwise, CheckedOtherwise, CheckedOtherwise, checkedNodes_unplaced nodes]

end

theorem CheckedNodes.of_unplaced {names : Names} {inLoop : Bool} {nodes others : List Node}
    (h : CheckedNodes names inLoop nodes) (hsame : unplacedNodes others = unplacedNodes nodes) :
    CheckedNodes names inLoop others := by
  rw [← checkedNodes_unplaced, hsame, checkedNodes_unplaced]
  exact h

/-! ### Definitions -/

/-- Definitions that differ in places at most pass their checks together. -/
theorem definitionsChecked_of_unplaced {isFunction : String → Bool} {defs others : Definitions}
    (h : DefinitionsChecked isFunction defs)
    (hsame : unplacedDefinitions others = unplacedDefinitions defs) :
    DefinitionsChecked isFunction others := by
  intro d hd
  have hmem : (d.1, unplacedNodes d.2) ∈ unplacedDefinitions defs := by
    rw [← hsame]
    exact List.mem_map.mpr ⟨d, hd, rfl⟩
  obtain ⟨e, he, heq⟩ := List.mem_map.mp hmem
  exact (h e he).of_unplaced (congrArg Prod.snd heq).symm

end BoundQuery.Template
