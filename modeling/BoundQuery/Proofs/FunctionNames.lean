/-
# Names of functions

A compiler is built only with functions that templates can call. The names that it accepts are said
by a list of words; which texts are read as a function is said by the grammar of actions, where each
of these words stands in another rule. The two agree on every text.

Main statement: `functionNames_callable`.
-/

import BoundQuery.Compiler
import BoundQuery.Proofs.Template.Rereading

namespace BoundQuery.Compiler

open Template

/-! ### Names that are accepted -/

theorem isIdentifier_iff (name : String) : isIdentifier name = true ↔ IsIdentifier name := by
  unfold isIdentifier IsIdentifier
  cases hname : name.toList with
  | nil => simp [Scan.identifier, Scan.satisfy, bind]
  | cons c cs =>
    rw [Scan.identifier_cons]
    by_cases hstart : isIdentifierStart c = true
    · rw [if_pos hstart]
      dsimp only
      rw [List.isEmpty_iff, List.dropWhile_eq_nil_iff]
      constructor
      · intro hchars
        exact ⟨c, cs, rfl, hstart, hchars⟩
      · rintro ⟨d, ds, heq, -, hchars⟩
        obtain ⟨-, rfl⟩ := List.cons.inj heq
        exact hchars
    · rw [if_neg hstart]
      simp only [Bool.false_eq_true, false_iff, not_exists]
      rintro d ds ⟨heq, hfirst, -⟩
      obtain ⟨rfl, -⟩ := List.cons.inj heq
      exact hstart hfirst

/-- The words that cannot name a function are those that tell clauses from pipelines, and those that
are read as literals. -/
theorem keywords_eq : keywords = Template.keywords ++ literalWords :=
  rfl

theorem isFunctionName_iff (name : String) :
    isFunctionName name = true ↔
      IsIdentifier name ∧ name ∉ Template.keywords ∧ name ∉ literalWords := by
  unfold isFunctionName
  rw [Bool.and_eq_true, isIdentifier_iff, Bool.not_eq_true', List.contains_eq_mem,
    decide_eq_false_iff_not, keywords_eq, List.mem_append, not_or]

/-! ### Names that are called -/

/-- All that the clause says is a call of the function, without arguments. -/
def CallsOnly (name : String) (c : Clause) : Prop :=
  ∃ pos start, c = .pipeline ⟨pos, false, [], [⟨start, [.identifier name]⟩]⟩

/-- Read as an action, the text is a call of the function with this name. -/
def IsCallable (name : String) : Prop :=
  ∃ action, readAction (locateIn .start name.toList) name.toList = .ok action ∧
    CallsOnly name action.clause

/-- The clause that calls a function, as if it stood at the start of a source. -/
def callOf (name : String) : Clause :=
  .pipeline ⟨.start, false, [], [⟨.start, [.identifier name]⟩]⟩

theorem render_callOf (name : String) : (callOf name).render = name.toList :=
  rfl

theorem lexical_callOf {name : String} (hname : IsIdentifier name)
    (hkeyword : name ∉ Template.keywords) (hliteral : name ∉ literalWords) :
    (callOf name).Lexical fun _ => True := by
  have hoperand : Operand.Lexical (fun _ => True) (.identifier name) :=
    .identifier ⟨hname, trivial⟩ hliteral
  refine ⟨.mk (by simp) ?_ (by simp) (by simp) fun _ => rfl, ?_⟩
  · rintro c hc
    cases List.mem_singleton.mp hc
    refine .mk (by simp) fun o ho => ?_
    cases List.mem_singleton.mp ho
    exact hoperand
  · intro _ c hc word hword
    cases hc
    cases hword
    exact hkeyword

theorem legible_callOf (name : String) : (callOf name).Legible := by
  refine ⟨fun p hp t ht => ?_, by simp [callOf, Clause.names]⟩
  cases List.mem_singleton.mp hp
  cases List.mem_singleton.mp ht
  trivial

theorem unplacedOperands_eq_map (operands : List Operand) :
    unplacedOperands operands = operands.map Operand.unplaced := by
  induction operands with
  | nil => rfl
  | cons o rest ih => rw [unplacedOperands, ih, List.map_cons]

theorem unplacedCommands_eq_map (commands : List Command) :
    unplacedCommands commands = commands.map Command.unplaced := by
  induction commands with
  | nil => rfl
  | cons c rest ih => rw [unplacedCommands, ih, List.map_cons]

/-- A clause that differs from the call of a function in places at most is a call of it. -/
theorem callsOnly_of_same {name : String} {c : Clause} (h : c.Same (callOf name)) :
    CallsOnly name c := by
  obtain ⟨p, rfl, hp⟩ : ∃ p, c = .pipeline p ∧
      p.unplaced = Pipeline.unplaced ⟨.start, false, [], [⟨.start, [.identifier name]⟩]⟩ := by
    cases h with
    | pipeline hp => exact ⟨_, rfl, hp⟩
  obtain ⟨pos, assigns, names, commands⟩ := p
  simp only [Pipeline.unplaced, Pipeline.mk.injEq, true_and] at hp
  obtain ⟨rfl, rfl, hcommands⟩ := hp
  -- There is one command with one operand, as in the call.
  rw [unplacedCommands_eq_map] at hcommands
  obtain ⟨⟨start, operands⟩, rfl, hcommand⟩ := List.map_eq_singleton_iff.mp hcommands
  have hoperands : unplacedOperands operands = [.identifier name] :=
    congrArg Command.operands hcommand
  rw [unplacedOperands_eq_map] at hoperands
  obtain ⟨o, rfl, ho⟩ := List.map_eq_singleton_iff.mp hoperands
  cases o with
  | identifier =>
    cases ho
    exact ⟨pos, start, rfl⟩
  | _ => cases ho

/-- A name is accepted if and only if it is read as a call of the function that has it. -/
theorem isFunctionName_iff_isCallable (name : String) :
    isFunctionName name = true ↔ IsCallable name := by
  rw [isFunctionName_iff]
  constructor
  · rintro ⟨hname, hkeyword, hliteral⟩
    obtain ⟨action, hread, hsame⟩ := readAction_render (lexical_callOf hname hkeyword hliteral)
      (legible_callOf name) (locateIn .start name.toList)
    rw [render_callOf] at hread
    exact ⟨action, hread, callsOnly_of_same hsame⟩
  · rintro ⟨action, hread, pos, start, hclause⟩
    obtain ⟨-, hlexical⟩ := lexical_readAction (r := .anywhere) trivial hread
    rw [hclause] at hlexical
    obtain ⟨⟨-, hcommands, -⟩, hunreserved⟩ := hlexical
    obtain ⟨-, hoperands⟩ := hcommands _ List.mem_cons_self
    obtain ⟨hshape, hliteral⟩ : IdentifierOf Region.anywhere.word name ∧ name ∉ literalWords := by
      cases hoperands _ List.mem_cons_self with
      | identifier hidentifier hliteral => exact ⟨hidentifier, hliteral⟩
    exact ⟨hshape.shape, hunreserved rfl _ rfl name rfl, hliteral⟩

/-! ### Building -/

theorem checkName_eq_ok_iff (name : String) :
    checkName name = .ok () ↔ name ≠ captureName ∧ isFunctionName name = true := by
  unfold checkName
  by_cases hcapture : name = captureName
  · simp [hcapture]
  · by_cases hname : isFunctionName name = true <;> simp [hcapture, hname]

theorem forM_eq_ok_iff {α ε : Type} {check : α → Except ε Unit} {xs : List α} :
    xs.forM check = .ok () ↔ ∀ x ∈ xs, check x = .ok () := by
  induction xs with
  | nil => exact ⟨fun _ => by simp, fun _ => rfl⟩
  | cons x xs ih =>
    change check x >>= (fun _ => xs.forM check) = .ok () ↔ _
    rw [check_bind_eq_ok_iff, ih, List.forall_mem_cons]

theorem exists_build_iff (b : Builder) :
    (∃ c, b.build = .ok c) ↔ ∀ name ∈ Entries.keys b.functions, checkName name = .ok () := by
  rw [← forM_eq_ok_iff]
  unfold Builder.build
  constructor
  · rintro ⟨c, h⟩
    exact (check_bind_eq_ok_iff.mp h).1
  · intro h
    exact ⟨_, check_bind_eq_ok_iff.mpr ⟨h, rfl⟩⟩

/-- A text is accepted as the name of a function if and only if an action of this text calls the
function and says nothing else. So a compiler is built if and only if templates can call each of its
functions by its name, and none has the name of the function that captures values. -/
theorem functionNames_callable :
    (∀ name, isFunctionName name = true ↔ IsCallable name) ∧
    ∀ b : Builder, (∃ c, b.build = .ok c) ↔
      ∀ name ∈ Entries.keys b.functions, name ≠ captureName ∧ IsCallable name := by
  refine ⟨isFunctionName_iff_isCallable, fun b => ?_⟩
  rw [exists_build_iff]
  simp only [checkName_eq_ok_iff, isFunctionName_iff_isCallable]

/-- A name that starts with a keyword, and one with letters of another script. -/
example : isFunctionName "ifé" = true ∧ isFunctionName "with" = false := by
  decide +kernel

end BoundQuery.Compiler
