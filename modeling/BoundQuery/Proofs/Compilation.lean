/-
# Placeholders and arguments of statements

A compiled statement has as many placeholders as arguments. If the texts of the template have even
runs of question marks only, every run that succeeds leads to a statement, and its n-th placeholder
stands where the n-th argument was captured. With odd runs the numbers may agree although the places
do not: a question mark of a text right before a captured value pairs with the mark for it, and one
elsewhere takes its argument.

Main statements: `format_of_execute`, `placeholderOffsets_of_compile`.
-/

import BoundQuery.Compiler
import BoundQuery.Proofs.Run.Marks

namespace BoundQuery

open Template (captureName)
open Run (Emission emissions rendering placeholderOffsets argumentOffsets AfterEvenMarks execute)
open Statement (Strategy Dialect EvenRuns)

namespace Compiler

/-- How a statement comes to be. -/
theorem compile_eq_ok {c : Compiler} {source : String} {data : Value} {statement : Statement}
    (h : c.compile source data = .ok statement) :
    ∃ t raw formatted, Template.parse c.functions.resolves source.toList = .ok t ∧
      execute c.functions t.capture data [] = ⟨.ok raw, statement.arguments⟩ ∧
      c.strategy.format raw = .ok formatted ∧
      formatted.placeholders = statement.arguments.length := by
  unfold compile at h
  split at h
  · cases h
  · rename_i t hparse
    dsimp only at h
    split at h
    · cases h
    · rename_i raw hraw
      generalize houtcome : execute c.functions t.capture data [] = outcome at h hraw
      obtain ⟨result, args⟩ := outcome
      cases hraw
      unfold format at h
      split at h
      · cases h
      · rename_i formatted hformat
        split at h
        · cases h
        · rename_i hcount
          cases h
          exact ⟨t, raw, formatted, hparse, houtcome, hformat, not_not.mp hcount⟩

/-- Where the texts of a template have even runs of question marks only, formatting what a run wrote
renders its pieces one after the other, with a placeholder for each captured value, and the numbers
of placeholders and arguments agree. -/
theorem format_of_execute {isFunction : String → Bool} {source : String} {t : Template}
    (hparse : Template.parse isFunction source.toList = .ok t) (hfree : captureName ∉ t.identifiers)
    (heven : ∀ s ∈ t.texts, EvenRuns s.toList) {functions : Registry} {data : Value}
    {raw : List Char} {args : List Value}
    (hrun : execute functions t.capture data [] = ⟨.ok raw, args⟩) :
    raw = (emissions functions t.capture data).flatMap Emission.chars ∧
    (emissions functions t.capture data).filterMap Emission.captured? = args ∧
    (∀ (s : Strategy) (placeholder : Nat → String),
      (∀ i, s.placeholder i = .ok (placeholder i)) → s.format raw =
        .ok ⟨rendering placeholder 0 (emissions functions t.capture data), args.length⟩) ∧
    (∀ d : Dialect, d.strategy.format raw =
      .ok ⟨rendering d.placeholder 0 (emissions functions t.capture data), args.length⟩) ∧
    ∀ c : Compiler, c.functions = functions → functions.resolves = isFunction →
      ∀ placeholder : Nat → String, (∀ i, c.strategy.placeholder i = .ok (placeholder i)) →
        c.compile source data = .ok ⟨String.ofList
          (let text := rendering placeholder 0 (emissions functions t.capture data)
            if c.normalizes then Text.normalize text else text), args⟩ := by
  obtain ⟨hraw, hargs, hsep, htexts⟩ :=
    Run.emissions_of_execute (T := Run.EvenText) hfree heven hrun
  have hformat : ∀ (s : Strategy) (placeholder : Nat → String),
      (∀ i, s.placeholder i = .ok (placeholder i)) → s.format raw =
        .ok ⟨rendering placeholder 0 (emissions functions t.capture data), args.length⟩ := by
    intro s placeholder haccepts
    rw [Strategy.format, Statement.formatFrom_of_accepts haccepts, hraw,
      Run.tokens_chars_of_even hsep htexts, Run.fill_tokens_of_even placeholder 0 htexts,
      Run.count_single_of_even htexts, hargs, Nat.zero_add]
  refine ⟨hraw, hargs, hformat, fun d => hformat _ _ fun _ => rfl, ?_⟩
  rintro c rfl rfl placeholder haccepts
  unfold compile
  simp only [hparse, hrun, format, hformat c.strategy placeholder haccepts, ne_eq,
    not_true_eq_false, if_false]
  rfl

theorem format_of_execute_doubled :
    ∃ t raw args, Template.parse (Registry.resolves []) "a ?? {{.A}}".toList = .ok t ∧
      execute [] t.capture (.map [("A", .string "b?")]) [] = ⟨.ok raw, args⟩ ∧
      (emissions [] t.capture (.map [("A", .string "b?")])).filterMap Emission.captured? = args ∧
      Dialect.dollar.strategy.format raw = .ok ⟨rendering Dialect.dollar.placeholder 0
        (emissions [] t.capture (.map [("A", .string "b?")])), args.length⟩ := by
  obtain ⟨t, hparse, ht⟩ := exists_of_any
    (x := Template.parse (Registry.resolves []) "a ?? {{.A}}".toList)
    (p := fun t => decide (captureName ∉ t.identifiers) &&
      decide (∀ s ∈ t.texts, EvenRuns s.toList) &&
      (execute [] t.capture (.map [("A", .string "b?")]) []).result.toOption.any fun _ => true)
    (by decide +kernel)
  simp only [Bool.and_eq_true, decide_eq_true_eq] at ht
  obtain ⟨⟨hfree, heven⟩, hrun⟩ := ht
  obtain ⟨raw, hraw, -⟩ := exists_of_any hrun
  have hrun : execute [] t.capture (.map [("A", .string "b?")]) [] = ⟨.ok raw, _⟩ :=
    congrArg (Run.Outcome.mk · _) hraw
  have hall := format_of_execute hparse hfree heven hrun
  exact ⟨t, raw, _, hparse, hrun, hall.2.1, hall.2.2.2.1 .dollar⟩

/-- In a statement each argument has the placeholder that stands for it exactly if each mark for a
value came after an even number of question marks. The numbers agree in any case. -/
theorem placeholderOffsets_of_compile {c : Compiler} {source : String} {data : Value} {t : Template}
    {statement : Statement} (hparse : Template.parse c.functions.resolves source.toList = .ok t)
    (hfree : captureName ∉ t.identifiers) (hcompile : c.compile source data = .ok statement) :
    ∃ raw, execute c.functions t.capture data [] = ⟨.ok raw, statement.arguments⟩ ∧
      (emissions c.functions t.capture data).filterMap Emission.captured? = statement.arguments ∧
      (placeholderOffsets raw = argumentOffsets (emissions c.functions t.capture data) ↔
        AfterEvenMarks (emissions c.functions t.capture data)) := by
  obtain ⟨t', raw, formatted, hparse', hrun, hformat, hcount⟩ := compile_eq_ok hcompile
  rw [hparse] at hparse'
  cases hparse'
  obtain ⟨hraw, hargs, hsep, -⟩ :=
    Run.emissions_of_execute (T := fun _ => True) hfree (fun _ _ => trivial) hrun
  refine ⟨raw, hrun, hargs, ?_⟩
  rw [hraw]
  refine Run.placeholderOffsets_eq_iff hsep ?_
  rw [hargs, ← hcount, Statement.placeholders_of_formatFrom hformat, hraw, Nat.zero_add]

theorem placeholderOffsets_of_compile_word :
    ∃ t statement raw, Template.parse (Registry.resolves []) "a {{.A}}".toList = .ok t ∧
      captureName ∉ t.identifiers ∧
      (⟨Dialect.dollar.strategy, [], true⟩ : Compiler).compile "a {{.A}}"
        (.map [("A", .int 1)]) = .ok statement ∧
      execute [] t.capture (.map [("A", .int 1)]) [] = ⟨.ok raw, statement.arguments⟩ ∧
      (placeholderOffsets raw = argumentOffsets (emissions [] t.capture (.map [("A", .int 1)])) ↔
        AfterEvenMarks (emissions [] t.capture (.map [("A", .int 1)]))) := by
  obtain ⟨t, hparse, hfree⟩ := exists_of_any
    (x := Template.parse (Registry.resolves []) "a {{.A}}".toList)
    (p := fun t => decide (captureName ∉ t.identifiers)) (by decide +kernel)
  have hfree := of_decide_eq_true hfree
  obtain ⟨statement, hcompile, -⟩ := exists_of_any
    (x := (⟨Dialect.dollar.strategy, [], true⟩ : Compiler).compile "a {{.A}}"
      (.map [("A", .int 1)]))
    (p := fun _ => true) (by decide +kernel)
  obtain ⟨raw, hrun, -, hoffsets⟩ := placeholderOffsets_of_compile
    (c := ⟨Dialect.dollar.strategy, [], true⟩) hparse hfree hcompile
  exact ⟨t, statement, raw, hparse, hfree, hcompile, hrun, hoffsets⟩

/-- The numbers may agree although the places do not. The mark of the text before the value pairs
with the mark for it, and the one far away takes the argument. -/
theorem literal_takes_argument :
    ∃ t, Template.parse (Registry.resolves []) "a ?{{.A}} b ? c".toList = .ok t ∧
      captureName ∉ t.identifiers ∧
      (∃ statement, (⟨Dialect.dollar.strategy, [], true⟩ : Compiler).compile "a ?{{.A}} b ? c"
        (.map [("A", .int 1)]) = .ok statement ∧ statement.text = "a ? b $1 c") ∧
      (∃ raw, (execute [] t.capture (.map [("A", .int 1)]) []).result = .ok raw ∧
        placeholderOffsets raw = [7]) ∧
      argumentOffsets (emissions [] t.capture (.map [("A", .int 1)])) = [3] := by
  obtain ⟨t, hparse, ht⟩ := exists_of_any
    (x := Template.parse (Registry.resolves []) "a ?{{.A}} b ? c".toList)
    (p := fun t => decide (captureName ∉ t.identifiers) &&
      ((execute [] t.capture (.map [("A", .int 1)]) []).result.toOption.any fun raw =>
        placeholderOffsets raw == [7]) &&
      argumentOffsets (emissions [] t.capture (.map [("A", .int 1)])) == [3])
    (by decide +kernel)
  obtain ⟨statement, hcompile, htext⟩ := exists_of_any
    (x := (⟨Dialect.dollar.strategy, [], true⟩ : Compiler).compile "a ?{{.A}} b ? c"
      (.map [("A", .int 1)]))
    (p := fun statement => statement.text == "a ? b $1 c") (by decide +kernel)
  simp only [Bool.and_eq_true, decide_eq_true_eq, beq_iff_eq] at ht htext
  obtain ⟨⟨hfree, hrun⟩, hoffsets⟩ := ht
  obtain ⟨raw, hraw, hplaceholders⟩ := exists_of_any hrun
  exact ⟨t, hparse, hfree, ⟨statement, hcompile, htext⟩,
    ⟨raw, hraw, beq_iff_eq.mp hplaceholders⟩, hoffsets⟩

end Compiler

end BoundQuery
