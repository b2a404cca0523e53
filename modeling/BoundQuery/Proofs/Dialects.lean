/-
# One template in several dialects

Whether a template becomes a statement, and with which arguments, does not depend on the dialect. The
statements of all dialects are the same texts with placeholders between them, also when white space
is normalized. In each dialect this may be done before formatting or after it.

Main statements: `compile_dialects`, `format_normalized`.
-/

import BoundQuery.Compiler
import BoundQuery.Proofs.Statement.Whitespace

namespace BoundQuery

namespace Statement

/-- Texts with placeholders between them, the first after `count` placeholders. -/
def weave (placeholder : Nat → String) (count : Nat) (first : List Char) :
    List (List Char) → List Char
  | [] => first
  | next :: rest =>
    first ++ (placeholder (count + 1)).toList ++ weave placeholder (count + 1) next rest

theorem weave_cons (placeholder : Nat → String) (count : Nat) (c : Char) (first : List Char)
    (rest : List (List Char)) :
    weave placeholder count (c :: first) rest = c :: weave placeholder count first rest := by
  cases rest <;> rfl

/-- Whatever marks are rendered as, tokens are written as the same texts with placeholders between
them. -/
theorem exists_weave (ts : List Token) :
    ∃ first rest, rest.length = ts.count .single ∧
      ∀ placeholder count, fill placeholder count ts = weave placeholder count first rest := by
  induction ts with
  | nil => exact ⟨[], [], rfl, fun _ _ => rfl⟩
  | cons t ts ih =>
    obtain ⟨first, rest, hlength, hweave⟩ := ih
    cases t with
    | char c =>
      refine ⟨c :: first, rest, by simpa using hlength, fun placeholder count => ?_⟩
      rw [fill, hweave, weave_cons]
    | doubled =>
      refine ⟨mark :: first, rest, by simpa using hlength, fun placeholder count => ?_⟩
      rw [fill, hweave, weave_cons]
    | single =>
      refine ⟨[], first :: rest, by simpa using hlength, fun placeholder count => ?_⟩
      rw [fill, hweave, weave, List.nil_append]

/-- The final texts that a raw text has in all dialects. -/
theorem exists_weave_of_raw (normalizes : Bool) (raw : List Char) :
    ∃ first rest, rest.length = (tokens raw).count .single ∧
      ∀ d : Dialect,
        (if normalizes then Text.normalize (fill d.placeholder 0 (tokens raw))
          else fill d.placeholder 0 (tokens raw)) = weave d.placeholder 0 first rest := by
  cases normalizes with
  | false =>
    obtain ⟨first, rest, hlength, hweave⟩ := exists_weave (tokens raw)
    exact ⟨first, rest, hlength, fun d => hweave d.placeholder 0⟩
  | true =>
    -- Normalizing the raw text first shows which texts are left.
    obtain ⟨first, rest, hlength, hweave⟩ := exists_weave (tokens (Text.normalize raw))
    refine ⟨first, rest, hlength.trans (count_single_normalize raw), fun d => ?_⟩
    rw [if_pos rfl, d.inWords.normalize_fill, hweave]

end Statement

namespace Compiler

open Statement (Dialect tokens weave)
open Text (words normalize)

/-- The builtin dialects render all placeholders. -/
theorem format_dialect (d : Dialect) (raw : List Char) :
    d.strategy.format raw =
      .ok ⟨Statement.fill d.placeholder 0 (tokens raw), (tokens raw).count .single⟩ := by
  have haccepts : ∀ i, d.strategy.placeholder i = .ok (d.placeholder i) := fun _ => rfl
  rw [Statement.Strategy.format, Statement.formatFrom_of_accepts haccepts, Nat.zero_add]

/-- A raw text is refused by all dialects for the same reason, or by none. -/
theorem format_dialects (functions : Registry) (normalizes : Bool) (raw : List Char)
    (arguments : List Value) :
    (∃ e, ∀ d : Dialect,
      (⟨d.strategy, functions, normalizes⟩ : Compiler).format raw arguments = .error e) ∨
    ∃ first rest, rest.length = arguments.length ∧ ∀ d : Dialect,
      (⟨d.strategy, functions, normalizes⟩ : Compiler).format raw arguments =
        .ok ⟨String.ofList (weave d.placeholder 0 first rest), arguments⟩ := by
  by_cases hcount : (tokens raw).count .single = arguments.length
  · obtain ⟨first, rest, hlength, hweave⟩ := Statement.exists_weave_of_raw normalizes raw
    refine .inr ⟨first, rest, hlength.trans hcount, fun d => ?_⟩
    simp only [format, format_dialect, hcount, ne_eq, not_true_eq_false, if_false, hweave]
  · refine .inl ⟨.countMismatch ((tokens raw).count .single) arguments.length, fun d => ?_⟩
    simp only [format, format_dialect, ne_eq, hcount, not_false_eq_true, if_true]

/-- A template is refused in all dialects for the same reason, or it becomes a statement in each of
them: with the same arguments, and with texts between the placeholders that are the same in all. -/
theorem compile_dialects (functions : Registry) (normalizes : Bool) (source : String)
    (data : Value) :
    (∃ e, ∀ d : Dialect,
      (⟨d.strategy, functions, normalizes⟩ : Compiler).compile source data = .error e) ∨
    ∃ arguments first rest, rest.length = arguments.length ∧ ∀ d : Dialect,
      (⟨d.strategy, functions, normalizes⟩ : Compiler).compile source data =
        .ok ⟨String.ofList (weave d.placeholder 0 first rest), arguments⟩ := by
  unfold compile
  dsimp only
  split
  · rename_i e _
    exact .inl ⟨_, fun _ => rfl⟩
  · rename_i t _
    cases (Run.execute functions t.capture data []).result with
    | error e => exact .inl ⟨_, fun _ => rfl⟩
    | ok raw =>
      rcases format_dialects functions normalizes raw
          (Run.execute functions t.capture data []).captured with
        ⟨e, herror⟩ | ⟨first, rest, hlength, hok⟩
      · refine .inl ⟨.format e, fun d => ?_⟩
        simp only [herror]
        rfl
      · refine .inr ⟨_, first, rest, hlength, fun d => ?_⟩
        simp only [hok]
        rfl

/-- White space may be normalized before formatting or after it: the text is the same, and so is the
number of placeholders. Each word of the raw text becomes one word of the statement, in which its marks
are rendered; and the normalized raw text has all marks, single and doubled, that the raw text has, and
all its other characters but white space, in the same order. So a compiler that normalizes makes the
statement that one without normalizing makes of the normalized raw text. -/
theorem format_normalized (d : Dialect) (raw : List Char) :
    ∃ text n, d.strategy.format raw = .ok ⟨text, n⟩ ∧
      d.strategy.format (normalize raw) = .ok ⟨normalize text, n⟩ ∧
      words text = Statement.fillWords d.placeholder 0 (words raw) ∧
      (tokens (normalize raw)).filter (fun t => !t.isSpace) =
        (tokens raw).filter (fun t => !t.isSpace) ∧
      ∀ (functions : Registry) (arguments : List Value),
        (⟨d.strategy, functions, true⟩ : Compiler).format raw arguments =
          (⟨d.strategy, functions, false⟩ : Compiler).format (normalize raw) arguments := by
  have hnormalized : d.strategy.format (normalize raw) =
      .ok ⟨normalize (Statement.fill d.placeholder 0 (tokens raw)),
        (tokens raw).count .single⟩ := by
    rw [format_dialect, Statement.count_single_normalize, d.inWords.normalize_fill]
  refine ⟨_, _, format_dialect d raw, hnormalized, d.inWords.words_fill 0 raw,
    Statement.filter_tokens_normalize raw, ?_⟩
  intro functions arguments
  simp only [format, format_dialect d raw, hnormalized, if_true, Bool.false_eq_true, if_false]

end Compiler

end BoundQuery
