/-
# Texts with string literals

A part of a text is passed over literal by literal: whole string literals, and between them single
characters. Outside string literals an action holds no marks of tags, and no dash but the sign of a
number.

Main definition: `Spans`.
-/

import BoundQuery.Proofs.Template.Quotation

namespace BoundQuery.Template

namespace Scan

/-! ### String literals -/

theorem orElse_eq_found_iff {α : Type} {p q : Scan α} {cs rest : List Char} {a : α} :
    (p <|> q) cs = .found a rest ↔
      p cs = .found a rest ∨ (∃ fault, p cs = .missed fault) ∧ q cs = .found a rest := by
  cases h : p cs <;> simp [HOrElse.hOrElse, OrElse.orElse, Scan.orElse, h]

/-- A string literal is the front of its text. -/
theorem suffix_string {cs rest : List Char} {s : String} (h : string cs = .found s rest) :
    rest <:+ cs := by
  rcases orElse_eq_found_iff.mp h with h | ⟨-, h⟩
  · obtain ⟨inner, rfl, -⟩ := exists_units_of_quoted h
    exact ((List.suffix_cons _ _).trans (List.suffix_append _ _)).trans (List.suffix_cons _ _)
  · unfold raw at h
    split at h
    · rename_i c after _
      split at h
      · split at h
        · cases h
        · rename_i d beyond hdrop
          cases h
          have hbeyond : d :: rest <:+ after := hdrop ▸ List.dropWhile_suffix _
          exact ((List.suffix_cons _ _).trans hbeyond).trans (List.suffix_cons _ _)
      · cases h
    · cases h

end Scan

/-! ### From literal to literal -/

/-- From `cs` to `rest` stand whole string literals, and between them characters that satisfy `P`,
with what follows them. -/
inductive Spans (P : Char → List Char → Prop) : List Char → List Char → Prop
  | stop {cs : List Char} : Spans P cs cs
  | char {c : Char} {cs rest : List Char} :
      c ≠ '"' → c ≠ Scan.backQuote → P c cs → Spans P cs rest → Spans P (c :: cs) rest
  | literal {s : String} {cs after rest : List Char} :
      Scan.string cs = .found s after → Spans P after rest → Spans P cs rest

namespace Spans

variable {P : Char → List Char → Prop} {cs middle rest : List Char}

theorem trans (h : Spans P cs middle) (h' : Spans P middle rest) : Spans P cs rest := by
  induction h with
  | stop => exact h'
  | char hquote hraw hc _ ih => exact .char hquote hraw hc (ih h')
  | literal hread _ ih => exact .literal hread (ih h')

theorem suffix (h : Spans P cs rest) : rest <:+ cs := by
  induction h with
  | stop => exact List.suffix_rfl
  | char _ _ _ _ ih => exact ih.trans (List.suffix_cons _ _)
  | literal hread _ ih => exact ih.trans (Scan.suffix_string hread)

end Spans

/-! ### Marks -/

/-- The characters that open string literals, and those of the marks of tags and comments. A dash
belongs to a trim marker, or it is the sign of a number. -/
def marks : List Char :=
  ['"', Scan.backQuote, '\x7d', '/', '-']

/-- The character is no mark, but it may be a dash before a digit. -/
def NoMark (c : Char) (after : List Char) : Prop :=
  c ≠ '\x7d' ∧ c ≠ '/' ∧ (c = '-' → after.head?.any Char.isDigit = true)

theorem spans_of_notMem {c : Char} {cs rest : List Char} (h : c ∉ marks)
    (hrest : Spans NoMark cs rest) : Spans NoMark (c :: cs) rest := by
  simp only [marks, List.mem_cons, List.not_mem_nil, or_false, not_or] at h
  obtain ⟨hquote, hraw, hbrace, hslash, hdash⟩ := h
  exact .char hquote hraw ⟨hbrace, hslash, fun heq => absurd heq hdash⟩ hrest

/-- A class of characters without marks. -/
def Unmarked (holds : Char → Bool) : Prop :=
  ∀ c ∈ marks, holds c = false

instance (holds : Char → Bool) : Decidable (Unmarked holds) :=
  List.decidableBAll (holds · = false) marks

theorem Unmarked.notMem {holds : Char → Bool} (h : Unmarked holds) {c : Char}
    (hc : holds c = true) : c ∉ marks := by
  intro hmem
  rw [h c hmem] at hc
  cases hc

theorem spans_append {chars rest : List Char} (h : Unmarked chars.contains) :
    Spans NoMark (chars ++ rest) rest := by
  have hnone : ∀ c ∈ chars, c ∉ marks := fun c hc => h.notMem (List.contains_iff_mem.mpr hc)
  clear h
  induction chars with
  | nil => exact .stop
  | cons c chars ih =>
    rw [List.forall_mem_cons] at hnone
    exact spans_of_notMem hnone.1 (ih hnone.2)

theorem spans_dropWhile {holds : Char → Bool} (h : Unmarked holds) (cs : List Char) :
    Spans NoMark cs (cs.dropWhile holds) := by
  induction cs with
  | nil => exact .stop
  | cons c cs ih =>
    rw [List.dropWhile_cons]
    split
    · rename_i hc
      exact spans_of_notMem (h.notMem hc) ih
    · exact .stop

end BoundQuery.Template
