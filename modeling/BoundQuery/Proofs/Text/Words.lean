/-
# Words of a text

A separator cuts a text in two that are read apart, and a text without separators is one word. All
that is said of words follows from these two equations.

Main statements: `words_append_separator`, `words_of_word`, `words_induction`.
-/

import BoundQuery.Text.Words
import Mathlib.Init

namespace BoundQuery.Text

/-- No character separates words. -/
def Unbroken (cs : List Char) : Prop :=
  ∀ c ∈ cs, isSeparator c = false

instance (cs : List Char) : Decidable (Unbroken cs) :=
  List.decidableBAll _ cs

theorem Unbroken.append {cs ds : List Char} (h : Unbroken cs) (h' : Unbroken ds) :
    Unbroken (cs ++ ds) :=
  List.forall_mem_append.mpr ⟨h, h'⟩

/-- A text is unbroken, or an unbroken text with a separator and a further text after it. -/
theorem words_induction {motive : List Char → Prop} (word : ∀ w, Unbroken w → motive w)
    (separator : ∀ w c rest, Unbroken w → isSeparator c = true → motive rest →
      motive (w ++ c :: rest)) (cs : List Char) : motive cs := by
  -- The unbroken text that was passed over so far is set aside.
  suffices h : ∀ w, Unbroken w → motive (w ++ cs) from h [] (by simp [Unbroken])
  induction cs with
  | nil =>
    intro w hw
    simpa using word w hw
  | cons c rest ih =>
    intro w hw
    cases hc : isSeparator c with
    | true => exact separator w c rest hw hc (ih [] (by simp [Unbroken]))
    | false =>
      have hnext : Unbroken (w ++ [c]) := hw.append (by simpa [Unbroken] using hc)
      simpa using ih (w ++ [c]) hnext

theorem pieces_ne_nil (cs : List Char) : pieces cs ≠ [] := by
  cases cs with
  | nil => exact List.cons_ne_nil _ _
  | cons c cs =>
    unfold pieces
    split
    · exact List.cons_ne_nil _ _
    · split <;> exact List.cons_ne_nil _ _

theorem pieces_append_separator {c : Char} (hc : isSeparator c = true) (cs ds : List Char) :
    pieces (cs ++ c :: ds) = pieces cs ++ pieces ds := by
  induction cs with
  | nil => simp [pieces, hc]
  | cons d cs ih =>
    rw [List.cons_append, pieces, pieces, ih]
    split
    · rfl
    · obtain ⟨piece, rest, hpieces⟩ := List.exists_cons_of_ne_nil (pieces_ne_nil cs)
      rw [hpieces]
      rfl

theorem pieces_of_unbroken {cs : List Char} (h : Unbroken cs) : pieces cs = [cs] := by
  induction cs with
  | nil => rfl
  | cons c cs ih =>
    obtain ⟨hc, hcs⟩ := List.forall_mem_cons.mp h
    rw [pieces, if_neg (by simp [hc]), ih hcs]

/-- A separator cuts a text in two that are read apart. -/
theorem words_append_separator {c : Char} (hc : isSeparator c = true) (cs ds : List Char) :
    words (cs ++ c :: ds) = words cs ++ words ds := by
  rw [words, pieces_append_separator hc, List.filter_append]
  rfl

/-- A text without separators is one word, if it is not empty. -/
theorem words_of_unbroken {cs : List Char} (h : Unbroken cs) (hne : cs ≠ []) : words cs = [cs] := by
  rw [words, pieces_of_unbroken h]
  simp [hne]

end BoundQuery.Text
