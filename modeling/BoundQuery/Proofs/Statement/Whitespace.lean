/-
# White space and placeholders

White space and question marks do not meddle with each other. Where placeholders are parts of words,
each word of a raw text becomes one word of the statement, whatever its marks are rendered as. So it
does not matter whether white space is normalized before formatting or after it.

Main statements: `InWords.normalize_fill`, `count_single_normalize`, `filter_tokens_normalize`.
-/

import BoundQuery.Proofs.Statement.Tokens
import BoundQuery.Proofs.Text.Normalization

namespace BoundQuery.Statement

open Text (isSeparator Unbroken words normalize)

/-! ### Marks of several words -/

/-- The words with their marks rendered, the first after `count` placeholders. -/
def fillWords (placeholder : Nat → String) (count : Nat) : List (List Char) → List (List Char)
  | [] => []
  | w :: rest =>
    fill placeholder count (tokens w) ::
      fillWords placeholder (count + (tokens w).count .single) rest

/-- The number of single marks in several words. -/
def countWords (ws : List (List Char)) : Nat :=
  (ws.flatMap tokens).count .single

theorem fillWords_append (placeholder : Nat → String) (count : Nat) (ws vs : List (List Char)) :
    fillWords placeholder count (ws ++ vs) =
      fillWords placeholder count ws ++ fillWords placeholder (count + countWords ws) vs := by
  induction ws generalizing count with
  | nil => rfl
  | cons w ws ih =>
    rw [List.cons_append, fillWords, fillWords, ih, List.cons_append, countWords, countWords,
      List.flatMap_cons, List.count_append, Nat.add_assoc]

theorem ne_mark_of_isSeparator {c : Char} (h : isSeparator c = true) : c ≠ mark := by
  rintro rfl
  cases h

/-- A character that is no mark cuts a text in two that are read apart. -/
theorem tokens_append_char {c : Char} (h : c ≠ mark) (cs ds : List Char) :
    tokens (cs ++ c :: ds) = tokens cs ++ .char c :: tokens ds := by
  have hhead : (c :: ds).head? ≠ some mark := by simpa using h
  rw [tokens_append_of_head hhead, tokens_char h]

theorem fill_append_char (placeholder : Nat → String) (count : Nat) {c : Char} (h : c ≠ mark)
    (cs ds : List Char) :
    fill placeholder count (tokens (cs ++ c :: ds)) =
      fill placeholder count (tokens cs) ++
        c :: fill placeholder (count + (tokens cs).count .single) (tokens ds) := by
  rw [tokens_append_char h, fill_append, fill]

/-- Single spaces between words are left alone. -/
theorem fill_intercalate (placeholder : Nat → String) (count : Nat) (ws : List (List Char)) :
    fill placeholder count (tokens ([' '].intercalate ws)) =
      [' '].intercalate (fillWords placeholder count ws) := by
  induction ws generalizing count with
  | nil => rfl
  | cons w ws ih =>
    cases ws with
    | nil => simp [fillWords]
    | cons v vs =>
      have hspace : ' ' ≠ mark := by decide
      rw [List.intercalate_cons_cons, List.append_assoc, List.singleton_append,
        fill_append_char placeholder count hspace, ih]
      simp [fillWords, List.intercalate_cons_cons]

/-! ### Tokens of words -/

/-- White space between words, as a token. -/
def Token.isSpace : Token → Bool
  | char c => isSeparator c
  | doubled => false
  | single => false

theorem filter_tokens_of_unbroken {w : List Char} (hw : Unbroken w) :
    (tokens w).filter (fun t => !t.isSpace) = (words w).flatMap tokens := by
  have hall : (tokens w).filter (fun t => !t.isSpace) = tokens w := by
    rw [List.filter_eq_self]
    intro t ht
    cases t with
    | char c =>
      have hc : c ∈ w := by
        rw [← source_tokens w]
        exact List.mem_flatMap.mpr ⟨_, ht, List.mem_singleton_self c⟩
      simp [Token.isSpace, hw c hc]
    | doubled => rfl
    | single => rfl
  by_cases hne : w = []
  · rw [hne]
    rfl
  · rw [hall, Text.words_of_unbroken hw hne, List.flatMap_singleton]

/-- All tokens but white space are those of the words. -/
theorem filter_tokens (cs : List Char) :
    (tokens cs).filter (fun t => !t.isSpace) = (words cs).flatMap tokens := by
  induction cs using Text.words_induction with
  | word w hw => exact filter_tokens_of_unbroken hw
  | separator w c rest hw hc ih =>
    have hspace : (Token.char c :: tokens rest).filter (fun t => !t.isSpace) =
        (tokens rest).filter fun t => !t.isSpace := by
      simp [Token.isSpace, hc]
    rw [tokens_append_char (ne_mark_of_isSeparator hc), Text.words_append_separator hc,
      List.filter_append, hspace, ih, filter_tokens_of_unbroken hw, List.flatMap_append]

/-- Normalizing keeps all tokens but white space, in their order. -/
theorem filter_tokens_normalize (cs : List Char) :
    (tokens (normalize cs)).filter (fun t => !t.isSpace) =
      (tokens cs).filter fun t => !t.isSpace := by
  rw [filter_tokens, Text.words_normalize, ← filter_tokens]

/-- Every mark stands in a word. -/
theorem count_single_words (cs : List Char) : (tokens cs).count .single = countWords (words cs) := by
  rw [countWords, ← filter_tokens, List.count_filter rfl]

/-- Normalizing white space keeps the number of single marks. -/
theorem count_single_normalize (cs : List Char) :
    (tokens (normalize cs)).count .single = (tokens cs).count .single := by
  rw [count_single_words, Text.words_normalize, ← count_single_words]

/-! ### Placeholders inside words -/

/-- Placeholders are not empty, and hold no white space. -/
structure InWords (placeholder : Nat → String) : Prop where
  ne_nil : ∀ i, (placeholder i).toList ≠ []
  unbroken : ∀ i, Unbroken (placeholder i).toList

section InWords

variable {placeholder : Nat → String} (h : InWords placeholder)
include h

/-- A word stays one. -/
theorem InWords.unbroken_fill (count : Nat) {cs : List Char} (hcs : Unbroken cs) :
    Unbroken (fill placeholder count (tokens cs)) := by
  induction cs using tokens_induction generalizing count with
  | nil => simp [fill, Unbroken]
  | doubled rest ih =>
    obtain ⟨hmark, hmore⟩ := List.forall_mem_cons.mp hcs
    rw [tokens_doubled, fill]
    exact List.forall_mem_cons.mpr ⟨hmark, ih count (List.forall_mem_cons.mp hmore).2⟩
  | single rest hhead ih =>
    rw [tokens_single hhead, fill]
    exact (h.unbroken _).append (ih _ (List.forall_mem_cons.mp hcs).2)
  | char c rest hc ih =>
    obtain ⟨hfirst, hrest⟩ := List.forall_mem_cons.mp hcs
    rw [tokens_char hc, fill]
    exact List.forall_mem_cons.mpr ⟨hfirst, ih count hrest⟩

/-- No word vanishes. -/
theorem InWords.fill_ne_nil (count : Nat) {cs : List Char} (hne : cs ≠ []) :
    fill placeholder count (tokens cs) ≠ [] := by
  induction cs using tokens_induction with
  | nil => exact absurd rfl hne
  | doubled rest _ =>
    rw [tokens_doubled, fill]
    exact List.cons_ne_nil _ _
  | single rest hhead _ =>
    rw [tokens_single hhead, fill]
    exact List.append_ne_nil_of_left_ne_nil (h.ne_nil _) _
  | char c rest hc _ =>
    rw [tokens_char hc, fill]
    exact List.cons_ne_nil _ _

theorem InWords.words_fill_of_unbroken (count : Nat) {w : List Char} (hw : Unbroken w) :
    words (fill placeholder count (tokens w)) = fillWords placeholder count (words w) := by
  by_cases hne : w = []
  · rw [hne]
    rfl
  · rw [Text.words_of_unbroken (h.unbroken_fill count hw) (h.fill_ne_nil count hne),
      Text.words_of_unbroken hw hne]
    rfl

/-- The words of a statement are those of its raw text with their marks rendered. -/
theorem InWords.words_fill (count : Nat) (cs : List Char) :
    words (fill placeholder count (tokens cs)) = fillWords placeholder count (words cs) := by
  induction cs using Text.words_induction generalizing count with
  | word w hw => exact h.words_fill_of_unbroken count hw
  | separator w c rest hw hc ih =>
    rw [fill_append_char placeholder count (ne_mark_of_isSeparator hc),
      Text.words_append_separator hc, Text.words_append_separator hc, fillWords_append,
      h.words_fill_of_unbroken count hw, ih, count_single_words w]

/-- White space may be normalized before formatting or after it. -/
theorem InWords.normalize_fill (count : Nat) (cs : List Char) :
    normalize (fill placeholder count (tokens cs)) =
      fill placeholder count (tokens (normalize cs)) := by
  rw [Text.normalize, h.words_fill, Text.normalize, fill_intercalate]

end InWords

/-- The placeholders of a dialect are parts of words. -/
theorem Dialect.inWords (d : Dialect) : InWords d.placeholder := by
  have hdigits : ∀ i : Nat, Unbroken (toString i).toList := by
    intro i c hc
    rw [Nat.toString_eq_ofList_toDigits, String.toList_ofList] at hc
    have hdigit := Nat.isDigit_of_mem_toDigits (by decide) (by decide) hc
    cases hsep : isSeparator c with
    | false => rfl
    | true =>
      have hcases : c = ' ' ∨ c = '\t' ∨ c = '\n' ∨ c = '\x0c' ∨ c = '\r' := by
        simpa [isSeparator, or_assoc] using hsep
      rcases hcases with rfl | rfl | rfl | rfl | rfl <;> cases hdigit
  have hstart : d.start.toList ≠ [] ∧ Unbroken d.start.toList := by
    cases d <;> exact ⟨by decide, by decide⟩
  have hplaceholder : ∀ i, ∃ digits, Unbroken digits ∧
      (d.placeholder i).toList = d.start.toList ++ digits := by
    intro i
    cases d with
    | question => exact ⟨[], by simp [Unbroken], (List.append_nil _).symm⟩
    | dollar | colon | atP =>
      exact ⟨(toString i).toList, hdigits i, String.toList_append⟩
  constructor
  · intro i
    obtain ⟨digits, -, heq⟩ := hplaceholder i
    rw [heq]
    exact List.append_ne_nil_of_left_ne_nil hstart.1 _
  · intro i
    obtain ⟨digits, hunbroken, heq⟩ := hplaceholder i
    rw [heq]
    exact hstart.2.append hunbroken

end BoundQuery.Statement
