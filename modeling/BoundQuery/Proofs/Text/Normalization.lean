/-
# Normal forms of white space

The words of a text are its maximal runs of characters that are not white space, and the normal form
of a text writes them with single spaces between them. So a text has one normal form, which has the
words of the text, and two texts have the same normal form exactly if they have the same words.

Main statements: `hasWords_iff`, `normalized_iff`, `normalize_canonical`.
-/

import BoundQuery.Proofs.Text.Words
import Mathlib.Data.List.Chain

namespace BoundQuery.Text

/-- All characters separate words. -/
def Gap (cs : List Char) : Prop :=
  ∀ c ∈ cs, isSeparator c = true

instance (cs : List Char) : Decidable (Gap cs) :=
  List.decidableBAll _ cs

/-- A word before the text is at its end: the text is empty, or starts with a separator. -/
def EndsWord (cs : List Char) : Prop :=
  ∀ c ∈ cs.head?, isSeparator c = true

/-- The words of a text, in order: each is a run of characters that are not separators, which cannot
be made longer. -/
inductive HasWords : List Char → List (List Char) → Prop
  | gap {g : List Char} : Gap g → HasWords g []
  | word {g w rest : List Char} {ws : List (List Char)} : Gap g → w ≠ [] → Unbroken w →
      EndsWord rest → HasWords rest ws → HasWords (g ++ w ++ rest) (w :: ws)

/-- Single spaces stand between words, and nothing around them. -/
structure Normalized (cs : List Char) : Prop where
  head : ∀ c ∈ cs.head?, isSeparator c = false
  last : ∀ c ∈ cs.getLast?, isSeparator c = false
  space : ∀ c ∈ cs, isSeparator c = true → c = ' '
  /-- No separator stands next to another. -/
  apart : cs.IsChain fun c d => isSeparator c = true → isSeparator d = false

/-! ### The words of a text -/

theorem words_append_gap {g : List Char} (hg : Gap g) (cs : List Char) :
    words (g ++ cs) = words cs := by
  induction g with
  | nil => rfl
  | cons c g ih =>
    obtain ⟨hc, hrest⟩ := List.forall_mem_cons.mp hg
    rw [List.cons_append, words_cons_separator hc, ih hrest]

/-- A gap cuts a text in two that are read apart. -/
theorem words_append_gap_append {g : List Char} (hg : Gap g) (hne : g ≠ []) (s t : List Char) :
    words (s ++ g ++ t) = words s ++ words t := by
  cases g with
  | nil => exact absurd rfl hne
  | cons c g =>
    obtain ⟨hc, hrest⟩ := List.forall_mem_cons.mp hg
    rw [List.append_assoc, List.cons_append, words_append_separator hc, words_append_gap hrest]

theorem words_of_hasWords {cs : List Char} {ws : List (List Char)} (h : HasWords cs ws) :
    words cs = ws := by
  induction h with
  | @gap g hg => simpa using words_append_gap hg []
  | @word g w rest ws hg hne hw hend _ ih =>
    rw [List.append_assoc, words_append_gap hg]
    cases rest with
    | nil =>
      rw [List.append_nil, words_of_unbroken hw hne, ← ih]
      rfl
    | cons c rest =>
      have hc : isSeparator c = true := hend c rfl
      rw [words_append_separator hc, words_of_unbroken hw hne, ← ih, words_cons_separator hc]
      rfl

theorem HasWords.cons_separator {c : Char} (hc : isSeparator c = true) {cs : List Char}
    {ws : List (List Char)} (h : HasWords cs ws) : HasWords (c :: cs) ws := by
  cases h with
  | gap hg => exact .gap (List.forall_mem_cons.mpr ⟨hc, hg⟩)
  | @word g _ _ _ hg hne hw hend hrest =>
    exact .word (g := c :: g) (List.forall_mem_cons.mpr ⟨hc, hg⟩) hne hw hend hrest

theorem HasWords.append_word {w cs : List Char} {ws : List (List Char)} (hne : w ≠ [])
    (hw : Unbroken w) (hend : EndsWord cs) (h : HasWords cs ws) : HasWords (w ++ cs) (w :: ws) :=
  .word (g := []) (by simp [Gap]) hne hw hend h

theorem hasWords_words (cs : List Char) : HasWords cs (words cs) := by
  induction cs using words_induction with
  | word w hw =>
    have hnone : HasWords [] [] := .gap (by simp [Gap])
    by_cases hne : w = []
    · rw [hne]
      exact hnone
    · rw [words_of_unbroken hw hne]
      simpa using hnone.append_word hne hw (by simp [EndsWord])
  | separator w c rest hw hc ih =>
    have hrest := ih.cons_separator hc
    rw [words_append_separator hc]
    -- Without a word before it, the separator only makes the gap before the next word longer.
    by_cases hne : w = []
    · simpa [hne] using hrest
    · rw [words_of_unbroken hw hne]
      exact hrest.append_word hne hw (by simpa [EndsWord] using hc)

/-- A text has one list of words. -/
theorem hasWords_iff {cs : List Char} {ws : List (List Char)} : HasWords cs ws ↔ words cs = ws :=
  ⟨words_of_hasWords, fun h => h ▸ hasWords_words cs⟩

/-- Words are not empty, and hold no separators. -/
theorem HasWords.mem {cs : List Char} {ws : List (List Char)} (h : HasWords cs ws) :
    ∀ w ∈ ws, w ≠ [] ∧ Unbroken w := by
  induction h with
  | gap => simp
  | word _ hne hw _ _ ih => exact List.forall_mem_cons.mpr ⟨⟨hne, hw⟩, ih⟩

theorem Gap.filter_eq_nil {g : List Char} (hg : Gap g) :
    g.filter (fun c => !isSeparator c) = [] := by
  rw [List.filter_eq_nil_iff]
  intro c hc
  simp [hg c hc]

/-- Words hold all that is not white space, in order. -/
theorem HasWords.flatten {cs : List Char} {ws : List (List Char)} (h : HasWords cs ws) :
    ws.flatten = cs.filter fun c => !isSeparator c := by
  induction h with
  | gap hg => rw [hg.filter_eq_nil, List.flatten_nil]
  | @word g w rest ws hg _ hw _ _ ih =>
    have hall : w.filter (fun c => !isSeparator c) = w := by
      rw [List.filter_eq_self]
      intro c hc
      simp [hw c hc]
    rw [List.filter_append, List.filter_append, hg.filter_eq_nil, hall, List.nil_append,
      List.flatten_cons, ih]

/-! ### Words with single spaces between them -/

theorem words_intercalate {ws : List (List Char)} (h : ∀ w ∈ ws, w ≠ [] ∧ Unbroken w) :
    words ([' '].intercalate ws) = ws := by
  have hspace : isSeparator ' ' = true := rfl
  induction ws with
  | nil => rfl
  | cons w ws ih =>
    obtain ⟨⟨hne, hw⟩, hrest⟩ := List.forall_mem_cons.mp h
    cases ws with
    | nil => simpa using words_of_unbroken hw hne
    | cons v ws =>
      rw [List.intercalate_cons_cons, List.append_assoc, List.singleton_append,
        words_append_separator hspace, words_of_unbroken hw hne, ih hrest]
      rfl

/-- The normal form of a text has its words. -/
theorem words_normalize (cs : List Char) : words (normalize cs) = words cs :=
  words_intercalate (hasWords_words cs).mem

theorem normalize_eq_of_words_eq {s t : List Char} (h : words s = words t) :
    normalize s = normalize t := by
  rw [normalize, h, normalize]

theorem normalize_eq_iff {s t : List Char} : normalize s = normalize t ↔ words s = words t := by
  constructor
  · intro h
    rw [← words_normalize s, h, words_normalize]
  · exact normalize_eq_of_words_eq

/-! ### Normal forms -/

theorem normalized_of_unbroken {w : List Char} (hw : Unbroken w) : Normalized w where
  head c hc := hw c (List.mem_of_mem_head? hc)
  last c hc := hw c (List.mem_of_getLast? hc)
  space c hc hsep := by
    rw [hw c hc] at hsep
    cases hsep
  apart := by
    refine List.Pairwise.isChain (List.pairwise_of_forall_mem_list fun c hc d _ hsep => ?_)
    rw [hw c hc] at hsep
    cases hsep

theorem Normalized.join {s t : List Char} (hs : Normalized s) (ht : Normalized t) (hne : s ≠ [])
    (hne' : t ≠ []) : Normalized (s ++ ' ' :: t) where
  head := by
    obtain ⟨c, s, rfl⟩ := List.exists_cons_of_ne_nil hne
    exact hs.head
  last := by
    obtain ⟨d, t, rfl⟩ := List.exists_cons_of_ne_nil hne'
    have hlast : (s ++ ' ' :: d :: t).getLast? = (d :: t).getLast? := by
      simp [List.getLast?_append, List.getLast?_cons]
    rw [hlast]
    exact ht.last
  space c hc hsep := by
    rcases List.mem_append.mp hc with hc | hc
    · exact hs.space c hc hsep
    · rcases List.mem_cons.mp hc with hc | hc
      · exact hc
      · exact ht.space c hc hsep
  apart := by
    refine List.isChain_append.mpr ⟨hs.apart, List.isChain_cons.mpr ⟨?_, ht.apart⟩, ?_⟩
    · intro d hd _
      exact ht.head d hd
    · intro c hc d _ hsep
      rw [hs.last c hc] at hsep
      cases hsep

/-- In a normal form, what stands around a separator is not empty, and is normal after it. -/
theorem Normalized.of_append {s t : List Char} {c : Char} (h : Normalized (s ++ c :: t))
    (hc : isSeparator c = true) : c = ' ' ∧ s ≠ [] ∧ t ≠ [] ∧ Normalized t := by
  have hspace : c = ' ' := h.space c (by simp) hc
  have hs : s ≠ [] := by
    rintro rfl
    rw [h.head c rfl] at hc
    cases hc
  have ht : t ≠ [] := by
    rintro rfl
    rw [h.last c (by simp)] at hc
    cases hc
  obtain ⟨hfirst, hrest⟩ := List.isChain_cons.mp (List.isChain_append.mp h.apart).2.1
  refine ⟨hspace, hs, ht, ⟨fun d hd => hfirst d hd hc, ?_, ?_, hrest⟩⟩
  · intro d hd
    refine h.last d ?_
    rw [List.append_cons]
    exact List.mem_getLast?_append_of_mem_getLast? hd
  · intro d hd
    exact h.space d (List.mem_append_right s (List.mem_cons_of_mem c hd))

theorem intercalate_ne_nil {w : List Char} (hw : w ≠ []) (ws : List (List Char)) :
    [' '].intercalate (w :: ws) ≠ [] := by
  cases ws with
  | nil => simpa using hw
  | cons v ws =>
    rw [List.intercalate_cons_cons, List.append_assoc]
    exact List.append_ne_nil_of_left_ne_nil hw _

theorem normalized_intercalate {ws : List (List Char)} (h : ∀ w ∈ ws, w ≠ [] ∧ Unbroken w) :
    Normalized ([' '].intercalate ws) := by
  induction ws with
  | nil => exact normalized_of_unbroken (w := []) (by simp [Unbroken])
  | cons w ws ih =>
    obtain ⟨⟨hne, hw⟩, hrest⟩ := List.forall_mem_cons.mp h
    cases ws with
    | nil => simpa using normalized_of_unbroken hw
    | cons v ws =>
      have hv : v ≠ [] := (hrest v List.mem_cons_self).1
      rw [List.intercalate_cons_cons, List.append_assoc, List.singleton_append]
      exact (normalized_of_unbroken hw).join (ih hrest) hne (intercalate_ne_nil hv ws)

theorem normalized_normalize (cs : List Char) : Normalized (normalize cs) :=
  normalized_intercalate (hasWords_words cs).mem

theorem Normalized.normalize_eq {cs : List Char} (h : Normalized cs) : normalize cs = cs := by
  induction cs using words_induction with
  | word w hw =>
    by_cases hne : w = []
    · rw [hne]
      rfl
    · simp [normalize, words_of_unbroken hw hne]
  | separator w c rest hw hc ih =>
    -- There is a word on either side of a separator, so that the two are written with a space again.
    obtain ⟨rfl, hne, hrest, hnormal⟩ := h.of_append hc
    have hread := ih hnormal
    obtain ⟨v, vs, hwords⟩ : ∃ v vs, words rest = v :: vs := by
      refine List.exists_cons_of_ne_nil fun hnone => hrest ?_
      rw [← hread, normalize, hnone, List.intercalate_nil]
    rw [normalize, hwords] at hread
    rw [normalize, words_append_separator hc, words_of_unbroken hw hne, hwords,
      List.singleton_append, List.intercalate_cons_cons, hread, List.append_assoc,
      List.singleton_append]

/-- The normal forms are the texts that normalizing leaves alone. -/
theorem normalized_iff {cs : List Char} : Normalized cs ↔ normalize cs = cs :=
  ⟨Normalized.normalize_eq, fun h => h ▸ normalized_normalize cs⟩

/-- Each text has one normal form. It holds the words of the text with single spaces between them and
none around them, and all that is not white space in the order of the text; to normalize it again
changes nothing. Two texts have one normal form exactly if they have the same words, and the parts of
a text around white space may be normalized before the whole is. -/
theorem normalize_canonical (s : List Char) :
    Normalized (normalize s) ∧
    (∃! ws, HasWords s ws) ∧
    (∀ ws, HasWords (normalize s) ws ↔ HasWords s ws) ∧
    (normalize s).filter (fun c => !isSeparator c) = s.filter (fun c => !isSeparator c) ∧
    normalize (normalize s) = normalize s ∧
    (∀ t, normalize s = normalize t ↔ ∀ ws, HasWords s ws ↔ HasWords t ws) ∧
    ∀ g t, g ≠ [] → Gap g →
      normalize (s ++ g ++ t) = normalize (normalize s ++ g ++ normalize t) := by
  refine ⟨normalized_normalize s, ?_, ?_, ?_, ?_, ?_, ?_⟩
  · exact ⟨words s, hasWords_words s, fun ws h => (words_of_hasWords h).symm⟩
  · intro ws
    rw [hasWords_iff, hasWords_iff, words_normalize]
  · rw [← (hasWords_words s).flatten, ← (hasWords_words (normalize s)).flatten, words_normalize]
  · exact normalized_iff.mp (normalized_normalize s)
  · intro t
    simp only [normalize_eq_iff, hasWords_iff]
    constructor
    · intro h ws
      rw [h]
    · intro h
      exact ((h (words s)).mp rfl).symm
  · intro g t hne hg
    refine normalize_eq_of_words_eq ?_
    rw [words_append_gap_append hg hne, words_append_gap_append hg hne, words_normalize,
      words_normalize]

theorem normalize_canonical_joined :
    "\t\n".toList ≠ [] ∧ Gap "\t\n".toList ∧
    normalize (" a\u00a0b\x0c c ".toList ++ "\t\n".toList ++ "d\r\n e".toList) =
      normalize (normalize " a\u00a0b\x0c c ".toList ++ "\t\n".toList ++
        normalize "d\r\n e".toList) := by
  obtain ⟨-, -, -, -, -, -, hjoin⟩ := normalize_canonical " a\u00a0b\x0c c ".toList
  exact ⟨by decide, by decide, hjoin _ _ (by decide) (by decide)⟩

example : normalize " where name = 'a\u00a0\u00a0b'\x0c\n".toList =
    "where name = 'a\u00a0\u00a0b'".toList := by
  decide

end BoundQuery.Text
