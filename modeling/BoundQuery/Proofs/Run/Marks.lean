/-
# Marks for values in raw texts

The raw text of a captured run, token by token. If the texts of the template have even runs of
question marks only, the single marks are just those that stand for values; in any case they are
those exactly if each mark for a value comes after an even number of question marks.

Main statements: `emissions_of_execute`, `tokens_chars_of_even`, `placeholderOffsets_eq_iff`.
-/

import BoundQuery.Proofs.Run.Capturing
import BoundQuery.Proofs.Statement.Tokens
import BoundQuery.Proofs.Text.Offsets

namespace BoundQuery.Run

open Statement (mark double tokens Token collapse fill EvenRuns trailingMarks)
open Template (captureName)

/-- The pieces that a run writes, the first first. -/
def emissions (functions : Registry) (t : Template) (data : Value) : List Emission :=
  (ending functions t data []).2.trace.reverse

/-- After a mark for a value the text does not go on with a question mark. -/
def Separated (es : List Emission) : Prop :=
  ∀ before pos v after, es = before ++ .argument pos v :: after →
    (after.flatMap Emission.chars).head? ≠ some mark

/-! ### Runs write separated pieces -/

/-- A mark for a value stays at the end of the text as long as nothing is written after it. -/
theorem openMark?_append {after : Trace} (h : after.flatMap Emission.chars = []) (pos : Text.Pos)
    (v : Value) (before : Trace) :
    Trace.openMark? (after ++ .argument pos v :: before) = some pos := by
  induction after with
  | nil => rfl
  | cons e after ih =>
    obtain ⟨he, hafter⟩ := List.append_eq_nil_iff.mp h
    cases e with
    | argument pos v => cases he
    | text s => simpa [Trace.openMark?, he] using ih hafter
    | value v => simpa [Trace.openMark?, he] using ih hafter

theorem Trace.Written.separated {T : String → Prop} {trace : Trace} (h : Written T trace) :
    Separated trace.reverse := by
  induction h with
  | nil =>
    intro before pos v after hsplit
    simp at hsplit
  | @emit e trace he hwritten hemit ih =>
    intro before pos v after hsplit
    rw [List.reverse_cons] at hsplit
    -- The new piece is the last one: it is the mark itself, or it stands somewhere after the mark.
    rcases List.eq_nil_or_concat after with rfl | ⟨inner, last, rfl⟩
    · simp
    · rw [List.concat_eq_append, ← List.cons_append, ← List.append_assoc] at hsplit
      obtain ⟨hbefore, hlast⟩ := List.append_inj' hsplit rfl
      cases hlast
      rw [List.concat_eq_append, List.flatMap_append]
      cases hinner : inner.flatMap Emission.chars with
      | cons c cs =>
        have := ih before pos v inner hbefore
        simpa [hinner] using this
      | nil =>
        -- Nothing but empty pieces came between, so the mark is still open.
        have htrace : trace = inner.reverse ++ .argument pos v :: before.reverse := by
          simpa using congrArg List.reverse hbefore
        have hopen : openMark? trace = some pos := by
          rw [htrace]
          refine openMark?_append ?_ pos v _
          simpa [List.flatMap_eq_nil_iff] using hinner
        simpa using head?_of_emit hemit hopen

theorem Trace.Written.texts {T : String → Prop} {trace : Trace} (h : Written T trace) :
    ∀ e ∈ trace, e.Of T := by
  induction h with
  | nil => simp
  | emit he hwritten hemit ih => simpa using ⟨he, ih⟩

/-- What is known of the pieces that a captured run writes. -/
theorem emissions_of_execute {T : String → Prop} {t : Template}
    (hfree : captureName ∉ t.identifiers) (htexts : ∀ s ∈ t.texts, T s) {functions : Registry}
    {data : Value} {raw : List Char} {args : List Value}
    (hrun : execute functions t.capture data [] = ⟨.ok raw, args⟩) :
    raw = (emissions functions t.capture data).flatMap Emission.chars ∧
      (emissions functions t.capture data).filterMap Emission.captured? = args ∧
      Separated (emissions functions t.capture data) ∧
      ∀ e ∈ emissions functions t.capture data, e.Of T := by
  have hpaired := agrees_ending_capture hfree htexts functions data
  unfold execute at hrun
  unfold emissions
  generalize ending functions t.capture data [] = captured at hpaired hrun ⊢
  generalize ending functions t data [] = bare at hpaired
  cases hpaired with
  | ok hvars hout =>
    rename_i jump s t
    cases hrun
    have hcaptured : s.captured = s.trace.filterMap Emission.captured? := hout.captured
    have hwritten : Trace.Written T s.trace := hout.written
    refine ⟨rfl, ?_, hwritten.separated, ?_⟩
    · rw [hcaptured, List.filterMap_reverse]
    · simpa using hwritten.texts
  | error hadmitted hout => cases hrun
  | excused hexcused => cases hrun

/-! ### Texts with even runs -/

/-- The tokens of a piece on its own. -/
def Emission.tokens (e : Emission) : List Token :=
  Statement.tokens e.chars

/-- The text of a list of pieces after `count` placeholders: of each text every two marks together
are one, values stand as they are printed, and each captured value has the next placeholder. -/
def rendering (placeholder : Nat → String) (count : Nat) : List Emission → List Char
  | [] => []
  | .text s :: rest => collapse s.toList ++ rendering placeholder count rest
  | .value v :: rest => v.print ++ rendering placeholder count rest
  | .argument _ _ :: rest =>
    (placeholder (count + 1)).toList ++ rendering placeholder (count + 1) rest

theorem Separated.tail {e : Emission} {es : List Emission} (h : Separated (e :: es)) :
    Separated es := by
  rintro before pos v after rfl
  exact h (e :: before) pos v after rfl

/-- A text with even runs of marks. -/
def EvenText (s : String) : Prop :=
  EvenRuns s.toList

theorem single_notMem_tokens {e : Emission} (he : e.Of EvenText) (hnone : e.captured? = none) :
    .single ∉ e.tokens := by
  cases e with
  | text s => exact Statement.evenRuns_iff.mp he
  | value v => exact Statement.single_notMem_tokens_double v.print
  | argument pos v => cases hnone

/-- Where the texts have even runs of marks, the raw text is read piece by piece. -/
theorem tokens_chars_of_even {es : List Emission} (hsep : Separated es)
    (heven : ∀ e ∈ es, e.Of EvenText) :
    tokens (es.flatMap Emission.chars) = es.flatMap Emission.tokens := by
  induction es with
  | nil => rfl
  | cons e rest ih =>
    have hrest := ih hsep.tail fun d hd => heven d (List.mem_cons_of_mem _ hd)
    rw [List.flatMap_cons, List.flatMap_cons, ← hrest]
    cases hvalue : e.captured? with
    | none =>
      exact Statement.tokens_append_of_notMem
        (single_notMem_tokens (heven e (List.mem_cons_self ..)) hvalue) _
    | some w =>
      obtain ⟨pos, rfl⟩ := Emission.exists_of_captured? hvalue
      exact Statement.tokens_append_of_head (hsep [] pos w rest rfl) [mark]

/-- There are as many single marks as captured values. -/
theorem count_single_of_even {es : List Emission} (heven : ∀ e ∈ es, e.Of EvenText) :
    (es.flatMap Emission.tokens).count .single = (es.filterMap Emission.captured?).length := by
  induction es with
  | nil => rfl
  | cons e rest ih =>
    have hrest := ih fun d hd => heven d (List.mem_cons_of_mem _ hd)
    rw [List.flatMap_cons, List.count_append, hrest]
    cases hvalue : e.captured? with
    | none =>
      rw [List.filterMap_cons_none hvalue, List.count_eq_zero_of_not_mem
        (single_notMem_tokens (heven e (List.mem_cons_self ..)) hvalue), Nat.zero_add]
    | some w =>
      rw [List.filterMap_cons_some hvalue, List.length_cons]
      obtain ⟨pos, rfl⟩ := Emission.exists_of_captured? hvalue
      rw [show (Emission.argument pos w).tokens = [.single] from rfl, List.count_singleton_self,
        Nat.add_comm]

/-- Filling in the placeholders of the pieces renders them. -/
theorem fill_tokens_of_even (placeholder : Nat → String) (count : Nat) {es : List Emission}
    (heven : ∀ e ∈ es, e.Of EvenText) :
    fill placeholder count (es.flatMap Emission.tokens) = rendering placeholder count es := by
  induction es generalizing count with
  | nil => rfl
  | cons e rest ih =>
    have hrest := fun count => ih count fun d hd => heven d (List.mem_cons_of_mem _ hd)
    have he := heven e (List.mem_cons_self ..)
    rw [List.flatMap_cons, Statement.fill_append, hrest]
    cases e with
    | text s =>
      have hnone := single_notMem_tokens he rfl
      rw [List.count_eq_zero_of_not_mem hnone, rendering]
      congr 1
      exact Statement.fill_tokens_of_notMem placeholder hnone count
    | value v =>
      have hnone := single_notMem_tokens (e := .value v) he rfl
      rw [List.count_eq_zero_of_not_mem hnone, rendering]
      congr 1
      exact Statement.fill_tokens_double placeholder count v.print
    | argument pos v =>
      rw [show (Emission.argument pos v).tokens = [.single] from rfl, List.count_singleton_self,
        rendering]
      simp [fill]

/-! ### Offsets of marks -/

/-- The offsets in a raw text, in bytes, of the marks that formatting renders as placeholders. -/
def placeholderOffsets (raw : List Char) : List Nat :=
  Text.offsetsOf Token.source (· == .single) 0 (tokens raw)

/-- The offsets in the raw text, in bytes, of the marks that stand for captured values. -/
def argumentOffsets (es : List Emission) : List Nat :=
  Text.offsetsOf Emission.chars (·.captured?.isSome) 0 es

/-- Each mark for a value comes after an even number of question marks. -/
def AfterEvenMarks (es : List Emission) : Prop :=
  ∀ before pos v after, es = before ++ .argument pos v :: after →
    Even (trailingMarks (before.flatMap Emission.chars))

theorem mem_argumentOffsets {es : List Emission} {m : Nat} :
    m ∈ argumentOffsets es ↔
      ∃ before pos v after, es = before ++ .argument pos v :: after ∧
        m = Text.utf8Length (before.flatMap Emission.chars) := by
  rw [argumentOffsets, Text.mem_offsetsOf]
  constructor
  · rintro ⟨before, e, after, rfl, he, rfl⟩
    obtain ⟨v, hv⟩ := Option.isSome_iff_exists.mp he
    obtain ⟨pos, rfl⟩ := Emission.exists_of_captured? hv
    exact ⟨before, pos, v, after, rfl, by simp⟩
  · rintro ⟨before, pos, v, after, rfl, rfl⟩
    exact ⟨before, _, after, rfl, rfl, by simp⟩

theorem mem_placeholderOffsets {raw : List Char} {m : Nat} :
    m ∈ placeholderOffsets raw ↔
      ∃ before after, tokens raw = before ++ .single :: after ∧
        m = Text.utf8Length (before.flatMap Token.source) := by
  rw [placeholderOffsets, Text.mem_offsetsOf]
  constructor
  · rintro ⟨before, t, after, hraw, ht, rfl⟩
    cases beq_iff_eq.mp ht
    exact ⟨before, after, hraw, by simp⟩
  · rintro ⟨before, after, hraw, rfl⟩
    exact ⟨before, _, after, hraw, rfl, by simp⟩

/-- A mark for a value is read as a single mark exactly if it comes after an even number of question
marks. -/
theorem mem_placeholderOffsets_iff {es before after : List Emission} {pos : Text.Pos} {v : Value}
    (hsep : Separated es) (hes : es = before ++ .argument pos v :: after) :
    Text.utf8Length (before.flatMap Emission.chars) ∈
        placeholderOffsets (es.flatMap Emission.chars) ↔
      Even (trailingMarks (before.flatMap Emission.chars)) := by
  have hraw : es.flatMap Emission.chars =
      before.flatMap Emission.chars ++ mark :: after.flatMap Emission.chars := by
    simp [hes, Emission.chars]
  rw [mem_placeholderOffsets, hraw, ← not_not (a := Even _), ← Statement.getLast?_tokens_iff]
  constructor
  · rintro ⟨ts, us, htokens, hlength⟩
    -- The tokens and the pieces cut the raw text at one offset, so they cut it into the same parts.
    have hts : before.flatMap Emission.chars = ts.flatMap Token.source := by
      refine Text.eq_of_utf8Length_eq (t := mark :: after.flatMap Emission.chars)
        (v := (Token.single :: us).flatMap Token.source) ?_ hlength
      rw [← List.flatMap_append, ← htokens, Statement.source_tokens]
    rw [hts, (Statement.tokens_of_append htokens).1]
    exact Statement.getLast?_of_tokens_single htokens
  · intro hlast
    refine ⟨tokens (before.flatMap Emission.chars), tokens (after.flatMap Emission.chars), ?_, ?_⟩
    · rw [Statement.tokens_append fun h => absurd h hlast,
        Statement.tokens_single (hsep before pos v after hes)]
    · rw [Statement.source_tokens]

/-- If the numbers agree, the placeholders are the marks for values exactly if each of these comes
after an even number of question marks. -/
theorem placeholderOffsets_eq_iff {es : List Emission} (hsep : Separated es)
    (hcount : (tokens (es.flatMap Emission.chars)).count .single =
      (es.filterMap Emission.captured?).length) :
    placeholderOffsets (es.flatMap Emission.chars) = argumentOffsets es ↔ AfterEvenMarks es := by
  constructor
  · intro heq before pos v after hes
    rw [← mem_placeholderOffsets_iff hsep hes, heq, mem_argumentOffsets]
    exact ⟨before, pos, v, after, hes, rfl⟩
  · intro heven
    refine (Text.eq_of_subset_of_pairwise ?_ ?_ ?_ ?_).symm
    · refine Text.pairwise_offsetsOf (fun e he => ?_) 0 es
      obtain ⟨v, hv⟩ := Option.isSome_iff_exists.mp he
      obtain ⟨pos, rfl⟩ := Emission.exists_of_captured? hv
      exact List.cons_ne_nil _ _
    · refine Text.pairwise_offsetsOf (fun t ht => ?_) 0 _
      cases beq_iff_eq.mp ht
      exact List.cons_ne_nil _ _
    · intro m hm
      obtain ⟨before, pos, v, after, hes, rfl⟩ := mem_argumentOffsets.mp hm
      exact (mem_placeholderOffsets_iff hsep hes).mpr (heven before pos v after hes)
    · rw [argumentOffsets, placeholderOffsets, Text.length_offsetsOf, Text.length_offsetsOf,
        ← List.count, hcount, List.length_filterMap_eq_countP]

end BoundQuery.Run
