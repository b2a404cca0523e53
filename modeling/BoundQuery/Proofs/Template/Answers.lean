/-
# Sources that cannot be read by byte offsets

The reader by byte offsets has no answer where a slice is inside a character. That is so if and only
if it comes to an action in which a character that is not ASCII stands outside string literals before
the closing mark. Such characters may stand in identifiers.

Main statement: `readBytes_answers`.
-/

import BoundQuery.Proofs.Template.ByteReader

namespace BoundQuery.Template

open Text (utf8Length)

/-! ### Sources without an answer -/

/-- Starting at a place, the characters lead to one outside string literals. -/
def LeadsOutside (start : Place) (read : List Char) : Prop :=
  read.foldl Place.next start = .outside

/-- A character that is not ASCII stands outside string literals, and no closing mark outside string
literals stands before it. -/
def HoldsForeign (start : Place) (interior : List Char) : Prop :=
  ∃ read c rest, interior = read ++ c :: rest ∧ 0x80 ≤ c.toNat ∧ LeadsOutside start read ∧
    ∀ left right, interior = left ++ closing ++ right → LeadsOutside start left →
      read.length < left.length

theorem holdsForeign_cons {place : Place} {c : Char} {rest : List Char}
    (hclosing : ¬ (place = .outside ∧ c = '\x7d' ∧ rest.head? = some '\x7d'))
    (hascii : ¬ (place = .outside ∧ 0x80 ≤ c.toNat)) :
    HoldsForeign place (c :: rest) ↔ HoldsForeign (place.next c) rest := by
  constructor
  · rintro ⟨read, d, more, heq, hd, houtside, hfirst⟩
    cases read with
    | nil =>
      cases heq
      exact absurd ⟨houtside, hd⟩ hascii
    | cons e read =>
      cases heq
      refine ⟨read, d, more, rfl, hd, houtside, ?_⟩
      intro left right hrest hleft
      have hlength := hfirst (c :: left) right (congrArg (c :: ·) hrest) hleft
      simpa using hlength
  · rintro ⟨read, d, more, rfl, hd, houtside, hfirst⟩
    refine ⟨c :: read, d, more, rfl, hd, houtside, ?_⟩
    intro left right heq hleft
    cases left with
    | nil =>
      obtain ⟨hc, hrest⟩ := List.cons.inj heq
      refine absurd ⟨hleft, hc, ?_⟩ hclosing
      rw [hrest]
      rfl
    | cons e left =>
      obtain ⟨rfl, hrest⟩ := List.cons.inj heq
      simpa using hfirst left right hrest hleft

theorem cutClosing_eq_foreign_iff {place : Place} {interior : List Char} :
    cutClosing place interior = .error .foreignCharacter ↔ HoldsForeign place interior := by
  fun_induction cutClosing place interior with
  | case1 place =>
    constructor
    · intro h
      cases h
    · rintro ⟨read, c, rest, heq, -⟩
      simp at heq
  | case2 place c rest hclosing =>
    obtain ⟨hplace, rfl, hhead⟩ := hclosing
    obtain ⟨more, rfl⟩ := List.head?_eq_some_iff.mp hhead
    constructor
    · intro h
      cases h
    · rintro ⟨read, d, more', -, -, -, hfirst⟩
      exact absurd (hfirst [] more rfl hplace) (Nat.not_lt_zero _)
  | case3 place c rest hclosing hforeign =>
    refine iff_of_true rfl ⟨[], c, rest, rfl, hforeign.2, hforeign.1, ?_⟩
    intro left right heq hleft
    cases left with
    | nil =>
      obtain ⟨hc, hrest⟩ := List.cons.inj heq
      refine absurd ⟨hforeign.1, hc, ?_⟩ hclosing
      rw [hrest]
      rfl
    | cons e left => exact Nat.succ_pos _
  | case4 place c rest hclosing hascii ih =>
    rw [holdsForeign_cons hclosing hascii, ← ih]
    cases cutClosing (place.next c) rest with
    | error fault => simp [Except.map]
    | ok parts => simp [Except.map]

/-- What follows an opening mark, without the dash of a trim marker. -/
def interiorAfter (after : List Char) : List Char :=
  if startsTrim after then after.drop 1 else after

/-- What follows an opening mark is a comment: one starts right after the mark, or after a trim
marker and white space. -/
def isCommentAfter (after : List Char) : Bool :=
  startsComment (trimStart (interiorAfter after)) &&
    (startsTrim after || ((interiorAfter after).takeWhile isSpace).isEmpty)

theorem readTag_eq_foreign_iff {after : List Char} :
    readTag after = .error .foreignCharacter ↔
      isCommentAfter after = false ∧ HoldsForeign .outside (interiorAfter after) := by
  rw [← cutClosing_eq_foreign_iff]
  unfold readTag
  change (if isCommentAfter after = true then _ else _) = _ ↔ _
  cases isCommentAfter after with
  | true =>
    rw [if_pos rfl]
    constructor
    · intro h
      split at h
      · cases h
      · split at h <;> cases h
    · rintro ⟨h, -⟩
      cases h
  | false =>
    rw [if_neg Bool.false_ne_true, interiorAfter]
    cases cutClosing .outside (if startsTrim after = true then after.drop 1 else after) with
    | error fault => simp [bind, Except.bind]
    | ok parts => simp [bind, Except.bind, pure, Except.pure]

/-- Reading a source tag by tag leads to this end of it. -/
inductive Reaches : List Char → List Char → Prop
  | start {source : List Char} : Reaches source source
  | tag {source text after rest stop : List Char} {t : Tag} :
      cutOpening source = (text, some after) → readTag after = .ok (t, rest) → Reaches rest stop →
      Reaches source stop

theorem cut_eq_foreign_iff (cursor : Nat) (source : List Char) :
    (∃ offset, cut cursor source = .error (offset, .foreignCharacter)) ↔
      ∃ stop text after, Reaches source stop ∧ cutOpening stop = (text, some after) ∧
        readTag after = .error .foreignCharacter := by
  fun_induction cut cursor source with
  | case1 cursor source text hopen =>
    constructor
    · rintro ⟨offset, h⟩
      cases h
    · rintro ⟨stop, text', after, hreaches, hopen', -⟩
      cases hreaches with
      | start => cases hopen.symm.trans hopen'
      | tag hopen' _ _ => cases hopen.symm.trans hopen'
  | case2 cursor source text after hopen fault hread =>
    constructor
    · rintro ⟨offset, h⟩
      cases h
      exact ⟨source, text, after, .start, hopen, hread⟩
    · rintro ⟨stop, text', after', hreaches, hopen', hread'⟩
      cases hreaches with
      | start =>
        cases hopen.symm.trans hopen'
        cases hread.symm.trans hread'
        exact ⟨_, rfl⟩
      | tag hopen' hread' _ =>
        cases hopen.symm.trans hopen'
        cases hread.symm.trans hread'
  | case3 cursor source text after hopen t rest hread ih =>
    have hrest : (∃ offset, (cut (cursor + utf8Length (text ++ t.source)) rest).map
        (fun c => { c with tags := (text, t) :: c.tags }) = .error (offset, .foreignCharacter)) ↔
        ∃ offset, cut (cursor + utf8Length (text ++ t.source)) rest =
          .error (offset, .foreignCharacter) := by
      cases cut (cursor + utf8Length (text ++ t.source)) rest with
      | error fault => simp [Except.map]
      | ok c => simp [Except.map]
    rw [hrest, ih]
    constructor
    · rintro ⟨stop, text', after', hreaches, hforeign⟩
      exact ⟨stop, text', after', .tag hopen hread hreaches, hforeign⟩
    · rintro ⟨stop, text', after', hreaches, hopen', hread'⟩
      cases hreaches with
      | start =>
        cases hopen.symm.trans hopen'
        cases hread.symm.trans hread'
      | tag hopen'' hread'' hreaches =>
        cases hopen.symm.trans hopen''
        cases hread.symm.trans hread''
        exact ⟨stop, text', after', hreaches, hopen', hread'⟩

/-- The reader by byte offsets has no answer if and only if it comes to an action, not a comment, in
which a character that is not ASCII stands outside string literals before the closing mark. All its
slices are between characters but for the one after the first byte of that character. Its answers
are the segments and the faults of the source. -/
theorem readBytes_answers (source : List Char) :
    (readBytes source 0 false = none ↔
      ∃ stop text after, Reaches source stop ∧ cutOpening stop = (text, some after) ∧
        isCommentAfter after = false ∧ HoldsForeign .outside (interiorAfter after)) ∧
    ∀ outcome, readBytes source 0 false = some outcome → segments source = outcome := by
  rw [readBytes_eq]
  refine ⟨?_, fun outcome h => eq_of_answer? h⟩
  have hsegments : (∃ e, segments source = .error e ∧ e.2 = .foreignCharacter) ↔
      ∃ offset, cut 0 source = .error (offset, .foreignCharacter) := by
    unfold segments
    cases cut 0 source with
    | error e => simp [Except.map, Prod.ext_iff]
    | ok c => simp [Except.map]
  rw [answer?_eq_none_iff, hsegments, cut_eq_foreign_iff]
  simp only [readTag_eq_foreign_iff]

/-- Identifiers may hold characters that are not ASCII, but there is no answer for them. -/
theorem no_answer_for_identifier :
    (∃ action, readAction (fun _ => ⟨1, 1⟩) ".é".toList = .ok action) ∧
      readBytes "{{.é}}".toList 0 false = none := by
  obtain ⟨action, hread, -⟩ := exists_of_any
    (x := readAction (fun _ => ⟨1, 1⟩) ".é".toList) (p := fun _ => true) (by decide +kernel)
  exact ⟨⟨action, hread⟩, by decide +kernel⟩

end BoundQuery.Template
