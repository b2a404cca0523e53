/-
# Tags

A tag runs from an opening mark to its closing mark and holds an action or a comment. Dashes at its
marks trim the white space of the texts beside it. An action ends at the first closing mark outside
string literals, a comment right after its own end.

Main statement: `source_readTag`, a tag and what follows it make up what was read.
-/

import BoundQuery.Template.Render

namespace BoundQuery.Template

/-- White space in a template: what trim markers remove and what separates operands. -/
def isSpace (c : Char) : Bool :=
  c == ' ' || c == '\t' || c == '\r' || c == '\n'

/-- What follows the white space at the front. -/
def trimStart (cs : List Char) : List Char :=
  cs.dropWhile isSpace

/-- What precedes the white space at the end. -/
def trimEnd (cs : List Char) : List Char :=
  (cs.reverse.dropWhile isSpace).reverse

/-- What is wrong with the tags of a source. -/
inductive TagFault
  | unclosedComment
  | unclosedAction
  /-- Outside string literals the characters of an action are ASCII. -/
  | foreignCharacter
deriving DecidableEq, Repr

/-- What stands from an opening mark to its closing mark. The dashes of trim markers are not part of
the interior. -/
structure Tag where
  trimsLeft : Bool
  isComment : Bool
  interior : List Char
  trimsRight : Bool
deriving DecidableEq, Repr

/-- The dash of a trim marker. -/
def dash (trims : Bool) : List Char :=
  if trims then ['-'] else []

/-- A tag as it stands in the source. -/
def Tag.source (t : Tag) : List Char :=
  opening ++ dash t.trimsLeft ++ t.interior ++ dash t.trimsRight ++ closing

/-! ### Finding tags -/

/-- The text before the first opening mark, and what follows the mark. -/
def cutOpening : List Char → List Char × Option (List Char)
  | [] => ([], none)
  | '\x7b' :: '\x7b' :: rest => ([], some rest)
  | c :: rest => (c :: (cutOpening rest).1, (cutOpening rest).2)

/-- A text up to the first end of a comment, and what follows it. -/
def cutCommentEnd? : List Char → Option (List Char × List Char)
  | [] => none
  | '*' :: '/' :: rest => some (['*', '/'], rest)
  | c :: rest => (cutCommentEnd? rest).map fun (left, right) => (c :: left, right)

/-- Where the reader of an action stands: in a string literal or outside. -/
inductive Place
  | outside
  | quoted
  /-- After a backslash in a quoted literal. -/
  | escaped
  | raw
deriving DecidableEq, Repr

/-- The place after a character. A quoted literal ends at its quote, and at the end of the line. -/
def Place.next : Place → Char → Place
  | .outside, c => if c = '"' then .quoted else if c = Char.ofNat 0x60 then .raw else .outside
  | .quoted, c =>
    if c = '\\' then .escaped else if c = '"' ∨ c = '\n' then .outside else .quoted
  | .escaped, _ => .quoted
  | .raw, c => if c = Char.ofNat 0x60 then .outside else .raw

/-- The interior of an action, and what follows its closing mark: the first one outside string
literals. -/
def cutClosing (place : Place) : List Char → Except TagFault (List Char × List Char)
  | [] => .error .unclosedAction
  | c :: rest =>
    if place = .outside ∧ c = '\x7d' ∧ rest.head? = some '\x7d' then .ok ([], rest.drop 1)
    else if place = .outside ∧ 0x80 ≤ c.toNat then .error .foreignCharacter
    else (cutClosing (place.next c) rest).map fun (left, right) => (c :: left, right)

/-- Whether an opening mark before this text trims: a dash follows it, and white space. -/
def startsTrim : List Char → Bool
  | '-' :: c :: _ => isSpace c
  | _ => false

/-- Whether a closing mark after this text trims: a dash precedes it, and white space. -/
def endsTrim (interior : List Char) : Bool :=
  startsTrim interior.reverse

/-- Whether a comment starts here. -/
def startsComment : List Char → Bool
  | '/' :: '*' :: _ => true
  | _ => false

/-- The closing mark right after a comment, maybe with a trim marker: white space in the tag,
whether it trims, and what follows. -/
def closeComment? (cs : List Char) : Option (List Char × Bool × List Char) :=
  match cs with
  | '\x7d' :: '\x7d' :: rest => some ([], false, rest)
  | _ =>
    let blanks := cs.takeWhile isSpace
    match trimStart cs with
    | '-' :: '\x7d' :: '\x7d' :: rest => if blanks.isEmpty then none else some (blanks, true, rest)
    | _ => none

/-- The tag whose opening mark precedes this text, and what follows the tag. -/
def readTag (after : List Char) : Except TagFault (Tag × List Char) :=
  let trimsLeft := startsTrim after
  let inner := if trimsLeft then after.drop 1 else after
  let lead := inner.takeWhile isSpace
  if startsComment (trimStart inner) && (trimsLeft || lead.isEmpty) then
    match cutCommentEnd? (trimStart inner) with
    | none => .error .unclosedComment
    | some (comment, rest) =>
      match closeComment? rest with
      | none => .error .unclosedComment
      | some (trail, trimsRight, rest) =>
        .ok (⟨trimsLeft, true, lead ++ comment ++ trail, trimsRight⟩, rest)
  else do
    let (interior, rest) ← cutClosing .outside inner
    let trimsRight := endsTrim interior
    let interior := if trimsRight then interior.dropLast else interior
    return (⟨trimsLeft, false, interior, trimsRight⟩, rest)

/-! ### Nothing is lost -/

theorem cutOpening_none {cs text : List Char} (h : cutOpening cs = (text, none)) : text = cs := by
  fun_induction cutOpening cs generalizing text with
  | case1 => simp_all
  | case2 => simp at h
  | case3 c rest _ ih =>
    simp only [Prod.mk.injEq] at h
    have hrest : (cutOpening rest).1 = rest := ih (Prod.ext rfl h.2)
    rw [← h.1, hrest]

theorem cutOpening_some {cs text after : List Char} (h : cutOpening cs = (text, some after)) :
    cs = text ++ opening ++ after := by
  fun_induction cutOpening cs generalizing text with
  | case1 => simp at h
  | case2 rest => simp_all [opening]
  | case3 c rest _ ih =>
    simp only [Prod.mk.injEq] at h
    rw [← h.1]
    simpa using ih (Prod.ext rfl h.2)

theorem cutCommentEnd?_some {cs left right : List Char}
    (h : cutCommentEnd? cs = some (left, right)) : cs = left ++ right := by
  fun_induction cutCommentEnd? cs generalizing left with
  | case1 => simp at h
  | case2 rest =>
    simp only [Option.some.injEq, Prod.mk.injEq] at h
    simp [← h.1, ← h.2]
  | case3 c rest _ ih =>
    obtain ⟨⟨l, r⟩, hl, he⟩ := Option.map_eq_some_iff.mp h
    simp only [Prod.mk.injEq] at he
    obtain ⟨rfl, rfl⟩ := he
    simpa using ih hl

theorem cutClosing_ok {place : Place} {cs left right : List Char}
    (h : cutClosing place cs = .ok (left, right)) : cs = left ++ closing ++ right := by
  fun_induction cutClosing place cs generalizing left with
  | case1 => simp at h
  | case2 place c rest hc =>
    obtain ⟨-, rfl, hr⟩ := hc
    cases rest with
    | nil => simp at hr
    | cons d rest =>
      simp only [List.head?_cons, Option.some.injEq] at hr
      simp only [List.drop_succ_cons, List.drop_zero, Except.ok.injEq, Prod.mk.injEq] at h
      obtain ⟨rfl, rfl⟩ := h
      simp [hr, closing]
  | case3 => simp at h
  | case4 place c rest _ _ ih =>
    cases hr : cutClosing (place.next c) rest with
    | error e => rw [hr] at h; simp [Except.map] at h
    | ok p =>
      obtain ⟨l, r⟩ := p
      rw [hr] at h
      simp only [Except.map, Except.ok.injEq, Prod.mk.injEq] at h
      obtain ⟨rfl, rfl⟩ := h
      simpa using ih hr

theorem closeComment?_some {cs trail rest : List Char} {trims : Bool}
    (h : closeComment? cs = some (trail, trims, rest)) :
    cs = trail ++ dash trims ++ closing ++ rest := by
  unfold closeComment? at h
  split at h
  · simp only [Option.some.injEq, Prod.mk.injEq] at h
    obtain ⟨rfl, rfl, rfl⟩ := h
    rfl
  · dsimp only at h
    split at h
    · next r hr =>
      split at h
      · simp at h
      · simp only [Option.some.injEq, Prod.mk.injEq] at h
        obtain ⟨rfl, rfl, rfl⟩ := h
        have := List.takeWhile_append_dropWhile (p := isSpace) (l := cs)
        rw [trimStart] at hr
        rw [hr] at this
        simpa [dash, closing] using this.symm
    · simp at h

theorem trimsLeft_append (after : List Char) :
    dash (startsTrim after) ++ (if startsTrim after then after.drop 1 else after) = after := by
  unfold startsTrim
  split
  · next c rest => cases isSpace c <;> simp [dash]
  · simp [dash]

theorem trimsRight_append (interior : List Char) :
    (if endsTrim interior then interior.dropLast else interior) ++ dash (endsTrim interior)
      = interior := by
  cases h : endsTrim interior with
  | false => simp [dash]
  | true =>
    unfold endsTrim startsTrim at h
    split at h
    · next c rest hr =>
      have : interior = rest.reverse ++ [c, '-'] := by
        rw [← List.reverse_reverse interior, hr]; simp
      simp [this, dash]
    · simp at h

/-- A tag that is read makes up, with what follows it, what was read. -/
theorem source_readTag {after rest : List Char} {t : Tag} (h : readTag after = .ok (t, rest)) :
    opening ++ after = t.source ++ rest := by
  have hl := trimsLeft_append after
  unfold readTag at h
  dsimp only at h
  generalize hinner : (if startsTrim after then after.drop 1 else after) = inner at h hl
  split at h
  · split at h
    · simp at h
    · next comment rest' hc =>
      split at h
      · simp at h
      · next trail trims rest'' ht =>
        simp only [Except.ok.injEq, Prod.mk.injEq] at h
        obtain ⟨rfl, rfl⟩ := h
        have hcs := cutCommentEnd?_some hc
        have hts := closeComment?_some ht
        have hsp := List.takeWhile_append_dropWhile (p := isSpace) (l := inner)
        rw [trimStart] at hcs
        rw [hcs, hts] at hsp
        conv => lhs; rw [← hl, ← hsp]
        simp [Tag.source]
  · cases hc : cutClosing .outside inner with
    | error e => rw [hc] at h; simp [bind, Except.bind] at h
    | ok p =>
      obtain ⟨interior, rest'⟩ := p
      rw [hc] at h
      simp only [bind, Except.bind, pure, Except.pure, Except.ok.injEq, Prod.mk.injEq] at h
      obtain ⟨rfl, rfl⟩ := h
      have hcs := cutClosing_ok hc
      have hr := trimsRight_append interior
      conv => lhs; rw [← hl, hcs, ← hr]
      simp [Tag.source]

theorem length_readTag {after rest : List Char} {t : Tag} (h : readTag after = .ok (t, rest)) :
    rest.length ≤ after.length := by
  have := congrArg List.length (source_readTag h)
  simp only [Tag.source, opening, closing, List.length_append, List.length_cons,
    List.length_nil] at this
  omega

end BoundQuery.Template
