/-
# Texts and actions

A source is texts with tags between them. `cut` finds the tags and loses nothing: `Cut.source` gives
the source back. `segments` then does what the trim markers say and drops comments and empty texts.

Main statement: `source_cut`, the parts of a source make up the source.
-/

import BoundQuery.Template.Tag
import BoundQuery.Text.Bytes

namespace BoundQuery.Template

/-! ### The parts of a source -/

/-- A source as texts with tags between them: each tag comes with the text before it. -/
structure Cut where
  tags : List (List Char × Tag)
  last : List Char
deriving DecidableEq, Repr

/-- The source that was cut. -/
def Cut.source (c : Cut) : List Char :=
  c.tags.flatMap (fun (text, t) => text ++ t.source) ++ c.last

/-- Cuts a source that starts `offset` bytes into a text. A fault comes with the offset of the
opening mark of its tag. -/
def cut (offset : Nat) (source : List Char) : Except (Nat × TagFault) Cut :=
  match _hopen : cutOpening source with
  | (text, none) => .ok ⟨[], text⟩
  | (text, some after) =>
    match _htag : readTag after with
    | .error fault => .error (offset + Text.utf8Length text, fault)
    | .ok (t, rest) =>
      (cut (offset + Text.utf8Length (text ++ t.source)) rest).map fun c =>
        { c with tags := (text, t) :: c.tags }
termination_by source.length
decreasing_by
  have h1 := congrArg List.length (cutOpening_some _hopen)
  have h2 := length_readTag _htag
  simp only [opening, List.length_append, List.length_cons, List.length_nil] at h1
  omega

/-- The parts of a source make up the source. -/
theorem source_cut {offset : Nat} {source : List Char} {c : Cut} (h : cut offset source = .ok c) :
    c.source = source := by
  fun_induction cut offset source generalizing c with
  | case1 offset source text ht =>
    simp only [Except.ok.injEq] at h
    subst h
    simpa [Cut.source] using cutOpening_none ht
  | case2 => simp at h
  | case3 offset source text after hopen t rest htag ih =>
    cases hr : cut (offset + Text.utf8Length (text ++ t.source)) rest with
    | error e => rw [hr] at h; simp [Except.map] at h
    | ok c' =>
      rw [hr] at h
      simp only [Except.map, Except.ok.injEq] at h
      subst h
      have := ih hr
      rw [cutOpening_some hopen, List.append_assoc, source_readTag htag, ← this]
      simp [Cut.source]

/-! ### Segments -/

/-- A part of a source that means something: a text that is not empty, or an action. An action comes
with the offsets of its opening mark and of its body, in bytes. -/
inductive Segment
  | text (chars : List Char)
  | action (start : Nat) (bodyStart : Nat) (body : List Char)
deriving DecidableEq, Repr

/-- A text without the white space that the markers beside it remove; nothing if it is empty. -/
def trimmed (trimsStart trimsEnd : Bool) (text : List Char) : List Segment :=
  let text := if trimsStart then trimStart text else text
  let text := if trimsEnd then trimEnd text else text
  if text.isEmpty then [] else [.text text]

/-- The action of a tag that starts at `start`; a comment has none. -/
def Tag.segment (start : Nat) (t : Tag) : List Segment :=
  if t.isComment then []
  else [.action start (start + 2 + (dash t.trimsLeft).length) t.interior]

/-- The segments of a cut source that starts `offset` bytes into a text, after a tag that trims to
its right or not. -/
def segmentsFrom (offset : Nat) (trimsStart : Bool) (last : List Char) :
    List (List Char × Tag) → List Segment
  | [] => trimmed trimsStart false last
  | (text, t) :: rest =>
    trimmed trimsStart t.trimsLeft text ++ t.segment (offset + Text.utf8Length text)
      ++ segmentsFrom (offset + Text.utf8Length (text ++ t.source)) t.trimsRight last rest

/-- The segments of a source. A fault comes with the offset of the opening mark of its tag. -/
def segments (source : List Char) : Except (Nat × TagFault) (List Segment) :=
  (cut 0 source).map fun c => segmentsFrom 0 false c.last c.tags

end BoundQuery.Template
