/-
# Line and column

A position names a place in a source text: the line counts from one, and so does the column, in
characters. Main statement: `positionAt_append`, the position after an initial part of a text is
reached by passing over its characters one by one.
-/

import BoundQuery.Text.Bytes

namespace BoundQuery.Text

/-- A place in a source text. -/
structure Pos where
  line : Nat
  column : Nat
deriving DecidableEq, Repr, Inhabited

namespace Pos

/-- Where every text starts. -/
def start : Pos := ⟨1, 1⟩

/-- The position after the character `c` at `p`. -/
def advance (p : Pos) (c : Char) : Pos :=
  if c = '\n' then ⟨p.line + 1, 1⟩ else ⟨p.line, p.column + 1⟩

/-- Written as the two numbers with a colon between them. -/
def text (p : Pos) : String :=
  toString p.line ++ ":" ++ toString p.column

end Pos

/-- The position `offset` bytes into a text that itself starts at `p`. A place inside a character
or beyond the end has no column of its own: it is given the first column of its line. -/
def positionFrom (p : Pos) : List Char → Nat → Pos
  | _, 0 => p
  | [], _ + 1 => ⟨p.line, 1⟩
  | c :: cs, n + 1 =>
    if c.utf8Size ≤ n + 1 then positionFrom (p.advance c) cs (n + 1 - c.utf8Size)
    else ⟨p.line, 1⟩

/-- The position `offset` bytes into a text. -/
def positionAt (text : List Char) (offset : Nat) : Pos :=
  positionFrom .start text offset

/-! ### Laws -/

theorem positionFrom_append (p : Pos) (s t : List Char) :
    positionFrom p (s ++ t) (utf8Length s) = s.foldl Pos.advance p := by
  induction s generalizing p with
  | nil => cases t <;> rfl
  | cons c s ih =>
    have hc := c.utf8Size_pos
    obtain ⟨n, hn⟩ : ∃ n, c.utf8Size + utf8Length s = n + 1 :=
      ⟨c.utf8Size + utf8Length s - 1, by omega⟩
    have : n + 1 - c.utf8Size = utf8Length s := by omega
    simp [hn, positionFrom, this, ih, show c.utf8Size ≤ n + 1 by omega]

/-- The position at the end of an initial part of a text. -/
theorem positionAt_append (s t : List Char) :
    positionAt (s ++ t) (utf8Length s) = s.foldl Pos.advance .start :=
  positionFrom_append _ s t

end BoundQuery.Text
