/-
# What a run writes

A run writes texts of the template, printed values, and question marks that stand for captured
values. The trace of a run lists what it wrote; the raw text of the statement is all of it in a row.
-/

import BoundQuery.Run.Error
import BoundQuery.Statement.Mark
import BoundQuery.Value.Print

namespace BoundQuery.Run

/-- A piece that a run writes. -/
inductive Emission
  /-- Text of the template, as it stands. -/
  | text (s : String)
  /-- A printed value. Its question marks are meant as such. -/
  | value (v : Value)
  /-- A question mark in place of a captured value, written by the action at `pos`. -/
  | argument (pos : Text.Pos) (v : Value)

namespace Emission

/-- The characters of a piece. -/
def chars : Emission → List Char
  | text s => s.toList
  | value v => Statement.double v.print
  | argument _ _ => [Statement.mark]

/-- The captured value that a piece stands for. -/
def captured? : Emission → Option Value
  | argument _ v => some v
  | _ => none

end Emission

/-- The pieces that a run wrote, the last first. -/
abbrev Trace : Type := List Emission

namespace Trace

/-- The text of all pieces in the order in which they were written. -/
def raw (trace : Trace) : List Char :=
  trace.reverse.flatMap Emission.chars

/-- The action whose question mark ends the text so far. -/
def openMark? : Trace → Option Text.Pos
  | [] => none
  | .argument pos _ :: _ => some pos
  | e :: rest => if e.chars.isEmpty then openMark? rest else none

/-- Writes a piece. A question mark must not follow right on one that stands for a value. -/
def emit (e : Emission) (trace : Trace) : Except EvalError Trace :=
  match openMark? trace with
  | some pos =>
    if e.chars.head? = some Statement.mark then .error ⟨pos, .adjacentPlaceholder⟩
    else .ok (e :: trace)
  | none => .ok (e :: trace)

end Trace

end BoundQuery.Run
