/-
# Reading JSON

A document is read whole: only white space may stand around it. Arrays and objects nest at most 127
deep. In an object the last entry of a key counts.
-/

import BoundQuery.Json.Number
import BoundQuery.Text.Radix
import BoundQuery.Text.Start

namespace BoundQuery.Json

/-- What may stand between the parts of a document. -/
def isSpace (c : Char) : Bool :=
  c == ' ' || c == '\n' || c == '\t' || c == '\r'

/-- What follows the white space at the front. -/
def skipSpace (cs : List Char) : List Char :=
  cs.dropWhile isSpace

/-- The number that four hexadecimal digits denote. -/
def hex4? (a b c d : Char) : Option Nat :=
  Text.natural? 16 [a, b, c, d]

/-- The character that two units of UTF-16 stand for. -/
def ofSurrogates (high low : Nat) : Char :=
  Char.ofNat (0x10000 + (high - 0xD800) * 0x400 + (low - 0xDC00))

/-- What the letter after a backslash stands for. -/
def escape? : Char → Option Char
  | '"' => some '"'
  | '\\' => some '\\'
  | '/' => some '/'
  | 'b' => some '\x08'
  | 'f' => some '\x0c'
  | 'n' => some '\n'
  | 'r' => some '\r'
  | 't' => some '\t'
  | _ => none

/-- Reads a string whose opening quote is behind. Control characters and halves of surrogate pairs
are refused. The characters read so far come in reverse. -/
def readString? (read : List Char) : List Char → Option (List Char × List Char)
  | [] => none
  | '"' :: cs => some (read.reverse, cs)
  | '\\' :: 'u' :: a :: b :: c :: d :: cs =>
    match hex4? a b c d with
    | none => none
    | some unit =>
      if 0xDC00 ≤ unit ∧ unit ≤ 0xDFFF then none
      else if 0xD800 ≤ unit ∧ unit ≤ 0xDBFF then
        match cs with
        | '\\' :: 'u' :: a :: b :: c :: d :: cs =>
          match hex4? a b c d with
          | none => none
          | some low =>
            if 0xDC00 ≤ low ∧ low ≤ 0xDFFF then readString? (ofSurrogates unit low :: read) cs
            else none
        | _ => none
      else readString? (Char.ofNat unit :: read) cs
  | '\\' :: e :: cs =>
    match escape? e with
    | some c => readString? (c :: read) cs
    | none => none
  | c :: cs => if c.toNat < 0x20 || c == '\\' then none else readString? (c :: read) cs

/-- Reads the items of an array up to its closing bracket. The bound is at least their number. -/
def readItems? (value : List Char → Option (Json × List Char)) :
    Nat → List Char → Option (List Json × List Char)
  | 0, _ => none
  | bound + 1, cs => do
    let (v, cs) ← value cs
    match skipSpace cs with
    | ',' :: cs =>
      let (vs, cs) ← readItems? value bound cs
      return (v :: vs, cs)
    | ']' :: cs => return ([v], cs)
    | _ => none

/-- Reads the entries of an object up to its closing brace. The bound is at least their number. -/
def readEntries? (value : List Char → Option (Json × List Char)) :
    Nat → List Char → Option (List (String × Json) × List Char)
  | 0, _ => none
  | bound + 1, cs => do
    let '"' :: cs := skipSpace cs | none
    let (key, cs) ← readString? [] cs
    let ':' :: cs := skipSpace cs | none
    let (v, cs) ← value cs
    match skipSpace cs with
    | ',' :: cs =>
      let (entries, cs) ← readEntries? value bound cs
      return ((String.ofList key, v) :: entries, cs)
    | '\x7d' :: cs => return ([(String.ofList key, v)], cs)
    | _ => none

/-- Reads the value at the front of a text, with arrays and objects nested less deep than the
bound. -/
def readValue? : Nat → List Char → Option (Json × List Char)
  | 0, _ => none
  | depth + 1, cs =>
    match skipSpace cs with
    | '"' :: cs => (readString? [] cs).map fun (s, cs) => (.string (String.ofList s), cs)
    | '[' :: cs =>
      if depth = 0 then none
      else match skipSpace cs with
        | ']' :: cs => some (.array [], cs)
        | cs => (readItems? (readValue? depth) (cs.length + 1) cs).map fun (vs, cs) =>
          (.array vs, cs)
    | '\x7b' :: cs =>
      if depth = 0 then none
      else match skipSpace cs with
        | '\x7d' :: cs => some (.object [], cs)
        | cs => (readEntries? (readValue? depth) (cs.length + 1) cs).map fun (entries, cs) =>
          (ofEntries entries, cs)
    | 'n' :: cs => (Text.dropStart? "ull".toList cs).map fun cs => (.null, cs)
    | 't' :: cs => (Text.dropStart? "rue".toList cs).map fun cs => (.bool true, cs)
    | 'f' :: cs => (Text.dropStart? "alse".toList cs).map fun cs => (.bool false, cs)
    | cs => readNumber? cs

/-- The greatest number of arrays and objects around a value, and one more. -/
def depthLimit : Nat := 128

/-- Reads a document. -/
def ofString? (text : String) : Option Json := do
  let (v, rest) ← readValue? depthLimit text.toList
  if (skipSpace rest).isEmpty then some v else none

end BoundQuery.Json
