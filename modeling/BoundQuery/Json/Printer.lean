/-
# Writing JSON

The compact form: no white space, entries in ascending order of the keys, no escapes but those that
JSON asks for. Doubles are written with the fewest digits that read back, always with a fraction or
an exponent; those that JSON cannot hold become null.
-/

import BoundQuery.Json.Basic
import BoundQuery.Decimal.Layout
import BoundQuery.Text.Quoted

namespace BoundQuery.Json

/-- Doubles from `10 ^ -5` on and below `10 ^ 16` go without an exponent. -/
def floatLayout : Decimal.Layout where
  tie := .toEven
  positional n := -5 ≤ n && n < 16
  wholePoint := true
  plusSign := true

/-- The spelling of one character of a string. -/
def escape (c : Char) : List Char :=
  match c with
  | '"' => ['\\', '"']
  | '\\' => ['\\', '\\']
  | '\n' => ['\\', 'n']
  | '\r' => ['\\', 'r']
  | '\t' => ['\\', 't']
  | '\x08' => ['\\', 'b']
  | '\x0c' => ['\\', 'f']
  | c =>
    if c.toNat < 0x20 then
      let digits := Text.Quoted.hexDigits c.toNat
      ['\\', 'u'] ++ List.replicate (4 - digits.length) '0' ++ digits
    else [c]

/-- A string with its quotes, in front of `rest`. -/
def writeString (s : String) (rest : List Char) : List Char :=
  '"' :: s.toList.flatMap escape ++ '"' :: rest

mutual

/-- The compact form of a document, in front of `rest`. -/
def write (rest : List Char) : Json → List Char
  | null => "null".toList ++ rest
  | bool b => (if b then "true" else "false").toList ++ rest
  | int i => (toString i).toList ++ rest
  | float x => (if Decimal.isFinite x then floatLayout.write x else "null".toList) ++ rest
  | string s => writeString s rest
  | array items => '[' :: writeItems (']' :: rest) items
  | object entries => '\x7b' :: writeEntries ('\x7d' :: rest) entries

/-- Documents with commas between them, in front of `rest`. -/
def writeItems (rest : List Char) : List Json → List Char
  | [] => rest
  | [v] => write rest v
  | v :: w :: others => write (',' :: writeItems rest (w :: others)) v

/-- Entries with commas between them, in front of `rest`. -/
def writeEntries (rest : List Char) : List (String × Json) → List Char
  | [] => rest
  | [(key, v)] => writeString key (':' :: write rest v)
  | (key, v) :: e :: others =>
    writeString key (':' :: write (',' :: writeEntries rest (e :: others)) v)

end

/-- The compact form of a document. -/
def text (v : Json) : String :=
  String.ofList (v.write [])

end BoundQuery.Json
