/-
# Quoted text

The spelling of a text between double quotes that messages, canonical templates and the verb `%q`
share. Letters stand for themselves; a quote, a backslash and the common control characters take a
backslash; whatever does not show, or would attach to its neighbour, is spelled by its number.
-/

import BoundQuery.Unicode.GraphemeExtend
import BoundQuery.Unicode.Ignorable
import BoundQuery.Unicode.Printable

namespace BoundQuery.Text.Quoted

/-- The lower-case hexadecimal digits of a number, without padding. -/
def hexDigits (n : Nat) : List Char :=
  Nat.toDigits 16 n

/-- `c` spelled by its number, as `\u` with the digits between braces. -/
def numbered (c : Char) : List Char :=
  ['\\', 'u', '\x7b'] ++ hexDigits c.toNat ++ ['\x7d']

/-- Whether `c` shows in a text, apart from the characters around it. -/
def showsAlone (c : Char) : Bool :=
  Unicode.isPrintable c && !Unicode.isIgnorable c && !Unicode.attaches c

/-- The spelling of one character. -/
def escape (c : Char) : List Char :=
  match c with
  | '"' => ['\\', '"']
  | '\\' => ['\\', '\\']
  | '\n' => ['\\', 'n']
  | '\t' => ['\\', 't']
  | '\r' => ['\\', 'r']
  | '\x00' => ['\\', '0']
  | c => if showsAlone c then [c] else numbered c

/-- The spelling of a text, with its quotes. -/
def spell (cs : List Char) : List Char :=
  '"' :: cs.flatMap escape ++ ['"']

end BoundQuery.Text.Quoted

namespace BoundQuery.Text

/-- The quoted spelling of a text. -/
def quoted (s : String) : String :=
  String.ofList (Quoted.spell s.toList)

end BoundQuery.Text
