/-
# Reading settings

Settings are kept as lines `key = value`: `placeholder` with the name of a dialect as a string,
`normalize_whitespace` with a truth value. Keys may be quoted, strings may be of any of the four
forms of the format, and comments may stand at the ends of lines. A key that is not known, a key that
stands twice and a value of another kind are refused.
-/

import BoundQuery.Settings.Basic
import BoundQuery.Text.Radix
import BoundQuery.Text.Start

namespace BoundQuery.Settings

/-! ### Characters and strings -/

/-- White space within a line. -/
def isBlank (c : Char) : Bool :=
  c == ' ' || c == '\t'

/-- What follows the white space at the front. -/
def skipBlank (cs : List Char) : List Char :=
  cs.dropWhile isBlank

/-- Whether `c` may stand in a line: all but control characters, of which only the tab may. -/
def isVisible (c : Char) : Bool :=
  c == '\t' || (0x20 ≤ c.toNat && c.toNat != 0x7f)

/-- What follows the end of a line at the front of a text. -/
def endOfLine? : List Char → Option (List Char)
  | '\n' :: rest => some rest
  | '\r' :: '\n' :: rest => some rest
  | _ => none

/-- The character whose number is spelled in the first `width` places, and what follows. -/
def numbered? (width : Nat) (cs : List Char) : Option (Char × List Char) := do
  let digits := cs.take width
  if digits.length ≠ width then none
  else
    let n ← Text.natural? 16 digits
    if n.isValidChar then some (Char.ofNat n, cs.drop width) else none

/-- What the text after a backslash stands for, and what follows. -/
def escape? : List Char → Option (Char × List Char)
  | 'b' :: cs => some ('\x08', cs)
  | 't' :: cs => some ('\t', cs)
  | 'n' :: cs => some ('\n', cs)
  | 'f' :: cs => some ('\x0c', cs)
  | 'r' :: cs => some ('\r', cs)
  | '"' :: cs => some ('"', cs)
  | '\\' :: cs => some ('\\', cs)
  | 'u' :: cs => numbered? 4 cs
  | 'U' :: cs => numbered? 8 cs
  | _ => none

/-- A string in double quotes, after the first. The bound is at least the length of the text. -/
def readBasic? : Nat → List Char → Option (List Char × List Char)
  | 0, _ => none
  | bound + 1, cs =>
    match cs with
    | [] => none
    | '"' :: rest => some ([], rest)
    | '\\' :: rest => do
      let (c, rest) ← escape? rest
      let (s, rest) ← readBasic? bound rest
      return (c :: s, rest)
    | c :: rest =>
      if isVisible c then (readBasic? bound rest).map fun (s, rest) => (c :: s, rest) else none

/-- A string in single quotes, after the first. -/
def readLiteral? : List Char → Option (List Char × List Char)
  | [] => none
  | '\'' :: rest => some ([], rest)
  | c :: rest =>
    if isVisible c then (readLiteral? rest).map fun (s, rest) => (c :: s, rest) else none

/-- The end of a string of several lines: three quotes, after up to two that belong to it. -/
def endOfLines? (quote : Char) (cs : List Char) : Option (List Char × List Char) :=
  let quotes := min (cs.takeWhile (· == quote)).length 5
  if quotes < 3 then none else some (List.replicate (quotes - 3) quote, cs.drop quotes)

/-- What follows the end of a line, and the white space before and after it. -/
def foldLine? (cs : List Char) : Option (List Char) :=
  (endOfLine? (skipBlank cs)).map fun rest =>
    rest.dropWhile fun c => isBlank c || c == '\n' || c == '\r'

/-- A string of several lines in triple double quotes, after the first three. A backslash at the end
of a line removes the white space up to the next character. -/
def readBasicLines? : Nat → List Char → Option (List Char × List Char)
  | 0, _ => none
  | bound + 1, cs =>
    match endOfLines? '"' cs, endOfLine? cs, cs with
    | some (s, rest), _, _ => some (s, rest)
    | none, some rest, _ => (readBasicLines? bound rest).map fun (s, rest) => ('\n' :: s, rest)
    | none, none, '\\' :: rest =>
      match foldLine? rest with
      | some rest => readBasicLines? bound rest
      | none => do
        let (c, rest) ← escape? rest
        let (s, rest) ← readBasicLines? bound rest
        return (c :: s, rest)
    | none, none, c :: rest =>
      if isVisible c then (readBasicLines? bound rest).map fun (s, rest) => (c :: s, rest) else none
    | none, none, [] => none

/-- A string of several lines in triple single quotes, after the first three. -/
def readLiteralLines? : Nat → List Char → Option (List Char × List Char)
  | 0, _ => none
  | bound + 1, cs =>
    match endOfLines? '\'' cs, endOfLine? cs, cs with
    | some (s, rest), _, _ => some (s, rest)
    | none, some rest, _ => (readLiteralLines? bound rest).map fun (s, rest) => ('\n' :: s, rest)
    | none, none, c :: rest =>
      if isVisible c then (readLiteralLines? bound rest).map fun (s, rest) => (c :: s, rest)
      else none
    | none, none, [] => none

/-- The text without the end of a line at its front. -/
def dropEndOfLine (cs : List Char) : List Char :=
  (endOfLine? cs).getD cs

/-- A string of any form at the front of a text. -/
def readString? (cs : List Char) : Option (List Char × List Char) :=
  match cs with
  | '"' :: '"' :: '"' :: rest => readBasicLines? (cs.length + 1) (dropEndOfLine rest)
  | '\'' :: '\'' :: '\'' :: rest => readLiteralLines? (cs.length + 1) (dropEndOfLine rest)
  | '"' :: rest => readBasic? (cs.length + 1) rest
  | '\'' :: rest => readLiteral? rest
  | _ => none

/-! ### Lines -/

/-- A key at the front of a text: bare, or quoted on one line. -/
def readKey? (cs : List Char) : Option (List Char × List Char) :=
  let isBare (c : Char) := c.isAlphanum || c == '_' || c == '-'
  match cs with
  | '"' :: rest => readBasic? (cs.length + 1) rest
  | '\'' :: rest => readLiteral? rest
  | _ =>
    if (cs.takeWhile isBare).isEmpty then none
    else some (cs.takeWhile isBare, cs.dropWhile isBare)

/-- A truth value at the front of a text. -/
def readBool? (cs : List Char) : Option (Bool × List Char) :=
  match Text.dropStart? "true".toList cs, Text.dropStart? "false".toList cs with
  | some rest, _ => some (true, rest)
  | none, some rest => some (false, rest)
  | none, none => none

/-- The settings read so far; each can be set once. -/
structure Draft where
  dialect : Option Statement.Dialect
  normalizes : Option Bool

/-- Reads the value of a key. -/
def Draft.readValue? (p : Draft) (key : List Char) (cs : List Char) :
    Option (Draft × List Char) := do
  if key = "placeholder".toList then
    let (name, rest) ← readString? cs
    let d ← Statement.Dialect.ofName? (String.ofList name)
    if p.dialect.isSome then none else some ({ p with dialect := some d }, rest)
  else if key = "normalize_whitespace".toList then
    let (b, rest) ← readBool? cs
    if p.normalizes.isSome then none else some ({ p with normalizes := some b }, rest)
  else none

/-- What follows a line that has nothing more to say but a comment. -/
def finishLine? (cs : List Char) : Option (List Char) :=
  let rest := match skipBlank cs with
    | '#' :: comment => comment.dropWhile isVisible
    | rest => rest
  match rest with
  | [] => some []
  | _ => endOfLine? rest

/-- Reads the rest of the lines. The bound is above the length of the text. -/
def Draft.readLines? : Nat → Draft → List Char → Option Draft
  | 0, _, _ => none
  | bound + 1, p, cs =>
    match finishLine? cs with
    | some [] => some p
    | some rest => readLines? bound p rest
    | none => do
      let (key, rest) ← readKey? (skipBlank cs)
      let '=' :: rest := skipBlank rest | none
      let (p, rest) ← p.readValue? key (skipBlank rest)
      match ← finishLine? rest with
      | [] => some p
      | rest => readLines? bound p rest

/-- The settings in a text. A byte order mark may precede them. -/
def ofText? (text : String) : Option Settings :=
  let cs := match text.toList with
    | '\ufeff' :: rest => rest
    | cs => cs
  (Draft.readLines? (cs.length + 1) ⟨none, none⟩ cs).map fun p =>
    ⟨p.dialect.getD Settings.default.dialect, p.normalizes.getD Settings.default.normalizes⟩

end BoundQuery.Settings
