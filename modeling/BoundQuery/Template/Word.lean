/-
# Words of an action

Identifiers, keywords, variables and fields. A keyword is a whole word: it does not start a longer
identifier.
-/

import BoundQuery.Template.Scan
import BoundQuery.Template.Tag
import BoundQuery.Unicode.Alphabetic
import BoundQuery.Unicode.Numeric

namespace BoundQuery.Template

/-- The characters that identifiers start with. -/
def isIdentifierStart (c : Char) : Bool :=
  Unicode.isAlphabetic c || c == '_'

/-- The characters of identifiers. -/
def isIdentifierChar (c : Char) : Bool :=
  Unicode.isAlphabetic c || Unicode.isNumeric c || c == '_'

namespace Scan

/-- White space, maybe none. -/
def spaces : Scan (List Char) :=
  takeWhile isSpace

/-- White space between operands. -/
def someSpaces : Scan (List Char) :=
  takeSome isSpace

/-- An identifier. -/
def identifier : Scan String := do
  let first ← satisfy isIdentifierStart
  let rest ← takeWhile isIdentifierChar
  return String.ofList (first :: rest)

/-- A keyword. -/
def keyword (name : String) : Scan Unit := do
  word name.toList
  notFollowedBy isIdentifierChar

/-- A field name after its dot. -/
def field : Scan String := do
  let _ ← char '.'
  identifier

/-- Fields one after the other, maybe none. -/
def fields : Scan (List String) :=
  many field

/-- The name of a variable with its dollar sign, which may stand alone. -/
def variableName : Scan String := do
  let sign ← char '$'
  let name ← takeWhile isIdentifierChar
  return String.ofList (sign :: name)

/-- The two truth values. -/
def boolean : Scan Bool :=
  (do keyword "true"; return true) <|> (do keyword "false"; return false)

/-- The word for null. -/
def nil : Scan Unit :=
  keyword "nil"

end Scan

end BoundQuery.Template
