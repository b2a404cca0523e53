/-
# Literals

Strings in double quotes, where a backslash starts an escape; raw strings in back quotes; whole
numbers in four bases, and floats.
-/

import BoundQuery.Template.Word
import BoundQuery.Template.Tree
import BoundQuery.Decimal.Reading
import BoundQuery.Text.Radix

namespace BoundQuery.Template

/-! ### Strings -/

/-- The number that the hexadecimal digits of an escape denote. A plus sign may precede them. -/
def codePoint? : List Char → Option Nat
  | '+' :: digits => Text.natural? 16 digits
  | digits => Text.natural? 16 digits

/-- The character with the given number, if there is one. -/
def character? (n : Nat) : Option Char :=
  if n.isValidChar then some (Char.ofNat n) else none

/-- A character spelled by its number in `width` places, and what follows. -/
def numbered? (width : Nat) (cs : List Char) : Option (Char × List Char) :=
  if (cs.take width).length = width then
    ((codePoint? (cs.take width)).bind character?).map fun c => (c, cs.drop width)
  else none

/-- What the text after a backslash stands for, and what follows the escape. -/
def escape? : List Char → Option (Char × List Char)
  | 'n' :: cs => some ('\n', cs)
  | 't' :: cs => some ('\t', cs)
  | 'r' :: cs => some ('\r', cs)
  | 'a' :: cs => some ('\x07', cs)
  | 'b' :: cs => some ('\x08', cs)
  | 'f' :: cs => some ('\x0c', cs)
  | 'v' :: cs => some ('\x0b', cs)
  | '0' :: cs => some ('\x00', cs)
  | '\\' :: cs => some ('\\', cs)
  | '"' :: cs => some ('"', cs)
  | '\'' :: cs => some ('\'', cs)
  | 'x' :: cs => numbered? 2 cs
  | 'u' :: cs => numbered? 4 cs
  | 'U' :: cs => numbered? 8 cs
  | _ => none

theorem length_numbered? {width : Nat} {cs rest : List Char} {c : Char}
    (h : numbered? width cs = some (c, rest)) : rest.length ≤ cs.length := by
  unfold numbered? at h
  split at h
  · obtain ⟨_, _, he⟩ := Option.map_eq_some_iff.mp h
    simp only [Prod.mk.injEq] at he
    simp [← he.2]
  · simp at h

theorem length_escape? {cs rest : List Char} {c : Char} (h : escape? cs = some (c, rest)) :
    rest.length < cs.length := by
  unfold escape? at h
  split at h
  all_goals first
    | exact Nat.lt_succ_of_le (length_numbered? h)
    | simp_all

namespace Scan

/-- The characters of a quoted literal up to its closing quote. The literal that starts at
`literal` must end on its line. -/
def quotedFrom (literal : List Char) (cs : List Char) : Scanned (List Char) :=
  match cs with
  | [] => .failed ⟨.openString, literal⟩
  | '"' :: rest => .found [] rest
  | '\n' :: _ => .failed ⟨.openString, literal⟩
  | ['\\'] => .failed ⟨.openString, literal⟩
  | '\\' :: escape =>
    match _h : escape? escape with
    | none => .failed ⟨.badEscape, '\\' :: escape⟩
    | some (c, rest) =>
      match quotedFrom literal rest with
      | .found read rest => .found (c :: read) rest
      | outcome => outcome
  | c :: rest =>
    match quotedFrom literal rest with
    | .found read rest => .found (c :: read) rest
    | outcome => outcome
termination_by cs.length
decreasing_by
  all_goals simp only [List.length_cons]
  · have := length_escape? _h
    omega
  · omega

/-- A literal in double quotes. -/
def quoted : Scan String := fun cs =>
  match cs with
  | '"' :: rest =>
    match quotedFrom cs rest with
    | .found read rest => .found (String.ofList read) rest
    | .missed fault => .missed fault
    | .failed fault => .failed fault
  | _ => .missed ⟨.missing none, cs⟩

/-- The quote of raw literals. -/
def backQuote : Char := Char.ofNat 0x60

/-- A literal in back quotes; a backslash in it is only a backslash. -/
def raw : Scan String := fun cs =>
  match cs with
  | c :: rest =>
    if c = backQuote then
      match rest.dropWhile (· != backQuote) with
      | [] => .failed ⟨.openRawString, cs⟩
      | _ :: after => .found (String.ofList (rest.takeWhile (· != backQuote))) after
    else .missed ⟨.missing none, cs⟩
  | [] => .missed ⟨.missing none, cs⟩

/-- A string literal of either form. -/
def string : Scan String :=
  quoted <|> raw

end Scan

/-! ### Numbers -/

/-- The spelling of a number without its sign. Digits may be separated by underscores. -/
inductive Numeral
  /-- Digits after a mark of their base. -/
  | based (base : Nat) (digits : List Char)
  /-- Decimal digits, maybe a fraction, maybe an exponent with its sign. -/
  | decimal (whole : List Char) (fraction : Option (List Char))
      (exponent : Option (Bool × List Char))
deriving DecidableEq, Repr

/-- The base that a letter after a zero marks. -/
def baseOf? (c : Char) : Option Nat :=
  if c = 'x' ∨ c = 'X' then some 16
  else if c = 'o' ∨ c = 'O' then some 8
  else if c = 'b' ∨ c = 'B' then some 2
  else none

/-- A numeral with a mark of its base at the front of a text. Hexadecimal digits are read in every
base. -/
def readBased? : List Char → Option (Numeral × List Char)
  | '0' :: mark :: cs => (baseOf? mark).bind fun base =>
    let holds c := Text.isHexDigit c || c == '_'
    if (cs.takeWhile holds).isEmpty then none
    else some (.based base (cs.takeWhile holds), cs.dropWhile holds)
  | _ => none

/-- The exponent at the front of a text: the letter, maybe a sign, and digits. -/
def readExponent (cs : List Char) : Option (Bool × List Char) × List Char :=
  match cs with
  | c :: rest =>
    if c = 'e' ∨ c = 'E' then
      let (negative, digits) := match rest with
        | '-' :: ds => (true, ds)
        | '+' :: ds => (false, ds)
        | ds => (false, ds)
      let (digits, after) := Decimal.spanDigits digits
      if digits.isEmpty then (none, cs) else (some (negative, digits), after)
    else (none, cs)
  | [] => (none, [])

/-- A decimal numeral at the front of a text. -/
def readDecimal? (cs : List Char) : Option (Numeral × List Char) :=
  let holds (c : Char) := c.isDigit || c == '_'
  if (cs.head?.map Char.isDigit).getD false then
    let whole := cs.takeWhile holds
    let (fraction, rest) := match cs.dropWhile holds with
      | '.' :: rest => (some (rest.takeWhile holds), rest.dropWhile holds)
      | rest => (none, rest)
    let (exponent, rest) := readExponent rest
    some (.decimal whole fraction exponent, rest)
  else none

/-- Digits without the underscores between them. -/
def plainDigits (digits : List Char) : List Char :=
  digits.filter (· != '_')

/-- A whole number as a signed word, if it fits. -/
def int64? (i : Int) : Option Int64 :=
  if Int64.minValue.toInt ≤ i ∧ i ≤ Int64.maxValue.toInt then some (Int64.ofInt i) else none

/-- The number that a numeral denotes after a sign. Only in decimal the least word can be written:
with a mark of the base the number must fit without its sign. -/
def Numeral.value? (negative : Bool) : Numeral → Option Number
  | .based base digits => do
    let magnitude ← Text.natural? base (plainDigits digits)
    let word ← int64? magnitude
    return .int (if negative then -word else word)
  | .decimal whole none none => do
    let magnitude : Int := Decimal.ofDigits (plainDigits whole)
    return .int (← int64? (if negative then -magnitude else magnitude))
  | .decimal whole fraction exponent =>
    let fraction := plainDigits (fraction.getD [])
    let power : Int := match exponent with
      | none => 0
      | some (true, digits) => -(Decimal.ofDigits digits : Int)
      | some (false, digits) => Decimal.ofDigits digits
    let x := Decimal.toDouble (Decimal.ofDigits (plainDigits whole ++ fraction))
      (power - fraction.length)
    some (.float (if negative then -x else x))

/-- Whether a number may end before this text. -/
def endsNumber : List Char → Bool
  | [] => true
  | c :: _ => !isIdentifierChar c && c != '.'

/-- A number with its sign. What starts like a number and goes on otherwise is refused. -/
def Scan.number : Scan Number := fun cs =>
  let (negative, unsigned) := match cs with
    | '-' :: rest => (true, rest)
    | '+' :: rest => (false, rest)
    | rest => (false, rest)
  match (readBased? unsigned).or (readDecimal? unsigned) with
  | none => .missed ⟨.missing none, cs⟩
  | some (numeral, rest) =>
    if endsNumber rest then
      match numeral.value? negative with
      | some n => .found n rest
      | none => .failed ⟨.badNumber, cs⟩
    else .failed ⟨.badNumber, cs⟩

end BoundQuery.Template
