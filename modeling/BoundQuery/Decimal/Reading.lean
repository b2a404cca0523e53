/-
# Reading decimals

A decimal is an optional sign, digits with at most one point among or around them and at least one
digit, and an optional exponent; or the name of an infinity or of the not-a-number, in any case of
letters. The number is rounded to the nearest double.
-/

import BoundQuery.Decimal.Double

namespace BoundQuery.Decimal

/-- The digits at the front of a text, and the rest. -/
def spanDigits (cs : List Char) : List Char × List Char :=
  (cs.takeWhile Char.isDigit, cs.dropWhile Char.isDigit)

/-- The number that decimal digits denote. -/
def ofDigits (digits : List Char) : Nat :=
  Nat.ofDigitChars 10 digits 0

/-- The double nearest to `coefficient * 10 ^ exponent`. Numbers of more than 310 places before the
point are beyond every double, and those below `10 ^ -330` are nearest to zero. -/
def toDouble (coefficient : Nat) (exponent : Int) : Float :=
  let places := exponent + (Nat.toDigits 10 coefficient).length
  if coefficient = 0 then 0
  else if places > 310 then infinity
  else if places < -330 then 0
  else Float.ofScientific coefficient (exponent < 0) exponent.natAbs

/-- The exponent part of a decimal: nothing, or the letter, an optional sign and digits. -/
def readExponent? : List Char → Option Int
  | [] => some 0
  | c :: cs =>
    if c == 'e' || c == 'E' then
      let (negative, digits) := match cs with
        | '-' :: ds => (true, ds)
        | '+' :: ds => (false, ds)
        | ds => (false, ds)
      if digits.isEmpty || !digits.all Char.isDigit then none
      else some (if negative then -(ofDigits digits : Int) else ofDigits digits)
    else none

/-- Reads a decimal without a sign. -/
def readMagnitude? (cs : List Char) : Option Float :=
  let (whole, rest) := spanDigits cs
  let (fraction, rest) := match rest with
    | '.' :: rest => spanDigits rest
    | rest => ([], rest)
  if whole.isEmpty && fraction.isEmpty then none
  else (readExponent? rest).map fun exponent =>
    toDouble (ofDigits (whole ++ fraction)) (exponent - fraction.length)

/-- Reads a decimal or the name of a special double. -/
def read? (cs : List Char) : Option Float :=
  let (negative, body) := match cs with
    | '-' :: rest => (true, rest)
    | '+' :: rest => (false, rest)
    | rest => (false, rest)
  let name := String.ofList (body.map Char.toLower)
  let magnitude :=
    if name == "inf" || name == "infinity" then some infinity
    else if name == "nan" then some nan
    else readMagnitude? body
  magnitude.map fun x => if negative then -x else x

end BoundQuery.Decimal
