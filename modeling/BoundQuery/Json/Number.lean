/-
# JSON numbers

A number without a point and an exponent is whole if it fits 64 bits, signed or not; minus zero
does not. Any other number is a double: the digits are gathered in an unsigned word of 64 bits,
those that no longer fit are left out, and the word is scaled by a power of ten. Both the word and
the scaled number are rounded, so the result may miss the nearest double by a unit. A number beyond
all doubles is refused.
-/

import BoundQuery.Json.Basic
import BoundQuery.Decimal.Reading

namespace BoundQuery.Json

/-- Gathers digits in a word as long as they fit. The second part counts the digits left out. -/
def gather (word : Nat) : List Char → Nat × Nat
  | [] => (word, 0)
  | c :: cs =>
    let next := 10 * word + (c.toNat - '0'.toNat)
    if next < UInt64.size then gather next cs else (word, cs.length + 1)

/-- `10 ^ n` as a double. -/
def powerOfTen (n : Nat) : Float :=
  Float.ofScientific 1 false n

/-- Divides by `10 ^ 308` several times, until nothing is left. -/
def divideRepeatedly : Nat → Float → Float
  | 0, x => x
  | n + 1, x => if x == 0 then x else divideRepeatedly n (x / powerOfTen 308)

/-- `word * 10 ^ exponent` as a double, if it is one. -/
def scale? (word : Nat) (exponent : Int) : Option Float :=
  let x := (UInt64.ofNat word).toFloat
  if word = 0 then some x
  else if 308 < exponent then none
  else if 0 ≤ exponent then
    let y := x * powerOfTen exponent.toNat
    if Decimal.isFinite y then some y else none
  else
    let n := exponent.natAbs
    let steps := (n - 1) / 308
    let y := divideRepeatedly steps x
    some (y / powerOfTen (n - 308 * steps))

/-- The exponent at the front of a text, if a letter announces one, and the rest. -/
def readExponent? : List Char → Option (Option Int × List Char)
  | [] => some (none, [])
  | c :: cs =>
    if c == 'e' || c == 'E' then
      let (negative, cs) := match cs with
        | '-' :: rest => (true, rest)
        | '+' :: rest => (false, rest)
        | rest => (false, rest)
      let (digits, rest) := Decimal.spanDigits cs
      if digits.isEmpty then none
      else
        let n : Int := Decimal.ofDigits digits
        some (some (if negative then -n else n), rest)
    else some (none, c :: cs)

/-- A number without a point and an exponent, from its gathered digits. -/
def wholeNumber? (negative : Bool) (word leftOut : Nat) : Option Json :=
  if leftOut ≠ 0 then
    (scale? word leftOut).map fun x => .float (if negative then -x else x)
  else if !negative then some (.int word)
  else if 0 < word ∧ Int64.minValue.toInt ≤ -(word : Int) then some (.int (-(word : Int)))
  else some (.float (-(UInt64.ofNat word).toFloat))

/-- Reads the number at the front of a text. -/
def readNumber? (cs : List Char) : Option (Json × List Char) := do
  let (negative, cs) := match cs with
    | '-' :: rest => (true, rest)
    | rest => (false, rest)
  let (whole, rest) := Decimal.spanDigits cs
  if whole.isEmpty || (whole.head? == some '0' && whole.length != 1) then none
  else
    let (word, leftOut) := gather 0 whole
    let (pointed, fraction, rest) := match rest with
      | '.' :: rest => (true, Decimal.spanDigits rest)
      | rest => (false, ([], rest))
    if pointed && fraction.isEmpty then none
    else
      let (exponent, rest) ← readExponent? rest
      if !pointed && exponent.isNone then
        return (← wholeNumber? negative word leftOut, rest)
      else
        let (word, unused) := gather word fraction
        let shift : Int := leftOut - (fraction.length - unused : Nat)
        let x ← scale? word (shift + exponent.getD 0)
        return (.float (if negative then -x else x), rest)

end BoundQuery.Json
