/-
# Layouts of a double

How the digits of a double are laid out: with the point among them or with an exponent, with or
without a fraction for whole numbers. `Layout.write` follows a layout; `fixed` writes a given
number of decimal places of the exact value.
-/

import BoundQuery.Decimal.Shortest

namespace BoundQuery.Decimal

/-- The decisions of a format for doubles. -/
structure Layout where
  /-- Which of two equally near shortest decimals is written. -/
  tie : Tie
  /-- Whether a number whose first digit counts `10 ^ n` is written without an exponent. -/
  positional : Int → Bool
  /-- Whether whole numbers that are written without an exponent end in `.0`. -/
  wholePoint : Bool
  /-- Whether positive exponents carry a sign. -/
  plusSign : Bool

/-- The digits of a number with the point after the first `point` places. -/
def positional (wholePoint : Bool) (digits : List Char) (point : Int) : List Char :=
  if point ≤ 0 then
    ['0', '.'] ++ List.replicate (-point).toNat '0' ++ digits
  else if digits.length ≤ point then
    digits ++ List.replicate (point.toNat - digits.length) '0'
      ++ (if wholePoint then ['.', '0'] else [])
  else
    digits.take point.toNat ++ ['.'] ++ digits.drop point.toNat

/-- The digits of a number with the point after the first and an exponent. -/
def scientific (plusSign : Bool) (digits : List Char) (exponent : Int) : List Char :=
  let fraction := digits.drop 1
  digits.take 1 ++ (if fraction.isEmpty then [] else '.' :: fraction) ++ ['e']
    ++ (if exponent < 0 then ['-'] else if plusSign then ['+'] else [])
    ++ Nat.toDigits 10 exponent.natAbs

/-- The shortest digits of `significand * 2 ^ exponent` in a layout. -/
def Layout.magnitude (layout : Layout) (significand : Nat) (exponent : Int) : List Char :=
  let d := if significand = 0 then ⟨0, 0⟩ else shortest layout.tie significand exponent
  let digits := Nat.toDigits 10 d.coefficient
  let point := d.exponent + digits.length
  if significand = 0 || layout.positional (point - 1) then
    BoundQuery.Decimal.positional layout.wholePoint digits point
  else scientific layout.plusSign digits (point - 1)

/-- Puts a minus sign in front of a negative number. -/
def signed (negative : Bool) (digits : List Char) : List Char :=
  if negative then '-' :: digits else digits

/-- Writes a double in a layout. -/
def Layout.write (layout : Layout) (x : Float) : List Char :=
  match Double.ofFloat x with
  | .nan => "NaN".toList
  | .infinite negative => signed negative "inf".toList
  | .finite negative significand exponent =>
    signed negative (layout.magnitude significand exponent)

/-- The quotient of two natural numbers, rounded to the nearest; a half goes to the even one. -/
def roundDiv (n d : Nat) : Nat :=
  let below := n / d
  let remainder := n % d
  if 2 * remainder < d then below
  else if d < 2 * remainder then below + 1
  else if below % 2 = 0 then below else below + 1

/-- Writes the exact value of a double with `places` decimal places, at least one. -/
def fixed (places : Nat) (x : Float) : List Char :=
  match Double.ofFloat x with
  | .nan => "NaN".toList
  | .infinite negative => signed negative "inf".toList
  | .finite negative significand exponent =>
    let scaled :=
      roundDiv ((significand <<< exponent.toNat) * Nat.pow 10 places) (1 <<< (-exponent).toNat)
    let digits := Nat.toDigits 10 scaled
    let padded := List.replicate (places + 1 - digits.length) '0' ++ digits
    let whole := padded.length - places
    signed negative (padded.take whole ++ ['.'] ++ padded.drop whole)

end BoundQuery.Decimal
