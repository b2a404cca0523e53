/-
# The shortest decimal that reads back

Of the decimals that round to a given double, those on the coarsest grid of powers of ten have the
fewest digits; of those the nearest to the double is chosen. A grid that has a point in the
interval of reals that round to the double has one among the double's two neighbours on that grid,
so only these are tried.
-/

import BoundQuery.Decimal.Double

namespace BoundQuery.Decimal

/-- The number `coefficient * 10 ^ exponent`. -/
structure Scaled where
  coefficient : Nat
  exponent : Int
deriving DecidableEq, Repr

/-- Which of two equally near neighbours is chosen. -/
inductive Tie
  | up
  | toEven
deriving DecidableEq, Repr

/-- The interval of reals that round to `significand * 2 ^ exponent`, all three numbers over one
denominator. The ends belong to it when the significand is even. -/
structure Interval where
  low : Nat
  value : Nat
  high : Nat
  denominator : Nat
  closed : Bool

/-- Half a unit to both sides; only a quarter below a power of two, where the units get smaller. -/
def Interval.around (significand : Nat) (exponent : Int) : Interval :=
  let below := if significand = 1 <<< 52 ∧ exponent > -1074 then 1 else 2
  let scale := 1 <<< (exponent - 2).toNat
  { low := (4 * significand - below) * scale
    value := 4 * significand * scale
    high := (4 * significand + 2) * scale
    denominator := 1 <<< (2 - exponent).toNat
    closed := significand % 2 == 0 }

/-- Whether the point `n / denominator` lies in the interval. -/
def Interval.holds (i : Interval) (n : Nat) : Bool :=
  if i.closed then i.low ≤ n && n ≤ i.high else i.low < n && n < i.high

/-- The interval with all numbers multiplied by `n`. -/
def Interval.times (i : Interval) (n : Nat) : Interval :=
  { i with low := i.low * n, value := i.value * n, high := i.high * n }

/-- The multiple of `10 ^ exponent` in the interval that is nearest to its value, if there is one. -/
def Interval.onGrid? (i : Interval) (tie : Tie) (exponent : Int) : Option Nat :=
  let i := i.times (Nat.pow 10 (-exponent).toNat)
  let unit := i.denominator * Nat.pow 10 exponent.toNat
  let below := i.value / unit
  let remainder := i.value % unit
  let above := below + 1
  match i.holds (below * unit), i.holds (above * unit) with
  | true, true =>
    if 2 * remainder < unit then some below
    else if unit < 2 * remainder then some above
    else match tie with
      | .up => some above
      | .toEven => some (if below % 2 = 0 then below else above)
  | true, false => some below
  | false, true => some above
  | false, false => none

/-- Tries the grids from `10 ^ exponent` on, each ten times finer than the one before. -/
def Interval.search (i : Interval) (tie : Tie) : Nat → Int → Option Scaled
  | 0, _ => none
  | tries + 1, exponent =>
    match i.onGrid? tie exponent with
    | some n => some ⟨n, exponent⟩
    | none => i.search tie tries (exponent - 1)

/-- The digits of the shortest decimal that rounds to `significand * 2 ^ exponent`. The first grid
is coarser than the number. Every grid below `10 ^ -340` has points in each interval, so the tries
suffice. -/
def shortest (tie : Tie) (significand : Nat) (exponent : Int) : Scaled :=
  let i := Interval.around significand exponent
  let whole := (Nat.toDigits 10 (i.high / i.denominator)).length
  (i.search tie (whole + 400) whole).getD ⟨0, 0⟩

end BoundQuery.Decimal
