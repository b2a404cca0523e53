/-
# What a double stands for

A finite double is a whole number of units, where the unit is a power of two. Infinities and the
not-a-number stand apart.
-/

namespace BoundQuery.Decimal

/-- The meaning of the bits of a double. A finite one stands for `significand * 2 ^ exponent`. -/
inductive Double
  | nan
  | infinite (negative : Bool)
  | finite (negative : Bool) (significand : Nat) (exponent : Int)
deriving DecidableEq, Repr

/-- Reads the sign bit, the eleven bits of the exponent and the fraction. -/
def Double.ofBits (bits : Nat) : Double :=
  let negative := bits.testBit 63
  let biased : Nat := (bits >>> 52) % 2048
  let fraction : Nat := bits % (1 <<< 52)
  if biased = 2047 then if fraction = 0 then .infinite negative else .nan
  else if biased = 0 then .finite negative fraction (-1074)
  else .finite negative (fraction + 1 <<< 52) (biased - 1075)

/-- The meaning of a double. -/
def Double.ofFloat (x : Float) : Double :=
  .ofBits x.toBits.toNat

/-- Positive infinity. -/
def infinity : Float :=
  Float.ofBits 0x7FF0000000000000

/-- The not-a-number. -/
def nan : Float :=
  Float.ofBits 0x7FF8000000000000

/-- Whether a double is neither infinite nor the not-a-number. -/
def isFinite (x : Float) : Bool :=
  match Double.ofFloat x with
  | .finite .. => true
  | _ => false

end BoundQuery.Decimal
