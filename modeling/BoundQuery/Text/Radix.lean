/-
# Digits in a base

A natural number from its digits in a base up to sixteen. Main statement: `digit?_lt`, a digit is
smaller than the base.
-/

namespace BoundQuery.Text

/-- The value of a hexadecimal digit of either case. -/
def hexDigit? (c : Char) : Option Nat :=
  if '0' ≤ c ∧ c ≤ '9' then some (c.toNat - '0'.toNat)
  else if 'a' ≤ c ∧ c ≤ 'f' then some (c.toNat - 'a'.toNat + 10)
  else if 'A' ≤ c ∧ c ≤ 'F' then some (c.toNat - 'A'.toNat + 10)
  else none

/-- Whether `c` is a hexadecimal digit. -/
def isHexDigit (c : Char) : Bool :=
  (hexDigit? c).isSome

/-- The value of a digit in a base. -/
def digit? (base : Nat) (c : Char) : Option Nat :=
  (hexDigit? c).filter (· < base)

/-- The number that digits in a base denote, after the number `n`. -/
def appendDigits? (base n : Nat) : List Char → Option Nat
  | [] => some n
  | c :: cs => (digit? base c).bind fun d => appendDigits? base (base * n + d) cs

/-- The number that one digit or more in a base denote. -/
def natural? (base : Nat) (digits : List Char) : Option Nat :=
  if digits.isEmpty then none else appendDigits? base 0 digits

/-! ### Laws -/

theorem digit?_lt {base d : Nat} {c : Char} (h : digit? base c = some d) : d < base := by
  obtain ⟨_, hd⟩ := Option.filter_eq_some_iff.mp h
  simpa using hd

end BoundQuery.Text
