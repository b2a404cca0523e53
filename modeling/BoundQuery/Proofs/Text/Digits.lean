/-
# What digits denote

The value of a digit is its place in the row of the sixteen digits, in either case. Digits are read as
the number that they denote in their base, and as nothing where a character is no digit of the base.

Main statements: `natural?_eq_some_iff`, `ofDigits_eq_denoted`.
-/

import BoundQuery.Decimal.Reading
import BoundQuery.Text.Radix
import Mathlib.Data.Nat.Digits.Defs

namespace BoundQuery.Text

/-- What holds of the characters with small numbers, one by one, holds of them all. -/
theorem of_toNat_lt {P : Char → Prop} {bound : Nat} (h : ∀ k < bound, P (Char.ofNat k)) {c : Char}
    (hc : c.toNat < bound) : P c := by
  rw [← Char.ofNat_toNat c]
  exact h _ hc

/-- The sixteen digits. -/
def digitRow : List Char :=
  ['0', '1', '2', '3', '4', '5', '6', '7', '8', '9', 'a', 'b', 'c', 'd', 'e', 'f']

/-- The value of a digit of either case: its place in the row of the sixteen digits. Any other
character comes after them. -/
def digitValue (c : Char) : Nat :=
  digitRow.idxOf c.toLower

/-- The number that digits in a base denote, the first digit being the highest. -/
def denoted (base : Nat) (digits : List Char) : Nat :=
  Nat.ofDigits base (digits.reverse.map digitValue)

@[simp] theorem denoted_nil (base : Nat) : denoted base [] = 0 := rfl

theorem denoted_cons (base : Nat) (c : Char) (digits : List Char) :
    denoted base (c :: digits) = digitValue c * base ^ digits.length + denoted base digits := by
  simp [denoted, Nat.ofDigits_append, Nat.add_comm, Nat.mul_comm]

theorem digitValue_foreign {c : Char} (h : 128 ≤ c.toNat) : digitValue c = 16 := by
  have hlower : c.toLower = c := by
    refine dif_neg fun hletter => ?_
    have hlast : c.toNat ≤ 'Z'.toNat := hletter.2
    exact absurd (h.trans hlast) (by decide)
  rw [digitValue, hlower]
  refine List.idxOf_eq_length fun hmem => ?_
  have hall : digitRow.all (·.toNat < 128) = true := by decide
  exact absurd h (Nat.not_le.mpr (of_decide_eq_true (List.all_eq_true.mp hall c hmem)))

theorem hexDigit?_foreign {c : Char} (h : 128 ≤ c.toNat) : hexDigit? c = none := by
  have hbeyond : ∀ d : Char, d.toNat < 128 → ¬ c ≤ d := fun d hd hle =>
    absurd (h.trans hle) (Nat.not_le.mpr hd)
  simp [hexDigit?, hbeyond]

/-- The digits are the characters of the row. -/
theorem hexDigit?_eq (c : Char) :
    hexDigit? c = if digitValue c < 16 then some (digitValue c) else none := by
  rcases Nat.lt_or_ge c.toNat 128 with hascii | hforeign
  · exact of_toNat_lt
      (P := fun c => hexDigit? c = if digitValue c < 16 then some (digitValue c) else none)
      (by decide +kernel) hascii
  · rw [hexDigit?_foreign hforeign, digitValue_foreign hforeign]
    rfl

theorem isHexDigit_iff {c : Char} : isHexDigit c = true ↔ digitValue c < 16 := by
  rw [isHexDigit, hexDigit?_eq]
  split <;> simp_all

theorem digit?_eq_some_iff {base d : Nat} {c : Char} (hbase : base ≤ 16) :
    digit? base c = some d ↔ digitValue c < base ∧ d = digitValue c := by
  rw [digit?, hexDigit?_eq]
  split
  · simp [Option.filter_some, and_comm, eq_comm]
  · rename_i hbeyond
    exact iff_of_false nofun fun h => hbeyond (h.1.trans_le hbase)

theorem appendDigits?_eq_some_iff {base n m : Nat} {digits : List Char} (hbase : base ≤ 16) :
    appendDigits? base n digits = some m ↔
      (∀ c ∈ digits, digitValue c < base) ∧ m = n * base ^ digits.length + denoted base digits := by
  induction digits generalizing n with
  | nil => simp [appendDigits?, eq_comm]
  | cons c digits ih =>
    have hvalue : (base * n + digitValue c) * base ^ digits.length + denoted base digits =
        n * base ^ (c :: digits).length + denoted base (c :: digits) := by
      rw [denoted_cons, List.length_cons, Nat.pow_succ]
      ring
    rw [appendDigits?, Option.bind_eq_some_iff, List.forall_mem_cons]
    simp only [digit?_eq_some_iff hbase, ih]
    constructor
    · rintro ⟨d, ⟨hd, rfl⟩, hdigits, rfl⟩
      exact ⟨⟨hd, hdigits⟩, hvalue⟩
    · rintro ⟨⟨hd, hdigits⟩, rfl⟩
      exact ⟨_, ⟨hd, rfl⟩, hdigits, hvalue.symm⟩

/-- Digits in a base are read as the number that they denote. -/
theorem natural?_eq_some_iff {base n : Nat} {digits : List Char} (hbase : base ≤ 16) :
    natural? base digits = some n ↔
      digits ≠ [] ∧ (∀ c ∈ digits, digitValue c < base) ∧ n = denoted base digits := by
  unfold natural?
  cases digits with
  | nil => simp
  | cons c digits =>
    rw [if_neg (by simp), appendDigits?_eq_some_iff hbase]
    simp

theorem isDigit_iff {c : Char} : c.isDigit = true ↔ digitValue c < 10 := by
  rcases Nat.lt_or_ge c.toNat 128 with hascii | hforeign
  · exact of_toNat_lt (P := fun c => c.isDigit = true ↔ digitValue c < 10) (by decide +kernel) hascii
  · rw [digitValue_foreign hforeign, Char.isDigit_iff_toNat]
    have hlast : '9'.toNat < 128 := by decide
    omega

theorem digitValue_of_isDigit {c : Char} (h : c.isDigit = true) :
    digitValue c = c.toNat - '0'.toNat := by
  have hlast : c.toNat < 128 := (Char.isDigit_iff_toNat.mp h).2.trans_lt (by decide)
  exact of_toNat_lt (P := fun c => c.isDigit = true → digitValue c = c.toNat - '0'.toNat)
    (by decide +kernel) hlast h

/-- Decimal digits denote the same number by their codes. -/
theorem ofDigits_eq_denoted {digits : List Char} (h : ∀ c ∈ digits, digitValue c < 10) :
    Decimal.ofDigits digits = denoted 10 digits := by
  have hfrom : ∀ n, Nat.ofDigitChars 10 digits n = n * 10 ^ digits.length + denoted 10 digits := by
    induction digits with
    | nil => simp
    | cons c digits ih =>
      rw [List.forall_mem_cons] at h
      intro n
      rw [Nat.ofDigitChars_cons, ih h.2, ← digitValue_of_isDigit (isDigit_iff.mpr h.1), denoted_cons,
        List.length_cons, Nat.pow_succ]
      ring
  rw [Decimal.ofDigits, hfrom, Nat.zero_mul, Nat.zero_add]

end BoundQuery.Text
