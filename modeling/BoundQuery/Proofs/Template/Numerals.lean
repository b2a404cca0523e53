/-
# Whole numbers

A whole number is spelled with a sign or none, in decimal or after the mark of another base, with
underscores between its digits. It is read as the number that it denotes if that is a signed word,
and the least word only in decimal.

Main statements: `number_whole`, `least_word_unread`.
-/

import Mathlib.Data.Bool.AllAny
import BoundQuery.Proofs.Template.Scanning
import BoundQuery.Proofs.Text.Digits
import BoundQuery.Template.Clause

namespace BoundQuery.Template

open Text (digitValue denoted)

/-! ### Spellings -/

/-- The bases of whole numbers. -/
inductive Base
  | decimal
  | hexadecimal
  | octal
  | binary
deriving DecidableEq, Repr

namespace Base

/-- The number of digits of a base. -/
def radix : Base → Nat
  | decimal => 10
  | hexadecimal => 16
  | octal => 8
  | binary => 2

/-- What marks a base before the digits. -/
def marks : Base → List (List Char)
  | decimal => [[]]
  | hexadecimal => [['0', 'x'], ['0', 'X']]
  | octal => [['0', 'o'], ['0', 'O']]
  | binary => [['0', 'b'], ['0', 'B']]

/-- Digits in a base, as they are scanned. -/
def numeral (b : Base) (digits : List Char) : Numeral :=
  if b = .decimal then .decimal digits none none else .based b.radix digits

theorem radix_le (b : Base) : b.radix ≤ 16 := by
  cases b <;> decide

theorem mark_eq {b : Base} (hb : b ≠ .decimal) {mark : List Char} (h : mark ∈ b.marks) :
    ∃ letter, mark = ['0', letter] ∧ baseOf? letter = some b.radix := by
  cases b with
  | decimal => exact absurd rfl hb
  | hexadecimal | octal | binary =>
    simp only [marks, List.mem_cons, List.not_mem_nil, or_false] at h
    rcases h with rfl | rfl <;> exact ⟨_, rfl, rfl⟩

end Base

/-- A whole number as it is spelled: a sign or none, the mark of the base, and digits with underscores
between them, of which decimal ones do not start with an underscore. -/
structure WholeNumber where
  base : Base
  sign : List Char
  mark : List Char
  digits : List Char
  sign_mem : sign ∈ [[], ['+'], ['-']]
  mark_mem : mark ∈ base.marks
  digit_of_mem : ∀ c ∈ digits, c = '_' ∨ digitValue c < base.radix
  exists_digit : ∃ c ∈ digits, c ≠ '_'
  starts_with_digit : base = .decimal → digits.head? ≠ some '_'

namespace WholeNumber

/-- The spelling. -/
def source (w : WholeNumber) : List Char :=
  w.sign ++ (w.mark ++ w.digits)

/-- The number without its sign. -/
def magnitude (w : WholeNumber) : Nat :=
  denoted w.base.radix (plainDigits w.digits)

/-- The number that the spelling denotes. -/
def value (w : WholeNumber) : Int :=
  if w.sign = ['-'] then -(w.magnitude : Int) else w.magnitude

/-- The number is a signed word, and not the least one unless it is spelled in decimal. -/
def Fits (w : WholeNumber) : Prop :=
  -2 ^ 63 ≤ w.value ∧ w.value ≤ 2 ^ 63 - 1 ∧ (w.base ≠ .decimal → w.value ≠ -2 ^ 63)

instance (w : WholeNumber) : Decidable w.Fits :=
  inferInstanceAs (Decidable (_ ∧ _ ∧ (_ → _)))

end WholeNumber

namespace Scan

variable {rest : List Char}

/-! ### Digits and what ends them -/

theorem isIdentifierChar_of_digit {c : Char} (h : c = '_' ∨ digitValue c < 16) :
    isIdentifierChar c = true := by
  rcases h with rfl | h
  · rfl
  · have hascii : c.toNat < 128 := by
      by_contra hforeign
      rw [Text.digitValue_foreign (Nat.le_of_not_lt hforeign)] at h
      exact absurd h (by decide)
    exact Text.of_toNat_lt (P := fun c => digitValue c < 16 → isIdentifierChar c = true)
      (by decide +kernel) hascii h

theorem isIdentifierChar_of_isDigit {c : Char} (h : c.isDigit = true) : isIdentifierChar c = true :=
  isIdentifierChar_of_digit (.inr ((Text.isDigit_iff.mp h).trans (by decide)))

theorem ne_of_isDigit {c d : Char} (hc : c.isDigit = true) (hd : d.isDigit = false) : c ≠ d := by
  rintro rfl
  rw [hc] at hd
  cases hd

/-- A number may end before a character that is no point, and is not one of an identifier. -/
theorem endsNumber_iff : endsNumber rest = true ↔
    rest.head? ≠ some '.' ∧ rest.head?.any isIdentifierChar = false := by
  cases rest with
  | nil => simp [endsNumber]
  | cons c rest => simp [endsNumber, and_comm]

/-- Where no character of an identifier stands, none of a class of them does. -/
theorem head?_any_of_no_word {holds : Char → Bool}
    (hholds : ∀ c, holds c = true → isIdentifierChar c = true)
    (hrest : rest.head?.any isIdentifierChar = false) : rest.head?.any holds = false := by
  cases hhead : rest.head? with
  | none => rfl
  | some c =>
    rw [hhead] at hrest
    exact Bool.eq_false_iff.mpr fun hc => Bool.eq_false_iff.mp hrest (hholds c hc)

/-! ### Numerals -/

theorem baseOf?_mem {c : Char} {base : Nat} (h : baseOf? c = some base) :
    c ∈ ['x', 'X', 'o', 'O', 'b', 'B'] := by
  unfold baseOf? at h
  split at h
  · rename_i hc
    rcases hc with rfl | rfl <;> simp
  · split at h
    · rename_i hc
      rcases hc with rfl | rfl <;> simp
    · split at h
      · rename_i hc
        rcases hc with rfl | rfl <;> simp
      · cases h

/-- Digits after the mark of their base are scanned as such. -/
theorem readBased?_mark {letter : Char} {base : Nat} (hbase : baseOf? letter = some base)
    (hle : base ≤ 16) {digits : List Char} (hne : digits ≠ [])
    (hdigits : ∀ c ∈ digits, c = '_' ∨ digitValue c < base)
    (hrest : rest.head?.any isIdentifierChar = false) :
    readBased? ('0' :: letter :: (digits ++ rest)) = some (.based base digits, rest) := by
  have hhold : ∀ c ∈ digits, (Text.isHexDigit c || c == '_') = true := by
    intro c hc
    rcases hdigits c hc with rfl | hdigit
    · rfl
    · simp [Text.isHexDigit_iff.mpr (hdigit.trans_le hle)]
  have hclass : ∀ c, (Text.isHexDigit c || c == '_') = true → isIdentifierChar c = true := by
    intro c hc
    rw [Bool.or_eq_true, Text.isHexDigit_iff, beq_iff_eq] at hc
    exact isIdentifierChar_of_digit hc.symm
  obtain ⟨htake, hdrop⟩ := takeWhile_append digits hhold (head?_any_of_no_word hclass hrest)
  rw [readBased?, hbase, Option.bind_some]
  dsimp only
  rw [htake, hdrop, if_neg (by simpa using hne)]

section Decimal

variable {digits : List Char} (hfirst : digits.head?.any Char.isDigit = true)
  (hdigits : ∀ c ∈ digits, c = '_' ∨ c.isDigit = true)
include hfirst hdigits

/-- Decimal digits are no numeral with a mark of its base. -/
theorem readBased?_decimal (hrest : rest.head?.any isIdentifierChar = false) :
    readBased? (digits ++ rest) = none := by
  unfold readBased?
  split
  · rename_i letter cs heq
    have hletter : baseOf? letter = none := by
      refine Option.eq_none_iff_forall_ne_some.mpr fun base hbase => ?_
      have hmem := baseOf?_mem hbase
      match digits, hfirst with
      | [d], _ =>
        obtain ⟨-, rfl⟩ := List.cons.inj heq
        have hall : ['x', 'X', 'o', 'O', 'b', 'B'].all isIdentifierChar = true := rfl
        exact absurd (List.all_eq_true.mp hall letter hmem) (by simpa using hrest)
      | d :: e :: digits, _ =>
        obtain ⟨-, htail⟩ := List.cons.inj heq
        obtain ⟨rfl, -⟩ := List.cons.inj htail
        have hall : ['x', 'X', 'o', 'O', 'b', 'B'].all (fun c => c != '_' && !c.isDigit) = true := rfl
        have hno := List.all_eq_true.mp hall e hmem
        rcases hdigits e (by simp) with rfl | hdigit
        · cases hno
        · simp [hdigit] at hno
    rw [hletter, Option.bind_none]
  · rfl

/-- Decimal digits that no point follows are scanned as such. -/
theorem readDecimal?_decimal (hdot : rest.head? ≠ some '.')
    (hrest : rest.head?.any isIdentifierChar = false) :
    readDecimal? (digits ++ rest) = some (.decimal digits none none, rest) := by
  have hhold : ∀ c ∈ digits, (c.isDigit || c == '_') = true := by
    intro c hc
    rcases hdigits c hc with rfl | hdigit
    · rfl
    · simp [hdigit]
  have hclass : ∀ c : Char, (c.isDigit || c == '_') = true → isIdentifierChar c = true := by
    intro c hc
    rw [Bool.or_eq_true, beq_iff_eq] at hc
    rcases hc with hc | rfl
    · exact isIdentifierChar_of_isDigit hc
    · rfl
  have hexponent : readExponent rest = (none, rest) := by
    cases rest with
    | nil => rfl
    | cons c rest =>
      have hletter : ¬(c = 'e' ∨ c = 'E') := by
        rintro (rfl | rfl) <;> cases hrest
      simp [readExponent, hletter]
  obtain ⟨htake, hdrop⟩ := takeWhile_append digits hhold (head?_any_of_no_word hclass hrest)
  have hhead : ((digits ++ rest).head?.map Char.isDigit).getD false = true := by
    cases digits with
    | nil => cases hfirst
    | cons d digits => simpa using hfirst
  rw [readDecimal?, if_pos hhead]
  simp only [htake, hdrop]
  split
  · exact absurd rfl hdot
  · simp only [hexponent]

end Decimal

/-- A numeral is read after its sign. -/
theorem number_of_numeral {sign unsigned : List Char} {numeral : Numeral}
    (hsign : sign ∈ [[], ['+'], ['-']])
    (hnumeral : (readBased? unsigned).or (readDecimal? unsigned) = some (numeral, rest))
    (hend : endsNumber rest = true) :
    number (sign ++ unsigned) =
      match numeral.value? (sign == ['-']) with
      | some n => .found n rest
      | none => .failed ⟨.badNumber, sign ++ unsigned⟩ := by
  simp only [List.mem_cons, List.not_mem_nil, or_false] at hsign
  rcases hsign with rfl | rfl | rfl
  · have hdigit : unsigned.head?.any Char.isDigit = true := by
      rcases Option.or_eq_some_iff.mp hnumeral with hbased | ⟨-, hdecimal⟩
      · exact (spans_readBased? hbased).1
      · exact (spans_readDecimal? hdecimal).1
    rw [List.nil_append]
    unfold number
    split
    rename_i negative _ hunsigned
    -- What is not signed starts with a digit, so no sign is read.
    split at hunsigned
    · cases hdigit
    · cases hdigit
    · cases hunsigned
      simp only [hnumeral, hend, if_true]
      rfl
  · simp only [number, List.singleton_append, hnumeral, hend, if_true]
    rfl
  · simp only [number, List.singleton_append, hnumeral, hend, if_true]
    rfl

end Scan

/-! ### Values -/

theorem int64?_eq_some_iff {i : Int} {w : Int64} : int64? i = some w ↔ w.toInt = i := by
  unfold int64?
  constructor
  · intro h
    split at h
    · rename_i hrange
      cases h
      exact Int64.toInt_ofInt_of_le hrange.1 (Int.lt_of_le_sub_one hrange.2)
    · cases h
  · rintro rfl
    rw [if_pos ⟨w.minValue_le_toInt, w.toInt_le⟩, Int64.ofInt_toInt]

/-- A sign may be put before a word that is no negative number: it is not the least word. -/
theorem toInt_signed {w : Int64} {magnitude : Nat} (h : w.toInt = magnitude) (negative : Bool) :
    (if negative then -w else w).toInt = if negative then -(magnitude : Int) else magnitude := by
  cases negative with
  | false => exact h
  | true =>
    have hle : w.toInt ≤ 2 ^ 63 - 1 := w.toInt_le
    simp only [if_true]
    rw [Int64.toInt_neg, h]
    exact Int.bmod_eq_of_le (by omega) (by omega)

theorem exists_int64_iff {i : Int} :
    (∃ w : Int64, w.toInt = i) ↔ -2 ^ 63 ≤ i ∧ i ≤ 2 ^ 63 - 1 := by
  constructor
  · rintro ⟨w, rfl⟩
    exact ⟨w.minValue_le_toInt, w.toInt_le⟩
  · rintro ⟨hleast, hgreatest⟩
    exact ⟨Int64.ofInt i, Int64.toInt_ofInt_of_le hleast (Int.lt_of_le_sub_one hgreatest)⟩

/-- With a mark of its base a number must be a word without its sign. -/
theorem value?_based {base magnitude : Nat} {digits : List Char}
    (hdigits : Text.natural? base (plainDigits digits) = some magnitude) (negative : Bool)
    (n : Number) :
    (Numeral.based base digits).value? negative = some n ↔
      (magnitude : Int) ≤ 2 ^ 63 - 1 ∧
        ∃ i : Int64, n = .int i ∧ i.toInt = if negative then -(magnitude : Int) else magnitude := by
  simp only [Numeral.value?, hdigits, Option.bind_eq_bind, Option.bind_some,
    Option.bind_eq_some_iff, int64?_eq_some_iff]
  constructor
  · rintro ⟨w, hw, heq⟩
    cases heq
    exact ⟨hw ▸ w.toInt_le, _, rfl, toInt_signed hw negative⟩
  · rintro ⟨hle, i, rfl, hi⟩
    obtain ⟨w, hw⟩ := exists_int64_iff.mpr ⟨by omega, hle⟩
    refine ⟨w, hw, congrArg (fun i => some (Number.int i)) (Int64.toInt_inj.mp ?_)⟩
    rw [hi, toInt_signed hw]

/-- A decimal number must be a word with its sign. -/
theorem value?_decimal (negative : Bool) (digits : List Char) (n : Number) :
    (Numeral.decimal digits none none).value? negative = some n ↔
      ∃ i : Int64, n = .int i ∧ i.toInt =
        if negative then -(Decimal.ofDigits (plainDigits digits) : Int)
        else Decimal.ofDigits (plainDigits digits) := by
  simp only [Numeral.value?, Option.bind_eq_bind, Option.bind_eq_some_iff, int64?_eq_some_iff]
  constructor
  · rintro ⟨w, hw, heq⟩
    cases heq
    exact ⟨w, rfl, hw⟩
  · rintro ⟨w, rfl, hw⟩
    exact ⟨w, hw, rfl⟩

namespace WholeNumber

variable (w : WholeNumber) {rest : List Char}

theorem radix_decimal (h : w.base = .decimal) : w.base.radix = 10 := by
  rw [h]
  rfl

theorem digitValue_of_mem_plainDigits {c : Char} (h : c ∈ plainDigits w.digits) :
    digitValue c < w.base.radix := by
  obtain ⟨hmem, hne⟩ := List.mem_filter.mp h
  exact (w.digit_of_mem c hmem).resolve_left (by simpa using hne)

theorem natural?_plainDigits :
    Text.natural? w.base.radix (plainDigits w.digits) = some w.magnitude := by
  obtain ⟨c, hmem, hne⟩ := w.exists_digit
  have hplain : c ∈ plainDigits w.digits := List.mem_filter.mpr ⟨hmem, by simpa using hne⟩
  exact (Text.natural?_eq_some_iff w.base.radix_le).mpr
    ⟨List.ne_nil_of_mem hplain, fun _ hc => w.digitValue_of_mem_plainDigits hc, rfl⟩

/-- The digits are scanned with the mark of their base. -/
theorem readNumeral (hdot : rest.head? ≠ some '.')
    (hrest : rest.head?.any isIdentifierChar = false) :
    (readBased? (w.mark ++ w.digits ++ rest)).or (readDecimal? (w.mark ++ w.digits ++ rest)) =
      some (w.base.numeral w.digits, rest) := by
  by_cases hbase : w.base = .decimal
  · have hmark : w.mark = [] := by
      simpa [hbase, Base.marks] using w.mark_mem
    have hdigits : ∀ c ∈ w.digits, c = '_' ∨ c.isDigit = true := fun c hc =>
      (w.digit_of_mem c hc).imp_right fun h => Text.isDigit_iff.mpr (w.radix_decimal hbase ▸ h)
    have hfirst : w.digits.head?.any Char.isDigit = true := by
      obtain ⟨c, hc, -⟩ := w.exists_digit
      obtain ⟨d, digits, heq⟩ := List.exists_cons_of_ne_nil (List.ne_nil_of_mem hc)
      have hne : d ≠ '_' := by simpa [heq] using w.starts_with_digit hbase
      simpa [heq] using (hdigits d (by simp [heq])).resolve_left hne
    rw [hmark, List.nil_append, Scan.readBased?_decimal hfirst hdigits hrest, Option.none_or,
      Scan.readDecimal?_decimal hfirst hdigits hdot hrest, Base.numeral, if_pos hbase]
  · obtain ⟨letter, hmark, hletter⟩ := Base.mark_eq hbase w.mark_mem
    obtain ⟨c, hc, -⟩ := w.exists_digit
    rw [hmark, List.append_assoc, List.cons_append, List.singleton_append,
      Scan.readBased?_mark hletter w.base.radix_le (List.ne_nil_of_mem hc) w.digit_of_mem hrest,
      Option.some_or, Base.numeral, if_neg hbase]

/-- A number is read if it fits. -/
theorem value?_numeral (n : Number) :
    (w.base.numeral w.digits).value? (w.sign == ['-']) = some n ↔
      w.Fits ∧ ∃ i : Int64, n = .int i ∧ i.toInt = w.value := by
  have hvalue : (if w.sign == ['-'] then -(w.magnitude : Int) else w.magnitude) = w.value := by
    simp [value]
  by_cases hbase : w.base = .decimal
  · have hdigits : Decimal.ofDigits (plainDigits w.digits) = w.magnitude := by
      rw [magnitude, w.radix_decimal hbase]
      exact Text.ofDigits_eq_denoted fun c hc =>
        w.radix_decimal hbase ▸ w.digitValue_of_mem_plainDigits hc
    rw [Base.numeral, if_pos hbase, value?_decimal, hdigits, hvalue]
    refine ⟨fun h => ⟨?_, h⟩, And.right⟩
    obtain ⟨i, -, hi⟩ := h
    obtain ⟨hleast, hgreatest⟩ := exists_int64_iff.mp ⟨i, hi⟩
    exact ⟨hleast, hgreatest, absurd hbase⟩
  · rw [Base.numeral, if_neg hbase, value?_based w.natural?_plainDigits, hvalue]
    refine and_congr_left fun ⟨i, _, hi⟩ => ?_
    obtain ⟨hleast, hgreatest⟩ := exists_int64_iff.mp ⟨i, hi⟩
    -- Without its sign only the least word is beyond the greatest one.
    have hmagnitude : w.value = -(w.magnitude : Int) ∨ w.value = w.magnitude := by
      unfold value
      split
      · exact .inl rfl
      · exact .inr rfl
    unfold Fits
    constructor
    · intro hle
      exact ⟨hleast, hgreatest, fun _ => by omega⟩
    · rintro ⟨-, -, hne⟩
      have hne := hne hbase
      omega

theorem number_source (hdot : rest.head? ≠ some '.')
    (hrest : rest.head?.any isIdentifierChar = false) :
    Scan.number (w.source ++ rest) =
      match (w.base.numeral w.digits).value? (w.sign == ['-']) with
      | some n => .found n rest
      | none => .failed ⟨.badNumber, w.source ++ rest⟩ := by
  rw [source, List.append_assoc]
  exact Scan.number_of_numeral w.sign_mem (w.readNumeral hdot hrest)
    (Scan.endsNumber_iff.mpr ⟨hdot, hrest⟩)

end WholeNumber

/-- A whole number is read as the number that it denotes if and only if it fits a signed word, which
the least one does in decimal only. Otherwise it is refused for good, with the place where it starts. -/
theorem Scan.number_whole (w : WholeNumber) {rest : List Char} (hdot : rest.head? ≠ some '.')
    (hrest : rest.head?.any isIdentifierChar = false) :
    ((∃ i : Int64, i.toInt = w.value ∧ number (w.source ++ rest) = .found (.int i) rest) ↔ w.Fits) ∧
      (¬ w.Fits → ∃ fault, number (w.source ++ rest) = .failed fault ∧
        ∀ locate, (fault.toSyntaxError locate).pos = locate (w.source ++ rest) ∧
          (fault.toSyntaxError locate).fault.message = "bad number syntax") := by
  rw [w.number_source hdot hrest]
  cases hread : (w.base.numeral w.digits).value? (w.sign == ['-']) with
  | some n =>
    obtain ⟨hfits, i, rfl, hi⟩ := (w.value?_numeral n).mp hread
    exact ⟨iff_of_true ⟨i, hi, rfl⟩ hfits, fun hnot => absurd hfits hnot⟩
  | none =>
    have hnot : ¬ w.Fits := by
      intro hfits
      obtain ⟨i, hi⟩ := exists_int64_iff.mpr ⟨hfits.1, hfits.2.1⟩
      have hsome := (w.value?_numeral (.int i)).mpr ⟨hfits, i, rfl, hi⟩
      cases hread.symm.trans hsome
    exact ⟨iff_of_false nofun hnot, fun _ => ⟨_, rfl, fun _ => ⟨rfl, rfl⟩⟩⟩

/-- The negated greatest word, with underscores between its digits. -/
def WholeNumber.negatedGreatest : WholeNumber where
  base := .hexadecimal
  sign := ['-']
  mark := ['0', 'X']
  digits := "7FFF_ffff_FFFF_ffff".toList
  sign_mem := by decide
  mark_mem := by decide
  digit_of_mem := List.all_iff_forall_prop.mp (by decide +kernel)
  exists_digit := ⟨'7', by decide, by decide⟩
  starts_with_digit := nofun

theorem Scan.number_whole_negatedGreatest : ∃ i : Int64, i.toInt = -(2 ^ 63 - 1) ∧
    number "-0X7FFF_ffff_FFFF_ffff r".toList = .found (.int i) [' ', 'r'] := by
  have hread := (@number_whole .negatedGreatest [' ', 'r'] (by decide) (by decide)).1.mpr
    (by decide +kernel)
  have hvalue : WholeNumber.negatedGreatest.value = -(2 ^ 63 - 1) := by decide +kernel
  rw [hvalue] at hread
  exact hread

/-- The least word after the mark of another base than ten. -/
def WholeNumber.leastHexadecimal : WholeNumber where
  base := .hexadecimal
  sign := ['-']
  mark := ['0', 'x']
  digits := "8000000000000000".toList
  sign_mem := by decide
  mark_mem := by decide
  digit_of_mem := List.all_iff_forall_prop.mp (by decide +kernel)
  exists_digit := ⟨'8', by decide, by decide⟩
  starts_with_digit := nofun

/-- The least word is refused in base sixteen, though it is read in base ten. -/
theorem Scan.least_word_unread :
    (WholeNumber.leastHexadecimal.source = "-0x8000000000000000".toList ∧
      WholeNumber.leastHexadecimal.value = -2 ^ 63 ∧
      number "-0x8000000000000000".toList =
        .failed ⟨.badNumber, "-0x8000000000000000".toList⟩) ∧
    number "-9223372036854775808".toList = .found (.int Int64.minValue) [] :=
  ⟨⟨rfl, by decide +kernel, rfl⟩, rfl⟩

end BoundQuery.Template
