/-
# Comparisons

Whole numbers, signed and unsigned ones in any mixture, are compared as the numbers that they are, and
strings as the bytes of their UTF-8 forms. So the functions that compare agree with each other on either:
they are those of one total order.

Main statement: `comparisons_consistent`.
-/

import BoundQuery.Function.Builtin
import BoundQuery.Proofs.Text.Order
import Mathlib.Data.Int.Order.Basic
import Mathlib.Data.String.Basic
import Mathlib.Order.Compare

namespace BoundQuery

namespace Value

/-! ### What values denote -/

/-- The bytes of a string, as numbers. -/
def octets? : Value → Option (List Nat)
  | string s => some (Text.octets s.toList)
  | _ => none

/-- Values are compared, and found equal, by what they denote. -/
structure Measures {α : Type} [LinearOrder α] (denote : Value → Option α) : Prop where
  compare {a b : Value} {x y : α} : denote a = some x → denote b = some y →
    a.compare b = .ok (cmp x y)
  equals {a b : Value} {x y : α} : denote a = some x → denote b = some y →
    a.equals b = .ok (decide (x = y))

/-! ### Whole numbers -/

/-- Words are compared as the numbers that they stand for, if these are in their order. -/
theorem compareOfLessAndEq_eq_cmp {β : Type} [LT β] [DecidableLT β] [DecidableEq β] {f : β → Int}
    (hlt : ∀ {x y : β}, x < y ↔ f x < f y) (heq : ∀ {x y : β}, x = y ↔ f x = f y) (x y : β) :
    compareOfLessAndEq x y = cmp (f x) (f y) := by
  rw [cmp_eq_compare, Int.compare_eq_ite_lt]
  simp only [compareOfLessAndEq, hlt, heq]
  split_ifs
  all_goals first | rfl | omega

theorem compareUnsigned_eq_cmp (u v : UInt64) :
    Ord.compare u v = cmp (u.toNat : Int) (v.toNat : Int) :=
  compareOfLessAndEq_eq_cmp (f := fun w : UInt64 => (w.toNat : Int))
    (UInt64.lt_iff_toNat_lt.trans Int.ofNat_lt.symm)
    (UInt64.toNat_inj.symm.trans Int.ofNat_inj.symm) u v

theorem compareMixed_eq_cmp (i : Int64) (u : UInt64) :
    compareMixed i u = cmp i.toInt (u.toNat : Int) := by
  rw [compareMixed]
  have hneg : i < 0 ↔ i.toInt < 0 := Int64.lt_iff_toInt_lt
  by_cases hi : i.toInt < 0
  · rw [if_pos (hneg.mpr hi), eq_comm, cmp_eq_lt_iff]
    omega
  · -- a word that is not negative stands for the same number without its sign
    have hle : 0 ≤ i := Int64.le_iff_toInt_le.mpr (Int.not_lt.mp hi)
    have hword : (i.toUInt64.toNat : Int) = i.toInt := by
      rw [Int64.toNat_toUInt64_of_le hle]
      exact Int.toNat_of_nonneg (Int.not_lt.mp hi)
    rw [if_neg (mt hneg.mp hi), ← hword]
    exact compareUnsigned_eq_cmp _ _

theorem compare_integers {a b : Value} {i j : Int} (ha : a.integer? = some i)
    (hb : b.integer? = some j) : a.compare b = .ok (cmp i j) := by
  cases a with
  | int m =>
    obtain rfl : m.toInt = i := Option.some.inj ha
    cases b with
    | int n =>
      obtain rfl : n.toInt = j := Option.some.inj hb
      exact congrArg Except.ok (compareOfLessAndEq_eq_cmp Int64.lt_iff_toInt_lt Int64.toInt_inj.symm m n)
    | uint v =>
      obtain rfl : (v.toNat : Int) = j := Option.some.inj hb
      exact congrArg Except.ok (compareMixed_eq_cmp m v)
    | _ => cases hb
  | uint u =>
    obtain rfl : (u.toNat : Int) = i := Option.some.inj ha
    cases b with
    | int n =>
      obtain rfl : n.toInt = j := Option.some.inj hb
      rw [compare, compareMixed_eq_cmp, cmp_swap]
    | uint v =>
      obtain rfl : (v.toNat : Int) = j := Option.some.inj hb
      exact congrArg Except.ok (compareUnsigned_eq_cmp u v)
    | _ => cases hb
  | _ => cases ha

theorem isNumber_of_integer? {v : Value} {i : Int} (h : v.integer? = some i) :
    v.isNumber = true ∧ v.isCompound = false := by
  cases v with
  | int => exact ⟨rfl, rfl⟩
  | uint => exact ⟨rfl, rfl⟩
  | _ => cases h

theorem equals_integers {a b : Value} {i j : Int} (ha : a.integer? = some i)
    (hb : b.integer? = some j) : a.equals b = .ok (decide (i = j)) := by
  obtain ⟨hanumber, hacompound⟩ := isNumber_of_integer? ha
  obtain ⟨hbnumber, hbcompound⟩ := isNumber_of_integer? hb
  rw [equals, hacompound, hbcompound, hanumber, hbnumber, compare_integers ha hb]
  rw [Bool.or_self, if_neg Bool.false_ne_true, Bool.and_self, if_pos rfl]
  cases hcmp : cmp i j with
  | lt => rw [decide_eq_false ((cmp_eq_lt_iff i j).mp hcmp).ne]
  | eq => rw [decide_eq_true ((cmp_eq_eq_iff i j).mp hcmp)]
  | gt => rw [decide_eq_false ((cmp_eq_gt_iff i j).mp hcmp).ne']

theorem measures_integer? : Measures integer? :=
  ⟨compare_integers, equals_integers⟩

/-! ### Strings -/

/-- Strings are ordered as their bytes are. -/
theorem octets_toList_strictMono : StrictMono fun s : String => Text.octets s.toList := by
  intro s t h
  exact Text.octets_lt (String.lt_iff_toList_lt.mp h)

theorem exists_of_octets? {v : Value} {x : List Nat} (h : v.octets? = some x) :
    ∃ s : String, v = string s ∧ Text.octets s.toList = x := by
  cases v with
  | string s => exact ⟨s, rfl, Option.some.inj h⟩
  | _ => cases h

theorem measures_octets? : Measures octets? where
  compare := by
    intro a b x y ha hb
    obtain ⟨s, rfl, rfl⟩ := exists_of_octets? ha
    obtain ⟨t, rfl, rfl⟩ := exists_of_octets? hb
    exact congrArg Except.ok
      ((cmp_eq_compare s t).symm.trans (octets_toList_strictMono.cmp_map_eq s t).symm)
  equals := by
    intro a b x y ha hb
    obtain ⟨s, rfl, rfl⟩ := exists_of_octets? ha
    obtain ⟨t, rfl, rfl⟩ := exists_of_octets? hb
    have hinj : Text.octets s.toList = Text.octets t.toList ↔ s = t :=
      octets_toList_strictMono.injective.eq_iff
    simp only [hinj]
    exact congrArg Except.ok (Bool.beq_eq_decide_eq s t)

end Value

namespace Builtin

/-- The functions that compare say of values how what these denote compares. -/
structure ComparesBy {α : Type} [LinearOrder α] (denote : Value → Option α) : Prop where
  lt {a b : Value} {x y : α} : denote a = some x → denote b = some y →
    Builtin.lt.apply [a, b] = .ok (.bool (decide (x < y)))
  le {a b : Value} {x y : α} : denote a = some x → denote b = some y →
    Builtin.le.apply [a, b] = .ok (.bool (decide (x ≤ y)))
  gt {a b : Value} {x y : α} : denote a = some x → denote b = some y →
    Builtin.gt.apply [a, b] = .ok (.bool (decide (x > y)))
  ge {a b : Value} {x y : α} : denote a = some x → denote b = some y →
    Builtin.ge.apply [a, b] = .ok (.bool (decide (x ≥ y)))
  eq {a b : Value} {x y : α} : denote a = some x → denote b = some y →
    Builtin.eq.apply [a, b] = .ok (.bool (decide (x = y)))
  ne {a b : Value} {x y : α} : denote a = some x → denote b = some y →
    Builtin.ne.apply [a, b] = .ok (.bool (decide (x ≠ y)))
  /-- Of several values one has to be equal. -/
  eqAny {a : Value} {bs : List Value} {x : α} : denote a = some x →
    (∀ b ∈ bs, ∃ y, denote b = some y) → bs ≠ [] →
    Builtin.eq.apply (a :: bs) = .ok (.bool (decide (∃ b ∈ bs, denote b = some x)))

/-- The call answers yes. -/
def Holds (b : Builtin) (args : List Value) : Prop :=
  b.apply args = .ok (.bool true)

/-- The functions that compare are, on the given values, those of one total order. -/
structure OrdersTotally (S : Value → Prop) : Prop where
  trichotomy {a b : Value} : S a → S b →
    (Holds .lt [a, b] ∧ ¬ Holds .eq [a, b] ∧ ¬ Holds .gt [a, b]) ∨
    (¬ Holds .lt [a, b] ∧ Holds .eq [a, b] ∧ ¬ Holds .gt [a, b]) ∨
    (¬ Holds .lt [a, b] ∧ ¬ Holds .eq [a, b] ∧ Holds .gt [a, b])
  le_iff {a b : Value} : S a → S b → (Holds .le [a, b] ↔ Holds .lt [a, b] ∨ Holds .eq [a, b])
  ge_eq {a b : Value} : S a → S b → Builtin.ge.apply [a, b] = Builtin.le.apply [b, a]
  ne_eq {a b : Value} : S a → S b → ∃ equal : Bool,
    Builtin.eq.apply [a, b] = .ok (.bool equal) ∧ Builtin.ne.apply [a, b] = .ok (.bool !equal)
  lt_trans {a b c : Value} : S a → S b → S c →
    Holds .lt [a, b] → Holds .lt [b, c] → Holds .lt [a, c]
  le_trans {a b c : Value} : S a → S b → S c →
    Holds .le [a, b] → Holds .le [b, c] → Holds .le [a, c]
  eq_any {a : Value} {bs : List Value} : S a → (∀ b ∈ bs, S b) → bs ≠ [] →
    (Holds .eq (a :: bs) ↔ ∃ b ∈ bs, Holds .eq [a, b])

variable {α : Type} [LinearOrder α] {denote : Value → Option α}

/-! ### From the order of two values to the functions -/

/-- A function that accepts some orders decides what these orders amount to. -/
theorem ordered_apply {accepts : Ordering → Bool} {a b : Value} {o : Ordering} {p : Prop} [Decidable p]
    (hcompare : a.compare b = .ok o) (haccepts : accepts o = true ↔ p) :
    Function.ordered accepts [a, b] = .ok (.bool (decide p)) := by
  have hbool : accepts o = decide p := Bool.eq_iff_iff.mpr (haccepts.trans decide_eq_true_iff.symm)
  rw [Function.ordered, hcompare, ← hbool]
  rfl

theorem equalsAny_eq (measures : Value.Measures denote) {a : Value} {bs : List Value} {x : α}
    (ha : denote a = some x) (hbs : ∀ b ∈ bs, ∃ y, denote b = some y) :
    a.equalsAny bs = .ok (decide (∃ b ∈ bs, denote b = some x)) := by
  induction bs with
  | nil => rfl
  | cons b bs ih =>
    obtain ⟨y, hy⟩ := hbs b List.mem_cons_self
    have hrest := ih fun c hc => hbs c (List.mem_cons_of_mem b hc)
    rw [Value.equalsAny, measures.equals ha hy, hrest]
    by_cases hxy : x = y
    · subst hxy
      rw [decide_eq_true rfl]
      exact congrArg Except.ok (decide_eq_true ⟨b, List.mem_cons_self, hy⟩).symm
    · have htail : (∃ c ∈ b :: bs, denote c = some x) ↔ ∃ c ∈ bs, denote c = some x := by
        simp [hy, Ne.symm hxy]
      rw [decide_eq_false hxy]
      simp only [htail]
      rfl

theorem eq_apply (measures : Value.Measures denote) {a : Value} {bs : List Value} {x : α}
    (ha : denote a = some x) (hbs : ∀ b ∈ bs, ∃ y, denote b = some y) (hne : bs ≠ []) :
    Builtin.eq.apply (a :: bs) = .ok (.bool (decide (∃ b ∈ bs, denote b = some x))) := by
  obtain ⟨b, rest, rfl⟩ := List.exists_cons_of_ne_nil hne
  change (do return Value.bool (← a.equalsAny (b :: rest))) = _
  rw [equalsAny_eq measures ha hbs]
  rfl

theorem comparesBy (measures : Value.Measures denote) : ComparesBy denote where
  lt := by
    intro a b x y ha hb
    exact ordered_apply (measures.compare ha hb) (by rw [beq_iff_eq, cmp_eq_lt_iff])
  le := by
    intro a b x y ha hb
    exact ordered_apply (measures.compare ha hb) (by rw [bne_iff_ne, ne_eq, cmp_eq_gt_iff, not_lt])
  gt := by
    intro a b x y ha hb
    exact ordered_apply (measures.compare ha hb) (by rw [beq_iff_eq, cmp_eq_gt_iff])
  ge := by
    intro a b x y ha hb
    exact ordered_apply (measures.compare ha hb) (by rw [bne_iff_ne, ne_eq, cmp_eq_lt_iff, not_lt])
  eq := by
    intro a b x y ha hb
    have hone : (∃ c ∈ [b], denote c = some x) ↔ x = y := by
      simp [hb, eq_comm]
    rw [eq_apply measures ha (by simp [hb]) (List.cons_ne_nil b [])]
    simp only [hone]
  ne := by
    intro a b x y ha hb
    change (do return Value.bool !(← a.equals b)) = _
    rw [measures.equals ha hb, decide_not]
    rfl
  eqAny := eq_apply measures

/-! ### From the functions to one order -/

theorem holds_iff {b : Builtin} {args : List Value} {p : Prop} [Decidable p]
    (h : b.apply args = .ok (.bool (decide p))) : Holds b args ↔ p := by
  rw [Holds, h]
  simp

/-- What compares by an order is itself one: the laws are those of the order. -/
theorem ComparesBy.ordersTotally (compares : ComparesBy denote) :
    OrdersTotally fun v => ∃ x, denote v = some x where
  trichotomy := by
    rintro a b ⟨x, hx⟩ ⟨y, hy⟩
    rw [holds_iff (compares.lt hx hy), holds_iff (compares.eq hx hy), holds_iff (compares.gt hx hy)]
    rcases lt_trichotomy x y with hlt | heq | hgt
    · exact .inl ⟨hlt, hlt.ne, hlt.not_gt⟩
    · exact .inr (.inl ⟨heq.not_lt, heq, heq.not_gt⟩)
    · exact .inr (.inr ⟨hgt.not_gt, hgt.ne', hgt⟩)
  le_iff := by
    rintro a b ⟨x, hx⟩ ⟨y, hy⟩
    rw [holds_iff (compares.le hx hy), holds_iff (compares.lt hx hy), holds_iff (compares.eq hx hy)]
    exact le_iff_lt_or_eq
  ge_eq := by
    rintro a b ⟨x, hx⟩ ⟨y, hy⟩
    exact (compares.ge hx hy).trans (compares.le hy hx).symm
  ne_eq := by
    rintro a b ⟨x, hx⟩ ⟨y, hy⟩
    exact ⟨decide (x = y), compares.eq hx hy, (compares.ne hx hy).trans (by rw [decide_not])⟩
  lt_trans := by
    rintro a b c ⟨x, hx⟩ ⟨y, hy⟩ ⟨z, hz⟩
    rw [holds_iff (compares.lt hx hy), holds_iff (compares.lt hy hz), holds_iff (compares.lt hx hz)]
    exact lt_trans
  le_trans := by
    rintro a b c ⟨x, hx⟩ ⟨y, hy⟩ ⟨z, hz⟩
    rw [holds_iff (compares.le hx hy), holds_iff (compares.le hy hz), holds_iff (compares.le hx hz)]
    exact le_trans
  eq_any := by
    rintro a bs ⟨x, hx⟩ hbs hne
    rw [holds_iff (compares.eqAny hx hbs hne)]
    refine exists_congr fun b => and_congr_right fun hb => ?_
    obtain ⟨y, hy⟩ := hbs b hb
    rw [holds_iff (compares.eq hx hy), hy, Option.some_inj, eq_comm]

/-- Whole numbers compare as numbers and strings as their bytes, and on either the functions are those
of one total order. -/
theorem comparisons_consistent :
    (ComparesBy Value.integer? ∧ OrdersTotally fun v => ∃ i, v.integer? = some i) ∧
      ComparesBy Value.octets? ∧ OrdersTotally fun v => ∃ bytes, v.octets? = some bytes := by
  have hintegers : ComparesBy Value.integer? := comparesBy Value.measures_integer?
  have hoctets : ComparesBy Value.octets? := comparesBy Value.measures_octets?
  exact ⟨⟨hintegers, hintegers.ordersTotally⟩, hoctets, hoctets.ordersTotally⟩

/-- A negative number is less than the greatest unsigned one, a small unsigned number equals the signed
one, and a longer UTF-8 form is greater than a shorter one. -/
theorem comparisons_consistent_mixed :
    Builtin.lt.apply [.int (-1), .uint 0xffffffffffffffff] = .ok (.bool true) ∧
      Builtin.ge.apply [.int (-1), .uint 0xffffffffffffffff] = .ok (.bool false) ∧
      Builtin.eq.apply [.uint 3, .int (-3), .int 3] = .ok (.bool true) ∧
      Builtin.gt.apply [.string "é", .string "zz"] = .ok (.bool true) := by
  obtain ⟨⟨hintegers, -⟩, hstrings, -⟩ := comparisons_consistent
  exact ⟨hintegers.lt (x := -1) (y := 0xffffffffffffffff) rfl rfl,
    hintegers.ge (x := -1) (y := 0xffffffffffffffff) rfl rfl,
    hintegers.eqAny (x := 3) rfl (by simp [Value.integer?]) (by simp),
    hstrings.gt (x := [0xc3, 0xa9]) (y := [0x7a, 0x7a]) rfl rfl⟩

end Builtin

end BoundQuery
