/-
# Slices of values

A slice cuts a sequence between items, and a string between characters, although it counts bytes there.
What is before it, the slice itself and what is after it make up the whole. Positions of a slice are
positions of the whole, so many further on, for slices of slices as for items.

Main statement: `slice_cuts`.
-/

import BoundQuery.Function.Builtin
import BoundQuery.Proofs.Text.Lines
import BoundQuery.Proofs.Value.Items

namespace BoundQuery

namespace Value

/-! ### Parts -/

/-- Three sequences, or three strings, and what they make up one after the other. -/
inductive Joins : Value → Value → Value → Value → Prop
  | seq (a b c : List Value) : Joins (seq a) (seq b) (seq c) (seq (a ++ b ++ c))
  | string (s t u : String) : Joins (string s) (string t) (string u) (string (s ++ t ++ u))

/-- A slice may start or end at each position of a sequence; of a string, only between characters. -/
def IsBoundary : Value → Nat → Prop
  | string s, k => Text.Boundary s.toList k
  | _, _ => True

/-- The part from one position to another. -/
def part? (i j : Nat) : Value → Option Value
  | seq items => if i ≤ j ∧ j ≤ items.length then some (seq ((items.take j).drop i)) else none
  | string s => (Text.slice? s.toList i j).map fun cs => string (String.ofList cs)
  | _ => none

/-- The part from one position to another, or the fault that it would split a character. -/
def part (i j : Nat) (x : Value) : Except CallFault Value :=
  (x.part? i j).elim (.error .splitsCharacter) .ok

/-- The item of a sequence, or the byte of a string, at a position. -/
def itemAtPosition (k : Nat) : Value → Value
  | seq items => items.getD k null
  | string s => ofNat ((Text.encode s.toList).getD k 0).toNat
  | _ => null

section Parts

variable {x y front back : Value} {i j k l m n : Nat}

theorem take_drop_append (a b c : List Value) :
    ((a ++ b ++ c).take (a.length + b.length)).drop a.length = b := by
  rw [← List.length_append, List.take_left, List.drop_left]

/-- A part is what makes up the whole with what is before and behind it. -/
theorem part?_eq_some_iff :
    x.part? i j = some y ↔
      ∃ front back m, Joins front y back x ∧ front.positions? = some i ∧ y.positions? = some m ∧
        i + m = j := by
  constructor
  · intro h
    cases x with
    | seq items =>
      obtain ⟨⟨hij, hj⟩, hy⟩ := Option.ite_none_right_eq_some.mp h
      cases hy
      have hitems : items.take i ++ (items.take j).drop i ++ items.drop j = items := by
        have htake : items.take i = (items.take j).take i := by
          rw [List.take_take, Nat.min_eq_left hij]
        rw [htake, List.take_append_drop, List.take_append_drop]
      have hjoins := Joins.seq (items.take i) ((items.take j).drop i) (items.drop j)
      rw [hitems] at hjoins
      refine ⟨_, _, j - i, hjoins, ?_, ?_, by omega⟩
      · rw [positions?, List.length_take, Nat.min_eq_left (hij.trans hj)]
      · rw [positions?, List.length_drop, List.length_take, Nat.min_eq_left hj]
    | string s =>
      obtain ⟨cs, hslice, rfl⟩ := Option.map_eq_some_iff.mp h
      obtain ⟨before, after, hs, rfl, hlength⟩ := Text.slice?_eq_some_iff.mp hslice
      have hstring : String.ofList before ++ String.ofList cs ++ String.ofList after = s := by
        rw [← String.toList_inj]
        simp [hs]
      have hjoins := Joins.string (String.ofList before) (String.ofList cs) (String.ofList after)
      rw [hstring] at hjoins
      refine ⟨_, _, Text.utf8Length cs, hjoins, ?_, ?_, hlength⟩
      · rw [positions?, String.toList_ofList]
      · rw [positions?, String.toList_ofList]
    | _ => cases h
  · rintro ⟨front, back, m, hjoins, hfront, hy, rfl⟩
    cases hjoins with
    | seq a b c =>
      cases hfront
      cases hy
      have hbounds : a.length ≤ a.length + b.length ∧ a.length + b.length ≤ (a ++ b ++ c).length := by
        simp
      rw [part?, if_pos hbounds, take_drop_append]
    | string s t u =>
      cases hfront
      cases hy
      rw [part?, String.toList_append, String.toList_append, Text.slice?_append, Option.map_some,
        String.ofList_toList]

theorem Joins.positions?_eq (h : Joins front y back x) (hfront : front.positions? = some i)
    (hy : y.positions? = some m) :
    ∃ rest, back.positions? = some rest ∧ x.positions? = some (i + m + rest) := by
  cases h with
  | seq a b c =>
    cases hfront
    cases hy
    refine ⟨c.length, rfl, ?_⟩
    rw [positions?, List.length_append, List.length_append]
  | string s t u =>
    cases hfront
    cases hy
    refine ⟨Text.utf8Length u.toList, rfl, ?_⟩
    rw [positions?, String.toList_append, String.toList_append, Text.utf8Length_append,
      Text.utf8Length_append]

/-- A part of the whole that stays within a part is a part of that. -/
theorem Joins.part?_within (h : Joins front y back x) (hfront : front.positions? = some i)
    (hy : y.positions? = some m) (hl : l ≤ m) : x.part? (i + k) (i + l) = y.part? k l := by
  cases h with
  | seq a b c =>
    cases hfront
    cases hy
    have hslice : ((a ++ b ++ c).take (a.length + l)).drop (a.length + k) = (b.take l).drop k := by
      rw [List.append_assoc, List.take_length_add_append, List.drop_length_add_append,
        List.take_append_of_le_length hl]
    have hbounds : (a.length + k ≤ a.length + l ∧ a.length + l ≤ (a ++ b ++ c).length) ↔
        (k ≤ l ∧ l ≤ b.length) := by
      rw [List.length_append, List.length_append]
      omega
    simp only [part?, hslice, hbounds]
  | string s t u =>
    cases hfront
    cases hy
    rw [part?, part?, String.toList_append, String.toList_append, Text.slice?_within _ _ _ hl]

theorem getD_middle {α : Type} (a b c : List α) (d : α) (hk : k < b.length) :
    (a ++ b ++ c).getD (a.length + k) d = b.getD k d := by
  rw [List.getD_eq_getElem?_getD, List.getD_eq_getElem?_getD, List.append_assoc,
    List.getElem?_append_right (Nat.le_add_right _ _), Nat.add_sub_cancel_left,
    List.getElem?_append_left hk]

theorem Joins.itemAtPosition_eq (h : Joins front y back x) (hfront : front.positions? = some i)
    (hy : y.positions? = some m) (hk : k < m) :
    x.itemAtPosition (i + k) = y.itemAtPosition k := by
  cases h with
  | seq a b c =>
    cases hfront
    cases hy
    exact getD_middle a b c null hk
  | string s t u =>
    cases hfront
    cases hy
    rw [← Text.length_encode] at hk
    rw [itemAtPosition, itemAtPosition, String.toList_append, String.toList_append, Text.encode_append,
      Text.encode_append, ← Text.length_encode, getD_middle _ _ _ _ hk]

/-- What is before a part, and what is behind it, are parts as well. -/
theorem Joins.part?_front (h : Joins front y back x) (hfront : front.positions? = some i) :
    x.part? 0 i = some front := by
  refine part?_eq_some_iff.mpr ?_
  cases h with
  | seq a b c =>
    refine ⟨.seq [], .seq (b ++ c), i, ?_, rfl, hfront, Nat.zero_add i⟩
    rw [List.append_assoc]
    exact .seq [] a (b ++ c)
  | string s t u =>
    refine ⟨.string "", .string (t ++ u), i, ?_, rfl, hfront, Nat.zero_add i⟩
    rw [String.append_assoc]
    have hjoins := Joins.string "" s (t ++ u)
    rwa [String.empty_append] at hjoins

theorem Joins.part?_back (h : Joins front y back x) (hfront : front.positions? = some i)
    (hy : y.positions? = some m) (hx : x.positions? = some n) : x.part? (i + m) n = some back := by
  obtain ⟨rest, hback, hx'⟩ := h.positions?_eq hfront hy
  rw [hx] at hx'
  cases hx'
  refine part?_eq_some_iff.mpr ?_
  cases h with
  | seq a b c =>
    refine ⟨.seq (a ++ b), .seq [], rest, ?_, ?_, hback, rfl⟩
    · have hjoins := Joins.seq (a ++ b) c []
      rwa [List.append_nil] at hjoins
    · cases hfront
      cases hy
      rw [positions?, List.length_append]
  | string s t u =>
    refine ⟨.string (s ++ t), .string "", rest, ?_, ?_, hback, rfl⟩
    · have hjoins := Joins.string (s ++ t) u ""
      rwa [String.append_empty] at hjoins
    · cases hfront
      cases hy
      rw [positions?, String.toList_append, Text.utf8Length_append]

theorem part_eq_ok_iff : x.part i j = .ok y ↔ x.part? i j = some y := by
  rw [part]
  cases x.part? i j <;> simp

/-- Between which positions there are parts. -/
theorem exists_part?_iff (hx : x.positions? = some n) :
    (∃ y, x.part? i j = some y) ↔ (i ≤ j ∧ j ≤ n) ∧ x.IsBoundary i ∧ x.IsBoundary j := by
  cases x with
  | seq items =>
    cases hx
    have htrivial : (seq items).IsBoundary i ∧ (seq items).IsBoundary j := ⟨trivial, trivial⟩
    rw [part?, and_iff_left htrivial]
    constructor
    · rintro ⟨y, hy⟩
      exact (Option.ite_none_right_eq_some.mp hy).1
    · intro hbounds
      exact ⟨_, if_pos hbounds⟩
  | string s =>
    cases hx
    constructor
    · rintro ⟨y, hy⟩
      obtain ⟨cs, hslice, rfl⟩ := Option.map_eq_some_iff.mp hy
      obtain ⟨before, after, hs, rfl, rfl⟩ := Text.slice?_eq_some_iff.mp hslice
      refine ⟨⟨Nat.le_add_right _ _, ?_⟩, ⟨before, ?_, rfl⟩, Text.boundary_of_slice? hslice⟩
      · rw [hs, Text.utf8Length_append, Text.utf8Length_append]
        exact Nat.le_add_right _ _
      · rw [hs, List.append_assoc]
        exact List.prefix_append before _
    · rintro ⟨⟨hle, -⟩, ⟨before, hbefore, rfl⟩, ⟨upto, hupto, rfl⟩⟩
      obtain ⟨cs, rfl⟩ := Text.prefix_of_utf8Length_le hbefore hupto hle
      obtain ⟨after, hs⟩ := hupto
      have hslice : Text.slice? s.toList (Text.utf8Length before) (Text.utf8Length (before ++ cs)) =
          some cs := by
        rw [← hs, Text.utf8Length_append, Text.slice?_append]
      exact ⟨string (String.ofList cs), by rw [part?, hslice, Option.map_some]⟩
  | _ => cases hx

theorem isBoundary_end (hx : x.positions? = some n) : x.IsBoundary n := by
  cases x with
  | string s =>
    cases hx
    exact ⟨s.toList, List.prefix_rfl, rfl⟩
  | _ => trivial

/-- The part from the start to the end is the whole. -/
theorem part?_whole (hx : x.positions? = some n) : x.part? 0 n = some x := by
  refine part?_eq_some_iff.mpr ?_
  cases x with
  | seq items =>
    refine ⟨.seq [], .seq [], n, ?_, rfl, hx, Nat.zero_add n⟩
    have hjoins := Joins.seq [] items []
    rwa [List.append_nil] at hjoins
  | string s =>
    refine ⟨.string "", .string "", n, ?_, rfl, hx, Nat.zero_add n⟩
    have hjoins := Joins.string "" s ""
    rwa [String.empty_append, String.append_empty] at hjoins
  | _ => cases hx

end Parts

/-! ### Bounds -/

/-- What a bound stands for, if it may be left out. -/
def boundOf (default : Nat) (b : Option Int64) : Int :=
  (b.map Int64.toInt).getD default

section Bounds

variable {x y : Value} {n i j default : Nat} {first last b : Option Int64}

theorem checkBound_eq (hdefault : default ≤ n) (b : Option Int64) :
    checkBound n default (b.map int) =
      if 0 ≤ boundOf default b ∧ boundOf default b ≤ n then .ok (boundOf default b).toNat
      else .error (.outOfRange (boundOf default b)) := by
  cases b with
  | none =>
    rw [if_pos ⟨Int.natCast_nonneg default, Int.ofNat_le.mpr hdefault⟩]
    rfl
  | some b => rfl

theorem checkBound_eq_ok_iff (hdefault : default ≤ n) :
    checkBound n default (b.map int) = .ok i ↔ boundOf default b = i ∧ i ≤ n := by
  rw [checkBound_eq hdefault]
  split
  · rename_i h
    rw [Except.ok.injEq]
    omega
  · rename_i h
    constructor
    · intro herror
      cases herror
    · omega

theorem checkBounds_eq_ok_iff :
    checkBounds n (first.map int) (last.map int) = .ok (i, j) ↔
      (boundOf 0 first = i ∧ boundOf n last = j) ∧ i ≤ j ∧ j ≤ n := by
  constructor
  · intro h
    obtain ⟨p, hp, h⟩ := bind_eq_ok_iff.mp h
    obtain ⟨q, hq, h⟩ := bind_eq_ok_iff.mp h
    obtain ⟨hfirst, -⟩ := (checkBound_eq_ok_iff (Nat.zero_le n)).mp hp
    obtain ⟨hlast, hle⟩ := (checkBound_eq_ok_iff (Nat.le_refl n)).mp hq
    split at h
    · cases h
    · rename_i hpq
      cases h
      exact ⟨⟨hfirst, hlast⟩, Nat.le_of_not_lt hpq, hle⟩
  · rintro ⟨⟨hfirst, hlast⟩, hij, hj⟩
    have hp := (checkBound_eq_ok_iff (Nat.zero_le n)).mpr ⟨hfirst, hij.trans hj⟩
    have hq := (checkBound_eq_ok_iff (Nat.le_refl n)).mpr ⟨hlast, hj⟩
    refine bind_eq_ok_iff.mpr ⟨i, hp, bind_eq_ok_iff.mpr ⟨j, hq, ?_⟩⟩
    rw [if_neg (Nat.not_lt.mpr hij)]
    rfl

theorem sliceText?_eq {i j : Nat} (h : i ≤ j) (cs : List Char) :
    sliceText? i j cs = Text.slice? cs i j := by
  rw [Text.slice?, if_pos h, Text.sliceFrom?, sliceText?]
  cases Text.cutAt? i cs with
  | none => rfl
  | some parts =>
    change (Text.cutAt? (j - i) parts.2 >>= fun parts => pure parts.1) = _
    rw [Option.map_some, Option.bind_some, Text.sliceTo?]
    cases Text.cutAt? (j - i) parts.2 <;> rfl

/-- A slice is the part between its bounds, if these are in order. -/
theorem slice_eq (hx : x.positions? = some n) (first last : Option Int64) :
    x.slice (first.map int) (last.map int) =
      checkBounds n (first.map int) (last.map int) >>= fun bounds => x.part bounds.1 bounds.2 := by
  cases x with
  | seq items =>
    cases hx
    rw [slice]
    cases hbounds : checkBounds items.length (first.map int) (last.map int) with
    | error fault => rfl
    | ok bounds =>
      have hpart : (seq items).part? bounds.1 bounds.2 = some _ :=
        if_pos (checkBounds_eq_ok_iff.mp hbounds).2
      change _ = (seq items).part bounds.1 bounds.2
      rw [part, hpart]
      rfl
  | string s =>
    cases hx
    rw [slice]
    cases hbounds : checkBounds (Text.utf8Length s.toList) (first.map int) (last.map int) with
    | error fault => rfl
    | ok bounds =>
      obtain ⟨i, j⟩ := bounds
      have hslice := sliceText?_eq (checkBounds_eq_ok_iff.mp hbounds).2.1 s.toList
      dsimp only [bind, Except.bind]
      rw [part, part?, ← hslice]
      cases sliceText? i j s.toList <;> rfl
  | _ => cases hx

/-- What comes of a slice is up to what its bounds stand for. -/
theorem slice_congr (hx : x.positions? = some n) {first first' last last' : Option Int64}
    (hfirst : boundOf 0 first = boundOf 0 first') (hlast : boundOf n last = boundOf n last') :
    x.slice (first.map int) (last.map int) = x.slice (first'.map int) (last'.map int) := by
  have hbounds : checkBounds n (first.map int) (last.map int) =
      checkBounds n (first'.map int) (last'.map int) := by
    unfold checkBounds
    rw [checkBound_eq (Nat.zero_le n), checkBound_eq (Nat.zero_le n), checkBound_eq (Nat.le_refl n),
      checkBound_eq (Nat.le_refl n), hfirst, hlast]
  rw [slice_eq hx, slice_eq hx, hbounds]

/-- With bounds in order, it is up to the part between them. -/
theorem slice_of_bounds (hx : x.positions? = some n) (first last : Option Int64)
    (hfirst : boundOf 0 first = i) (hlast : boundOf n last = j) (hij : i ≤ j) (hj : j ≤ n) :
    x.slice (first.map int) (last.map int) = x.part i j := by
  have hbounds := checkBounds_eq_ok_iff.mpr ⟨⟨hfirst, hlast⟩, hij, hj⟩
  rw [slice_eq hx, hbounds]
  rfl

theorem slice_eq_ok_iff (hx : x.positions? = some n) (first last : Option Int64) :
    x.slice (first.map int) (last.map int) = .ok y ↔
      ∃ i j : Nat, boundOf 0 first = i ∧ boundOf n last = j ∧ x.part? i j = some y := by
  constructor
  · intro h
    rw [slice_eq hx] at h
    obtain ⟨⟨i, j⟩, hbounds, hy⟩ := bind_eq_ok_iff.mp h
    obtain ⟨⟨hfirst, hlast⟩, -⟩ := checkBounds_eq_ok_iff.mp hbounds
    exact ⟨i, j, hfirst, hlast, part_eq_ok_iff.mp hy⟩
  · rintro ⟨i, j, hfirst, hlast, hy⟩
    obtain ⟨⟨hij, hj⟩, -⟩ := (exists_part?_iff hx).mp ⟨y, hy⟩
    rw [slice_of_bounds hx first last hfirst hlast hij hj]
    exact part_eq_ok_iff.mpr hy

/-- The item under a signed number is the one at this position. -/
theorem item_int (hx : x.positions? = some n) (k : Int64) :
    x.item (int k) = (checkIndex n k.toInt).map fun p => x.itemAtPosition p := by
  cases x with
  | seq items =>
    cases hx
    rfl
  | string s =>
    cases hx
    rfl
  | _ => cases hx

end Bounds

end Value

/-! ### Laws -/

namespace Function

open Value (Joins boundOf part?_eq_some_iff slice_eq_ok_iff slice_of_bounds)

variable {x y front back : Value} {n m p : Nat} {i j k l : Int64}

theorem toInt_add_of_le (hi : 0 ≤ i.toInt) (hk : 0 ≤ k.toInt) (h : i.toInt + k.toInt ≤ j.toInt) :
    (i + k).toInt = i.toInt + k.toInt := by
  have hj := j.toInt_lt
  rw [Int64.toInt_add]
  exact Int.bmod_eq_of_le (by omega) (by omega)

theorem index_pair (v key : Value) : index [v, key] = v.item key := by
  change v.item key >>= pure = _
  exact bind_pure _

/-- A slice with both bounds, as a part with what is before it and behind it. -/
theorem slice_eq_ok_iff_joins (hx : x.positions? = some n) :
    slice [x, .int i, .int j] = .ok y ↔
      ∃ front back p m, Joins front y back x ∧ front.positions? = some p ∧ y.positions? = some m ∧
        i.toInt = p ∧ j.toInt = p + m := by
  refine (slice_eq_ok_iff hx (some i) (some j)).trans ?_
  constructor
  · rintro ⟨p, q, hi, hj, hpart⟩
    obtain ⟨front, back, m, hjoins, hfront, hy, rfl⟩ := part?_eq_some_iff.mp hpart
    exact ⟨front, back, p, m, hjoins, hfront, hy, hi, hj⟩
  · rintro ⟨front, back, p, m, hjoins, hfront, hy, hi, hj⟩
    exact ⟨p, p + m, hi, hj, part?_eq_some_iff.mpr ⟨front, back, m, hjoins, hfront, hy, rfl⟩⟩

/-- Which slices with both bounds there are. -/
theorem exists_slice_iff (hx : x.positions? = some n) :
    (∃ y, slice [x, .int i, .int j] = .ok y) ↔
      (0 ≤ i.toInt ∧ i.toInt ≤ j.toInt ∧ j.toInt ≤ n) ∧
        x.IsBoundary i.toInt.toNat ∧ x.IsBoundary j.toInt.toNat := by
  constructor
  · rintro ⟨y, hy⟩
    obtain ⟨p, q, hi, hj, hpart⟩ := (slice_eq_ok_iff hx (some i) (some j)).mp hy
    obtain ⟨⟨hle, hn⟩, hfirst, hlast⟩ := (Value.exists_part?_iff hx).mp ⟨y, hpart⟩
    change i.toInt = p at hi
    change j.toInt = q at hj
    rw [hi, hj, Int.toNat_natCast, Int.toNat_natCast]
    exact ⟨by omega, hfirst, hlast⟩
  · rintro ⟨hle, hfirst, hlast⟩
    have hbounds : i.toInt.toNat ≤ j.toInt.toNat ∧ j.toInt.toNat ≤ n := by omega
    obtain ⟨y, hpart⟩ := (Value.exists_part?_iff hx).mpr ⟨hbounds, hfirst, hlast⟩
    refine ⟨y, (slice_eq_ok_iff hx (some i) (some j)).mpr ⟨i.toInt.toNat, j.toInt.toNat, ?_, ?_, hpart⟩⟩
    · exact (Int.toNat_of_nonneg hle.1).symm
    · exact (Int.toNat_of_nonneg (hle.1.trans hle.2.1)).symm

/-- A bound that is left out is the start or the end. -/
theorem slice_left_out (hx : x.positions? = some n) {last : Int64} (hlast : last.toInt = n) :
    slice [x, .int i] = slice [x, .int i, .int last] ∧ slice [x] = slice [x, .int 0, .int last] := by
  have hend : boundOf n none = boundOf n (some last) := hlast.symm
  constructor
  · have hfirst : boundOf 0 (some i) = boundOf 0 (some i) := rfl
    exact Value.slice_congr hx hfirst hend
  · have hfirst : boundOf 0 none = boundOf 0 (some 0) := rfl
    exact Value.slice_congr hx hfirst hend

/-- Which slices up to the end there are. -/
theorem exists_slice_to_end_iff (hx : x.positions? = some n) :
    (∃ y, slice [x, .int i] = .ok y) ↔
      (0 ≤ i.toInt ∧ i.toInt ≤ n) ∧ x.IsBoundary i.toInt.toNat := by
  constructor
  · rintro ⟨y, hy⟩
    obtain ⟨p, q, hi, hend, hpart⟩ := (slice_eq_ok_iff hx (some i) none).mp hy
    obtain ⟨⟨hle, hn⟩, hfirst, -⟩ := (Value.exists_part?_iff hx).mp ⟨y, hpart⟩
    change i.toInt = p at hi
    rw [hi, Int.toNat_natCast]
    exact ⟨by omega, hfirst⟩
  · rintro ⟨hle, hfirst⟩
    have hbounds : i.toInt.toNat ≤ n ∧ n ≤ n := by omega
    obtain ⟨y, hpart⟩ := (Value.exists_part?_iff hx).mpr ⟨hbounds, hfirst, Value.isBoundary_end hx⟩
    refine ⟨y, (slice_eq_ok_iff hx (some i) none).mpr ⟨i.toInt.toNat, n, ?_, rfl, hpart⟩⟩
    exact (Int.toNat_of_nonneg hle.1).symm

theorem slice_whole (hx : x.positions? = some n) : slice [x] = .ok x :=
  (slice_eq_ok_iff hx none none).mpr ⟨0, n, rfl, rfl, Value.part?_whole hx⟩

section Joins

variable (hx : x.positions? = some n) (hjoins : Joins front y back x)
  (hfront : front.positions? = some p) (hy : y.positions? = some m)
include hx hjoins hfront hy

/-- The slices before and behind a slice. -/
theorem slices_of_joins (hi : i.toInt = p) (hj : j.toInt = p + m) :
    slice [x, .int 0, .int i] = .ok front ∧ slice [x, .int j] = .ok back := by
  constructor
  · exact (slice_eq_ok_iff hx (some 0) (some i)).mpr ⟨0, p, rfl, hi, hjoins.part?_front hfront⟩
  · exact (slice_eq_ok_iff hx (some j) none).mpr ⟨p + m, n, hj, rfl, hjoins.part?_back hfront hy hx⟩

/-- A slice of a slice is a slice of the whole, so much further on. -/
theorem slice_of_slice (hi : i.toInt = p) (hj : j.toInt = p + m) (hk : 0 ≤ k.toInt)
    (hkl : k.toInt ≤ l.toInt) (hl : l.toInt ≤ m) :
    slice [y, .int k, .int l] = slice [x, .int (i + k), .int (i + l)] := by
  obtain ⟨rest, -, hx'⟩ := hjoins.positions?_eq hfront hy
  rw [hx] at hx'
  cases hx'
  obtain ⟨q, hq⟩ := Int.eq_ofNat_of_zero_le hk
  obtain ⟨r, hr⟩ := Int.eq_ofNat_of_zero_le (hk.trans hkl)
  have hfirst : boundOf 0 (some (i + k)) = (p + q : Nat) := by
    refine (toInt_add_of_le (j := j) ?_ hk ?_).trans ?_ <;> omega
  have hlast : boundOf (p + m + rest) (some (i + l)) = (p + r : Nat) := by
    refine (toInt_add_of_le (j := j) ?_ ?_ ?_).trans ?_ <;> omega
  calc slice [y, .int k, .int l]
      = y.part q r := slice_of_bounds hy (some k) (some l) hq hr (by omega) (by omega)
    _ = x.part (p + q) (p + r) := by
        rw [Value.part, Value.part, hjoins.part?_within hfront hy (by omega)]
    _ = slice [x, .int (i + k), .int (i + l)] :=
        (slice_of_bounds hx (some (i + k)) (some (i + l)) hfirst hlast (by omega) (by omega)).symm

/-- An item of a slice is an item of the whole, so much further on. -/
theorem index_of_slice (hi : i.toInt = p) (hj : j.toInt = p + m) (hk : 0 ≤ k.toInt)
    (hm : k.toInt < m) :
    ∃ v, index [y, .int k] = .ok v ∧ index [x, .int (i + k)] = .ok v := by
  obtain ⟨rest, -, hx'⟩ := hjoins.positions?_eq hfront hy
  rw [hx] at hx'
  cases hx'
  obtain ⟨q, hq⟩ := Int.eq_ofNat_of_zero_le hk
  have hfurther : (i + k).toInt = (p + q : Nat) := by
    refine (toInt_add_of_le (j := j) ?_ hk ?_).trans ?_ <;> omega
  have hinner : Value.checkIndex m k.toInt = .ok q :=
    Value.checkIndex_eq_ok_iff.mpr ⟨⟨hk, hm⟩, by omega⟩
  have houter : Value.checkIndex (p + m + rest) (i + k).toInt = .ok (p + q) :=
    Value.checkIndex_eq_ok_iff.mpr ⟨by omega, by omega⟩
  refine ⟨y.itemAtPosition q, ?_, ?_⟩
  · rw [index_pair, Value.item_int hy, hinner]
    rfl
  · rw [index_pair, Value.item_int hx, houter, ← hjoins.itemAtPosition_eq hfront hy (by omega)]
    rfl

end Joins

theorem length_of_slice (hy : y.positions? = some m) (hi : i.toInt = p) (hj : j.toInt = p + m) :
    len [y] = .ok (.int (j - i)) := by
  have hlength : y.length? = some m := by
    cases y with
    | seq items => exact hy
    | string s => exact hy
    | _ => cases hy
  have hdiff : Int64.ofNat m = j - i := by
    have hlt := j.toInt_lt
    rw [← Int64.toInt_inj, Int64.toInt_ofNat_of_lt (by omega), Int64.toInt_sub]
    have hm : j.toInt - i.toInt = m := by omega
    rw [hm]
    exact (Int.bmod_eq_of_le (by omega) (by omega)).symm
  rw [len, hlength, ← hdiff]
  rfl

/-- For a sequence of `n` items or a string of `n` bytes, and signed numbers as bounds. There is a slice
exactly if the bounds are in order and, in a string, between characters. A bound that is left out is the
start or the end, so that the slice without bounds is the whole. A slice has the length that its bounds
say and makes up the whole with the slices before and behind it. A slice of it is the slice of the whole
so much further on, or is refused as that is; an item of it is the item of the whole so much further on,
and there are no others. -/
theorem slice_cuts (hx : x.positions? = some n) (i j : Int64) :
    ((∃ y, slice [x, .int i, .int j] = .ok y) ↔
      (0 ≤ i.toInt ∧ i.toInt ≤ j.toInt ∧ j.toInt ≤ n) ∧
        x.IsBoundary i.toInt.toNat ∧ x.IsBoundary j.toInt.toNat) ∧
    (∀ last : Int64, last.toInt = n →
      slice [x, .int i] = slice [x, .int i, .int last] ∧ slice [x] = slice [x, .int 0, .int last]) ∧
    ((∃ y, slice [x, .int i] = .ok y) ↔
      (0 ≤ i.toInt ∧ i.toInt ≤ n) ∧ x.IsBoundary i.toInt.toNat) ∧
    slice [x] = .ok x ∧
    ∀ y, slice [x, .int i, .int j] = .ok y →
      (∃ front back, slice [x, .int 0, .int i] = .ok front ∧ slice [x, .int j] = .ok back ∧
        Joins front y back x) ∧
      len [y] = .ok (.int (j - i)) ∧
      (∀ k l : Int64, 0 ≤ k.toInt → k.toInt ≤ l.toInt → l.toInt ≤ j.toInt - i.toInt →
        slice [y, .int k, .int l] = slice [x, .int (i + k), .int (i + l)]) ∧
      (∀ k : Int64, 0 ≤ k.toInt → k.toInt < j.toInt - i.toInt →
        ∃ v, index [y, .int k] = .ok v ∧ index [x, .int (i + k)] = .ok v) ∧
      ∀ k : Int64, ¬ (0 ≤ k.toInt ∧ k.toInt < j.toInt - i.toInt) →
        index [y, .int k] = .error (.outOfRange k.toInt) := by
  refine ⟨exists_slice_iff hx, fun last => slice_left_out hx, exists_slice_to_end_iff hx,
    slice_whole hx, ?_⟩
  intro y hslice
  obtain ⟨front, back, p, m, hjoins, hfront, hy, hi, hj⟩ := (slice_eq_ok_iff_joins hx).mp hslice
  obtain ⟨hbefore, hbehind⟩ := slices_of_joins hx hjoins hfront hy hi hj
  refine ⟨⟨front, back, hbefore, hbehind, hjoins⟩, length_of_slice hy hi hj, ?_, ?_, ?_⟩
  · intro k l hk hkl hl
    exact slice_of_slice hx hjoins hfront hy hi hj hk hkl (by omega)
  · intro k hk hm
    exact index_of_slice hx hjoins hfront hy hi hj hk (by omega)
  · intro k hout
    have hkey : (Value.int k).integer? = some k.toInt := rfl
    rw [index_pair]
    exact Value.item_beyond hy hkey (by omega)

/-- The second of three characters takes two bytes. A slice of the string may not end between them, and
neither may a slice of the slice that they are. -/
theorem slice_cuts_bytes :
    ∃ x y : Value, x.positions? = some 4 ∧ slice [x, .int 1, .int 3] = .ok y ∧
      Joins (.string "a") y (.string "b") x ∧
      slice [x, .int 1, .int 2] = .error .splitsCharacter ∧
      slice [y, .int 0, .int 1] = .error .splitsCharacter ∧
      index [y, .int 1] = .ok (.int 169) ∧
      index [y, .int 2] = .error (.outOfRange 2) := by
  let x : Value := .string "aéb"
  let y : Value := .string "é"
  have hx : x.positions? = some 4 := rfl
  have hslice : slice [x, .int 1, .int 3] = .ok y := rfl
  have hsplit : slice [x, .int 1, .int 2] = .error .splitsCharacter := rfl
  obtain ⟨-, -, -, -, hlaws⟩ := slice_cuts hx 1 3
  obtain ⟨⟨front, back, hfront, hback, hjoins⟩, -, hinner, hindex, hbeyond⟩ := hlaws y hslice
  have hbefore : slice [x, .int 0, .int 1] = .ok (.string "a") := rfl
  have hbehind : slice [x, .int 3] = .ok (.string "b") := rfl
  rw [hbefore] at hfront
  rw [hbehind] at hback
  cases hfront
  cases hback
  have hinside : slice [y, .int 0, .int 1] = slice [x, .int 1, .int 2] :=
    hinner 0 1 (by decide) (by decide) (by decide)
  obtain ⟨v, hv, hwhole⟩ := hindex 1 (by decide) (by decide)
  have hbyte : index [x, .int 2] = .ok (.int 169) := rfl
  have hbyte' : index [x, .int 2] = .ok v := hwhole
  rw [hbyte] at hbyte'
  cases hbyte'
  exact ⟨x, y, hx, hslice, hjoins, hsplit, hinside.trans hsplit, hv, hbeyond 2 (by decide)⟩

end Function

end BoundQuery
