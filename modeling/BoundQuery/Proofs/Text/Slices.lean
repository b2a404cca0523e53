/-
# Slices by byte offsets

A text is sliced at byte offsets. Where an offset is inside a character, or beyond the end, there is
no slice. The bytes of ASCII characters stand for themselves; those of other characters are none of
these.

Main statements: `sliceFrom?_append`, `slice?_append`, `sliceFrom?_inside`, `slice?_eq_some_iff`,
`slice?_within`.
-/

import BoundQuery.Text.Bytes

namespace BoundQuery.Text

/-! ### Bytes of characters -/

/-- The byte of an ASCII character. -/
def byte (c : Char) : UInt8 :=
  UInt8.ofNat c.toNat

theorem byte_inj {c d : Char} (hc : c.toNat < 0x80) (hd : d.toNat < 0x80) :
    byte c = byte d ↔ c = d := by
  constructor
  · intro h
    have hnat := congrArg UInt8.toNat h
    simp only [byte, UInt8.toNat_ofNat'] at hnat
    have hval : c.toNat = d.toNat := by omega
    exact Char.ext (UInt32.toNat_inj.mp hval)
  · rintro rfl
    rfl

theorem ne_byte {b : UInt8} (hb : 0x80 ≤ b.toNat) {d : Char} (hd : d.toNat < 0x80) : b ≠ byte d := by
  rintro rfl
  simp only [byte, UInt8.toNat_ofNat'] at hb
  omega

theorem utf8Size_of_ascii {c : Char} (h : c.toNat < 0x80) : c.utf8Size = 1 :=
  Char.utf8Size_eq_one_iff.mpr (UInt32.le_iff_toNat_le.mpr (Nat.le_of_lt_succ h))

theorem one_lt_utf8Size {c : Char} (h : 0x80 ≤ c.toNat) : 1 < c.utf8Size := by
  have hpos := c.utf8Size_pos
  have hne : c.utf8Size ≠ 1 := by
    intro hone
    have hle : c.toNat ≤ 127 := UInt32.le_iff_toNat_le.mp (Char.utf8Size_eq_one_iff.mp hone)
    omega
  omega

theorem utf8Length_pos {cs : List Char} (h : cs ≠ []) : 0 < utf8Length cs := by
  cases cs with
  | nil => exact absurd rfl h
  | cons c cs => exact Nat.lt_of_lt_of_le c.utf8Size_pos (Nat.le_add_right _ _)

theorem encode_cons_of_ascii {c : Char} (h : c.toNat < 0x80) (cs : List Char) :
    encode (c :: cs) = byte c :: encode cs := by
  have hval : c.val.toNat ≤ 127 := Nat.le_of_lt_succ h
  rw [encode, List.flatMap_cons, String.utf8EncodeChar, if_pos hval]
  rfl

/-- The bytes of a character that is not ASCII are no bytes of ASCII characters. -/
theorem utf8EncodeChar_foreign {c : Char} (h : 0x80 ≤ c.toNat) :
    ∀ b ∈ String.utf8EncodeChar c, 0x80 ≤ b.toNat := by
  have hval : 0x80 ≤ c.val.toNat := h
  intro b hb
  unfold String.utf8EncodeChar at hb
  dsimp only at hb
  split at hb
  · omega
  · split at hb
    · simp only [List.mem_cons, List.not_mem_nil, or_false] at hb
      rcases hb with rfl | rfl <;> simp only [UInt8.toNat_ofNat'] <;> omega
    · split at hb
      · simp only [List.mem_cons, List.not_mem_nil, or_false] at hb
        rcases hb with rfl | rfl | rfl <;> simp only [UInt8.toNat_ofNat'] <;> omega
      · simp only [List.mem_cons, List.not_mem_nil, or_false] at hb
        rcases hb with rfl | rfl | rfl | rfl <;> simp only [UInt8.toNat_ofNat'] <;> omega

/-! ### Slices -/

/-- A text from a byte offset on. -/
def sliceFrom? (cs : List Char) (start : Nat) : Option (List Char) :=
  (cutAt? start cs).map Prod.snd

/-- A text up to a byte offset. -/
def sliceTo? (cs : List Char) (stop : Nat) : Option (List Char) :=
  (cutAt? stop cs).map Prod.fst

/-- A text from one byte offset to another. -/
def slice? (cs : List Char) (start stop : Nat) : Option (List Char) :=
  if start ≤ stop then (sliceFrom? cs start).bind fun rest => sliceTo? rest (stop - start) else none

theorem sliceFrom?_append (s t : List Char) : sliceFrom? (s ++ t) (utf8Length s) = some t := by
  rw [sliceFrom?, cutAt?_append]
  rfl

theorem sliceTo?_append (s t : List Char) : sliceTo? (s ++ t) (utf8Length s) = some s := by
  rw [sliceTo?, cutAt?_append]
  rfl

theorem slice?_append (s t u : List Char) :
    slice? (s ++ t ++ u) (utf8Length s) (utf8Length s + utf8Length t) = some t := by
  rw [slice?, if_pos (Nat.le_add_right _ _), List.append_assoc, sliceFrom?_append, Option.bind_some,
    Nat.add_sub_cancel_left, sliceTo?_append]

theorem sliceFrom?_eq_some {cs rest : List Char} {start : Nat} (h : sliceFrom? cs start = some rest) :
    ∃ before, cs = before ++ rest ∧ utf8Length before = start := by
  obtain ⟨⟨before, after⟩, hcut, rfl⟩ := Option.map_eq_some_iff.mp h
  exact ⟨before, cutAt?_eq_some_iff.mp hcut⟩

/-- There is no slice from the second byte of a character on. -/
theorem sliceFrom?_inside (s t : List Char) {c : Char} (hc : 1 < c.utf8Size) :
    sliceFrom? (s ++ c :: t) (utf8Length s + 1) = none := by
  cases h : sliceFrom? (s ++ c :: t) (utf8Length s + 1) with
  | none => rfl
  | some rest =>
    obtain ⟨before, heq, hlength⟩ := sliceFrom?_eq_some h
    rcases List.append_eq_append_iff.mp heq with ⟨more, rfl, hmore⟩ | ⟨more, rfl, -⟩
    · rw [utf8Length_append] at hlength
      cases more with
      | nil =>
        rw [utf8Length_nil] at hlength
        omega
      | cons d more =>
        cases (List.cons.inj hmore).1
        rw [utf8Length_cons] at hlength
        omega
    · rw [utf8Length_append] at hlength
      omega

/-- Of two fronts of one text the longer one starts with the shorter one. -/
theorem prefix_of_utf8Length_le {s t cs : List Char} (hs : s <+: cs) (ht : t <+: cs)
    (h : utf8Length s ≤ utf8Length t) : s <+: t := by
  rcases List.prefix_or_prefix_of_prefix hs ht with hprefix | ⟨more, rfl⟩
  · exact hprefix
  · cases more with
    | nil => simp
    | cons c more =>
      have hc := c.utf8Size_pos
      rw [utf8Length_append, utf8Length_cons] at h
      omega

/-- A slice is what stands between its two offsets. -/
theorem slice?_eq_some_iff {cs t : List Char} {start stop : Nat} :
    slice? cs start stop = some t ↔
      ∃ s u, cs = s ++ t ++ u ∧ utf8Length s = start ∧ utf8Length s + utf8Length t = stop := by
  constructor
  · intro h
    unfold slice? at h
    split at h
    · obtain ⟨rest, hfrom, hto⟩ := Option.bind_eq_some_iff.mp h
      obtain ⟨s, rfl, rfl⟩ := sliceFrom?_eq_some hfrom
      obtain ⟨⟨front, u⟩, hcut, rfl⟩ := Option.map_eq_some_iff.mp hto
      obtain ⟨rfl, hlength⟩ := cutAt?_eq_some_iff.mp hcut
      refine ⟨s, u, (List.append_assoc s front u).symm, rfl, ?_⟩
      rw [hlength]
      omega
    · cases h
  · rintro ⟨s, u, rfl, rfl, rfl⟩
    exact slice?_append s t u

/-- A slice of a text that stays within a part of it is a slice of that part. -/
theorem slice?_within (s t u : List Char) {start stop : Nat} (hstop : stop ≤ utf8Length t) :
    slice? (s ++ t ++ u) (utf8Length s + start) (utf8Length s + stop) = slice? t start stop := by
  refine Option.ext fun v => ?_
  rw [slice?_eq_some_iff, slice?_eq_some_iff]
  constructor
  · rintro ⟨front, back, heq, hfront, hlength⟩
    have hcs : s ++ (t ++ u) = front ++ (v ++ back) := by
      rw [← List.append_assoc, heq, List.append_assoc]
    obtain ⟨inner, rfl⟩ : s <+: front :=
      prefix_of_utf8Length_le ⟨t ++ u, hcs⟩ (List.prefix_append front (v ++ back)) (by omega)
    rw [utf8Length_append] at hfront hlength
    have hrest : t ++ u = inner ++ v ++ back := by
      rw [List.append_assoc] at hcs
      rw [List.append_cancel_left hcs, List.append_assoc]
    obtain ⟨after, rfl⟩ : inner ++ v <+: t := by
      refine prefix_of_utf8Length_le ⟨back, hrest.symm⟩ (List.prefix_append t u) ?_
      rw [utf8Length_append]
      omega
    exact ⟨inner, after, rfl, by omega, by omega⟩
  · rintro ⟨front, back, rfl, rfl, rfl⟩
    refine ⟨s ++ front, back ++ u, by simp, utf8Length_append s front, ?_⟩
    rw [utf8Length_append, Nat.add_assoc]

/-! ### Patterns -/

/-- The byte offset of the first place where a pattern stands in a text. -/
def find? (pattern : List Char) : List Char → Option Nat
  | [] => if pattern.isEmpty then some 0 else none
  | c :: cs =>
    if pattern.isPrefixOf (c :: cs) then some 0 else (find? pattern cs).map (c.utf8Size + ·)

end BoundQuery.Text
