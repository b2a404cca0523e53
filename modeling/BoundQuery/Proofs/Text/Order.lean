/-
# The order of texts

Texts are ordered by their characters, and so are their UTF-8 forms by their bytes: the first byte of a
longer form is greater than that of a shorter one, and forms of one length spell the code point from its
highest digit to its lowest.

Main statement: `octets_lt`.
-/

import BoundQuery.Text.Bytes
import Mathlib.Data.List.Lex
import Mathlib.Data.Char

namespace BoundQuery.Text

/-- The bytes of the UTF-8 form, as numbers. -/
def octets (cs : List Char) : List Nat :=
  (encode cs).map UInt8.toNat

/-- The bytes of one character, by its code point. -/
def charOctets (n : Nat) : List Nat :=
  if n ≤ 0x7f then [n]
  else if n ≤ 0x7ff then [0xc0 + n / 0x40, 0x80 + n % 0x40]
  else if n ≤ 0xffff then [0xe0 + n / 0x1000, 0x80 + n / 0x40 % 0x40, 0x80 + n % 0x40]
  else [0xf0 + n / 0x40000, 0x80 + n / 0x1000 % 0x40, 0x80 + n / 0x40 % 0x40, 0x80 + n % 0x40]

theorem toNat_lt (c : Char) : c.toNat < 0x110000 := by
  have hvalid : c.toNat.isValidChar := c.valid
  unfold Nat.isValidChar at hvalid
  omega

theorem toNat_utf8EncodeChar (c : Char) :
    (String.utf8EncodeChar c).map UInt8.toNat = charOctets c.toNat := by
  have hlt : c.val.toNat < 0x110000 := toNat_lt c
  change _ = charOctets c.val.toNat
  unfold String.utf8EncodeChar charOctets
  dsimp only
  split_ifs
  all_goals
    simp only [List.map_cons, List.map_nil, UInt8.toNat_ofNat', List.cons.injEq, and_true]
    omega

theorem octets_cons (c : Char) (cs : List Char) : octets (c :: cs) = charOctets c.toNat ++ octets cs := by
  rw [octets, encode, List.flatMap_cons, List.map_append, toNat_utf8EncodeChar]
  rfl

/-- The bytes of a character are less than those of a greater one, whatever follows them. -/
theorem charOctets_append_lt {n m : Nat} (h : n < m) (hm : m < 0x110000) (s t : List Nat) :
    charOctets n ++ s < charOctets m ++ t := by
  unfold charOctets
  split_ifs
  all_goals
    simp only [List.cons_append, List.nil_append, List.cons_lt_cons_iff]
    omega

theorem charOctets_ne_nil (n : Nat) : charOctets n ≠ [] := by
  unfold charOctets
  split_ifs
  all_goals exact List.cons_ne_nil _ _

/-- Texts are ordered as their bytes are. -/
theorem octets_lt {s t : List Char} (h : s < t) : octets s < octets t := by
  induction s generalizing t with
  | nil =>
    cases t with
    | nil => exact absurd h (List.lt_irrefl [])
    | cons d t =>
      rw [octets_cons]
      obtain ⟨o, rest, ho⟩ := List.exists_cons_of_ne_nil (charOctets_ne_nil d.toNat)
      rw [ho]
      exact List.nil_lt_cons o _
  | cons c s ih =>
    cases t with
    | nil => exact absurd h (List.not_lt_nil _)
    | cons d t =>
      rw [octets_cons, octets_cons]
      rcases List.cons_lt_cons_iff.mp h with hcd | ⟨rfl, hst⟩
      · exact charOctets_append_lt hcd (toNat_lt d) _ _
      · exact List.append_left_lt (ih hst)

end BoundQuery.Text
