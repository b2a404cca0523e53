/-
# Offsets of pieces

A text that is put together from pieces has each of them at an offset, counted in bytes. The offsets
of pieces that are not empty ascend, so as many offsets among others are the same ones.

Main statements: `mem_offsetsOf`, `pairwise_offsetsOf`, `eq_of_subset_of_pairwise`.
-/

import BoundQuery.Text.Bytes
import Mathlib.Data.List.Sort

namespace BoundQuery.Text

/-- Two starts of one text with the same length are the same. -/
theorem eq_of_utf8Length_eq {s t u v : List Char} (h : s ++ t = u ++ v)
    (hlength : utf8Length s = utf8Length u) : s = u := by
  have hcut := cutAt?_append s t
  rw [h, hlength, cutAt?_append u v, Option.some.injEq, Prod.mk.injEq] at hcut
  exact hcut.1.symm

section Offsets

variable {α : Type} (chars : α → List Char) (holds : α → Bool)

/-- The offsets of the pieces that `holds` selects, in a text that starts at `offset`. -/
def offsetsOf (offset : Nat) : List α → List Nat
  | [] => []
  | a :: rest =>
    if holds a then offset :: offsetsOf (offset + utf8Length (chars a)) rest
    else offsetsOf (offset + utf8Length (chars a)) rest

variable {chars holds}

/-- The offset of a piece is the length of all pieces before it. -/
theorem mem_offsetsOf {offset m : Nat} {pieces : List α} :
    m ∈ offsetsOf chars holds offset pieces ↔
      ∃ before a after, pieces = before ++ a :: after ∧ holds a = true ∧
        m = offset + utf8Length (before.flatMap chars) := by
  induction pieces generalizing offset with
  | nil => simp [offsetsOf]
  | cons b rest ih =>
    have hsplit : m ∈ offsetsOf chars holds offset (b :: rest) ↔
        (holds b = true ∧ m = offset) ∨
          m ∈ offsetsOf chars holds (offset + utf8Length (chars b)) rest := by
      by_cases hb : holds b <;> simp [offsetsOf, hb]
    rw [hsplit, ih]
    constructor
    · rintro (⟨hb, rfl⟩ | ⟨before, a, after, rfl, ha, rfl⟩)
      · exact ⟨[], b, rest, rfl, hb, by simp⟩
      · exact ⟨b :: before, a, after, rfl, ha, by simp [Nat.add_assoc]⟩
    · rintro ⟨before, a, after, hpieces, ha, rfl⟩
      cases before with
      | nil =>
        cases hpieces
        exact .inl ⟨ha, by simp⟩
      | cons c before =>
        cases hpieces
        exact .inr ⟨before, a, after, rfl, ha, by simp [Nat.add_assoc]⟩

theorem length_offsetsOf (offset : Nat) (pieces : List α) :
    (offsetsOf chars holds offset pieces).length = pieces.countP holds := by
  induction pieces generalizing offset with
  | nil => rfl
  | cons a rest ih => by_cases ha : holds a <;> simp [offsetsOf, ha, ih]

/-- The offsets of pieces that are not empty ascend. -/
theorem pairwise_offsetsOf (hchars : ∀ a, holds a = true → chars a ≠ []) (offset : Nat)
    (pieces : List α) : (offsetsOf chars holds offset pieces).Pairwise (· < ·) := by
  induction pieces generalizing offset with
  | nil => exact .nil
  | cons a rest ih =>
    rw [offsetsOf]
    split
    · rename_i ha
      refine .cons ?_ (ih _)
      intro m hm
      obtain ⟨before, b, after, -, -, rfl⟩ := mem_offsetsOf.mp hm
      have hpos : 0 < utf8Length (chars a) := by
        cases hcs : chars a with
        | nil => exact absurd hcs (hchars a ha)
        | cons c cs =>
          have := c.utf8Size_pos
          rw [utf8Length_cons]
          omega
      omega
    · exact ih _

end Offsets

/-- Of two ascending lists of one length, the one holds all of the other only if they are equal. -/
theorem eq_of_subset_of_pairwise {xs ys : List Nat} (hxs : xs.Pairwise (· < ·))
    (hys : ys.Pairwise (· < ·)) (hsubset : xs ⊆ ys) (hlength : xs.length = ys.length) : xs = ys :=
  have hsubperm := List.subperm_of_subset hxs.nodup hsubset
  (List.sublist_of_subperm_of_pairwise hsubperm hxs hys).eq_of_length hlength

end BoundQuery.Text
