/-
# Items of values

Sequences and strings have positions, and under a whole number that is none of them they have nothing.
Under several keys, one after the other, a lookup goes on until a step fails, and there is only one step
at which it does.

Main statements: `item_beyond`, `exists_failsAt`, `FailsAt.unique`.
-/

import BoundQuery.Function.Access
import BoundQuery.Proofs.Fallible
import Mathlib.Control.Monad.Basic

namespace BoundQuery.Value

/-! ### Positions -/

/-- What has positions, and how many: sequences by their items and strings by their bytes. -/
def positions? : Value → Option Nat
  | seq items => some items.length
  | string s => some (Text.utf8Length s.toList)
  | _ => none

/-- The key is a signed number, and the value is a sequence. -/
def signedAtSequence : Value → Value → Bool
  | seq _, int _ => true
  | _, _ => false

theorem signedAtSequence_iff {v key : Value} :
    v.signedAtSequence key = true ↔ ∃ items i, v = seq items ∧ key = int i := by
  constructor
  · intro h
    unfold signedAtSequence at h
    split at h
    · exact ⟨_, _, rfl, rfl⟩
    · cases h
  · rintro ⟨items, i, rfl, rfl⟩
    rfl

theorem checkIndex_eq_ok_iff {length j : Nat} {i : Int} :
    checkIndex length i = .ok j ↔ (0 ≤ i ∧ i < length) ∧ i.toNat = j := by
  unfold checkIndex
  split
  · rename_i h
    simp [h]
  · rename_i h
    simp [h]

theorem checkIndex_of_not {length : Nat} {i : Int} (h : ¬ (0 ≤ i ∧ i < length)) :
    checkIndex length i = .error (.outOfRange i) :=
  if_neg h

/-- A signed number under which a sequence has nothing is beyond it. -/
theorem not_position_of_item {items : List Value} {i : Int64} {fault : CallFault}
    (h : (seq items).item (int i) = .error fault) : ¬ (0 ≤ i.toInt ∧ i.toInt < items.length) := by
  intro hrange
  have hindex : checkIndex items.length i.toInt = .ok i.toInt.toNat :=
    checkIndex_eq_ok_iff.mpr ⟨hrange, rfl⟩
  change (checkIndex items.length i.toInt >>= fun j => pure (items.getD j null)) = _ at h
  rw [hindex] at h
  cases h

theorem isNull_of_item {v key next : Value} (h : v.item key = .ok next) : v.isNull = false := by
  cases v with
  | null => cases h
  | _ => rfl

/-- What the builtin function says of a whole number that is no position. -/
theorem item_beyond {v key : Value} {n : Nat} {k : Int} (hv : v.positions? = some n)
    (hkey : key.integer? = some k) (hout : ¬ (0 ≤ k ∧ k < n)) :
    v.item key = .error (.outOfRange k) := by
  have hindex : (key.asIndex >>= fun i => checkIndex n i) = .error (.outOfRange k) := by
    cases key with
    | int i =>
      cases hkey
      exact checkIndex_of_not hout
    | uint u =>
      cases hkey
      rfl
    | _ => cases hkey
  cases v with
  | seq items =>
    cases hv
    change (key.asIndex >>= fun i => checkIndex items.length i >>= _) = _
    rw [← bind_assoc, hindex]
    rfl
  | string s =>
    cases hv
    change (key.asIndex >>= fun i => checkIndex (Text.utf8Length s.toList) i >>= _) = _
    rw [← bind_assoc, hindex]
    rfl
  | _ => cases hv

/-! ### Several keys -/

/-- The first step of a lookup that fails: it comes to `item`, which has nothing under `key`. Of a step
that does not fail the result takes the place of the item and its key. -/
inductive FailsAt : List Value → Value → Value → Prop
  | here {item key : Value} {fault : CallFault} (keys : List Value) :
    item.item key = .error fault → FailsAt (item :: key :: keys) item key
  | later {v k next item key : Value} {keys : List Value} :
    v.item k = .ok next → FailsAt (next :: keys) item key → FailsAt (v :: k :: keys) item key

variable {v item item' key key' : Value} {keys args : List Value} {fault : CallFault}

/-- A lookup that fails has a first step that does. -/
theorem exists_failsAt (h : v.itemAt keys = .error fault) :
    ∃ item key, FailsAt (v :: keys) item key := by
  induction keys generalizing v with
  | nil => cases h
  | cons k keys ih =>
    rcases bind_eq_error_iff.mp h with hitem | ⟨next, hnext, hrest⟩
    · exact ⟨v, k, .here keys hitem⟩
    · obtain ⟨item, key, hfails⟩ := ih hrest
      exact ⟨item, key, .later hnext hfails⟩

/-- There is no other first step. -/
theorem FailsAt.unique (h : FailsAt args item key) (h' : FailsAt args item' key') :
    item' = item ∧ key' = key := by
  induction h with
  | here keys hitem =>
    cases h' with
    | here => exact ⟨rfl, rfl⟩
    | later hnext =>
      rw [hitem] at hnext
      cases hnext
  | later hnext _ ih =>
    cases h' with
    | here _ hitem =>
      rw [hnext] at hitem
      cases hitem
    | later hnext' hrest =>
      rw [hnext] at hnext'
      cases hnext'
      exact ih hrest

end BoundQuery.Value
