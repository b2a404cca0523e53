/-
# Computations that may fail

When a computation put together from others succeeds, its parts do, and when it fails, one of them
does. A computation with a state goes on with the state that its first part left, and fails with it.
-/

import Mathlib.Init

namespace BoundQuery

variable {ε σ α β : Type}

theorem map_eq_ok_iff {f : α → β} {x : Except ε α} {b : β} :
    x.map f = .ok b ↔ ∃ a, x = .ok a ∧ f a = b := by
  cases x with
  | error e => simp [Except.map]
  | ok a => simp [Except.map]

theorem map_eq_error_iff {f : α → β} {x : Except ε α} {e : ε} :
    x.map f = .error e ↔ x = .error e := by
  cases x with
  | error e' => simp [Except.map]
  | ok a => simp [Except.map]

theorem bind_eq_ok_iff {x : Except ε α} {f : α → Except ε β} {b : β} :
    x >>= f = .ok b ↔ ∃ a, x = .ok a ∧ f a = .ok b := by
  cases x with
  | error e => simp [bind, Except.bind]
  | ok a => simp [bind, Except.bind]

/-- A check that succeeds leaves nothing behind. -/
theorem check_bind_eq_ok_iff {check : Except ε Unit} {f : Unit → Except ε β} {b : β} :
    check >>= f = .ok b ↔ check = .ok () ∧ f () = .ok b := by
  cases check with
  | error e => simp [bind, Except.bind]
  | ok a => simp [bind, Except.bind]

theorem toOption_eq_some_iff {x : Except ε α} {a : α} : x.toOption = some a ↔ x = .ok a := by
  cases x with
  | error e => simp [Except.toOption]
  | ok b => simp [Except.toOption]

/-- What went wrong, if anything did. -/
def error? : Except ε α → Option ε
  | .ok _ => none
  | .error e => some e

theorem error?_eq_some_iff {x : Except ε α} {e : ε} : error? x = some e ↔ x = .error e := by
  cases x with
  | error e' => simp [error?]
  | ok a => simp [error?]

theorem exists_of_any {x : Except ε α} {p : α → Bool} (h : x.toOption.any p = true) :
    ∃ a, x = .ok a ∧ p a = true := by
  cases x with
  | error e => cases h
  | ok a => exact ⟨a, rfl, h⟩

theorem bind_eq_error_iff {x : Except ε α} {f : α → Except ε β} {e : ε} :
    x >>= f = .error e ↔ x = .error e ∨ ∃ a, x = .ok a ∧ f a = .error e := by
  cases x with
  | error e' => simp [bind, Except.bind]
  | ok a => simp [bind, Except.bind]

/-- A run that fails does so at one of its steps, and all before it succeed. -/
theorem foldlM_eq_error {f : β → α → Except ε β} {l : List α} {b : β} {e : ε}
    (h : l.foldlM f b = .error e) :
    ∃ before a after c, l = before ++ a :: after ∧ before.foldlM f b = .ok c ∧
      f c a = .error e := by
  induction l generalizing b with
  | nil => cases h
  | cons a l ih =>
    rw [List.foldlM_cons] at h
    rcases bind_eq_error_iff.mp h with hstep | ⟨c, hstep, h⟩
    · exact ⟨[], a, l, b, rfl, rfl, hstep⟩
    · obtain ⟨before, a', after, d, rfl, hbefore, hfails⟩ := ih h
      refine ⟨a :: before, a', after, d, rfl, ?_, hfails⟩
      rw [List.foldlM_cons]
      exact bind_eq_ok_iff.mpr ⟨c, hstep, hbefore⟩

/-- If each member of a list has an image that leads back to it, so has the list. -/
theorem exists_mapM {f : α → Except ε β} {g : β → α} {p : β → Prop} {l : List α}
    (h : ∀ a ∈ l, ∃ b, f a = .ok b ∧ p b ∧ g b = a) :
    ∃ bs, l.mapM f = .ok bs ∧ (∀ b ∈ bs, p b) ∧ bs.map g = l := by
  induction l with
  | nil => exact ⟨[], rfl, by simp, rfl⟩
  | cons a l ih =>
    obtain ⟨⟨b, hb, hpb, hback⟩, hrest⟩ := List.forall_mem_cons.mp h
    obtain ⟨bs, hbs, hpbs, hbacks⟩ := ih hrest
    refine ⟨b :: bs, ?_, List.forall_mem_cons.mpr ⟨hpb, hpbs⟩, ?_⟩
    · rw [List.mapM_cons, hb, hbs]
      rfl
    · rw [List.map_cons, hback, hbacks]

theorem pure_apply (a : α) (s : σ) : (pure a : ExceptT ε (StateM σ) α) s = (.ok a, s) := rfl

theorem bind_apply (m : ExceptT ε (StateM σ) α) (f : α → ExceptT ε (StateM σ) β) (s : σ) :
    (m >>= f) s =
      match m s with
      | (.ok a, s) => f a s
      | (.error e, s) => (.error e, s) := by
  change ExceptT.bindCont f (m s).1 (m s).2 = _
  rcases m s with ⟨result, s⟩
  cases result <;> rfl

theorem bind_apply_eq_ok_iff {m : ExceptT ε (StateM σ) α} {f : α → ExceptT ε (StateM σ) β}
    {s s' : σ} {b : β} :
    (m >>= f) s = (.ok b, s') ↔ ∃ a mid, m s = (.ok a, mid) ∧ f a mid = (.ok b, s') := by
  rw [bind_apply]
  constructor
  · intro h
    split at h
    · rename_i a mid hm
      exact ⟨a, mid, hm, h⟩
    · cases h
  · rintro ⟨a, mid, hm, h⟩
    rw [hm]
    exact h

end BoundQuery
