/-
# Keyed entries

A finite map from texts, held as the list of its entries in ascending order of the keys, which is
the order of code points. Each map has one list of entries, so maps are equal when their lists are.
Main statements: `find?_insert_self`, `find?_insert_of_ne`.
-/

namespace BoundQuery

/-- The entries of a map with text keys, in ascending order of the keys. -/
abbrev Entries (α : Type) := List (String × α)

namespace Entries

variable {α β : Type}

/-- The value stored under `key`. -/
def find? (key : String) : Entries α → Option α
  | [] => none
  | (k, a) :: rest => if key = k then some a else find? key rest

/-- Stores `a` under `key`, in place of what was stored there. -/
def insert (key : String) (a : α) : Entries α → Entries α
  | [] => [(key, a)]
  | (k, b) :: rest =>
    if key = k then (key, a) :: rest
    else if key < k then (key, a) :: (k, b) :: rest
    else (k, b) :: insert key a rest

/-- The map with the given entries; of several with one key the last counts. -/
def ofList (entries : List (String × α)) : Entries α :=
  entries.foldl (fun m (k, a) => insert k a m) []

/-- All of `m`, and on top of it all of `other`. -/
def union (m other : Entries α) : Entries α :=
  other.foldl (fun m (k, a) => insert k a m) m

/-- The keys in ascending order. -/
def keys (m : Entries α) : List String :=
  m.map Prod.fst

/-- Whether something is stored under `key`. -/
def contains (key : String) (m : Entries α) : Bool :=
  (find? key m).isSome

/-! ### Laws -/

@[simp] theorem find?_nil (key : String) : find? key ([] : Entries α) = none := rfl

@[simp] theorem find?_insert_self (key : String) (a : α) (m : Entries α) :
    find? key (insert key a m) = some a := by
  induction m with
  | nil => simp [insert, find?]
  | cons e m ih =>
    obtain ⟨k, b⟩ := e
    by_cases h : key = k
    · simp [insert, find?, h]
    · by_cases hlt : key < k
      · simp [insert, find?, h, hlt]
      · simp [insert, find?, h, hlt, ih]

theorem find?_insert_of_ne {key other : String} (h : other ≠ key) (a : α) (m : Entries α) :
    find? other (insert key a m) = find? other m := by
  induction m with
  | nil => simp [insert, find?, h]
  | cons e m ih =>
    obtain ⟨k, b⟩ := e
    by_cases hk : key = k
    · subst hk; simp [insert, find?, h]
    · by_cases hlt : key < k
      · simp [insert, find?, h, hk, hlt]
      · by_cases ho : other = k
        · subst ho; simp [insert, find?, hk, hlt]
        · simp [insert, find?, hk, hlt, ho, ih]

theorem find?_map (f : α → β) (key : String) (m : Entries α) :
    find? key (m.map fun (k, a) => (k, f a)) = (find? key m).map f := by
  induction m with
  | nil => rfl
  | cons e m ih =>
    obtain ⟨k, a⟩ := e
    by_cases h : key = k
    · simp [find?, h]
    · simp only [List.map_cons, find?, h, if_false]
      exact ih

/-- To change what is stored is to store what was changed. -/
theorem map_insert (f : α → β) (key : String) (a : α) (m : Entries α) :
    (insert key a m).map (fun (k, a) => (k, f a)) =
      insert key (f a) (m.map fun (k, a) => (k, f a)) := by
  induction m with
  | nil => rfl
  | cons e m ih =>
    obtain ⟨k, b⟩ := e
    rw [List.map_cons, insert, insert]
    split
    · rfl
    · split
      · rfl
      · rw [List.map_cons, ih]

theorem map_union (f : α → β) (m other : Entries α) :
    (union m other).map (fun (k, a) => (k, f a)) =
      union (m.map fun (k, a) => (k, f a)) (other.map fun (k, a) => (k, f a)) := by
  induction other generalizing m with
  | nil => rfl
  | cons e other ih =>
    obtain ⟨k, a⟩ := e
    exact (ih (insert k a m)).trans (congrArg (union · _) (map_insert f k a m))

theorem mem_of_find? {key : String} {m : Entries α} {a : α} (h : find? key m = some a) :
    (key, a) ∈ m := by
  induction m with
  | nil => simp at h
  | cons e m ih =>
    obtain ⟨k, b⟩ := e
    by_cases hk : key = k
    · simp only [find?, hk, if_true, Option.some.injEq] at h
      simp [hk, h]
    · simp only [find?, hk, if_false] at h
      exact List.mem_cons_of_mem _ (ih h)

/-- What is stored is what was stored before, or what was put in. -/
theorem mem_insert {key : String} {a : α} {m : Entries α} {e : String × α}
    (h : e ∈ insert key a m) : e = (key, a) ∨ e ∈ m := by
  induction m with
  | nil => simpa [insert] using h
  | cons f m ih =>
    obtain ⟨k, b⟩ := f
    rw [insert] at h
    split at h
    · rcases List.mem_cons.mp h with h | h
      · exact .inl h
      · exact .inr (List.mem_cons_of_mem _ h)
    · split at h
      · exact List.mem_cons.mp h
      · rcases List.mem_cons.mp h with h | h
        · exact .inr (List.mem_cons.mpr (.inl h))
        · exact (ih h).imp_right (List.mem_cons_of_mem _)

end Entries

end BoundQuery
