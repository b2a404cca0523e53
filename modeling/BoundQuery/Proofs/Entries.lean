/-
# Entries in order

What is stored in a map keeps its entries in ascending order of their keys. So a map is what is stored
when its entries are put in one after the other.

Main statements: `Ordered.insert`, `ofList_of_ordered`, `union_comm`, `filter_union_eq_self`.
-/

import BoundQuery.Entries

namespace BoundQuery.Entries

variable {α β : Type}

/-- The keys ascend from each entry to all after it. -/
def Ordered (m : Entries α) : Prop :=
  m.Pairwise fun e f => e.1 < f.1

theorem ordered_nil : Ordered ([] : Entries α) :=
  .nil

theorem lt_of_not_lt {key other : String} (hne : key ≠ other) (h : ¬ key < other) : other < key :=
  Std.lt_of_le_of_ne (String.not_lt.mp h) (Ne.symm hne)

theorem Ordered.insert {m : Entries α} (h : m.Ordered) (key : String) (a : α) :
    (Entries.insert key a m).Ordered := by
  induction m with
  | nil => exact List.pairwise_singleton _ _
  | cons e m ih =>
    obtain ⟨k, b⟩ := e
    obtain ⟨hfirst, hrest⟩ := List.pairwise_cons.mp h
    rw [Entries.insert]
    split
    · rename_i heq
      rw [heq]
      exact List.pairwise_cons.mpr ⟨hfirst, hrest⟩
    · rename_i hne
      split
      · rename_i hlt
        refine List.pairwise_cons.mpr ⟨?_, h⟩
        intro f hf
        rcases List.mem_cons.mp hf with rfl | hf
        · exact hlt
        · exact String.lt_trans hlt (hfirst f hf)
      · rename_i hlt
        refine List.pairwise_cons.mpr ⟨?_, ih hrest⟩
        intro f hf
        rcases mem_insert hf with rfl | hf
        · exact lt_of_not_lt hne hlt
        · exact hfirst f hf

theorem insert_of_lt {m : Entries α} {key : String} (h : ∀ e ∈ m, e.1 < key) (a : α) :
    insert key a m = m ++ [(key, a)] := by
  induction m with
  | nil => rfl
  | cons e m ih =>
    obtain ⟨k, b⟩ := e
    rw [List.forall_mem_cons] at h
    have hne : key ≠ k := by
      rintro rfl
      exact String.lt_irrefl key h.1
    rw [insert, if_neg hne, if_neg (String.lt_asymm h.1), ih h.2, List.cons_append]

/-- Entries in order after those of a map are put in at its end. -/
theorem union_of_ordered {m other : Entries α} (h : Ordered (m ++ other)) :
    m.union other = m ++ other := by
  induction other generalizing m with
  | nil => exact (List.append_nil m).symm
  | cons e other ih =>
    obtain ⟨key, a⟩ := e
    have hlast : ∀ f ∈ m, f.1 < key := by
      intro f hf
      exact (List.pairwise_append.mp h).2.2 f hf (key, a) List.mem_cons_self
    rw [List.append_cons] at h ⊢
    rw [← ih h, ← insert_of_lt hlast a]
    rfl

/-- A map is made of its entries. -/
theorem ofList_of_ordered {m : Entries α} (h : m.Ordered) : ofList m = m :=
  union_of_ordered (m := []) h

/-! ### What is put in under other keys -/

/-- It does not matter which of two keys is put in first. -/
theorem insert_comm {key other : String} (h : key ≠ other) (a b : α) (m : Entries α) :
    insert key a (insert other b m) = insert other b (insert key a m) := by
  have hasymm : key < other → ¬ other < key := fun hlt => String.lt_asymm hlt
  have htotal : ¬ key < other → other < key := fun hlt => lt_of_not_lt h hlt
  induction m with
  | nil =>
    simp only [insert, if_neg h, if_neg h.symm]
    grind
  | cons e m ih =>
    obtain ⟨k, c⟩ := e
    have hkey : key < k → k < other → key < other := String.lt_trans
    have hother : other < k → k < key → other < key := String.lt_trans
    have hk : key ≠ k → ¬ key < k → k < key := lt_of_not_lt
    have hk' : other ≠ k → ¬ other < k → k < other := lt_of_not_lt
    simp only [insert]
    grind [insert]

theorem union_append (m : Entries α) (left right : List (String × α)) :
    m.union (left ++ right) = (m.union left).union right :=
  List.foldl_append

theorem insert_union_comm {key : String} {other : List (String × α)} (a : α)
    (h : key ∉ other.map Prod.fst) (m : Entries α) :
    (insert key a m).union other = insert key a (m.union other) := by
  induction other generalizing m with
  | nil => rfl
  | cons e other ih =>
    obtain ⟨k, b⟩ := e
    rw [List.map_cons, List.mem_cons, not_or] at h
    have hswap := ih h.2 (insert k b m)
    rw [insert_comm h.1] at hswap
    exact hswap

/-- It does not matter which of two groups of entries is put in first, if they share no key. -/
theorem union_comm {left right : List (String × α)}
    (h : ∀ key ∈ left.map Prod.fst, key ∉ right.map Prod.fst) (m : Entries α) :
    (m.union left).union right = (m.union right).union left := by
  induction left generalizing m with
  | nil => rfl
  | cons e left ih =>
    obtain ⟨k, a⟩ := e
    rw [List.map_cons, List.forall_mem_cons] at h
    calc
      (m.union ((k, a) :: left)).union right = ((insert k a m).union right).union left :=
        ih h.2 (insert k a m)
      _ = (insert k a (m.union right)).union left := by rw [insert_union_comm a h.1]
      _ = (m.union right).union ((k, a) :: left) := rfl

/-- Without its key, an entry leaves no trace. -/
theorem filter_insert {p : String → Bool} {key : String} (h : p key = false) (a : α)
    (m : Entries α) :
    (insert key a m).filter (fun e => p e.1) = m.filter fun e => p e.1 := by
  induction m with
  | nil => simp [insert, h]
  | cons e m ih =>
    obtain ⟨k, b⟩ := e
    rw [insert]
    split
    · rename_i heq
      subst heq
      simp [h]
    · split
      · simp [h]
      · rw [List.filter_cons, List.filter_cons, ih]

/-- Without their keys, a group of entries leaves no trace. -/
theorem filter_union {p : String → Bool} {other : List (String × α)}
    (h : ∀ key ∈ other.map Prod.fst, p key = false) (m : Entries α) :
    (m.union other).filter (fun e => p e.1) = m.filter fun e => p e.1 := by
  induction other generalizing m with
  | nil => rfl
  | cons e other ih =>
    obtain ⟨k, a⟩ := e
    rw [List.map_cons, List.forall_mem_cons] at h
    exact (ih h.2 (insert k a m)).trans (filter_insert h.1 a m)

/-- To take the keys of a group of entries away is to undo their union with what has none of these
keys. -/
theorem filter_union_eq_self {p : String → Bool} {m : Entries α} {other : List (String × α)}
    (hm : ∀ e ∈ m, p e.1 = true) (h : ∀ key ∈ other.map Prod.fst, p key = false) :
    (m.union other).filter (fun e => p e.1) = m :=
  (filter_union h m).trans (List.filter_eq_self.mpr hm)

/-- What is in a union was there before, or was put in. -/
theorem mem_union {m : Entries α} {other : List (String × α)} {e : String × α}
    (h : e ∈ m.union other) : e ∈ m ∨ e ∈ other := by
  induction other generalizing m with
  | nil => exact .inl h
  | cons f other ih =>
    obtain ⟨k, a⟩ := f
    rcases ih h with h | h
    · rcases mem_insert h with rfl | h
      · exact .inr List.mem_cons_self
      · exact .inl h
    · exact .inr (List.mem_cons_of_mem _ h)

theorem Ordered.map {m : Entries α} (h : m.Ordered) (f : α → β) :
    Ordered (m.map fun (k, a) => (k, f a)) :=
  List.pairwise_map.mpr h

end BoundQuery.Entries
