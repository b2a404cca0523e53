/-
# Which templates call which

The root of a template and its definitions call definitions by their names. If no definition comes
back to itself along such calls, each call leads to fewer definitions than there were before it.

Main statements: `card_below_lt`, `Acyclic.capture_iterate`.
-/

import BoundQuery.Proofs.Template.Captured
import Mathlib.Data.Finset.Card
import Mathlib.Data.Finset.Filter
import Mathlib.Data.Finset.Dedup
import Mathlib.Logic.Relation
import Mathlib.Order.WithBot

namespace BoundQuery

namespace Template

/-- The template that a node calls. -/
def Node.callee? : Node → Option String
  | .invoke _ name _ => some name
  | _ => none

/-- The templates that nodes call, at any depth. -/
def callees (nodes : List Node) : List String :=
  (nodesWithin nodes).filterMap Node.callee?

/-- The body of the first, which is the root or a definition, calls the second, which is defined. -/
def Calls (t : Template) (caller called : Option String) : Prop :=
  ∃ nodes name, t.body? caller = some nodes ∧ name ∈ callees nodes ∧ called = some name ∧
    (t.body? called).isSome

/-- No template comes back to itself by calls. -/
def Acyclic (t : Template) : Prop :=
  ∀ a, ¬ Relation.TransGen t.Calls a a

variable {t : Template}

/-! ### Templates further on -/

/-- No template comes back to itself if calls of definitions go down in rank. -/
theorem acyclic_of_rank (rank : String → Nat)
    (h : ∀ name nodes, Entries.find? name t.definitions = some nodes →
      ∀ callee ∈ callees nodes, (Entries.find? callee t.definitions).isSome →
        rank callee < rank name) : t.Acyclic := by
  -- The root, which nothing calls, is above all definitions.
  let height (a : Option String) : WithTop Nat := a.elim ⊤ fun name => rank name
  have hcall : ∀ {a b}, t.Calls a b → height b < height a := by
    rintro a b ⟨nodes, callee, hbody, hcallee, rfl, hdefined⟩
    cases a with
    | none => exact WithTop.coe_lt_top _
    | some name => exact WithTop.coe_lt_coe.mpr (h name nodes hbody callee hcallee hdefined)
  have hpath : ∀ {a b}, Relation.TransGen t.Calls a b → height b < height a := by
    intro a b hpath
    induction hpath with
    | single hlast => exact hcall hlast
    | tail _ hlast ih => exact (hcall hlast).trans ih
  exact fun a hcircle => lt_irrefl _ (hpath hcircle)

/-- The definitions that one comes to by calls from a template. -/
noncomputable def below (t : Template) (a : Option String) : Finset String := by
  classical
  exact (t.definitions.map Prod.fst).toFinset.filter fun name =>
    Relation.TransGen t.Calls a (some name)

theorem mem_below {a : Option String} {name : String} :
    name ∈ t.below a ↔
      name ∈ t.definitions.map Prod.fst ∧ Relation.TransGen t.Calls a (some name) := by
  classical
  simp only [below, Finset.mem_filter, List.mem_toFinset]

theorem card_below_le (t : Template) (a : Option String) :
    (t.below a).card ≤ t.definitions.length := by
  classical
  calc (t.below a).card
      ≤ (t.definitions.map Prod.fst).toFinset.card := Finset.card_filter_le _ _
    _ ≤ (t.definitions.map Prod.fst).length := List.toFinset_card_le _
    _ = t.definitions.length := List.length_map ..

/-- Without circles a call leads to fewer definitions. -/
theorem card_below_lt (hacyclic : t.Acyclic) {a : Option String} {nodes body : List Node}
    {name : String} (hnodes : t.body? a = some nodes) (hname : name ∈ callees nodes)
    (hbody : t.body? (some name) = some body) :
    (t.below (some name)).card < (t.below a).card := by
  have hcall : t.Calls a (some name) :=
    ⟨nodes, name, hnodes, hname, rfl, Option.isSome_iff_exists.mpr ⟨body, hbody⟩⟩
  have hmem : name ∈ t.below a :=
    mem_below.mpr ⟨List.mem_map.mpr ⟨_, Entries.mem_of_find? hbody, rfl⟩, .single hcall⟩
  refine Finset.card_lt_card ⟨?_, ?_⟩
  · intro other hother
    obtain ⟨hdefined, hpath⟩ := mem_below.mp hother
    exact mem_below.mpr ⟨hdefined, .head hcall hpath⟩
  · intro hsubset
    obtain ⟨-, hcircle⟩ := mem_below.mp (hsubset hmem)
    exact hacyclic _ hcircle

/-! ### Captured templates -/

mutual

theorem callees_tree_capture : ∀ (loop earlier : List String) (n : Node),
    (n.capture loop earlier).tree.filterMap Node.callee? = n.tree.filterMap Node.callee?
  | _, _, .text _ => rfl
  | loop, earlier, .action p => by
    rw [Node.capture_action]
    rfl
  | loop, earlier, .control kind pos p body otherwise => by
    simp only [Node.capture, Node.tree, List.filterMap_cons, List.filterMap_append, Node.callee?]
    exact congrArg₂ (· ++ ·) (callees_capture _ _ body) (callees_otherwise_capture loop otherwise)
  | _, _, .invoke _ _ _ => rfl
  | _, _, .jump _ _ => rfl

theorem callees_capture : ∀ (loop earlier : List String) (nodes : List Node),
    callees (captureNodes loop earlier nodes) = callees nodes
  | _, _, [] => rfl
  | loop, earlier, n :: rest => by
    simp only [callees, captureNodes, nodesWithin, List.filterMap_append]
    exact congrArg₂ (· ++ ·) (callees_tree_capture loop earlier n) (callees_capture loop _ rest)

theorem callees_otherwise_capture : ∀ (loop : List String) (otherwise : Option (List Node)),
    (nodesOtherwise (captureOtherwise loop otherwise)).filterMap Node.callee? =
      (nodesOtherwise otherwise).filterMap Node.callee?
  | _, none => rfl
  | loop, some nodes => callees_capture loop [] nodes

end

theorem Calls.of_capture {a b : Option String} (h : t.capture.Calls a b) : t.Calls a b := by
  obtain ⟨nodes, name, hbody, hname, rfl, hdefined⟩ := h
  rw [body?_capture] at hbody hdefined
  obtain ⟨source, hsource, rfl⟩ := Option.map_eq_some_iff.mp hbody
  rw [callees_capture] at hname
  exact ⟨source, name, hsource, hname, rfl, by simpa using hdefined⟩

theorem Acyclic.capture (h : t.Acyclic) : t.capture.Acyclic := by
  have hcalls : t.capture.Calls ≤ t.Calls := fun a b => Calls.of_capture
  exact fun a hcircle => h a (Relation.TransGen.mono hcalls a a hcircle)

theorem Acyclic.capture_iterate (h : t.Acyclic) (times : Nat) :
    (Template.capture^[times] t).Acyclic := by
  induction times with
  | zero => exact h
  | succ times ih =>
    rw [Function.iterate_succ_apply']
    exact ih.capture

theorem length_definitions_capture_iterate (t : Template) (times : Nat) :
    (Template.capture^[times] t).definitions.length = t.definitions.length := by
  induction times with
  | zero => rfl
  | succ times ih =>
    rw [Function.iterate_succ_apply', Template.capture, List.length_map]
    exact ih

end Template

end BoundQuery
