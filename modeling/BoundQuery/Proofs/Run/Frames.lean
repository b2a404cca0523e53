/-
# Variables over a run

What the nodes of a template make of the variables in scope. An action adds the variables that it
declares. A control structure and a call leave the variables that were there, in their order, each
with its old value unless something inside assigned to it. The one exception is a loop that has
nothing to run over: what the nodes after its `else` declare stays in scope.

Main statements: `grows_walkNode`, `keeps_walkNode`, `variables_after_node`.
-/

import Mathlib.Data.List.Forall2
import BoundQuery.Proofs.Run.Tracking

namespace BoundQuery.Run

open Template (Node Pipeline Jump Control Site)
open Text (Pos)

variable {R S : Site → Prop}

/-! ### One variable -/

namespace Slot

/-- The site of the pipeline that set the variable last. -/
def lastSetAt (slot : Slot) : Option Site :=
  slot.assignedAt.head?.or slot.declaredAt

/-- A variable before and after a part of a run. All that assigned to it on the way stands in `R`; if
nothing did, the value is the same. -/
structure Kept (R : Site → Prop) (before after : Slot) : Prop where
  name : after.name = before.name
  declaredAt : after.declaredAt = before.declaredAt
  assignedAt : ∃ sites, after.assignedAt = sites ++ before.assignedAt ∧ (∀ site ∈ sites, R site) ∧
    (sites = [] → after.value = before.value)

/-- A variable that only pipelines in `R` set. -/
structure From (R : Site → Prop) (slot : Slot) : Prop where
  declaredAt : ∃ site, slot.declaredAt = some site ∧ R site
  assignedAt : ∀ site ∈ slot.assignedAt, R site

variable {a b c : Slot}

theorem kept_refl (R : Site → Prop) (slot : Slot) : slot.Kept R slot :=
  ⟨rfl, rfl, [], rfl, by simp, fun _ => rfl⟩

theorem Kept.trans (h : a.Kept R b) (h' : b.Kept R c) : a.Kept R c := by
  obtain ⟨sites, hsites, hR, hvalue⟩ := h.assignedAt
  obtain ⟨sites', hsites', hR', hvalue'⟩ := h'.assignedAt
  refine ⟨h'.name.trans h.name, h'.declaredAt.trans h.declaredAt, sites' ++ sites, ?_, ?_, ?_⟩
  · rw [hsites', hsites, List.append_assoc]
  · intro site hsite
    exact (List.mem_append.mp hsite).elim (hR' site) (hR site)
  · intro hnil
    obtain ⟨hnil', hnil⟩ := List.append_eq_nil_iff.mp hnil
    exact (hvalue' hnil').trans (hvalue hnil)

theorem Kept.mono (hRS : ∀ site, R site → S site) (h : a.Kept R b) : a.Kept S b := by
  obtain ⟨sites, hsites, hR, hvalue⟩ := h.assignedAt
  exact ⟨h.name, h.declaredAt, sites, hsites, fun site hsite => hRS site (hR site hsite), hvalue⟩

theorem From.mono (hRS : ∀ site, R site → S site) (h : a.From R) : a.From S := by
  obtain ⟨site, hsite, hR⟩ := h.declaredAt
  exact ⟨⟨site, hsite, hRS site hR⟩, fun site hsite => hRS site (h.assignedAt site hsite)⟩

theorem From.kept (h : a.From R) (hkept : a.Kept R b) : b.From R := by
  obtain ⟨sites, hsites, hR, -⟩ := hkept.assignedAt
  refine ⟨hkept.declaredAt ▸ h.declaredAt, ?_⟩
  intro site hsite
  rw [hsites] at hsite
  exact (List.mem_append.mp hsite).elim (hR site) (h.assignedAt site)

theorem From.lastSetAt (h : a.From R) : ∃ site, a.lastSetAt = some site ∧ R site := by
  unfold Slot.lastSetAt
  cases hassigned : a.assignedAt with
  | nil => exact h.declaredAt
  | cons site rest => exact ⟨site, rfl, h.assignedAt site (by simp [hassigned])⟩

/-- A variable was set last where it was set before, or in `R`. -/
theorem Kept.lastSetAt (h : a.Kept R b) :
    b.lastSetAt = a.lastSetAt ∨ ∃ site, b.lastSetAt = some site ∧ R site := by
  obtain ⟨sites, hsites, hR, -⟩ := h.assignedAt
  unfold Slot.lastSetAt
  rw [hsites, h.declaredAt]
  cases sites with
  | nil => exact .inl rfl
  | cons site rest => exact .inr ⟨site, rfl, hR site (by simp)⟩

end Slot

/-! ### All variables in scope -/

/-- The same variables in the same order. All that assigned to them on the way stands in `R`. -/
def SameSlots (R : Site → Prop) : List Slot → List Slot → Prop :=
  List.Forall₂ (Slot.Kept R)

/-- The variables that were there, and on top of them new ones. All that set variables on the way
stands in `R`. -/
inductive Grown (R : Site → Prop) (before : List Slot) : List Slot → Prop
  | same {after : List Slot} : SameSlots R before after → Grown R before after
  | declare {slot : Slot} {after : List Slot} :
      slot.From R → Grown R before after → Grown R before (slot :: after)

/-- A name stands for a variable that was set last in `R`. -/
def SetWithin (R : Site → Prop) (name : String) (slots : List Slot) : Prop :=
  ∃ slot site, findSlot? name slots = some slot ∧ slot.lastSetAt = some site ∧ R site

/-- New variables may have come, and each of the names stands for a variable that was set last in
`R`. -/
structure Sets (R : Site → Prop) (names : List String) (before after : List Slot) : Prop where
  grown : Grown R before after
  set : ∀ name ∈ names, SetWithin R name after

section Slots

variable {before mid after : List Slot} {name : String}

theorem findSlot?_eq_none_iff {slots : List Slot} :
    findSlot? name slots = none ↔ name ∉ slots.map Slot.name := by
  simp [findSlot?]

/-- The variable that a name stands for has the value that evaluation finds. -/
theorem lookup_binding (name : String) (slots : List Slot) :
    (slots.map Slot.binding).lookup name = (findSlot? name slots).map Slot.value := by
  induction slots with
  | nil => rfl
  | cons slot rest ih =>
    rw [List.map_cons, Slot.binding, List.lookup_cons, findSlot?]
    by_cases h : slot.name = name
    · rw [List.find?_cons_of_pos (by simpa using h)]
      simp [h]
    · rw [List.find?_cons_of_neg (by simpa using h), beq_eq_false_iff_ne.mpr (Ne.symm h)]
      exact ih

theorem sameSlots_refl (R : Site → Prop) (slots : List Slot) : SameSlots R slots slots :=
  List.forall₂_same.mpr fun slot _ => slot.kept_refl R

theorem SameSlots.trans (h : SameSlots R before mid) (h' : SameSlots R mid after) :
    SameSlots R before after := by
  induction h generalizing after with
  | nil => exact h'
  | cons hslot _ ih =>
    cases h' with
    | cons hslot' hrest' => exact .cons (hslot.trans hslot') (ih hrest')

theorem SameSlots.mono (hRS : ∀ site, R site → S site) (h : SameSlots R before after) :
    SameSlots S before after :=
  h.imp fun _ _ hslot => hslot.mono hRS

theorem SameSlots.names (h : SameSlots R before after) :
    after.map Slot.name = before.map Slot.name := by
  induction h with
  | nil => rfl
  | cons hslot _ ih => rw [List.map_cons, List.map_cons, hslot.name, ih]

theorem grown_refl (R : Site → Prop) (slots : List Slot) : Grown R slots slots :=
  .same (sameSlots_refl R slots)

theorem Grown.mono (hRS : ∀ site, R site → S site) (h : Grown R before after) :
    Grown S before after := by
  induction h with
  | same h => exact .same (h.mono hRS)
  | declare hslot _ ih => exact .declare (hslot.mono hRS) ih

theorem Grown.trans (h : Grown R before mid) (h' : Grown R mid after) : Grown R before after := by
  induction h' with
  | declare hslot _ ih => exact .declare hslot ih
  | same h' =>
    rename_i after
    induction h generalizing after with
    | same h => exact .same (h.trans h')
    | declare hslot _ ih =>
      cases h' with
      | cons hkept hrest => exact .declare (hslot.kept hkept) (ih hrest)

theorem Grown.length_le (h : Grown R before after) : before.length ≤ after.length := by
  induction h with
  | same h => exact Nat.le_of_eq h.length_eq
  | declare _ _ ih => exact Nat.le_succ_of_le ih

/-- Once the new variables are out of scope, those that were there are left. -/
theorem Grown.keep (h : Grown R before after) :
    SameSlots R before (after.drop (after.length - before.length)) := by
  induction h with
  | same h =>
    rw [h.length_eq, Nat.sub_self, List.drop_zero]
    exact h
  | declare _ hrest ih =>
    rw [List.length_cons, Nat.succ_sub hrest.length_le, List.drop_succ_cons]
    exact ih

/-- A variable that is in scope stays in scope. -/
theorem Grown.findSlot?_eq_none (h : Grown R before after) (hnone : findSlot? name after = none) :
    findSlot? name before = none := by
  rw [findSlot?_eq_none_iff] at hnone ⊢
  induction h with
  | same h => rwa [h.names] at hnone
  | declare _ _ ih => exact ih fun hname => hnone (List.mem_cons_of_mem _ hname)

/-- A name that stands for a variable set last in `S` does so as long as nothing is set outside. -/
theorem SetWithin.grown (hRS : ∀ site, R site → S site) (hgrown : Grown R before after)
    (h : SetWithin S name before) : SetWithin S name after := by
  obtain ⟨slot, site, hfind, hlast, hS⟩ := h
  induction hgrown with
  | same hsame =>
    induction hsame with
    | nil => cases hfind
    | cons hkept _ ih =>
      rename_i a b rest rest' _
      unfold SetWithin findSlot? at *
      by_cases hname : a.name = name
      · rw [List.find?_cons_of_pos (by simpa using hname)] at hfind
        cases hfind
        rw [List.find?_cons_of_pos (by simpa [hkept.name] using hname)]
        rcases hkept.lastSetAt with heq | ⟨site', hlast', hR⟩
        · exact ⟨b, site, rfl, heq.trans hlast, hS⟩
        · exact ⟨b, site', rfl, hlast', hRS site' hR⟩
      · rw [List.find?_cons_of_neg (by simpa using hname)] at hfind
        rw [List.find?_cons_of_neg (by simpa [hkept.name] using hname)]
        exact ih hfind
  | declare hfrom _ ih =>
    rename_i new rest _
    by_cases hname : new.name = name
    · obtain ⟨site', hlast', hR⟩ := hfrom.lastSetAt
      exact ⟨new, site', List.find?_cons_of_pos (by simpa using hname), hlast', hRS site' hR⟩
    · obtain ⟨slot', site', hfind', hlast', hS'⟩ := ih
      refine ⟨slot', site', ?_, hlast', hS'⟩
      rw [findSlot?, List.find?_cons_of_neg (by simpa using hname)]
      exact hfind'

theorem SetWithin.mono (hRS : ∀ site, R site → S site) (h : SetWithin R name before) :
    SetWithin S name before := by
  obtain ⟨slot, site, hfind, hlast, hR⟩ := h
  exact ⟨slot, site, hfind, hlast, hRS site hR⟩

theorem sets_nil (R : Site → Prop) (slots : List Slot) : Sets R [] slots slots :=
  ⟨grown_refl R slots, by simp⟩

theorem Sets.cons {names : List String} (h : Sets R [name] before mid)
    (h' : Sets R names mid after) : Sets R (name :: names) before after := by
  refine ⟨h.grown.trans h'.grown, ?_⟩
  intro other hother
  rcases List.mem_cons.mp hother with rfl | hother
  · exact (h.set other (List.mem_singleton_self _)).grown (fun _ hR => hR) h'.grown
  · exact h'.set other hother

theorem Sets.mono {names : List String} (hRS : ∀ site, R site → S site)
    (h : Sets R names before after) : Sets S names before after :=
  ⟨h.grown.mono hRS, fun name hname => (h.set name hname).mono hRS⟩

end Slots

/-! ### Single steps -/

namespace TrackedWalk

variable {α β : Type} {s s' : Tracked}

/-- Where the walk succeeds, variables may have come. All that set variables stands in `R`. -/
def Grows (R : Site → Prop) (m : TrackedWalk α) : Prop :=
  ∀ ⦃s a s'⦄, m s = (.ok a, s') → Grown R s.slots s'.slots

/-- Where the walk succeeds, the variables are those that were there. All that assigned to them
stands in `R`. -/
def Keeps (R : Site → Prop) (m : TrackedWalk α) : Prop :=
  ∀ ⦃s a s'⦄, m s = (.ok a, s') → SameSlots R s.slots s'.slots

theorem Keeps.grows {m : TrackedWalk α} (h : Keeps R m) : Grows R m :=
  fun _ _ _ hrun => .same (h hrun)

theorem Grows.mono {m : TrackedWalk α} (hRS : ∀ site, R site → S site) (h : Grows R m) :
    Grows S m :=
  fun _ _ _ hrun => (h hrun).mono hRS

theorem keeps_pure (a : α) : Keeps R (pure a : TrackedWalk α) := by
  rintro s _ _ ⟨⟩
  exact sameSlots_refl R s.slots

theorem keeps_fail (pos : Pos) (fault : EvalFault) : Keeps R (fail pos fault : TrackedWalk α) := by
  rintro s _ _ ⟨⟩

theorem keeps_visit (site : Site) : Keeps R (visit site) := by
  rintro s _ _ ⟨⟩
  exact sameSlots_refl R s.slots

theorem keeps_plainly (m : Walk α) : Keeps R (plainly m) := by
  intro s a s' h
  have hslots : s'.slots = s.slots := by
    rw [← congrArg (Tracked.slots ·.2) h]
    rfl
  rw [hslots]
  exact sameSlots_refl R s.slots

theorem keeps_bind {m : TrackedWalk α} {f : α → TrackedWalk β} (hm : Keeps R m)
    (hf : ∀ a, Keeps R (f a)) : Keeps R (m >>= f) := by
  intro s b s' h
  obtain ⟨a, mid, hfirst, hthen⟩ := bind_apply_eq_ok_iff.mp h
  exact (hm hfirst).trans (hf a hthen)

theorem grows_bind {m : TrackedWalk α} {f : α → TrackedWalk β} (hm : Grows R m)
    (hf : ∀ a, Grows R (f a)) : Grows R (m >>= f) := by
  intro s b s' h
  obtain ⟨a, mid, hfirst, hthen⟩ := bind_apply_eq_ok_iff.mp h
  exact (hm hfirst).trans (hf a hthen)

theorem findSlot?_assign? {site : Site} {name : String} {v : Value} {slots slots' : List Slot}
    (h : assign? site name v slots = some slots') :
    SameSlots (· = site) slots slots' ∧ SetWithin (· = site) name slots' := by
  induction slots generalizing slots' with
  | nil => cases h
  | cons slot rest ih =>
    rw [assign?] at h
    split at h
    · rename_i hname
      cases h
      have hassigned : [site] = [] → v = slot.value := fun h => (List.cons_ne_nil _ _ h).elim
      refine ⟨.cons ⟨rfl, rfl, [site], rfl, by simp, hassigned⟩ (sameSlots_refl _ rest), ?_⟩
      exact ⟨_, site, List.find?_cons_of_pos (by simpa using hname), rfl, rfl⟩
    · rename_i hname
      obtain ⟨rest', hrest, rfl⟩ := Option.map_eq_some_iff.mp h
      obtain ⟨hsame, found, last, hfind, hlast⟩ := ih hrest
      refine ⟨.cons (slot.kept_refl _) hsame, found, last, ?_, hlast⟩
      rw [findSlot?, List.find?_cons_of_neg (by simpa using hname)]
      exact hfind

theorem findSlot?_of_assign?_eq_none {site : Site} {name : String} {v : Value} {slots : List Slot}
    (h : assign? site name v slots = none) : findSlot? name slots = none := by
  induction slots with
  | nil => rfl
  | cons slot rest ih =>
    rw [assign?] at h
    split at h
    · cases h
    · rename_i hname
      rw [findSlot?, List.find?_cons_of_neg (by simpa using hname)]
      exact ih (Option.map_eq_none_iff.mp h)

theorem sets_bindVariable {site : Site} {p : Pipeline} {name : String} {v : Value} {u : Unit}
    (h : bind site p name v s = (.ok u, s')) : Sets (· = site) [name] s.slots s'.slots := by
  rw [bind_variable_apply] at h
  split at h
  · split at h
    · rename_i slots hassign
      cases h
      obtain ⟨hsame, hset⟩ := findSlot?_assign? hassign
      exact ⟨.same hsame, by simpa using hset⟩
    · cases h
  · cases h
    have hfrom : Slot.From (· = site) ⟨name, v, some site, []⟩ := ⟨⟨site, rfl, rfl⟩, by simp⟩
    refine ⟨.declare hfrom (grown_refl _ s.slots), ?_⟩
    simp [SetWithin, findSlot?, Slot.lastSetAt]

theorem visits_bindVariable (site : Site) (p : Pipeline) (name : String) (v : Value) (s : Tracked) :
    (bind site p name v s).2.visits = s.visits := by
  rw [bind_variable_apply]
  split
  · split <;> rfl
  · rfl

/-- Only an assignment to a variable that is not in scope fails. -/
theorem bindVariable_eq_error {site : Site} {p : Pipeline} {name : String} {v : Value}
    {e : EvalError} (h : bind site p name v s = (.error e, s')) :
    p.assigns = true ∧ findSlot? name s.slots = none ∧ e = ⟨p.pos, .undefinedVariable name⟩ := by
  rw [bind_variable_apply] at h
  split at h
  · rename_i hassigns
    split at h
    · cases h
    · rename_i hassign
      cases h
      exact ⟨hassigns, findSlot?_of_assign?_eq_none hassign, rfl⟩
  · cases h

theorem sets_bindAll {site : Site} {p : Pipeline} {v : Value} {names : List String} {u : Unit}
    (h : bindAll site p v names s = (.ok u, s')) : Sets (· = site) names s.slots s'.slots := by
  induction names generalizing s with
  | nil =>
    cases h
    exact sets_nil _ _
  | cons name rest ih =>
    obtain ⟨_, mid, hfirst, hrest⟩ := bind_apply_eq_ok_iff.mp h
    exact (sets_bindVariable hfirst).cons (ih hrest)

theorem sets_evaluateAndBind {env : Env} {mode : Mode} {dot v : Value} {site : Site} {p : Pipeline}
    (h : evaluateAndBind env mode dot site p s = (.ok v, s')) :
    Sets (· = site) p.names s.slots s'.slots := by
  obtain ⟨w, mid, heval, h⟩ := bind_apply_eq_ok_iff.mp h
  obtain ⟨_, last, hbind, hpure⟩ := bind_apply_eq_ok_iff.mp h
  cases hpure
  have hslots : mid.slots = s.slots := (congrArg (Tracked.slots ·.2) heval).symm
  exact hslots ▸ sets_bindAll hbind

theorem sets_action {env : Env} {dot : Value} {site : Site} {p : Pipeline} {u : Unit}
    (h : action env dot site p s = (.ok u, s')) : Sets (· = site) p.names s.slots s'.slots := by
  obtain ⟨v, mid, hbind, hwrite⟩ := bind_apply_eq_ok_iff.mp h
  have hsets := sets_evaluateAndBind hbind
  have hslots : s'.slots = mid.slots := by
    split at hwrite
    · cases hwrite
      rfl
    · split at hwrite
      · exact (congrArg (Tracked.slots ·.2) hwrite).symm
      · exact (congrArg (Tracked.slots ·.2) hwrite).symm
  exact hslots ▸ hsets

/-- A round binds the names of its loop, of which there are at most two. -/
theorem sets_bindRound {site : Site} {p : Pipeline} {key item : Value} {u : Unit}
    (h : bindRound site p key item s = (.ok u, s')) :
    Grown (· = site) s.slots s'.slots ∧
      (p.names.length ≤ 2 → Sets (· = site) p.names s.slots s'.slots) := by
  unfold bindRound at h
  rcases hp : p.names with _ | ⟨first, _ | ⟨second, _ | ⟨third, rest⟩⟩⟩
  · rw [hp] at h
    cases h
    exact ⟨grown_refl _ _, fun _ => sets_nil _ _⟩
  · rw [hp] at h
    exact ⟨(sets_bindVariable h).grown, fun _ => sets_bindVariable h⟩
  · rw [hp] at h
    obtain ⟨_, mid, hfirst, hsecond⟩ := bind_apply_eq_ok_iff.mp h
    have hsets := (sets_bindVariable hfirst).cons (sets_bindVariable hsecond)
    exact ⟨hsets.grown, fun _ => hsets⟩
  · rw [hp] at h
    cases h
    exact ⟨grown_refl _ _, fun hle => by simp at hle⟩

/-- All rounds of a loop begin with the variables from before the loop. -/
theorem grows_rounds {site : Site} {p : Pipeline} {body : Value → TrackedWalk (Option Jump)}
    {items : List (Value × Value)} {before : List Slot} {u : Unit}
    (hbody : ∀ item, Grows site.Covers (body item)) (hs : Grown site.Covers before s.slots)
    (h : rounds site p before.length body items s = (.ok u, s')) :
    Grown site.Covers before s'.slots := by
  induction items generalizing s with
  | nil =>
    cases h
    exact hs
  | cons round rest ih =>
    obtain ⟨key, item⟩ := round
    rw [rounds] at h
    obtain ⟨_, kept, hkeep, h⟩ := bind_apply_eq_ok_iff.mp h
    obtain ⟨_, bound, hbind, h⟩ := bind_apply_eq_ok_iff.mp h
    obtain ⟨jump, walked, hwalk, h⟩ := bind_apply_eq_ok_iff.mp h
    cases hkeep
    have hround : Grown site.Covers before walked.slots :=
      (Grown.same hs.keep).trans <|
        ((sets_bindRound hbind).1.mono fun _ => Site.covers_of_eq).trans <|
          hbody item hwalk
    rcases jump with _ | _ | _
    · exact ih hround h
    · cases h
      exact hround
    · exact ih hround h

/-- The variables of a called template do not get out of it. -/
theorem slots_isolated {data : Value} {body : TrackedWalk (Option Jump)} {u : Unit}
    (h : isolated data body s = (.ok u, s')) : s'.slots = s.slots := by
  rw [isolated_apply] at h
  split at h
  · cases h
    rfl
  · cases h

/-! ### Nodes -/

section Control

variable {env : Env} {enter : Enter} {dot : Value} {site : Site} {pos : Pos} {p : Pipeline}
  {body : List Node} {otherwise : Option (List Node)}

theorem keeps_branch {kind : Control} (hkind : kind ≠ .range)
    (hbody : ∀ dot, Grows site.Covers (walkNodes env enter dot site.body body))
    (hotherwise : Grows site.Covers (walkOtherwise env enter dot site.otherwise otherwise)) :
    Keeps site.Covers (walkNode env enter dot site (.control kind pos p body otherwise)) := by
  intro s jump s' h
  rw [walkNode_branch (h := hkind)] at h
  obtain ⟨_, visited, hvisit, h⟩ := bind_apply_eq_ok_iff.mp h
  obtain ⟨count, counted, hcount, h⟩ := bind_apply_eq_ok_iff.mp h
  obtain ⟨v, bound, hbind, h⟩ := bind_apply_eq_ok_iff.mp h
  obtain ⟨flow, walked, hwalk, h⟩ := bind_apply_eq_ok_iff.mp h
  obtain ⟨_, kept, hkeep, h⟩ := bind_apply_eq_ok_iff.mp h
  cases hvisit
  cases hcount
  cases hkeep
  cases h
  have hbound : Grown site.Covers s.slots bound.slots :=
    (sets_evaluateAndBind hbind).grown.mono fun _ => Site.covers_of_eq
  refine (hbound.trans ?_).keep
  unfold branch at hwalk
  split at hwalk
  · exact hbody _ hwalk
  · exact hotherwise hwalk

/-- A loop with something to run over keeps the variables. -/
theorem keeps_loop {round : Value × Value} {rest : List (Value × Value)} {source : Value}
    (hsource : roundsOf? source = some (round :: rest))
    (hbody : ∀ dot, Grows site.Covers (walkNodes env enter dot site.body body)) :
    Keeps site.Covers (loop env enter dot site pos p body otherwise source) := by
  intro s jump s' h
  unfold loop at h
  rw [hsource] at h
  obtain ⟨count, counted, hcount, h⟩ := bind_apply_eq_ok_iff.mp h
  obtain ⟨_, walked, hwalk, h⟩ := bind_apply_eq_ok_iff.mp h
  obtain ⟨_, kept, hkeep, h⟩ := bind_apply_eq_ok_iff.mp h
  cases hcount
  cases hkeep
  cases h
  exact (grows_rounds hbody (grown_refl _ s.slots) hwalk).keep

theorem grows_loop {source : Value}
    (hbody : ∀ dot, Grows site.Covers (walkNodes env enter dot site.body body))
    (hotherwise : Grows site.Covers (walkOtherwise env enter dot site.otherwise otherwise)) :
    Grows site.Covers (loop env enter dot site pos p body otherwise source) := by
  rcases hsource : roundsOf? source with _ | _ | ⟨round, rest⟩
  · unfold loop
    rw [hsource]
    exact (keeps_fail pos _).grows
  · unfold loop
    rw [hsource]
    exact hotherwise
  · exact (keeps_loop hsource hbody).grows

theorem keeps_invoke (name : String) (data : Option Pipeline) :
    Keeps R (walkNode env enter dot site (.invoke pos name data)) := by
  unfold walkNode
  refine keeps_bind (keeps_visit site) fun _ => ?_
  generalize Entries.find? name env.definitions = found
  rcases found with _ | nodes
  · exact keeps_fail pos _
  · cases enter with
    | none => exact keeps_fail pos _
    | some enter =>
      have hrest : ∀ v, Keeps R (isolated v (enter name v nodes) >>= fun _ =>
          (pure none : TrackedWalk (Option Jump))) := by
        intro v
        refine keeps_bind ?_ fun _ => keeps_pure none
        intro s u s' h
        rw [slots_isolated h]
        exact sameSlots_refl R s.slots
      cases data with
      | none => exact keeps_bind (keeps_pure Value.null) hrest
      | some p => exact keeps_bind (keeps_plainly _) hrest

end Control

section Runs

variable {env : Env} {enter : Enter}

mutual

/-- A node adds variables, and gives values to variables, only inside what it covers. -/
theorem grows_walkNode (dot : Value) (site : Site) :
    ∀ n : Node, Grows site.Covers (walkNode env enter dot site n)
  | .text s => (keeps_bind (keeps_visit site) fun _ =>
      keeps_bind (keeps_plainly _) fun _ => keeps_pure none).grows
  | .action p => by
    refine grows_bind (keeps_visit site).grows fun _ => ?_
    refine grows_bind ?_ fun _ => (keeps_pure none).grows
    intro s u s' h
    exact (sets_action h).grown.mono fun _ => Site.covers_of_eq
  | .control kind pos p body otherwise => by
    have hbody (dot : Value) : Grows site.Covers (walkNodes env enter dot site.body body) :=
      (grows_walkNodes dot site.body body).mono fun _ => Site.covers_of_body
    have hotherwise :
        Grows site.Covers (walkOtherwise env enter dot site.otherwise otherwise) :=
      (grows_walkOtherwise dot site.otherwise otherwise).mono fun _ => Site.covers_of_otherwise
    by_cases hkind : kind = .range
    · subst hkind
      rw [walkNode_range]
      refine grows_bind (keeps_visit site).grows fun _ => ?_
      exact grows_bind (keeps_plainly _).grows fun source => grows_loop hbody hotherwise
    · exact (keeps_branch hkind hbody hotherwise).grows
  | .invoke _ name data => (keeps_invoke name data).grows
  | .jump kind _ => (keeps_bind (keeps_visit site) fun _ => keeps_pure (some kind)).grows

theorem grows_walkNodes (dot : Value) (site : Site) :
    ∀ nodes : List Node, Grows site.Encloses (walkNodes env enter dot site nodes)
  | [] => (keeps_pure none).grows
  | n :: rest => by
    have hnode : Grows site.Encloses (walkNode env enter dot site n) :=
      (grows_walkNode dot site n).mono fun _ => site.encloses_refl.covers
    refine grows_bind hnode fun jump => ?_
    cases jump with
    | none => exact grows_walkNodes dot site.next rest
    | some kind => exact (keeps_pure (some kind)).grows

theorem grows_walkOtherwise (dot : Value) (site : Site) :
    ∀ otherwise : Option (List Node),
      Grows site.Encloses (walkOtherwise env enter dot site otherwise)
  | none => (keeps_pure none).grows
  | some nodes => grows_walkNodes dot site nodes

end

/-- After a node the names that it sets stand for variables that were set last inside it. -/
theorem sets_walkNode {dot : Value} {site : Site} {n : Node} {jump : Option Jump}
    (h : walkNode env enter dot site n s = (.ok jump, s')) :
    Sets site.Covers n.namesSet s.slots s'.slots := by
  cases n with
  | action p =>
    obtain ⟨_, visited, hvisit, h⟩ := bind_apply_eq_ok_iff.mp h
    cases hvisit
    obtain ⟨_, walked, haction, hpure⟩ := bind_apply_eq_ok_iff.mp h
    cases hpure
    exact (sets_action haction).mono fun _ => Site.covers_of_eq
  | _ => exact ⟨grows_walkNode dot site _ h, by simp [Node.namesSet]⟩

end Runs

/-! ### After a node -/

/-- The node is a loop with nodes after its `else`, and the loop has nothing to run over. -/
def Idle (env : Env) (dot : Value) (s : State) : Node → Prop
  | .control .range _ p _ (some _) =>
    ∃ source, (Walk.evaluate env .lenient dot p s).1 = .ok source ∧ roundsOf? source = some []
  | _ => False

section Nodes

variable {env : Env} {enter : Enter} {dot : Value} {site : Site} {n : Node} {jump : Option Jump}

/-- Where a loop is run, its source has a value. -/
theorem exists_loop {pos : Pos} {p : Pipeline} {body : List Node} {otherwise : Option (List Node)}
    (h : walkNode env enter dot site (.control .range pos p body otherwise) s = (.ok jump, s')) :
    ∃ source mid, (Walk.evaluate env .lenient dot p s.state).1 = .ok source ∧ mid.slots = s.slots ∧
      loop env enter dot site pos p body otherwise source mid = (.ok jump, s') := by
  rw [walkNode_range] at h
  obtain ⟨_, visited, hvisit, h⟩ := bind_apply_eq_ok_iff.mp h
  cases hvisit
  obtain ⟨source, mid, heval, hloop⟩ := bind_apply_eq_ok_iff.mp h
  exact ⟨source, mid, congrArg Prod.fst heval, (congrArg (Tracked.slots ·.2) heval).symm, hloop⟩

/-- Unless it is an idle loop, a node that is no action leaves the variables that were there. -/
theorem keeps_walkNode (hn : ∀ p, n ≠ .action p) (hidle : ¬ Idle env dot s.state n)
    (h : walkNode env enter dot site n s = (.ok jump, s')) :
    SameSlots site.Covers s.slots s'.slots := by
  cases n with
  | text chars =>
    exact (keeps_bind (keeps_visit site) fun _ =>
      keeps_bind (keeps_plainly _) fun _ => keeps_pure none) h
  | action p => exact absurd rfl (hn p)
  | control kind pos p body otherwise =>
    have hbody (dot : Value) : Grows site.Covers (walkNodes env enter dot site.body body) :=
      (grows_walkNodes dot site.body body).mono fun _ => Site.covers_of_body
    by_cases hkind : kind = .range
    · subst hkind
      obtain ⟨source, mid, hsource, hslots, hloop⟩ := exists_loop h
      rw [← hslots]
      rcases hrounds : roundsOf? source with _ | _ | ⟨round, rest⟩
      · unfold loop at hloop
        rw [hrounds] at hloop
        cases hloop
      · unfold loop at hloop
        rw [hrounds] at hloop
        cases otherwise with
        | none =>
          cases hloop
          exact sameSlots_refl _ _
        | some nodes => exact absurd ⟨source, hsource, hrounds⟩ hidle
      · exact keeps_loop hrounds hbody hloop
    · refine keeps_branch hkind hbody ?_ h
      exact (grows_walkOtherwise dot site.otherwise otherwise).mono fun _ => Site.covers_of_otherwise
  | invoke pos name data => exact keeps_invoke name data h
  | jump kind pos => exact (keeps_bind (keeps_visit site) fun _ => keeps_pure (some kind)) h

/-- An idle loop adds variables that nodes after its `else` declare. -/
theorem grown_of_idle (hidle : Idle env dot s.state n)
    (h : walkNode env enter dot site n s = (.ok jump, s')) :
    Grown site.otherwise.Encloses s.slots s'.slots := by
  unfold Idle at hidle
  split at hidle
  · obtain ⟨source, hsource, hrounds⟩ := hidle
    obtain ⟨source', mid, hsource', hslots, hloop⟩ := exists_loop h
    cases hsource.symm.trans hsource'
    unfold loop at hloop
    rw [hrounds] at hloop
    exact hslots ▸ grows_walkNodes dot site.otherwise _ hloop
  · exact hidle.elim

/-- After a node that is no action the variables in scope are those from before it, and one of them
has a new value only if a pipeline inside the node assigned to it. After a loop that had nothing to
run over there are also the variables that nodes after its `else` declared. -/
theorem variables_after_node {enter' : Option (Value → List Node → Walk (Option Jump))}
    (henter : EnterErases enter enter') (hn : ∀ p, n ≠ .action p) (dot : Value) (site : Site)
    (s : Tracked) {jump : Option Jump} {after : State}
    (h : Run.walkNode env enter' dot n s.state = (.ok jump, after)) :
    ∃ s', walkNode env enter dot site n s = (.ok jump, s') ∧ s'.state = after ∧
      (¬ Idle env dot s.state n →
        SameSlots site.Covers s.slots s'.slots ∧
        after.bindings.map Prod.fst = s.state.bindings.map Prod.fst) ∧
      (Idle env dot s.state n → Grown site.otherwise.Encloses s.slots s'.slots) := by
  have herases : Erases (walkNode env enter dot site n) (Run.walkNode env enter' dot n) :=
    erases_walkNode henter dot site n
  specialize herases s
  rw [h] at herases
  rcases hrun : walkNode env enter dot site n s with ⟨result, s'⟩
  rw [hrun] at herases
  cases herases
  refine ⟨s', rfl, rfl, ?_, fun hidle => grown_of_idle hidle hrun⟩
  intro hidle
  have hsame := keeps_walkNode hn hidle hrun
  refine ⟨hsame, ?_⟩
  have hnames : ∀ slots : List Slot,
      (slots.map Slot.binding).map Prod.fst = slots.map Slot.name := fun slots => List.map_map ..
  rw [Tracked.state, Tracked.state, hnames, hnames, hsame.names]

theorem variables_after_node_condition :
    ∃ (t : Template) (n : Node) (s s' : Tracked) (after : State),
      Template.parse (fun _ => false) "{{$x := 1}}{{if .A}}{{$x = 2}}{{end}}".toList = .ok t ∧
      t.root[1]? = some n ∧ (∀ p, n ≠ .action p) ∧ EnterErases none none ∧
      ¬ Idle ⟨[], t.definitions⟩ (.map [("A", .bool true)]) s.state n ∧
      Run.walkNode ⟨[], t.definitions⟩ none (.map [("A", .bool true)]) n s.state =
        (.ok none, after) ∧
      walkNode ⟨[], t.definitions⟩ none (.map [("A", .bool true)]) ⟨none, [], 1⟩ n s =
        (.ok none, s') ∧
      SameSlots (Site.Covers ⟨none, [], 1⟩) s.slots s'.slots ∧
      after.bindings.map Prod.fst = ["$x", "$"] := by
  let data : Value := .map [("A", .bool true)]
  let s : Tracked := ⟨[⟨"$x", .int 1, some ⟨none, [], 0⟩, []⟩, .root data], [], [], []⟩
  obtain ⟨t, hparse, ht⟩ := exists_of_any
    (x := Template.parse (fun _ => false) "{{$x := 1}}{{if .A}}{{$x = 2}}{{end}}".toList)
    (p := fun t => t.root[1]?.any fun n =>
      n.control? == some .cond &&
      (Run.walkNode ⟨[], t.definitions⟩ none data n s.state).1.toOption.any (· == none))
    (by decide +kernel)
  obtain ⟨n, hnode, hn⟩ := (Option.any_eq_true ..).mp ht
  simp only [Bool.and_eq_true] at hn
  obtain ⟨hkind, hrun⟩ := hn
  obtain ⟨jump, hjump, hnone⟩ := exists_of_any hrun
  cases beq_iff_eq.mp hnone
  have hcond : (∀ p, n ≠ .action p) ∧ ¬ Idle ⟨[], t.definitions⟩ data s.state n := by
    cases n with
    | control kind =>
      cases Option.some.inj (beq_iff_eq.mp hkind)
      refine ⟨?_, id⟩
      rintro p ⟨⟩
    | _ => cases hkind
  obtain ⟨after, hafter⟩ :
      ∃ after, Run.walkNode ⟨[], t.definitions⟩ none data n s.state = (.ok none, after) :=
    ⟨_, Prod.ext hjump rfl⟩
  obtain ⟨s', hwalk, hstate, hkeeps, -⟩ :=
    variables_after_node .none hcond.1 data ⟨none, [], 1⟩ s hafter
  obtain ⟨hsame, hnames⟩ := hkeeps hcond.2
  exact ⟨t, n, s, s', after, hparse, hnode, hcond.1, .none, hcond.2, hafter, hwalk, hsame, hnames⟩

end Nodes

/-- After a loop that had nothing to run over, a variable that nodes after its `else` declared is in
scope, and hides one of the same name. -/
theorem idle_loop_declares :
    ∃ (t : Template) (n : Node) (after : State),
      Template.parse (Registry.resolves [])
        ("{{$y := 1}}{{range .A}}{{else}}{{$y := 2}}{{end}}" ++
          "{{if eq $y 1}}outer{{else}}inner{{end}}").toList = .ok t ∧
      t.root[1]? = some n ∧ (∀ p, n ≠ .action p) ∧
      Run.walkNode ⟨[], t.definitions⟩ none (.map [("A", .seq [])]) n
        ⟨[("$y", .int 1), ("$", .map [("A", .seq [])])], [], []⟩ = (.ok none, after) ∧
      after.bindings.map Prod.fst = ["$y", "$y", "$"] ∧
      (execute [] t.capture (.map [("A", .seq [])]) []).result = .ok "inner".toList := by
  let data : Value := .map [("A", .seq [])]
  let s : State := ⟨[("$y", .int 1), ("$", data)], [], []⟩
  obtain ⟨t, hparse, ht⟩ := exists_of_any
    (x := Template.parse (Registry.resolves [])
      ("{{$y := 1}}{{range .A}}{{else}}{{$y := 2}}{{end}}" ++
        "{{if eq $y 1}}outer{{else}}inner{{end}}").toList)
    (p := fun t => (t.root[1]?.any fun n =>
      n.control?.isSome &&
      (Run.walkNode ⟨[], t.definitions⟩ none data n s).1.toOption.any (· == none) &&
      (Run.walkNode ⟨[], t.definitions⟩ none data n s).2.bindings.map Prod.fst ==
        ["$y", "$y", "$"]) &&
      (execute [] t.capture data []).result.toOption.any (· == "inner".toList))
    (by decide +kernel)
  simp only [Bool.and_eq_true] at ht
  obtain ⟨hnode, hrun⟩ := ht
  obtain ⟨n, hroot, hn⟩ := (Option.any_eq_true ..).mp hnode
  simp only [Bool.and_eq_true] at hn
  obtain ⟨⟨hkind, hwalk⟩, hnames⟩ := hn
  obtain ⟨jump, hjump, hnone⟩ := exists_of_any hwalk
  obtain ⟨raw, hraw, hinner⟩ := exists_of_any hrun
  cases beq_iff_eq.mp hnone
  cases beq_iff_eq.mp hinner
  refine ⟨t, n, _, hparse, hroot, ?_, Prod.ext hjump rfl, beq_iff_eq.mp hnames, hraw⟩
  rintro p rfl
  cases hkind

end TrackedWalk

end BoundQuery.Run
