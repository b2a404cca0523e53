/-
# Sites

Where a run is in a template, and what lies inside what. From a site a run goes on to the site after
it, into the body of a control structure, or into the nodes after its `else`; a called template
starts at the first site of its definition.

Main statements: `nodesAt_start`, `NodesAt.tail`, `nodesAt_body`, `nodesAt_otherwise`.
-/

import BoundQuery.Proofs.Template.Captured

namespace BoundQuery

namespace Template

open Text (Pos)

namespace Site

/-- The first site of the root, or of a definition. -/
def start (definition : Option String) : Site :=
  ⟨definition, [], 0⟩

/-- The site of the next node in the list. -/
def next (s : Site) : Site :=
  ⟨s.definition, s.path, s.index + 1⟩

/-- The first site in the body of the control structure. -/
def body (s : Site) : Site :=
  ⟨s.definition, s.path ++ [.body s.index], 0⟩

/-- The first site after the `else` of the control structure. -/
def otherwise (s : Site) : Site :=
  ⟨s.definition, s.path ++ [.otherwise s.index], 0⟩

/-- The other site is in the same list of nodes, or in a list inside it. -/
def Encloses (s other : Site) : Prop :=
  other.definition = s.definition ∧ s.path <+: other.path

/-- The other site is the same, or inside the control structure at it. -/
def Covers (s other : Site) : Prop :=
  other = s ∨ s.body.Encloses other ∨ s.otherwise.Encloses other

theorem encloses_refl (s : Site) : s.Encloses s :=
  ⟨rfl, List.prefix_rfl⟩

theorem covers_of_eq {s other : Site} (h : other = s) : s.Covers other :=
  .inl h

theorem covers_of_body {s other : Site} (h : s.body.Encloses other) : s.Covers other :=
  .inr (.inl h)

theorem covers_of_otherwise {s other : Site} (h : s.otherwise.Encloses other) : s.Covers other :=
  .inr (.inr h)

theorem Encloses.trans {s inner innermost : Site} (h : s.Encloses inner)
    (h' : inner.Encloses innermost) : s.Encloses innermost :=
  ⟨h'.1.trans h.1, h.2.trans h'.2⟩

theorem encloses_body (s : Site) : s.Encloses s.body :=
  ⟨rfl, List.prefix_append _ _⟩

theorem encloses_otherwise (s : Site) : s.Encloses s.otherwise :=
  ⟨rfl, List.prefix_append _ _⟩

/-- What a node covers lies in each list that encloses the node. -/
theorem Encloses.covers {s inner other : Site} (h : s.Encloses inner) (hcovers : inner.Covers other) :
    s.Encloses other := by
  rcases hcovers with rfl | hbody | hotherwise
  · exact h
  · exact h.trans (inner.encloses_body.trans hbody)
  · exact h.trans (inner.encloses_otherwise.trans hotherwise)

/-- The lists that enclose a site are those that a part of its path leads to. -/
theorem body_encloses_iff {s other : Site} :
    s.body.Encloses other ↔
      other.definition = s.definition ∧ ∃ inner, other.path = s.path ++ .body s.index :: inner := by
  simp [Encloses, body, List.IsPrefix, eq_comm]

end Site

/-! ### Nodes at sites -/

/-- The node at a site. -/
def nodeAt? (t : Template) (site : Site) : Option Node :=
  (t.listOf? site).bind fun nodes => nodes[site.index]?

/-- The nodes of a list from a site on. -/
def NodesAt (t : Template) (site : Site) (nodes : List Node) : Prop :=
  ∃ list, t.listOf? site = some list ∧ list.drop site.index = nodes

variable {t : Template} {site : Site}

theorem listAt?_append (path : List Step) (s : Step) (nodes : List Node) :
    listAt? (path ++ [s]) nodes = (listAt? path nodes).bind s.listIn? := by
  induction path generalizing nodes with
  | nil =>
    cases h : s.listIn? nodes <;> simp [listAt?, h]
  | cons first path ih =>
    rw [List.cons_append, listAt?, listAt?]
    cases first.listIn? nodes with
    | none => rfl
    | some inner => exact ih inner

theorem nodesAt_start {definition : Option String} {nodes : List Node}
    (h : t.body? definition = some nodes) : t.NodesAt (.start definition) nodes :=
  ⟨nodes, by simp [listOf?, Site.start, h, listAt?], rfl⟩

namespace NodesAt

variable {n : Node} {rest : List Node}

theorem head (h : t.NodesAt site (n :: rest)) : t.nodeAt? site = some n := by
  obtain ⟨list, hlist, hdrop⟩ := h
  have hindex : list[site.index]? = some n := by
    rw [← List.head?_drop, hdrop, List.head?_cons]
  simp [nodeAt?, hlist, hindex]

theorem tail (h : t.NodesAt site (n :: rest)) : t.NodesAt site.next rest := by
  obtain ⟨list, hlist, hdrop⟩ := h
  refine ⟨list, hlist, ?_⟩
  rw [Site.next, ← List.tail_drop, hdrop, List.tail_cons]

theorem cons (hn : t.nodeAt? site = some n) (h : t.NodesAt site.next rest) :
    t.NodesAt site (n :: rest) := by
  obtain ⟨list, hlist, hindex⟩ := Option.bind_eq_some_iff.mp hn
  obtain ⟨list', hlist', hdrop⟩ := h
  cases hlist.symm.trans hlist'
  obtain ⟨hlt, rfl⟩ := List.getElem?_eq_some_iff.mp hindex
  refine ⟨list, hlist, ?_⟩
  rw [← hdrop]
  exact List.drop_eq_getElem_cons hlt

theorem unique {nodes nodes' : List Node} (h : t.NodesAt site nodes) (h' : t.NodesAt site nodes') :
    nodes = nodes' := by
  obtain ⟨list, hlist, hdrop⟩ := h
  obtain ⟨list', hlist', hdrop'⟩ := h'
  cases hlist.symm.trans hlist'
  exact hdrop.symm.trans hdrop'

end NodesAt

theorem exists_nodesAt {n : Node} (hn : t.nodeAt? site = some n) :
    ∃ rest, t.NodesAt site (n :: rest) := by
  obtain ⟨list, hlist, -⟩ := Option.bind_eq_some_iff.mp hn
  exact ⟨_, .cons hn ⟨list, hlist, rfl⟩⟩

theorem listOf?_body (t : Template) (site : Site) :
    t.listOf? site.body = (t.listOf? site).bind (Step.body site.index).listIn? := by
  unfold listOf? Site.body
  cases t.body? site.definition with
  | none => rfl
  | some nodes => exact listAt?_append site.path _ nodes

theorem listOf?_otherwise (t : Template) (site : Site) :
    t.listOf? site.otherwise = (t.listOf? site).bind (Step.otherwise site.index).listIn? := by
  unfold listOf? Site.otherwise
  cases t.body? site.definition with
  | none => rfl
  | some nodes => exact listAt?_append site.path _ nodes

section Control

variable {kind : Control} {pos : Pos} {p : Pipeline} {body : List Node}
  {otherwise : Option (List Node)}

theorem nodesAt_body (h : t.nodeAt? site = some (.control kind pos p body otherwise)) :
    t.NodesAt site.body body := by
  obtain ⟨list, hlist, hnode⟩ := Option.bind_eq_some_iff.mp h
  refine ⟨body, ?_, rfl⟩
  rw [listOf?_body, hlist, Option.bind_some, Step.listIn?, hnode]

theorem nodesAt_otherwise {nodes : List Node}
    (h : t.nodeAt? site = some (.control kind pos p body (some nodes))) :
    t.NodesAt site.otherwise nodes := by
  obtain ⟨list, hlist, hnode⟩ := Option.bind_eq_some_iff.mp h
  refine ⟨nodes, ?_, rfl⟩
  rw [listOf?_otherwise, hlist, Option.bind_some, Step.listIn?, hnode]

theorem eq_some_of_nodesAt_otherwise {nodes : List Node}
    (h : t.nodeAt? site = some (.control kind pos p body otherwise))
    (hnodes : t.NodesAt site.otherwise nodes) : otherwise = some nodes := by
  obtain ⟨list, hlist, hnode⟩ := Option.bind_eq_some_iff.mp h
  obtain ⟨inner, hinner, hdrop⟩ := hnodes
  rw [listOf?_otherwise, hlist, Option.bind_some, Step.listIn?, hnode] at hinner
  have hinner : otherwise = some inner := hinner
  rw [hinner, ← hdrop]
  rfl

end Control

theorem nodeAt?_eq_action_iff {p : Pipeline} :
    t.nodeAt? site = some (.action p) ↔ t.actionAt? site = some p := by
  unfold nodeAt? actionAt? actionIn?
  cases t.listOf? site with
  | none => simp
  | some nodes =>
    simp only [Option.bind_some]
    split
    · simp_all
    · rename_i hnot
      simp only [reduceCtorEq, iff_false]
      exact hnot p

theorem mem_nodes_of_nodeAt? {n : Node} (h : t.nodeAt? site = some n) : n ∈ t.nodes := by
  obtain ⟨list, hlist, hnode⟩ := Option.bind_eq_some_iff.mp h
  exact mem_nodes_of_listOf? hlist n <|
    mem_nodesWithin.mpr ⟨n, List.mem_of_getElem? hnode, mem_tree_self n⟩

/-! ### Captured nodes -/

/-- The nodes of a captured template are at the sites where they came from; each is captured with
the names that are bound at its site. -/
theorem nodeAt?_capture (t : Template) (site : Site) :
    ∃ loop earlier, (∀ name, t.listOf? site ≠ none →
        (name ∈ loop ++ earlier ↔ t.Binds site name)) ∧
      t.capture.nodeAt? site = (t.nodeAt? site).map (Node.capture loop earlier) := by
  unfold nodeAt? listOf? Binds
  rw [body?_capture]
  cases hbody : t.body? site.definition with
  | none => exact ⟨[], [], by simp⟩
  | some nodes =>
    simp only [Option.map_some, Option.bind_some, listAt?_captureNodes, List.nil_append]
    cases hlist : listAt? site.path nodes with
    | none => exact ⟨[], [], by simp⟩
    | some list =>
      refine ⟨loopNames site.path nodes, (list.take site.index).flatMap Node.namesSet, ?_, ?_⟩
      · intro name _
        rw [List.mem_append, mem_loopNames hlist, mem_namesSet]
        simp [listOf?, hbody, hlist]
      · simp [getElem?_captureNodes]

theorem exists_of_nodeAt?_capture {n' : Node} (h : t.capture.nodeAt? site = some n') :
    ∃ loop earlier n, t.nodeAt? site = some n ∧ n' = n.capture loop earlier ∧
      ∀ name, name ∈ loop ++ earlier ↔ t.Binds site name := by
  obtain ⟨loop, earlier, hbound, hcapture⟩ := t.nodeAt?_capture site
  rw [hcapture] at h
  obtain ⟨n, hn, rfl⟩ := Option.map_eq_some_iff.mp h
  obtain ⟨list, hlist, -⟩ := Option.bind_eq_some_iff.mp hn
  exact ⟨loop, earlier, n, hn, rfl, fun name => hbound name (by simp [hlist])⟩

/-- A name is bound at a site by the node at another site: a loop around it, or an action before it
in the same list. -/
inductive BoundBy (t : Template) (site : Site) (name : String) : Site → Prop
  | loop {binder : Site} {pos : Pos} {p : Pipeline} {body : List Node}
      {otherwise : Option (List Node)} :
      t.nodeAt? binder = some (.control .range pos p body otherwise) → name ∈ p.names →
      binder.body.Encloses site → BoundBy t site name binder
  | action {i : Nat} {p : Pipeline} :
      t.nodeAt? ⟨site.definition, site.path, i⟩ = some (.action p) → name ∈ p.names →
      i < site.index → BoundBy t site name ⟨site.definition, site.path, i⟩

theorem Binds.exists_boundBy {name : String} (h : t.Binds site name) :
    ∃ binder, t.BoundBy site name binder := by
  rcases h with ⟨nodes, hbody, hloop⟩ | ⟨nodes, hlist, j, p, hlt, haction, hname⟩
  · obtain ⟨outer, i, inner, list, pos, p, body, otherwise, hpath, hlist, hnode, hname⟩ := hloop
    have hloop : t.nodeAt? ⟨site.definition, outer, i⟩ =
        some (.control .range pos p body otherwise) := by
      simp [nodeAt?, listOf?, hbody, hlist, hnode]
    exact ⟨_, .loop hloop hname (Site.body_encloses_iff.mpr ⟨rfl, inner, hpath⟩)⟩
  · have haction : t.actionAt? ⟨site.definition, site.path, j⟩ = some p := by
      have hlist : t.listOf? ⟨site.definition, site.path, j⟩ = some nodes := hlist
      simp [actionAt?, hlist, haction]
    exact ⟨_, .action (nodeAt?_eq_action_iff.mpr haction) hname hlt⟩

end Template

end BoundQuery
