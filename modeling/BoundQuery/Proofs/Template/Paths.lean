/-
# Paths in a template

A path leads from a list of nodes to a list inside it, node by node: into the body of a control
structure, or into the nodes after its `else`. Capturing keeps all paths. What it knows of a list
are the names that loops on the way to it bind.

Main statements: `listAt?_captureNodes`, `mem_loopNames`, `getElem?_captureNodes`.
-/

import BoundQuery.Template.Capture

namespace BoundQuery

namespace Template

/-- A step of a path: into a part of the control structure at a position. -/
inductive Step
  | body (i : Nat)
  | otherwise (i : Nat)
deriving DecidableEq, Repr

/-- The list that a step leads to. -/
def Step.listIn? : Step → List Node → Option (List Node)
  | .body i, nodes =>
    match nodes[i]? with
    | some (.control _ _ _ inner _) => some inner
    | _ => none
  | .otherwise i, nodes =>
    match nodes[i]? with
    | some (.control _ _ _ _ inner) => inner
    | _ => none

/-- The list that a path leads to. -/
def listAt? : List Step → List Node → Option (List Node)
  | [], nodes => some nodes
  | s :: path, nodes => (s.listIn? nodes).bind (listAt? path)

/-- The action at a position. -/
def actionIn? (nodes : List Node) (i : Nat) : Option Pipeline :=
  match nodes[i]? with
  | some (.action p) => some p
  | _ => none

/-- A name is set by the pipeline of a loop whose body the path leads into. -/
def BoundByLoop (nodes : List Node) (path : List Step) (name : String) : Prop :=
  ∃ outer i inner list pos p body otherwise,
    path = outer ++ .body i :: inner ∧ listAt? outer nodes = some list ∧
      list[i]? = some (.control .range pos p body otherwise) ∧ name ∈ p.names

/-- A name is set by an action before a position of the same list. -/
def SetBefore (nodes : List Node) (i : Nat) (name : String) : Prop :=
  ∃ j p, j < i ∧ actionIn? nodes j = some p ∧ name ∈ p.names

/-! ### What capturing knows along a path -/

/-- The names that a step brings along: those of a loop, for its body. -/
def Step.loopNames : Step → List Node → List String
  | .body i, nodes =>
    match nodes[i]? with
    | some (.control .range _ p _ _) => p.names
    | _ => []
  | .otherwise _, _ => []

/-- The names of the loops whose bodies a path leads into. -/
def loopNames : List Step → List Node → List String
  | [], _ => []
  | s :: path, nodes => s.loopNames nodes ++ ((s.listIn? nodes).map (loopNames path)).getD []

/-- The names that an action sets. -/
def Node.namesSet : Node → List String
  | .action p => p.names
  | _ => []

theorem mem_step_loopNames {s : Step} {nodes : List Node} {name : String} :
    name ∈ s.loopNames nodes ↔
      ∃ i pos p body otherwise, s = .body i ∧
        nodes[i]? = some (.control .range pos p body otherwise) ∧ name ∈ p.names := by
  cases s with
  | otherwise i => simp [Step.loopNames]
  | body i =>
    simp only [Step.loopNames]
    constructor
    · intro h
      split at h
      · rename_i pos p body otherwise hnode
        exact ⟨i, pos, p, body, otherwise, rfl, hnode, h⟩
      · simp at h
    · rintro ⟨_, pos, p, body, otherwise, ⟨⟩, hnode, h⟩
      rw [hnode]
      exact h

/-- The names that loops around a list bind. -/
theorem mem_loopNames {path : List Step} {nodes list : List Node} {name : String}
    (hlist : listAt? path nodes = some list) :
    name ∈ loopNames path nodes ↔ BoundByLoop nodes path name := by
  induction path generalizing nodes with
  | nil => simp [loopNames, BoundByLoop]
  | cons s path ih =>
    obtain ⟨next, hnext, hlist⟩ := Option.bind_eq_some_iff.mp hlist
    rw [loopNames, hnext, Option.map_some, Option.getD_some, List.mem_append, mem_step_loopNames,
      ih hlist]
    constructor
    · rintro (⟨i, pos, p, body, otherwise, rfl, hnode, h⟩ | h)
      · exact ⟨[], i, path, nodes, pos, p, body, otherwise, rfl, rfl, hnode, h⟩
      · obtain ⟨outer, i, inner, list', pos, p, body, otherwise, rfl, hat, hnode, h⟩ := h
        refine ⟨s :: outer, i, inner, list', pos, p, body, otherwise, rfl, ?_, hnode, h⟩
        rw [listAt?, hnext]
        exact hat
    · rintro ⟨outer, i, inner, list', pos, p, body, otherwise, hpath, hat, hnode, h⟩
      cases outer with
      | nil =>
        cases hpath
        cases hat
        exact .inl ⟨i, pos, p, body, otherwise, rfl, hnode, h⟩
      | cons s' outer =>
        cases hpath
        rw [listAt?, hnext] at hat
        exact .inr ⟨outer, i, inner, list', pos, p, body, otherwise, rfl, hat, hnode, h⟩

/-- The names that actions before a position set. -/
theorem mem_namesSet {nodes : List Node} {i : Nat} {name : String} :
    name ∈ (nodes.take i).flatMap Node.namesSet ↔ SetBefore nodes i name := by
  rw [List.mem_flatMap]
  constructor
  · rintro ⟨n, hn, h⟩
    obtain ⟨j, hj⟩ := List.mem_iff_getElem?.mp hn
    cases n with
    | action p =>
      rw [List.getElem?_take] at hj
      split at hj
      · rename_i hlt
        exact ⟨j, p, hlt, by simp [actionIn?, hj], h⟩
      · cases hj
    | _ => simp [Node.namesSet] at h
  · rintro ⟨j, p, hlt, haction, h⟩
    unfold actionIn? at haction
    split at haction
    · rename_i q hj
      cases haction
      have htake : (nodes.take i)[j]? = some (.action p) := by rw [List.getElem?_take_of_lt hlt, hj]
      exact ⟨.action p, List.mem_of_getElem? htake, h⟩
    · cases haction

/-! ### Captured nodes at the same positions -/

theorem captureNodes_cons (loop earlier : List String) (n : Node) (rest : List Node) :
    captureNodes loop earlier (n :: rest) =
      n.capture loop earlier :: captureNodes loop (earlier ++ n.namesSet) rest := by
  cases n with
  | action p =>
    by_cases hsets : p.setsVariables
    · simp [captureNodes, hsets, Node.namesSet]
    · have hnames : p.names = [] := by simpa [Pipeline.setsVariables] using hsets
      simp [captureNodes, hsets, hnames, Node.namesSet]
  | _ => simp [captureNodes, Node.namesSet]

/-- What is captured at a position depends on the actions before it. -/
theorem getElem?_captureNodes (loop earlier : List String) (nodes : List Node) (i : Nat) :
    (captureNodes loop earlier nodes)[i]? =
      nodes[i]?.map fun n => n.capture loop (earlier ++ (nodes.take i).flatMap Node.namesSet) := by
  induction nodes generalizing earlier i with
  | nil => simp [captureNodes]
  | cons n rest ih =>
    rw [captureNodes_cons]
    cases i with
    | zero => simp
    | succ i => simp [ih]

theorem listIn?_captureNodes (s : Step) (loop : List String) (nodes : List Node) :
    s.listIn? (captureNodes loop [] nodes) =
      (s.listIn? nodes).map (captureNodes (loop ++ s.loopNames nodes) []) := by
  cases s with
  | body i =>
    simp only [Step.listIn?, Step.loopNames, getElem?_captureNodes]
    cases nodes[i]? with
    | none => rfl
    | some n =>
      cases n with
      | action p => by_cases hsets : p.setsVariables <;> simp [Node.capture, hsets]
      | control kind pos p body otherwise => cases kind <;> simp [Node.capture]
      | _ => simp [Node.capture]
  | otherwise i =>
    simp only [Step.listIn?, Step.loopNames, getElem?_captureNodes]
    cases nodes[i]? with
    | none => rfl
    | some n =>
      cases n with
      | action p => by_cases hsets : p.setsVariables <;> simp [Node.capture, hsets]
      | control kind pos p body otherwise =>
        cases otherwise <;> simp [Node.capture, captureOtherwise]
      | _ => simp [Node.capture]

/-- Captured nodes have the lists of those that they came from, captured with the names of the loops
on the way. -/
theorem listAt?_captureNodes (path : List Step) (loop : List String) (nodes : List Node) :
    listAt? path (captureNodes loop [] nodes) =
      (listAt? path nodes).map (captureNodes (loop ++ loopNames path nodes) []) := by
  induction path generalizing loop nodes with
  | nil => simp [listAt?, loopNames]
  | cons s path ih =>
    rw [listAt?, listAt?, listIn?_captureNodes]
    cases hnext : s.listIn? nodes with
    | none => rfl
    | some next => simp [ih, loopNames, hnext]

end Template

end BoundQuery
