/-
# Scopes in a template

Each pipeline of a parsed template was checked with the names that were at hand where it stands. The
names that the pipeline of a control structure declares come into scope for its body; those, and the
names that the body declares, stay in scope for the nodes after `else`, and go out of scope after the
structure. Capturing keeps all this.

Main statements: `checked_parse`, `Checked.capture`.
-/

import BoundQuery.Proofs.Template.Checks
import BoundQuery.Proofs.Template.Sites

namespace BoundQuery

namespace Template

open Text (Pos)

/-! ### Nodes -/

namespace Names

/-- The names after a node: those that an action declares come into scope. -/
def after (names : Names) : Node → Names
  | .action p => names.declare p
  | _ => names

/-- The names after several nodes. -/
def afterAll (names : Names) (nodes : List Node) : Names :=
  nodes.foldl after names

@[simp] theorem isFunction_declare (names : Names) (p : Pipeline) :
    (names.declare p).isFunction = names.isFunction := by
  unfold declare
  split <;> rfl

@[simp] theorem isFunction_after (names : Names) (n : Node) :
    (names.after n).isFunction = names.isFunction := by
  cases n <;> simp [after]

@[simp] theorem isFunction_afterAll (names : Names) (nodes : List Node) :
    (names.afterAll nodes).isFunction = names.isFunction := by
  induction nodes generalizing names with
  | nil => rfl
  | cons n rest ih => exact (ih (names.after n)).trans (names.isFunction_after n)

theorem scope_declare (f g : String → Bool) (scope : List String) (p : Pipeline) :
    (declare ⟨f, scope⟩ p).scope = (declare ⟨g, scope⟩ p).scope := by
  unfold declare
  split <;> rfl

end Names

mutual

/-- The names at hand before the node, and whether it stands in the body of a loop, allow for it. -/
def Node.Checked (names : Names) (inLoop : Bool) : Node → Prop
  | .text _ => True
  | .action p => names.checkPipeline 1 .command p = .ok ()
  | .control kind _ p body otherwise =>
    names.checkPipeline kind.mostNames kind.construct p = .ok () ∧
      CheckedNodes (names.declare p) (inLoop || kind == .range) body ∧
      CheckedOtherwise ((names.declare p).afterAll body) inLoop otherwise
  | .invoke _ _ data => ∀ p ∈ data, ∃ construct, names.checkPipeline 0 construct p = .ok ()
  | .jump _ _ => inLoop = true

/-- The names at hand before a list of nodes allow for it. -/
def CheckedNodes (names : Names) (inLoop : Bool) : List Node → Prop
  | [] => True
  | n :: rest => n.Checked names inLoop ∧ CheckedNodes (names.after n) inLoop rest

/-- The names at hand after the body of a control structure allow for the nodes after `else`. -/
def CheckedOtherwise (names : Names) (inLoop : Bool) : Option (List Node) → Prop
  | none => True
  | some nodes => CheckedNodes names inLoop nodes

end

end Template

/-- The root and each definition were checked, with no variable in scope but `$`, outside loops. -/
structure Template.Checked (isFunction : String → Bool) (t : Template) : Prop where
  root : CheckedNodes ⟨isFunction, ["$"]⟩ false t.root
  definitions : ∀ d ∈ t.definitions, CheckedNodes ⟨isFunction, ["$"]⟩ false d.2

namespace Template

open Text (Pos)

variable {isFunction : String → Bool} {names : Names} {inLoop : Bool}

theorem Checked.body {t : Template} (h : t.Checked isFunction) {definition : Option String}
    {nodes : List Node} (hbody : t.body? definition = some nodes) :
    CheckedNodes ⟨isFunction, ["$"]⟩ false nodes := by
  cases definition with
  | none =>
    cases hbody
    exact h.root
  | some name => exact h.definitions (name, nodes) (Entries.mem_of_find? hbody)

theorem checkedNodes_append {nodes others : List Node} :
    CheckedNodes names inLoop (nodes ++ others) ↔
      CheckedNodes names inLoop nodes ∧ CheckedNodes (names.afterAll nodes) inLoop others := by
  induction nodes generalizing names with
  | nil => simp [CheckedNodes, Names.afterAll]
  | cons n rest ih =>
    rw [List.cons_append, CheckedNodes, CheckedNodes, ih, and_assoc]
    rfl

mutual

/-- All nodes inside a checked node were checked, with the same functions. -/
theorem exists_checked_of_mem_tree {names : Names} {inLoop : Bool} :
    ∀ n : Node, n.Checked names inLoop → ∀ m ∈ n.tree,
      ∃ inner loops, inner.isFunction = names.isFunction ∧ m.Checked inner loops
  | .control kind pos p body otherwise, h => by
    intro m hm
    rw [Node.tree] at hm
    rcases List.mem_cons.mp hm with rfl | hm
    · exact ⟨names, inLoop, rfl, h⟩
    · obtain ⟨-, hbody, hotherwise⟩ := h
      rcases List.mem_append.mp hm with hm | hm
      · obtain ⟨inner, loops, hfunctions, hchecked⟩ := exists_checked_of_mem body hbody m hm
        exact ⟨inner, loops, hfunctions.trans (names.isFunction_declare p), hchecked⟩
      · obtain ⟨inner, loops, hfunctions, hchecked⟩ :=
          exists_checked_of_mem_otherwise otherwise hotherwise m hm
        refine ⟨inner, loops, hfunctions.trans ?_, hchecked⟩
        rw [Names.isFunction_afterAll, names.isFunction_declare]
  | .text _, h | .action _, h | .invoke _ _ _, h | .jump _ _, h => by
    intro m hm
    cases List.mem_singleton.mp hm
    exact ⟨names, inLoop, rfl, h⟩

theorem exists_checked_of_mem {names : Names} {inLoop : Bool} :
    ∀ nodes : List Node, CheckedNodes names inLoop nodes → ∀ m ∈ nodesWithin nodes,
      ∃ inner loops, inner.isFunction = names.isFunction ∧ m.Checked inner loops
  | [], _ => by simp [nodesWithin]
  | n :: rest, ⟨hn, hrest⟩ => by
    intro m hm
    rw [nodesWithin] at hm
    rcases List.mem_append.mp hm with hm | hm
    · exact exists_checked_of_mem_tree n hn m hm
    · obtain ⟨inner, loops, hfunctions, hchecked⟩ := exists_checked_of_mem rest hrest m hm
      exact ⟨inner, loops, hfunctions.trans (names.isFunction_after n), hchecked⟩

theorem exists_checked_of_mem_otherwise {names : Names} {inLoop : Bool} :
    ∀ otherwise : Option (List Node), CheckedOtherwise names inLoop otherwise →
      ∀ m ∈ nodesOtherwise otherwise,
        ∃ inner loops, inner.isFunction = names.isFunction ∧ m.Checked inner loops
  | none, _ => by simp [nodesOtherwise]
  | some nodes, h => exists_checked_of_mem nodes h

end

/-- Each node of a checked template was checked with some names at hand. -/
theorem Checked.exists_checked {t : Template} (h : t.Checked isFunction) {n : Node}
    (hn : n ∈ t.nodes) :
    ∃ names inLoop, names.isFunction = isFunction ∧ n.Checked names inLoop := by
  rcases List.mem_append.mp hn with hn | hn
  · exact exists_checked_of_mem t.root h.root n hn
  · obtain ⟨d, hd, hn⟩ := List.mem_flatMap.mp hn
    exact exists_checked_of_mem d.2 (h.definitions d hd) n hn

/-- The pipelines of a checked node were checked. -/
theorem Node.Checked.pipeline {n : Node} (h : n.Checked names inLoop) {p : Pipeline}
    (hp : p ∈ n.pipelines) : ∃ most construct, names.checkPipeline most construct p = .ok () := by
  cases n with
  | text s => cases hp
  | jump kind pos => cases hp
  | action q =>
    cases List.mem_singleton.mp hp
    exact ⟨_, _, h⟩
  | control kind pos q body otherwise =>
    cases List.mem_singleton.mp hp
    exact ⟨_, _, h.1⟩
  | invoke pos name data =>
    obtain ⟨construct, hcheck⟩ := h p (Option.mem_toList.mp hp)
    exact ⟨_, construct, hcheck⟩

/-- No loop of a checked template binds more than a key and an item. -/
theorem Checked.length_names {t : Template} (h : t.Checked isFunction) {site : Site} {pos : Pos}
    {p : Pipeline} {body : List Node} {otherwise : Option (List Node)}
    (hn : t.nodeAt? site = some (.control .range pos p body otherwise)) : p.names.length ≤ 2 := by
  obtain ⟨names, inLoop, -, hcheck, -⟩ := h.exists_checked (mem_nodes_of_nodeAt? hn)
  exact ((checkPipeline_eq_ok_iff p).mp hcheck).1

/-! ### Templates that are being assembled -/

section Assembling

/-- The nodes, the last first, are allowed for by the names at hand before them, and lead to the
scope. -/
structure Collects (isFunction : String → Bool) (start : Names) (inLoop : Bool) (nodes : List Node)
    (scope : List String) : Prop where
  checked : CheckedNodes start inLoop nodes.reverse
  after : start.afterAll nodes.reverse = ⟨isFunction, scope⟩

/-- What is set aside with a structure was collected from these names on. -/
abbrev Outer.Collected (isFunction : String → Bool) (start : Names) (outer : Outer) : Prop :=
  Collects isFunction start outer.inLoop outer.nodes outer.scope

/-- In these open structures nodes are collected from the names on. -/
inductive Opened (isFunction : String → Bool) : List Frame → Names → Bool → Prop
  | root : Opened isFunction [] ⟨isFunction, ["$"]⟩ false
  | body {frames : List Frame} {start : Names} {kind : Control} {pos : Pos} {p : Pipeline}
      {chained : Bool} {outer : Outer} :
      Opened isFunction frames start outer.inLoop → outer.Collected isFunction start →
      Names.checkPipeline ⟨isFunction, outer.scope⟩ kind.mostNames kind.construct p = .ok () →
      Opened isFunction (.control kind pos p none chained outer :: frames)
        (Names.declare ⟨isFunction, outer.scope⟩ p) (outer.inLoop || kind == .range)
  | otherwise {frames : List Frame} {start : Names} {kind : Control} {pos : Pos} {p : Pipeline}
      {body : List Node} {chained : Bool} {outer : Outer} :
      Opened isFunction frames start outer.inLoop → outer.Collected isFunction start →
      Names.checkPipeline ⟨isFunction, outer.scope⟩ kind.mostNames kind.construct p = .ok () →
      CheckedNodes (Names.declare ⟨isFunction, outer.scope⟩ p) (outer.inLoop || kind == .range)
        body →
      Opened isFunction (.control kind pos p (some body) chained outer :: frames)
        ((Names.declare ⟨isFunction, outer.scope⟩ p).afterAll body) outer.inLoop
  | definition {frames : List Frame} {start : Names} {name : String}
      {call : Option (Pos × Pipeline)} {outer : Outer} :
      Opened isFunction frames start outer.inLoop → outer.Collected isFunction start →
      (∀ c ∈ call, Names.checkPipeline ⟨isFunction, outer.scope⟩ 0 .block c.2 = .ok ()) →
      Opened isFunction (.definition name call outer :: frames) ⟨isFunction, ["$"]⟩ false

/-- All that is assembled so far was checked. -/
structure Assembly.Checked (isFunction : String → Bool) (a : Assembly) : Prop where
  collected : ∃ start, Opened isFunction a.frames start a.inLoop ∧
    Collects isFunction start a.inLoop a.nodes a.scope
  definitions : ∀ d ∈ a.definitions, CheckedNodes ⟨isFunction, ["$"]⟩ false d.2

theorem collects_nil (scope : List String) : Collects isFunction ⟨isFunction, scope⟩ inLoop [] scope :=
  ⟨trivial, rfl⟩

theorem Collects.cons {start : Names} {nodes : List Node} {scope : List String} {n : Node}
    (h : Collects isFunction start inLoop nodes scope)
    (hn : n.Checked ⟨isFunction, scope⟩ inLoop) :
    Collects isFunction start inLoop (n :: nodes) (Names.after ⟨isFunction, scope⟩ n).scope := by
  have hafter : start.afterAll (n :: nodes).reverse = Names.after ⟨isFunction, scope⟩ n := by
    rw [← h.after]
    simp [Names.afterAll]
  have hfunctions : (Names.after ⟨isFunction, scope⟩ n).isFunction = isFunction :=
    Names.isFunction_after _ n
  refine ⟨?_, hafter.trans ?_⟩
  · rw [List.reverse_cons, checkedNodes_append, h.after]
    exact ⟨h.checked, hn, trivial⟩
  · calc Names.after ⟨isFunction, scope⟩ n
        = ⟨(Names.after ⟨isFunction, scope⟩ n).isFunction,
            (Names.after ⟨isFunction, scope⟩ n).scope⟩ := rfl
      _ = ⟨isFunction, (Names.after ⟨isFunction, scope⟩ n).scope⟩ := by rw [hfunctions]

namespace Assembly

theorem checked_empty : empty.Checked isFunction :=
  ⟨⟨_, .root, collects_nil _⟩, by simp [empty]⟩

theorem Checked.push {a : Assembly} (h : a.Checked isFunction) {n : Node}
    (hn : n.Checked ⟨isFunction, a.scope⟩ a.inLoop)
    (hscope : (Names.after ⟨isFunction, a.scope⟩ n).scope = a.scope) :
    (a.push n).Checked isFunction := by
  obtain ⟨start, hopened, hcollects⟩ := h.collected
  exact ⟨⟨start, hopened, hscope ▸ hcollects.cons hn⟩, h.definitions⟩

theorem Checked.openControl {a b : Assembly} {kind : Control} {pos : Pos} {p : Pipeline}
    {chained : Bool} (h : a.Checked isFunction)
    (hopen : a.openControl isFunction kind pos p chained = .ok b) : b.Checked isFunction := by
  obtain ⟨start, hopened, hcollects⟩ := h.collected
  obtain ⟨hcheck, rfl⟩ := openControl_eq_ok hopen
  have hcollected : a.outer.Collected isFunction start := hcollects
  refine ⟨⟨_, .body hopened hcollected hcheck, trivial, ?_⟩, h.definitions⟩
  have hscope : (Names.declare ⟨isFunction, a.scope⟩ p).scope = (a.declare p).scope :=
    Names.scope_declare _ _ a.scope p
  calc Names.declare ⟨isFunction, a.scope⟩ p
    _ = ⟨(Names.declare ⟨isFunction, a.scope⟩ p).isFunction,
          (Names.declare ⟨isFunction, a.scope⟩ p).scope⟩ := rfl
    _ = ⟨isFunction, (a.declare p).scope⟩ := by rw [Names.isFunction_declare, hscope]

theorem Checked.openDefinition {a : Assembly} {name : String} {call : Option (Pos × Pipeline)}
    (h : a.Checked isFunction)
    (hcall : ∀ c ∈ call, Names.checkPipeline ⟨isFunction, a.scope⟩ 0 .block c.2 = .ok ()) :
    (a.openDefinition name call).Checked isFunction := by
  obtain ⟨start, hopened, hcollects⟩ := h.collected
  have hcollected : a.outer.Collected isFunction start := hcollects
  exact ⟨⟨_, .definition hopened hcollected hcall, collects_nil _⟩, h.definitions⟩

theorem Checked.endBody {a b : Assembly} {kind : Control} (h : a.Checked isFunction)
    (hend : a.endBody = .ok (kind, b)) : b.Checked isFunction := by
  obtain ⟨start, hopened, hcollects⟩ := h.collected
  obtain ⟨pos, p, chained, outer, frames, hframes, rfl⟩ := endBody_eq_ok hend
  rw [hframes] at hopened
  generalize a.inLoop = inner at hopened hcollects
  cases hopened with
  | body houter hcollected hcheck =>
    refine ⟨⟨_, .otherwise houter hcollected hcheck hcollects.checked, ?_⟩, h.definitions⟩
    rw [hcollects.after]
    exact collects_nil _

/-- Closing control structures leads back to what was set aside with the outermost of them. -/
theorem checked_closeControls {nodes : List Node} {frames rest : List Frame} {start : Names}
    {outer : Outer} (hopened : Opened isFunction frames start inLoop)
    (hnodes : CheckedNodes start inLoop nodes.reverse)
    (hclose : closeControls nodes frames = some (outer, rest)) :
    ∃ start, Opened isFunction rest start outer.inLoop ∧ outer.Collected isFunction start := by
  induction frames generalizing nodes start inLoop with
  | nil => cases hclose
  | cons f frames ih =>
    cases f with
    | definition name call o => cases hclose
    | control kind pos p body chained o =>
      have hclosed : ∃ start, Opened isFunction frames start o.inLoop ∧
          Collects isFunction start o.inLoop (controlNode kind pos p body nodes.reverse :: o.nodes)
            o.scope := by
        cases hopened with
        | body houter hcollected hcheck =>
          exact ⟨_, houter, hcollected.cons ⟨hcheck, hnodes, trivial⟩⟩
        | otherwise houter hcollected hcheck hbody =>
          exact ⟨_, houter, hcollected.cons ⟨hcheck, hbody, hnodes⟩⟩
      obtain ⟨outerStart, houter, hcollected⟩ := hclosed
      rw [closeControls] at hclose
      -- A chained structure closes together with the one around it.
      split at hclose
      · exact ih houter hcollected.checked hclose
      · cases hclose
        exact ⟨outerStart, houter, hcollected⟩

theorem Checked.close {a b : Assembly} (h : a.Checked isFunction) (hclose : a.close = some b) :
    b.Checked isFunction := by
  obtain ⟨start, hopened, hcollects⟩ := h.collected
  rcases close_eq_some hclose with
    ⟨name, call, outer, frames, hframes, rfl⟩ | ⟨outer, frames, hcontrols, rfl⟩
  · rw [hframes] at hopened
    generalize a.inLoop = inner at hopened hcollects
    cases hopened with
    | definition houter hcollected hcall =>
      refine ⟨⟨_, houter, ?_⟩, ?_⟩
      · cases call with
        | none => exact hcollected
        | some c =>
          apply hcollected.cons
          intro p hp
          cases hp
          exact ⟨_, hcall c rfl⟩
      · intro d hd
        rcases Entries.mem_insert hd with rfl | hd
        · exact hcollects.checked
        · exact h.definitions d hd
  · exact ⟨checked_closeControls hopened hcollects.checked hcontrols, h.definitions⟩

theorem Checked.step {a b : Assembly} {pos : Pos} {clause : Clause} (h : a.Checked isFunction)
    (hstep : a.Stepped isFunction pos clause b) : b.Checked isFunction := by
  cases hstep with
  | pipeline hcheck =>
    rename_i p
    obtain ⟨start, hopened, hcollects⟩ := h.collected
    refine ⟨⟨start, hopened, ?_⟩, h.definitions⟩
    have hscope : (Names.after ⟨isFunction, a.scope⟩ (.action p)).scope = (a.declare p).scope :=
      Names.scope_declare _ _ a.scope p
    exact hscope ▸ hcollects.cons (n := .action p) hcheck
  | control hopen => exact h.openControl hopen
  | otherwise hend => exact h.endBody hend
  | elseControl hend hopen => exact (h.endBody hend).openControl hopen
  | close hclose => exact h.close hclose
  | definition => exact h.openDefinition (by simp)
  | invocation hcheck => exact h.push (fun p hp => ⟨_, hcheck p hp⟩) rfl
  | block hcheck =>
    apply h.openDefinition
    intro c hc
    cases hc
    exact hcheck
  | jump hloop => exact h.push hloop rfl

end Assembly

end Assembling

theorem Assembled.checked {source : List Char} {a : Assembly} (h : Assembled isFunction source a) :
    a.Checked isFunction := by
  induction h with
  | empty => exact Assembly.checked_empty
  | text _ _ ih => exact ih.push trivial rfl
  | action _ _ _ hstep ih => exact ih.step hstep

/-- A parsed template was checked. -/
theorem checked_parse {source : List Char} {t : Template} (h : parse isFunction source = .ok t) :
    t.Checked isFunction := by
  obtain ⟨a, hassembled, hclosed, rfl⟩ := exists_assembled_of_parse h
  obtain ⟨⟨start, hopened, hcollects⟩, hdefinitions⟩ := hassembled.checked
  rw [hclosed] at hopened
  generalize a.inLoop = inner at hopened hcollects
  cases hopened
  exact ⟨hcollects.checked, hdefinitions⟩

/-! ### Captured templates -/

section Capture

/-- The capture function may be called at any stage, and by every template. -/
theorem checkPipeline_handOn {p : Pipeline} {most : Nat} {construct : Construct}
    (h : names.checkPipeline most construct p = .ok ()) (pos : Pos) :
    names.checkPipeline most construct (p.handOn pos) = .ok () := by
  obtain ⟨hlength, hexecutable, hadmits⟩ := (checkPipeline_eq_ok_iff p).mp h
  refine (checkPipeline_eq_ok_iff _).mpr ⟨hlength, ?_, ?_, ?_, ?_⟩
  · exact executableFrom_append.mpr ⟨hexecutable, .leads rfl, trivial⟩
  · intro x hx
    exact hadmits.inScope x (Pipeline.mem_variables_handOn.mp hx)
  · intro f hf
    rcases Pipeline.mem_identifiers_handOn.mp hf with hf | rfl
    · exact hadmits.functions f hf
    · exact .inl rfl
  · intro q hq
    exact hadmits.inner q (Pipeline.mem_inner_handOn.mp hq)

theorem checkPipeline_captureAction {p : Pipeline} {most : Nat} {construct : Construct}
    (h : names.checkPipeline most construct p = .ok ()) (bound : List String) :
    names.checkPipeline most construct (p.captureAction bound) = .ok () := by
  rcases p.captureAction_eq_or bound with heq | ⟨pos, heq⟩
  · rwa [heq]
  · rw [heq]
    exact checkPipeline_handOn h pos

theorem Names.declare_captureAction (names : Names) (p : Pipeline) (bound : List String) :
    names.declare (p.captureAction bound) = names.declare p := by
  rcases p.captureAction_eq_or bound with heq | ⟨pos, heq⟩ <;> rw [heq]
  rfl

theorem Names.after_capture (names : Names) (loop earlier : List String) (n : Node) :
    names.after (n.capture loop earlier) = names.after n := by
  cases n with
  | action p =>
    rw [Node.capture_action]
    exact names.declare_captureAction p _
  | _ => rfl

theorem Names.afterAll_captureNodes (names : Names) (loop earlier : List String)
    (nodes : List Node) : names.afterAll (captureNodes loop earlier nodes) = names.afterAll nodes := by
  induction nodes generalizing names earlier with
  | nil => rfl
  | cons n rest ih =>
    have hrest := ih (names.after n) (earlier ++ n.namesSet)
    rw [captureNodes_cons, Names.afterAll, List.foldl_cons, names.after_capture]
    exact hrest

mutual

theorem checked_capture (loop earlier : List String) {names : Names} {inLoop : Bool} :
    ∀ n : Node, n.Checked names inLoop → (n.capture loop earlier).Checked names inLoop
  | .text _, _ => trivial
  | .action p, h => by
    rw [Node.capture_action]
    exact checkPipeline_captureAction h _
  | .control kind _ p body otherwise, ⟨hcheck, hbody, hotherwise⟩ => by
    refine ⟨hcheck, checkedNodes_capture _ _ body hbody, ?_⟩
    rw [Names.afterAll_captureNodes]
    exact checkedOtherwise_capture loop otherwise hotherwise
  | .invoke _ _ _, h => h
  | .jump _ _, h => h

theorem checkedNodes_capture (loop earlier : List String) {names : Names} {inLoop : Bool} :
    ∀ nodes : List Node, CheckedNodes names inLoop nodes →
      CheckedNodes names inLoop (captureNodes loop earlier nodes)
  | [], _ => trivial
  | n :: rest, ⟨hn, hrest⟩ => by
    rw [captureNodes_cons, CheckedNodes, Names.after_capture]
    exact ⟨checked_capture loop earlier n hn, checkedNodes_capture loop _ rest hrest⟩

theorem checkedOtherwise_capture (loop : List String) {names : Names} {inLoop : Bool} :
    ∀ otherwise : Option (List Node), CheckedOtherwise names inLoop otherwise →
      CheckedOtherwise names inLoop (captureOtherwise loop otherwise)
  | none, _ => trivial
  | some nodes, h => checkedNodes_capture loop [] nodes h

end

/-- Capturing a template keeps that it was checked. -/
theorem Checked.capture {t : Template} (h : t.Checked isFunction) : t.capture.Checked isFunction where
  root := checkedNodes_capture [] [] t.root h.root
  definitions d hd := by
    obtain ⟨d', hd', rfl⟩ := List.mem_map.mp hd
    exact checkedNodes_capture [] [] d'.2 (h.definitions d' hd')

end Capture

end Template

end BoundQuery
