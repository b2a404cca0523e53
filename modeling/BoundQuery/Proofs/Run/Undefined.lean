/-
# Undefined variables

A variable is in scope for the nodes after `else` if the body of the control structure declares it,
or the pipeline of a loop, but nothing sets it before these nodes run: it leaks to them. All other
variables in scope at a node are set when a run comes to the node. So a run of a template that was
parsed fails for an undefined variable only at a node that uses a variable that leaked to it.

Main statement: `defined_unless_leaked`.
-/

import Mathlib.Logic.Function.Iterate
import BoundQuery.Proofs.Run.Evaluation
import BoundQuery.Proofs.Run.Visits
import BoundQuery.Proofs.Template.Scopes

namespace BoundQuery

namespace Template

open Text (Pos)

/-! ### Names that leak -/

/-- The names that a pipeline declares. -/
def Pipeline.declared (p : Pipeline) : List String :=
  if p.assigns then [] else p.names

/-- The names that come into scope after a node in the same list. -/
def Node.declared : Node → List String
  | .action p => p.declared
  | _ => []

/-- The names that are in scope for the nodes after `else`, and that nothing sets before these run. -/
def Node.leaked : Node → List String
  | .control kind _ p body (some _) =>
    body.flatMap Node.declared ++ if kind = .range then p.declared else []
  | _ => []

/-- The site is after the `else` of a control structure that leaks the name. -/
def Leaks (t : Template) (site : Site) (name : String) : Prop :=
  ∃ outer n, t.nodeAt? outer = some n ∧ outer.otherwise.Encloses site ∧ name ∈ n.leaked

section Declared

variable {name : String} {names : Names}

theorem Pipeline.mem_names_of_mem_declared {p : Pipeline} (h : name ∈ p.declared) :
    name ∈ p.names := by
  unfold declared at h
  split at h
  · cases h
  · exact h

theorem Node.mem_namesSet_of_mem_declared {n : Node} (h : name ∈ n.declared) :
    name ∈ n.namesSet := by
  cases n with
  | action p => exact p.mem_names_of_mem_declared h
  | _ => cases h

theorem Names.mem_scope_declare {p : Pipeline} :
    name ∈ (names.declare p).scope ↔ name ∈ p.declared ∨ name ∈ names.scope := by
  unfold declare Pipeline.declared
  split <;> simp

theorem Names.mem_scope_after {n : Node} :
    name ∈ (names.after n).scope ↔ name ∈ n.declared ∨ name ∈ names.scope := by
  cases n with
  | action p => exact mem_scope_declare
  | _ => simp [after, Node.declared]

theorem Names.mem_scope_afterAll {nodes : List Node} :
    name ∈ (names.afterAll nodes).scope ↔
      name ∈ nodes.flatMap Node.declared ∨ name ∈ names.scope := by
  induction nodes generalizing names with
  | nil => simp [afterAll]
  | cons n rest ih =>
    have hrest : name ∈ (names.afterAll (n :: rest)).scope ↔
        name ∈ rest.flatMap Node.declared ∨ name ∈ (names.after n).scope := ih
    rw [hrest, mem_scope_after, List.flatMap_cons, List.mem_append]
    tauto

end Declared

/-! ### Captured templates -/

section Capture

theorem Pipeline.declared_captureAction (p : Pipeline) (bound : List String) :
    (p.captureAction bound).declared = p.declared := by
  rcases p.captureAction_eq_or bound with heq | ⟨pos, heq⟩
  · rw [heq]
  · rw [heq]
    rfl

theorem Node.declared_capture (loop earlier : List String) (n : Node) :
    (n.capture loop earlier).declared = n.declared := by
  cases n with
  | action p =>
    rw [Node.capture_action]
    exact p.declared_captureAction _
  | _ => rfl

theorem declared_captureNodes (loop earlier : List String) (nodes : List Node) :
    (captureNodes loop earlier nodes).flatMap Node.declared = nodes.flatMap Node.declared := by
  induction nodes generalizing earlier with
  | nil => rfl
  | cons n rest ih => rw [captureNodes_cons, List.flatMap_cons, List.flatMap_cons, n.declared_capture, ih]

theorem Node.leaked_capture (loop earlier : List String) (n : Node) :
    (n.capture loop earlier).leaked = n.leaked := by
  cases n with
  | control kind pos p body otherwise =>
    cases otherwise with
    | none => rfl
    | some nodes =>
      have hbody := fun loop => declared_captureNodes loop [] body
      cases kind <;> exact congrArg (· ++ _) (hbody _)
  | action p =>
    rw [Node.capture_action]
    rfl
  | _ => rfl

/-- Capturing leaks no more names. -/
theorem Leaks.of_capture {t : Template} {site : Site} {name : String}
    (h : t.capture.Leaks site name) : t.Leaks site name := by
  obtain ⟨outer, n', hn', hencloses, hname⟩ := h
  obtain ⟨loop, earlier, n, hn, rfl, -⟩ := exists_of_nodeAt?_capture hn'
  rw [n.leaked_capture] at hname
  exact ⟨outer, n, hn, hencloses, hname⟩

variable {isFunction : String → Bool} {t : Template}

theorem Checked.capture_iterate (h : t.Checked isFunction) (times : Nat) :
    (Template.capture^[times] t).Checked isFunction := by
  induction times generalizing t with
  | zero => exact h
  | succ times ih => exact ih h.capture

theorem Leaks.of_capture_iterate {site : Site} {name : String} {times : Nat}
    (h : (Template.capture^[times] t).Leaks site name) : t.Leaks site name := by
  induction times generalizing t with
  | zero => exact h
  | succ times ih => exact (ih h).of_capture

end Capture

theorem Leaks.enclosed {t : Template} {site inner : Site} {name : String} (h : t.Leaks site name)
    (hinner : site.Encloses inner) : t.Leaks inner name := by
  obtain ⟨outer, n, hn, hencloses, hname⟩ := h
  exact ⟨outer, n, hn, hencloses.trans hinner, hname⟩

end Template

namespace Run

open Template (Node Pipeline Site Names CheckedNodes)
open Text (Pos)

variable {t : Template} {isFunction : String → Bool}

/-! ### What is known of variables in scope -/

/-- The names stand for variables, but for those that leak to the site. -/
def Provided (t : Template) (site : Site) (slots : List Slot) (scope : List String) : Prop :=
  ∀ name ∈ scope, findSlot? name slots ≠ none ∨ t.Leaks site name

/-- The nodes from the site on were checked with names that are provided. -/
def Scoped (t : Template) (site : Site) (slots : List Slot) : Prop :=
  ∀ nodes, t.NodesAt site nodes → ∃ names inLoop,
    CheckedNodes names inLoop nodes ∧ Provided t site slots names.scope

section Scopes

variable {R : Site → Prop} {site inner : Site} {before after : List Slot} {names : Names}
  {p : Pipeline}

theorem SetWithin.findSlot?_ne_none {name : String} (h : SetWithin R name after) :
    findSlot? name after ≠ none := by
  obtain ⟨slot, -, hfind, -⟩ := h
  rw [hfind]
  exact Option.some_ne_none slot

theorem Provided.grown (h : Provided t site before names.scope) (hgrown : Grown R before after)
    (hinner : site.Encloses inner) : Provided t inner after names.scope := by
  intro name hname
  rcases h name hname with hfind | hleaks
  · exact .inl fun hnone => hfind (hgrown.findSlot?_eq_none hnone)
  · exact .inr (hleaks.enclosed hinner)

/-- Names that a pipeline declares are provided once it has set them. -/
theorem Provided.declare (h : Provided t site before names.scope)
    (hsets : Sets R p.names before after) (hinner : site.Encloses inner) :
    Provided t inner after (names.declare p).scope := by
  intro name hname
  rcases Names.mem_scope_declare.mp hname with hname | hname
  · exact .inl (hsets.set name (Pipeline.mem_names_of_mem_declared hname)).findSlot?_ne_none
  · exact h.grown hsets.grown hinner name hname

theorem Provided.next {n : Node} (h : Provided t site before names.scope)
    (hsets : Sets R n.namesSet before after) :
    Provided t site.next after (names.after n).scope := by
  intro name hname
  rcases Names.mem_scope_after.mp hname with hname | hname
  · exact .inl (hsets.set name (Node.mem_namesSet_of_mem_declared hname)).findSlot?_ne_none
  · exact h.grown hsets.grown site.encloses_refl name hname

variable {kind : Template.Control} {pos : Pos} {body : List Node} {otherwise : Option (List Node)}

/-- What is known at a control structure was checked of its parts. -/
theorem Scoped.control (h : Scoped t site before)
    (hn : t.nodeAt? site = some (.control kind pos p body otherwise)) :
    ∃ (names : Names) (inLoop : Bool), Provided t site before names.scope ∧
      CheckedNodes (names.declare p) (inLoop || kind == .range) body ∧
      Template.CheckedOtherwise ((names.declare p).afterAll body) inLoop otherwise := by
  obtain ⟨rest, hnodes⟩ := Template.exists_nodesAt hn
  obtain ⟨names, inLoop, ⟨⟨-, hbody, hotherwise⟩, -⟩, hprovided⟩ := h _ hnodes
  exact ⟨names, inLoop, hprovided, hbody, hotherwise⟩

theorem scoped_start (h : t.Checked isFunction) {definition : Option String} {nodes : List Node}
    (hbody : t.body? definition = some nodes) (data : Value) :
    Scoped t (.start definition) [.root data] := by
  intro nodes' hnodes
  cases hnodes.unique (Template.nodesAt_start hbody)
  refine ⟨_, _, h.body hbody, ?_⟩
  intro name hname
  cases List.mem_singleton.mp hname
  exact .inl nofun

theorem scoped_next {n : Node} (hn : t.nodeAt? site = some n) (h : Scoped t site before)
    (hsets : Sets site.Covers n.namesSet before after) : Scoped t site.next after := by
  intro rest hrest
  obtain ⟨names, inLoop, hchecked, hprovided⟩ := h _ (.cons hn hrest)
  exact ⟨_, _, hchecked.2, hprovided.next hsets⟩

theorem scoped_body (hn : t.nodeAt? site = some (.control kind pos p body otherwise))
    (h : Scoped t site before) (hsets : Sets R p.names before after) :
    Scoped t site.body after := by
  intro nodes hnodes
  cases hnodes.unique (Template.nodesAt_body hn)
  obtain ⟨names, inLoop, hprovided, hbody, -⟩ := h.control hn
  exact ⟨_, _, hbody, hprovided.declare hsets site.encloses_body⟩

/-- After `else` the names that the pipeline declares are set, or they leak. -/
theorem scoped_otherwise (hn : t.nodeAt? site = some (.control kind pos p body otherwise))
    (h : Scoped t site before) (hgrown : Grown R before after)
    (hset : ∀ name ∈ p.declared, kind = .range ∨ findSlot? name after ≠ none) :
    Scoped t site.otherwise after := by
  intro nodes hnodes
  cases Template.eq_some_of_nodesAt_otherwise hn hnodes
  obtain ⟨names, inLoop, hprovided, -, hotherwise⟩ := h.control hn
  have hleaks : ∀ name ∈ Node.leaked (.control kind pos p body (some nodes)),
      t.Leaks site.otherwise name := by
    intro name hname
    exact ⟨site, _, hn, site.otherwise.encloses_refl, hname⟩
  refine ⟨_, _, hotherwise, ?_⟩
  intro name hname
  rcases Names.mem_scope_afterAll.mp hname with hname | hname
  · exact .inr (hleaks name (List.mem_append_left _ hname))
  rcases Names.mem_scope_declare.mp hname with hname | hname
  · rcases hset name hname with rfl | hfind
    · exact .inr (hleaks name (List.mem_append_right _ hname))
    · exact .inl hfind
  · exact hprovided.grown hgrown site.encloses_otherwise name hname

/-- What is known of variables in scope along a run. -/
def Knowledge.scoped (h : t.Checked isFunction) : Knowledge t where
  holds := Scoped t
  pairs := h.length_names
  start := scoped_start h
  next := scoped_next
  branch hn _ hbefore hsets := by
    constructor
    · exact scoped_body hn hbefore hsets
    · apply scoped_otherwise hn hbefore hsets.grown
      intro name hname
      exact .inr (hsets.set name (Pipeline.mem_names_of_mem_declared hname)).findSlot?_ne_none
  round := scoped_body
  idle hn hbefore := by
    apply scoped_otherwise hn hbefore (grown_refl (fun _ => False) _)
    intro name hname
    exact .inl rfl

/-- A node that was checked uses names in scope. -/
theorem Scoped.provided {n : Node} (hn : t.nodeAt? site = some n) (h : Scoped t site before)
    (hp : p ∈ n.pipelines) {name : String} (hname : name ∈ p.variables) :
    findSlot? name before ≠ none ∨ t.Leaks site name := by
  obtain ⟨rest, hnodes⟩ := Template.exists_nodesAt hn
  obtain ⟨names, inLoop, ⟨hchecked, -⟩, hprovided⟩ := h _ hnodes
  obtain ⟨most, construct, hcheck⟩ := hchecked.pipeline hp
  exact hprovided name (Template.mem_scope_of_checkPipeline hcheck name hname)

end Scopes

/-! ### Undefined variables -/

/-- A node fails for an undefined variable only if it uses the variable, and that is not in scope. -/
theorem Blames.undefinedVariable {env : Env} {slots : List Slot} {n : Node} {pos : Pos}
    {name : String} (h : Blames env slots n ⟨pos, .undefinedVariable name⟩) :
    (∃ p ∈ n.pipelines, name ∈ p.variables) ∧ findSlot? name slots = none := by
  cases h with
  | evaluation hp heval =>
    obtain ⟨hname, hlookup⟩ := undefinedVariable_of_evalPipeline heval
    rw [lookup_binding] at hlookup
    exact ⟨⟨_, hp, hname⟩, Option.map_eq_none_iff.mp hlookup⟩
  | assignment hp hassigns hname hnone =>
    exact ⟨⟨_, hp, Pipeline.mem_variables_of_assigns hassigns hname⟩, hnone⟩

/-- At each node that a run of a parsed template comes to, captured or not, the variables that the
node uses are set, but for those that leak to it. The run fails for an undefined variable only at a
node that uses a variable that leaks to it and is not set. -/
theorem defined_unless_leaked {source : List Char} (hparse : Template.parse isFunction source = .ok t)
    (times : Nat) (functions : Registry) (data : Value) (captured : List Value) :
    (∀ v ∈ visits functions (Template.capture^[times] t) data captured, ∀ n,
      (Template.capture^[times] t).nodeAt? v.site = some n → ∀ p ∈ n.pipelines,
        ∀ name ∈ p.variables, findSlot? name v.slots ≠ none ∨ t.Leaks v.site name) ∧
    ∀ pos name,
      (execute functions (Template.capture^[times] t) data captured).result =
        .error ⟨pos, .undefinedVariable name⟩ →
      ∃ v ∈ visits functions (Template.capture^[times] t) data captured, ∃ n,
        (Template.capture^[times] t).nodeAt? v.site = some n ∧
        (∃ p ∈ n.pipelines, name ∈ p.variables) ∧
        findSlot? name v.slots = none ∧ t.Leaks v.site name := by
  let k := Knowledge.scoped ((Template.checked_parse hparse).capture_iterate times)
  have hdefined : ∀ v ∈ visits functions (Template.capture^[times] t) data captured, ∀ n,
      (Template.capture^[times] t).nodeAt? v.site = some n → ∀ p ∈ n.pipelines,
        ∀ name ∈ p.variables, findSlot? name v.slots ≠ none ∨ t.Leaks v.site name := by
    intro v hv n hn p hp name hname
    have hscoped : Scoped (Template.capture^[times] t) v.site v.slots := k.holds_visits v hv
    exact (hscoped.provided hn hp hname).imp_right Template.Leaks.of_capture_iterate
  refine ⟨hdefined, ?_⟩
  intro pos name h
  obtain ⟨v, hv, n, hn, hblames⟩ := k.blames_visit h
  obtain ⟨⟨p, hp, hname⟩, hnone⟩ := hblames.undefinedVariable
  have hleaks := (hdefined v hv n hn p hp name hname).resolve_left fun hfind => hfind hnone
  exact ⟨v, hv, n, hn, ⟨p, hp, hname⟩, hnone, hleaks⟩

theorem defined_unless_leaked_loop :
    ∃ (t : Template) (v v' : Visit) (p : Pipeline) (pos : Pos),
      Template.parse (fun _ => false)
        "{{range $x := .L}}{{$x}}{{else}}{{$x}}{{end}}".toList = .ok t ∧
      v ∈ visits [] t.capture (.map [("L", .seq [.int 1])]) [] ∧
      t.capture.nodeAt? v.site = some (.action p) ∧ "$x" ∈ p.variables ∧
      (findSlot? "$x" v.slots ≠ none ∨ t.Leaks v.site "$x") ∧
      (execute [] t.capture (.map [("L", .seq [])]) []).result =
        .error ⟨pos, .undefinedVariable "$x"⟩ ∧
      v' ∈ visits [] t.capture (.map [("L", .seq [])]) [] ∧
      findSlot? "$x" v'.slots = none ∧ t.Leaks v'.site "$x" := by
  let items : Value := .map [("L", .seq [.int 1])]
  let noItems : Value := .map [("L", .seq [])]
  obtain ⟨t, hparse, ht⟩ := exists_of_any
    (x := Template.parse (fun _ => false) "{{range $x := .L}}{{$x}}{{else}}{{$x}}{{end}}".toList)
    (p := fun t =>
      ((visits [] t.capture items [])[1]?.any fun v =>
        (t.capture.actionAt? v.site).any fun p => p.variables.contains "$x") &&
      decide ((execute [] t.capture noItems []).result =
        .error ⟨⟨1, 35⟩, .undefinedVariable "$x"⟩))
    (by decide +kernel)
  simp only [Bool.and_eq_true, decide_eq_true_eq] at ht
  obtain ⟨hvisit, hrun⟩ := ht
  obtain ⟨v, hindex, hv⟩ := (Option.any_eq_true ..).mp hvisit
  obtain ⟨p, haction, hname⟩ := (Option.any_eq_true ..).mp hv
  have hv := List.mem_of_getElem? hindex
  have hnode := Template.nodeAt?_eq_action_iff.mpr haction
  have hname : "$x" ∈ p.variables := by simpa using hname
  have hdefined := (defined_unless_leaked hparse 1 [] items []).1 v hv _ hnode p
    (List.mem_singleton_self p) "$x" hname
  obtain ⟨v', hv', -, -, -, hnone, hleaks⟩ :=
    (defined_unless_leaked hparse 1 [] noItems []).2 _ _ hrun
  exact ⟨t, v, v', p, _, hparse, hv, hnode, hname, hdefined, hrun, hv', hnone, hleaks⟩

/-- The nodes after `else` may use a variable that only the body declares, and fail for it, whether
the template is captured or not. -/
theorem else_uses_undefined :
    ∃ (t : Template) (pos : Pos),
      Template.parse (Registry.resolves [])
        "{{if .A}}{{$y := 1}}{{else}}{{$y}}{{end}}".toList = .ok t ∧
      (execute [] t (.map [("A", .bool false)]) []).result =
        .error ⟨pos, .undefinedVariable "$y"⟩ ∧
      (execute [] t.capture (.map [("A", .bool false)]) []).result =
        .error ⟨pos, .undefinedVariable "$y"⟩ := by
  let data : Value := .map [("A", .bool false)]
  obtain ⟨t, hparse, ht⟩ := exists_of_any
    (x := Template.parse (Registry.resolves []) "{{if .A}}{{$y := 1}}{{else}}{{$y}}{{end}}".toList)
    (p := fun t =>
      decide ((execute [] t data []).result = .error ⟨⟨1, 31⟩, .undefinedVariable "$y"⟩) &&
      decide ((execute [] t.capture data []).result = .error ⟨⟨1, 31⟩, .undefinedVariable "$y"⟩))
    (by decide +kernel)
  simp only [Bool.and_eq_true, decide_eq_true_eq] at ht
  exact ⟨t, _, hparse, ht.1, ht.2⟩

end Run

end BoundQuery
