/-
# Tracked runs

A run that keeps a record of itself: the nodes it comes to, with the variables that are in scope
there, and for each variable the pipelines that declared it and assigned to it. Without the record
it is the run itself.

Main statements: `erases_walkAt`, `Rules.walkAt`.
-/

import BoundQuery.Proofs.Run.Steps
import BoundQuery.Proofs.Template.Sites

namespace BoundQuery.Run

open Template (Node Pipeline Jump Control Site)
open Text (Pos)

/-- A variable in scope, and where it was set. -/
structure Slot where
  name : String
  value : Value
  /-- The site of the pipeline that declared it. The variable `$` is declared by none. -/
  declaredAt : Option Site
  /-- The sites of the pipelines that assigned to it, the last first. -/
  assignedAt : List Site

/-- A node that a run came to, and the variables in scope there, the innermost first. -/
structure Visit where
  site : Site
  slots : List Slot

/-- What changes in a tracked run. -/
structure Tracked where
  slots : List Slot
  trace : Trace
  captured : List Value
  /-- The nodes that the run came to, the last first. -/
  visits : List Visit

/-- A part of a tracked run. -/
abbrev TrackedWalk : Type → Type :=
  ExceptT EvalError (StateM Tracked)

/-- The variable `$` of a template that is given `data`. -/
def Slot.root (data : Value) : Slot :=
  ⟨"$", data, none, []⟩

/-- The variable without the record of where it was set. -/
def Slot.binding (slot : Slot) : String × Value :=
  (slot.name, slot.value)

/-- The variable that a name stands for. -/
def findSlot? (name : String) (slots : List Slot) : Option Slot :=
  slots.find? (·.name == name)

/-- The state without the record. -/
def Tracked.state (s : Tracked) : State :=
  ⟨s.slots.map Slot.binding, s.trace, s.captured⟩

namespace TrackedWalk

variable {α β : Type}

/-- Fails at `pos`. -/
def fail (pos : Pos) (fault : EvalFault) : TrackedWalk α :=
  throw ⟨pos, fault⟩

/-- A step that leaves the variables as they are. -/
def plainly (m : Walk α) : TrackedWalk α :=
  ExceptT.mk fun s =>
    let (outcome, after) := m s.state
    (outcome, { s with trace := after.trace, captured := after.captured })

/-- Comes to a node. -/
def visit (site : Site) : TrackedWalk Unit :=
  modify fun s => { s with visits := ⟨site, s.slots⟩ :: s.visits }

/-- Gives a variable in scope a new value. -/
def assign? (site : Site) (name : String) (v : Value) : List Slot → Option (List Slot)
  | [] => none
  | slot :: rest =>
    if slot.name = name then
      some ({ slot with value := v, assignedAt := site :: slot.assignedAt } :: rest)
    else (assign? site name v rest).map (slot :: ·)

/-- Declares or assigns a variable. -/
def bind (site : Site) (p : Pipeline) (name : String) (v : Value) : TrackedWalk Unit := do
  let s ← get
  if p.assigns then
    match assign? site name v s.slots with
    | some slots => set { s with slots }
    | none => fail p.pos (.undefinedVariable name)
  else set { s with slots := ⟨name, v, some site, []⟩ :: s.slots }

/-- Declares or assigns several variables with one value. -/
def bindAll (site : Site) (p : Pipeline) (v : Value) : List String → TrackedWalk Unit
  | [] => return
  | name :: rest => do
    bind site p name v
    bindAll site p v rest

/-- The value of a pipeline, which the names on its left are given. -/
def evaluateAndBind (env : Env) (mode : Mode) (dot : Value) (site : Site) (p : Pipeline) :
    TrackedWalk Value := do
  let v ← plainly (Walk.evaluate env mode dot p)
  bindAll site p v p.names
  return v

/-- The number of variables in scope. -/
def countVariables : TrackedWalk Nat :=
  return (← get).slots.length

/-- Leaves the outermost `count` variables in scope. -/
def keepVariables (count : Nat) : TrackedWalk Unit :=
  modify fun s => { s with slots := s.slots.drop (s.slots.length - count) }

/-- Writes the value of an action, or the question mark for it. -/
def action (env : Env) (dot : Value) (site : Site) (p : Pipeline) : TrackedWalk Unit := do
  let v ← evaluateAndBind env .strict dot site p
  if p.setsVariables then return
  else if p.capturesValue then
    plainly (Walk.emit (.argument p.pos ((← get).captured.headD .null)))
  else plainly (Walk.emit (.value v))

/-- Binds the variables of a loop for a round. -/
def bindRound (site : Site) (p : Pipeline) (key item : Value) : TrackedWalk Unit :=
  match p.names with
  | [element] => bind site p element item
  | [index, element] => do
    bind site p index key
    bind site p element item
  | _ => return

/-- Repeats the body of a loop for keys and items. -/
def rounds (site : Site) (p : Pipeline) (count : Nat) (body : Value → TrackedWalk (Option Jump)) :
    List (Value × Value) → TrackedWalk Unit
  | [] => return
  | (key, item) :: rest => do
    keepVariables count
    bindRound site p key item
    match ← body item with
    | some .leave => return
    | _ => rounds site p count body rest

/-- Runs the body of a called template in a scope of its own. -/
def isolated (data : Value) (body : TrackedWalk (Option Jump)) : TrackedWalk Unit := do
  let outer := (← get).slots
  modify fun s => { s with slots := [.root data] }
  let _ ← body
  modify fun s => { s with slots := outer }

/-- A way to walk over the body of a template, which is called with its name and its data. -/
abbrev Enter : Type :=
  Option (String → Value → List Node → TrackedWalk (Option Jump))

mutual

/-- Walks over the node at a site. -/
def walkNode (env : Env) (enter : Enter) (dot : Value) (site : Site) :
    Node → TrackedWalk (Option Jump)
  | .text s => do
    visit site
    plainly (Walk.emit (.text s))
    return none
  | .action p => do
    visit site
    action env dot site p
    return none
  | .control .range pos p body otherwise => do
    visit site
    let source ← plainly (Walk.evaluate env .lenient dot p)
    match roundsOf? source with
    | none => fail pos (.cannotRange source.kind)
    | some [] => walkOtherwise env enter dot site.otherwise otherwise
    | some items =>
      let count ← countVariables
      rounds site p count (fun item => walkNodes env enter item site.body body) items
      keepVariables count
      return none
  | .control kind _ p body otherwise => do
    visit site
    let count ← countVariables
    let v ← evaluateAndBind env .lenient dot site p
    let flow ←
      if v.isTruthy then walkNodes env enter (if kind = .scope then v else dot) site.body body
      else walkOtherwise env enter dot site.otherwise otherwise
    keepVariables count
    return flow
  | .invoke pos name data => do
    visit site
    match Entries.find? name env.definitions, enter with
    | none, _ => fail pos (.undefinedTemplate name)
    | some _, none => fail pos .depthExceeded
    | some nodes, some enter => do
      let v ← match data with
        | none => pure .null
        | some p => plainly (Walk.evaluate env .strict dot p)
      isolated v (enter name v nodes)
      return none
  | .jump kind _ => do
    visit site
    return some kind

/-- Walks over nodes one after the other, from a site on. -/
def walkNodes (env : Env) (enter : Enter) (dot : Value) (site : Site) :
    List Node → TrackedWalk (Option Jump)
  | [] => return none
  | n :: rest => do
    match ← walkNode env enter dot site n with
    | none => walkNodes env enter dot site.next rest
    | some kind => return some kind

/-- Walks over the nodes after `else`. -/
def walkOtherwise (env : Env) (enter : Enter) (dot : Value) (site : Site) :
    Option (List Node) → TrackedWalk (Option Jump)
  | none => return none
  | some nodes => walkNodes env enter dot site nodes

end

/-- Walks over the nodes of the root, or of a definition, that may call templates to the given
depth. -/
def walkAt (env : Env) : Nat → Option String → Value → List Node → TrackedWalk (Option Jump)
  | 0, definition, dot => walkNodes env none dot (.start definition)
  | depth + 1, definition, dot =>
    walkNodes env (some fun name => walkAt env depth (some name)) dot (.start definition)

/-! ### Control structures -/

section Control

variable (env : Env) (enter : Enter) (dot : Value) (site : Site) (pos : Pos) (p : Pipeline)
  (body : List Node) (otherwise : Option (List Node))

/-- What a loop does once its source is evaluated. -/
def loop (source : Value) : TrackedWalk (Option Jump) :=
  match roundsOf? source with
  | none => fail pos (.cannotRange source.kind)
  | some [] => walkOtherwise env enter dot site.otherwise otherwise
  | some items => do
    let count ← countVariables
    rounds site p count (fun item => walkNodes env enter item site.body body) items
    keepVariables count
    return none

/-- The branch that a condition chooses. -/
def branch (kind : Control) (v : Value) : TrackedWalk (Option Jump) :=
  if v.isTruthy then walkNodes env enter (if kind = .scope then v else dot) site.body body
  else walkOtherwise env enter dot site.otherwise otherwise

theorem walkNode_range :
    walkNode env enter dot site (.control .range pos p body otherwise) =
      (visit site >>= fun _ => plainly (Walk.evaluate env .lenient dot p) >>= fun source =>
        loop env enter dot site pos p body otherwise source) := by
  unfold walkNode
  rfl

theorem walkNode_branch {kind : Control} (h : kind ≠ .range) :
    walkNode env enter dot site (.control kind pos p body otherwise) = do
      visit site
      let count ← countVariables
      let v ← evaluateAndBind env .lenient dot site p
      let jump ← branch env enter dot site body otherwise kind v
      keepVariables count
      return jump := by
  rw [walkNode]
  · congr 1
    funext _
    congr 1
    funext count
    congr 1
    funext v
    unfold branch
    cases v.isTruthy <;> rfl
  · exact h

end Control

/-! ### Without the record -/

/-- Without its record the tracked walk is the walk. -/
def Erases (m : TrackedWalk α) (n : Walk α) : Prop :=
  ∀ s, ((m s).1, (m s).2.state) = n s.state

section Steps

theorem erases_pure (a : α) : Erases (pure a) (pure a) := fun _ => rfl

theorem erases_fail (pos : Pos) (fault : EvalFault) :
    Erases (fail pos fault : TrackedWalk α) (Walk.fail pos fault) := fun _ => rfl

theorem erases_bind {m : TrackedWalk α} {n : Walk α} {f : α → TrackedWalk β} {g : α → Walk β}
    (hm : Erases m n) (hf : ∀ a, Erases (f a) (g a)) : Erases (m >>= f) (n >>= g) := by
  intro s
  rw [bind_apply, bind_apply, ← hm s]
  rcases m s with ⟨result, after⟩
  cases result with
  | error e => rfl
  | ok a => exact hf a after

/-- Coming to a node changes nothing but the record. -/
theorem erases_visit (site : Site) {m : TrackedWalk α} {n : Walk α} (h : Erases m n) :
    Erases (visit site >>= fun _ => m) n :=
  fun s => h { s with visits := ⟨site, s.slots⟩ :: s.visits }

theorem plainly_apply (m : Walk α) (s : Tracked) :
    plainly m s = ((m s.state).1,
      { s with trace := (m s.state).2.trace, captured := (m s.state).2.captured }) := rfl

theorem erases_plainly {m : Walk α} (h : ∀ s, (m s).2.bindings = s.bindings) :
    Erases (plainly m) m := by
  intro s
  have hbindings : s.slots.map Slot.binding = (m s.state).2.bindings := (h s.state).symm
  change ((m s.state).1, State.mk (s.slots.map Slot.binding) (m s.state).2.trace
    (m s.state).2.captured) = m s.state
  rw [hbindings]
  rfl

theorem erases_evaluate (env : Env) (mode : Mode) (dot : Value) (p : Pipeline) :
    Erases (plainly (Walk.evaluate env mode dot p)) (Walk.evaluate env mode dot p) :=
  erases_plainly fun _ => rfl

theorem erases_emit (e : Emission) : Erases (plainly (Walk.emit e)) (Walk.emit e) := by
  refine erases_plainly fun s => ?_
  rw [Walk.emit_apply]
  cases Trace.emit e s.trace <;> rfl

theorem map_assign? (site : Site) (name : String) (v : Value) (slots : List Slot) :
    (assign? site name v slots).map (List.map Slot.binding) =
      Walk.assign? name v (slots.map Slot.binding) := by
  induction slots with
  | nil => rfl
  | cons slot rest ih =>
    rw [assign?, List.map_cons, Slot.binding, Walk.assign?]
    by_cases h : slot.name = name
    · simp [h, Slot.binding]
    · rw [if_neg h, if_neg h, ← ih, Option.map_map, Option.map_map]
      rfl

theorem bind_variable_apply (site : Site) (p : Pipeline) (name : String) (v : Value) (s : Tracked) :
    bind site p name v s =
      if p.assigns then
        match assign? site name v s.slots with
        | some slots => (.ok (), { s with slots })
        | none => (.error ⟨p.pos, .undefinedVariable name⟩, s)
      else (.ok (), { s with slots := ⟨name, v, some site, []⟩ :: s.slots }) := by
  change (ite _ _ _ : TrackedWalk Unit) s = _
  split
  · cases assign? site name v s.slots <;> rfl
  · rfl

theorem erases_bindVariable (site : Site) (p : Pipeline) (name : String) (v : Value) :
    Erases (bind site p name v) (Walk.bind p name v) := by
  intro s
  rw [bind_variable_apply, Walk.bind_variable_apply]
  split
  · have hassign : Walk.assign? name v s.state.bindings =
        (assign? site name v s.slots).map (List.map Slot.binding) := (map_assign? ..).symm
    rw [hassign]
    cases assign? site name v s.slots <;> rfl
  · rfl

theorem erases_bindAll (site : Site) (p : Pipeline) (v : Value) (names : List String) :
    Erases (bindAll site p v names) (Walk.bindAll p v names) := by
  induction names with
  | nil => exact erases_pure ()
  | cons name rest ih => exact erases_bind (erases_bindVariable site p name v) fun _ => ih

theorem erases_evaluateAndBind (env : Env) (mode : Mode) (dot : Value) (site : Site) (p : Pipeline) :
    Erases (evaluateAndBind env mode dot site p) (Walk.evaluateAndBind env mode dot p) :=
  erases_bind (erases_evaluate env mode dot p) fun v =>
    erases_bind (erases_bindAll site p v p.names) fun _ => erases_pure v

theorem erases_countVariables : Erases countVariables Walk.countVariables := by
  intro s
  have hlength : s.state.bindings.length = s.slots.length := List.length_map ..
  rw [Walk.countVariables_apply, hlength]
  rfl

theorem erases_keepVariables (count : Nat) :
    Erases (keepVariables count) (Walk.keepVariables count) := by
  intro s
  have hlength : s.state.bindings.length = s.slots.length := List.length_map ..
  have hdrop : s.state.bindings.drop (s.slots.length - count) =
      (s.slots.drop (s.slots.length - count)).map Slot.binding := List.map_drop.symm
  rw [Walk.keepVariables_apply, hlength, hdrop]
  rfl

theorem erases_action (env : Env) (dot : Value) (site : Site) (p : Pipeline) :
    Erases (action env dot site p) (Walk.action env dot p) := by
  refine erases_bind (erases_evaluateAndBind env .strict dot site p) fun v => ?_
  by_cases hsets : p.setsVariables
  · simp only [hsets, if_true]
    exact erases_pure ()
  · by_cases hcaptures : p.capturesValue
    · simp only [hsets, hcaptures, Bool.false_eq_true, if_false, if_true]
      exact fun s => erases_emit (.argument p.pos (s.captured.headD .null)) s
    · simp only [hsets, hcaptures, Bool.false_eq_true, if_false]
      exact erases_emit (.value v)

theorem erases_bindRound (site : Site) (p : Pipeline) (key item : Value) :
    Erases (bindRound site p key item) (Walk.bindRound p key item) := by
  unfold bindRound Walk.bindRound
  rcases p.names with _ | ⟨first, _ | ⟨second, _ | ⟨third, rest⟩⟩⟩
  · exact erases_pure ()
  · exact erases_bindVariable site p first item
  · exact erases_bind (erases_bindVariable site p first key) fun _ =>
      erases_bindVariable site p second item
  · exact erases_pure ()

theorem erases_rounds (site : Site) (p : Pipeline) (count : Nat)
    {body : Value → TrackedWalk (Option Jump)} {body' : Value → Walk (Option Jump)}
    (hbody : ∀ item, Erases (body item) (body' item)) (items : List (Value × Value)) :
    Erases (rounds site p count body items) (Walk.rounds p count body' items) := by
  induction items with
  | nil => exact erases_pure ()
  | cons round rest ih =>
    obtain ⟨key, item⟩ := round
    rw [rounds, Walk.rounds]
    refine erases_bind (erases_keepVariables count) fun _ => ?_
    refine erases_bind (erases_bindRound site p key item) fun _ => ?_
    refine erases_bind (hbody item) fun jump => ?_
    rcases jump with _ | _ | _
    · exact ih
    · exact erases_pure ()
    · exact ih

theorem isolated_apply (data : Value) (body : TrackedWalk (Option Jump)) (s : Tracked) :
    isolated data body s =
      match body { s with slots := [.root data] } with
      | (.ok _, after) => (.ok (), { after with slots := s.slots })
      | (.error e, after) => (.error e, after) := by
  change (body >>= fun _ => (modify fun after => { after with slots := s.slots } :
    TrackedWalk Unit)) { s with slots := [.root data] } = _
  rw [bind_apply]
  rcases body { s with slots := [.root data] } with ⟨result, after⟩
  cases result <;> rfl

theorem erases_isolated (data : Value) {m : TrackedWalk (Option Jump)} {n : Walk (Option Jump)}
    (h : Erases m n) : Erases (isolated data m) (Walk.isolated data n) := by
  intro s
  have hbody : _ = n { s.state with bindings := [("$", data)] } :=
    h { s with slots := [.root data] }
  rw [isolated_apply, Walk.isolated_apply, ← hbody]
  rcases m { s with slots := [.root data] } with ⟨result, after⟩
  cases result <;> rfl

end Steps

/-! ### Whole runs -/

section Runs

variable {env : Env} {enter : Enter} {enter' : Option (Value → List Node → Walk (Option Jump))}

/-- Two ways to walk over the body of a called template: with a record and without. -/
inductive EnterErases : Enter → Option (Value → List Node → Walk (Option Jump)) → Prop
  | none : EnterErases none none
  | some {enter : String → Value → List Node → TrackedWalk (Option Jump)}
      {enter' : Value → List Node → Walk (Option Jump)} :
      (∀ name data nodes, Erases (enter name data nodes) (enter' data nodes)) →
      EnterErases (some enter) (some enter')

mutual

theorem erases_walkNode (henter : EnterErases enter enter') (dot : Value) (site : Site) :
    ∀ n : Node, Erases (walkNode env enter dot site n) (Run.walkNode env enter' dot n)
  | .text s =>
    erases_visit site (erases_bind (erases_emit (.text s)) fun _ => erases_pure none)
  | .action p =>
    erases_visit site (erases_bind (erases_action env dot site p) fun _ => erases_pure none)
  | .control kind pos p body otherwise => by
    have hbody := fun dot => erases_walkNodes henter dot site.body body
    have hotherwise := erases_walkOtherwise henter dot site.otherwise otherwise
    by_cases hkind : kind = .range
    · subst hkind
      rw [Run.walkNode_range, walkNode_range]
      refine erases_visit site (erases_bind (erases_evaluate env .lenient dot p) fun source => ?_)
      unfold loop
      rcases roundsOf? source with _ | _ | ⟨round, rest⟩
      · exact erases_fail pos _
      · exact hotherwise
      · refine erases_bind erases_countVariables fun count => ?_
        refine erases_bind (erases_rounds site p count hbody _) fun _ => ?_
        exact erases_bind (erases_keepVariables count) fun _ => erases_pure none
    · rw [Run.walkNode_branch (h := hkind), walkNode_branch (h := hkind)]
      refine erases_visit site (erases_bind erases_countVariables fun count => ?_)
      refine erases_bind (erases_evaluateAndBind env .lenient dot site p) fun v => ?_
      have hrest := fun jump : Option Jump =>
        erases_bind (erases_keepVariables count) fun _ => erases_pure jump
      unfold branch
      cases v.isTruthy with
      | false => exact erases_bind hotherwise hrest
      | true => exact erases_bind (hbody _) hrest
  | .invoke pos name data => by
    unfold Run.walkNode walkNode
    refine erases_visit site ?_
    generalize Entries.find? name env.definitions = found
    rcases found with _ | nodes
    · exact erases_fail pos _
    · cases henter with
      | none => exact erases_fail pos _
      | some henter =>
        have hrest := fun v => erases_bind (erases_isolated v (henter name v nodes)) fun _ =>
          erases_pure (none : Option Jump)
        cases data with
        | none => exact erases_bind (erases_pure Value.null) hrest
        | some p => exact erases_bind (erases_evaluate env .strict dot p) hrest
  | .jump kind _ => erases_visit site (erases_pure (some kind))

theorem erases_walkNodes (henter : EnterErases enter enter') (dot : Value) (site : Site) :
    ∀ nodes : List Node,
      Erases (walkNodes env enter dot site nodes) (Run.walkNodes env enter' dot nodes)
  | [] => erases_pure none
  | n :: rest => by
    refine erases_bind (erases_walkNode henter dot site n) fun jump => ?_
    cases jump with
    | none => exact erases_walkNodes henter dot site.next rest
    | some kind => exact erases_pure (some kind)

theorem erases_walkOtherwise (henter : EnterErases enter enter') (dot : Value) (site : Site) :
    ∀ otherwise : Option (List Node),
      Erases (walkOtherwise env enter dot site otherwise) (Run.walkOtherwise env enter' dot otherwise)
  | none => erases_pure none
  | some nodes => erases_walkNodes henter dot site nodes

end

/-- Without its record a tracked run is the run. -/
theorem erases_walkAt (env : Env) (depth : Nat) (definition : Option String) (dot : Value)
    (nodes : List Node) :
    Erases (walkAt env depth definition dot nodes) (Run.walkAt env depth dot nodes) := by
  induction depth generalizing definition dot nodes with
  | zero => exact erases_walkNodes .none dot (.start definition) nodes
  | succ depth ih =>
    exact erases_walkNodes (.some fun name data nodes => ih (some name) data nodes) dot
      (.start definition) nodes

end Runs

/-! ### From nodes to whole runs -/

section Rules

variable {t : Template} {env : Env} {C : Site → TrackedWalk (Option Jump) → Prop}

/-- What has to be shown of the nodes of a template to show it of whole runs. `C` is said of the walk
over a node, or over the rest of a list of nodes, from the site of the node on. -/
structure Rules (t : Template) (env : Env) (C : Site → TrackedWalk (Option Jump) → Prop) :
    Prop where
  text {enter : Enter} {dot : Value} {site : Site} {s : String} :
    t.nodeAt? site = some (.text s) → C site (walkNode env enter dot site (.text s))
  action {enter : Enter} {dot : Value} {site : Site} {p : Pipeline} :
    t.nodeAt? site = some (.action p) → C site (walkNode env enter dot site (.action p))
  control {enter : Enter} {dot : Value} {site : Site} {kind : Control} {pos : Pos} {p : Pipeline}
      {body : List Node} {otherwise : Option (List Node)} :
    t.nodeAt? site = some (.control kind pos p body otherwise) →
    (∀ dot, C site.body (walkNodes env enter dot site.body body)) →
    C site.otherwise (walkOtherwise env enter dot site.otherwise otherwise) →
    C site (walkNode env enter dot site (.control kind pos p body otherwise))
  invoke {enter : Enter} {dot : Value} {site : Site} {pos : Pos} {name : String}
      {data : Option Pipeline} :
    t.nodeAt? site = some (.invoke pos name data) →
    (∀ walk nodes, enter = some walk → Entries.find? name env.definitions = some nodes →
      ∀ v, C (.start (some name)) (walk name v nodes)) →
    C site (walkNode env enter dot site (.invoke pos name data))
  jump {enter : Enter} {dot : Value} {site : Site} {kind : Jump} {pos : Pos} :
    t.nodeAt? site = some (.jump kind pos) → C site (walkNode env enter dot site (.jump kind pos))
  nil {site : Site} : C site (pure none)
  cons {enter : Enter} {dot : Value} {site : Site} {n : Node} {rest : List Node} :
    t.nodeAt? site = some n → C site (walkNode env enter dot site n) →
    C site.next (walkNodes env enter dot site.next rest) →
    C site (walkNodes env enter dot site (n :: rest))

namespace Rules

variable {enter : Enter}

mutual

theorem walkNode (rules : Rules t env C)
    (hcalls : ∀ name walk nodes, enter = some walk →
      Entries.find? name env.definitions = some nodes →
      ∀ v, C (.start (some name)) (walk name v nodes)) (dot : Value) (site : Site) :
    ∀ n : Node, t.nodeAt? site = some n → C site (TrackedWalk.walkNode env enter dot site n)
  | .text _, h => rules.text h
  | .action _, h => rules.action h
  | .control _ _ _ body otherwise, h => by
    refine rules.control h (fun dot => ?_) ?_
    · exact walkNodes rules hcalls dot site.body body (Template.nodesAt_body h)
    · refine walkOtherwise rules hcalls dot site.otherwise otherwise fun nodes hnodes => ?_
      cases hnodes
      exact Template.nodesAt_otherwise h
  | .invoke _ name _, h => rules.invoke h (hcalls name)
  | .jump _ _, h => rules.jump h

theorem walkNodes (rules : Rules t env C)
    (hcalls : ∀ name walk nodes, enter = some walk →
      Entries.find? name env.definitions = some nodes →
      ∀ v, C (.start (some name)) (walk name v nodes)) (dot : Value) (site : Site) :
    ∀ nodes : List Node, t.NodesAt site nodes →
      C site (TrackedWalk.walkNodes env enter dot site nodes)
  | [], _ => rules.nil
  | n :: rest, h => by
    refine rules.cons h.head ?_ ?_
    · exact walkNode rules hcalls dot site n h.head
    · exact walkNodes rules hcalls dot site.next rest h.tail

theorem walkOtherwise (rules : Rules t env C)
    (hcalls : ∀ name walk nodes, enter = some walk →
      Entries.find? name env.definitions = some nodes →
      ∀ v, C (.start (some name)) (walk name v nodes)) (dot : Value) (site : Site) :
    ∀ otherwise : Option (List Node), (∀ nodes ∈ otherwise, t.NodesAt site nodes) →
      C site (TrackedWalk.walkOtherwise env enter dot site otherwise)
  | none, _ => rules.nil
  | some nodes, h => walkNodes rules hcalls dot site nodes (h nodes rfl)

end

/-- What is shown of nodes holds of runs, as deep as calls may go. -/
theorem walkAt (rules : Rules t env C) (henv : env.definitions = t.definitions) (depth : Nat)
    {definition : Option String} {nodes : List Node} (h : t.body? definition = some nodes)
    (dot : Value) : C (.start definition) (TrackedWalk.walkAt env depth definition dot nodes) := by
  induction depth generalizing definition dot nodes with
  | zero =>
    refine rules.walkNodes (fun _ _ _ hnone => ?_) dot _ nodes (Template.nodesAt_start h)
    cases hnone
  | succ depth ih =>
    refine rules.walkNodes (fun name walk nodes' hwalk hfind v => ?_) dot _ nodes
      (Template.nodesAt_start h)
    cases hwalk
    rw [henv] at hfind
    have hbody : t.body? (some name) = some nodes' := hfind
    exact ih hbody v

end Rules

end Rules

end TrackedWalk

/-! ### Runs of templates -/

/-- A tracked run of a template on data, after runs that captured some values already. -/
def tracked (functions : Registry) (t : Template) (data : Value) (before : List Value) :
    Except EvalError (Option Jump) × Tracked :=
  TrackedWalk.walkAt ⟨functions, t.definitions⟩ maxDepth none data t.root
    ⟨[.root data], [], before.reverse, []⟩

/-- The nodes that a run comes to, the first first. -/
def visits (functions : Registry) (t : Template) (data : Value) (before : List Value) :
    List Visit :=
  (tracked functions t data before).2.visits.reverse

theorem ending_eq_tracked (functions : Registry) (t : Template) (data : Value)
    (before : List Value) :
    ending functions t data before =
      ((tracked functions t data before).1, (tracked functions t data before).2.state) :=
  (TrackedWalk.erases_walkAt ⟨functions, t.definitions⟩ maxDepth none data t.root
    ⟨[.root data], [], before.reverse, []⟩).symm

end BoundQuery.Run
