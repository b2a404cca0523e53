/-
# Writings

What the plain run of a template writes, piece by piece, with the node that each piece comes from.
The captured run writes the same pieces with marks in place of the captured values, as long as no
piece is refused; where one is, the captured run ends with the refusal.

Main statements: `shadows_walkAt`, `ending_capture_of_writings`.
-/

import BoundQuery.Proofs.Run.Marks
import BoundQuery.Proofs.Run.Spelled

namespace BoundQuery

namespace Template

/-- Whether a run that comes to the node writes a piece for it. -/
def Node.writes : Node → Bool
  | .text _ => true
  | .action p => !p.setsVariables
  | _ => false

def writesAt (t : Template) (site : Site) : Bool :=
  (t.nodeAt? site).any Node.writes

/-- The pipeline at a site, if capturing the template hands its value to the capture function. -/
def capturedAt? (t : Template) (site : Site) : Option Pipeline :=
  (t.capture.actionAt? site).filter Pipeline.capturesValue

/-- A captured pipeline is at the position where it was. -/
theorem exists_of_capturedAt? {t : Template} {site : Site} {p : Pipeline}
    (h : t.capturedAt? site = some p) : ∃ q, t.actionAt? site = some q ∧ p.pos = q.pos := by
  obtain ⟨bound, -, hcapture⟩ := t.actionAt?_capture site
  obtain ⟨hp, -⟩ := Option.filter_eq_some_iff.mp h
  rw [hcapture] at hp
  obtain ⟨q, hq, rfl⟩ := Option.map_eq_some_iff.mp hp
  refine ⟨q, hq, ?_⟩
  rcases q.captureAction_eq_or bound with heq | ⟨pos, heq⟩ <;> rw [heq]
  rfl

end Template

namespace Run

open Template (Node Pipeline Jump Control Site captureName captureNodes captureOtherwise)
open Text (Pos)
open TrackedWalk

/-- A piece that a run writes, and the site of the node that it is written for. -/
structure Writing where
  site : Site
  piece : Emission

namespace Writing

/-- The node at the site writes such a piece, where nothing is captured: a text as it stands, or the
value of an action. -/
inductive Of (t : Template) : Writing → Prop
  | text {site : Site} {s : String} : t.nodeAt? site = some (.text s) → Of t ⟨site, .text s⟩
  | value {site : Site} {p : Pipeline} {v : Value} :
      t.nodeAt? site = some (.action p) → p.setsVariables = false → Of t ⟨site, .value v⟩

/-- The piece that the captured run writes: a mark in place of a captured value. -/
def marked (t : Template) (w : Writing) : Emission :=
  match t.capturedAt? w.site, w.piece with
  | some p, .value v => .argument p.pos v
  | _, e => e

end Writing

/-- The sites of the nodes that a run came to and wrote pieces for. -/
def Tracked.sitesWritten (t : Template) (s : Tracked) : List Site :=
  (s.visits.reverse.map Visit.site).filter t.writesAt

/-- From the one state to the other the run writes `ws`, a piece at each node that writes one. -/
structure Tracked.Adds (t : Template) (s s' : Tracked) (ws : List Writing) : Prop where
  sites : s'.sitesWritten t = s.sitesWritten t ++ ws.map Writing.site
  trace : s'.trace = (ws.map Writing.piece).reverse ++ s.trace
  nodes : ∀ w ∈ ws, w.Of t

/-- How a walk ends that has pieces to write: with the value `a` if all are written, or with the
refusal of one. -/
inductive Follows {α : Type} (a : α) (bindings : Variables) :
    Except EvalError Trace → Except EvalError α × State → Prop
  | ok {trace : Trace} {captured : List Value} :
      Follows a bindings (.ok trace) (.ok a, ⟨bindings, trace, captured⟩)
  | error {err : EvalError} {s : State} : Follows a bindings (.error err) (.error err, s)

/-- Where the one walk succeeds, the other writes the same pieces with marks for captured values. It
does so after whatever was written before it, and ends with the same value and the same variables
unless a piece is refused. -/
def Shadows (t : Template) {α : Type} (m : TrackedWalk α) (n : Walk α) : Prop :=
  ∀ s a s', m s = (.ok a, s') → ∃ ws, s.Adds t s' ws ∧ ∀ trace captured,
    Follows a s'.state.bindings (Trace.emitAll (ws.map (Writing.marked t)) trace)
      (n ⟨s.state.bindings, trace, captured⟩)

/-! ### Steps -/

section Steps

variable {t : Template} {α β : Type} {m : TrackedWalk α} {n : Walk α}

theorem Tracked.Adds.append {s mid s' : Tracked} {ws ws' : List Writing} (h : s.Adds t mid ws)
    (h' : mid.Adds t s' ws') : s.Adds t s' (ws ++ ws') where
  sites := by rw [h'.sites, h.sites, List.map_append, List.append_assoc]
  trace := by rw [h'.trace, h.trace, List.map_append, List.reverse_append, List.append_assoc]
  nodes w hw := (List.mem_append.mp hw).elim (h.nodes w) (h'.nodes w)

theorem Tracked.adds_nil {s s' : Tracked} (h : s'.trace = s.trace ∧ s'.visits = s.visits) :
    s.Adds t s' [] where
  sites := by simp [sitesWritten, h.2]
  trace := h.1
  nodes := nofun

theorem shadows_pure (a : α) : Shadows t (pure a) (pure a) := by
  intro s _ s' h
  cases h
  exact ⟨[], Tracked.adds_nil ⟨rfl, rfl⟩, fun _ _ => .ok⟩

theorem shadows_bind {f : α → TrackedWalk β} {g : α → Walk β} (hm : Shadows t m n)
    (hf : ∀ a, Shadows t (f a) (g a)) : Shadows t (m >>= f) (n >>= g) := by
  intro s b s' h
  obtain ⟨a, mid, hfirst, hrest⟩ := bind_apply_eq_ok_iff.mp h
  obtain ⟨ws, hadds, hfollows⟩ := hm s a mid hfirst
  obtain ⟨ws', hadds', hfollows'⟩ := hf a mid b s' hrest
  refine ⟨ws ++ ws', hadds.append hadds', fun trace captured => ?_⟩
  have hwritten := hfollows trace captured
  rw [List.map_append, Trace.emitAll_append, bind_apply]
  generalize Trace.emitAll (ws.map _) trace = written, n _ = outcome at hwritten ⊢
  cases hwritten with
  | ok => exact hfollows' _ _
  | error => exact .error

theorem shadows_fail (pos : Pos) (fault : EvalFault) (n : Walk α) :
    Shadows t (TrackedWalk.fail pos fault) n := by
  intro s a s' h
  cases h

/-- A step that writes nothing, and takes no notice of what was written or captured. -/
theorem shadows_of_silent (hsilent : Silent m) (h : ∀ s a s', m s = (.ok a, s') →
    ∀ trace captured, ∃ captured', n ⟨s.state.bindings, trace, captured⟩ =
      (.ok a, ⟨s'.state.bindings, trace, captured'⟩)) : Shadows t m n := by
  intro s a s' hrun
  have hwritten := hsilent s
  rw [hrun] at hwritten
  refine ⟨[], Tracked.adds_nil hwritten, fun trace captured => ?_⟩
  obtain ⟨captured', hn⟩ := h s a s' hrun trace captured
  rw [hn]
  exact .ok

theorem shadows_countVariables : Shadows t countVariables Walk.countVariables := by
  refine shadows_of_silent silent_countVariables ?_
  rintro s _ _ ⟨⟩ trace captured
  exact ⟨captured, (erases_countVariables { s with trace, captured }).symm⟩

theorem shadows_keepVariables (count : Nat) :
    Shadows t (keepVariables count) (Walk.keepVariables count) := by
  refine shadows_of_silent (silent_keepVariables count) ?_
  rintro s _ _ ⟨⟩ trace captured
  exact ⟨captured, (erases_keepVariables count { s with trace, captured }).symm⟩

theorem shadows_bindVariable (site : Site) (p : Pipeline) (name : String) (v : Value) :
    Shadows t (TrackedWalk.bind site p name v) (Walk.bind p name v) := by
  refine shadows_of_silent (silent_bindVariable site p name v) ?_
  intro s u s' h trace captured
  refine ⟨captured, (erases_bindVariable site p name v { s with trace, captured }).symm.trans ?_⟩
  rw [TrackedWalk.bind_variable_apply] at h ⊢
  dsimp only at h ⊢
  split at h
  · rename_i hassigns
    rw [if_pos hassigns]
    split at h
    · cases h
      rfl
    · cases h
  · rename_i hassigns
    rw [if_neg hassigns]
    cases h
    rfl

theorem shadows_bindAll (site : Site) (p : Pipeline) (v : Value) (names : List String) :
    Shadows t (TrackedWalk.bindAll site p v names) (Walk.bindAll p v names) := by
  induction names with
  | nil => exact shadows_pure ()
  | cons name rest ih => exact shadows_bind (shadows_bindVariable site p name v) fun _ => ih

theorem shadows_bindRound (site : Site) (p : Pipeline) (key item : Value) :
    Shadows t (TrackedWalk.bindRound site p key item) (Walk.bindRound p key item) := by
  unfold TrackedWalk.bindRound Walk.bindRound
  rcases p.names with _ | ⟨first, _ | ⟨second, _ | ⟨third, rest⟩⟩⟩
  · exact shadows_pure ()
  · exact shadows_bindVariable site p first item
  · exact shadows_bind (shadows_bindVariable site p first key) fun _ =>
      shadows_bindVariable site p second item
  · exact shadows_pure ()

variable {env env' : Env} {p : Pipeline}

/-- A pipeline that does not name the capture function has one value in both runs. -/
theorem shadows_evaluate (hfunctions : env.functions = env'.functions)
    (h : captureName ∉ p.identifiers) (mode : Mode) (dot : Value) :
    Shadows t (plainly (Walk.evaluate env mode dot p)) (Walk.evaluate env' mode dot p) := by
  refine shadows_of_silent (silent_evaluate env mode dot p) ?_
  intro s v s' hrun trace captured
  obtain ⟨outcome, -, hp⟩ := evalPipeline_of_notMem h ⟨env'.functions, s.state.bindings, dot, mode⟩
  rw [plainly_apply, Walk.evaluate_apply, hfunctions, hp] at hrun
  cases hrun
  exact ⟨captured, by rw [Walk.evaluate_apply, hp]; rfl⟩

theorem shadows_evaluateAndBind (hfunctions : env.functions = env'.functions)
    (h : captureName ∉ p.identifiers) (mode : Mode) (dot : Value) (site : Site) :
    Shadows t (TrackedWalk.evaluateAndBind env mode dot site p)
      (Walk.evaluateAndBind env' mode dot p) :=
  shadows_bind (shadows_evaluate hfunctions h mode dot) fun v =>
    shadows_bind (shadows_bindAll site p v p.names) fun _ => shadows_pure v

theorem shadows_rounds {site : Site} {count : Nat} {body : Value → TrackedWalk (Option Jump)}
    {body' : Value → Walk (Option Jump)} (hbody : ∀ item, Shadows t (body item) (body' item))
    (items : List (Value × Value)) :
    Shadows t (TrackedWalk.rounds site p count body items) (Walk.rounds p count body' items) := by
  induction items with
  | nil => exact shadows_pure ()
  | cons round rest ih =>
    obtain ⟨key, item⟩ := round
    rw [TrackedWalk.rounds, Walk.rounds]
    refine shadows_bind (shadows_keepVariables count) fun _ => ?_
    refine shadows_bind (shadows_bindRound site p key item) fun _ => ?_
    refine shadows_bind (hbody item) fun jump => ?_
    rcases jump with _ | _ | _
    · exact ih
    · exact shadows_pure ()
    · exact ih

theorem shadows_isolated (data : Value) {m : TrackedWalk (Option Jump)} {n : Walk (Option Jump)}
    (h : Shadows t m n) : Shadows t (TrackedWalk.isolated data m) (Walk.isolated data n) := by
  intro s u s' hrun
  rw [TrackedWalk.isolated_apply] at hrun
  rcases hbody : m { s with slots := [.root data] } with ⟨result, after⟩
  rw [hbody] at hrun
  cases result with
  | error e => cases hrun
  | ok jump =>
    cases hrun
    obtain ⟨ws, hadds, hfollows⟩ := h _ _ _ hbody
    refine ⟨ws, ⟨hadds.sites, hadds.trace, hadds.nodes⟩, fun trace captured => ?_⟩
    have hwritten : Follows jump after.state.bindings _ (n ⟨[("$", data)], trace, captured⟩) :=
      hfollows trace captured
    rw [Walk.isolated_apply]
    dsimp only
    generalize Trace.emitAll (ws.map _) trace = written, n _ = outcome at hwritten ⊢
    cases hwritten with
    | ok => exact .ok
    | error => exact .error

end Steps

/-! ### Pieces -/

section Pieces

variable {t : Template} {site : Site}

/-- A node that writes nothing itself. -/
theorem shadows_visit {α : Type} (hwrites : t.writesAt site = false) {m : TrackedWalk α} {n : Walk α}
    (h : Shadows t m n) : Shadows t (visit site >>= fun _ => m) n := by
  intro s a s' hrun
  obtain ⟨ws, hadds, hfollows⟩ := h { s with visits := ⟨site, s.slots⟩ :: s.visits } a s' hrun
  have hsites : Tracked.sitesWritten t { s with visits := ⟨site, s.slots⟩ :: s.visits } =
      s.sitesWritten t := by
    simp [Tracked.sitesWritten, hwrites]
  exact ⟨ws, ⟨hsites ▸ hadds.sites, hadds.trace, hadds.nodes⟩, hfollows⟩

/-- A node that writes a piece. -/
theorem shadows_write (hwrites : t.writesAt site = true) {m : TrackedWalk Unit} {n : Walk Unit}
    (h : ∀ s u s', m s = (.ok u, s') → ∃ e, Writing.Of t ⟨site, e⟩ ∧ s'.slots = s.slots ∧
      s'.trace = e :: s.trace ∧ s'.visits = s.visits ∧ ∀ trace captured, ∃ captured',
        n ⟨s.state.bindings, trace, captured⟩ =
          Walk.emit (Writing.marked t ⟨site, e⟩) ⟨s.state.bindings, trace, captured'⟩) :
    Shadows t (visit site >>= fun _ => m >>= fun _ => pure (none : Option Jump))
      (n >>= fun _ => pure none) := by
  intro s jump s' hrun
  obtain ⟨_, visited, hvisit, hrun⟩ := bind_apply_eq_ok_iff.mp hrun
  cases hvisit
  obtain ⟨u, after, hwrite, hpure⟩ := bind_apply_eq_ok_iff.mp hrun
  cases hpure
  obtain ⟨e, hof, hslots, htrace, hvisits, hn⟩ := h _ _ _ hwrite
  refine ⟨[⟨site, e⟩], ⟨?_, htrace, ?_⟩, fun trace captured => ?_⟩
  · simp [Tracked.sitesWritten, hvisits, hwrites]
  · rintro w hw
    cases List.mem_singleton.mp hw
    exact hof
  · obtain ⟨captured', hn⟩ := hn trace captured
    have hn : n ⟨s.state.bindings, trace, captured⟩ =
        Walk.emit (Writing.marked t ⟨site, e⟩) ⟨s.state.bindings, trace, captured'⟩ := hn
    have hbindings : s'.state.bindings = s.state.bindings := congrArg (List.map Slot.binding) hslots
    rw [List.map_singleton, Trace.emitAll_singleton, bind_apply, hn, Walk.emit_apply, hbindings]
    cases Trace.emit (Writing.marked t ⟨site, e⟩) trace with
    | error err => exact .error
    | ok trace' => exact .ok

theorem slots_of_plainly {α : Type} {m : Walk α} {s s' : Tracked} {a : α}
    (h : plainly m s = (.ok a, s')) : s'.slots = s.slots :=
  (congrArg (·.2.slots) h).symm

theorem shadows_text {s : String} (hn : t.nodeAt? site = some (.text s)) :
    Shadows t (visit site >>= fun _ => plainly (Walk.emit (.text s)) >>= fun _ =>
      pure (none : Option Jump)) (Walk.emit (.text s) >>= fun _ => pure none) := by
  refine shadows_write (by simp [Template.writesAt, hn, Node.writes]) fun before u after hwrite => ?_
  obtain ⟨htrace, hvisits⟩ := written_emit hwrite
  have hmarked : Writing.marked t ⟨site, .text s⟩ = .text s := by
    unfold Writing.marked
    split <;> simp_all
  refine ⟨.text s, .text hn, slots_of_plainly hwrite, htrace, hvisits, fun trace captured => ?_⟩
  exact ⟨captured, by rw [hmarked]⟩

variable {env env' : Env} {p : Pipeline} {dot : Value}

/-- An action of the plain run writes its value. -/
theorem written_value (hfree : captureName ∉ p.identifiers) (hsets : p.setsVariables = false)
    {s s' : Tracked} {u : Unit} (h : TrackedWalk.action env dot site p s = (.ok u, s')) :
    ∃ v, (∀ captured, evalPipeline ⟨env.functions, s.state.bindings, dot, .strict⟩ p captured =
        (.ok v, captured)) ∧
      s'.slots = s.slots ∧ s'.trace = .value v :: s.trace ∧ s'.visits = s.visits := by
  have hnames : p.names = [] := by simpa [Pipeline.setsVariables] using hsets
  obtain ⟨outcome, -, hp⟩ :=
    evalPipeline_of_notMem hfree ⟨env.functions, s.state.bindings, dot, .strict⟩
  obtain ⟨v, bound, hbind, hwrite⟩ := bind_apply_eq_ok_iff.mp h
  obtain ⟨w, evaluated, heval, hbind⟩ := bind_apply_eq_ok_iff.mp hbind
  rw [hnames] at hbind
  cases hbind
  rw [plainly_apply, Walk.evaluate_apply, hp] at heval
  cases heval
  rw [if_neg (by simp [hsets]), if_neg (by simp [Pipeline.capturesValue_of_notMem hfree])] at hwrite
  obtain ⟨htrace, hvisits⟩ := written_emit hwrite
  exact ⟨v, hp, slots_of_plainly hwrite, htrace, hvisits⟩

/-- The captured action writes the value as well, or the mark for it. -/
theorem action_captureAction (hfree : captureName ∉ p.identifiers) (hsets : p.setsVariables = false)
    {bound : List String} (hcapture : t.capture.actionAt? site = some (p.captureAction bound))
    {s : State} {v : Value}
    (hp : ∀ captured, evalPipeline ⟨env.functions, s.bindings, dot, .strict⟩ p captured =
      (.ok v, captured)) :
    ∃ captured, Walk.action env dot (p.captureAction bound) s =
      Walk.emit (Writing.marked t ⟨site, .value v⟩) { s with captured } := by
  rw [Pipeline.captureAction, if_neg (by simp [hsets])] at hcapture ⊢
  have hplain : p.capturesValue = false := Pipeline.capturesValue_of_notMem hfree
  rcases p.capture_eq_or bound with heq | ⟨hne, pos, heq⟩
  · rw [heq] at hcapture ⊢
    have hmarked : Writing.marked t ⟨site, .value v⟩ = .value v := by
      simp [Writing.marked, Template.capturedAt?, hcapture, hplain]
    refine ⟨s.captured, ?_⟩
    rw [Walk.action_apply, Walk.evaluateAndBind_apply (h := hsets), Walk.evaluate_apply, hp, hmarked]
    simp [hsets, hplain]
  · rw [heq] at hcapture ⊢
    have hmarked : Writing.marked t ⟨site, .value v⟩ = .argument p.pos v := by
      simp only [Writing.marked, Template.capturedAt?, hcapture, Option.filter_some,
        Pipeline.capturesValue_handOn]
      rfl
    have heval : evalPipeline ⟨env.functions, s.bindings, dot, .strict⟩ (p.handOn pos) =
        evalPipeline ⟨env.functions, s.bindings, dot, .strict⟩ p >>= Eval.capture :=
      evalPipeline_capture _ hne pos
    refine ⟨v :: s.captured, ?_⟩
    rw [Walk.action_apply, Walk.evaluateAndBind_apply (p := p.handOn pos) (h := hsets),
      Walk.evaluate_apply, heval, bind_apply, hp, hmarked]
    simp only [Pipeline.setsVariables_handOn, Pipeline.capturesValue_handOn, hsets]
    rfl

theorem shadows_action (hfunctions : env.functions = env'.functions)
    (hfree : captureName ∉ p.identifiers) (hn : t.nodeAt? site = some (.action p))
    {bound : List String} (hcapture : t.capture.actionAt? site = some (p.captureAction bound)) :
    Shadows t (visit site >>= fun _ => TrackedWalk.action env dot site p >>= fun _ =>
        pure (none : Option Jump))
      (Walk.action env' dot (p.captureAction bound) >>= fun _ => pure none) := by
  by_cases hsets : p.setsVariables
  · -- The action sets variables in both runs, and writes nothing.
    refine shadows_visit (by simp [Template.writesAt, hn, Node.writes, hsets]) ?_
    rw [Pipeline.captureAction, if_pos hsets]
    unfold TrackedWalk.action Walk.action
    simp only [hsets, if_true]
    exact shadows_bind (shadows_bind (shadows_evaluateAndBind hfunctions hfree .strict dot site)
      fun _ => shadows_pure ()) fun _ => shadows_pure none
  · have hsets : p.setsVariables = false := by simpa using hsets
    refine shadows_write (by simp [Template.writesAt, hn, Node.writes, hsets]) ?_
    intro s u s' hwrite
    obtain ⟨v, hp, hslots, htrace, hvisits⟩ := written_value hfree hsets hwrite
    refine ⟨.value v, .value hn hsets, hslots, htrace, hvisits, fun trace captured => ?_⟩
    rw [hfunctions] at hp
    exact action_captureAction (s := ⟨s.state.bindings, trace, captured⟩) hfree hsets hcapture hp

end Pieces

/-! ### Whole runs -/

section Runs

variable {t : Template} {functions : Registry} {enter : Enter}
  {enter' : Option (Value → List Node → Walk (Option Jump))}

/-- Ways to walk over the bodies of called templates, as they are and captured. -/
inductive EnterShadows (t : Template) : Enter → Option (Value → List Node → Walk (Option Jump)) → Prop
  | none : EnterShadows t none none
  | some {enter : String → Value → List Node → TrackedWalk (Option Jump)}
      {enter' : Value → List Node → Walk (Option Jump)} :
      (∀ name nodes, Entries.find? name t.definitions = some nodes →
        ∀ v, Shadows t (enter name v nodes) (enter' v (captureNodes [] [] nodes))) →
      EnterShadows t (some enter) (some enter')

section Controls

variable {dot : Value} {site : Site} {pos : Pos} {p : Pipeline} {body body' : List Node}
  {otherwise otherwise' : Option (List Node)}

theorem shadows_range (hp : captureName ∉ p.identifiers) (hwrites : t.writesAt site = false)
    (hbody : ∀ dot, Shadows t
      (TrackedWalk.walkNodes ⟨functions, t.definitions⟩ enter dot site.body body)
      (Run.walkNodes ⟨functions, t.capture.definitions⟩ enter' dot body'))
    (hotherwise : Shadows t
      (TrackedWalk.walkOtherwise ⟨functions, t.definitions⟩ enter dot site.otherwise otherwise)
      (Run.walkOtherwise ⟨functions, t.capture.definitions⟩ enter' dot otherwise')) :
    Shadows t
      (TrackedWalk.walkNode ⟨functions, t.definitions⟩ enter dot site
        (.control .range pos p body otherwise))
      (Run.walkNode ⟨functions, t.capture.definitions⟩ enter' dot
        (.control .range pos p body' otherwise')) := by
  rw [TrackedWalk.walkNode_range, Run.walkNode_range]
  refine shadows_visit hwrites (shadows_bind (shadows_evaluate rfl hp .lenient dot) fun source => ?_)
  unfold TrackedWalk.loop
  rcases roundsOf? source with _ | _ | ⟨round, rest⟩
  · exact shadows_fail pos _ _
  · exact hotherwise
  · refine shadows_bind shadows_countVariables fun count => ?_
    refine shadows_bind (shadows_rounds hbody _) fun _ => ?_
    exact shadows_bind (shadows_keepVariables count) fun _ => shadows_pure none

theorem shadows_branch {kind : Control} (hkind : kind ≠ .range) (hp : captureName ∉ p.identifiers)
    (hwrites : t.writesAt site = false)
    (hbody : ∀ dot, Shadows t
      (TrackedWalk.walkNodes ⟨functions, t.definitions⟩ enter dot site.body body)
      (Run.walkNodes ⟨functions, t.capture.definitions⟩ enter' dot body'))
    (hotherwise : Shadows t
      (TrackedWalk.walkOtherwise ⟨functions, t.definitions⟩ enter dot site.otherwise otherwise)
      (Run.walkOtherwise ⟨functions, t.capture.definitions⟩ enter' dot otherwise')) :
    Shadows t
      (TrackedWalk.walkNode ⟨functions, t.definitions⟩ enter dot site
        (.control kind pos p body otherwise))
      (Run.walkNode ⟨functions, t.capture.definitions⟩ enter' dot
        (.control kind pos p body' otherwise')) := by
  rw [TrackedWalk.walkNode_branch (h := hkind), Run.walkNode_branch (h := hkind)]
  refine shadows_visit hwrites (shadows_bind shadows_countVariables fun count => ?_)
  refine shadows_bind (shadows_evaluateAndBind rfl hp .lenient dot site) fun v => ?_
  have hrest := fun jump : Option Jump =>
    shadows_bind (t := t) (shadows_keepVariables count) fun _ => shadows_pure jump
  unfold TrackedWalk.branch
  cases v.isTruthy with
  | false => exact shadows_bind hotherwise hrest
  | true => exact shadows_bind (hbody _) hrest

/-- The captured body of the called template is walked over in isolation, as the body is. -/
theorem shadows_invoke (henter : EnterShadows t enter enter') {name : String}
    {data : Option Pipeline} (hp : ∀ p ∈ data, captureName ∉ p.identifiers)
    (hwrites : t.writesAt site = false) :
    Shadows t
      (TrackedWalk.walkNode ⟨functions, t.definitions⟩ enter dot site (.invoke pos name data))
      (Run.walkNode ⟨functions, t.capture.definitions⟩ enter' dot (.invoke pos name data)) := by
  have hfind : Entries.find? name t.capture.definitions =
      (Entries.find? name t.definitions).map (captureNodes [] []) :=
    Entries.find?_map (captureNodes [] []) name t.definitions
  unfold TrackedWalk.walkNode Run.walkNode
  refine shadows_visit hwrites ?_
  dsimp only
  rw [hfind]
  cases hbody : Entries.find? name t.definitions with
  | none => exact shadows_fail pos _ _
  | some nodes =>
    cases henter with
    | none => exact shadows_fail pos _ _
    | some henter =>
      have hrest := fun v => shadows_bind (shadows_isolated v (henter name nodes hbody v))
        fun _ => shadows_pure (none : Option Jump)
      cases data with
      | none => exact shadows_bind (shadows_pure Value.null) hrest
      | some p => exact shadows_bind (shadows_evaluate rfl (hp p rfl) .strict dot) hrest

end Controls

mutual

theorem shadows_walkNode (hfree : captureName ∉ t.identifiers) (henter : EnterShadows t enter enter')
    (dot : Value) (site : Site) (loop earlier : List String) :
    ∀ n : Node, t.nodeAt? site = some n → t.capture.nodeAt? site = some (n.capture loop earlier) →
      Shadows t (TrackedWalk.walkNode ⟨functions, t.definitions⟩ enter dot site n)
        (Run.walkNode ⟨functions, t.capture.definitions⟩ enter' dot (n.capture loop earlier))
  | .text s, hn, _ => shadows_text hn
  | .action p, hn, hcapture => by
    have hp := Template.notMem_identifiers hfree (Template.mem_nodes_of_nodeAt? hn) p
      (List.mem_singleton_self p)
    rw [Node.capture_action] at hcapture ⊢
    exact shadows_action rfl hp hn (Template.nodeAt?_eq_action_iff.mp hcapture)
  | .control kind pos p body otherwise, hn, hcapture => by
    have hp := Template.notMem_identifiers hfree (Template.mem_nodes_of_nodeAt? hn) p
      (List.mem_singleton_self p)
    have hwrites : t.writesAt site = false := by simp [Template.writesAt, hn, Node.writes]
    rw [Node.capture] at hcapture ⊢
    have hbody := fun dot => shadows_walkNodes hfree henter dot site.body _ [] body
      (Template.nodesAt_body hn) (Template.nodesAt_body hcapture)
    have hotherwise := shadows_walkOtherwise hfree henter dot site.otherwise loop otherwise
      (fun nodes hnodes => Template.nodesAt_otherwise (hnodes ▸ hn))
      (fun nodes hnodes => Template.nodesAt_otherwise (hnodes ▸ hcapture))
    by_cases hkind : kind = .range
    · subst hkind
      exact shadows_range hp hwrites hbody hotherwise
    · exact shadows_branch hkind hp hwrites hbody hotherwise
  | .invoke pos name data, hn, _ => by
    have hp := Template.notMem_identifiers hfree (Template.mem_nodes_of_nodeAt? hn)
    rw [Node.capture]
    refine shadows_invoke henter (fun p hdata => hp p ?_) ?_
    · simpa [Node.pipelines] using hdata
    · simp [Template.writesAt, hn, Node.writes]
  | .jump kind _, hn, _ =>
    shadows_visit (by simp [Template.writesAt, hn, Node.writes]) (shadows_pure (some kind))

theorem shadows_walkNodes (hfree : captureName ∉ t.identifiers) (henter : EnterShadows t enter enter')
    (dot : Value) (site : Site) (loop earlier : List String) :
    ∀ nodes : List Node, t.NodesAt site nodes →
      t.capture.NodesAt site (captureNodes loop earlier nodes) →
      Shadows t (TrackedWalk.walkNodes ⟨functions, t.definitions⟩ enter dot site nodes)
        (Run.walkNodes ⟨functions, t.capture.definitions⟩ enter' dot
          (captureNodes loop earlier nodes))
  | [], _, _ => shadows_pure none
  | n :: rest, h, hcapture => by
    rw [Template.captureNodes_cons] at hcapture ⊢
    refine shadows_bind ?_ fun jump => ?_
    · exact shadows_walkNode hfree henter dot site loop earlier n h.head hcapture.head
    · cases jump with
      | none => exact shadows_walkNodes hfree henter dot site.next loop _ rest h.tail hcapture.tail
      | some kind => exact shadows_pure (some kind)

theorem shadows_walkOtherwise (hfree : captureName ∉ t.identifiers)
    (henter : EnterShadows t enter enter') (dot : Value) (site : Site) (loop : List String) :
    ∀ otherwise : Option (List Node), (∀ nodes ∈ otherwise, t.NodesAt site nodes) →
      (∀ nodes ∈ captureOtherwise loop otherwise, t.capture.NodesAt site nodes) →
      Shadows t (TrackedWalk.walkOtherwise ⟨functions, t.definitions⟩ enter dot site otherwise)
        (Run.walkOtherwise ⟨functions, t.capture.definitions⟩ enter' dot
          (captureOtherwise loop otherwise))
  | none, _, _ => shadows_pure none
  | some nodes, h, hcapture =>
    shadows_walkNodes hfree henter dot site loop [] nodes (h nodes rfl) (hcapture _ rfl)

end

/-- The nodes of the root or of a definition, from the first one on. -/
theorem shadows_start (hfree : captureName ∉ t.identifiers) (henter : EnterShadows t enter enter')
    {definition : Option String} {nodes : List Node} (h : t.body? definition = some nodes)
    (dot : Value) :
    Shadows t (TrackedWalk.walkNodes ⟨functions, t.definitions⟩ enter dot (.start definition) nodes)
      (Run.walkNodes ⟨functions, t.capture.definitions⟩ enter' dot (captureNodes [] [] nodes)) := by
  have hcapture : t.capture.body? definition = some (captureNodes [] [] nodes) := by
    rw [Template.body?_capture, h, Option.map_some]
  exact shadows_walkNodes hfree henter dot _ [] [] nodes (Template.nodesAt_start h)
    (Template.nodesAt_start hcapture)

/-- The run of a template, and the run of the captured template after whatever was written before. -/
theorem shadows_walkAt (hfree : captureName ∉ t.identifiers) (depth : Nat)
    {definition : Option String} {nodes : List Node} (h : t.body? definition = some nodes)
    (dot : Value) :
    Shadows t (TrackedWalk.walkAt ⟨functions, t.definitions⟩ depth definition dot nodes)
      (Run.walkAt ⟨functions, t.capture.definitions⟩ depth dot (captureNodes [] [] nodes)) := by
  induction depth generalizing definition dot nodes with
  | zero => exact shadows_start hfree .none h dot
  | succ depth ih =>
    refine shadows_start hfree (.some fun name nodes' hfind v => ?_) h dot
    have hbody : t.body? (some name) = some nodes' := hfind
    exact ih hbody v

/-- What the plain run of a template writes, the first first. -/
def writings (functions : Registry) (t : Template) (data : Value) : List Writing :=
  List.zipWith Writing.mk (((visits functions t data []).map Visit.site).filter t.writesAt)
    (emissions functions t data)

theorem zipWith_writing (ws : List Writing) :
    List.zipWith Writing.mk (ws.map Writing.site) (ws.map Writing.piece) = ws := by
  simp [List.zipWith_map]

/-- If the plain run succeeds, it writes one piece at each node that it comes to and that writes one.
The captured run, after runs that captured some values already, writes these pieces with marks for the
captured values, and succeeds unless one is refused. -/
theorem ending_capture_of_writings (hfree : captureName ∉ t.identifiers) {data : Value}
    {raw : List Char} (hrun : (execute functions t data []).result = .ok raw) (before : List Value) :
    (writings functions t data).map Writing.site =
        ((visits functions t data []).map Visit.site).filter t.writesAt ∧
      (writings functions t data).map Writing.piece = emissions functions t data ∧
      (∀ w ∈ writings functions t data, w.Of t) ∧
      ∃ jump bindings, Follows jump bindings
        (Trace.emitAll ((writings functions t data).map (Writing.marked t)) [])
        (ending functions t.capture data before) := by
  have hroot : t.body? none = some t.root := rfl
  rcases htracked : tracked functions t data [] with ⟨result, s⟩
  have hending : ending functions t data [] = (result, s.state) := by
    rw [ending_eq_tracked, htracked]
  cases result with
  | error e =>
    rw [execute, hending] at hrun
    cases hrun
  | ok jump =>
    obtain ⟨ws, hadds, hfollows⟩ := shadows_walkAt hfree maxDepth hroot data _ jump s htracked
    have hsites : ((visits functions t data []).map Visit.site).filter t.writesAt =
        ws.map Writing.site := by
      rw [visits, htracked]
      exact hadds.sites
    have hpieces : emissions functions t data = ws.map Writing.piece := by
      have htrace : s.trace = (ws.map Writing.piece).reverse ++ [] := hadds.trace
      rw [emissions, hending]
      change s.trace.reverse = _
      rw [htrace, List.append_nil, List.reverse_reverse]
    have hws : writings functions t data = ws := by
      rw [writings, hsites, hpieces, zipWith_writing]
    rw [hws]
    exact ⟨hsites.symm, hpieces.symm, hadds.nodes, jump, s.state.bindings, hfollows [] before.reverse⟩

end Runs

end Run

end BoundQuery
