/-
# Statements that no value reaches

If no loop and no action of a template sets variables, each action is captured. A run then writes the
texts that it comes to and one question mark for each action that it comes to, and nothing else: what
the raw text says depends on the way of the run through the template alone, not on the data.

Main statement: `raw_of_execute`.
-/

import BoundQuery.Proofs.Run.Evaluation
import BoundQuery.Proofs.Run.Visits

namespace BoundQuery

namespace Template

/-- What the node at a site writes: a text is written as it stands, an action as a question mark. -/
def spelling (t : Template) (site : Site) : List Char :=
  match t.nodeAt? site with
  | some (.text s) => s.toList
  | some (.action _) => [Statement.mark]
  | _ => []

/-- The names that an action or a loop sets. Actions may write their variables as they stand. -/
def Node.bareNames : Node → List String
  | .action p => p.names
  | .control .range _ p _ _ => p.names
  | _ => []

/-- No action and no loop of the template sets variables. -/
def BindsNothing (t : Template) : Prop :=
  ∀ n ∈ t.nodes, n.bareNames = []

variable {t : Template} {site : Site}

theorem BindsNothing.not_binds (h : t.BindsNothing) (name : String) : ¬ t.Binds site name := by
  intro hbinds
  obtain ⟨binder, hbinder⟩ := hbinds.exists_boundBy
  cases hbinder with
  | loop hnode hname =>
    have hnone : Pipeline.names _ = [] := h _ (mem_nodes_of_nodeAt? hnode)
    simp [hnone] at hname
  | action hnode hname =>
    have hnone : Pipeline.names _ = [] := h _ (mem_nodes_of_nodeAt? hnode)
    simp [hnone] at hname

/-- Where no names are bound, a pipeline ends in the capture function once it is captured. -/
theorem Pipeline.capturesValue_capture_of_forall {p : Pipeline} (hne : p.commands ≠ [])
    {bound : List String} (hbound : ∀ name, name ∉ bound) :
    (p.capture bound).capturesValue = true := by
  obtain ⟨last, hlast⟩ : ∃ last, p.commands.getLast? = some last :=
    ⟨_, List.getLast?_eq_some_getLast hne⟩
  have hwrites : last.writesBound bound = false := by
    simp [Command.writesBound, hbound]
  rw [Pipeline.capture, hlast]
  by_cases hcapture : last.isCapture
  · simp [hcapture, capturesValue, hlast]
  · simp only [hwrites, hcapture, Bool.or_false, Bool.false_eq_true, if_false]
    exact Pipeline.capturesValue_handOn last.pos p

/-- Capturing keeps what nodes write. -/
theorem spelling_capture (t : Template) : t.capture.spelling = t.spelling := by
  funext site
  obtain ⟨loop, earlier, -, hcapture⟩ := t.nodeAt?_capture site
  unfold spelling
  rw [hcapture]
  cases t.nodeAt? site with
  | none => rfl
  | some n =>
    cases n with
    | action p => by_cases hsets : p.setsVariables <;> simp [Node.capture, hsets]
    | _ => rfl

/-- All actions of a captured template hand their values to the capture function, where no names are
bound. -/
theorem BindsNothing.capturesValue {isFunction : String → Bool} {source : List Char}
    (h : t.BindsNothing) (hparse : parse isFunction source = .ok t) {p : Pipeline}
    (hp : t.capture.nodeAt? site = some (.action p)) :
    p.setsVariables = false ∧ p.capturesValue = true := by
  obtain ⟨loop, earlier, n, hn, hcapture, hbound⟩ := exists_of_nodeAt?_capture hp
  have hmem := mem_nodes_of_nodeAt? hn
  cases n with
  | action q =>
    have hsets : q.setsVariables = false := by
      simpa [Pipeline.setsVariables, Node.bareNames] using h _ hmem
    have hne := commands_ne_nil_of_parse hparse _ hmem q (List.mem_singleton_self q)
    rw [Node.capture, if_neg (by simp [hsets])] at hcapture
    cases hcapture
    refine ⟨?_, Pipeline.capturesValue_capture_of_forall hne fun name hname =>
      h.not_binds name ((hbound name).mp hname)⟩
    rcases q.capture_eq_or (loop ++ earlier) with heq | ⟨-, pos, heq⟩
    · rw [heq, hsets]
    · rw [heq, Pipeline.setsVariables_handOn, hsets]
  | _ => cases hcapture

end Template

namespace Run

open Template (Node Pipeline Jump Control Site Command captureName)
open Text (Pos)
open TrackedWalk

/-! ### Captured pipelines -/

/-- A pipeline that ends in the capture function has one value if it has any: a question mark, for
the value that it just captured. -/
theorem value_of_capturesValue {p : Pipeline} (h : p.capturesValue = true) {scene : Scene}
    {captured captured' : List Value} {v : Value}
    (heval : evalPipeline scene p captured = (.ok v, captured')) :
    v = .string "?" ∧ ∃ w before, captured' = w :: before := by
  obtain ⟨last, hlast, hcapture⟩ := (Option.any_eq_true ..).mp h
  obtain ⟨pos, rfl⟩ := Template.Command.isCapture_iff.mp hcapture
  obtain ⟨first, hcommands⟩ := List.getLast?_eq_some_iff.mp hlast
  obtain ⟨pos', assigns, names, commands⟩ := p
  change commands = first ++ [⟨pos, [.identifier captureName]⟩] at hcommands
  subst hcommands
  by_cases hfirst : first = []
  · subst hfirst
    rw [List.nil_append, evalPipeline, evalCommands, evalCommand_capture_none] at heval
    cases heval
  · have hrun := evalPipeline_capture scene (p := ⟨pos', assigns, names, first⟩) hfirst pos
    rw [hrun] at heval
    obtain ⟨w, before, -, hcaptured⟩ := bind_apply_eq_ok_iff.mp heval
    cases hcaptured
    exact ⟨rfl, w, before, rfl⟩

/-! ### What is written -/

namespace TrackedWalk

variable {α β : Type}

/-- The walk writes nothing and comes to no node. -/
def Silent (m : TrackedWalk α) : Prop :=
  ∀ s, (m s).2.trace = s.trace ∧ (m s).2.visits = s.visits

theorem silent_pure (a : α) : Silent (pure a : TrackedWalk α) := fun _ => ⟨rfl, rfl⟩

theorem silent_bind {m : TrackedWalk α} {f : α → TrackedWalk β} (hm : Silent m)
    (hf : ∀ a, Silent (f a)) : Silent (m >>= f) := by
  intro s
  have hfirst := hm s
  rw [bind_apply]
  generalize m s = outcome at hfirst ⊢
  rcases outcome with ⟨result, after⟩
  cases result with
  | error e => exact hfirst
  | ok a => exact ⟨(hf a after).1.trans hfirst.1, (hf a after).2.trans hfirst.2⟩

theorem silent_fail (pos : Pos) (fault : EvalFault) : Silent (fail pos fault : TrackedWalk α) :=
  fun _ => ⟨rfl, rfl⟩

theorem silent_evaluate (env : Env) (mode : Mode) (dot : Value) (p : Pipeline) :
    Silent (plainly (Walk.evaluate env mode dot p)) := fun _ => ⟨rfl, rfl⟩

theorem silent_countVariables : Silent countVariables := fun _ => ⟨rfl, rfl⟩

theorem silent_keepVariables (count : Nat) : Silent (keepVariables count) := fun _ => ⟨rfl, rfl⟩

theorem silent_bindVariable (site : Site) (p : Pipeline) (name : String) (v : Value) :
    Silent (TrackedWalk.bind site p name v) := by
  intro s
  rw [TrackedWalk.bind_variable_apply]
  split
  · split <;> exact ⟨rfl, rfl⟩
  · exact ⟨rfl, rfl⟩

theorem silent_bindAll (site : Site) (p : Pipeline) (v : Value) (names : List String) :
    Silent (bindAll site p v names) := by
  induction names with
  | nil => exact silent_pure ()
  | cons name rest ih => exact silent_bind (silent_bindVariable site p name v) fun _ => ih

theorem silent_evaluateAndBind (env : Env) (mode : Mode) (dot : Value) (site : Site) (p : Pipeline) :
    Silent (evaluateAndBind env mode dot site p) :=
  silent_bind (silent_evaluate env mode dot p) fun v =>
    silent_bind (silent_bindAll site p v p.names) fun _ => silent_pure v

theorem silent_bindRound (site : Site) (p : Pipeline) (key item : Value) :
    Silent (bindRound site p key item) := by
  unfold bindRound
  split
  · exact silent_bindVariable site p _ item
  · exact silent_bind (silent_bindVariable site p _ key) fun _ => silent_bindVariable site p _ item
  · exact silent_pure ()

end TrackedWalk

section Spelled

variable {t : Template}

/-- What was written is what the nodes that the run came to spell. -/
def Spelled (t : Template) (s : Tracked) : Prop :=
  s.trace.raw = (s.visits.reverse.map Visit.site).flatMap t.spelling

/-- The walk writes what the nodes that it comes to spell. -/
def Spells (t : Template) {α : Type} (m : TrackedWalk α) : Prop :=
  Meets (Spelled t) m (fun _ => Spelled t) fun _ _ => True

theorem TrackedWalk.Silent.spells {α : Type} {m : TrackedWalk α} (h : Silent m) : Spells t m := by
  intro s hs
  have hsilent := h s
  generalize m s = outcome at hsilent ⊢
  rcases outcome with ⟨result, after⟩
  cases result with
  | error e => trivial
  | ok a =>
    obtain ⟨htrace, hvisits⟩ := hsilent
    change after.trace.raw = (after.visits.reverse.map Visit.site).flatMap t.spelling
    rw [htrace, hvisits]
    exact hs

theorem spells_bind {α β : Type} {m : TrackedWalk α} {f : α → TrackedWalk β} (hm : Spells t m)
    (hf : ∀ a, Spells t (f a)) : Spells t (m >>= f) :=
  meets_bind hm hf

/-- A node that writes a piece, which is what it spells. -/
theorem spells_emit {site : Site} {m : TrackedWalk Unit}
    (hm : ∀ s u after, m s = (.ok u, after) → ∃ e : Emission, e.chars = t.spelling site ∧
      after.trace = e :: s.trace ∧ after.visits = s.visits) :
    Spells t (visit site >>= fun _ => m >>= fun _ => (pure none : TrackedWalk (Option Jump))) := by
  intro s hs
  rcases hrun : (visit site >>= fun _ => m >>= fun _ => (pure none : TrackedWalk (Option Jump))) s
    with ⟨result, after⟩
  cases result with
  | error e => trivial
  | ok jump =>
    obtain ⟨_, visited, hvisit, hrun⟩ := bind_apply_eq_ok_iff.mp hrun
    cases hvisit
    obtain ⟨u, written, hwrite, hpure⟩ := bind_apply_eq_ok_iff.mp hrun
    cases hpure
    obtain ⟨e, he, htrace, hvisits⟩ := hm _ _ _ hwrite
    have hs : s.trace.reverse.flatMap Emission.chars =
      (s.visits.reverse.map Visit.site).flatMap t.spelling := hs
    simp [Spelled, Trace.raw, htrace, hvisits, hs, he]

/-- A node that writes nothing itself. -/
theorem spells_visit {site : Site} (h : t.spelling site = []) {m : TrackedWalk (Option Jump)}
    (hm : Spells t m) : Spells t (visit site >>= fun _ => m) := by
  intro s hs
  refine hm { s with visits := ⟨site, s.slots⟩ :: s.visits } ?_
  have hs : s.trace.raw = (s.visits.reverse.map Visit.site).flatMap t.spelling := hs
  simp [Spelled, hs, h]

theorem written_emit {e : Emission} {s after : Tracked} {u : Unit}
    (h : plainly (Walk.emit e) s = (.ok u, after)) :
    after.trace = e :: s.trace ∧ after.visits = s.visits := by
  rw [plainly_apply, Walk.emit_apply] at h
  cases hemit : Trace.emit e s.state.trace with
  | ok trace =>
    rw [hemit] at h
    cases h
    exact ⟨Trace.emit_eq_ok hemit, rfl⟩
  | error err =>
    rw [hemit] at h
    cases h

theorem spells_rounds {site : Site} {p : Pipeline} {count : Nat}
    {body : Value → TrackedWalk (Option Jump)} (hbody : ∀ item, Spells t (body item))
    (items : List (Value × Value)) : Spells t (rounds site p count body items) := by
  induction items with
  | nil => exact (silent_pure ()).spells
  | cons round rest ih =>
    obtain ⟨key, item⟩ := round
    rw [rounds]
    refine spells_bind (silent_keepVariables count).spells fun _ => ?_
    refine spells_bind (silent_bindRound site p key item).spells fun _ => ?_
    refine spells_bind (hbody item) fun jump => ?_
    rcases jump with _ | _ | _
    · exact ih
    · exact (silent_pure ()).spells
    · exact ih

theorem spells_isolated (data : Value) {m : TrackedWalk (Option Jump)} (h : Spells t m) :
    Spells t (isolated data m) := by
  intro s hs
  have hrun := h { s with slots := [.root data] } hs
  rw [TrackedWalk.isolated_apply]
  generalize m { s with slots := [.root data] } = outcome at hrun ⊢
  rcases outcome with ⟨result, after⟩
  cases result with
  | error e => trivial
  | ok jump => exact hrun

end Spelled

/-! ### Whole runs -/

section Runs

variable {t : Template} {env : Env}

/-- A captured action writes a question mark. -/
theorem written_action {dot : Value} {site : Site} {p : Pipeline} (hsets : p.setsVariables = false)
    (hcaptures : p.capturesValue = true) {s after : Tracked} {u : Unit}
    (h : action env dot site p s = (.ok u, after)) :
    ∃ v, after.trace = .argument p.pos v :: s.trace ∧ after.visits = s.visits := by
  obtain ⟨v, bound, hbind, hwrite⟩ := bind_apply_eq_ok_iff.mp h
  have hsilent := silent_evaluateAndBind env .strict dot site p s
  rw [hbind] at hsilent
  rw [if_neg (by simp [hsets]), if_pos hcaptures] at hwrite
  obtain ⟨htrace, hvisits⟩ :=
    written_emit (e := .argument p.pos (bound.captured.headD .null)) (s := bound) hwrite
  exact ⟨_, htrace.trans (congrArg _ hsilent.1), hvisits.trans hsilent.2⟩

/-- Where all actions are captured, runs write what the nodes that they come to spell. -/
theorem rules_spells
    (hactions : ∀ site p, t.nodeAt? site = some (.action p) →
      p.setsVariables = false ∧ p.capturesValue = true) :
    Rules t env fun _ => Spells t where
  text hn := spells_emit fun _ _ _ hwrite =>
    ⟨.text _, by simp [Template.spelling, hn, Emission.chars], written_emit hwrite⟩
  action hn := spells_emit fun _ _ _ hwrite => by
    obtain ⟨hsets, hcaptures⟩ := hactions _ _ hn
    obtain ⟨v, hwritten⟩ := written_action hsets hcaptures hwrite
    exact ⟨_, by simp [Template.spelling, hn, Emission.chars], hwritten⟩
  control := by
    intro enter dot site kind pos p body otherwise hn hbody hotherwise
    by_cases hkind : kind = .range
    · subst hkind
      rw [TrackedWalk.walkNode_range]
      refine spells_visit (by simp [Template.spelling, hn]) ?_
      refine spells_bind (silent_evaluate env .lenient dot p).spells fun source => ?_
      unfold loop
      rcases roundsOf? source with _ | _ | ⟨round, rest⟩
      · exact (silent_fail pos _).spells
      · exact hotherwise
      · refine spells_bind silent_countVariables.spells fun count => ?_
        refine spells_bind (spells_rounds hbody _) fun _ => ?_
        exact (silent_bind (silent_keepVariables count) fun _ => silent_pure none).spells
    · rw [TrackedWalk.walkNode_branch (h := hkind)]
      refine spells_visit (by simp [Template.spelling, hn]) ?_
      refine spells_bind silent_countVariables.spells fun count => ?_
      refine spells_bind (silent_evaluateAndBind env .lenient dot site p).spells fun v => ?_
      refine spells_bind ?_ fun jump =>
        (silent_bind (silent_keepVariables count) fun _ => silent_pure jump).spells
      unfold TrackedWalk.branch
      split
      · exact hbody _
      · exact hotherwise
  invoke := by
    intro enter dot site pos name data hn hcalls
    unfold TrackedWalk.walkNode
    refine spells_visit (by simp [Template.spelling, hn]) ?_
    cases hfind : Entries.find? name env.definitions with
    | none => exact (silent_fail pos _).spells
    | some nodes =>
      cases enter with
      | none => exact (silent_fail pos _).spells
      | some walk =>
        have hrest := fun v => spells_bind (spells_isolated v (hcalls walk nodes rfl hfind v))
          fun _ => (silent_pure (none : Option Jump)).spells
        cases data with
        | none => exact spells_bind (silent_pure Value.null).spells hrest
        | some p => exact spells_bind (silent_evaluate env .strict dot p).spells hrest
  jump hn := spells_visit (by simp [Template.spelling, hn]) (silent_pure _).spells
  nil := (silent_pure none).spells
  cons := by
    intro enter dot site n rest hn hnode hrest
    refine spells_bind hnode fun jump => ?_
    cases jump with
    | none => exact hrest
    | some kind => exact (silent_pure (some kind)).spells

theorem spelled_of_execute
    (hactions : ∀ site p, t.nodeAt? site = some (.action p) →
      p.setsVariables = false ∧ p.capturesValue = true)
    {functions : Registry} {data : Value} {before args : List Value} {raw : List Char}
    (h : execute functions t data before = ⟨.ok raw, args⟩) :
    raw = ((visits functions t data before).map Visit.site).flatMap t.spelling := by
  have hrules : Rules t ⟨functions, t.definitions⟩ fun _ => Spells t := rules_spells hactions
  have hroot : t.body? none = some t.root := rfl
  have hrun := hrules.walkAt rfl maxDepth hroot data ⟨[.root data], [], before.reverse, []⟩ rfl
  unfold execute at h
  rw [ending_eq_tracked] at h
  unfold visits
  unfold tracked at h ⊢
  generalize TrackedWalk.walkAt _ _ _ _ _ _ = outcome at hrun h ⊢
  rcases outcome with ⟨result, after⟩
  cases result with
  | error e => cases h
  | ok jump =>
    cases h
    exact hrun

/-- If no action and no loop of a template sets variables, a run writes the texts that it comes to
and one question mark for each action that it comes to. Two runs that come to the same nodes write the
same, whatever their data. The values of the actions are captured, so that none is ever printed. -/
theorem raw_of_execute {isFunction : String → Bool} {source : List Char}
    (hparse : Template.parse isFunction source = .ok t) (hnothing : t.BindsNothing)
    (functions : Registry) :
    (∀ data before raw args, execute functions t.capture data before = ⟨.ok raw, args⟩ →
      raw = ((visits functions t.capture data before).map Visit.site).flatMap t.spelling) ∧
    (∀ data data' before before' raw raw' args args',
      execute functions t.capture data before = ⟨.ok raw, args⟩ →
      execute functions t.capture data' before' = ⟨.ok raw', args'⟩ →
      (visits functions t.capture data before).map Visit.site =
        (visits functions t.capture data' before').map Visit.site → raw = raw') ∧
    ∀ site p, t.capture.nodeAt? site = some (.action p) →
      ∀ scene captured v captured', evalPipeline scene p captured = (.ok v, captured') →
        v.print = [Statement.mark] ∧ ∃ w before, captured' = w :: before := by
  have hraw : ∀ data before raw args, execute functions t.capture data before = ⟨.ok raw, args⟩ →
      raw = ((visits functions t.capture data before).map Visit.site).flatMap t.spelling := by
    intro data before raw args h
    rw [← t.spelling_capture]
    exact spelled_of_execute (fun site p => hnothing.capturesValue hparse) h
  refine ⟨hraw, ?_, ?_⟩
  · intro data data' before before' raw raw' args args' h h' hsites
    rw [hraw _ _ _ _ h, hraw _ _ _ _ h', hsites]
  · intro site p hp scene captured v captured' heval
    obtain ⟨rfl, hcaptured⟩ := value_of_capturesValue (hnothing.capturesValue hparse hp).2 heval
    exact ⟨rfl, hcaptured⟩

theorem raw_of_execute_loop :
    ∃ (t : Template) (raw : List Char) (args args' : List Value),
      Template.parse (fun _ => false)
        "a{{range .L}}{{.}},{{end}}{{with $x := .A}}{{$x}}{{end}}".toList = .ok t ∧
      t.BindsNothing ∧
      execute [] t.capture (.map [("A", .int 1), ("L", .seq [.int 2, .null])]) [] =
        ⟨.ok raw, args⟩ ∧
      execute [] t.capture (.map [("A", .string "; drop"), ("L", .seq [.string "'", .int 3])]) [] =
        ⟨.ok raw, args'⟩ := by
  let data : Value := .map [("A", .int 1), ("L", .seq [.int 2, .null])]
  let data' : Value := .map [("A", .string "; drop"), ("L", .seq [.string "'", .int 3])]
  obtain ⟨t, hparse, ht⟩ := exists_of_any
    (x := Template.parse (fun _ => false)
      "a{{range .L}}{{.}},{{end}}{{with $x := .A}}{{$x}}{{end}}".toList)
    (p := fun t => decide (∀ n ∈ t.nodes, n.bareNames = []) &&
      (execute [] t.capture data []).result.toOption.any (fun _ => true) &&
      (execute [] t.capture data' []).result.toOption.any (fun _ => true) &&
      (visits [] t.capture data []).map Visit.site == (visits [] t.capture data' []).map Visit.site)
    (by decide +kernel)
  simp only [Bool.and_eq_true, decide_eq_true_eq] at ht
  obtain ⟨⟨⟨hnothing, hrun⟩, hrun'⟩, hsites⟩ := ht
  obtain ⟨raw, hraw, -⟩ := exists_of_any hrun
  obtain ⟨raw', hraw', -⟩ := exists_of_any hrun'
  have hrun : execute [] t.capture data [] = ⟨.ok raw, _⟩ := congrArg (Outcome.mk · _) hraw
  have hrun' : execute [] t.capture data' [] = ⟨.ok raw', _⟩ := congrArg (Outcome.mk · _) hraw'
  obtain ⟨-, hsame, -⟩ := raw_of_execute hparse hnothing []
  cases hsame _ _ _ _ _ _ _ _ hrun hrun' (beq_iff_eq.mp hsites)
  exact ⟨t, raw, _, _, hparse, hnothing, hrun, hrun'⟩

end Runs

end Run

end BoundQuery
