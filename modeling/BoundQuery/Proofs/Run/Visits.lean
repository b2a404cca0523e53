/-
# What is known along a run

A `Knowledge` says of each site of a template what holds of the variables there. A run that finds it
true at one node finds it true at the next, so it is true at every node that a run comes to, also if
the run fails in the end. A run that fails does so for a reason that lies with one of these nodes.

Main statements: `Knowledge.holds_visits`, `Knowledge.blames_visit`.
-/

import BoundQuery.Proofs.Run.Frames
import BoundQuery.Proofs.Run.Traces

namespace BoundQuery.Run

open Template (Node Pipeline Jump Control Site)
open Text (Pos)

/-! ### Reasons to fail -/

/-- The reasons for which a node fails where these variables are in scope. -/
inductive Blames (env : Env) (slots : List Slot) (n : Node) : EvalError → Prop
  /-- A pipeline has no value. -/
  | evaluation {p : Pipeline} {dot : Value} {mode : Mode} {captured : List Value} {e : EvalError} :
      p ∈ n.pipelines →
      (evalPipeline ⟨env.functions, slots.map Slot.binding, dot, mode⟩ p captured).1 = .error e →
      Blames env slots n e
  /-- A variable that a pipeline assigns to is not in scope. -/
  | assignment {p : Pipeline} {name : String} :
      p ∈ n.pipelines → p.assigns = true → name ∈ p.names → findSlot? name slots = none →
      Blames env slots n ⟨p.pos, .undefinedVariable name⟩
  | adjacentPlaceholder (pos : Pos) : Blames env slots n ⟨pos, .adjacentPlaceholder⟩
  | cannotRange (pos : Pos) (kind : Kind) : Blames env slots n ⟨pos, .cannotRange kind⟩
  | undefinedTemplate (pos : Pos) (name : String) : Blames env slots n ⟨pos, .undefinedTemplate name⟩
  | depthExceeded (pos : Pos) : Blames env slots n ⟨pos, .depthExceeded⟩

/-- What holds of the variables at each site of a template. -/
structure Knowledge (t : Template) where
  holds : Site → List Slot → Prop
  /-- No loop binds more than a key and an item. -/
  pairs {site : Site} {pos : Pos} {p : Pipeline} {body : List Node}
      {otherwise : Option (List Node)} :
    t.nodeAt? site = some (.control .range pos p body otherwise) → p.names.length ≤ 2
  start {definition : Option String} {nodes : List Node} :
    t.body? definition = some nodes → ∀ data, holds (.start definition) [.root data]
  next {site : Site} {n : Node} {before after : List Slot} :
    t.nodeAt? site = some n → holds site before → Sets site.Covers n.namesSet before after →
    holds site.next after
  branch {site : Site} {kind : Control} {pos : Pos} {p : Pipeline} {body : List Node}
      {otherwise : Option (List Node)} {before after : List Slot} :
    t.nodeAt? site = some (.control kind pos p body otherwise) → kind ≠ .range →
    holds site before → Sets (· = site) p.names before after →
    holds site.body after ∧ holds site.otherwise after
  round {site : Site} {pos : Pos} {p : Pipeline} {body : List Node}
      {otherwise : Option (List Node)} {before after : List Slot} :
    t.nodeAt? site = some (.control .range pos p body otherwise) → holds site before →
    Sets (fun other => other = site ∨ site.body.Encloses other) p.names before after →
    holds site.body after
  idle {site : Site} {pos : Pos} {p : Pipeline} {body : List Node}
      {otherwise : Option (List Node)} {before : List Slot} :
    t.nodeAt? site = some (.control .range pos p body otherwise) → holds site before →
    holds site.otherwise before

namespace TrackedWalk

variable {α β : Type}

/-! ### Conditions before and after -/

/-- Where `P` holds, the walk comes to what satisfies `Q`, or it fails and satisfies `E`. -/
def Meets (P : Tracked → Prop) (m : TrackedWalk α) (Q : α → Tracked → Prop)
    (E : EvalError → Tracked → Prop) : Prop :=
  ∀ s, P s →
    match m s with
    | (.ok a, after) => Q a after
    | (.error e, after) => E e after

section Meets

variable {P P' : Tracked → Prop} {Q Q' : α → Tracked → Prop} {E : EvalError → Tracked → Prop}
  {m : TrackedWalk α}

theorem meets_pure {a : α} (h : ∀ s, P s → Q a s) : Meets P (pure a) Q E :=
  h

theorem meets_fail {pos : Pos} {fault : EvalFault} (h : ∀ s, P s → E ⟨pos, fault⟩ s) :
    Meets P (fail pos fault) Q E :=
  h

theorem meets_bind {f : α → TrackedWalk β} {R : β → Tracked → Prop} (hm : Meets P m Q E)
    (hf : ∀ a, Meets (Q a) (f a) R E) : Meets P (m >>= f) R E := by
  intro s hs
  have hfirst := hm s hs
  rw [bind_apply]
  generalize m s = outcome at hfirst ⊢
  rcases outcome with ⟨result, after⟩
  cases result with
  | error e => exact hfirst
  | ok a => exact hf a after hfirst

theorem Meets.mono (h : Meets P m Q E) (hP : ∀ s, P' s → P s) (hQ : ∀ a s, Q a s → Q' a s) :
    Meets P' m Q' E := by
  intro s hs
  have hrun := h s (hP s hs)
  generalize m s = outcome at hrun ⊢
  rcases outcome with ⟨result, after⟩
  cases result with
  | error e => exact hrun
  | ok a => exact hQ a after hrun

/-- What is known of all successful walks may be added to what holds after this one. -/
theorem Meets.and_ok (h : Meets P m Q E)
    (hok : ∀ ⦃s a after⦄, P s → m s = (.ok a, after) → Q' a after) :
    Meets P m (fun a s => Q a s ∧ Q' a s) E := by
  intro s hs
  have hrun := h s hs
  have hafter : ∀ a after, m s = (.ok a, after) → Q' a after := fun _ _ hm => hok hs hm
  generalize m s = outcome at hrun hafter ⊢
  rcases outcome with ⟨result, after⟩
  cases result with
  | error e => exact hrun
  | ok a => exact ⟨hrun, hafter a after rfl⟩

end Meets

end TrackedWalk

open TrackedWalk

namespace Knowledge

variable {t : Template} (k : Knowledge t) (env : Env)

/-- The run came to certain nodes, and at all nodes that it came to it found what is known. -/
structure Seen (past : List Visit) (s : Tracked) : Prop where
  holds : ∀ v ∈ s.visits, k.holds v.site v.slots
  past : ∀ v ∈ past, v ∈ s.visits

/-- The run fails, for a reason that lies with a node that it came to. -/
structure Fails (e : EvalError) (s : Tracked) : Prop where
  holds : ∀ v ∈ s.visits, k.holds v.site v.slots
  blames : ∃ v ∈ s.visits, ∃ n, t.nodeAt? v.site = some n ∧ Blames env v.slots n e

/-- From a site where it finds what is known, the walk finds it everywhere. -/
def Sound (site : Site) (m : TrackedWalk (Option Jump)) : Prop :=
  ∀ past, Meets (fun s => k.Seen past s ∧ k.holds site s.slots) m (fun _ s => k.Seen past s)
    (k.Fails env)

variable {k env}

/-! ### Steps at a node -/

section Steps

variable {site : Site} {before : List Slot} {n : Node} {past : List Visit}

theorem meets_visit {m : TrackedWalk (Option Jump)}
    (h : ∀ before, k.holds site before →
      Meets (fun s => k.Seen (⟨site, before⟩ :: past) s ∧ s.slots = before) m
        (fun _ s => k.Seen (⟨site, before⟩ :: past) s) (k.Fails env)) :
    Meets (fun s => k.Seen past s ∧ k.holds site s.slots) (visit site >>= fun _ => m)
      (fun _ s => k.Seen past s) (k.Fails env) := by
  rintro s ⟨hseen, hholds⟩
  refine (h s.slots hholds).mono (fun _ hs => hs) (fun _ after hafter => ?_)
    { s with visits := ⟨site, s.slots⟩ :: s.visits } ⟨⟨?_, ?_⟩, rfl⟩
  · exact ⟨hafter.holds, fun v hv => hafter.past v (List.mem_cons_of_mem _ hv)⟩
  · intro v hv
    rcases List.mem_cons.mp hv with rfl | hv
    · exact hholds
    · exact hseen.holds v hv
  · intro v hv
    rcases List.mem_cons.mp hv with rfl | hv
    · exact List.mem_cons_self ..
    · exact List.mem_cons_of_mem _ (hseen.past v hv)

variable (hvisit : ⟨site, before⟩ ∈ past) (hn : t.nodeAt? site = some n)
include hvisit hn

theorem Seen.fails {s : Tracked} (hseen : k.Seen past s) {e : EvalError}
    (h : Blames env before n e) : k.Fails env e s :=
  ⟨hseen.holds, _, hseen.past _ hvisit, n, hn, h⟩

theorem meets_evaluate {p : Pipeline} (hp : p ∈ n.pipelines) (mode : Mode) (dot : Value) :
    Meets (fun s => k.Seen past s ∧ s.slots = before) (plainly (Walk.evaluate env mode dot p))
      (fun _ s => k.Seen past s ∧ s.slots = before) (k.Fails env) := by
  rintro s ⟨hseen, rfl⟩
  have hrun : plainly (Walk.evaluate env mode dot p) s =
      ((evalPipeline ⟨env.functions, s.slots.map Slot.binding, dot, mode⟩ p s.captured).1,
        { s with captured := (evalPipeline ⟨env.functions, s.slots.map Slot.binding, dot, mode⟩ p
          s.captured).2 }) := rfl
  rw [hrun]
  rcases heval : evalPipeline ⟨env.functions, s.slots.map Slot.binding, dot, mode⟩ p s.captured
    with ⟨outcome, captured⟩
  have hafter : k.Seen past { s with captured } := ⟨hseen.holds, hseen.past⟩
  cases outcome with
  | ok v => exact ⟨hafter, rfl⟩
  | error e => exact hafter.fails hvisit hn (.evaluation hp (congrArg Prod.fst heval))

theorem meets_emit (e : Emission) :
    Meets (k.Seen past) (plainly (Walk.emit e)) (fun _ => k.Seen past) (k.Fails env) := by
  intro s hseen
  rw [plainly_apply, Walk.emit_apply]
  cases hemit : Trace.emit e s.state.trace with
  | ok trace => exact ⟨hseen.holds, hseen.past⟩
  | error err =>
    obtain ⟨pos, fault⟩ := err
    cases Trace.emit_eq_error hemit
    exact hseen.fails hvisit hn (.adjacentPlaceholder pos)

theorem meets_bindVariable {R : Site → Prop} (hR : R site) {p : Pipeline} (hp : p ∈ n.pipelines)
    {name : String} (hname : name ∈ p.names) (v : Value) :
    Meets (fun s => k.Seen past s ∧ Grown R before s.slots) (TrackedWalk.bind site p name v)
      (fun _ s => k.Seen past s ∧ Grown R before s.slots) (k.Fails env) := by
  rintro s ⟨hseen, hgrown⟩
  have hvisits := visits_bindVariable site p name v s
  rcases hrun : TrackedWalk.bind site p name v s with ⟨result, after⟩
  rw [hrun] at hvisits
  have hafter : k.Seen past after := ⟨hvisits ▸ hseen.holds, hvisits ▸ hseen.past⟩
  cases result with
  | ok u =>
    refine ⟨hafter, hgrown.trans ((sets_bindVariable hrun).grown.mono ?_)⟩
    rintro _ rfl
    exact hR
  | error e =>
    obtain ⟨hassigns, hnone, rfl⟩ := bindVariable_eq_error hrun
    exact hafter.fails hvisit hn (.assignment hp hassigns hname (hgrown.findSlot?_eq_none hnone))

theorem meets_bindAll {p : Pipeline} (hp : p ∈ n.pipelines) {names : List String}
    (hnames : ∀ name ∈ names, name ∈ p.names) (v : Value) :
    Meets (fun s => k.Seen past s ∧ Grown (· = site) before s.slots) (bindAll site p v names)
      (fun _ s => k.Seen past s ∧ Grown (· = site) before s.slots) (k.Fails env) := by
  induction names with
  | nil => exact meets_pure fun _ hs => hs
  | cons name rest ih =>
    refine meets_bind (meets_bindVariable (R := (· = site)) hvisit hn rfl hp
      (hnames name (by simp)) v) fun _ => ?_
    exact ih fun name hname => hnames name (List.mem_cons_of_mem _ hname)

theorem meets_evaluateAndBind {p : Pipeline} (hp : p ∈ n.pipelines) (mode : Mode) (dot : Value) :
    Meets (fun s => k.Seen past s ∧ s.slots = before) (evaluateAndBind env mode dot site p)
      (fun _ s => k.Seen past s ∧ Sets (· = site) p.names before s.slots) (k.Fails env) := by
  have hmeets : Meets (fun s => k.Seen past s ∧ s.slots = before)
      (evaluateAndBind env mode dot site p) (fun _ => k.Seen past) (k.Fails env) := by
    refine meets_bind (meets_evaluate hvisit hn hp mode dot) fun v => ?_
    refine meets_bind ((meets_bindAll hvisit hn hp (fun _ hname => hname) v).mono ?_ fun _ _ hs =>
      hs.1) fun _ => meets_pure fun _ hs => hs
    rintro s ⟨hseen, rfl⟩
    exact ⟨hseen, grown_refl _ s.slots⟩
  apply hmeets.and_ok
  intro s v after hs hrun
  exact hs.2 ▸ sets_evaluateAndBind hrun

theorem meets_bindRound {R : Site → Prop} (hR : R site) {p : Pipeline} (hp : p ∈ n.pipelines)
    (hpairs : p.names.length ≤ 2) (key item : Value) :
    Meets (fun s => k.Seen past s ∧ Grown R before s.slots) (bindRound site p key item)
      (fun _ s => k.Seen past s ∧ Sets R p.names before s.slots) (k.Fails env) := by
  have hmeets : Meets (fun s => k.Seen past s ∧ Grown R before s.slots)
      (bindRound site p key item) (fun _ => k.Seen past) (k.Fails env) := by
    have hbind {name : String} (hname : name ∈ p.names) (v : Value) :
        Meets (fun s => k.Seen past s ∧ Grown R before s.slots) (TrackedWalk.bind site p name v)
          (fun _ s => k.Seen past s ∧ Grown R before s.slots) (k.Fails env) :=
      meets_bindVariable hvisit hn hR hp hname v
    unfold bindRound
    rcases hnames : p.names with _ | ⟨first, _ | ⟨second, _ | ⟨third, rest⟩⟩⟩
    · exact meets_pure fun _ hs => hs.1
    · exact (hbind (by simp [hnames]) item).mono (fun _ hs => hs) fun _ _ hs => hs.1
    · refine meets_bind (hbind (by simp [hnames]) key) fun _ => ?_
      exact (hbind (by simp [hnames]) item).mono (fun _ hs => hs) fun _ _ hs => hs.1
    · exact meets_pure fun _ hs => hs.1
  apply hmeets.and_ok
  intro s u after hs hrun
  have hsets := ((sets_bindRound hrun).2 hpairs).mono (S := R) (by rintro _ rfl; exact hR)
  exact ⟨hs.2.trans hsets.grown, hsets.set⟩

theorem meets_action {p : Pipeline} (hp : p ∈ n.pipelines) (dot : Value) :
    Meets (fun s => k.Seen past s ∧ s.slots = before) (action env dot site p)
      (fun _ => k.Seen past) (k.Fails env) := by
  refine meets_bind (meets_evaluateAndBind hvisit hn hp .strict dot) fun v => ?_
  have hpre : ∀ s, k.Seen past s ∧ Sets (· = site) p.names before s.slots → k.Seen past s :=
    fun _ hs => hs.1
  split
  · exact meets_pure hpre
  · split
    · exact fun s hs => meets_emit hvisit hn (.argument p.pos (s.captured.headD .null)) s (hpre s hs)
    · exact (meets_emit hvisit hn (.value v)).mono hpre fun _ _ hs => hs

/-- At each round of a loop it is known what is known of its body. -/
theorem meets_rounds {pos : Pos} {p : Pipeline} {nodes : List Node} {otherwise : Option (List Node)}
    (hrange : n = .control .range pos p nodes otherwise) (hbefore : k.holds site before)
    {body : Value → TrackedWalk (Option Jump)} (hbody : ∀ item, k.Sound env site.body (body item))
    (hgrows : ∀ item, Grows site.body.Encloses (body item)) (items : List (Value × Value)) :
    Meets (fun s => k.Seen past s ∧
        Grown (fun other => other = site ∨ site.body.Encloses other) before s.slots)
      (rounds site p before.length body items) (fun _ => k.Seen past) (k.Fails env) := by
  have hp : p ∈ n.pipelines := by simp [hrange, Node.pipelines]
  rw [hrange] at hn
  induction items with
  | nil => exact meets_pure fun _ hs => hs.1
  | cons round rest ih =>
    obtain ⟨key, item⟩ := round
    rw [rounds]
    refine meets_bind (Q := fun _ s => k.Seen past s ∧
      Grown (fun other => other = site ∨ site.body.Encloses other) before s.slots) ?_ fun _ => ?_
    · rintro s ⟨hseen, hgrown⟩
      exact ⟨⟨hseen.holds, hseen.past⟩, .same hgrown.keep⟩
    refine meets_bind (meets_bindRound hvisit (hrange ▸ hn) (.inl rfl) hp (k.pairs hn) key item)
      fun _ => ?_
    refine meets_bind (Q := fun _ s => k.Seen past s ∧
      Grown (fun other => other = site ∨ site.body.Encloses other) before s.slots) ?_ fun jump => ?_
    · refine Meets.and_ok ((hbody item past).mono ?_ fun _ _ hs => hs) ?_
      · exact fun s hs => ⟨hs.1, k.round hn hbefore hs.2⟩
      · exact fun s jump after hs hrun =>
          hs.2.grown.trans ((hgrows item hrun).mono fun _ => Or.inr)
    rcases jump with _ | _ | _
    · exact ih
    · exact meets_pure fun _ hs => hs.1
    · exact ih

end Steps

/-! ### Whole runs -/

theorem sound_range {enter : Enter} {dot : Value} {site : Site} {pos : Pos} {p : Pipeline}
    {body : List Node} {otherwise : Option (List Node)}
    (hn : t.nodeAt? site = some (.control .range pos p body otherwise))
    (hbody : ∀ dot, k.Sound env site.body (TrackedWalk.walkNodes env enter dot site.body body))
    (hotherwise :
      k.Sound env site.otherwise (TrackedWalk.walkOtherwise env enter dot site.otherwise otherwise)) :
    k.Sound env site (TrackedWalk.walkNode env enter dot site (.control .range pos p body otherwise)) := by
  intro past
  rw [TrackedWalk.walkNode_range]
  refine meets_visit fun before hbefore => ?_
  have hvisit : ⟨site, before⟩ ∈ (⟨site, before⟩ :: past : List Visit) := List.mem_cons_self ..
  refine meets_bind (meets_evaluate hvisit hn (List.mem_singleton_self p) .lenient dot) fun source => ?_
  unfold loop
  rcases roundsOf? source with _ | _ | ⟨round, rest⟩
  · exact meets_fail fun _ hs => hs.1.fails hvisit hn (.cannotRange pos _)
  · refine (hotherwise _).mono ?_ fun _ _ hs => hs
    rintro s ⟨hseen, rfl⟩
    exact ⟨hseen, k.idle hn hbefore⟩
  · rintro s ⟨hseen, rfl⟩
    have hrounds := meets_rounds hvisit hn rfl hbefore hbody
      (fun dot => grows_walkNodes dot site.body body) (round :: rest)
    refine meets_bind (hrounds.mono (fun _ hs => hs) fun _ _ hs => hs) (fun _ => ?_) s
      ⟨hseen, grown_refl _ s.slots⟩
    exact fun s hs => ⟨hs.holds, hs.past⟩

theorem sound_branch {enter : Enter} {dot : Value} {site : Site} {kind : Control} {pos : Pos}
    {p : Pipeline} {body : List Node} {otherwise : Option (List Node)}
    (hn : t.nodeAt? site = some (.control kind pos p body otherwise)) (hkind : kind ≠ .range)
    (hbody : ∀ dot, k.Sound env site.body (TrackedWalk.walkNodes env enter dot site.body body))
    (hotherwise :
      k.Sound env site.otherwise (TrackedWalk.walkOtherwise env enter dot site.otherwise otherwise)) :
    k.Sound env site (TrackedWalk.walkNode env enter dot site (.control kind pos p body otherwise)) := by
  intro past
  rw [TrackedWalk.walkNode_branch (h := hkind)]
  refine meets_visit fun before hbefore => ?_
  have hvisit : ⟨site, before⟩ ∈ (⟨site, before⟩ :: past : List Visit) := List.mem_cons_self ..
  refine meets_bind (Q := fun _ s => k.Seen (⟨site, before⟩ :: past) s ∧ s.slots = before)
    (fun s hs => hs) fun count => ?_
  refine meets_bind (meets_evaluateAndBind hvisit hn (List.mem_singleton_self p) .lenient dot)
    fun v => ?_
  refine meets_bind (Q := fun _ s => k.Seen (⟨site, before⟩ :: past) s) ?_ fun jump => ?_
  · unfold TrackedWalk.branch
    split
    · exact (hbody _ _).mono (fun _ hs => ⟨hs.1, (k.branch hn hkind hbefore hs.2).1⟩) fun _ _ hs => hs
    · exact (hotherwise _).mono (fun _ hs => ⟨hs.1, (k.branch hn hkind hbefore hs.2).2⟩)
        fun _ _ hs => hs
  · exact fun s hs => ⟨hs.holds, hs.past⟩

theorem sound_invoke {enter : Enter} {dot : Value} {site : Site} {pos : Pos} {name : String}
    {data : Option Pipeline} (henv : env.definitions = t.definitions)
    (hn : t.nodeAt? site = some (.invoke pos name data))
    (hcalls : ∀ walk nodes, enter = some walk → Entries.find? name env.definitions = some nodes →
      ∀ v, k.Sound env (.start (some name)) (walk name v nodes)) :
    k.Sound env site (TrackedWalk.walkNode env enter dot site (.invoke pos name data)) := by
  intro past
  unfold TrackedWalk.walkNode
  refine meets_visit fun before hbefore => ?_
  have hvisit : ⟨site, before⟩ ∈ (⟨site, before⟩ :: past : List Visit) := List.mem_cons_self ..
  cases hfind : Entries.find? name env.definitions with
  | none => exact meets_fail fun _ hs => hs.1.fails hvisit hn (.undefinedTemplate pos name)
  | some nodes =>
    cases enter with
    | none => exact meets_fail fun _ hs => hs.1.fails hvisit hn (.depthExceeded pos)
    | some walk =>
      have hbody : t.body? (some name) = some nodes := by
        rw [henv] at hfind
        exact hfind
      have hrest : ∀ v, Meets (fun s => k.Seen (⟨site, before⟩ :: past) s ∧ s.slots = before)
          (isolated v (walk name v nodes) >>= fun _ => (pure none : TrackedWalk (Option Jump)))
          (fun _ s => k.Seen (⟨site, before⟩ :: past) s) (k.Fails env) := by
        refine fun v => meets_bind (Q := fun _ s => k.Seen (⟨site, before⟩ :: past) s) ?_
          fun _ => meets_pure fun _ hs => hs
        rintro s ⟨hseen, -⟩
        have hrun := hcalls walk nodes rfl hfind v _ { s with slots := [.root v] }
          ⟨⟨hseen.holds, hseen.past⟩, k.start hbody v⟩
        rw [TrackedWalk.isolated_apply]
        generalize walk name v nodes { s with slots := [.root v] } = outcome at hrun ⊢
        rcases outcome with ⟨result, after⟩
        cases result with
        | error e => exact hrun
        | ok jump => exact ⟨hrun.holds, hrun.past⟩
      cases data with
      | none => exact meets_bind (meets_pure fun _ hs => hs) hrest
      | some p => exact meets_bind (meets_evaluate hvisit hn (by simp [Node.pipelines]) .strict dot) hrest

theorem sound_cons {enter : Enter} {dot : Value} {site : Site} {n : Node} {rest : List Node}
    (hn : t.nodeAt? site = some n)
    (hnode : k.Sound env site (TrackedWalk.walkNode env enter dot site n))
    (hrest : k.Sound env site.next (TrackedWalk.walkNodes env enter dot site.next rest)) :
    k.Sound env site (TrackedWalk.walkNodes env enter dot site (n :: rest)) := by
  intro past
  refine meets_bind (Q := fun _ s => k.Seen past s ∧ k.holds site.next s.slots) ?_ fun jump => ?_
  · apply (hnode past).and_ok
    intro s jump after hs hrun
    exact k.next hn hs.2 (sets_walkNode hrun)
  · cases jump with
    | none => exact hrest past
    | some kind => exact meets_pure fun _ hs => hs.1

variable (k) in
/-- What is known of single steps is known of runs. -/
theorem rules (henv : env.definitions = t.definitions) : Rules t env (k.Sound env) where
  text hn past := by
    refine meets_visit fun before hbefore => ?_
    refine meets_bind ((meets_emit (List.mem_cons_self ..) hn _).mono (fun _ hs => hs.1) fun _ _ hs =>
      hs) fun _ => meets_pure fun _ hs => hs
  action hn past := by
    refine meets_visit fun before hbefore => ?_
    exact meets_bind (meets_action (List.mem_cons_self ..) hn (List.mem_singleton_self _) _) fun _ =>
      meets_pure fun _ hs => hs
  control hn hbody hotherwise := by
    rename_i kind pos p body otherwise
    by_cases hkind : kind = .range
    · subst hkind
      exact sound_range hn hbody hotherwise
    · exact sound_branch hn hkind hbody hotherwise
  invoke := sound_invoke henv
  jump _ _ := meets_visit fun _ _ => meets_pure fun _ hs => hs.1
  nil _ := meets_pure fun _ hs => hs.1
  cons := sound_cons

theorem meets_tracked (k : Knowledge t) (functions : Registry) (data : Value) (before : List Value) :
    match tracked functions t data before with
    | (.ok _, s) => ∀ v ∈ s.visits, k.holds v.site v.slots
    | (.error e, s) => k.Fails ⟨functions, t.definitions⟩ e s := by
  have hrules : Rules t ⟨functions, t.definitions⟩ (k.Sound ⟨functions, t.definitions⟩) :=
    k.rules rfl
  have hroot : t.body? none = some t.root := rfl
  have hrun := hrules.walkAt rfl maxDepth hroot data [] ⟨[.root data], [], before.reverse, []⟩
    ⟨⟨by simp, by simp⟩, k.start hroot data⟩
  unfold tracked
  generalize TrackedWalk.walkAt _ _ _ _ _ _ = outcome at hrun ⊢
  rcases outcome with ⟨result, after⟩
  cases result with
  | ok jump => exact hrun.holds
  | error e => exact hrun

/-- At each node that a run comes to, what is known is true. -/
theorem holds_visits (k : Knowledge t) {functions : Registry} {data : Value} {before : List Value} :
    ∀ v ∈ visits functions t data before, k.holds v.site v.slots := by
  intro v hv
  have hv := List.mem_reverse.mp hv
  have hrun := k.meets_tracked functions data before
  generalize tracked functions t data before = outcome at hrun hv
  rcases outcome with ⟨result, after⟩
  cases result with
  | ok jump => exact hrun v hv
  | error e => exact hrun.holds v hv

end Knowledge

/-- A run that fails does so for a reason that lies with a node that it came to. -/
theorem Knowledge.blames_visit {t : Template} (k : Knowledge t) {functions : Registry} {data : Value}
    {before : List Value} {e : EvalError}
    (h : (execute functions t data before).result = .error e) :
    ∃ v ∈ visits functions t data before, ∃ n, t.nodeAt? v.site = some n ∧
      Blames ⟨functions, t.definitions⟩ v.slots n e := by
  have hrun := k.meets_tracked functions data before
  unfold execute at h
  rw [ending_eq_tracked] at h
  unfold visits
  generalize tracked functions t data before = outcome at hrun h ⊢
  rcases outcome with ⟨result, after⟩
  cases result with
  | ok jump => cases h
  | error e' =>
    cases h
    obtain ⟨v, hv, hblames⟩ := hrun.blames
    exact ⟨v, List.mem_reverse.mpr hv, hblames⟩

end BoundQuery.Run
