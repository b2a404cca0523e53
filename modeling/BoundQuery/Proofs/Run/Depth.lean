/-
# Calls that are too deep

A run fails because calls are too deep only where templates call each other in a circle, or where
there are more definitions than calls may be deep: on the way down each call leads to fewer
definitions.

Main statement: `depth_bounds_circles`.
-/

import BoundQuery.Proofs.Run.Counting
import BoundQuery.Proofs.Run.Evaluation
import BoundQuery.Proofs.Run.Traces
import BoundQuery.Proofs.Template.Calls

namespace BoundQuery.Run

open Template (Node Pipeline Jump Control callees nodesWithin nodesOtherwise)
open Text (Pos)

/-! ### Steps that do not go deeper -/

/-- The walk does not fail because calls are too deep. -/
def Shallow {α : Type} (m : Walk α) : Prop :=
  ∀ ⦃s e s'⦄, m s = (.error e, s') → e.fault ≠ .depthExceeded

section Steps

variable {α β : Type}

theorem shallow_of_ok {m : Walk α} (h : ∀ s, ∃ a s', m s = (.ok a, s')) : Shallow m := by
  intro s e s' herr
  obtain ⟨a, after, hok⟩ := h s
  cases hok.symm.trans herr

theorem shallow_pure (a : α) : Shallow (pure a) :=
  shallow_of_ok fun s => ⟨a, s, rfl⟩

theorem shallow_fail (pos : Pos) {fault : EvalFault} (h : fault ≠ .depthExceeded) :
    Shallow (Walk.fail pos fault : Walk α) := by
  intro s e s' herr
  cases herr
  exact h

theorem shallow_bind {m : Walk α} {f : α → Walk β} (hm : Shallow m) (hf : ∀ a, Shallow (f a)) :
    Shallow (m >>= f) := by
  intro s e s' herr
  rw [bind_apply] at herr
  cases hfirst : m s with
  | mk result mid =>
    rw [hfirst] at herr
    cases result with
    | error err =>
      cases herr
      exact hm hfirst
    | ok a => exact hf a herr

theorem shallow_evaluate (env : Env) (mode : Mode) (dot : Value) (p : Pipeline) :
    Shallow (Walk.evaluate env mode dot p) := by
  intro s e s' herr
  obtain ⟨outcome, added, heval, hp⟩ := exists_evalPipeline ⟨env.functions, s.bindings, dot, mode⟩ p
  rw [Walk.evaluate_apply, hp] at herr
  cases herr
  intro hfault
  have hof := heval _ rfl
  rw [hfault] at hof
  exact hof

theorem shallow_emit (piece : Emission) : Shallow (Walk.emit piece) := by
  intro s e s' herr
  rw [Walk.emit_apply] at herr
  cases hemit : Trace.emit piece s.trace with
  | ok trace =>
    rw [hemit] at herr
    cases herr
  | error err =>
    rw [hemit] at herr
    cases herr
    rw [Trace.emit_eq_error hemit]
    nofun

theorem shallow_countVariables : Shallow Walk.countVariables :=
  shallow_of_ok fun s => ⟨s.bindings.length, s, rfl⟩

theorem shallow_keepVariables (count : Nat) : Shallow (Walk.keepVariables count) :=
  shallow_of_ok fun _ => ⟨(), _, rfl⟩

theorem shallow_bindVariable (p : Pipeline) (name : String) (v : Value) :
    Shallow (Walk.bind p name v) := by
  intro s e s' herr
  rw [Walk.bind_variable_apply] at herr
  split at herr
  · split at herr
    · cases herr
    · cases herr
      nofun
  · cases herr

theorem shallow_bindAll (p : Pipeline) (v : Value) (names : List String) :
    Shallow (Walk.bindAll p v names) := by
  induction names with
  | nil => exact shallow_pure ()
  | cons name rest ih => exact shallow_bind (shallow_bindVariable p name v) fun _ => ih

theorem shallow_evaluateAndBind (env : Env) (mode : Mode) (dot : Value) (p : Pipeline) :
    Shallow (Walk.evaluateAndBind env mode dot p) :=
  shallow_bind (shallow_evaluate env mode dot p) fun v =>
    shallow_bind (shallow_bindAll p v p.names) fun _ => shallow_pure v

theorem shallow_action (env : Env) (dot : Value) (p : Pipeline) :
    Shallow (Walk.action env dot p) := by
  refine shallow_bind (shallow_evaluateAndBind env .strict dot p) fun v => ?_
  split
  · exact shallow_pure ()
  · split
    · exact shallow_bind (shallow_of_ok fun s => ⟨s, s, rfl⟩) fun s => shallow_emit _
    · exact shallow_emit _

theorem shallow_bindRound (p : Pipeline) (key item : Value) :
    Shallow (Walk.bindRound p key item) := by
  unfold Walk.bindRound
  split
  · exact shallow_bindVariable p _ item
  · exact shallow_bind (shallow_bindVariable p _ key) fun _ => shallow_bindVariable p _ item
  · exact shallow_pure ()

theorem shallow_rounds (p : Pipeline) (count : Nat) {body : Value → Walk (Option Jump)}
    (hbody : ∀ item, Shallow (body item)) (rounds : List (Value × Value)) :
    Shallow (Walk.rounds p count body rounds) := by
  induction rounds with
  | nil => exact shallow_pure ()
  | cons round rest ih =>
    obtain ⟨key, item⟩ := round
    rw [Walk.rounds]
    refine shallow_bind (shallow_keepVariables count) fun _ => ?_
    refine shallow_bind (shallow_bindRound p key item) fun _ => ?_
    refine shallow_bind (hbody item) fun jump => ?_
    split
    · exact shallow_pure ()
    · exact ih

theorem shallow_isolated (data : Value) {m : Walk (Option Jump)} (h : Shallow m) :
    Shallow (Walk.isolated data m) := by
  intro s e s' herr
  rw [Walk.isolated_apply] at herr
  split at herr
  · cases herr
  · rename_i hbody
    cases herr
    exact h hbody

end Steps

/-! ### Walks that go deeper only where they may -/

section Walks

variable {env : Env} {enter : Option (Value → List Node → Walk (Option Jump))}

/-- The template of this name, if there is one, can be called, and the walk over its body does not
fail because calls are too deep. -/
def Admits (env : Env) (enter : Option (Value → List Node → Walk (Option Jump))) (name : String) :
    Prop :=
  ∀ body, Entries.find? name env.definitions = some body →
    ∃ enter', enter = some enter' ∧ ∀ data, Shallow (enter' data body)

theorem shallow_invoke (dot : Value) (pos : Pos) {name : String} (h : Admits env enter name)
    (data : Option Pipeline) : Shallow (walkNode env enter dot (.invoke pos name data)) := by
  unfold walkNode
  cases hfind : Entries.find? name env.definitions with
  | none =>
    refine shallow_fail pos fun heq => ?_
    cases heq
  | some body =>
    obtain ⟨enter', rfl, hbody⟩ := h body hfind
    have hrest := fun v => shallow_bind (shallow_isolated v (hbody v)) fun _ =>
      shallow_pure (none : Option Jump)
    cases data with
    | none => exact shallow_bind (shallow_pure Value.null) hrest
    | some p => exact shallow_bind (shallow_evaluate env .strict dot p) hrest

mutual

theorem shallow_walkNode (dot : Value) : ∀ n : Node,
    (∀ name ∈ n.tree.filterMap Node.callee?, Admits env enter name) →
      Shallow (walkNode env enter dot n)
  | .text s, _ => shallow_bind (shallow_emit _) fun _ => shallow_pure none
  | .action p, _ => shallow_bind (shallow_action env dot p) fun _ => shallow_pure none
  | .control kind pos p body otherwise, h => by
    have hcallees : ∀ name ∈ callees body ++ (nodesOtherwise otherwise).filterMap Node.callee?,
        Admits env enter name := by
      intro name hname
      rw [callees, ← List.filterMap_append] at hname
      exact h name hname
    rw [List.forall_mem_append] at hcallees
    have hbody := fun dot => shallow_walkNodes dot body hcallees.1
    have hotherwise := shallow_walkOtherwise dot otherwise hcallees.2
    by_cases hkind : kind = .range
    · subst hkind
      rw [walkNode_range]
      refine shallow_bind (shallow_evaluate env .lenient dot p) fun source => ?_
      split
      · exact shallow_fail pos nofun
      · exact hotherwise
      · refine shallow_bind shallow_countVariables fun count => ?_
        refine shallow_bind (shallow_rounds p count hbody _) fun _ => ?_
        exact shallow_bind (shallow_keepVariables count) fun _ => shallow_pure none
    · rw [walkNode_branch (h := hkind)]
      refine shallow_bind shallow_countVariables fun count => ?_
      refine shallow_bind (shallow_evaluateAndBind env .lenient dot p) fun v => ?_
      have hrest := fun jump : Option Jump =>
        shallow_bind (shallow_keepVariables count) fun _ => shallow_pure jump
      cases v.isTruthy with
      | false => exact shallow_bind hotherwise hrest
      | true => exact shallow_bind (hbody _) hrest
  | .invoke pos name data, h => shallow_invoke dot pos (h name (List.mem_singleton_self name)) data
  | .jump kind _, _ => shallow_pure (some kind)

theorem shallow_walkNodes (dot : Value) : ∀ nodes : List Node,
    (∀ name ∈ callees nodes, Admits env enter name) → Shallow (walkNodes env enter dot nodes)
  | [], _ => shallow_pure none
  | n :: rest, h => by
    rw [callees, nodesWithin, List.filterMap_append, List.forall_mem_append] at h
    refine shallow_bind (shallow_walkNode dot n h.1) fun jump => ?_
    cases jump with
    | none => exact shallow_walkNodes dot rest h.2
    | some kind => exact shallow_pure (some kind)

theorem shallow_walkOtherwise (dot : Value) : ∀ otherwise : Option (List Node),
    (∀ name ∈ (nodesOtherwise otherwise).filterMap Node.callee?, Admits env enter name) →
      Shallow (walkOtherwise env enter dot otherwise)
  | none, _ => shallow_pure none
  | some nodes, h => shallow_walkNodes dot nodes h

end

end Walks

/-! ### Runs without circles -/

/-- Where calls may be as deep as there are definitions to come to, they are not too deep. -/
theorem shallow_walkAt {t : Template} (hacyclic : t.Acyclic) (functions : Registry) {depth : Nat}
    {a : Option String} {nodes : List Node} (hbody : t.body? a = some nodes)
    (hdepth : (t.below a).card ≤ depth) (dot : Value) :
    Shallow (walkAt ⟨functions, t.definitions⟩ depth dot nodes) := by
  induction depth generalizing a nodes dot with
  | zero =>
    -- No definition is further on, so none is called.
    refine shallow_walkNodes dot nodes fun name hname body hfind => ?_
    have hless := Template.card_below_lt hacyclic hbody hname hfind
    exact absurd (hless.trans_le hdepth) (Nat.not_lt_zero _)
  | succ depth ih =>
    refine shallow_walkNodes dot nodes fun name hname body hfind => ?_
    have hless := Template.card_below_lt hacyclic hbody hname hfind
    have hleft := Nat.le_of_lt_succ (hless.trans_le hdepth)
    exact ⟨_, rfl, fun data => ih (a := some name) hfind hleft data⟩

/-- The bound on the depth of calls stops nothing but circles. A template that has none, and no more
definitions than calls may be deep, does not fail because calls are too deep, captured or not, however
often it calls templates. In each run of any template the counter is at every point the number of the
called templates that the run is in, and within the bound. -/
theorem depth_bounds_circles (t : Template) :
    (t.Acyclic → t.definitions.length ≤ maxDepth →
      ∀ times functions data before pos,
        (execute functions (Template.capture^[times] t) data before).result ≠
          .error ⟨pos, .depthExceeded⟩) ∧
    ∀ beyond functions data before,
      ((counted beyond functions t data before).1,
          (counted beyond functions t data before).2.state) = ending functions t data before ∧
        (counted beyond functions t data before).2.depth = 0 ∧
        ∀ moment ∈ (counted beyond functions t data before).2.moments,
          moment.depth = moment.calls.length ∧ moment.depth ≤ maxDepth := by
  constructor
  · intro hacyclic hcount times functions data before pos hresult
    have hbelow : ((Template.capture^[times] t).below none).card ≤ maxDepth := by
      refine (Template.card_below_le _ _).trans ?_
      rw [Template.length_definitions_capture_iterate]
      exact hcount
    have hshallow := shallow_walkAt (hacyclic.capture_iterate times) functions (a := none) rfl hbelow
      data
    have hfails : (ending functions (Template.capture^[times] t) data before).1 =
        .error ⟨pos, .depthExceeded⟩ := by
      cases hending : (ending functions (Template.capture^[times] t) data before).1 with
      | ok jump => simp [execute, hending, Except.map] at hresult
      | error e => simpa [execute, hending, Except.map] using hresult
    exact hshallow (Prod.ext hfails rfl) rfl
  · exact fun beyond functions data before => counted_ending beyond functions t data before

/-- In each round of a loop one definition is called, which calls another one twice. -/
theorem depth_bounds_circles_loop :
    ∃ t : Template,
      Template.parse (fun _ => false)
        ("\x7b\x7bdefine \"a\"\x7d\x7d{{.}}\x7b\x7bend\x7d\x7d".toList ++
          "\x7b\x7bdefine \"b\"\x7d\x7d\x7b\x7btemplate \"a\" .\x7d\x7d".toList ++
          "-\x7b\x7btemplate \"a\" .\x7d\x7d\x7b\x7bend\x7d\x7d".toList ++
          "{{range .}}\x7b\x7btemplate \"b\" .\x7d\x7d{{end}}".toList) = .ok t ∧
      t.Acyclic ∧ t.definitions.length ≤ maxDepth ∧
      ∀ functions data before pos,
        (execute functions t.capture data before).result ≠ .error ⟨pos, .depthExceeded⟩ := by
  let rank (name : String) : Nat := if name = "a" then 0 else 1
  obtain ⟨t, hparse, ht⟩ := exists_of_any
    (x := Template.parse (fun _ => false)
      ("\x7b\x7bdefine \"a\"\x7d\x7d{{.}}\x7b\x7bend\x7d\x7d".toList ++
        "\x7b\x7bdefine \"b\"\x7d\x7d\x7b\x7btemplate \"a\" .\x7d\x7d".toList ++
        "-\x7b\x7btemplate \"a\" .\x7d\x7d\x7b\x7bend\x7d\x7d".toList ++
        "{{range .}}\x7b\x7btemplate \"b\" .\x7d\x7d{{end}}".toList))
    (p := fun t => decide (t.definitions.length ≤ maxDepth) &&
      decide (∀ d ∈ t.definitions, ∀ callee ∈ callees d.2, rank callee < rank d.1))
    (by decide +kernel)
  simp only [Bool.and_eq_true, decide_eq_true_eq] at ht
  obtain ⟨hcount, hrank⟩ := ht
  have hacyclic : t.Acyclic := Template.acyclic_of_rank rank fun name nodes hfind callee hcallee _ =>
    hrank _ (Entries.mem_of_find? hfind) callee hcallee
  exact ⟨t, hparse, hacyclic, hcount, (depth_bounds_circles t).1 hacyclic hcount 1⟩

end BoundQuery.Run
