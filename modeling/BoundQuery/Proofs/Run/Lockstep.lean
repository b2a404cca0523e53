/-
# Runs side by side

Two runs over templates of one shape, with the same variables at every step. What has to be shown is
what single steps do: writing a text, an action, and the pipelines of control structures and calls.
From this it follows for whole runs, through branches, loops and calls of templates.

Main statement: `Accord.lockstep_walkAt`.
-/

import BoundQuery.Proofs.Run.Steps
import BoundQuery.Proofs.Template.Alike

namespace BoundQuery.Run

open Template (Node Pipeline Jump Control Likeness Alike AlikeNodes AlikeOtherwise)
open Text (Pos)

/-- What a run has put out so far. -/
structure Output where
  trace : Trace
  captured : List Value

def State.output (s : State) : Output :=
  ⟨s.trace, s.captured⟩

/-- What is asked of two runs side by side. -/
structure Accord where
  /-- How the outputs go together. -/
  related : Output → Output → Prop
  /-- Errors of the first run after which nothing is asked of the second. -/
  excused : EvalError → Prop
  /-- Other errors that may occur, where the first run has put this out. -/
  admitted : Output → EvalError → Prop

namespace Accord

variable {α β : Type} (k : Accord)

/-- Both runs came to the same end, with equal variables and outputs that go together. -/
inductive Agrees : Except EvalError α × State → Except EvalError α × State → Prop
  | ok {a : α} {s t : State} :
      s.bindings = t.bindings → k.related s.output t.output → Agrees (.ok a, s) (.ok a, t)
  | error {e : EvalError} {s t : State} :
      k.admitted s.output e → k.related s.output t.output → Agrees (.error e, s) (.error e, t)
  | excused {e : EvalError} {s : State} {outcome : Except EvalError α × State} :
      k.excused e → Agrees (.error e, s) outcome

/-- From equal variables and outputs that go together, both walks come to the same end. -/
def Lockstep (m n : Walk α) : Prop :=
  ∀ s t : State, s.bindings = t.bindings → k.related s.output t.output → k.Agrees (m s) (n t)

variable {k}

/-! ### Single steps -/

theorem lockstep_pure (a : α) : k.Lockstep (pure a) (pure a) :=
  fun _ _ hvars hout => .ok hvars hout

theorem lockstep_bind {m n : Walk α} {f g : α → Walk β} (hm : k.Lockstep m n)
    (hf : ∀ a, k.Lockstep (f a) (g a)) : k.Lockstep (m >>= f) (n >>= g) := by
  intro s t hvars hout
  rw [bind_apply, bind_apply]
  have hagrees := hm s t hvars hout
  generalize m s = outcome at hagrees ⊢
  generalize n t = outcome' at hagrees ⊢
  cases hagrees with
  | ok hvars hout => exact hf _ _ _ hvars hout
  | error hadmitted hout => exact .error hadmitted hout
  | excused hexcused => exact .excused hexcused

theorem lockstep_fail {pos : Pos} {fault : EvalFault} (h : ∀ o, k.admitted o ⟨pos, fault⟩) :
    k.Lockstep (Walk.fail pos fault : Walk α) (Walk.fail pos fault) :=
  fun s _ _ hout => .error (h s.output) hout

theorem lockstep_countVariables : k.Lockstep Walk.countVariables Walk.countVariables := by
  intro s t hvars hout
  rw [Walk.countVariables_apply, Walk.countVariables_apply, hvars]
  exact .ok hvars hout

theorem lockstep_keepVariables (count : Nat) :
    k.Lockstep (Walk.keepVariables count) (Walk.keepVariables count) := by
  intro s t hvars hout
  rw [Walk.keepVariables_apply, Walk.keepVariables_apply]
  exact .ok (by simp only [hvars]) hout

theorem lockstep_isolated (data : Value) {m n : Walk (Option Jump)} (h : k.Lockstep m n) :
    k.Lockstep (Walk.isolated data m) (Walk.isolated data n) := by
  intro s t hvars hout
  rw [Walk.isolated_apply, Walk.isolated_apply]
  have hagrees := h { s with bindings := [("$", data)] } { t with bindings := [("$", data)] }
    rfl hout
  generalize m _ = outcome at hagrees ⊢
  generalize n _ = outcome' at hagrees ⊢
  cases hagrees with
  | ok _ hout => exact .ok hvars hout
  | error hadmitted hout => exact .error hadmitted hout
  | excused hexcused => exact .excused hexcused

section Variables

variable (undefined : ∀ pos name o, k.admitted o ⟨pos, .undefinedVariable name⟩)
include undefined

theorem lockstep_bindVariable (p : Pipeline) (name : String) (v : Value) :
    k.Lockstep (Walk.bind p name v) (Walk.bind p name v) := by
  intro s t hvars hout
  rw [Walk.bind_variable_apply, Walk.bind_variable_apply, hvars]
  split
  · split
    · exact .ok rfl hout
    · exact .error (undefined _ _ _) hout
  · exact .ok rfl hout

theorem lockstep_bindAll (p : Pipeline) (v : Value) (names : List String) :
    k.Lockstep (Walk.bindAll p v names) (Walk.bindAll p v names) := by
  induction names with
  | nil => exact lockstep_pure ()
  | cons name rest ih => exact lockstep_bind (lockstep_bindVariable undefined p name v) fun _ => ih

theorem lockstep_evaluateAndBind {env env' : Env} {mode : Mode} {dot : Value} {p : Pipeline}
    (h : k.Lockstep (Walk.evaluate env mode dot p) (Walk.evaluate env' mode dot p)) :
    k.Lockstep (Walk.evaluateAndBind env mode dot p) (Walk.evaluateAndBind env' mode dot p) :=
  lockstep_bind h fun v =>
    lockstep_bind (lockstep_bindAll undefined p v p.names) fun _ => lockstep_pure v

/-- An action evaluates its pipeline and then writes the value, or a mark for the value that was
captured last. -/
theorem lockstep_action_of_steps {env env' : Env} {dot : Value} {p : Pipeline}
    (hevaluate : k.Lockstep (Walk.evaluate env .strict dot p) (Walk.evaluate env' .strict dot p))
    (hvalue : ∀ v, k.Lockstep (Walk.emit (.value v)) (Walk.emit (.value v)))
    (hargument : p.capturesValue = true →
      k.Lockstep
        (get >>= fun s : State => Walk.emit (.argument p.pos (s.captured.headD .null)))
        (get >>= fun s : State => Walk.emit (.argument p.pos (s.captured.headD .null)))) :
    k.Lockstep (Walk.action env dot p) (Walk.action env' dot p) := by
  unfold Walk.action
  refine lockstep_bind (lockstep_evaluateAndBind undefined hevaluate) fun v => ?_
  by_cases hsets : p.setsVariables
  · rw [if_pos hsets]
    exact lockstep_pure ()
  · rw [if_neg hsets]
    by_cases hcaptures : p.capturesValue
    · rw [if_pos hcaptures]
      exact hargument hcaptures
    · rw [if_neg hcaptures]
      exact hvalue v

theorem lockstep_bindRound (p : Pipeline) (key item : Value) :
    k.Lockstep (Walk.bindRound p key item) (Walk.bindRound p key item) := by
  unfold Walk.bindRound
  split
  · exact lockstep_bindVariable undefined p _ item
  · exact lockstep_bind (lockstep_bindVariable undefined p _ key) fun _ =>
      lockstep_bindVariable undefined p _ item
  · exact lockstep_pure ()

theorem lockstep_rounds (p : Pipeline) (count : Nat) {body body' : Value → Walk (Option Jump)}
    (hbody : ∀ item, k.Lockstep (body item) (body' item)) (rounds : List (Value × Value)) :
    k.Lockstep (Walk.rounds p count body rounds) (Walk.rounds p count body' rounds) := by
  induction rounds with
  | nil => exact lockstep_pure ()
  | cons round rest ih =>
    obtain ⟨key, item⟩ := round
    rw [Walk.rounds, Walk.rounds]
    refine lockstep_bind (lockstep_keepVariables count) fun _ => ?_
    refine lockstep_bind (lockstep_bindRound undefined p key item) fun _ => ?_
    refine lockstep_bind (hbody item) fun jump => ?_
    split
    · exact lockstep_pure ()
    · exact ih

end Variables

/-! ### Whole runs -/

/-- What has to be shown of single steps, for templates that are alike. -/
structure Keeps (k : Accord) (l : Likeness) (env env' : Env) : Prop where
  text {s : String} : l.text s → k.Lockstep (Walk.emit (.text s)) (Walk.emit (.text s))
  action {p q : Pipeline} :
    l.action p q → ∀ dot, k.Lockstep (Walk.action env dot p) (Walk.action env' dot q)
  source {p : Pipeline} :
    l.source p → ∀ mode dot,
      k.Lockstep (Walk.evaluate env mode dot p) (Walk.evaluate env' mode dot p)
  definitions (name : String) :
    AlikeOtherwise l (Entries.find? name env.definitions) (Entries.find? name env'.definitions)
  undefinedVariable (pos : Pos) (name : String) (o : Output) :
    k.admitted o ⟨pos, .undefinedVariable name⟩
  undefinedTemplate (pos : Pos) (name : String) (o : Output) :
    k.admitted o ⟨pos, .undefinedTemplate name⟩
  cannotRange (pos : Pos) (kind : Kind) (o : Output) : k.admitted o ⟨pos, .cannotRange kind⟩
  depthExceeded (pos : Pos) (o : Output) : k.admitted o ⟨pos, .depthExceeded⟩

/-- Two ways to walk over the body of a called template, if calls are not too deep. -/
inductive EnterLockstep (k : Accord) (l : Likeness) :
    Option (Value → List Node → Walk (Option Jump)) →
      Option (Value → List Node → Walk (Option Jump)) → Prop
  | none : EnterLockstep k l none none
  | some {enter enter' : Value → List Node → Walk (Option Jump)} :
      (∀ data nodes nodes', AlikeNodes l nodes nodes' →
        k.Lockstep (enter data nodes) (enter' data nodes')) →
      EnterLockstep k l (some enter) (some enter')

section Runs

variable {l : Likeness} {env env' : Env}
  {enter enter' : Option (Value → List Node → Walk (Option Jump))}

theorem lockstep_invoke (keeps : Keeps k l env env') (hcall : EnterLockstep k l enter enter')
    (dot : Value) (pos : Pos) (name : String) {data : Option Pipeline}
    (hdata : ∀ p ∈ data, l.source p) :
    k.Lockstep (walkNode env enter dot (.invoke pos name data))
      (walkNode env' enter' dot (.invoke pos name data)) := by
  unfold walkNode
  have hfind := keeps.definitions name
  generalize Entries.find? name env.definitions = found at hfind ⊢
  generalize Entries.find? name env'.definitions = found' at hfind ⊢
  cases hfind with
  | none => exact lockstep_fail (keeps.undefinedTemplate pos name)
  | some halike =>
    cases hcall with
    | none => exact lockstep_fail (keeps.depthExceeded pos)
    | some henter =>
      have hrest := fun v => lockstep_bind (lockstep_isolated v (henter v _ _ halike)) fun _ =>
        lockstep_pure (none : Option Jump)
      cases data with
      | none => exact lockstep_bind (lockstep_pure Value.null) hrest
      | some p => exact lockstep_bind (keeps.source (hdata p rfl) .strict dot) hrest

theorem lockstep_range (keeps : Keeps k l env env') (dot : Value) (pos : Pos) {p : Pipeline}
    {body body' : List Node} {otherwise otherwise' : Option (List Node)} (hp : l.source p)
    (hbody : ∀ dot, k.Lockstep (walkNodes env enter dot body) (walkNodes env' enter' dot body'))
    (hotherwise : k.Lockstep (walkOtherwise env enter dot otherwise)
      (walkOtherwise env' enter' dot otherwise')) :
    k.Lockstep (walkNode env enter dot (.control .range pos p body otherwise))
      (walkNode env' enter' dot (.control .range pos p body' otherwise')) := by
  rw [walkNode_range, walkNode_range]
  refine lockstep_bind (keeps.source hp .lenient dot) fun source => ?_
  split
  · exact lockstep_fail (keeps.cannotRange pos source.kind)
  · exact hotherwise
  · refine lockstep_bind lockstep_countVariables fun count => ?_
    refine lockstep_bind (lockstep_rounds keeps.undefinedVariable p count hbody _) fun _ => ?_
    exact lockstep_bind (lockstep_keepVariables count) fun _ => lockstep_pure none

theorem lockstep_branch (keeps : Keeps k l env env') {kind : Control} (hkind : kind ≠ .range)
    (dot : Value) (pos : Pos) {p : Pipeline} {body body' : List Node}
    {otherwise otherwise' : Option (List Node)} (hp : l.source p)
    (hbody : ∀ dot, k.Lockstep (walkNodes env enter dot body) (walkNodes env' enter' dot body'))
    (hotherwise : k.Lockstep (walkOtherwise env enter dot otherwise)
      (walkOtherwise env' enter' dot otherwise')) :
    k.Lockstep (walkNode env enter dot (.control kind pos p body otherwise))
      (walkNode env' enter' dot (.control kind pos p body' otherwise')) := by
  rw [walkNode_branch (h := hkind), walkNode_branch (h := hkind)]
  refine lockstep_bind lockstep_countVariables fun count => ?_
  refine lockstep_bind
    (lockstep_evaluateAndBind keeps.undefinedVariable (keeps.source hp .lenient dot)) fun v => ?_
  have hrest := fun jump : Option Jump =>
    lockstep_bind (k := k) (lockstep_keepVariables count) fun _ => lockstep_pure jump
  by_cases hv : v.isTruthy
  · simp only [hv, if_true]
    exact lockstep_bind (hbody _) hrest
  · simp only [hv, Bool.false_eq_true, if_false]
    exact lockstep_bind hotherwise hrest

mutual

theorem lockstep_walkNode (keeps : Keeps k l env env') (hcall : EnterLockstep k l enter enter')
    (dot : Value) : ∀ n n' : Node, Alike l n n' →
      k.Lockstep (walkNode env enter dot n) (walkNode env' enter' dot n')
  | .text s, _, h => by
    cases h with
    | text hs => exact lockstep_bind (keeps.text hs) fun _ => lockstep_pure none
  | .action p, _, h => by
    cases h with
    | action hp => exact lockstep_bind (keeps.action hp dot) fun _ => lockstep_pure none
  | .control kind pos p body otherwise, _, h => by
    cases h with
    | control hp hbody hotherwise =>
      have hwalkBody := fun dot => lockstep_walkNodes keeps hcall dot body _ hbody
      have hwalkOtherwise := lockstep_walkOtherwise keeps hcall dot otherwise _ hotherwise
      by_cases hkind : kind = .range
      · subst hkind
        exact lockstep_range keeps dot pos hp hwalkBody hwalkOtherwise
      · exact lockstep_branch keeps hkind dot pos hp hwalkBody hwalkOtherwise
  | .invoke pos name data, _, h => by
    cases h with
    | invoke hdata => exact lockstep_invoke keeps hcall dot pos name hdata
  | .jump kind _, _, h => by
    cases h with
    | jump => exact lockstep_pure (some kind)

theorem lockstep_walkNodes (keeps : Keeps k l env env') (hcall : EnterLockstep k l enter enter')
    (dot : Value) :
    ∀ nodes nodes' : List Node, AlikeNodes l nodes nodes' →
      k.Lockstep (walkNodes env enter dot nodes) (walkNodes env' enter' dot nodes')
  | [], _, h => by
    cases h with
    | nil => exact lockstep_pure none
  | n :: rest, _, h => by
    cases h with
    | cons hn hrest =>
      refine lockstep_bind (lockstep_walkNode keeps hcall dot n _ hn) fun jump => ?_
      cases jump with
      | none => exact lockstep_walkNodes keeps hcall dot rest _ hrest
      | some kind => exact lockstep_pure (some kind)

theorem lockstep_walkOtherwise (keeps : Keeps k l env env') (hcall : EnterLockstep k l enter enter')
    (dot : Value) :
    ∀ otherwise otherwise' : Option (List Node), AlikeOtherwise l otherwise otherwise' →
      k.Lockstep (walkOtherwise env enter dot otherwise) (walkOtherwise env' enter' dot otherwise')
  | none, _, h => by
    cases h with
    | none => exact lockstep_pure none
  | some nodes, _, h => by
    cases h with
    | some hnodes => exact lockstep_walkNodes keeps hcall dot nodes _ hnodes

end

/-- Runs over templates that are alike go side by side, as deep as calls may go. -/
theorem lockstep_walkAt (keeps : Keeps k l env env') (depth : Nat) (dot : Value)
    {nodes nodes' : List Node} (h : AlikeNodes l nodes nodes') :
    k.Lockstep (walkAt env depth dot nodes) (walkAt env' depth dot nodes') := by
  induction depth generalizing dot nodes nodes' with
  | zero => exact lockstep_walkNodes keeps .none dot nodes nodes' h
  | succ depth ih =>
    exact lockstep_walkNodes keeps (.some fun data _ _ halike => ih data halike) dot nodes nodes' h

end Runs

end Accord

end BoundQuery.Run
