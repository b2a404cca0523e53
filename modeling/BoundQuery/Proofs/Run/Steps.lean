/-
# Steps of a run

What each step of a run makes of the state, and how it fails. What is proved of runs is proved from
these equations.
-/

import BoundQuery.Proofs.Fallible
import BoundQuery.Run.Walk

namespace BoundQuery.Run

open Template (Node Pipeline Jump Control)
open Text (Pos)

namespace Walk

variable (s : State)

theorem evaluate_apply (env : Env) (mode : Mode) (dot : Value) (p : Pipeline) :
    evaluate env mode dot p s =
      match evalPipeline ⟨env.functions, s.bindings, dot, mode⟩ p s.captured with
      | (outcome, captured) => (outcome, { s with captured }) := rfl

theorem emit_apply (e : Emission) :
    emit e s =
      match Trace.emit e s.trace with
      | .ok trace => (.ok (), { s with trace })
      | .error err => (.error err, s) := by
  change (liftExcept (Trace.emit e s.trace) >>= fun trace =>
    (set { s with trace } : Walk Unit)) s = _
  rw [bind_apply]
  cases Trace.emit e s.trace <;> rfl

theorem bind_variable_apply (p : Pipeline) (name : String) (v : Value) :
    Walk.bind p name v s =
      if p.assigns then
        match assign? name v s.bindings with
        | some bindings => (.ok (), { s with bindings })
        | none => (.error ⟨p.pos, .undefinedVariable name⟩, s)
      else (.ok (), { s with bindings := (name, v) :: s.bindings }) := by
  change (ite _ _ _ : Walk Unit) s = _
  split
  · cases assign? name v s.bindings <;> rfl
  · rfl

theorem countVariables_apply : countVariables s = (.ok s.bindings.length, s) := rfl

theorem keepVariables_apply (count : Nat) :
    keepVariables count s =
      (.ok (), { s with bindings := s.bindings.drop (s.bindings.length - count) }) := rfl

theorem isolated_apply (data : Value) (body : Walk (Option Jump)) :
    isolated data body s =
      match body { s with bindings := [("$", data)] } with
      | (.ok _, after) => (.ok (), { after with bindings := s.bindings })
      | (.error e, after) => (.error e, after) := by
  change (body >>= fun _ => (modify fun after => { after with bindings := s.bindings } : Walk Unit))
    { s with bindings := [("$", data)] } = _
  rw [bind_apply]
  rcases body { s with bindings := [("$", data)] } with ⟨result, after⟩
  cases result <;> rfl

/-- A pipeline that sets no variables changes nothing but what is captured. -/
theorem evaluateAndBind_apply {p : Pipeline} (h : p.setsVariables = false) (env : Env) (mode : Mode)
    (dot : Value) : evaluateAndBind env mode dot p s = evaluate env mode dot p s := by
  have hnames : p.names = [] := by simpa [Pipeline.setsVariables] using h
  unfold evaluateAndBind
  rw [bind_apply, hnames]
  rcases evaluate env mode dot p s with ⟨result, after⟩
  cases result <;> rfl

/-- What an action does once its pipeline is evaluated. -/
theorem action_apply (env : Env) (dot : Value) (p : Pipeline) :
    action env dot p s =
      match evaluateAndBind env .strict dot p s with
      | (.ok v, s) =>
        if p.setsVariables then (.ok (), s)
        else if p.capturesValue then emit (.argument p.pos (s.captured.headD .null)) s
        else emit (.value v) s
      | (.error e, s) => (.error e, s) := by
  unfold action
  rw [bind_apply]
  rcases evaluateAndBind env .strict dot p s with ⟨result, after⟩
  cases result with
  | error e => rfl
  | ok v =>
    by_cases hsets : p.setsVariables
    · simp [hsets, pure_apply]
    · by_cases hcaptures : p.capturesValue
      · simp only [hsets, hcaptures]
        rfl
      · simp [hsets, hcaptures]

end Walk

/-! ### Control structures -/

section Nodes

variable (env : Env) (enter : Option (Value → List Node → Walk (Option Jump))) (dot : Value)
  (pos : Pos) (p : Pipeline) (body : List Node) (otherwise : Option (List Node))

theorem walkNode_range :
    walkNode env enter dot (.control .range pos p body otherwise) =
      Walk.evaluate env .lenient dot p >>= fun source =>
        match roundsOf? source with
        | none => Walk.fail pos (.cannotRange source.kind)
        | some [] => walkOtherwise env enter dot otherwise
        | some rounds => do
          let count ← Walk.countVariables
          Walk.rounds p count (fun item => walkNodes env enter item body) rounds
          Walk.keepVariables count
          return none := by
  unfold walkNode
  rfl

theorem walkNode_branch {kind : Control} (h : kind ≠ .range) :
    walkNode env enter dot (.control kind pos p body otherwise) = do
      let count ← Walk.countVariables
      let v ← Walk.evaluateAndBind env .lenient dot p
      let jump ←
        if v.isTruthy then walkNodes env enter (if kind = .scope then v else dot) body
        else walkOtherwise env enter dot otherwise
      Walk.keepVariables count
      return jump := by
  rw [walkNode]
  exact h

end Nodes

end BoundQuery.Run
