/-
# What a run does not depend on

What was put out before a part of a run has no effect on it, unless it ends in a question mark for a
value: two runs of the same part, from equal variables, put out the same after it. So a run captures
the same values whatever was captured in earlier runs; and a called template, whose variables are its
own, does the same for all callers that give it the same data.

Main statements: `captured_values_append`, `call_isolated`.
-/

import BoundQuery.Proofs.Run.Counting
import BoundQuery.Proofs.Run.Evaluation
import BoundQuery.Proofs.Run.Lockstep
import BoundQuery.Proofs.Run.Spelled

namespace BoundQuery

/-! ### Templates that are the same -/

namespace Template

/-- Two templates that are the same. -/
def Likeness.same : Likeness :=
  ⟨fun _ => True, Eq, fun _ => True⟩

theorem Likeness.same_admits (n : Node) : same.Admits n := by
  cases n with
  | text s => trivial
  | action p => rfl
  | control kind pos p body otherwise => trivial
  | invoke pos name data => exact fun _ _ => trivial
  | jump kind pos => trivial

end Template

namespace Run

open Template (Node Pipeline Jump Likeness captureName alikeNodes_self alikeOtherwise_self)
open Text (Pos)

/-! ### Output on top of other output -/

namespace Trace

/-- A text that does not end in a mark for a value does not count for what is written after it. -/
theorem openMark?_of_closed {before : Trace} (h : openMark? before = none) (pieces : Trace) :
    openMark? (pieces ++ before) = openMark? pieces := by
  induction pieces with
  | nil => exact h
  | cons e rest ih =>
    cases e with
    | argument pos v => rfl
    | text s => simp only [List.cons_append, openMark?, ih]
    | value v => simp only [List.cons_append, openMark?, ih]

theorem emit_of_closed {before : Trace} (h : openMark? before = none) (e : Emission)
    (pieces : Trace) : emit e (pieces ++ before) = (emit e pieces).map (· ++ before) := by
  unfold emit
  rw [openMark?_of_closed h]
  cases openMark? pieces with
  | none => rfl
  | some pos =>
    by_cases hhead : e.chars.head? = some Statement.mark
    · simp only [if_pos hhead, Except.map]
    · simp only [if_neg hhead, Except.map, List.cons_append]

end Trace

/-- What was put out after something else, together with it. -/
def Output.above (added base : Output) : Output :=
  ⟨added.trace ++ base.trace, added.captured ++ base.captured⟩

namespace Accord

/-- After what each run had put out at first, both have put out the same. -/
def above (base base' : Output) : Accord where
  related o o' := ∃ added : Output, o = added.above base ∧ o' = added.above base'
  excused _ := False
  admitted _ _ := True

section Above

variable {base base' : Output}

theorem lockstep_of_agrees {α : Type} {m n : Walk α}
    (h : ∀ bindings trace captured, (above base base').Agrees
      (m ⟨bindings, trace ++ base.trace, captured ++ base.captured⟩)
      (n ⟨bindings, trace ++ base'.trace, captured ++ base'.captured⟩)) :
    (above base base').Lockstep m n := by
  rintro ⟨bindings, _, _⟩ ⟨_, _, _⟩ ⟨⟩ ⟨⟨trace, captured⟩, ⟨⟩, ⟨⟩⟩
  exact h bindings trace captured

theorem agrees_above {α : Type} (result : Except EvalError α) (bindings : Variables) (trace : Trace)
    (captured : List Value) :
    (above base base').Agrees
      (result, ⟨bindings, trace ++ base.trace, captured ++ base.captured⟩)
      (result, ⟨bindings, trace ++ base'.trace, captured ++ base'.captured⟩) := by
  cases result with
  | ok a => exact .ok rfl ⟨⟨trace, captured⟩, rfl, rfl⟩
  | error e => exact .error trivial ⟨⟨trace, captured⟩, rfl, rfl⟩

theorem lockstep_evaluate (env : Env) (mode : Mode) (dot : Value) (p : Pipeline) :
    (above base base').Lockstep (Walk.evaluate env mode dot p) (Walk.evaluate env mode dot p) := by
  refine lockstep_of_agrees fun bindings trace captured => ?_
  obtain ⟨outcome, added, -, hp⟩ := exists_evalPipeline ⟨env.functions, bindings, dot, mode⟩ p
  rw [Walk.evaluate_apply, Walk.evaluate_apply, hp, hp, ← List.append_assoc, ← List.append_assoc]
  exact agrees_above outcome bindings trace (added ++ captured)

variable (hbase : Trace.openMark? base.trace = none) (hbase' : Trace.openMark? base'.trace = none)
include hbase hbase'

theorem lockstep_emit (e : Emission) :
    (above base base').Lockstep (Walk.emit e) (Walk.emit e) := by
  refine lockstep_of_agrees fun bindings trace captured => ?_
  rw [Walk.emit_apply, Walk.emit_apply, Trace.emit_of_closed hbase, Trace.emit_of_closed hbase']
  cases Trace.emit e trace with
  | ok trace' => exact agrees_above (.ok ()) bindings trace' captured
  | error err => exact agrees_above (.error err) bindings trace captured

/-- What an action writes for a value that it captures is the last value that it captured itself. -/
theorem lockstep_action (env : Env) (dot : Value) (p : Pipeline) :
    (above base base').Lockstep (Walk.action env dot p) (Walk.action env dot p) := by
  have hvalue : (above base base').Lockstep _ _ :=
    lockstep_evaluateAndBind (fun _ _ _ => trivial) (lockstep_evaluate env .strict dot p)
  by_cases hsets : p.setsVariables = true
  · simp only [Walk.action, hsets, if_true]
    exact lockstep_bind hvalue fun _ => lockstep_pure ()
  by_cases hcaptures : p.capturesValue = true
  · refine lockstep_of_agrees fun bindings trace captured => ?_
    obtain ⟨outcome, added, -, hp⟩ := exists_evalPipeline ⟨env.functions, bindings, dot, .strict⟩ p
    have hsets : p.setsVariables = false := Bool.eq_false_iff.mpr hsets
    simp only [Walk.action_apply, Walk.evaluateAndBind_apply (h := hsets), Walk.evaluate_apply, hp,
      hsets, hcaptures]
    rw [← List.append_assoc, ← List.append_assoc]
    cases outcome with
    | error e => exact agrees_above (.error e) bindings trace (added ++ captured)
    | ok v =>
      obtain ⟨-, w, before, hw⟩ := value_of_capturesValue hcaptures (hp [])
      rw [List.append_nil] at hw
      subst hw
      refine lockstep_emit hbase hbase' (.argument p.pos w) _ _ rfl ?_
      exact ⟨⟨trace, w :: before ++ captured⟩, rfl, rfl⟩
  · simp only [Walk.action, hsets, hcaptures]
    exact lockstep_bind hvalue fun v => lockstep_emit hbase hbase' (.value v)

theorem keeps_above (env : Env) : Keeps (above base base') Likeness.same env env where
  text _ := lockstep_emit hbase hbase' _
  action := by
    rintro p _ rfl dot
    exact lockstep_action hbase hbase' env dot p
  source _ mode dot := lockstep_evaluate env mode dot _
  definitions name := alikeOtherwise_self _ fun m _ => Likeness.same_admits m
  undefinedVariable _ _ _ := trivial
  undefinedTemplate _ _ _ := trivial
  cannotRange _ _ _ := trivial
  depthExceeded _ _ := trivial

/-- What was put out before does not matter for what follows. -/
theorem lockstep_above (env : Env) (depth : Nat) (dot : Value) (nodes : List Node) :
    (above base base').Lockstep (walkAt env depth dot nodes) (walkAt env depth dot nodes) :=
  lockstep_walkAt (keeps_above hbase hbase' env) depth dot
    (alikeNodes_self nodes fun m _ => Likeness.same_admits m)

end Above

/-- Both runs came to the same end, with the same output above what was there before. -/
theorem Agrees.exists_above {α : Type} {base base' : Output}
    {outcome outcome' : Except EvalError α × State}
    (h : (above base base').Agrees outcome outcome') :
    outcome.1 = outcome'.1 ∧ ∃ added : Output,
      outcome.2.output = added.above base ∧ outcome'.2.output = added.above base' := by
  cases h with
  | ok _ hout => exact ⟨rfl, hout⟩
  | error _ hout => exact ⟨rfl, hout⟩
  | excused hexcused => exact hexcused.elim

end Accord

/-! ### Runs after other runs -/

/-- A run ends as it does after no other run, with what it captured on top of what was captured
before. -/
theorem ending_above (functions : Registry) (t : Template) (data : Value) (before : List Value) :
    (ending functions t data before).1 = (ending functions t data []).1 ∧
      (ending functions t data before).2.trace = (ending functions t data []).2.trace ∧
      (ending functions t data before).2.captured =
        (ending functions t data []).2.captured ++ before.reverse := by
  have hrun : (Accord.above ⟨[], before.reverse⟩ ⟨[], []⟩).Agrees (ending functions t data before)
      (ending functions t data []) :=
    Accord.lockstep_above rfl rfl ⟨functions, t.definitions⟩ maxDepth data t.root _ _ rfl
      ⟨⟨[], []⟩, rfl, rfl⟩
  obtain ⟨hresult, added, hafter, hafter'⟩ := hrun.exists_above
  have htrace : (ending functions t data []).2.trace = added.trace ++ [] :=
    congrArg Output.trace hafter'
  have hcaptured : (ending functions t data []).2.captured = added.captured ++ [] :=
    congrArg Output.captured hafter'
  rw [List.append_nil] at hcaptured
  refine ⟨hresult, ?_, ?_⟩
  · exact (congrArg Output.trace hafter).trans htrace.symm
  · rw [hcaptured]
    exact congrArg Output.captured hafter

theorem execute_above (functions : Registry) (t : Template) (data : Value) (before : List Value) :
    execute functions t data before =
      ⟨(execute functions t data []).result,
        before ++ (execute functions t data []).captured⟩ := by
  obtain ⟨hresult, htrace, hcaptured⟩ := ending_above functions t data before
  simp only [execute, hresult, htrace, hcaptured, List.reverse_append, List.reverse_reverse]

/-- Runs one after the other, each of which goes on with the values that those before it captured. -/
def executeAll (functions : Registry) :
    List (Template × Value) → List Value → List (Except EvalError (List Char)) × List Value
  | [], captured => ([], captured)
  | (t, data) :: rest, captured =>
    let outcome := execute functions t data captured
    let (results, captured) := executeAll functions rest outcome.captured
    (outcome.result :: results, captured)

theorem executeAll_above (functions : Registry) (runs : List (Template × Value))
    (before : List Value) :
    executeAll functions runs before =
      (runs.map fun (t, data) => (execute functions t data []).result,
        before ++ runs.flatMap fun (t, data) => (execute functions t data []).captured) := by
  induction runs generalizing before with
  | nil => simp [executeAll]
  | cons run rest ih =>
    obtain ⟨t, data⟩ := run
    rw [executeAll, execute_above functions t data before, ih]
    simp

/-- Captured values are never read back. The result of a run does not depend on those of earlier runs,
and it leaves them in place before its own, also if it fails; so runs one after the other capture what
each of them captures alone. -/
theorem captured_values_append (functions : Registry) :
    (∀ (t : Template) (data : Value) (before : List Value),
      (execute functions t data before).result = (execute functions t data []).result ∧
      (execute functions t data before).captured =
        before ++ (execute functions t data []).captured) ∧
    ∀ (runs : List (Template × Value)) (before : List Value),
      (executeAll functions runs before).1 =
        (runs.map fun (t, data) => (execute functions t data []).result) ∧
      (executeAll functions runs before).2 =
        before ++ runs.flatMap fun (t, data) => (execute functions t data []).captured := by
  constructor
  · intro t data before
    rw [execute_above functions t data before]
    exact ⟨rfl, rfl⟩
  · intro runs before
    rw [executeAll_above functions runs before]
    exact ⟨rfl, rfl⟩

/-! ### Calls -/

/-- The data that a call hands on is `v`, and nothing is captured when it is evaluated. -/
def HandsOn (env : Env) (dot : Value) (s : State) (data : Option Pipeline) (v : Value) : Prop :=
  match data with
  | none => v = .null
  | some p => Walk.evaluate env .strict dot p s = (.ok v, s)

/-- What a call does where `depth` calls are left. It puts out `added` after all that was put out
before. The variables of the caller and the counter of its calls are afterwards what they were; the
counter also if the call fails. -/
structure CallLeaves (env : Env) (depth : Nat) (dot : Value) (s : State) (call : Node)
    (result : Except EvalError Unit) (added : Output) : Prop where
  outcome : (walkAt env depth dot [call] s).1 = result.map fun _ => none
  output : (walkAt env depth dot [call] s).2.output = added.above s.output
  bindings : result = .ok () → (walkAt env depth dot [call] s).2.bindings = s.bindings
  counter (beyond : CountedWalk.Enter) (calls : List String) (moments : List Moment) :
    calls.length + depth = maxDepth →
      let after :=
        CountedWalk.walkAt env beyond (depth + 1) calls dot [call] ⟨s, calls.length, moments⟩
      (after.1, after.2.state) = walkAt env depth dot [call] s ∧ after.2.depth = calls.length

section Calls

variable {env : Env} {depth : Nat} {dot v : Value} {s : State} {pos : Pos} {name : String}
  {data : Option Pipeline}

theorem CallLeaves.of_walkAt {call : Node} {result : Except EvalError Unit} {added : Output}
    (houtcome : (walkAt env depth dot [call] s).1 = result.map fun _ => none)
    (houtput : (walkAt env depth dot [call] s).2.output = added.above s.output)
    (hbindings : result = .ok () → (walkAt env depth dot [call] s).2.bindings = s.bindings) :
    CallLeaves env depth dot s call result added where
  outcome := houtcome
  output := houtput
  bindings := hbindings
  counter beyond calls moments hcalls := by
    obtain ⟨hplain, hdepth, -⟩ := CountedWalk.counts_walkAt env beyond (Nat.lt_succ_self depth)
      hcalls dot [call] ⟨s, calls.length, moments⟩ rfl
    exact ⟨hplain, hdepth⟩

theorem walkNodes_undefined (hfind : Entries.find? name env.definitions = none)
    (enter : Option (Value → List Node → Walk (Option Jump))) :
    walkNodes env enter dot [.invoke pos name data] s =
      (.error ⟨pos, .undefinedTemplate name⟩, s) := by
  rw [walkNodes, bind_apply]
  unfold walkNode
  rw [hfind]
  rfl

theorem walkNodes_tooDeep {nodes : List Node}
    (hfind : Entries.find? name env.definitions = some nodes) :
    walkNodes env none dot [.invoke pos name data] s = (.error ⟨pos, .depthExceeded⟩, s) := by
  rw [walkNodes, bind_apply]
  unfold walkNode
  rw [hfind]
  rfl

/-- A call, once its data is evaluated. -/
theorem walkAt_call (h : HandsOn env dot s data v) {nodes : List Node}
    (hfind : Entries.find? name env.definitions = some nodes) (depth : Nat) (pos : Pos) :
    walkAt env (depth + 1) dot [.invoke pos name data] s =
      match walkAt env depth v nodes { s with bindings := [("$", v)] } with
      | (.ok _, after) => (.ok none, { after with bindings := s.bindings })
      | (.error e, after) => (.error e, after) := by
  have hcall : walkNode env (some (walkAt env depth)) dot (.invoke pos name data) s =
      (Walk.isolated v (walkAt env depth v nodes) >>= fun _ => pure none) s := by
    unfold walkNode
    rw [hfind]
    cases data with
    | none =>
      cases h
      rfl
    | some p =>
      have heval : Walk.evaluate env .strict dot p s = (.ok v, s) := h
      simp only [bind_apply, heval]
  rw [walkAt, walkNodes, bind_apply, hcall, bind_apply, Walk.isolated_apply]
  rcases walkAt env depth v nodes { s with bindings := [("$", v)] } with ⟨result, after⟩
  cases result with
  | ok jump => rfl
  | error e => rfl

theorem CallLeaves.of_body (h : HandsOn env dot s data v) {nodes : List Node}
    (hfind : Entries.find? name env.definitions = some nodes)
    {result : Except EvalError (Option Jump)} {after : State} {added : Output}
    (hbody : walkAt env depth v nodes { s with bindings := [("$", v)] } = (result, after))
    (hout : after.output = added.above s.output) :
    CallLeaves env (depth + 1) dot s (.invoke pos name data) (result.map fun _ => ()) added := by
  have hcall := walkAt_call h hfind depth pos
  rw [hbody] at hcall
  cases result with
  | ok jump =>
    refine .of_walkAt ?_ ?_ fun _ => ?_
    · rw [hcall]
      rfl
    · rw [hcall]
      exact hout
    · rw [hcall]
  | error e =>
    refine .of_walkAt ?_ ?_ nofun
    · rw [hcall]
      rfl
    · rw [hcall]
      exact hout

/-- A called template is isolated from its caller. Two callers that hand on the same data, from
different variables and data at hand, and after different output that does not end in a mark for a
value: the call fails for both with the same error or succeeds for both, and it puts out the same.
Their variables and counters are afterwards what they were. -/
theorem call_isolated {dot' : Value} {s' : State} (hv : HandsOn env dot s data v)
    (hv' : HandsOn env dot' s' data v) (hs : s.trace.openMark? = none)
    (hs' : s'.trace.openMark? = none) :
    ∃ result added,
      CallLeaves env depth dot s (.invoke pos name data) result added ∧
      CallLeaves env depth dot' s' (.invoke pos name data) result added := by
  have hfails : ∀ e, (∀ dot s, walkAt env depth dot [.invoke pos name data] s = (.error e, s)) →
      ∃ result added,
        CallLeaves env depth dot s (.invoke pos name data) result added ∧
        CallLeaves env depth dot' s' (.invoke pos name data) result added := by
    intro e hrun
    refine ⟨.error e, ⟨[], []⟩, .of_walkAt ?_ ?_ nofun, .of_walkAt ?_ ?_ nofun⟩
    all_goals rw [hrun]; rfl
  cases hfind : Entries.find? name env.definitions with
  | none =>
    refine hfails ⟨pos, .undefinedTemplate name⟩ fun dot s => ?_
    cases depth with
    | zero => exact walkNodes_undefined hfind none
    | succ depth => exact walkNodes_undefined hfind (some (walkAt env depth))
  | some nodes =>
    cases depth with
    | zero => exact hfails _ fun dot s => walkNodes_tooDeep hfind
    | succ depth =>
      -- Both bodies start with the same variables, each above what its caller put out.
      have hrun : (Accord.above s.output s'.output).Agrees
          (walkAt env depth v nodes { s with bindings := [("$", v)] })
          (walkAt env depth v nodes { s' with bindings := [("$", v)] }) :=
        Accord.lockstep_above hs hs' env depth v nodes _ _ rfl ⟨⟨[], []⟩, rfl, rfl⟩
      obtain ⟨hresult, added, hafter, hafter'⟩ := hrun.exists_above
      refine ⟨_, added, .of_body hv hfind rfl hafter, ?_⟩
      rw [hresult]
      exact .of_body hv' hfind rfl hafter'

/-- A call whose data is the variable `$x`, from two places that have only this variable in common. -/
theorem call_isolated_variable :
    ∃ (env : Env) (s s' : State) (pos : Pos) (p : Pipeline) (added : Output),
      HandsOn env .null s (some p) (.int 7) ∧ HandsOn env (.int 3) s' (some p) (.int 7) ∧
      s.bindings.map Prod.fst = ["$x", "$"] ∧ s'.bindings.map Prod.fst = ["$y", "$x", "$"] ∧
      s.trace.raw = "where ".toList ∧ s'.captured = [.int 1] ∧ added.captured = [.int 7] ∧
      CallLeaves env 2 .null s (.invoke pos "part" (some p)) (.ok ()) added ∧
      CallLeaves env 2 (.int 3) s' (.invoke pos "part" (some p)) (.ok ()) added := by
  let pos : Pos := ⟨1, 3⟩
  let body : List Node :=
    [.text "n = ", .action ⟨pos, false, [], [⟨pos, [.dot]⟩, ⟨pos, [.identifier captureName]⟩]⟩]
  let env : Env := ⟨[], [("part", body)]⟩
  let p : Pipeline := ⟨pos, false, [], [⟨pos, [.variable "$x" []]⟩]⟩
  let s : State := ⟨[("$x", .int 7), ("$", .null)], [.text "where "], []⟩
  let s' : State := ⟨[("$y", .bool true), ("$x", .int 7), ("$", .int 3)], [], [.int 1]⟩
  have hv : HandsOn env .null s (some p) (.int 7) := rfl
  have hv' : HandsOn env (.int 3) s' (some p) (.int 7) := rfl
  have hcall : ∃ result added,
      CallLeaves env 2 .null s (.invoke pos "part" (some p)) result added ∧
      CallLeaves env 2 (.int 3) s' (.invoke pos "part" (some p)) result added :=
    call_isolated hv hv' rfl rfl
  obtain ⟨result, added, hleaves, hleaves'⟩ := hcall
  have houtcome : Except.ok none = result.map fun _ => none := hleaves.outcome
  have hcaptured : [.int 7] = added.captured ++ [] := congrArg Output.captured hleaves.output
  cases result with
  | error e => cases houtcome
  | ok u =>
    rw [List.append_nil] at hcaptured
    exact ⟨env, s, s', pos, p, added, hv, hv', rfl, rfl, rfl, rfl, hcaptured.symm, hleaves, hleaves'⟩

end Calls

end Run

end BoundQuery
