/-
# Runs that count their calls

A run with a counter in its state, which each call of a template raises before it walks over the body
and lowers after it, whether the walk succeeds or fails. The counter alone says when calls are too
deep. What the run is told besides is which templates it is in: that is noted, with the counter, at
each node that it comes to and at the start of each body. The counter is always the number of those
templates, and without it the run is the run itself.

Main statements: `counts_walkAt`, `counted_ending`.
-/

import BoundQuery.Proofs.Run.Steps

namespace BoundQuery.Run

open Template (Node Pipeline Jump Control)
open Text (Pos)

/-- The counter at some point of a run, and the called templates whose bodies are walked over there,
the innermost first. -/
structure Moment where
  calls : List String
  depth : Nat

/-- The counter is the number of the templates, and there are no more than there may be. -/
def Moment.Right (m : Moment) : Prop :=
  m.depth = m.calls.length ∧ m.depth ≤ maxDepth

/-- What changes in a run that counts its calls. -/
structure Counted where
  state : State
  /-- The counter. -/
  depth : Nat
  /-- What was noted, the last first. -/
  moments : List Moment

/-- A part of a run that counts its calls. -/
abbrev CountedWalk : Type → Type :=
  ExceptT EvalError (StateM Counted)

namespace CountedWalk

variable {α β : Type}

/-- A step that leaves the counter as it is. -/
def plainly (m : Walk α) : CountedWalk α :=
  ExceptT.mk fun s =>
    let (outcome, state) := m s.state
    (outcome, { s with state })

/-- Notes the counter. -/
def note (calls : List String) : CountedWalk Unit :=
  modify fun s => { s with moments := ⟨calls, s.depth⟩ :: s.moments }

/-- The counter. -/
def counter : CountedWalk Nat :=
  return (← get).depth

/-- Runs the body of a called template in a scope of its own. The counter is lowered again also when
the body fails. -/
def called (data : Value) (body : CountedWalk (Option Jump)) : CountedWalk Unit :=
  ExceptT.mk fun s =>
    match body { s with state := { s.state with bindings := [("$", data)] }, depth := s.depth + 1 } with
    | (.ok _, after) =>
      (.ok (), { after with
        state := { after.state with bindings := s.state.bindings }, depth := after.depth - 1 })
    | (.error e, after) => (.error e, { after with depth := after.depth - 1 })

/-- Repeats the body of a loop for keys and items. -/
def rounds (p : Pipeline) (count : Nat) (body : Value → CountedWalk (Option Jump)) :
    List (Value × Value) → CountedWalk Unit
  | [] => return
  | (key, item) :: rest => do
    plainly (Walk.keepVariables count)
    plainly (Walk.bindRound p key item)
    match ← body item with
    | some .leave => return
    | _ => rounds p count body rest

/-- A way to walk over the body of a called template, which is in these templates. -/
abbrev Enter : Type :=
  List String → Value → List Node → CountedWalk (Option Jump)

mutual

/-- Walks over a node in the bodies of these templates. -/
def walkNode (env : Env) (enter : Enter) (calls : List String) (dot : Value) :
    Node → CountedWalk (Option Jump)
  | .text s => do
    note calls
    plainly (Walk.emit (.text s))
    return none
  | .action p => do
    note calls
    plainly (Walk.action env dot p)
    return none
  | .control .range pos p body otherwise => do
    note calls
    let source ← plainly (Walk.evaluate env .lenient dot p)
    match roundsOf? source with
    | none => plainly (Walk.fail pos (.cannotRange source.kind))
    | some [] => walkOtherwise env enter calls dot otherwise
    | some items =>
      let count ← plainly Walk.countVariables
      rounds p count (fun item => walkNodes env enter calls item body) items
      plainly (Walk.keepVariables count)
      return none
  | .control kind _ p body otherwise => do
    note calls
    let count ← plainly Walk.countVariables
    let v ← plainly (Walk.evaluateAndBind env .lenient dot p)
    let flow ←
      if v.isTruthy then walkNodes env enter calls (if kind = .scope then v else dot) body
      else walkOtherwise env enter calls dot otherwise
    plainly (Walk.keepVariables count)
    return flow
  | .invoke pos name data => do
    note calls
    match Entries.find? name env.definitions with
    | none => plainly (Walk.fail pos (.undefinedTemplate name))
    | some nodes => do
      if maxDepth ≤ (← counter) then plainly (Walk.fail pos .depthExceeded)
      else
        let v ← match data with
          | none => pure .null
          | some p => plainly (Walk.evaluate env .strict dot p)
        called v (enter (name :: calls) v nodes)
        return none
  | .jump kind _ => do
    note calls
    return some kind

/-- Walks over nodes one after the other, until one ends the round. -/
def walkNodes (env : Env) (enter : Enter) (calls : List String) (dot : Value) :
    List Node → CountedWalk (Option Jump)
  | [] => return none
  | n :: rest => do
    match ← walkNode env enter calls dot n with
    | none => walkNodes env enter calls dot rest
    | some kind => return some kind

/-- Walks over the nodes after `else`. -/
def walkOtherwise (env : Env) (enter : Enter) (calls : List String) (dot : Value) :
    Option (List Node) → CountedWalk (Option Jump)
  | none => return none
  | some nodes => walkNodes env enter calls dot nodes

end

/-- Walks over nodes that may call templates. Nothing but the counter bounds how deep: what would be
done `levels` calls on is left open. -/
def walkAt (env : Env) (beyond : Enter) : (levels : Nat) → Enter
  | 0, calls, dot, nodes => beyond calls dot nodes
  | levels + 1, calls, dot, nodes => do
    note calls
    walkNodes env (walkAt env beyond levels) calls dot nodes

/-! ### Single steps -/

/-- In the bodies of these templates the counted walk does what the walk does. It leaves the counter
as it was, and all that it notes is right. -/
def Counts (calls : List String) (m : CountedWalk α) (n : Walk α) : Prop :=
  ∀ s : Counted, s.depth = calls.length →
    ((m s).1, (m s).2.state) = n s.state ∧ (m s).2.depth = s.depth ∧
      ∃ noted, (m s).2.moments = noted ++ s.moments ∧ ∀ moment ∈ noted, moment.Right

section Steps

variable {calls : List String}

theorem counts_plainly (m : Walk α) : Counts calls (plainly m) m :=
  fun _ _ => ⟨rfl, rfl, [], rfl, by simp⟩

theorem counts_pure (a : α) : Counts calls (pure a) (pure a) :=
  fun _ _ => ⟨rfl, rfl, [], rfl, by simp⟩

theorem counts_bind {m : CountedWalk α} {n : Walk α} {f : α → CountedWalk β} {g : α → Walk β}
    (hm : Counts calls m n) (hf : ∀ a, Counts calls (f a) (g a)) :
    Counts calls (m >>= f) (n >>= g) := by
  intro s hs
  obtain ⟨hplain, hdepth, noted, hnoted, hright⟩ := hm s hs
  rw [bind_apply, bind_apply, ← hplain]
  generalize m s = outcome at hdepth hnoted ⊢
  obtain ⟨result, after⟩ := outcome
  cases result with
  | error e => exact ⟨rfl, hdepth, noted, hnoted, hright⟩
  | ok a =>
    obtain ⟨hplain', hdepth', noted', hnoted', hright'⟩ := hf a after (hdepth.trans hs)
    refine ⟨hplain', hdepth'.trans hdepth, noted' ++ noted, ?_, ?_⟩
    · exact hnoted'.trans (by rw [hnoted, List.append_assoc])
    · exact List.forall_mem_append.mpr ⟨hright', hright⟩

/-- What is noted is right, as long as calls are not too deep. -/
theorem counts_note (hcalls : calls.length ≤ maxDepth) {m : CountedWalk α} {n : Walk α}
    (h : Counts calls m n) : Counts calls (note calls >>= fun _ => m) n := by
  intro s hs
  obtain ⟨hplain, hdepth, noted, hnoted, hright⟩ :=
    h { s with moments := ⟨calls, s.depth⟩ :: s.moments } hs
  refine ⟨hplain, hdepth, noted ++ [⟨calls, s.depth⟩], ?_, ?_⟩
  · exact hnoted.trans (by rw [List.append_assoc, List.singleton_append])
  · refine List.forall_mem_append.mpr ⟨hright, ?_⟩
    exact List.forall_mem_singleton.mpr ⟨hs, hs ▸ hcalls⟩

/-- The counter is the number of the templates that the walk is in. -/
theorem counts_counter {f : Nat → CountedWalk α} {n : Walk α} (h : Counts calls (f calls.length) n) :
    Counts calls (counter >>= f) n := by
  intro s hs
  have hrun := h s hs
  rwa [← hs] at hrun

theorem called_apply (data : Value) (body : CountedWalk (Option Jump)) (s : Counted) :
    called data body s =
      match body ⟨{ s.state with bindings := [("$", data)] }, s.depth + 1, s.moments⟩ with
      | (.ok _, after) =>
        (.ok (), ⟨{ after.state with bindings := s.state.bindings }, after.depth - 1, after.moments⟩)
      | (.error e, after) => (.error e, { after with depth := after.depth - 1 }) := rfl

theorem counts_called (name : String) (data : Value) {m : CountedWalk (Option Jump)}
    {n : Walk (Option Jump)} (h : Counts (name :: calls) m n) :
    Counts calls (called data m) (Walk.isolated data n) := by
  intro s hs
  obtain ⟨hplain, hdepth, noted, hnoted, hright⟩ :=
    h ⟨{ s.state with bindings := [("$", data)] }, s.depth + 1, s.moments⟩ (congrArg (· + 1) hs)
  rw [Walk.isolated_apply, ← hplain, called_apply]
  generalize m _ = outcome at hdepth hnoted ⊢
  obtain ⟨result, after⟩ := outcome
  have hlowered : after.depth - 1 = s.depth := by rw [hdepth, Nat.add_sub_cancel]
  cases result with
  | error e => exact ⟨rfl, hlowered, noted, hnoted, hright⟩
  | ok jump => exact ⟨rfl, hlowered, noted, hnoted, hright⟩

theorem counts_rounds (p : Pipeline) (count : Nat) {body : Value → CountedWalk (Option Jump)}
    {body' : Value → Walk (Option Jump)} (hbody : ∀ item, Counts calls (body item) (body' item))
    (items : List (Value × Value)) :
    Counts calls (rounds p count body items) (Walk.rounds p count body' items) := by
  induction items with
  | nil => exact counts_pure ()
  | cons round rest ih =>
    obtain ⟨key, item⟩ := round
    rw [rounds, Walk.rounds]
    refine counts_bind (counts_plainly _) fun _ => ?_
    refine counts_bind (counts_plainly _) fun _ => ?_
    refine counts_bind (hbody item) fun jump => ?_
    rcases jump with _ | _ | _
    · exact ih
    · exact counts_pure ()
    · exact ih

end Steps

/-! ### Whole runs -/

section Runs

variable {env : Env} {enter : Enter} {enter' : Option (Value → List Node → Walk (Option Jump))}
  {calls : List String}

/-- Two ways to walk over the body of a template that is called in the bodies of these templates: with
a counter, and by the number of calls that are left. -/
inductive EnterCounts (calls : List String) (enter : Enter) :
    Option (Value → List Node → Walk (Option Jump)) → Prop
  | none : calls.length = maxDepth → EnterCounts calls enter none
  | some {enter' : Value → List Node → Walk (Option Jump)} :
      calls.length < maxDepth →
      (∀ name data nodes, Counts (name :: calls) (enter (name :: calls) data nodes)
        (enter' data nodes)) →
      EnterCounts calls enter (some enter')

theorem EnterCounts.length_le (h : EnterCounts calls enter enter') : calls.length ≤ maxDepth := by
  cases h with
  | none hcalls => exact Nat.le_of_eq hcalls
  | some hcalls _ => exact Nat.le_of_lt hcalls

theorem counts_invoke (henter : EnterCounts calls enter enter') (dot : Value) (pos : Pos)
    (name : String) (data : Option Pipeline) :
    Counts calls (walkNode env enter calls dot (.invoke pos name data))
      (Run.walkNode env enter' dot (.invoke pos name data)) := by
  unfold walkNode Run.walkNode
  refine counts_note henter.length_le ?_
  generalize Entries.find? name env.definitions = found
  cases found with
  | none => exact counts_plainly _
  | some nodes =>
    refine counts_counter ?_
    cases henter with
    | none hcalls =>
      rw [if_pos (Nat.le_of_eq hcalls.symm)]
      exact counts_plainly _
    | some hcalls hbody =>
      rw [if_neg (Nat.not_le_of_lt hcalls)]
      have hrest := fun v => counts_bind (counts_called name v (hbody name v nodes)) fun _ =>
        counts_pure (none : Option Jump)
      cases data with
      | none => exact counts_bind (counts_pure Value.null) hrest
      | some p => exact counts_bind (counts_plainly _) hrest

theorem walkNode_branch {kind : Control} (h : kind ≠ .range) (dot : Value) (pos : Pos) (p : Pipeline)
    (body : List Node) (otherwise : Option (List Node)) :
    walkNode env enter calls dot (.control kind pos p body otherwise) = do
      note calls
      let count ← plainly Walk.countVariables
      let v ← plainly (Walk.evaluateAndBind env .lenient dot p)
      let jump ←
        if v.isTruthy then walkNodes env enter calls (if kind = .scope then v else dot) body
        else walkOtherwise env enter calls dot otherwise
      plainly (Walk.keepVariables count)
      return jump := by
  rw [walkNode]
  exact h

mutual

theorem counts_walkNode (henter : EnterCounts calls enter enter') (dot : Value) :
    ∀ n : Node, Counts calls (walkNode env enter calls dot n) (Run.walkNode env enter' dot n)
  | .text s =>
    counts_note henter.length_le (counts_bind (counts_plainly _) fun _ => counts_pure none)
  | .action p =>
    counts_note henter.length_le (counts_bind (counts_plainly _) fun _ => counts_pure none)
  | .control kind pos p body otherwise => by
    have hbody := fun dot => counts_walkNodes henter dot body
    have hotherwise := counts_walkOtherwise henter dot otherwise
    by_cases hkind : kind = .range
    · subst hkind
      rw [Run.walkNode_range]
      unfold walkNode
      refine counts_note henter.length_le (counts_bind (counts_plainly _) fun source => ?_)
      rcases roundsOf? source with _ | _ | ⟨round, rest⟩
      · exact counts_plainly _
      · exact hotherwise
      · refine counts_bind (counts_plainly _) fun count => ?_
        refine counts_bind (counts_rounds p count hbody _) fun _ => ?_
        exact counts_bind (counts_plainly _) fun _ => counts_pure none
    · rw [Run.walkNode_branch (h := hkind), walkNode_branch (h := hkind)]
      refine counts_note henter.length_le (counts_bind (counts_plainly _) fun count => ?_)
      refine counts_bind (counts_plainly _) fun v => ?_
      have hrest : ∀ jump : Option Jump, Counts calls _ _ := fun jump =>
        counts_bind (counts_plainly (Walk.keepVariables count)) fun _ => counts_pure jump
      cases v.isTruthy with
      | false => exact counts_bind hotherwise hrest
      | true => exact counts_bind (hbody _) hrest
  | .invoke pos name data => counts_invoke henter dot pos name data
  | .jump kind _ => counts_note henter.length_le (counts_pure (some kind))

theorem counts_walkNodes (henter : EnterCounts calls enter enter') (dot : Value) :
    ∀ nodes : List Node,
      Counts calls (walkNodes env enter calls dot nodes) (Run.walkNodes env enter' dot nodes)
  | [] => counts_pure none
  | n :: rest => by
    refine counts_bind (counts_walkNode henter dot n) fun jump => ?_
    cases jump with
    | none => exact counts_walkNodes henter dot rest
    | some kind => exact counts_pure (some kind)

theorem counts_walkOtherwise (henter : EnterCounts calls enter enter') (dot : Value) :
    ∀ otherwise : Option (List Node),
      Counts calls (walkOtherwise env enter calls dot otherwise)
        (Run.walkOtherwise env enter' dot otherwise)
  | none => counts_pure none
  | some nodes => counts_walkNodes henter dot nodes

end

/-- Where `depth` calls are left, the walk that counts its calls is the walk that may call templates
to that depth, and does not come to what is left open. -/
theorem counts_walkAt (env : Env) (beyond : Enter) {levels depth : Nat} {calls : List String}
    (hlevels : depth < levels) (hcalls : calls.length + depth = maxDepth) (dot : Value)
    (nodes : List Node) :
    Counts calls (walkAt env beyond levels calls dot nodes) (Run.walkAt env depth dot nodes) := by
  induction levels generalizing depth calls dot nodes with
  | zero => exact absurd hlevels (Nat.not_lt_zero depth)
  | succ levels ih =>
    refine counts_note (hcalls ▸ Nat.le_add_right _ _) ?_
    cases depth with
    | zero => exact counts_walkNodes (.none hcalls) dot nodes
    | succ depth =>
      have hleft : ∀ name, (name :: calls : List String).length + depth = maxDepth := by
        intro name
        rw [List.length_cons, Nat.add_right_comm]
        exact hcalls
      refine counts_walkNodes (.some (by omega) fun name data nodes => ?_) dot nodes
      exact ih (Nat.lt_of_succ_lt_succ hlevels) (hleft name) data nodes

end Runs

end CountedWalk

/-! ### Runs of templates -/

/-- A run of a template that counts its calls, after runs that captured some values already. -/
def counted (beyond : CountedWalk.Enter) (functions : Registry) (t : Template) (data : Value)
    (before : List Value) : Except EvalError (Option Jump) × Counted :=
  CountedWalk.walkAt ⟨functions, t.definitions⟩ beyond (maxDepth + 1) [] data t.root
    ⟨⟨[("$", data)], [], before.reverse⟩, 0, []⟩

/-- Without its counter a counted run is the run. The counter is back at zero in the end, and all that
was noted is right. -/
theorem counted_ending (beyond : CountedWalk.Enter) (functions : Registry) (t : Template)
    (data : Value) (before : List Value) :
    ((counted beyond functions t data before).1, (counted beyond functions t data before).2.state) =
        ending functions t data before ∧
      (counted beyond functions t data before).2.depth = 0 ∧
      ∀ moment ∈ (counted beyond functions t data before).2.moments, moment.Right := by
  have hcalls : ([] : List String).length + maxDepth = maxDepth := Nat.zero_add maxDepth
  have hcounts := CountedWalk.counts_walkAt ⟨functions, t.definitions⟩ beyond
    (Nat.lt_succ_self maxDepth) hcalls data t.root
  obtain ⟨hplain, hdepth, noted, hnoted, hright⟩ :=
    hcounts ⟨⟨[("$", data)], [], before.reverse⟩, 0, []⟩ rfl
  refine ⟨hplain, hdepth, ?_⟩
  rw [List.append_nil] at hnoted
  exact fun moment hmoment => hright moment (hnoted ▸ hmoment)

end BoundQuery.Run
