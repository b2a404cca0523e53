/-
# Running a template

A run walks over the nodes of a template: it writes texts and values, chooses branches, repeats
loops and calls templates. Main definition: `execute`, the raw text of a template for its data
together with the captured values.
-/

import BoundQuery.Run.Emission
import BoundQuery.Run.Pipeline

namespace BoundQuery.Run

open Template (Node Pipeline Jump Control)
open Text (Pos)

/-- What changes in a run. -/
structure State where
  bindings : Variables
  trace : Trace
  /-- The captured values, the last first. -/
  captured : List Value

/-- A part of a run. The state is kept when it fails. -/
abbrev Walk : Type → Type :=
  ExceptT EvalError (StateM State)

/-- What a run is given. -/
structure Env where
  functions : Registry
  definitions : Entries (List Node)

namespace Walk

/-- Fails at `pos`. -/
def fail {α : Type} (pos : Pos) (fault : EvalFault) : Walk α :=
  throw ⟨pos, fault⟩

/-- The value of a pipeline with the variables of the run. -/
def evaluate (env : Env) (mode : Mode) (dot : Value) (p : Pipeline) : Walk Value :=
  ExceptT.mk fun s =>
    let (outcome, captured) := evalPipeline ⟨env.functions, s.bindings, dot, mode⟩ p s.captured
    (outcome, { s with captured })

/-- Writes a piece. -/
def emit (e : Emission) : Walk Unit := do
  let s ← get
  let trace ← liftExcept (Trace.emit e s.trace)
  set { s with trace }

/-- Gives a variable in scope a new value. -/
def assign? (name : String) (v : Value) : Variables → Option Variables
  | [] => none
  | (n, w) :: rest =>
    if n = name then some ((n, v) :: rest) else (assign? name v rest).map ((n, w) :: ·)

/-- Declares or assigns a variable, as the pipeline says. -/
def bind (p : Pipeline) (name : String) (v : Value) : Walk Unit := do
  let s ← get
  if p.assigns then
    match assign? name v s.bindings with
    | some bindings => set { s with bindings }
    | none => fail p.pos (.undefinedVariable name)
  else set { s with bindings := (name, v) :: s.bindings }

/-- Declares or assigns several variables with one value. -/
def bindAll (p : Pipeline) (v : Value) : List String → Walk Unit
  | [] => return
  | name :: rest => do
    bind p name v
    bindAll p v rest

/-- The value of a pipeline, which the names on its left are given. -/
def evaluateAndBind (env : Env) (mode : Mode) (dot : Value) (p : Pipeline) : Walk Value := do
  let v ← evaluate env mode dot p
  bindAll p v p.names
  return v

/-- The number of variables in scope. -/
def countVariables : Walk Nat :=
  return (← get).bindings.length

/-- Leaves the outermost `count` variables in scope. -/
def keepVariables (count : Nat) : Walk Unit :=
  modify fun s => { s with bindings := s.bindings.drop (s.bindings.length - count) }

/-- Writes the value of an action; or the question mark for it, if the action captures it. -/
def action (env : Env) (dot : Value) (p : Pipeline) : Walk Unit := do
  let v ← evaluateAndBind env .strict dot p
  if p.setsVariables then return
  else if p.capturesValue then
    emit (.argument p.pos ((← get).captured.headD .null))
  else emit (.value v)

/-- Binds the variables of a loop for a round: the item, or the key and the item. -/
def bindRound (p : Pipeline) (key item : Value) : Walk Unit :=
  match p.names with
  | [element] => bind p element item
  | [index, element] => do
    bind p index key
    bind p element item
  | _ => return

/-- Repeats the body of a loop for keys and items. The variables of a round go out of scope before
the next; the loop ends early when a round leaves it. -/
def rounds (p : Pipeline) (count : Nat) (body : Value → Walk (Option Jump)) :
    List (Value × Value) → Walk Unit
  | [] => return
  | (key, item) :: rest => do
    keepVariables count
    bindRound p key item
    match ← body item with
    | some .leave => return
    | _ => rounds p count body rest

/-- Runs the body of a called template in a scope of its own, where `$` is its data. -/
def isolated (data : Value) (body : Walk (Option Jump)) : Walk Unit := do
  let outer := (← get).bindings
  modify fun s => { s with bindings := [("$", data)] }
  let _ ← body
  modify fun s => { s with bindings := outer }

end Walk

/-- The keys and items that a loop runs over: positions and items of a sequence, keys and values of
a map, or twice the numbers below a number. Nothing for null. -/
def roundsOf? : Value → Option (List (Value × Value))
  | .seq items => some (items.mapIdx fun i item => (Value.ofNat i, item))
  | .map entries => some (entries.map fun (key, v) => (.string key, v))
  | .int i => some ((List.range i.toInt.toNat).map fun n => (Value.ofNat n, Value.ofNat n))
  | .null => some []
  | _ => none

mutual

/-- Walks over a node at the data `dot`. The body of a called template is walked over by `enter`,
unless calls are too deep already. The outcome tells how a round of a loop is ended, if it is. -/
def walkNode (env : Env) (enter : Option (Value → List Node → Walk (Option Jump))) (dot : Value) :
    Node → Walk (Option Jump)
  | .text s => do
    Walk.emit (.text s)
    return none
  | .action p => do
    Walk.action env dot p
    return none
  | .control .range pos p body otherwise => do
    let source ← Walk.evaluate env .lenient dot p
    match roundsOf? source with
    | none => Walk.fail pos (.cannotRange source.kind)
    | some [] => walkOtherwise env enter dot otherwise
    | some rounds =>
      let count ← Walk.countVariables
      Walk.rounds p count (fun item => walkNodes env enter item body) rounds
      Walk.keepVariables count
      return none
  | .control kind _ p body otherwise => do
    let count ← Walk.countVariables
    let v ← Walk.evaluateAndBind env .lenient dot p
    let flow ←
      if v.isTruthy then walkNodes env enter (if kind = .scope then v else dot) body
      else walkOtherwise env enter dot otherwise
    Walk.keepVariables count
    return flow
  | .invoke pos name data =>
    match Entries.find? name env.definitions, enter with
    | none, _ => Walk.fail pos (.undefinedTemplate name)
    | some _, none => Walk.fail pos .depthExceeded
    | some nodes, some enter => do
      let v ← match data with
        | none => pure .null
        | some p => Walk.evaluate env .strict dot p
      Walk.isolated v (enter v nodes)
      return none
  | .jump kind _ => return some kind

/-- Walks over nodes one after the other, until one ends the round. -/
def walkNodes (env : Env) (enter : Option (Value → List Node → Walk (Option Jump))) (dot : Value) :
    List Node → Walk (Option Jump)
  | [] => return none
  | n :: rest => do
    match ← walkNode env enter dot n with
    | none => walkNodes env enter dot rest
    | some kind => return some kind

/-- Walks over the nodes after `else`. -/
def walkOtherwise (env : Env) (enter : Option (Value → List Node → Walk (Option Jump)))
    (dot : Value) : Option (List Node) → Walk (Option Jump)
  | none => return none
  | some nodes => walkNodes env enter dot nodes

end

/-- Walks over nodes that may call templates to the given depth. -/
def walkAt (env : Env) : Nat → Value → List Node → Walk (Option Jump)
  | 0 => walkNodes env none
  | depth + 1 => walkNodes env (some (walkAt env depth))

/-- How a run of a template on data ends, after runs that captured some values already. -/
def ending (functions : Registry) (t : Template) (data : Value) (before : List Value) :
    Except EvalError (Option Jump) × State :=
  walkAt ⟨functions, t.definitions⟩ maxDepth data t.root ⟨[("$", data)], [], before.reverse⟩

/-- The outcome of a run, and all values captured in it and before it, the first first. -/
structure Outcome where
  result : Except EvalError (List Char)
  captured : List Value

/-- Runs a template on data, after runs that captured some values already. -/
def execute (functions : Registry) (t : Template) (data : Value) (before : List Value) : Outcome :=
  let (result, s) := ending functions t data before
  { result := result.map fun _ => s.trace.raw
    captured := s.captured.reverse }

end BoundQuery.Run
