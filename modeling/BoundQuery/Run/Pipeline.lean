/-
# Values of pipelines

A pipeline is evaluated at the data at hand, with the variables in scope. On the way values may be
captured; they stay captured when the evaluation fails later. In conditions and in the sources of
loops evaluation is lenient: what is missing counts as null.
-/

import BoundQuery.Function.Registry
import BoundQuery.Run.Error
import BoundQuery.Template.Capture

namespace BoundQuery.Run

open Template (Operand Command Pipeline Number captureName)
open Text (Pos)

/-- Whether what is missing is an error or counts as null. -/
inductive Mode
  | strict
  | lenient
deriving DecidableEq, Repr

/-- Variables with their values, the innermost first. -/
abbrev Variables : Type := List (String × Value)

/-- What pipelines are evaluated with. -/
structure Scene where
  functions : Registry
  bindings : Variables
  dot : Value
  mode : Mode

/-- An evaluation. The captured values are kept, the last first. -/
abbrev Eval : Type → Type :=
  ExceptT EvalError (StateM (List Value))

namespace Eval

variable {α : Type}

/-- Fails at `pos`. -/
def fail (pos : Pos) (fault : EvalFault) : Eval α :=
  throw ⟨pos, fault⟩

/-- Captures a value. What is written in its place is a single question mark. -/
def capture (v : Value) : Eval Value := do
  modify (v :: ·)
  return .string "?"

/-- The outcome of a function that was called by its name. -/
def ofCall (pos : Pos) (name : String) : Except CallFault Value → Eval Value
  | .ok v => return v
  | .error fault => fail pos (.call name fault)

/-- Evaluates one after the other. -/
def all : List (Eval Value) → Eval (List Value)
  | [] => return []
  | e :: rest => do
    let v ← e
    let vs ← all rest
    return v :: vs

/-- Evaluates until a value has the truth that decides; this is the value of all. If none decides
it is the value handed on, or else the last one. -/
def firstDeciding (decides : Bool) (piped : Option Value) (last : Value) :
    List (Eval Value) → Eval Value
  | [] => return piped.getD last
  | e :: rest => do
    let v ← e
    if v.isTruthy == decides then return v
    else firstDeciding decides piped v rest

end Eval

/-- Follows field names from a value; `path` are the names followed already. -/
def follow (pos : Pos) (mode : Mode) (path : List String) (v : Value) :
    List String → Except EvalError Value
  | [] => .ok v
  | name :: rest =>
    match v with
    | .map entries =>
      match Entries.find? name entries with
      | some next => follow pos mode (path ++ [name]) next rest
      | none =>
        match mode with
        | .lenient => .ok .null
        | .strict => .error ⟨pos, .missingField name⟩
    | .null =>
      match mode with
      | .lenient => .ok .null
      | .strict => .error ⟨pos, .nilPointer (path ++ [name])⟩
    | _ => .error ⟨pos, .notAMap name v.kind⟩

/-- The item of a value under several keys. A whole number that is no index of a sequence is an error
of its own, or null. -/
def indexAt (pos : Pos) (mode : Mode) (v : Value) : List Value → Except EvalError Value
  | [] => .ok v
  | key :: keys =>
    if mode = .lenient ∧ v.isNull then .ok .null
    else match v, key with
      | .seq items, .int i =>
        if 0 ≤ i.toInt ∧ i.toInt < items.length then
          indexAt pos mode (items.getD i.toInt.toNat .null) keys
        else match mode with
          | .lenient => .ok .null
          | .strict => .error ⟨pos, .indexOutOfRange i.toInt items.length⟩
      | _, _ =>
        match v.item key with
        | .ok next => indexAt pos mode next keys
        | .error fault => .error ⟨pos, .call "index" fault⟩

/-- The item of the first argument under the others. -/
def index (pos : Pos) (mode : Mode) : List Value → Except EvalError Value
  | [] => .error ⟨pos, .call "index" (.tooFew 0 1)⟩
  | v :: keys => indexAt pos mode v keys

/-- Calls a function with evaluated arguments. The capture function comes before all others, then
those of the caller, then the builtin ones. -/
def applyFunction (scene : Scene) (pos : Pos) (name : String) (args : List Value) : Eval Value :=
  if name == captureName then
    match args with
    | [v] => Eval.capture v
    | _ => Eval.fail pos (.call name (.wrongCount args.length 1))
  else match Entries.find? name scene.functions with
    | some f => Eval.ofCall pos name (f args)
    | none =>
      match Builtin.ofName? name with
      | some .index => liftExcept (index pos scene.mode args)
      | some b => Eval.ofCall pos name (b.apply args)
      | none => Eval.fail pos (.undefinedFunction name)

/-- The truth that decides a builtin function whose later operands may not count. -/
def decides? (scene : Scene) (name : String) : Option Bool :=
  if (Entries.find? name scene.functions).isSome then none
  else match Builtin.ofName? name with
    | some .and => some false
    | some .or => some true
    | _ => none

/-- Calls a function with operands that are not evaluated yet; the value handed on comes last. -/
def call (scene : Scene) (pos : Pos) (name : String) (operands : List (Eval Value))
    (piped : Option Value) : Eval Value :=
  match decides? scene name with
  | some decides =>
    if operands.isEmpty && piped.isNone then Eval.fail pos (.call name (.wrongCount 0 1))
    else Eval.firstDeciding decides piped .null operands
  | none => do
    let args ← Eval.all operands
    applyFunction scene pos name (args ++ piped.toList)

/-- The value of a variable. -/
def Scene.variable (scene : Scene) (pos : Pos) (name : String) : Except EvalError Value :=
  match scene.bindings.lookup name with
  | some v => .ok v
  | none => .error ⟨pos, .undefinedVariable name⟩

def evalNumber : Number → Value
  | .int i => .int i
  | .float x => .float x

mutual

/-- The value of an operand of a command at `pos`. -/
def evalOperand (scene : Scene) (pos : Pos) : Operand → Eval Value
  | .dot => return scene.dot
  | .field fields => liftExcept (follow pos scene.mode [] scene.dot fields)
  | .variable name fields => do
    let v ← liftExcept (scene.variable pos name)
    liftExcept (follow pos scene.mode [] v fields)
  | .identifier name => call scene pos name [] none
  | .chain base fields => do
    let v ← evalOperand scene pos base
    liftExcept (follow pos scene.mode [] v fields)
  | .pipe p => evalPipeline scene p
  | .string s => return .string s
  | .number n => return evalNumber n
  | .bool b => return .bool b
  | .nil => return .null

/-- The evaluations of several operands, none of them done yet. -/
def evalOperands (scene : Scene) (pos : Pos) : List Operand → List (Eval Value)
  | [] => []
  | o :: rest => evalOperand scene pos o :: evalOperands scene pos rest

/-- The value of a command that is handed the value of the one before. -/
def evalCommand (scene : Scene) (piped : Option Value) : Command → Eval Value
  | ⟨_, []⟩ => return piped.getD .null
  | ⟨pos, .identifier name :: rest⟩ => call scene pos name (evalOperands scene pos rest) piped
  | ⟨pos, first :: rest⟩ =>
    if !rest.isEmpty || piped.isSome then
      Eval.fail pos (.notAFunction (String.ofList first.render))
    else evalOperand scene pos first

/-- The value of the last of several commands. -/
def evalCommands (scene : Scene) (piped : Option Value) : List Command → Eval Value
  | [] => return piped.getD .null
  | c :: rest => do
    let v ← evalCommand scene piped c
    evalCommands scene (some v) rest

/-- The value of a pipeline. The names on its left are not touched. -/
def evalPipeline (scene : Scene) : Pipeline → Eval Value
  | ⟨_, _, _, commands⟩ => evalCommands scene none commands

end

end BoundQuery.Run
