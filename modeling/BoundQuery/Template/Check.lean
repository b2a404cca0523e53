/-
# Checks of pipelines

Before a pipeline becomes part of a template its names are looked up: functions among the known
ones, variables among those in scope. Commands must be calls, or operands that can stand alone.
-/

import BoundQuery.Template.Render
import BoundQuery.Template.Fault

namespace BoundQuery.Template

open Text (Pos)

/-- The name of the function that captures a value as an argument. Every template may call it. -/
def captureName : String := "_sql_arg_"

/-- How many names the pipeline of a control structure may declare. -/
def Control.mostNames : Control → Nat
  | range => 2
  | cond | scope => 1

/-- The part of an action that a control structure is in messages. -/
def Control.construct : Control → Construct
  | cond => .cond
  | range => .range
  | scope => .scope

/-- What names mean at a place of a template. -/
structure Names where
  /-- Whether a function has the name. -/
  isFunction : String → Bool
  /-- The variables in scope, the innermost first. -/
  scope : List String

namespace Names

def checkVariable (names : Names) (pos : Pos) (name : String) : Except SyntaxError Unit :=
  if names.scope.contains name then .ok () else .error ⟨pos, .undefinedVariable name⟩

def checkVariables (names : Names) (pos : Pos) : List String → Except SyntaxError Unit
  | [] => .ok ()
  | name :: rest => do
    names.checkVariable pos name
    names.checkVariables pos rest

def checkFunction (names : Names) (pos : Pos) (name : String) : Except SyntaxError Unit :=
  if name == captureName || names.isFunction name then .ok ()
  else .error ⟨pos, .undefinedFunction name⟩

/-- A command starts with a function, a field or a variable, or it is a single operand. Only the
first command of a pipeline, `stage` zero, can be an operand that yields the same for any input. -/
def checkShape (stage : Nat) : Command → Except SyntaxError Unit
  | ⟨pos, []⟩ => .error ⟨pos, .missingCommand⟩
  | ⟨pos, first :: rest⟩ =>
    match first with
    | .nil => .error ⟨pos, .nilCommand⟩
    | .identifier _ | .field _ | .chain .. | .variable .. => .ok ()
    | _ =>
      if 0 < stage then .error ⟨pos, .notExecutable (stage + 1)⟩
      else if !rest.isEmpty then .error ⟨pos, .notFunction (String.ofList first.render)⟩
      else .ok ()

mutual

/-- Checks the names in an operand of a command at `pos`. -/
def checkOperand (names : Names) (pos : Pos) : Operand → Except SyntaxError Unit
  | .identifier name => names.checkFunction pos name
  | .variable name _ => names.checkVariable pos name
  | .pipe p => names.checkPipeline 0 .parentheses p
  | .chain base _ => names.checkOperand pos base
  | _ => .ok ()

def checkOperands (names : Names) (pos : Pos) : List Operand → Except SyntaxError Unit
  | [] => .ok ()
  | o :: rest => do
    names.checkOperand pos o
    names.checkOperands pos rest

def checkCommand (names : Names) (stage : Nat) : Command → Except SyntaxError Unit
  | ⟨pos, operands⟩ => do
    checkShape stage ⟨pos, operands⟩
    names.checkOperands pos operands

def checkCommands (names : Names) (stage : Nat) : List Command → Except SyntaxError Unit
  | [] => .ok ()
  | c :: rest => do
    names.checkCommand stage c
    names.checkCommands (stage + 1) rest

/-- Checks a pipeline of a construct, which may declare or assign at most `most` names. -/
def checkPipeline (names : Names) (most : Nat) (construct : Construct) :
    Pipeline → Except SyntaxError Unit
  | ⟨pos, assigns, declared, commands⟩ => do
    if most < declared.length then throw ⟨pos, .tooManyNames construct⟩
    if assigns then names.checkVariables pos declared
    names.checkCommands 0 commands

end

/-- The names after a pipeline: those that it declares come into scope. -/
def declare (names : Names) (p : Pipeline) : Names :=
  if p.assigns then names else { names with scope := p.names.reverse ++ names.scope }

end Names

end BoundQuery.Template
