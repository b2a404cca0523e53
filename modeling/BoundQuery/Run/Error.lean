/-
# Errors of runs

Why a template does not yield a statement for its data, each with a place in the source and one
wording.
-/

import BoundQuery.Function.Basic
import BoundQuery.Text.Position
import BoundQuery.Text.Quoted

namespace BoundQuery.Run

/-- How deep templates may call each other. -/
def maxDepth : Nat := 256

/-- What goes wrong in a run. -/
inductive EvalFault
  | missingField (field : String)
  /-- A field of null; the path leads to the field. -/
  | nilPointer (path : List String)
  | notAMap (field : String) (kind : Kind)
  | indexOutOfRange (index : Int) (length : Nat)
  | undefinedTemplate (name : String)
  | undefinedVariable (name : String)
  | undefinedFunction (name : String)
  | notAFunction (operand : String)
  | call (name : String) (fault : CallFault)
  | cannotRange (kind : Kind)
  | depthExceeded
  /-- A captured value is followed by a question mark, and the two would read as one. -/
  | adjacentPlaceholder
deriving DecidableEq, Repr

def EvalFault.message : EvalFault → String
  | missingField field => "map has no entry for key " ++ Text.quoted field
  | nilPointer path => "nil pointer evaluating ." ++ ".".intercalate path
  | notAMap field kind => "can't evaluate field " ++ field ++ " in type " ++ kind.name
  | indexOutOfRange index length =>
    "index out of range: " ++ toString index ++ " (length " ++ toString length ++ ")"
  | undefinedTemplate name => "no such template " ++ Text.quoted name
  | undefinedVariable name => "undefined variable: " ++ name
  | undefinedFunction name => "function " ++ Text.quoted name ++ " not defined"
  | notAFunction operand => "can't give argument to non-function " ++ operand
  | call name fault => "error calling " ++ name ++ ": " ++ fault.message
  | cannotRange kind => "range can't iterate over " ++ kind.name
  | depthExceeded => "exceeded maximum template depth (" ++ toString maxDepth ++ ")"
  | adjacentPlaceholder => "captured value is directly followed by \"?\""

/-- A fault and its place. -/
structure EvalError where
  pos : Text.Pos
  fault : EvalFault
deriving DecidableEq, Repr

/-- The text of an error. -/
def EvalError.message (e : EvalError) : String :=
  "template:" ++ e.pos.text ++ ": " ++ e.fault.message

end BoundQuery.Run
