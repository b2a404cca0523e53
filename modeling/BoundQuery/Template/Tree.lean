/-
# The template tree

What a template says, with the places where its source says it. Pipelines hold commands, commands
hold operands, and an operand may be a pipeline in parentheses; the nodes of a template hold
pipelines and further nodes.
-/

import BoundQuery.Entries
import BoundQuery.Text.Position

namespace BoundQuery.Template

open Text (Pos)

/-- A number in a template. -/
inductive Number
  | int (i : Int64)
  | float (x : Float)
deriving Inhabited, BEq

mutual

/-- A term of a command. Names of variables include the dollar sign. -/
inductive Operand
  /-- The data at hand: `.` -/
  | dot
  /-- Fields of the data at hand: `.A.B` -/
  | field (fields : List String)
  /-- A variable, or fields of its value: `$x.A` -/
  | variable (name : String) (fields : List String)
  /-- A function. -/
  | identifier (name : String)
  /-- Fields of the value of an operand: `(pipeline).A` -/
  | chain (base : Operand) (fields : List String)
  /-- A pipeline in parentheses. -/
  | pipe (pipeline : Pipeline)
  | string (s : String)
  | number (n : Number)
  | bool (b : Bool)
  | nil

/-- A function with its arguments, or a single operand. -/
structure Command where
  pos : Pos
  operands : List Operand

/-- Commands that hand their values on, from left to right. The names on the left of `:=` or `=`
are declared or assigned. -/
structure Pipeline where
  pos : Pos
  /-- Whether the names are assigned to and not declared. -/
  assigns : Bool
  /-- The names that the pipeline declares or assigns. -/
  names : List String
  commands : List Command

end

deriving instance Inhabited, BEq for Operand, Command, Pipeline

/-- The function that a command calls. -/
def Command.function? : Command → Option String
  | ⟨_, .identifier name :: _⟩ => some name
  | _ => none

/-- The variable that a command consists of. -/
def Command.variable? : Command → Option String
  | ⟨_, [.variable name []]⟩ => some name
  | _ => none

/-- Whether a pipeline sets variables; such a pipeline prints nothing. -/
def Pipeline.setsVariables (p : Pipeline) : Bool :=
  !p.names.isEmpty

/-- The control structures. -/
inductive Control
  | cond
  | range
  | scope
deriving DecidableEq, Repr, Inhabited

/-- The keyword that opens a control structure. -/
def Control.keyword : Control → String
  | cond => "if"
  | range => "range"
  | scope => "with"

/-- The ways to leave the round of a loop early. -/
inductive Jump
  | leave
  | next
deriving DecidableEq, Repr, Inhabited

/-- The keyword of a jump. -/
def Jump.keyword : Jump → String
  | leave => "break"
  | next => "continue"

/-- A node of a template. -/
inductive Node
  /-- Text to be written as it stands. -/
  | text (s : String)
  /-- A pipeline whose value is written. -/
  | action (pipeline : Pipeline)
  /-- A control structure with its body and the nodes after `else`. -/
  | control (kind : Control) (pos : Pos) (pipeline : Pipeline) (body : List Node)
      (otherwise : Option (List Node))
  /-- A template called by its name, with the data it gets. -/
  | invoke (pos : Pos) (name : String) (data : Option Pipeline)
  /-- The end of a round of the loop around. -/
  | jump (kind : Jump) (pos : Pos)
deriving Inhabited, BEq

end Template

/-- A template: its nodes, and the templates that it defines. -/
structure Template where
  root : List Template.Node
  definitions : Entries (List Template.Node)
deriving Inhabited, BEq

end BoundQuery
