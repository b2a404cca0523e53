/-
# The source of a tree

Each tree has a canonical source: one space between the operands of a command, ` | ` between
commands, no trim markers and no comments. The definitions of a template come first.
-/

import BoundQuery.Template.Tree
import BoundQuery.Text.Quoted
import BoundQuery.Value.Print

namespace BoundQuery

namespace Template

/-- Floats in a template always show a fraction or an exponent. They have no exponent from
`10 ^ -4` on and below `10 ^ 16`. -/
def literalLayout : Decimal.Layout where
  tie := .up
  positional n := -4 ≤ n && n < 16
  wholePoint := true
  plusSign := false

/-- What opens an action. -/
def opening : List Char := ['\x7b', '\x7b']

/-- What closes an action. -/
def closing : List Char := ['\x7d', '\x7d']

/-- An action with the given interior. -/
def tag (interior : List Char) : List Char :=
  opening ++ interior ++ closing

def Number.render : Number → List Char
  | .int i => Value.printInteger i.toInt
  | .float x => literalLayout.write x

/-- Field names, each after a dot. -/
def renderFields (fields : List String) : List Char :=
  fields.flatMap fun name => '.' :: name.toList

/-- The names on the left of a declaration or an assignment, and the sign. -/
def renderNames (assigns : Bool) (names : List String) : List Char :=
  if names.isEmpty then []
  else [',', ' '].intercalate (names.map String.toList)
    ++ (if assigns then " = " else " := ").toList

mutual

def Operand.render : Operand → List Char
  | .dot => ['.']
  | .field fields => renderFields fields
  | .variable name fields => name.toList ++ renderFields fields
  | .identifier name => name.toList
  | .chain base fields => base.render ++ renderFields fields
  | .pipe pipeline => '(' :: pipeline.render ++ [')']
  | .string s => Text.Quoted.spell s.toList
  | .number n => n.render
  | .bool b => Value.printBool b
  | .nil => "nil".toList

/-- Operands with spaces between them. -/
def renderOperands : List Operand → List Char
  | [] => []
  | [o] => o.render
  | o :: p :: rest => o.render ++ ' ' :: renderOperands (p :: rest)

def Command.render : Command → List Char
  | ⟨_, operands⟩ => renderOperands operands

/-- Commands with bars between them. -/
def renderCommands : List Command → List Char
  | [] => []
  | [c] => c.render
  | c :: d :: rest => c.render ++ " | ".toList ++ renderCommands (d :: rest)

def Pipeline.render : Pipeline → List Char
  | ⟨_, assigns, names, commands⟩ => renderNames assigns names ++ renderCommands commands

end

mutual

def Node.render : Node → List Char
  | .text s => s.toList
  | .action p => tag p.render
  | .control kind _ p body otherwise =>
    tag (kind.keyword.toList ++ ' ' :: p.render) ++ renderNodes body
      ++ renderOtherwise otherwise ++ tag "end".toList
  | .invoke _ name none => tag ("template ".toList ++ Text.Quoted.spell name.toList)
  | .invoke _ name (some p) =>
    tag ("template ".toList ++ Text.Quoted.spell name.toList ++ ' ' :: p.render)
  | .jump kind _ => tag kind.keyword.toList

/-- Nodes, one after the other. -/
def renderNodes : List Node → List Char
  | [] => []
  | n :: rest => n.render ++ renderNodes rest

/-- The nodes after `else`, with the keyword. -/
def renderOtherwise : Option (List Node) → List Char
  | none => []
  | some nodes => tag "else".toList ++ renderNodes nodes

end

/-- A definition. -/
def renderDefinition (name : String) (nodes : List Node) : List Char :=
  tag ("define ".toList ++ Text.Quoted.spell name.toList) ++ renderNodes nodes
    ++ tag "end".toList

end Template

open Template in
/-- The canonical source of a template. -/
def Template.render (t : Template) : List Char :=
  t.definitions.flatMap (fun (name, nodes) => renderDefinition name nodes) ++ renderNodes t.root

/-- The canonical source of a template as a string. -/
def Template.source (t : Template) : String :=
  String.ofList t.render

end BoundQuery
