/-
# Faults of templates

Why a source is not a template, each with the place in the source and one wording.
-/

import BoundQuery.Template.Scan
import BoundQuery.Template.Tag
import BoundQuery.Template.Tree
import BoundQuery.Text.Quoted

namespace BoundQuery.Template

/-- What is wrong with a source. -/
inductive SyntaxFault
  | tag (fault : TagFault)
  /-- A command is missing. -/
  | missingCommand
  /-- An action ends in a construct; an operand is missing if none is named. -/
  | endOfAction (construct : Option Construct)
  /-- Something else is expected in a construct; an operand if none is named. -/
  | unexpected (token : String) (construct : Option Construct)
  | badEscape
  | openString
  | openRawString
  | badNumber
  | tooManyNames (construct : Construct)
  | nilCommand
  /-- A later command of a pipeline, counted from one, is no function. -/
  | notExecutable (stage : Nat)
  | notFunction (operand : String)
  | undefinedFunction (name : String)
  | undefinedVariable (name : String)
  | nestedDefinition
  | strayEnd
  | strayElse
  | secondElse
  | elseIn (kind : Control)
  | jumpOutsideLoop (kind : Jump)
  /-- The source ends before all structures are closed. -/
  | endOfSource
deriving DecidableEq, Repr

/-- The name of what is expected. -/
def expectedName (construct : Option Construct) : String :=
  (construct.map Construct.name).getD "operand"

/-- A keyword as an action. -/
def keywordTag (name : String) : String :=
  String.ofList (tag name.toList)

def TagFault.message : TagFault → String
  | unclosedComment => "unclosed comment"
  | unclosedAction => "unclosed action"
  | foreignCharacter => "non-ASCII character outside a string"

def SyntaxFault.message : SyntaxFault → String
  | tag fault => fault.message
  | missingCommand => "missing value for command"
  | endOfAction construct => "unexpected EOF in " ++ expectedName construct
  | unexpected token construct =>
    "unexpected " ++ Text.quoted token ++ " in " ++ expectedName construct
  | badEscape => "invalid escape sequence in quoted string"
  | openString => "unterminated quoted string"
  | openRawString => "unterminated raw quoted string"
  | badNumber => "bad number syntax"
  | tooManyNames construct => "too many declarations in " ++ construct.name
  | nilCommand => "nil is not a command"
  | notExecutable stage => "non executable command in pipeline stage " ++ toString stage
  | notFunction operand => "can't give argument to non-function " ++ operand
  | undefinedFunction name => "function " ++ Text.quoted name ++ " not defined"
  | undefinedVariable name => "undefined variable " ++ Text.quoted name
  | nestedDefinition => "define clause not at top level"
  | strayEnd => "unexpected " ++ keywordTag "end"
  | strayElse => "unexpected " ++ keywordTag "else"
  | secondElse => "expected end; found " ++ keywordTag "else"
  | elseIn kind => "unexpected " ++ keywordTag "else" ++ " clause in " ++ kind.keyword
  | jumpOutsideLoop kind => keywordTag kind.keyword ++ " outside " ++ keywordTag "range"
  | endOfSource => "unexpected EOF"

/-- A fault and its place. -/
structure SyntaxError where
  pos : Text.Pos
  fault : SyntaxFault
deriving DecidableEq, Repr

/-- The text of an error. -/
def SyntaxError.message (e : SyntaxError) : String :=
  "template:" ++ e.pos.text ++ ": " ++ e.fault.message

end BoundQuery.Template
