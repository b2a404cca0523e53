/-
# Clauses

What one action says: a pipeline, or a part of the structure around it. `readClause` reads the body
of an action; it looks at this action alone and checks no names.
-/

import BoundQuery.Template.Literal
import BoundQuery.Template.Fault
import BoundQuery.Unicode.Blank

namespace BoundQuery.Template

open Text (Pos)

/-- What an action says. -/
inductive Clause
  | pipeline (p : Pipeline)
  /-- Opens a control structure. -/
  | control (kind : Control) (p : Pipeline)
  /-- Goes on with a condition where the one before does not hold. -/
  | elseControl (kind : Control) (p : Pipeline)
  | otherwise
  /-- Closes a structure. -/
  | close
  | definition (name : String)
  | invocation (name : String) (data : Option Pipeline)
  /-- Defines a template and calls it. -/
  | block (name : String) (data : Pipeline)
  | jump (kind : Jump)
deriving Inhabited

/-! ### Pipelines

The grammar of pipelines nests by parentheses. Each level is given the scanner of the level inside;
`nested` piles up as many levels as asked for. -/

namespace Scan

/-- A pipeline in parentheses. -/
def parenthesized (inner : Scan Pipeline) : Scan Operand := do
  let _ ← char '('
  let _ ← spaces
  let p ← commit inner
  let _ ← spaces
  let _ ← commit (within .parentheses (char ')'))
  return .pipe p

/-- An operand, but for the fields of a pipeline in parentheses. -/
def term (inner : Scan Pipeline) : Scan Operand :=
  parenthesized inner
  <|> Operand.string <$> string
  <|> Operand.number <$> number
  <|> Operand.bool <$> boolean
  <|> (do nil; return .nil)
  <|> Operand.field <$> oneOrMore field
  <|> (do let _ ← char '.'; return .dot)
  <|> (do
    let name ← variableName
    let path ← fields
    return .variable name path)
  <|> Operand.identifier <$> identifier

/-- An operand. -/
def operand (inner : Scan Pipeline) : Scan Operand := do
  let t ← term inner
  match t with
  | .pipe p =>
    let path ← fields
    return if path.isEmpty then .pipe p else .chain (.pipe p) path
  | t => return t

variable (locate : List Char → Pos)

/-- Operands with white space between them. -/
def command (inner : Scan Pipeline) : Scan Command := do
  let start ← here
  let first ← within .command (operand inner)
  let others ← many (do let _ ← someSpaces; operand inner)
  return ⟨locate start, first :: others⟩

/-- The names on the left of a declaration, or of an assignment, and which of the two it is. -/
def declaration : Scan (List String × Bool) := do
  let first ← variableName
  let second ← optional (do
    let _ ← spaces
    let _ ← char ','
    let _ ← spaces
    variableName)
  let _ ← spaces
  let assigns ←
    (do word ":=".toList; return false)
    <|> (do let _ ← char '='; notFollowedBy (· == '='); return true)
  let _ ← spaces
  return (first :: second.toList, assigns)

/-- Commands with bars between them, after a declaration or assignment where one is allowed. -/
def pipelineWith (declares : Bool) (inner : Scan Pipeline) : Scan Pipeline := do
  let start ← here
  let names ← if declares then optional declaration else pure none
  let first ← command locate inner
  let others ← many (do
    let _ ← spaces
    let _ ← char '|'
    let _ ← spaces
    commit (command locate inner))
  let (names, assigns) := names.getD ([], false)
  return ⟨locate start, assigns, names, first :: others⟩

/-- Pipelines inside parentheses, nested less deep than the bound. -/
def nested : Nat → Scan Pipeline
  | 0 => within .command miss
  | depth + 1 => pipelineWith locate false (nested depth)

/-- A pipeline. Each level of parentheses takes a character, so no more levels can be there than
characters. -/
def pipeline (declares : Bool) : Scan Pipeline :=
  fun cs => pipelineWith locate declares (nested locate cs.length) cs

/-! ### Clauses -/

/-- A control structure after its keyword. -/
def control (kind : Control) (construct : Construct) : Scan Pipeline := do
  keyword kind.keyword
  let _ ← spaces
  commit (within construct (pipeline locate true))

/-- What follows the keyword `else`, which may be nothing. -/
def elseClause : Scan Clause := do
  keyword "else"
  (Clause.elseControl .cond <$> (do let _ ← spaces; control locate .cond .cond))
    <|> (Clause.elseControl .scope <$> (do let _ ← spaces; control locate .scope .scope))
    <|> pure .otherwise

/-- The name of a defined template. -/
def definition : Scan Clause := do
  keyword "define"
  let _ ← spaces
  let name ← commit (within .definition string)
  return .definition name

/-- The name of a called template, and maybe its data. -/
def invocation : Scan Clause := do
  keyword "template"
  let _ ← spaces
  let name ← commit (within .invocation string)
  let data ← commit (optional (do let _ ← someSpaces; pipeline locate false))
  return .invocation name data

/-- The name of a block and its data. -/
def block : Scan Clause := do
  keyword "block"
  let _ ← spaces
  let name ← commit (within .block string)
  let data ← commit (do let _ ← someSpaces; within .block (pipeline locate false))
  return .block name data

/-- What an action says. -/
def clause : Scan Clause :=
  Clause.control .cond <$> control locate .cond .cond
  <|> elseClause locate
  <|> (do keyword "end"; return .close)
  <|> Clause.control .range <$> control locate .range .range
  <|> Clause.control .scope <$> control locate .scope .scope
  <|> definition
  <|> invocation locate
  <|> block locate
  <|> (do keyword "break"; return .jump .leave)
  <|> (do keyword "continue"; return .jump .next)
  <|> Clause.pipeline <$> pipeline locate true

end Scan

/-! ### Bodies of actions -/

/-- The characters of a text up to the first blank, or up to the one that starts sixteen bytes or
more into the text. -/
def cutToken (offset : Nat) : List Char → List Char
  | [] => []
  | c :: cs =>
    if Unicode.isBlank c || 16 ≤ offset then [] else c :: cutToken (offset + c.utf8Size) cs

/-- What stands at the front of a text, for messages. -/
def nextToken (cs : List Char) : String :=
  String.ofList (cutToken 0 (cs.dropWhile Unicode.isBlank))

/-- The fault of a source that a fault of a scanner amounts to. What is missing is noted where the
next token starts. -/
def Fault.toSyntaxError (locate : List Char → Pos) (fault : Fault) : SyntaxError :=
  match fault.reason with
  | .badEscape => ⟨locate fault.rest, .badEscape⟩
  | .openString => ⟨locate fault.rest, .openString⟩
  | .openRawString => ⟨locate fault.rest, .openRawString⟩
  | .badNumber => ⟨locate fault.rest, .badNumber⟩
  | .missing construct =>
    let token := nextToken fault.rest
    let what :=
      if construct = some .command && (token == "" || token == "|") then .missingCommand
      else if token == "" then .endOfAction construct
      else .unexpected token construct
    ⟨locate (fault.rest.dropWhile Unicode.isBlank), what⟩

/-- A clause and the place where it starts. -/
structure Action where
  pos : Pos
  clause : Clause
deriving Inhabited

/-- Reads the body of an action. The place of a character is told by the text that starts with it. -/
def readAction (locate : List Char → Pos) (body : List Char) : Except SyntaxError Action :=
  let start := trimStart body
  if start.isEmpty then .error ⟨locate [], .missingCommand⟩
  else match Scan.clause locate start with
    | .found clause rest =>
      match trimStart rest with
      | [] => .ok ⟨locate start, clause⟩
      | rest => .error ⟨locate rest, .unexpected (nextToken rest) (some .command)⟩
    | .missed fault => .error (fault.toSyntaxError locate)
    | .failed fault => .error (fault.toSyntaxError locate)

/-- The place of the text `rest` at the end of `body`, which starts at `pos`. -/
def locateIn (pos : Pos) (body rest : List Char) : Pos :=
  Text.positionFrom pos body (Text.utf8Length body - Text.utf8Length rest)

end BoundQuery.Template
