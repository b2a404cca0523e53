/-
# Assembling a template

A template is put together segment by segment. Control structures and definitions that are not
closed yet form a stack, the innermost first; each remembers what was collected before it, and the
scope to return to. `Template.parse` reads a whole source.
-/

import BoundQuery.Template.Check
import BoundQuery.Template.Clause
import BoundQuery.Template.Segment

namespace BoundQuery

namespace Template

open Text (Pos)

/-- What is set aside while a structure is open. -/
structure Outer where
  /-- The nodes before the structure, the last first. -/
  nodes : List Node
  /-- The variables in scope before the structure, the innermost first. -/
  scope : List String
  /-- Whether the structure stands in the body of a loop. -/
  inLoop : Bool
deriving Inhabited

/-- A structure that is not closed yet. -/
inductive Frame
  /-- A control structure. The nodes before `else` are its body, once that came. A chained structure
  is all there is after the `else` of the structure around it, and the two close together. -/
  | control (kind : Control) (pos : Pos) (pipeline : Pipeline) (body : Option (List Node))
      (chained : Bool) (outer : Outer)
  /-- The definition of a template, and the call that a block stands for. -/
  | definition (name : String) (call : Option (Pos × Pipeline)) (outer : Outer)
deriving Inhabited

/-- A template that is being assembled. -/
structure Assembly where
  /-- The nodes of the innermost structure so far, the last first. -/
  nodes : List Node
  /-- The variables in scope, the innermost first. -/
  scope : List String
  /-- Whether the nodes are collected for the body of a loop, where jumps are allowed. -/
  inLoop : Bool
  /-- The structures that are not closed yet, the innermost first. -/
  frames : List Frame
  definitions : Entries (List Node)
deriving Inhabited

namespace Assembly

/-- Nothing assembled yet. The variable `$` is always in scope. -/
def empty : Assembly where
  nodes := []
  scope := ["$"]
  inLoop := false
  frames := []
  definitions := []

/-- What is set aside when a structure opens. -/
def outer (a : Assembly) : Outer :=
  ⟨a.nodes, a.scope, a.inLoop⟩

/-- Adds a node. -/
def push (a : Assembly) (n : Node) : Assembly :=
  { a with nodes := n :: a.nodes }

/-- The names at hand. -/
def names (isFunction : String → Bool) (a : Assembly) : Names :=
  ⟨isFunction, a.scope⟩

/-- Brings the names that a pipeline declares into scope. -/
def declare (a : Assembly) (p : Pipeline) : Assembly :=
  { a with scope := ((a.names fun _ => false).declare p).scope }

/-- Opens a control structure. -/
def openControl (isFunction : String → Bool) (a : Assembly) (kind : Control) (pos : Pos)
    (p : Pipeline) (chained : Bool) : Except SyntaxError Assembly := do
  (a.names isFunction).checkPipeline kind.mostNames kind.construct p
  let frame := Frame.control kind pos p none chained a.outer
  return { a.declare p with
    nodes := [], inLoop := a.inLoop || kind == .range, frames := frame :: a.frames }

/-- Opens a definition: a scope of its own, outside any loop. -/
def openDefinition (a : Assembly) (name : String) (call : Option (Pos × Pipeline)) : Assembly :=
  { a with
    nodes := [], scope := ["$"], inLoop := false
    frames := .definition name call a.outer :: a.frames }

/-- Ends the body of the innermost control structure. The variables stay in scope; a loop is left. -/
def endBody (a : Assembly) : Except SyntaxFault (Control × Assembly) :=
  match a.frames with
  | .control kind pos p none chained outer :: frames =>
    .ok (kind, { a with
      nodes := [], inLoop := outer.inLoop
      frames := .control kind pos p (some a.nodes.reverse) chained outer :: frames })
  | .control _ _ _ (some _) _ _ :: _ => .error .secondElse
  | _ => .error .strayElse

/-- The node of a control structure, from the nodes collected last. -/
def controlNode (kind : Control) (pos : Pos) (p : Pipeline) (body : Option (List Node))
    (last : List Node) : Node :=
  match body with
  | none => .control kind pos p last none
  | some body => .control kind pos p body (some last)

/-- Closes control structures from the innermost outwards, as long as they are chained: the nodes,
the scope and the structures that are left. -/
def closeControls (nodes : List Node) : List Frame → Option (Outer × List Frame)
  | .control kind pos p body chained outer :: frames =>
    let nodes := controlNode kind pos p body nodes.reverse :: outer.nodes
    if chained then closeControls nodes frames
    else some (⟨nodes, outer.scope, outer.inLoop⟩, frames)
  | _ => none

/-- Closes the innermost structure. -/
def close (a : Assembly) : Option Assembly :=
  match a.frames with
  | .definition name call outer :: frames =>
    let nodes := match call with
      | none => outer.nodes
      | some (pos, data) => .invoke pos name (some data) :: outer.nodes
    some ⟨nodes, outer.scope, outer.inLoop, frames,
      Entries.insert name a.nodes.reverse a.definitions⟩
  | frames =>
    (closeControls a.nodes frames).map fun (outer, frames) =>
      ⟨outer.nodes, outer.scope, outer.inLoop, frames, a.definitions⟩

/-- Takes in what an action says. -/
def step (isFunction : String → Bool) (a : Assembly) (action : Action) :
    Except SyntaxError Assembly := do
  let pos := action.pos
  match action.clause with
  | .pipeline p =>
    (a.names isFunction).checkPipeline 1 .command p
    return (a.declare p).push (.action p)
  | .control kind p => a.openControl isFunction kind pos p false
  | .otherwise =>
    match a.endBody with
    | .ok (_, a) => return a
    | .error fault => throw ⟨pos, fault⟩
  | .elseControl kind p =>
    match a.endBody with
    | .ok (around, a) =>
      if kind = around then a.openControl isFunction kind pos p true
      else throw ⟨pos, .elseIn around⟩
    | .error fault => throw ⟨pos, fault⟩
  | .close =>
    match a.close with
    | some a => return a
    | none => throw ⟨pos, .strayEnd⟩
  | .definition name =>
    if a.frames.isEmpty then return a.openDefinition name none
    else throw ⟨pos, .nestedDefinition⟩
  | .invocation name data =>
    match data with
    | none => return a.push (.invoke pos name none)
    | some p =>
      (a.names isFunction).checkPipeline 0 .invocation p
      return a.push (.invoke pos name (some p))
  | .block name p =>
    (a.names isFunction).checkPipeline 0 .block p
    return a.openDefinition name (some (pos, p))
  | .jump kind =>
    if a.inLoop then return a.push (.jump kind pos)
    else throw ⟨pos, .jumpOutsideLoop kind⟩

/-- Takes in a segment of the source. -/
def take (isFunction : String → Bool) (source : List Char) (a : Assembly) :
    Segment → Except SyntaxError Assembly
  | .text chars => .ok (a.push (.text (String.ofList chars)))
  | .action _ bodyStart body => do
    let action ← readAction (locateIn (Text.positionAt source bodyStart) body) body
    a.step isFunction action

/-- The template, if all structures are closed. -/
def finish (a : Assembly) : Option Template :=
  if a.frames.isEmpty then some ⟨a.nodes.reverse, a.definitions⟩ else none

end Assembly

/-- Reads a source. Functions must be known; the capture function always is. -/
def parse (isFunction : String → Bool) (source : List Char) : Except SyntaxError Template := do
  match segments source with
  | .error (offset, fault) => throw ⟨Text.positionAt source offset, .tag fault⟩
  | .ok segments =>
    let a ← segments.foldlM (Assembly.take isFunction source) .empty
    match a.finish with
    | some t => return t
    | none => throw ⟨Text.positionAt source (Text.utf8Length source), .endOfSource⟩

end Template

end BoundQuery
