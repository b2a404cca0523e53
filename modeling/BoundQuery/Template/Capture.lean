/-
# Capturing values

A value that an action writes becomes an argument of the statement: its pipeline is handed to the
capture function. Left as they are: actions that set variables, and actions that write a variable
which a loop around binds, or which an earlier action of the same list sets. Those write the value
itself.
-/

import BoundQuery.Template.Check

namespace BoundQuery

namespace Template

/-- Whether a command is a call of the capture function with nothing but the value handed on. -/
def Command.isCapture : Command → Bool
  | ⟨_, [.identifier name]⟩ => name == captureName
  | _ => false

/-- Whether a pipeline ends in the capture function. -/
def Pipeline.capturesValue (p : Pipeline) : Bool :=
  p.commands.getLast?.any Command.isCapture

/-- Whether a command writes one of the variables as it stands: it is compared in its canonical
source. -/
def Command.writesBound (bound : List String) (c : Command) : Bool :=
  bound.contains (String.ofList c.render)

/-- Hands the value of a pipeline to the capture function, unless it is captured already or is the
value of one of the bound variables. -/
def Pipeline.capture (bound : List String) (p : Pipeline) : Pipeline :=
  match p.commands.getLast? with
  | none => p
  | some last =>
    if last.isCapture || last.writesBound bound then p
    else { p with commands := p.commands ++ [⟨last.pos, [.identifier captureName]⟩] }

mutual

/-- Captures the values in a node. The loops around bind `loop`; earlier actions of the same list
set `earlier`. -/
def Node.capture (loop earlier : List String) : Node → Node
  | .text s => .text s
  | .action p => if p.setsVariables then .action p else .action (p.capture (loop ++ earlier))
  | .control kind pos p body otherwise =>
    .control kind pos p
      (captureNodes (if kind == .range then loop ++ p.names else loop) [] body)
      (captureOtherwise loop otherwise)
  | .invoke pos name data => .invoke pos name data
  | .jump kind pos => .jump kind pos

/-- Captures the values in a list of nodes. -/
def captureNodes (loop earlier : List String) : List Node → List Node
  | [] => []
  | n :: rest =>
    let earlier' := match n with
      | .action p => if p.setsVariables then earlier ++ p.names else earlier
      | _ => earlier
    n.capture loop earlier :: captureNodes loop earlier' rest

/-- Captures the values in the nodes after `else`. -/
def captureOtherwise (loop : List String) : Option (List Node) → Option (List Node)
  | none => none
  | some nodes => some (captureNodes loop [] nodes)

end

end Template

/-- Captures the values that a template writes. The definitions stand on their own. -/
def Template.capture (t : Template) : Template where
  root := captureNodes [] [] t.root
  definitions := t.definitions.map fun (name, nodes) => (name, captureNodes [] [] nodes)

end BoundQuery
