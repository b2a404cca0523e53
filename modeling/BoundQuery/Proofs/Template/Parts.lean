/-
# Parts of a template

All nodes of a template, at any depth, all pipelines in a pipeline, and the functions and variables
that it names. What is said of the texts, actions or functions of a template is said of the members of
these lists.
-/

import BoundQuery.Template.Tree

namespace BoundQuery

namespace Template

/-! ### Functions that are named -/

mutual

/-- The functions that an operand names. -/
def Operand.identifiers : Operand → List String
  | .identifier name => [name]
  | .chain base _ => base.identifiers
  | .pipe p => p.identifiers
  | _ => []

/-- The functions that several operands name. -/
def operandIdentifiers : List Operand → List String
  | [] => []
  | o :: rest => o.identifiers ++ operandIdentifiers rest

/-- The functions that a command names. -/
def Command.identifiers : Command → List String
  | ⟨_, operands⟩ => operandIdentifiers operands

/-- The functions that several commands name. -/
def commandIdentifiers : List Command → List String
  | [] => []
  | c :: rest => c.identifiers ++ commandIdentifiers rest

/-- The functions that a pipeline names. -/
def Pipeline.identifiers : Pipeline → List String
  | ⟨_, _, _, commands⟩ => commandIdentifiers commands

end

theorem mem_operandIdentifiers {name : String} {operands : List Operand} :
    name ∈ operandIdentifiers operands ↔ ∃ o ∈ operands, name ∈ o.identifiers := by
  induction operands with
  | nil => simp [operandIdentifiers]
  | cons o rest ih => simp [operandIdentifiers, ih]

theorem mem_commandIdentifiers {name : String} {commands : List Command} :
    name ∈ commandIdentifiers commands ↔ ∃ c ∈ commands, name ∈ c.identifiers := by
  induction commands with
  | nil => simp [commandIdentifiers]
  | cons c rest ih => simp [commandIdentifiers, ih]

theorem Command.mem_identifiers {name : String} {c : Command} :
    name ∈ c.identifiers ↔ ∃ o ∈ c.operands, name ∈ o.identifiers := by
  cases c
  exact mem_operandIdentifiers

theorem Pipeline.mem_identifiers {name : String} {p : Pipeline} :
    name ∈ p.identifiers ↔ ∃ c ∈ p.commands, name ∈ c.identifiers := by
  cases p
  exact mem_commandIdentifiers

theorem mem_identifiers_of_mem {name : String} {p : Pipeline} {c : Command}
    (hc : c ∈ p.commands) (h : name ∈ c.identifiers) : name ∈ p.identifiers :=
  Pipeline.mem_identifiers.mpr ⟨c, hc, h⟩

/-! ### Variables that are used -/

mutual

/-- The variables that an operand names. -/
def Operand.variables : Operand → List String
  | .variable name _ => [name]
  | .chain base _ => base.variables
  | .pipe p => p.variables
  | _ => []

/-- The variables that several operands name. -/
def operandVariables : List Operand → List String
  | [] => []
  | o :: rest => o.variables ++ operandVariables rest

/-- The variables that a command names. -/
def Command.variables : Command → List String
  | ⟨_, operands⟩ => operandVariables operands

/-- The variables that several commands name. -/
def commandVariables : List Command → List String
  | [] => []
  | c :: rest => c.variables ++ commandVariables rest

/-- The variables that a pipeline uses: those that it assigns to, and those that its commands name. -/
def Pipeline.variables : Pipeline → List String
  | ⟨_, assigns, names, commands⟩ => (if assigns then names else []) ++ commandVariables commands

end

theorem mem_commandVariables {name : String} {commands : List Command} :
    name ∈ commandVariables commands ↔ ∃ c ∈ commands, name ∈ c.variables := by
  induction commands with
  | nil => simp [commandVariables]
  | cons c rest ih => simp [commandVariables, ih]

theorem Pipeline.mem_variables_of_assigns {p : Pipeline} (h : p.assigns = true) {name : String}
    (hname : name ∈ p.names) : name ∈ p.variables := by
  cases p
  cases h
  exact List.mem_append_left _ hname

/-! ### Pipelines inside pipelines -/

mutual

/-- The pipelines in parentheses in an operand. -/
def Operand.inner : Operand → List Pipeline
  | .chain base _ => base.inner
  | .pipe p => p :: p.inner
  | _ => []

/-- The pipelines in parentheses in several operands. -/
def operandsInner : List Operand → List Pipeline
  | [] => []
  | o :: rest => o.inner ++ operandsInner rest

/-- The pipelines in parentheses in a command. -/
def Command.inner : Command → List Pipeline
  | ⟨_, operands⟩ => operandsInner operands

/-- The pipelines in parentheses in several commands. -/
def commandsInner : List Command → List Pipeline
  | [] => []
  | c :: rest => c.inner ++ commandsInner rest

/-- The pipelines in parentheses in a pipeline, at any depth. -/
def Pipeline.inner : Pipeline → List Pipeline
  | ⟨_, _, _, commands⟩ => commandsInner commands

end

/-- A pipeline with all pipelines inside it. -/
def Pipeline.tree (p : Pipeline) : List Pipeline :=
  p :: p.inner

theorem mem_operandsInner {q : Pipeline} {operands : List Operand} :
    q ∈ operandsInner operands ↔ ∃ o ∈ operands, q ∈ o.inner := by
  induction operands with
  | nil => simp [operandsInner]
  | cons o rest ih => simp [operandsInner, ih]

theorem mem_commandsInner {q : Pipeline} {commands : List Command} :
    q ∈ commandsInner commands ↔ ∃ c ∈ commands, q ∈ c.inner := by
  induction commands with
  | nil => simp [commandsInner]
  | cons c rest ih => simp [commandsInner, ih]

theorem Command.mem_inner {q : Pipeline} {c : Command} :
    q ∈ c.inner ↔ ∃ o ∈ c.operands, q ∈ o.inner := by
  cases c
  exact mem_operandsInner

theorem Pipeline.mem_inner {q p : Pipeline} : q ∈ p.inner ↔ ∃ c ∈ p.commands, q ∈ c.inner := by
  cases p
  exact mem_commandsInner

/-! ### Nodes -/

mutual

/-- A node with all nodes inside it. -/
def Node.tree : Node → List Node
  | .control kind pos p body otherwise =>
    .control kind pos p body otherwise :: (nodesWithin body ++ nodesOtherwise otherwise)
  | n => [n]

/-- All nodes of a list, at any depth. -/
def nodesWithin : List Node → List Node
  | [] => []
  | n :: rest => n.tree ++ nodesWithin rest

/-- All nodes after `else`, at any depth. -/
def nodesOtherwise : Option (List Node) → List Node
  | none => []
  | some nodes => nodesWithin nodes

end

theorem mem_tree_self (n : Node) : n ∈ n.tree := by
  cases n <;> simp [Node.tree]

theorem mem_nodesWithin {m : Node} {nodes : List Node} :
    m ∈ nodesWithin nodes ↔ ∃ n ∈ nodes, m ∈ n.tree := by
  induction nodes with
  | nil => simp [nodesWithin]
  | cons n rest ih => simp [nodesWithin, ih]

/-- The pipelines that a node holds itself. -/
def Node.pipelines : Node → List Pipeline
  | .action p => [p]
  | .control _ _ p _ _ => [p]
  | .invoke _ _ data => data.toList
  | _ => []

/-- The text that a node consists of. -/
def Node.text? : Node → Option String
  | .text s => some s
  | _ => none

/-- The control structure that a node is. -/
def Node.control? : Node → Option Control
  | .control kind _ _ _ _ => some kind
  | _ => none

/-- The functions that a node names itself. -/
def Node.identifiers (n : Node) : List String :=
  n.pipelines.flatMap Pipeline.identifiers

end Template

/-- All nodes of a template: those of its root and those of its definitions. -/
def Template.nodes (t : Template) : List Template.Node :=
  Template.nodesWithin t.root ++ t.definitions.flatMap fun (_, nodes) => Template.nodesWithin nodes

/-- The texts of a template. -/
def Template.texts (t : Template) : List String :=
  t.nodes.filterMap Template.Node.text?

/-- The functions that a template names. -/
def Template.identifiers (t : Template) : List String :=
  t.nodes.flatMap Template.Node.identifiers

namespace Template

theorem mem_texts {t : Template} {s : String} (h : .text s ∈ t.nodes) : s ∈ t.texts :=
  List.mem_filterMap.mpr ⟨.text s, h, rfl⟩

theorem mem_nodes_of_root {t : Template} {n : Node} (h : n ∈ nodesWithin t.root) : n ∈ t.nodes :=
  List.mem_append_left _ h

theorem mem_nodes_of_definition {t : Template} {d : String × List Node} {n : Node}
    (hd : d ∈ t.definitions) (h : n ∈ nodesWithin d.2) : n ∈ t.nodes :=
  List.mem_append_right _ (List.mem_flatMap.mpr ⟨d, hd, h⟩)

/-- What a template does not name, none of its pipelines names. -/
theorem notMem_identifiers {t : Template} {name : String} (h : name ∉ t.identifiers) {n : Node}
    (hn : n ∈ t.nodes) : ∀ p ∈ n.pipelines, name ∉ p.identifiers :=
  fun p hp hname => h (List.mem_flatMap.mpr ⟨n, hn, List.mem_flatMap.mpr ⟨p, hp, hname⟩⟩)

end Template

end BoundQuery
