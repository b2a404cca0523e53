/-
# What can be written in an action

The trees that scanners build: names are made of the characters of names, a field has a name after
each dot, no command and no pipeline is empty, and pipelines in parentheses set no variables.

Main definition: `Pipeline.Lexical`.
-/

import BoundQuery.Proofs.Template.Parts
import BoundQuery.Template.Clause

namespace BoundQuery.Template

/-! ### Names -/

/-- A first character of identifiers, and more characters of identifiers. -/
def IsIdentifier (name : String) : Prop :=
  ∃ c cs, name.toList = c :: cs ∧ isIdentifierStart c = true ∧ ∀ d ∈ cs, isIdentifierChar d = true

/-- A dollar sign, and characters of identifiers. -/
def IsVariable (name : String) : Prop :=
  ∃ cs, name.toList = '$' :: cs ∧ ∀ c ∈ cs, isIdentifierChar c = true

/-- The words that an operand is read as before it is read as a function. -/
def literalWords : List String :=
  ["true", "false", "nil"]

/-- An identifier of which `W` holds. -/
structure IdentifierOf (W : List Char → Prop) (name : String) : Prop where
  shape : IsIdentifier name
  word : W name.toList

/-- The name of a variable of which `W` holds. -/
structure VariableOf (W : List Char → Prop) (name : String) : Prop where
  shape : IsVariable name
  word : W name.toList

theorem isIdentifierChar_of_isIdentifierStart {c : Char} (h : isIdentifierStart c = true) :
    isIdentifierChar c = true := by
  rw [isIdentifierStart, Bool.or_eq_true] at h
  rcases h with h | h <;> simp [isIdentifierChar, h]

theorem IsIdentifier.isIdentifierChar {name : String} (h : IsIdentifier name) :
    ∀ c ∈ name.toList, isIdentifierChar c = true := by
  obtain ⟨c, cs, hname, hstart, hchars⟩ := h
  rw [hname, List.forall_mem_cons]
  exact ⟨isIdentifierChar_of_isIdentifierStart hstart, hchars⟩

/-! ### Trees -/

mutual

/-- An operand that can be written in an action, with words of which `W` holds. -/
inductive Operand.Lexical (W : List Char → Prop) : Operand → Prop
  | dot : Operand.Lexical W .dot
  | field {fields : List String} :
      fields ≠ [] → (∀ f ∈ fields, IdentifierOf W f) → Operand.Lexical W (.field fields)
  | var {name : String} {fields : List String} :
      VariableOf W name → (∀ f ∈ fields, IdentifierOf W f) → Operand.Lexical W (.variable name fields)
  | identifier {name : String} :
      IdentifierOf W name → name ∉ literalWords → Operand.Lexical W (.identifier name)
  | chain {p : Pipeline} {fields : List String} :
      p.Lexical W → p.names = [] → fields ≠ [] → (∀ f ∈ fields, IdentifierOf W f) →
      Operand.Lexical W (.chain (.pipe p) fields)
  | pipe {p : Pipeline} : p.Lexical W → p.names = [] → Operand.Lexical W (.pipe p)
  | string {s : String} : Operand.Lexical W (.string s)
  | number {n : Number} : Operand.Lexical W (.number n)
  | bool {b : Bool} : Operand.Lexical W (.bool b)
  | nil : Operand.Lexical W .nil

/-- A command that can be written in an action. -/
inductive Command.Lexical (W : List Char → Prop) : Command → Prop
  | mk {c : Command} : c.operands ≠ [] → (∀ o ∈ c.operands, o.Lexical W) → Command.Lexical W c

/-- A pipeline that can be written in an action. -/
inductive Pipeline.Lexical (W : List Char → Prop) : Pipeline → Prop
  | mk {p : Pipeline} :
      p.commands ≠ [] → (∀ c ∈ p.commands, c.Lexical W) → p.names.length ≤ 2 →
      (∀ x ∈ p.names, VariableOf W x) → (p.names = [] → p.assigns = false) →
      Pipeline.Lexical W p

end

section Parts

variable {W : List Char → Prop}

theorem Pipeline.Lexical.commands_ne_nil {p : Pipeline} (h : p.Lexical W) : p.commands ≠ [] := by
  obtain ⟨hne, -⟩ := h
  exact hne

theorem Pipeline.Lexical.commandLexical {p : Pipeline} (h : p.Lexical W) :
    ∀ c ∈ p.commands, c.Lexical W := by
  obtain ⟨-, hcommands, -⟩ := h
  exact hcommands

theorem Pipeline.Lexical.variableOf {p : Pipeline} (h : p.Lexical W) :
    ∀ x ∈ p.names, VariableOf W x := by
  obtain ⟨-, -, -, hnames, -⟩ := h
  exact hnames

mutual

theorem Operand.Lexical.word_of_mem {o : Operand} :
    o.Lexical W → ∀ name ∈ o.identifiers, W name.toList
  | .identifier hname _ => by
    simpa [Operand.identifiers] using hname.word
  | .chain hp _ _ _ => by
    simpa only [Operand.identifiers] using hp.word_of_mem
  | .pipe hp _ => by
    simpa only [Operand.identifiers] using hp.word_of_mem
  | .dot | .field _ _ | .var _ _ | .string | .number | .bool | .nil => by
    simp [Operand.identifiers]

theorem Command.Lexical.word_of_mem {c : Command} :
    c.Lexical W → ∀ name ∈ c.identifiers, W name.toList
  | .mk _ hoperands => by
    intro name hname
    obtain ⟨o, ho, hname⟩ := Command.mem_identifiers.mp hname
    exact (hoperands o ho).word_of_mem name hname

theorem Pipeline.Lexical.word_of_mem {p : Pipeline} :
    p.Lexical W → ∀ name ∈ p.identifiers, W name.toList
  | .mk _ hcommands _ _ _ => by
    intro name hname
    obtain ⟨c, hc, hname⟩ := Pipeline.mem_identifiers.mp hname
    exact (hcommands c hc).word_of_mem name hname

end

/-- No pipeline is without commands. -/
def Filled (pipelines : List Pipeline) : Prop :=
  ∀ p ∈ pipelines, p.commands ≠ []

mutual

/-- The pipelines in parentheses can be written in an action too; they have no names on their left. -/
theorem Operand.Lexical.inner {o : Operand} :
    o.Lexical W → ∀ q ∈ o.inner, q.Lexical W ∧ q.names = []
  | .chain hp hnames _ _ => by
    rw [Operand.inner, Operand.inner, List.forall_mem_cons]
    exact ⟨⟨hp, hnames⟩, hp.inner⟩
  | .pipe hp hnames => by
    rw [Operand.inner, List.forall_mem_cons]
    exact ⟨⟨hp, hnames⟩, hp.inner⟩
  | .identifier _ _ | .dot | .field _ _ | .var _ _ | .string | .number | .bool | .nil => by
    simp [Operand.inner]

theorem Command.Lexical.inner {c : Command} :
    c.Lexical W → ∀ q ∈ c.inner, q.Lexical W ∧ q.names = []
  | .mk _ hoperands => by
    intro q hq
    obtain ⟨o, ho, hq⟩ := Command.mem_inner.mp hq
    exact (hoperands o ho).inner q hq

theorem Pipeline.Lexical.inner {p : Pipeline} :
    p.Lexical W → ∀ q ∈ p.inner, q.Lexical W ∧ q.names = []
  | .mk _ hcommands _ _ _ => by
    intro q hq
    obtain ⟨c, hc, hq⟩ := Pipeline.mem_inner.mp hq
    exact (hcommands c hc).inner q hq

end

theorem Pipeline.Lexical.filled {p : Pipeline} (h : p.Lexical W) : Filled p.tree := by
  rw [Filled, Pipeline.tree, List.forall_mem_cons]
  exact ⟨h.commands_ne_nil, fun q hq => (h.inner q hq).1.commands_ne_nil⟩

end Parts

/-! ### Clauses -/

/-- The pipelines in what an action says. -/
def Clause.pipelines : Clause → List Pipeline
  | .pipeline p | .control _ p | .elseControl _ p | .block _ p => [p]
  | .invocation _ data => data.toList
  | _ => []

/-- The words that tell clauses from pipelines. -/
def keywords : List String :=
  ["if", "else", "end", "range", "with", "define", "template", "block", "break", "continue"]

/-- The pipeline does not start with a keyword. -/
def Pipeline.Unreserved (p : Pipeline) : Prop :=
  p.names = [] → ∀ c ∈ p.commands.head?, ∀ name ∈ c.function?, name ∉ keywords

/-- A clause that can be written in an action. A pipeline that is all there is does not start with a
keyword; the keyword of a loop does not follow the keyword for otherwise; and the data of a called
template sets no variables. -/
def Clause.Lexical (W : List Char → Prop) : Clause → Prop
  | .pipeline p => p.Lexical W ∧ p.Unreserved
  | .control _ p => p.Lexical W
  | .elseControl kind p => p.Lexical W ∧ kind ≠ .range
  | .invocation _ data => ∀ p ∈ data, p.Lexical W ∧ p.names = []
  | .block _ p => p.Lexical W ∧ p.names = []
  | .otherwise | .close | .definition _ | .jump _ => True

section Clauses

variable {W : List Char → Prop} {c : Clause}

theorem Clause.Lexical.pipelines (h : c.Lexical W) : ∀ p ∈ c.pipelines, p.Lexical W := by
  intro p hp
  cases c with
  | pipeline q =>
    cases List.mem_singleton.mp hp
    exact h.1
  | control kind q =>
    cases List.mem_singleton.mp hp
    exact h
  | elseControl kind q =>
    cases List.mem_singleton.mp hp
    exact h.1
  | block name q =>
    cases List.mem_singleton.mp hp
    exact h.1
  | invocation name data => exact (h p (Option.mem_toList.mp hp)).1
  | otherwise | close | definition | jump => cases hp

theorem Clause.lexical_of_no_pipelines (h : c.pipelines = []) : c.Lexical W := by
  cases c with
  | pipeline | control | elseControl | block => cases h
  | invocation name data =>
    cases data with
    | none => simp [Clause.Lexical]
    | some p => cases h
  | otherwise | close | definition | jump => trivial

end Clauses

end BoundQuery.Template
