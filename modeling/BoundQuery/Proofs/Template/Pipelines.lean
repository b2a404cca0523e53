/-
# What the nodes of a parsed template say

All nodes of a parsed template but its texts were read from the bodies of actions of its source. What
is shown of these holds of the template: no pipeline is empty, and the functions that it names stand
in the source.

Main statements: `holds_parse`, `lexical_parse`, `filled_of_parse`, `infix_of_mem_identifiers`.
-/

import BoundQuery.Proofs.Template.Assembling

namespace BoundQuery.Template

open Text (Pos)

/-! ### What nodes say -/

/-- What a clause says where each structure has a closing keyword of its own, and where templates are
defined apart from their calls. -/
def Clause.canonical : Clause → Clause
  | .elseControl kind p => .control kind p
  | .block name data => .invocation name (some data)
  | c => c

/-- The text of the node satisfies `T`, and its clause satisfies `Q`. -/
def Node.Says (T : String → Prop) (Q : Clause → Prop) : Node → Prop
  | .text s => T s
  | .action p => Q (.pipeline p)
  | .control kind _ p _ _ => Q (.control kind p)
  | .invoke _ name data => Q (.invocation name data)
  | .jump kind _ => Q (.jump kind)

theorem Clause.pipelines_canonical (c : Clause) : c.canonical.pipelines = c.pipelines := by
  cases c <;> rfl

theorem Node.Says.pipeline {T : String → Prop} {Q : Clause → Prop} {R : Pipeline → Prop}
    (hQ : ∀ c, Q c → ∀ p ∈ c.pipelines, R p) {n : Node} (h : n.Says T Q) : ∀ p ∈ n.pipelines, R p := by
  cases n with
  | text => simp [Node.pipelines]
  | action | control | invoke | jump => exact hQ _ h

/-! ### Templates that are being assembled -/

/-- All texts satisfy `T`, and what all other nodes say satisfies `Q`. -/
def Hold (T : String → Prop) (Q : Clause → Prop) (nodes : List Node) : Prop :=
  ∀ n ∈ nodesWithin nodes, n.Says T Q

section Assembling

variable {T : String → Prop} {Q : Clause → Prop}

theorem hold_nil : Hold T Q [] := by
  simp [Hold, nodesWithin]

theorem hold_cons {n : Node} {nodes : List Node} :
    Hold T Q (n :: nodes) ↔ (∀ m ∈ n.tree, m.Says T Q) ∧ Hold T Q nodes := by
  rw [Hold, Hold, nodesWithin, List.forall_mem_append]

theorem hold_reverse {nodes : List Node} : Hold T Q nodes.reverse ↔ Hold T Q nodes := by
  simp only [Hold, mem_nodesWithin, List.mem_reverse]

/-- What an open structure says satisfies `T` and `Q`. -/
def Frame.Holds (T : String → Prop) (Q : Clause → Prop) : Frame → Prop
  | .control kind _ p body _ outer =>
    Q (.control kind p) ∧ (∀ nodes ∈ body, Hold T Q nodes) ∧ Hold T Q outer.nodes
  | .definition name call outer =>
    (∀ c ∈ call, Q (.invocation name (some c.2))) ∧ Hold T Q outer.nodes

/-- What is collected so far satisfies `T` and `Q`. -/
structure Assembly.Holds (T : String → Prop) (Q : Clause → Prop) (a : Assembly) : Prop where
  nodes : Hold T Q a.nodes
  frames : ∀ f ∈ a.frames, f.Holds T Q
  definitions : ∀ d ∈ a.definitions, Hold T Q d.2

namespace Assembly

theorem holds_empty : empty.Holds T Q :=
  ⟨hold_nil, by simp [empty], by simp [empty]⟩

theorem Holds.push {a : Assembly} (h : a.Holds T Q) {n : Node} (hn : ∀ m ∈ n.tree, m.Says T Q) :
    (a.push n).Holds T Q :=
  ⟨hold_cons.mpr ⟨hn, h.nodes⟩, h.frames, h.definitions⟩

theorem Holds.openControl {isFunction : String → Bool} {a b : Assembly} {kind : Control} {pos : Pos}
    {p : Pipeline} {chained : Bool} (h : a.Holds T Q) (hp : Q (.control kind p))
    (hopen : a.openControl isFunction kind pos p chained = .ok b) : b.Holds T Q := by
  obtain ⟨-, rfl⟩ := openControl_eq_ok hopen
  refine ⟨hold_nil, ?_, h.definitions⟩
  intro f hf
  rcases List.mem_cons.mp hf with rfl | hf
  · exact ⟨hp, by simp, h.nodes⟩
  · exact h.frames f hf

theorem Holds.openDefinition {a : Assembly} {name : String} {call : Option (Pos × Pipeline)}
    (h : a.Holds T Q) (hcall : ∀ c ∈ call, Q (.invocation name (some c.2))) :
    (a.openDefinition name call).Holds T Q := by
  refine ⟨hold_nil, ?_, h.definitions⟩
  intro f hf
  rcases List.mem_cons.mp hf with rfl | hf
  · exact ⟨hcall, h.nodes⟩
  · exact h.frames f hf

theorem Holds.endBody {a b : Assembly} {kind : Control} (h : a.Holds T Q)
    (hend : a.endBody = .ok (kind, b)) : b.Holds T Q := by
  obtain ⟨pos, p, chained, outer, frames, hframes, rfl⟩ := endBody_eq_ok hend
  have hall := h.frames
  rw [hframes] at hall
  obtain ⟨hp, -, houter⟩ := hall _ (List.mem_cons_self ..)
  refine ⟨hold_nil, ?_, h.definitions⟩
  intro f hf
  rcases List.mem_cons.mp hf with rfl | hf
  · exact ⟨hp, by simpa using hold_reverse.mpr h.nodes, houter⟩
  · exact hall f (List.mem_cons_of_mem _ hf)

/-- What a control structure says that is closed. -/
theorem holds_controlNode {kind : Control} {pos : Pos} {p : Pipeline} {body : Option (List Node)}
    {last : List Node} (hp : Q (.control kind p)) (hbody : ∀ nodes ∈ body, Hold T Q nodes)
    (hlast : Hold T Q last) : ∀ m ∈ (controlNode kind pos p body last).tree, m.Says T Q := by
  cases body with
  | none =>
    rw [controlNode, Node.tree, nodesOtherwise, List.append_nil, List.forall_mem_cons]
    exact ⟨hp, hlast⟩
  | some body =>
    rw [controlNode, Node.tree, nodesOtherwise, List.forall_mem_cons, List.forall_mem_append]
    exact ⟨hp, hbody body rfl, hlast⟩

theorem holds_closeControls {nodes : List Node} {frames rest : List Frame} {outer : Outer}
    (hnodes : Hold T Q nodes) (hframes : ∀ f ∈ frames, f.Holds T Q)
    (hclose : closeControls nodes frames = some (outer, rest)) :
    Hold T Q outer.nodes ∧ ∀ f ∈ rest, f.Holds T Q := by
  induction frames generalizing nodes with
  | nil => cases hclose
  | cons f frames ih =>
    cases f with
    | definition name call o => cases hclose
    | control kind pos p body chained o =>
      obtain ⟨hp, hbody, houter⟩ := hframes _ (List.mem_cons_self ..)
      have hrest : ∀ f ∈ frames, f.Holds T Q := fun f hf => hframes f (List.mem_cons_of_mem _ hf)
      have hclosed : Hold T Q (controlNode kind pos p body nodes.reverse :: o.nodes) :=
        hold_cons.mpr ⟨holds_controlNode hp hbody (hold_reverse.mpr hnodes), houter⟩
      rw [closeControls] at hclose
      -- A chained structure closes together with the one around it.
      split at hclose
      · exact ih hclosed hrest hclose
      · cases hclose
        exact ⟨hclosed, hrest⟩

theorem Holds.close {a b : Assembly} (h : a.Holds T Q) (hclose : a.close = some b) : b.Holds T Q := by
  rcases close_eq_some hclose with
    ⟨name, call, outer, frames, hframes, rfl⟩ | ⟨outer, frames, hcontrols, rfl⟩
  · have hall := h.frames
    rw [hframes] at hall
    obtain ⟨hcall, houter⟩ := hall _ (List.mem_cons_self ..)
    refine ⟨?_, fun f hf => hall f (List.mem_cons_of_mem _ hf), ?_⟩
    · cases call with
      | none => exact houter
      | some c =>
        refine hold_cons.mpr ⟨?_, houter⟩
        simpa [Node.tree, Node.Says] using hcall
    · intro d hd
      rcases Entries.mem_insert hd with rfl | hd
      · exact hold_reverse.mpr h.nodes
      · exact h.definitions d hd
  · obtain ⟨hnodes, hframes⟩ := holds_closeControls h.nodes h.frames hcontrols
    exact ⟨hnodes, hframes, h.definitions⟩

theorem Holds.step {isFunction : String → Bool} {a b : Assembly} {pos : Pos} {clause : Clause}
    (h : a.Holds T Q) (hclause : Q clause.canonical)
    (hstep : a.Stepped isFunction pos clause b) : b.Holds T Q := by
  cases hstep with
  | pipeline =>
    rename_i p hcheck
    have hdeclared : (a.declare p).Holds T Q := ⟨h.nodes, h.frames, h.definitions⟩
    exact hdeclared.push (by simpa [Node.tree, Node.Says, Clause.canonical] using hclause)
  | control hopen => exact h.openControl hclause hopen
  | otherwise hend => exact h.endBody hend
  | elseControl hend hopen => exact (h.endBody hend).openControl hclause hopen
  | close hclose => exact h.close hclose
  | definition => exact h.openDefinition (by simp)
  | invocation => exact h.push (by simpa [Node.tree, Node.Says, Clause.canonical] using hclause)
  | block => exact h.openDefinition (by simpa [Clause.canonical] using hclause)
  | jump => exact h.push (by simpa [Node.tree, Node.Says, Clause.canonical] using hclause)

end Assembly

end Assembling

/-! ### Parsed templates -/

section Parsed

variable {isFunction : String → Bool} {source : List Char} {t : Template}

section Holds

variable {T : String → Prop} {Q : Clause → Prop}
  (htext : ∀ chars, IsText source chars → T (String.ofList chars))
  (hread : ∀ body, IsBody source body → ∀ locate action, readAction locate body = .ok action →
    Q action.clause.canonical)
include htext hread

theorem Assembled.holds {a : Assembly} (h : Assembled isFunction source a) : a.Holds T Q := by
  induction h with
  | empty => exact Assembly.holds_empty
  | text _ hchars ih => exact ih.push (by simpa [Node.tree, Node.Says] using htext _ hchars)
  | action _ hbody haction hstep ih => exact ih.step (hread _ hbody _ _ haction) hstep

/-- What holds of all texts of the source, and of all that is read of its actions, holds of all nodes
of the template. -/
theorem holds_parse (h : parse isFunction source = .ok t) : ∀ n ∈ t.nodes, n.Says T Q := by
  obtain ⟨a, hassembled, -, rfl⟩ := exists_assembled_of_parse h
  have ha := hassembled.holds htext hread
  intro n hn
  rcases List.mem_append.mp hn with hn | hn
  · exact hold_reverse.mpr ha.nodes n hn
  · obtain ⟨d, hd, hn⟩ := List.mem_flatMap.mp hn
    exact ha.definitions d hd n hn

end Holds

/-- What is read of the actions of a source stands in the source. -/
theorem lexical_parse (h : parse isFunction source = .ok t) :
    ∀ n ∈ t.nodes, ∀ p ∈ n.pipelines, p.Lexical (· <:+: source) := by
  have hnodes : ∀ n ∈ t.nodes,
      n.Says (fun _ => True) fun c => ∀ p ∈ c.pipelines, p.Lexical (· <:+: source) := by
    refine holds_parse (fun _ _ => trivial) (fun body hbody locate action haction => ?_) h
    rw [Clause.pipelines_canonical]
    exact (lexical_readAction (r := .within source) hbody.isInfix haction).2.pipelines
  exact fun n hn => (hnodes n hn).pipeline fun _ hc => hc

/-- No pipeline of a parsed template is empty, and none inside another. -/
theorem filled_of_parse (h : parse isFunction source = .ok t) :
    ∀ n ∈ t.nodes, ∀ p ∈ n.pipelines, Filled p.tree :=
  fun n hn p hp => (lexical_parse h n hn p hp).filled

theorem commands_ne_nil_of_parse (h : parse isFunction source = .ok t) :
    ∀ n ∈ t.nodes, ∀ p ∈ n.pipelines, p.commands ≠ [] :=
  fun n hn p hp => (lexical_parse h n hn p hp).commands_ne_nil

/-- The functions that a parsed template names stand in its source. -/
theorem infix_of_mem_identifiers (h : parse isFunction source = .ok t) {name : String}
    (hname : name ∈ t.identifiers) : name.toList <:+: source := by
  obtain ⟨n, hn, hname⟩ := List.mem_flatMap.mp hname
  obtain ⟨p, hp, hname⟩ := List.mem_flatMap.mp hname
  exact (lexical_parse h n hn p hp).word_of_mem name hname

end Parsed

end BoundQuery.Template
