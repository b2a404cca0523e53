/-
# Adjacent texts

Texts that stand next to each other are read as one. A template whose adjacent texts are merged is
written as before, it passes the same checks and says the same; and in its canonical items no text
follows a text.

Main statements: `render_merged_template`, `Checked.merged`, `separate_items`.
-/

import BoundQuery.Proofs.Template.Canonical

namespace BoundQuery

namespace Template

open Text (Pos)

/-- A node before others; a text is one with the text that these start with. -/
def joinNode : Node → List Node → List Node
  | .text s, .text s' :: rest => .text (s ++ s') :: rest
  | n, nodes => n :: nodes

mutual

/-- A node whose adjacent texts are merged. -/
def Node.merged : Node → Node
  | .control kind pos p body otherwise =>
    .control kind pos p (mergedNodes body) (mergedOtherwise otherwise)
  | n => n

/-- Nodes whose adjacent texts are merged, among them and inside of them. -/
def mergedNodes : List Node → List Node
  | [] => []
  | n :: rest => joinNode n.merged (mergedNodes rest)

/-- The nodes after `else` whose adjacent texts are merged. -/
def mergedOtherwise : Option (List Node) → Option (List Node)
  | none => none
  | some nodes => some (mergedNodes nodes)

end

/-- Definitions whose adjacent texts are merged. -/
def mergedDefinitions (defs : Definitions) : Definitions :=
  defs.map fun (name, nodes) => (name, mergedNodes nodes)

end Template

/-- A template whose adjacent texts are merged. -/
def Template.merged (t : Template) : Template :=
  ⟨Template.mergedNodes t.root, Template.mergedDefinitions t.definitions⟩

namespace Template

open Text (Pos)

/-- Only texts are merged. -/
theorem joinNode_eq (n : Node) (nodes : List Node) :
    joinNode n nodes = n :: nodes ∨
      ∃ s s' rest, n = .text s ∧ nodes = .text s' :: rest ∧
        joinNode n nodes = .text (s ++ s') :: rest := by
  unfold joinNode
  split
  · rename_i s s' rest
    exact .inr ⟨s, s', rest, rfl, rfl, rfl⟩
  · exact .inl rfl

theorem mem_mergedDefinitions {d : String × List Node} {defs : Definitions} :
    d ∈ mergedDefinitions defs ↔ ∃ nodes, (d.1, nodes) ∈ defs ∧ d.2 = mergedNodes nodes := by
  unfold mergedDefinitions
  constructor
  · intro h
    obtain ⟨⟨name, nodes⟩, hmem, rfl⟩ := List.mem_map.mp h
    exact ⟨nodes, hmem, rfl⟩
  · rintro ⟨nodes, hmem, heq⟩
    exact List.mem_map.mpr ⟨(d.1, nodes), hmem, Prod.ext rfl heq.symm⟩

/-! ### Canonical source -/

theorem renderNodes_joinNode (n : Node) (nodes : List Node) :
    renderNodes (joinNode n nodes) = n.render ++ renderNodes nodes := by
  rcases joinNode_eq n nodes with heq | ⟨s, s', rest, rfl, rfl, heq⟩
  · rw [heq, renderNodes]
  · rw [heq, renderNodes, renderNodes, Node.render, Node.render, Node.render,
      String.toList_append, List.append_assoc]

mutual

theorem render_merged : ∀ n : Node, n.merged.render = n.render
  | .control kind _ p body otherwise => by
    rw [Node.merged, Node.render, Node.render, renderNodes_merged body,
      renderOtherwise_merged otherwise]
  | .text _ | .action _ | .invoke _ _ _ | .jump _ _ => rfl

theorem renderNodes_merged : ∀ nodes : List Node, renderNodes (mergedNodes nodes) = renderNodes nodes
  | [] => rfl
  | n :: rest => by
    rw [mergedNodes, renderNodes_joinNode, render_merged n, renderNodes_merged rest, renderNodes]

theorem renderOtherwise_merged : ∀ otherwise : Option (List Node),
    renderOtherwise (mergedOtherwise otherwise) = renderOtherwise otherwise
  | none => rfl
  | some nodes => by
    rw [mergedOtherwise, renderOtherwise, renderOtherwise, renderNodes_merged nodes]

end

/-- Merging adjacent texts does not change canonical source. -/
theorem render_merged_template (t : Template) : t.merged.render = t.render := by
  have hdefinitions : (mergedDefinitions t.definitions).flatMap
        (fun (name, nodes) => renderDefinition name nodes) =
      t.definitions.flatMap fun (name, nodes) => renderDefinition name nodes := by
    unfold mergedDefinitions
    rw [List.flatMap_map]
    congr 1
    funext ⟨name, nodes⟩
    change renderDefinition name (mergedNodes nodes) = renderDefinition name nodes
    unfold renderDefinition
    rw [renderNodes_merged]
  rw [Template.render, Template.render, Template.merged, hdefinitions, renderNodes_merged]

/-! ### Checks -/

section Checks

variable {names : Names} {inLoop : Bool}

theorem checkedNodes_joinNode {n : Node} {nodes : List Node} :
    CheckedNodes names inLoop (joinNode n nodes) ↔ CheckedNodes names inLoop (n :: nodes) := by
  rcases joinNode_eq n nodes with heq | ⟨s, s', rest, rfl, rfl, heq⟩
  · rw [heq]
  · rw [heq]
    simp only [CheckedNodes, Node.Checked, Names.after, true_and]

theorem Names.afterAll_joinNode (names : Names) (n : Node) (nodes : List Node) :
    names.afterAll (joinNode n nodes) = (names.after n).afterAll nodes := by
  rcases joinNode_eq n nodes with heq | ⟨s, s', rest, rfl, rfl, heq⟩
  · rw [heq]
    rfl
  · rw [heq]
    rfl

theorem Names.after_merged (names : Names) (n : Node) : names.after n.merged = names.after n := by
  cases n <;> rfl

theorem Names.afterAll_merged (names : Names) (nodes : List Node) :
    names.afterAll (mergedNodes nodes) = names.afterAll nodes := by
  induction nodes generalizing names with
  | nil => rfl
  | cons n rest ih =>
    rw [mergedNodes, Names.afterAll_joinNode, Names.after_merged, ih]
    rfl

mutual

theorem Node.Checked.merged {names : Names} {inLoop : Bool} :
    ∀ n : Node, n.Checked names inLoop → n.merged.Checked names inLoop
  | .control _ _ p body otherwise, ⟨hcheck, hbody, hotherwise⟩ => by
    refine ⟨hcheck, checkedNodes_merged body hbody, ?_⟩
    rw [Names.afterAll_merged]
    exact checkedOtherwise_merged otherwise hotherwise
  | .text _, h | .action _, h | .invoke _ _ _, h | .jump _ _, h => h

theorem checkedNodes_merged {names : Names} {inLoop : Bool} :
    ∀ nodes : List Node, CheckedNodes names inLoop nodes →
      CheckedNodes names inLoop (mergedNodes nodes)
  | [], _ => trivial
  | n :: rest, ⟨hn, hrest⟩ => by
    rw [mergedNodes, checkedNodes_joinNode]
    refine ⟨hn.merged n, ?_⟩
    rw [Names.after_merged]
    exact checkedNodes_merged rest hrest

theorem checkedOtherwise_merged {names : Names} {inLoop : Bool} :
    ∀ otherwise : Option (List Node), CheckedOtherwise names inLoop otherwise →
      CheckedOtherwise names inLoop (mergedOtherwise otherwise)
  | none, _ => trivial
  | some nodes, h => checkedNodes_merged nodes h

end

/-- Merging adjacent texts keeps that a template was checked. -/
theorem Checked.merged {isFunction : String → Bool} {t : Template} (h : t.Checked isFunction) :
    t.merged.Checked isFunction := by
  constructor
  · exact checkedNodes_merged t.root h.root
  · intro d hd
    obtain ⟨nodes, hmem, heq⟩ := mem_mergedDefinitions.mp hd
    rw [heq]
    exact checkedNodes_merged nodes (h.definitions _ hmem)

end Checks

/-! ### What nodes say -/

section Says

variable {T : String → Prop} {Q : Clause → Prop}

theorem hold_joinNode (happend : ∀ s s', T s → T s' → T (s ++ s')) {n : Node} {nodes : List Node}
    (h : Hold T Q (n :: nodes)) : Hold T Q (joinNode n nodes) := by
  rcases joinNode_eq n nodes with heq | ⟨s, s', rest, rfl, rfl, heq⟩
  · rwa [heq]
  · rw [heq, hold_cons]
    obtain ⟨hfirst, hnodes⟩ := hold_cons.mp h
    obtain ⟨hsecond, hrest⟩ := hold_cons.mp hnodes
    refine ⟨?_, hrest⟩
    intro m hm
    cases List.mem_singleton.mp hm
    exact happend s s' (hfirst _ (mem_tree_self _)) (hsecond _ (mem_tree_self _))

mutual

theorem says_merged (happend : ∀ s s', T s → T s' → T (s ++ s')) : ∀ n : Node,
    (∀ m ∈ n.tree, m.Says T Q) → ∀ m ∈ n.merged.tree, m.Says T Q
  | .control kind pos p body otherwise, h => by
    rw [Node.tree, List.forall_mem_cons, List.forall_mem_append] at h
    rw [Node.merged, Node.tree, List.forall_mem_cons, List.forall_mem_append]
    exact ⟨h.1, hold_merged happend body h.2.1, says_mergedOtherwise happend otherwise h.2.2⟩
  | .text _, h | .action _, h | .invoke _ _ _, h | .jump _ _, h => h

/-- Merging adjacent texts keeps what is said of all texts, if it is kept when texts are joined, and
what is said of all other nodes. -/
theorem hold_merged (happend : ∀ s s', T s → T s' → T (s ++ s')) : ∀ nodes : List Node,
    Hold T Q nodes → Hold T Q (mergedNodes nodes)
  | [], _ => hold_nil
  | n :: rest, h => by
    obtain ⟨hn, hrest⟩ := hold_cons.mp h
    rw [mergedNodes]
    apply hold_joinNode happend
    rw [hold_cons]
    exact ⟨says_merged happend n hn, hold_merged happend rest hrest⟩

theorem says_mergedOtherwise (happend : ∀ s s', T s → T s' → T (s ++ s')) :
    ∀ otherwise : Option (List Node), (∀ m ∈ nodesOtherwise otherwise, m.Says T Q) →
      ∀ m ∈ nodesOtherwise (mergedOtherwise otherwise), m.Says T Q
  | none, _ => by simp [mergedOtherwise, nodesOtherwise]
  | some nodes, h => hold_merged happend nodes h

end

/-- What is said of all nodes of a template is said of them when its adjacent texts are merged. -/
theorem says_merged_template (happend : ∀ s s', T s → T s' → T (s ++ s')) {t : Template}
    (h : ∀ n ∈ t.nodes, n.Says T Q) : ∀ n ∈ t.merged.nodes, n.Says T Q := by
  intro n hn
  rcases List.mem_append.mp hn with hn | hn
  · exact hold_merged happend t.root (fun m hm => h m (mem_nodes_of_root hm)) n hn
  · obtain ⟨d, hd, hn⟩ := List.mem_flatMap.mp hn
    obtain ⟨nodes, hmem, hd⟩ := mem_mergedDefinitions.mp hd
    have hnodes : Hold T Q nodes := fun m hm => h m (mem_nodes_of_definition hmem hm)
    have hmerged := hold_merged happend nodes hnodes n
    rw [← hd] at hmerged
    exact hmerged hn

end Says

/-! ### Texts between actions -/

/-- No text follows a text; nor is there one at the front if the flag says that one stands before. -/
def Separate : Bool → List Item → Prop
  | _, [] => True
  | before, .text _ :: rest => before = false ∧ Separate true rest
  | _, .action _ :: rest => Separate false rest

section Separate

variable {items rest : List Item}

theorem Separate.after_action {before : Bool} (h : Separate before items) :
    Separate false items := by
  cases items with
  | nil => trivial
  | cons i rest =>
    cases i with
    | text s => exact ⟨rfl, h.2⟩
    | action a => exact h

theorem eq_text_of_text? {n : Node} {s : String} (h : n.text? = some s) : n = .text s := by
  cases n <;> cases h
  rfl

theorem text?_merged (n : Node) : n.merged.text? = n.text? := by
  cases n <;> rfl

theorem exists_items_of_not_text {n : Node} (h : n.text? = none) :
    ∃ a more, n.items = .action a :: more := by
  cases n with
  | text => cases h
  | action | control | invoke | jump => exact ⟨_, _, rfl⟩

/-- Before items that may follow a text, a node that was joined to others. -/
theorem separate_joinNode {n : Node} {nodes : List Node} (hrest : Separate true rest)
    (hn : ∀ more, n.text? = none → Separate false more → Separate false (n.items ++ more))
    (hnodes : Separate false (itemsOf nodes ++ rest)) :
    Separate false (itemsOf (joinNode n nodes) ++ rest) := by
  cases htext : n.text? with
  | none =>
    have hjoin : joinNode n nodes = n :: nodes := by
      rcases joinNode_eq n nodes with heq | ⟨s, s', more, rfl, -, -⟩
      · exact heq
      · cases htext
    rw [hjoin, itemsOf, List.append_assoc]
    exact hn _ htext hnodes
  | some s =>
    obtain rfl := eq_text_of_text? htext
    cases nodes with
    | nil => exact ⟨rfl, hrest⟩
    | cons m nodes =>
      cases hfirst : m.text? with
      | none =>
        obtain ⟨a, more, hitems⟩ := exists_items_of_not_text hfirst
        have hjoin : joinNode (.text s) (m :: nodes) = .text s :: m :: nodes := by
          cases m <;> first | rfl | cases hfirst
        rw [itemsOf, hitems] at hnodes
        rw [hjoin, itemsOf, itemsOf, hitems]
        exact ⟨rfl, hnodes⟩
      | some s' =>
        obtain rfl := eq_text_of_text? hfirst
        exact ⟨rfl, hnodes.2⟩

mutual

theorem separate_merged : ∀ (n : Node) (more : List Item), n.text? = none → Separate false more →
    Separate false (n.merged.items ++ more)
  | .control kind pos p body otherwise, more, _, hmore => by
    rw [Node.merged, Node.items, List.cons_append, List.append_assoc]
    exact separate_mergedNodes body _ (separate_mergedEnd pos otherwise more hmore)
  | .action _, _, _, hmore | .invoke _ _ _, _, _, hmore | .jump _ _, _, _, hmore => hmore

theorem separate_mergedNodes : ∀ (nodes : List Node) (rest : List Item), Separate true rest →
    Separate false (itemsOf (mergedNodes nodes) ++ rest)
  | [], _, hrest => hrest.after_action
  | n :: nodes, rest, hrest => by
    rw [mergedNodes]
    apply separate_joinNode hrest
    · intro more htext hmore
      rw [text?_merged] at htext
      exact separate_merged n more htext hmore
    · exact separate_mergedNodes nodes rest hrest

theorem separate_mergedEnd (pos : Text.Pos) : ∀ (otherwise : Option (List Node)) (more : List Item),
    Separate false more → Separate true (endItems pos (mergedOtherwise otherwise) ++ more)
  | none, _, hmore => hmore
  | some nodes, more, hmore => by
    rw [mergedOtherwise, endItems, List.cons_append, List.append_assoc]
    exact separate_mergedNodes nodes _ hmore

end

/-- In the canonical items of a template whose adjacent texts are merged no text follows a text. -/
theorem separate_items (t : Template) : Separate false t.merged.items := by
  have hroot : Separate false (itemsOf (mergedNodes t.root) ++ []) :=
    separate_mergedNodes t.root [] trivial
  rw [List.append_nil] at hroot
  have hdefinitions : ∀ defs : Definitions,
      Separate false ((mergedDefinitions defs).flatMap definitionItems ++
        itemsOf (mergedNodes t.root)) := by
    intro defs
    induction defs with
    | nil => exact hroot
    | cons d defs ih =>
      unfold mergedDefinitions at ih ⊢
      rw [List.map_cons, List.flatMap_cons, List.append_assoc, definitionItems, List.cons_append,
        List.append_assoc]
      exact separate_mergedNodes d.2 _ ih
  exact hdefinitions t.definitions

end Separate

end Template

end BoundQuery
