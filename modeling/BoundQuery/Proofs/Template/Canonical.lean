/-
# Canonical items

The canonical source of a template is a sequence of items: its texts, and its actions one after the
other, with a closing keyword for each structure. Where the nodes pass their checks these items are
well nested, and the grammar derives the nodes from them again.

Main statements: `Template.render_eq`, `says_templateItems`, `Checked.derives`.
-/

import BoundQuery.Proofs.Template.Grammar
import BoundQuery.Proofs.Template.Scopes

namespace BoundQuery

namespace Template

open Text (Pos)

/-! ### Items of nodes -/

mutual

/-- The items that a node is written with in canonical source. -/
def Node.items : Node → List Item
  | .text s => [.text s]
  | .action p => [.action ⟨p.pos, .pipeline p⟩]
  | .control kind pos p body otherwise =>
    .action ⟨pos, .control kind p⟩ :: (itemsOf body ++ endItems pos otherwise)
  | .invoke pos name data => [.action ⟨pos, .invocation name data⟩]
  | .jump kind pos => [.action ⟨pos, .jump kind⟩]

/-- The items of nodes, one after the other. -/
def itemsOf : List Node → List Item
  | [] => []
  | n :: rest => n.items ++ itemsOf rest

/-- The items that end a control structure, with the nodes after `else`. -/
def endItems (pos : Pos) : Option (List Node) → List Item
  | none => [.action ⟨pos, .close⟩]
  | some nodes => .action ⟨pos, .otherwise⟩ :: (itemsOf nodes ++ [.action ⟨pos, .close⟩])

end

/-- The items of a definition. -/
def definitionItems (d : String × List Node) : List Item :=
  .action ⟨.start, .definition d.1⟩ :: (itemsOf d.2 ++ [.action ⟨.start, .close⟩])

end Template

open Template in
/-- The items of a template in canonical source: the definitions come first. -/
def Template.items (t : Template) : List Item :=
  t.definitions.flatMap definitionItems ++ itemsOf t.root

namespace Template

open Text (Pos)

/-! ### What items say -/

/-- The text of the item satisfies `T`, and what its action says satisfies `Q`. -/
def Item.Says (T : String → Prop) (Q : Clause → Prop) : Item → Prop
  | .text s => T s
  | .action a => Q a.clause

/-- What is said of clauses holds of `else` and `end`, which are written where lists of nodes end and
are no nodes themselves. -/
structure HoldsOfWords (Q : Clause → Prop) : Prop where
  otherwise : Q .otherwise
  close : Q .close

section Says

variable {T : String → Prop} {Q : Clause → Prop}

mutual

theorem says_items (hwords : HoldsOfWords Q) : ∀ n : Node, (∀ m ∈ n.tree, m.Says T Q) →
    ∀ i ∈ n.items, i.Says T Q
  | .control _ pos _ body otherwise, h => by
    rw [Node.tree, List.forall_mem_cons, List.forall_mem_append] at h
    rw [Node.items, List.forall_mem_cons, List.forall_mem_append]
    exact ⟨h.1, says_itemsOf hwords body h.2.1, says_endItems hwords pos otherwise h.2.2⟩
  | .text _, h | .action _, h | .invoke _ _ _, h | .jump _ _, h => by
    intro i hi
    cases List.mem_singleton.mp hi
    exact h _ (mem_tree_self _)

theorem says_itemsOf (hwords : HoldsOfWords Q) : ∀ nodes : List Node, Hold T Q nodes →
    ∀ i ∈ itemsOf nodes, i.Says T Q
  | [], _ => by simp [itemsOf]
  | n :: rest, h => by
    obtain ⟨hn, hrest⟩ := hold_cons.mp h
    rw [itemsOf, List.forall_mem_append]
    exact ⟨says_items hwords n hn, says_itemsOf hwords rest hrest⟩

theorem says_endItems (hwords : HoldsOfWords Q) (pos : Text.Pos) :
    ∀ otherwise : Option (List Node), (∀ m ∈ nodesOtherwise otherwise, m.Says T Q) →
      ∀ i ∈ endItems pos otherwise, i.Says T Q
  | none, _ => by
    rw [endItems, List.forall_mem_singleton]
    exact hwords.close
  | some nodes, h => by
    rw [endItems, List.forall_mem_cons, List.forall_mem_append, List.forall_mem_singleton]
    exact ⟨hwords.otherwise, says_itemsOf hwords nodes h, hwords.close⟩

end

/-- The items of a template say what its nodes say, and name its definitions. -/
theorem says_templateItems (hwords : HoldsOfWords Q) {t : Template}
    (hdefinition : ∀ d ∈ t.definitions, Q (.definition d.1)) (h : ∀ n ∈ t.nodes, n.Says T Q) :
    ∀ i ∈ t.items, i.Says T Q := by
  rw [Template.items, List.forall_mem_append]
  constructor
  · intro i hi
    obtain ⟨d, hd, hi⟩ := List.mem_flatMap.mp hi
    have hbody : Hold T Q d.2 := fun n hn => h n (mem_nodes_of_definition hd hn)
    have hitems : ∀ i ∈ definitionItems d, i.Says T Q := by
      rw [definitionItems, List.forall_mem_cons, List.forall_mem_append, List.forall_mem_singleton]
      exact ⟨hdefinition d hd, says_itemsOf hwords d.2 hbody, hwords.close⟩
    exact hitems i hi
  · exact says_itemsOf hwords t.root fun n hn => h n (mem_nodes_of_root hn)

end Says

/-! ### Sources of items -/

/-- The words that an action starts with which says this. -/
def Clause.head : Clause → String
  | .pipeline _ => ""
  | .control kind _ => kind.keyword ++ " "
  | .elseControl kind _ => "else " ++ (kind.keyword ++ " ")
  | .otherwise => "else"
  | .close => "end"
  | .definition _ => "define "
  | .invocation _ _ => "template "
  | .block _ _ => "block "
  | .jump kind => kind.keyword

/-- What stands after these words: the name of a template, and a pipeline. -/
def Clause.details : Clause → List Char
  | .pipeline p | .control _ p | .elseControl _ p => p.render
  | .otherwise | .close | .jump _ => []
  | .definition name | .invocation name none => Text.Quoted.spell name.toList
  | .invocation name (some p) | .block name p => Text.Quoted.spell name.toList ++ ' ' :: p.render

/-- The canonical body of an action that says this. -/
def Clause.render (c : Clause) : List Char :=
  c.head.toList ++ c.details

/-- The canonical source of an item. -/
def Item.render : Item → List Char
  | .text s => s.toList
  | .action a => tag a.clause.render

/-- The canonical source of items, one after the other. -/
def renderItems (items : List Item) : List Char :=
  items.flatMap Item.render

theorem renderItems_cons (i : Item) (items : List Item) :
    renderItems (i :: items) = i.render ++ renderItems items :=
  List.flatMap_cons

theorem renderItems_append (items others : List Item) :
    renderItems (items ++ others) = renderItems items ++ renderItems others :=
  List.flatMap_append

theorem render_control (kind : Control) (p : Pipeline) :
    Clause.render (.control kind p) = kind.keyword.toList ++ ' ' :: p.render := by
  rw [Clause.render, Clause.head, Clause.details, String.toList_append, List.append_assoc]
  rfl

theorem render_elseControl (kind : Control) (p : Pipeline) :
    Clause.render (.elseControl kind p) =
      "else".toList ++ ' ' :: (kind.keyword.toList ++ ' ' :: p.render) := by
  simp [Clause.render, Clause.head, Clause.details]

theorem render_definition (name : String) :
    Clause.render (.definition name) = "define".toList ++ ' ' :: Text.Quoted.spell name.toList := by
  simp [Clause.render, Clause.head, Clause.details]

/-- The source of the data of a called template. -/
def dataSource : Option Pipeline → List Char
  | none => []
  | some p => ' ' :: p.render

theorem render_invocation (name : String) (data : Option Pipeline) :
    Clause.render (.invocation name data) =
      "template".toList ++ ' ' :: (Text.Quoted.spell name.toList ++ dataSource data) := by
  cases data <;> simp [Clause.render, Clause.head, Clause.details, dataSource]

theorem render_block (name : String) (p : Pipeline) :
    Clause.render (.block name p) =
      "block".toList ++ ' ' :: (Text.Quoted.spell name.toList ++ ' ' :: p.render) := by
  simp [Clause.render, Clause.head, Clause.details]

theorem render_word {c : Clause} (h : c.details = []) : c.render = c.head.toList := by
  rw [Clause.render, h, List.append_nil]

theorem renderItems_singleton (i : Item) : renderItems [i] = i.render := by
  rw [renderItems, List.flatMap_singleton]

mutual

theorem render_items : ∀ n : Node, renderItems n.items = n.render
  | .text s => by rw [Node.items, renderItems_singleton, Item.render, Node.render]
  | .action p => by
    rw [Node.items, renderItems_singleton, Item.render, Node.render]
    rfl
  | .control kind pos p body otherwise => by
    rw [Node.items, renderItems_cons, renderItems_append, render_itemsOf body,
      render_endItems pos otherwise, Item.render, render_control, Node.render, List.append_assoc,
      List.append_assoc]
  | .invoke _ name none => by
    rw [Node.items, renderItems_singleton, Item.render, Node.render]
    rfl
  | .invoke _ name (some p) => by
    rw [Node.items, renderItems_singleton, Item.render, Node.render, List.append_assoc]
    rfl
  | .jump kind _ => by
    rw [Node.items, renderItems_singleton, Item.render, Node.render, render_word rfl]
    rfl

theorem render_itemsOf : ∀ nodes : List Node, renderItems (itemsOf nodes) = renderNodes nodes
  | [] => rfl
  | n :: rest => by
    rw [itemsOf, renderItems_append, render_items n, render_itemsOf rest, renderNodes]

theorem render_endItems (pos : Text.Pos) : ∀ otherwise : Option (List Node),
    renderItems (endItems pos otherwise) = renderOtherwise otherwise ++ tag "end".toList
  | none => by
    rw [endItems, renderItems_singleton, Item.render, renderOtherwise, List.nil_append,
      render_word rfl]
    rfl
  | some nodes => by
    rw [endItems, renderItems_cons, renderItems_append, render_itemsOf nodes,
      renderItems_singleton, Item.render, Item.render, renderOtherwise, List.append_assoc,
      render_word rfl, render_word rfl]
    rfl

end

theorem render_definitionItems (d : String × List Node) :
    renderItems (definitionItems d) = renderDefinition d.1 d.2 := by
  rw [definitionItems, renderItems_cons, renderItems_append, render_itemsOf, renderItems_singleton,
    Item.render, Item.render, renderDefinition, List.append_assoc]
  rfl

end Template

open Template in
/-- The canonical source of a template is that of its items. -/
theorem Template.render_eq (t : Template) : t.render = renderItems t.items := by
  have hdefinitions : renderItems (t.definitions.flatMap definitionItems) =
      t.definitions.flatMap fun d => renderDefinition d.1 d.2 := by
    induction t.definitions with
    | nil => rfl
    | cons d rest ih =>
      rw [List.flatMap_cons, List.flatMap_cons, renderItems_append, render_definitionItems, ih]
  rw [Template.items, renderItems_append, hdefinitions, render_itemsOf]
  rfl

namespace Template

/-! ### Derivations -/

mutual

theorem Node.derives_items {top inLoop : Bool} {names : Names} {rest : List Item}
    {nodes : List Node} : ∀ n : Node, n.Checked names inLoop → Derives top inLoop rest nodes [] →
      Derives top inLoop (n.items ++ rest) (n :: nodes) []
  | .text _, _, hrest => .text hrest
  | .action _, _, hrest => .pipeline hrest
  | .control kind pos p body otherwise, ⟨_, hbody, hotherwise⟩, hrest =>
    .control (Template.derives_items body hbody) (ends_items pos otherwise hotherwise) hrest
  | .invoke _ _ _, _, hrest => .invocation hrest
  | .jump _ _, hloop, hrest => by
    cases hloop
    exact .jump hrest

/-- Nodes that pass their checks are derived from their items. -/
theorem derives_items {top : Bool} {names : Names} {inLoop : Bool} :
    ∀ nodes : List Node, CheckedNodes names inLoop nodes →
      Derives top inLoop (itemsOf nodes) nodes []
  | [], _ => .nil
  | n :: rest, ⟨hn, hrest⟩ => n.derives_items hn (derives_items rest hrest)

theorem ends_items {names : Names} {inLoop : Bool} {kind : Control} (pos : Text.Pos) :
    ∀ otherwise : Option (List Node), CheckedOtherwise names inLoop otherwise →
      Ends kind inLoop (endItems pos otherwise) otherwise []
  | none, _ => .close
  | some nodes, h => .otherwise (derives_items nodes h)

end

theorem derives_definitions {isFunction : String → Bool} {items : List Item} {nodes : List Node}
    (defs : Definitions) (h : ∀ d ∈ defs, CheckedNodes ⟨isFunction, ["$"]⟩ false d.2)
    (hitems : Derives true false items nodes []) :
    Derives true false (defs.flatMap definitionItems ++ items) nodes defs := by
  induction defs with
  | nil => exact hitems
  | cons d rest ih =>
    rw [List.forall_mem_cons] at h
    rw [List.flatMap_cons, List.append_assoc]
    exact .definition (derives_items d.2 h.1) (ih h.2)

/-- A template that passes its checks is derived from its items. -/
theorem Checked.derives {isFunction : String → Bool} {t : Template} (h : t.Checked isFunction) :
    Derives true false t.items t.root t.definitions :=
  derives_definitions t.definitions h.definitions (derives_items t.root h.root)

end Template

end BoundQuery
