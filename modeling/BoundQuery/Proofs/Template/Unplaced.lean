/-
# Templates up to positions

What is left of a template when nothing is said of the places where its parts stand. The grammar does
not look at places: items that differ in them alone stand for templates that differ in them alone.

Main statement: `Derives.transfer`.
-/

import BoundQuery.Proofs.Template.Grammar

namespace BoundQuery

namespace Template

/-! ### Parts of a template -/

mutual

/-- An operand without places. -/
def Operand.unplaced : Operand → Operand
  | .chain base path => .chain base.unplaced path
  | .pipe p => .pipe p.unplaced
  | o => o

/-- Operands without places. -/
def unplacedOperands : List Operand → List Operand
  | [] => []
  | o :: rest => o.unplaced :: unplacedOperands rest

/-- A command without places. -/
def Command.unplaced : Command → Command
  | ⟨_, operands⟩ => ⟨.start, unplacedOperands operands⟩

/-- Commands without places. -/
def unplacedCommands : List Command → List Command
  | [] => []
  | c :: rest => c.unplaced :: unplacedCommands rest

/-- A pipeline without places. -/
def Pipeline.unplaced : Pipeline → Pipeline
  | ⟨_, assigns, names, commands⟩ => ⟨.start, assigns, names, unplacedCommands commands⟩

end

mutual

/-- A node without places. -/
def Node.unplaced : Node → Node
  | .text s => .text s
  | .action p => .action p.unplaced
  | .control kind _ p body otherwise =>
    .control kind .start p.unplaced (unplacedNodes body) (unplacedOtherwise otherwise)
  | .invoke _ name data => .invoke .start name (data.map Pipeline.unplaced)
  | .jump kind _ => .jump kind .start

/-- Nodes without places. -/
def unplacedNodes : List Node → List Node
  | [] => []
  | n :: rest => n.unplaced :: unplacedNodes rest

/-- The nodes after `else` without places. -/
def unplacedOtherwise : Option (List Node) → Option (List Node)
  | none => none
  | some nodes => some (unplacedNodes nodes)

end

/-- Definitions without places. -/
def unplacedDefinitions (defs : Definitions) : Definitions :=
  defs.map fun (name, nodes) => (name, unplacedNodes nodes)

end Template

/-- A template without places. -/
def Template.unplaced (t : Template) : Template :=
  ⟨Template.unplacedNodes t.root, Template.unplacedDefinitions t.definitions⟩

namespace Template

open Text (Pos)

/-- Two clauses that differ in places at most. -/
inductive Clause.Same : Clause → Clause → Prop
  | pipeline {p q : Pipeline} : p.unplaced = q.unplaced → Same (.pipeline p) (.pipeline q)
  | control {kind : Control} {p q : Pipeline} :
      p.unplaced = q.unplaced → Same (.control kind p) (.control kind q)
  | elseControl {kind : Control} {p q : Pipeline} :
      p.unplaced = q.unplaced → Same (.elseControl kind p) (.elseControl kind q)
  | otherwise : Same .otherwise .otherwise
  | close : Same .close .close
  | definition {name : String} : Same (.definition name) (.definition name)
  | invocation {name : String} {data other : Option Pipeline} :
      data.map Pipeline.unplaced = other.map Pipeline.unplaced →
      Same (.invocation name data) (.invocation name other)
  | block {name : String} {p q : Pipeline} :
      p.unplaced = q.unplaced → Same (.block name p) (.block name q)
  | jump {kind : Jump} : Same (.jump kind) (.jump kind)

/-- Two items that differ in places at most. -/
inductive Item.Same : Item → Item → Prop
  | text {s : String} : Same (.text s) (.text s)
  | action {pos pos' : Pos} {c d : Clause} : c.Same d → Same (.action ⟨pos, c⟩) (.action ⟨pos', d⟩)

/-- Sequences of items that differ in places at most. -/
abbrev SameItems : List Item → List Item → Prop :=
  List.Forall₂ Item.Same

theorem unplaced_template {nodes nodes' : List Node} {defs defs' : Definitions}
    (hnodes : unplacedNodes nodes' = unplacedNodes nodes)
    (hdefs : unplacedDefinitions defs' = unplacedDefinitions defs) :
    Template.unplaced ⟨nodes', Entries.ofList defs'⟩ =
      Template.unplaced ⟨nodes, Entries.ofList defs⟩ := by
  have hstored : ∀ entries : Definitions,
      unplacedDefinitions (Entries.ofList entries) = Entries.ofList (unplacedDefinitions entries) :=
    fun entries => Entries.map_union unplacedNodes [] entries
  rw [Template.unplaced, Template.unplaced, hstored, hstored, hnodes, hdefs]

/-! ### Texts -/

mutual

theorem texts_tree_unplaced : ∀ n : Node,
    n.unplaced.tree.filterMap Node.text? = n.tree.filterMap Node.text?
  | .control _ _ _ body otherwise => by
    rw [Node.unplaced, Node.tree, Node.tree, List.filterMap_cons_none rfl,
      List.filterMap_cons_none rfl, List.filterMap_append, List.filterMap_append,
      texts_nodesWithin_unplaced body, texts_nodesOtherwise_unplaced otherwise]
  | .text _ | .action _ | .invoke _ _ _ | .jump _ _ => rfl

theorem texts_nodesWithin_unplaced : ∀ nodes : List Node,
    (nodesWithin (unplacedNodes nodes)).filterMap Node.text? =
      (nodesWithin nodes).filterMap Node.text?
  | [] => rfl
  | n :: rest => by
    rw [unplacedNodes, nodesWithin, nodesWithin, List.filterMap_append, List.filterMap_append,
      texts_tree_unplaced n, texts_nodesWithin_unplaced rest]

theorem texts_nodesOtherwise_unplaced : ∀ otherwise : Option (List Node),
    (nodesOtherwise (unplacedOtherwise otherwise)).filterMap Node.text? =
      (nodesOtherwise otherwise).filterMap Node.text?
  | none => rfl
  | some nodes => texts_nodesWithin_unplaced nodes

end

/-- The texts of a template do not depend on places. -/
theorem texts_unplaced (t : Template) : t.unplaced.texts = t.texts := by
  have hdefinitions : ∀ defs : Definitions,
      ((unplacedDefinitions defs).flatMap fun (_, nodes) => nodesWithin nodes).filterMap Node.text? =
        (defs.flatMap fun (_, nodes) => nodesWithin nodes).filterMap Node.text? := by
    intro defs
    induction defs with
    | nil => rfl
    | cons d rest ih =>
      obtain ⟨name, nodes⟩ := d
      rw [unplacedDefinitions, List.map_cons, List.flatMap_cons, List.flatMap_cons,
        List.filterMap_append, List.filterMap_append, texts_nodesWithin_unplaced]
      exact congrArg _ ih
  unfold Template.texts Template.nodes
  rw [List.filterMap_append, List.filterMap_append]
  change (nodesWithin (unplacedNodes t.root)).filterMap Node.text? ++ _ = _
  rw [texts_nodesWithin_unplaced]
  exact congrArg _ (hdefinitions t.definitions)

/-! ### Derivations -/

theorem SameItems.split {items rest others : List Item} (h : SameItems others (items ++ rest)) :
    ∃ items' rest', others = items' ++ rest' ∧ SameItems items' items ∧ SameItems rest' rest :=
  ⟨_, _, (List.take_append_drop items.length others).symm, List.forall₂_take_append _ _ _ h,
    List.forall₂_drop_append _ _ _ h⟩

theorem Item.Same.of_action {i : Item} {pos : Pos} {c : Clause}
    (h : i.Same (.action ⟨pos, c⟩)) : ∃ pos' c', i = .action ⟨pos', c'⟩ ∧ c'.Same c := by
  cases h with
  | action hclause => exact ⟨_, _, rfl, hclause⟩

theorem SameItems.split_action {rest others : List Item} {pos : Pos} {c : Clause}
    (h : SameItems others (.action ⟨pos, c⟩ :: rest)) :
    ∃ pos' c' rest', others = .action ⟨pos', c'⟩ :: rest' ∧ c'.Same c ∧ SameItems rest' rest := by
  cases h with
  | cons hsame hrest =>
    obtain ⟨pos', c', rfl, hclause⟩ := hsame.of_action
    exact ⟨pos', c', _, rfl, hclause, hrest⟩

theorem SameItems.split_close {body others : List Item} {stop : Pos}
    (h : SameItems others (body ++ [.action ⟨stop, .close⟩])) :
    ∃ body' stop', others = body' ++ [.action ⟨stop', .close⟩] ∧ SameItems body' body := by
  obtain ⟨body', _, rfl, hbody, hlast⟩ := h.split
  obtain ⟨stop', c, rest, rfl, hclose, hnil⟩ := hlast.split_action
  cases hclose
  cases hnil
  exact ⟨body', stop', rfl, hbody⟩

theorem SameItems.split_body {body rest others : List Item} {pos stop : Pos} {c : Clause}
    (h : SameItems others (.action ⟨pos, c⟩ :: (body ++ [.action ⟨stop, .close⟩]) ++ rest)) :
    ∃ pos' c' body' stop' rest',
      others = .action ⟨pos', c'⟩ :: (body' ++ [.action ⟨stop', .close⟩]) ++ rest' ∧
      c'.Same c ∧ SameItems body' body ∧ SameItems rest' rest := by
  obtain ⟨_, rest', rfl, hstructure, hafter⟩ := h.split
  obtain ⟨pos', c', _, rfl, hclause, hinner⟩ := hstructure.split_action
  obtain ⟨body', stop', rfl, hwithin⟩ := hinner.split_close
  exact ⟨pos', c', body', stop', rest', rfl, hclause, hwithin, hafter⟩

theorem unplacedDefinitions_append (defs more : Definitions) :
    unplacedDefinitions (defs ++ more) = unplacedDefinitions defs ++ unplacedDefinitions more :=
  List.map_append

theorem unplacedDefinitions_cons (name : String) (nodes : List Node)
    (defs : Definitions) :
    unplacedDefinitions ((name, nodes) :: defs) =
      (name, unplacedNodes nodes) :: unplacedDefinitions defs :=
  List.map_cons

section Transfers

variable {top inLoop : Bool} {items rest body ending : List Item} {nodes bodyNodes : List Node}
  {defs bodyDefs endDefs : Definitions} {kind : Control} {otherwise : Option (List Node)}

/-- Items that differ from these in places alone stand for nodes and definitions that do. -/
def Transfers (top inLoop : Bool) (items : List Item) (nodes : List Node) (defs : Definitions) :
    Prop :=
  ∀ others, SameItems others items → ∃ nodes' defs', Derives top inLoop others nodes' defs' ∧
    unplacedNodes nodes' = unplacedNodes nodes ∧
    unplacedDefinitions defs' = unplacedDefinitions defs

/-- Items that differ from these in places alone end a control structure, with nodes after `else`
and definitions that do. -/
def TransfersEnd (kind : Control) (inLoop : Bool) (items : List Item)
    (otherwise : Option (List Node)) (defs : Definitions) : Prop :=
  ∀ others, SameItems others items → ∃ otherwise' defs', Ends kind inLoop others otherwise' defs' ∧
    unplacedOtherwise otherwise' = unplacedOtherwise otherwise ∧
    unplacedDefinitions defs' = unplacedDefinitions defs

theorem transfers_nil : Transfers top inLoop [] [] [] := by
  intro others h
  cases h
  exact ⟨[], [], .nil, rfl, rfl⟩

/-- An item that stands for a node. -/
theorem Transfers.cons {i : Item} {n : Node} (hrest : Transfers top inLoop rest nodes defs)
    (h : ∀ i' : Item, i'.Same i → ∃ n' : Node, n'.unplaced = n.unplaced ∧
      ∀ {rest nodes defs}, Derives top inLoop rest nodes defs →
        Derives top inLoop (i' :: rest) (n' :: nodes) defs) :
    Transfers top inLoop (i :: rest) (n :: nodes) defs := by
  intro others hothers
  cases hothers with
  | cons hsame hafter =>
    obtain ⟨n', hn, hstep⟩ := h _ hsame
    obtain ⟨nodes', defs', hderives, hnodes, hdefs⟩ := hrest _ hafter
    refine ⟨_, _, hstep hderives, ?_, hdefs⟩
    rw [unplacedNodes, unplacedNodes, hn, hnodes]

theorem Transfers.text {s : String} (hrest : Transfers top inLoop rest nodes defs) :
    Transfers top inLoop (.text s :: rest) (.text s :: nodes) defs := by
  refine hrest.cons fun i h => ?_
  cases h
  exact ⟨_, rfl, .text⟩

theorem Transfers.pipeline {pos : Pos} {p : Pipeline}
    (hrest : Transfers top inLoop rest nodes defs) :
    Transfers top inLoop (.action ⟨pos, .pipeline p⟩ :: rest) (.action p :: nodes) defs := by
  refine hrest.cons fun i h => ?_
  obtain ⟨pos', c, rfl, hclause⟩ := h.of_action
  cases hclause with
  | pipeline hp => exact ⟨.action _, congrArg Node.action hp, .pipeline⟩

theorem Transfers.invocation {pos : Pos} {name : String} {data : Option Pipeline}
    (hrest : Transfers top inLoop rest nodes defs) :
    Transfers top inLoop (.action ⟨pos, .invocation name data⟩ :: rest)
      (.invoke pos name data :: nodes) defs := by
  refine hrest.cons fun i h => ?_
  obtain ⟨pos', c, rfl, hclause⟩ := h.of_action
  cases hclause with
  | invocation hdata =>
    exact ⟨.invoke pos' name _, congrArg (Node.invoke .start name) hdata, .invocation⟩

theorem Transfers.jump {pos : Pos} {jump : Jump} (hrest : Transfers top true rest nodes defs) :
    Transfers top true (.action ⟨pos, .jump jump⟩ :: rest) (.jump jump pos :: nodes) defs := by
  refine hrest.cons fun i h => ?_
  obtain ⟨pos', c, rfl, hclause⟩ := h.of_action
  cases hclause
  exact ⟨.jump jump pos', rfl, .jump⟩

theorem Transfers.control {pos : Pos} {p : Pipeline}
    (hbody : Transfers false (inLoop || kind == .range) body bodyNodes bodyDefs)
    (hends : TransfersEnd kind inLoop ending otherwise endDefs)
    (hrest : Transfers top inLoop rest nodes defs) :
    Transfers top inLoop (.action ⟨pos, .control kind p⟩ :: (body ++ ending) ++ rest)
      (.control kind pos p bodyNodes otherwise :: nodes) (bodyDefs ++ endDefs ++ defs) := by
  intro others h
  obtain ⟨_, rest', rfl, hstructure, hafter⟩ := h.split
  obtain ⟨pos', c, _, rfl, hclause, hinner⟩ := hstructure.split_action
  obtain ⟨body', ending', rfl, hwithin, hend⟩ := hinner.split
  obtain ⟨bodyNodes', bodyDefs', hbody', hbodyNodes, hbodyDefs⟩ := hbody _ hwithin
  obtain ⟨otherwise', endDefs', hends', hotherwise, hendDefs⟩ := hends _ hend
  obtain ⟨nodes', defs', hrest', hnodes, hdefs⟩ := hrest _ hafter
  cases hclause with
  | control hp =>
    refine ⟨_, _, .control hbody' hends' hrest', ?_, ?_⟩
    · simp [unplacedNodes, Node.unplaced, hp, hbodyNodes, hotherwise, hnodes]
    · simp [unplacedDefinitions_append, hbodyDefs, hendDefs, hdefs]

theorem Transfers.definition {pos stop : Pos} {name : String}
    (hbody : Transfers false false body bodyNodes bodyDefs)
    (hrest : Transfers true inLoop rest nodes defs) :
    Transfers true inLoop
      (.action ⟨pos, .definition name⟩ :: (body ++ [.action ⟨stop, .close⟩]) ++ rest)
      nodes (bodyDefs ++ [(name, bodyNodes)] ++ defs) := by
  intro others h
  obtain ⟨pos', c, body', stop', rest', rfl, hclause, hwithin, hafter⟩ := h.split_body
  obtain ⟨bodyNodes', bodyDefs', hbody', hbodyNodes, hbodyDefs⟩ := hbody _ hwithin
  obtain ⟨nodes', defs', hrest', hnodes, hdefs⟩ := hrest _ hafter
  cases hclause
  refine ⟨_, _, .definition hbody' hrest', hnodes, ?_⟩
  simp [unplacedDefinitions_append, unplacedDefinitions_cons, hbodyNodes, hbodyDefs, hdefs]

theorem Transfers.block {pos stop : Pos} {name : String} {p : Pipeline}
    (hbody : Transfers false false body bodyNodes bodyDefs)
    (hrest : Transfers top inLoop rest nodes defs) :
    Transfers top inLoop
      (.action ⟨pos, .block name p⟩ :: (body ++ [.action ⟨stop, .close⟩]) ++ rest)
      (.invoke pos name (some p) :: nodes) (bodyDefs ++ [(name, bodyNodes)] ++ defs) := by
  intro others h
  obtain ⟨pos', c, body', stop', rest', rfl, hclause, hwithin, hafter⟩ := h.split_body
  obtain ⟨bodyNodes', bodyDefs', hbody', hbodyNodes, hbodyDefs⟩ := hbody _ hwithin
  obtain ⟨nodes', defs', hrest', hnodes, hdefs⟩ := hrest _ hafter
  cases hclause with
  | block hp =>
    refine ⟨_, _, .block hbody' hrest', ?_, ?_⟩
    · simp [unplacedNodes, Node.unplaced, hp, hnodes]
    · simp [unplacedDefinitions_append, unplacedDefinitions_cons, hbodyNodes, hbodyDefs, hdefs]

theorem transfersEnd_close {stop : Pos} :
    TransfersEnd kind inLoop [.action ⟨stop, .close⟩] none [] := by
  intro others h
  obtain ⟨stop', c, rest, rfl, hclose, hnil⟩ := h.split_action
  cases hclose
  cases hnil
  exact ⟨none, [], .close, rfl, rfl⟩

theorem transfersEnd_otherwise {turned stop : Pos}
    (hbody : Transfers false inLoop body nodes defs) :
    TransfersEnd kind inLoop
      (.action ⟨turned, .otherwise⟩ :: (body ++ [.action ⟨stop, .close⟩])) (some nodes) defs := by
  intro others h
  obtain ⟨turned', c, _, rfl, hclause, hinner⟩ := h.split_action
  obtain ⟨body', stop', rfl, hwithin⟩ := hinner.split_close
  obtain ⟨nodes', defs', hbody', hnodes, hdefs⟩ := hbody _ hwithin
  cases hclause
  exact ⟨_, _, .otherwise hbody', congrArg some hnodes, hdefs⟩

theorem transfersEnd_elseControl {turned : Pos} {p : Pipeline} (hkind : kind ≠ .range)
    (hbody : Transfers false inLoop body bodyNodes bodyDefs)
    (hends : TransfersEnd kind inLoop ending otherwise endDefs) :
    TransfersEnd kind inLoop (.action ⟨turned, .elseControl kind p⟩ :: (body ++ ending))
      (some [.control kind turned p bodyNodes otherwise]) (bodyDefs ++ endDefs) := by
  intro others h
  obtain ⟨turned', c, _, rfl, hclause, hinner⟩ := h.split_action
  obtain ⟨body', ending', rfl, hwithin, hend⟩ := hinner.split
  obtain ⟨bodyNodes', bodyDefs', hbody', hbodyNodes, hbodyDefs⟩ := hbody _ hwithin
  obtain ⟨otherwise', endDefs', hends', hotherwise, hendDefs⟩ := hends _ hend
  cases hclause with
  | elseControl hp =>
    refine ⟨_, _, .elseControl hkind hbody' hends', ?_, ?_⟩
    · simp [unplacedOtherwise, unplacedNodes, Node.unplaced, hp, hbodyNodes, hotherwise]
    · simp [unplacedDefinitions_append, hbodyDefs, hendDefs]

mutual

/-- The grammar does not look at places. -/
theorem Derives.transfer {top inLoop : Bool} {items : List Item} {nodes : List Node}
    {defs : Definitions} :
    Derives top inLoop items nodes defs → Transfers top inLoop items nodes defs
  | .nil => transfers_nil
  | .text hrest => hrest.transfer.text
  | .pipeline hrest => hrest.transfer.pipeline
  | .invocation hrest => hrest.transfer.invocation
  | .control hbody hends hrest => hbody.transfer.control hends.transfer hrest.transfer
  | .definition hbody hrest => hbody.transfer.definition hrest.transfer
  | .block hbody hrest => hbody.transfer.block hrest.transfer
  | .jump hrest => hrest.transfer.jump

theorem Ends.transfer {kind : Control} {inLoop : Bool} {items : List Item}
    {otherwise : Option (List Node)} {defs : Definitions} :
    Ends kind inLoop items otherwise defs → TransfersEnd kind inLoop items otherwise defs
  | .close => transfersEnd_close
  | .otherwise hbody => transfersEnd_otherwise hbody.transfer
  | .elseControl hkind hbody hends =>
    transfersEnd_elseControl hkind hbody.transfer hends.transfer

end

end Transfers

end Template

end BoundQuery
