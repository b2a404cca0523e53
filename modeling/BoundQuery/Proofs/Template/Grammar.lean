/-
# The grammar of structures

A source is a sequence of items: texts, and actions that are read each on its own. The grammar says
which sequences are well nested, and the nodes and definitions that they stand for. An assembly takes
in one item after the other.

Main statements: `parse_eq_ok_iff_foldlM`, and what an assembly becomes of each item.
-/

import Mathlib.Data.List.Forall2
import BoundQuery.Proofs.Template.Assembling
import BoundQuery.Proofs.Template.Checks

namespace BoundQuery.Template

open Text (Pos)

/-! ### Items -/

/-- A part of a source whose action, if it is one, has been read. -/
inductive Item
  | text (s : String)
  | action (a : Action)

/-- The item that a segment of the source is, if it can be read. -/
def Segment.item? (source : List Char) : Segment → Option Item
  | .text chars => some (.text (String.ofList chars))
  | .action _ bodyStart body =>
    (readAction (locateIn (Text.positionAt source bodyStart) body) body).toOption.map .action

/-- The items of a source, if it can be cut into segments and each of them can be read. -/
def items? (source : List Char) : Option (List Item) :=
  (segments source).toOption.bind (List.mapM (Segment.item? source))

/-- The pipelines of an item. -/
def Item.pipelines : Item → List Pipeline
  | .text _ => []
  | .action a => a.clause.pipelines

/-- Takes in an item. -/
def Assembly.takeItem (isFunction : String → Bool) (a : Assembly) :
    Item → Except SyntaxError Assembly
  | .text s => .ok (a.push (.text s))
  | .action action => a.step isFunction action

section Reading

variable {isFunction : String → Bool} {source : List Char} {found : List Segment}
  {items : List Item}

theorem Segment.take_of_item? {s : Segment} {i : Item} (h : s.item? source = some i)
    (a : Assembly) : a.take isFunction source s = a.takeItem isFunction i := by
  cases s with
  | text =>
    cases h
    rfl
  | action start bodyStart body =>
    obtain ⟨b, hread, rfl⟩ := Option.map_eq_some_iff.mp h
    rw [Assembly.take, toOption_eq_some_iff.mp hread]
    rfl

theorem exists_of_items? (h : items? source = some items) :
    ∃ found, segments source = .ok found ∧
      List.Forall₂ (fun s i => Segment.item? source s = some i) found items := by
  obtain ⟨found, hfound, hitems⟩ := Option.bind_eq_some_iff.mp h
  refine ⟨found, toOption_eq_some_iff.mp hfound, ?_⟩
  clear h hfound
  induction found generalizing items with
  | nil =>
    cases hitems
    exact .nil
  | cons s rest ih =>
    rw [List.mapM_cons] at hitems
    obtain ⟨i, hi, hitems⟩ := Option.bind_eq_some_iff.mp hitems
    obtain ⟨others, hothers, hitems⟩ := Option.bind_eq_some_iff.mp hitems
    cases hitems
    exact .cons hi (ih hothers)

/-- An action among the items was read of the body of a segment. -/
theorem exists_readAction {a : Action}
    (h : List.Forall₂ (fun s i => Segment.item? source s = some i) found items)
    (ha : .action a ∈ items) : ∃ locate body, readAction locate body = .ok a := by
  induction h with
  | nil => cases ha
  | @cons s i _ _ hread _ ih =>
    rcases List.mem_cons.mp ha with rfl | ha
    · cases s with
      | text => cases hread
      | action start bodyStart body =>
        obtain ⟨b, haction, hb⟩ := Option.map_eq_some_iff.mp hread
        cases hb
        exact ⟨_, body, toOption_eq_some_iff.mp haction⟩
    · exact ih ha

theorem foldlM_take (h : List.Forall₂ (fun s i => Segment.item? source s = some i) found items)
    (a : Assembly) :
    found.foldlM (Assembly.take isFunction source) a =
      items.foldlM (Assembly.takeItem isFunction) a := by
  induction h generalizing a with
  | nil => rfl
  | cons hread _ ih =>
    rw [List.foldlM_cons, List.foldlM_cons, Segment.take_of_item? hread]
    exact bind_congr ih

/-- What a source is parsed to, its items being taken in one after the other. -/
theorem parse_eq_ok_iff_foldlM {t : Template} (h : items? source = some items) :
    parse isFunction source = .ok t ↔
      ∃ a, items.foldlM (Assembly.takeItem isFunction) .empty = .ok a ∧ a.frames = [] ∧
        t = ⟨a.nodes.reverse, a.definitions⟩ := by
  obtain ⟨found, hfound, hread⟩ := exists_of_items? h
  unfold parse
  rw [hfound]
  dsimp only
  rw [bind_eq_ok_iff, foldlM_take hread]
  refine exists_congr fun a => and_congr_right fun _ => ?_
  unfold Assembly.finish
  cases a.frames with
  | nil =>
    simp only [List.isEmpty_nil, if_true, true_and]
    exact ⟨fun h => by cases h; rfl, fun h => by rw [h]; rfl⟩
  | cons f rest =>
    simp only [List.isEmpty_cons, Bool.false_eq_true, if_false, reduceCtorEq, false_and]

end Reading

/-! ### The grammar -/

/-- Templates with their names, in the order in which their definitions end. -/
abbrev Definitions := List (String × List Node)

mutual

/-- The items make up these nodes, and these templates are defined among them. The first flag says
that no structure is around, so that definitions may stand there. The second says that a loop is,
so that jumps may: the body of a loop sets it, the body of a definition or of a block clears it, and
the nodes after `else` have it as the structure does that they belong to. -/
inductive Derives : Bool → Bool → List Item → List Node → Definitions → Prop
  | nil {top inLoop : Bool} : Derives top inLoop [] [] []
  | text {top inLoop : Bool} {s : String} {rest : List Item} {nodes : List Node}
      {defs : Definitions} :
      Derives top inLoop rest nodes defs →
      Derives top inLoop (.text s :: rest) (.text s :: nodes) defs
  | pipeline {top inLoop : Bool} {pos : Pos} {p : Pipeline} {rest : List Item} {nodes : List Node}
      {defs : Definitions} :
      Derives top inLoop rest nodes defs →
      Derives top inLoop (.action ⟨pos, .pipeline p⟩ :: rest) (.action p :: nodes) defs
  | invocation {top inLoop : Bool} {pos : Pos} {name : String} {data : Option Pipeline}
      {rest : List Item} {nodes : List Node} {defs : Definitions} :
      Derives top inLoop rest nodes defs →
      Derives top inLoop (.action ⟨pos, .invocation name data⟩ :: rest)
        (.invoke pos name data :: nodes) defs
  | control {top inLoop : Bool} {kind : Control} {pos : Pos} {p : Pipeline}
      {body ending rest : List Item} {bodyNodes nodes : List Node} {otherwise : Option (List Node)}
      {bodyDefs endDefs defs : Definitions} :
      Derives false (inLoop || kind == .range) body bodyNodes bodyDefs →
      Ends kind inLoop ending otherwise endDefs →
      Derives top inLoop rest nodes defs →
      Derives top inLoop (.action ⟨pos, .control kind p⟩ :: (body ++ ending) ++ rest)
        (.control kind pos p bodyNodes otherwise :: nodes) (bodyDefs ++ endDefs ++ defs)
  | definition {inLoop : Bool} {pos stop : Pos} {name : String} {body rest : List Item}
      {bodyNodes nodes : List Node} {bodyDefs defs : Definitions} :
      Derives false false body bodyNodes bodyDefs →
      Derives true inLoop rest nodes defs →
      Derives true inLoop
        (.action ⟨pos, .definition name⟩ :: (body ++ [.action ⟨stop, .close⟩]) ++ rest)
        nodes (bodyDefs ++ [(name, bodyNodes)] ++ defs)
  | block {top inLoop : Bool} {pos stop : Pos} {name : String} {p : Pipeline}
      {body rest : List Item} {bodyNodes nodes : List Node}
      {bodyDefs defs : Definitions} :
      Derives false false body bodyNodes bodyDefs →
      Derives top inLoop rest nodes defs →
      Derives top inLoop
        (.action ⟨pos, .block name p⟩ :: (body ++ [.action ⟨stop, .close⟩]) ++ rest)
        (.invoke pos name (some p) :: nodes) (bodyDefs ++ [(name, bodyNodes)] ++ defs)
  | jump {top : Bool} {pos : Pos} {kind : Jump} {rest : List Item} {nodes : List Node}
      {defs : Definitions} :
      Derives top true rest nodes defs →
      Derives top true (.action ⟨pos, .jump kind⟩ :: rest) (.jump kind pos :: nodes) defs

/-- The items end a control structure of this kind: the nodes after `else`, if there are any, and
the templates that are defined among them. Only a structure of its own kind goes on after the
keyword, as the one node after `else`, and a loop does not go on. -/
inductive Ends : Control → Bool → List Item → Option (List Node) → Definitions → Prop
  | close {kind : Control} {inLoop : Bool} {pos : Pos} :
      Ends kind inLoop [.action ⟨pos, .close⟩] none []
  | otherwise {kind : Control} {inLoop : Bool} {pos stop : Pos} {body : List Item}
      {nodes : List Node} {defs : Definitions} :
      Derives false inLoop body nodes defs →
      Ends kind inLoop (.action ⟨pos, .otherwise⟩ :: (body ++ [.action ⟨stop, .close⟩]))
        (some nodes) defs
  | elseControl {kind : Control} {inLoop : Bool} {pos : Pos} {p : Pipeline}
      {body ending : List Item} {bodyNodes : List Node} {otherwise : Option (List Node)}
      {bodyDefs endDefs : Definitions} :
      kind ≠ .range →
      Derives false inLoop body bodyNodes bodyDefs →
      Ends kind inLoop ending otherwise endDefs →
      Ends kind inLoop (.action ⟨pos, .elseControl kind p⟩ :: (body ++ ending))
        (some [.control kind pos p bodyNodes otherwise]) (bodyDefs ++ endDefs)

end

/-! ### Pipelines that pass every check -/

/-- The pipeline sets no variables and mentions none but `$`, its commands can be executed, and its
functions are known; so are those in parentheses. -/
structure Pipeline.Plain (isFunction : String → Bool) (p : Pipeline) : Prop where
  names : p.names = []
  executable : p.Executable
  admitted : Names.Admits ⟨isFunction, ["$"]⟩ p.variables p.identifiers p.inner

/-- All pipelines of the items are plain. -/
def Plain (isFunction : String → Bool) (items : List Item) : Prop :=
  ∀ i ∈ items, ∀ p ∈ i.pipelines, p.Plain isFunction

section Plain

variable {isFunction : String → Bool} {p : Pipeline} {a : Assembly}

theorem plain_append {items others : List Item} :
    Plain isFunction (items ++ others) ↔ Plain isFunction items ∧ Plain isFunction others :=
  List.forall_mem_append

theorem plain_cons {i : Item} {items : List Item} :
    Plain isFunction (i :: items) ↔
      (∀ p ∈ i.pipelines, p.Plain isFunction) ∧ Plain isFunction items :=
  List.forall_mem_cons

/-- A pipeline is plain if it passes its check where `$` alone is in scope and no names may be
set. -/
theorem Pipeline.plain_of_checkPipeline {construct : Construct}
    (h : Names.checkPipeline ⟨isFunction, ["$"]⟩ 0 construct p = .ok ()) : p.Plain isFunction := by
  obtain ⟨hnames, hexecutable, hadmitted⟩ := (checkPipeline_eq_ok_iff p).mp h
  exact ⟨List.length_eq_zero_iff.mp (Nat.le_zero.mp hnames), hexecutable, hadmitted⟩

theorem Pipeline.Plain.checked (h : p.Plain isFunction) {most : Nat} {construct : Construct} :
    Names.checkPipeline ⟨isFunction, ["$"]⟩ most construct p = .ok () := by
  rw [checkPipeline_eq_ok_iff, h.names]
  exact ⟨Nat.zero_le most, h.executable, h.admitted⟩

theorem Pipeline.Plain.check (h : p.Plain isFunction) (hscope : a.scope = ["$"]) {most : Nat}
    {construct : Construct} : (a.names isFunction).checkPipeline most construct p = .ok () := by
  rw [Assembly.names, hscope]
  exact h.checked

theorem Pipeline.Plain.declare_names (h : p.Plain isFunction) (names : Names) :
    names.declare p = names := by
  unfold Names.declare
  rw [h.names]
  split <;> rfl

theorem Pipeline.Plain.declare (h : p.Plain isFunction) (a : Assembly) : a.declare p = a := by
  unfold Assembly.declare
  rw [h.declare_names]
  rfl

end Plain

/-! ### Steps of an assembly -/

namespace Assembly

/-- More nodes and definitions after those that are collected. -/
def extend (a : Assembly) (nodes : List Node) (defs : Definitions) : Assembly :=
  { a with nodes := nodes.reverse ++ a.nodes, definitions := a.definitions.union defs }

/-- A control structure is open, and nothing is collected in it. -/
def enter (a : Assembly) (kind : Control) (pos : Pos) (p : Pipeline) (chained : Bool) : Assembly :=
  { a with
    nodes := [], inLoop := a.inLoop || kind == .range
    frames := .control kind pos p none chained a.outer :: a.frames }

/-- A control structure is open, with the names that its pipeline declares. -/
def opened (a : Assembly) (kind : Control) (pos : Pos) (p : Pipeline) (chained : Bool) : Assembly :=
  { a.enter kind pos p chained with scope := (a.declare p).scope }

/-- Structures are closed: what is left of them are the structures around and what was set aside. -/
def leave (a : Assembly) (left : Outer × List Frame) (defs : Definitions) : Assembly :=
  ⟨left.1.nodes, left.1.scope, left.1.inLoop, left.2, a.definitions.union defs⟩

variable {isFunction : String → Bool} {a : Assembly}

theorem extend_extend (a : Assembly) (nodes others : List Node) (defs more : Definitions) :
    (a.extend nodes defs).extend others more = a.extend (nodes ++ others) (defs ++ more) := by
  simp [extend, Entries.union]

theorem reverse_extend (nodes : List Node) (defs : Definitions) :
    (a.extend nodes defs).nodes.reverse = a.nodes.reverse ++ nodes := by
  simp [extend]

theorem extend_leave (nodes : List Node) (left : Outer × List Frame)
    (defs more : Definitions) :
    (a.extend nodes defs).leave left more = a.leave left (defs ++ more) := by
  simp [extend, leave, Entries.union]

theorem foldlM_takeItem_cons {i : Item} {rest : List Item} {b : Assembly}
    (h : a.takeItem isFunction i = .ok b) :
    (i :: rest).foldlM (takeItem isFunction) a = rest.foldlM (takeItem isFunction) b := by
  rw [List.foldlM_cons, h]
  rfl

theorem foldlM_takeItem_append {items rest : List Item} {b : Assembly}
    (h : items.foldlM (takeItem isFunction) a = .ok b) :
    (items ++ rest).foldlM (takeItem isFunction) a = rest.foldlM (takeItem isFunction) b := by
  rw [List.foldlM_append, h]
  rfl

section Steps

variable {pos : Pos} {p : Pipeline}

theorem openControl_of_check {kind : Control}
    (h : (a.names isFunction).checkPipeline kind.mostNames kind.construct p = .ok ())
    (chained : Bool) :
    a.openControl isFunction kind pos p chained = .ok (a.opened kind pos p chained) := by
  unfold openControl
  rw [h]
  rfl

theorem opened_plain (hp : p.Plain isFunction) (kind : Control) (chained : Bool) :
    a.opened kind pos p chained = a.enter kind pos p chained := by
  rw [opened, hp.declare]
  rfl

theorem takeItem_pipeline (h : (a.names isFunction).checkPipeline 1 .command p = .ok ()) :
    a.takeItem isFunction (.action ⟨pos, .pipeline p⟩) = .ok ((a.declare p).push (.action p)) := by
  simp only [takeItem, step, h]
  rfl

theorem takeItem_control {kind : Control}
    (h : (a.names isFunction).checkPipeline kind.mostNames kind.construct p = .ok ()) :
    a.takeItem isFunction (.action ⟨pos, .control kind p⟩) = .ok (a.opened kind pos p false) :=
  openControl_of_check h false

theorem takeItem_invocation {name : String} {data : Option Pipeline}
    (h : ∀ p ∈ data, (a.names isFunction).checkPipeline 0 .invocation p = .ok ()) :
    a.takeItem isFunction (.action ⟨pos, .invocation name data⟩) =
      .ok (a.push (.invoke pos name data)) := by
  cases data with
  | none => rfl
  | some p =>
    simp only [takeItem, step, h p rfl]
    rfl

theorem takeItem_definition {name : String} (hframes : a.frames = []) :
    a.takeItem isFunction (.action ⟨pos, .definition name⟩) = .ok (a.openDefinition name none) := by
  simp only [takeItem, step, hframes, List.isEmpty_nil, if_true]
  rfl

theorem takeItem_jump {kind : Jump} (hloop : a.inLoop = true) :
    a.takeItem isFunction (.action ⟨pos, .jump kind⟩) = .ok (a.push (.jump kind pos)) := by
  simp only [takeItem, step, hloop, if_true]
  rfl

theorem takeItem_block {name : String}
    (h : (a.names isFunction).checkPipeline 0 .block p = .ok ()) :
    a.takeItem isFunction (.action ⟨pos, .block name p⟩) =
      .ok (a.openDefinition name (some (pos, p))) := by
  simp only [takeItem, step, h]
  rfl

end Steps

/-! ### Structures that close -/

/-- What is left when a control structure closes whose node is `n`, and with it those that it is
chained to. -/
def closeNode (n : Node) (chained : Bool) (outer : Outer) (frames : List Frame) :
    Option (Outer × List Frame) :=
  if chained then closeControls (n :: outer.nodes) frames
  else some (⟨n :: outer.nodes, outer.scope, outer.inLoop⟩, frames)

/-- What is left when a structure is closed whose node is `n`: it stands after what was
collected. -/
def after (a : Assembly) (n : Node) : Outer × List Frame :=
  (⟨n :: a.nodes, a.scope, a.inLoop⟩, a.frames)

theorem leave_enter (kind : Control) (pos : Pos) (p : Pipeline) (chained : Bool) (n : Node)
    (nodes : List Node) (defs more : Definitions) :
    ((a.enter kind pos p chained).extend nodes defs).leave (a.after n) more =
      a.extend [n] (defs ++ more) := by
  rw [extend_leave]
  rfl

theorem takeItem_close {pos : Pos} {b : Assembly} (h : a.close = some b) :
    a.takeItem isFunction (.action ⟨pos, .close⟩) = .ok b := by
  simp only [takeItem, step, h]
  rfl

theorem close_definition (name : String) (call : Option (Pos × Pipeline)) (nodes : List Node)
    (defs : Definitions) :
    ((a.openDefinition name call).extend nodes defs).close =
      some (a.extend (call.map fun (pos, data) => .invoke pos name (some data)).toList
        (defs ++ [(name, nodes)])) := by
  cases call <;> simp [close, openDefinition, extend, outer, Entries.union]

section Control

variable {kind : Control} {pos : Pos} {p : Pipeline} {chained : Bool} {outer : Outer}
  {frames : List Frame}

/-- The body of a control structure is over, and nothing is collected after it. -/
def turn (a : Assembly) (kind : Control) (pos : Pos) (p : Pipeline) (chained : Bool) (outer : Outer)
    (frames : List Frame) : Assembly :=
  { a with
    nodes := [], inLoop := outer.inLoop
    frames := .control kind pos p (some a.nodes.reverse) chained outer :: frames }

theorem close_control {body : Option (List Node)}
    (h : a.frames = .control kind pos p body chained outer :: frames) :
    a.close = (closeNode (controlNode kind pos p body a.nodes.reverse) chained outer frames).map
      fun left => a.leave left [] := by
  unfold close
  rw [h]
  rfl

theorem endBody_control (h : a.frames = .control kind pos p none chained outer :: frames) :
    a.endBody = .ok (kind, a.turn kind pos p chained outer frames) := by
  unfold endBody
  rw [h]
  rfl

theorem takeItem_otherwise {turned : Pos}
    (h : a.frames = .control kind pos p none chained outer :: frames) :
    a.takeItem isFunction (.action ⟨turned, .otherwise⟩) =
      .ok (a.turn kind pos p chained outer frames) := by
  simp only [takeItem, step, endBody_control h]
  rfl

theorem takeItem_elseControl (turned : Pos) {q : Pipeline}
    (hq : (a.names isFunction).checkPipeline kind.mostNames kind.construct q = .ok ())
    (h : a.frames = .control kind pos p none chained outer :: frames) :
    a.takeItem isFunction (.action ⟨turned, .elseControl kind q⟩) =
      .ok ((a.turn kind pos p chained outer frames).opened kind turned q true) := by
  have hturned : ((a.turn kind pos p chained outer frames).names isFunction).checkPipeline
    kind.mostNames kind.construct q = .ok () := hq
  simp only [takeItem, step, endBody_control h, if_true, openControl_of_check hturned]

end Control

end Assembly

end BoundQuery.Template
