/-
# Assemblies follow the grammar

Whatever was collected before, well nested items lead to the nodes and definitions that the grammar
tells, if these pass their checks where they stand: with the names that the nodes before them left in
scope.

Main statements: `Derives.follows`, `Ends.finishes`.
-/

import BoundQuery.Proofs.Template.Grammar
import BoundQuery.Proofs.Template.Scopes

namespace BoundQuery.Template

open Text (Pos)

/-! ### Names in scope -/

namespace Names

variable {isFunction : String → Bool} {scope : List String}

theorem mk_afterAll (nodes : List Node) :
    (⟨isFunction, (afterAll ⟨isFunction, scope⟩ nodes).scope⟩ : Names) =
      afterAll ⟨isFunction, scope⟩ nodes := by
  calc (⟨isFunction, (afterAll ⟨isFunction, scope⟩ nodes).scope⟩ : Names)
    _ = ⟨(afterAll ⟨isFunction, scope⟩ nodes).isFunction,
          (afterAll ⟨isFunction, scope⟩ nodes).scope⟩ := by rw [isFunction_afterAll]
    _ = afterAll ⟨isFunction, scope⟩ nodes := rfl

theorem afterAll_append (names : Names) (nodes others : List Node) :
    names.afterAll (nodes ++ others) = (names.afterAll nodes).afterAll others :=
  List.foldl_append

end Names

namespace Assembly

variable {isFunction : String → Bool} {a : Assembly}

/-- The names that a pipeline declares are in scope after it. -/
theorem names_declare (a : Assembly) (p : Pipeline) :
    (a.declare p).names isFunction = (a.names isFunction).declare p := by
  unfold declare names Names.declare
  split <;> rfl

/-- More nodes and definitions after those that are collected, with the names that the nodes
declare. -/
def grow (isFunction : String → Bool) (a : Assembly) (nodes : List Node) (defs : Definitions) :
    Assembly :=
  { a.extend nodes defs with scope := ((a.names isFunction).afterAll nodes).scope }

theorem names_grow (nodes : List Node) (defs : Definitions) :
    (a.grow isFunction nodes defs).names isFunction = (a.names isFunction).afterAll nodes :=
  Names.mk_afterAll nodes

theorem grow_grow (nodes others : List Node) (defs more : Definitions) :
    (a.grow isFunction nodes defs).grow isFunction others more =
      a.grow isFunction (nodes ++ others) (defs ++ more) := by
  have hextend : (a.grow isFunction nodes defs).extend others more =
      { a.extend (nodes ++ others) (defs ++ more) with
        scope := ((a.names isFunction).afterAll nodes).scope } := by
    rw [← extend_extend]
    rfl
  unfold grow at hextend ⊢
  rw [hextend]
  change { a.extend (nodes ++ others) (defs ++ more) with
    scope := (((a.grow isFunction nodes defs).names isFunction).afterAll others).scope } = _
  rw [names_grow, Names.afterAll_append]

theorem reverse_grow (nodes : List Node) (defs : Definitions) :
    (a.grow isFunction nodes defs).nodes.reverse = a.nodes.reverse ++ nodes :=
  reverse_extend nodes defs

theorem grow_leave (nodes : List Node) (left : Outer × List Frame) (defs more : Definitions) :
    (a.grow isFunction nodes defs).leave left more = a.leave left (defs ++ more) :=
  extend_leave nodes left defs more

end Assembly

/-- Each definition passes its checks. -/
def DefinitionsChecked (isFunction : String → Bool) (defs : Definitions) : Prop :=
  ∀ d ∈ defs, CheckedNodes ⟨isFunction, ["$"]⟩ false d.2

theorem definitionsChecked_nil {isFunction : String → Bool} : DefinitionsChecked isFunction [] := by
  simp [DefinitionsChecked]

theorem definitionsChecked_append {isFunction : String → Bool} {defs more : Definitions} :
    DefinitionsChecked isFunction (defs ++ more) ↔
      DefinitionsChecked isFunction defs ∧ DefinitionsChecked isFunction more :=
  List.forall_mem_append

/-! ### Well nested items -/

section Follows

open Assembly

variable {isFunction : String → Bool} {top inLoop : Bool} {items rest body ending : List Item}
  {nodes others bodyNodes : List Node} {defs more bodyDefs endDefs : Definitions}
  {kind : Control} {otherwise : Option (List Node)}

/-- From any assembly where they may stand, the items lead to these nodes and definitions. -/
def Follows (isFunction : String → Bool) (top inLoop : Bool) (items : List Item)
    (nodes : List Node) (defs : Definitions) : Prop :=
  DefinitionsChecked isFunction defs → ∀ a : Assembly,
    CheckedNodes (a.names isFunction) inLoop nodes → a.inLoop = inLoop →
    (top = true → a.frames = []) →
    items.foldlM (takeItem isFunction) a = .ok (a.grow isFunction nodes defs)

/-- In the body of any control structure of this kind, the items close it with these nodes after
`else`, and lead to these definitions. -/
def Finishes (isFunction : String → Bool) (kind : Control) (inLoop : Bool) (items : List Item)
    (otherwise : Option (List Node)) (defs : Definitions) : Prop :=
  DefinitionsChecked isFunction defs → ∀ (a : Assembly) (pos : Pos) (p : Pipeline) (chained : Bool)
    (outer : Outer) (frames : List Frame) (left : Outer × List Frame),
    CheckedOtherwise (a.names isFunction) inLoop otherwise →
    a.frames = .control kind pos p none chained outer :: frames → outer.inLoop = inLoop →
    closeNode (.control kind pos p a.nodes.reverse otherwise) chained outer frames = some left →
    items.foldlM (takeItem isFunction) a = .ok (a.leave left defs)

theorem follows_nil : Follows isFunction top inLoop [] [] [] :=
  fun _ _ _ _ _ => rfl

theorem Follows.append (h : Follows isFunction top inLoop items nodes defs)
    (h' : Follows isFunction top inLoop rest others more) :
    Follows isFunction top inLoop (items ++ rest) (nodes ++ others) (defs ++ more) := by
  intro hdefs a hchecked hloop htop
  obtain ⟨hdefs, hmore⟩ := definitionsChecked_append.mp hdefs
  obtain ⟨hnodes, hothers⟩ := checkedNodes_append.mp hchecked
  rw [foldlM_takeItem_append (h hdefs a hnodes hloop htop), ← grow_grow]
  rw [← names_grow nodes defs] at hothers
  exact h' hmore _ hothers hloop htop

/-- An item that stands for a node. -/
theorem follows_node {i : Item} {n : Node}
    (h : ∀ a : Assembly, n.Checked (a.names isFunction) inLoop → a.inLoop = inLoop →
      a.takeItem isFunction i = .ok (a.grow isFunction [n] [])) :
    Follows isFunction top inLoop [i] [n] [] := by
  intro _ a hchecked hloop _
  rw [foldlM_takeItem_cons (h a hchecked.1 hloop)]
  rfl

theorem follows_text {s : String} : Follows isFunction top inLoop [.text s] [.text s] [] :=
  follows_node fun _ _ _ => rfl

theorem follows_pipeline {pos : Pos} {p : Pipeline} :
    Follows isFunction top inLoop [.action ⟨pos, .pipeline p⟩] [.action p] [] := by
  apply follows_node
  intro a hcheck _
  have hscope : (a.declare p).scope = ((a.names isFunction).declare p).scope :=
    Names.scope_declare _ _ a.scope p
  have hgrow : (a.declare p).push (.action p) =
      { a.push (.action p) with scope := (a.declare p).scope } := rfl
  rw [takeItem_pipeline hcheck, hgrow, hscope]
  rfl

theorem follows_invocation {pos : Pos} {name : String} {data : Option Pipeline} :
    Follows isFunction top inLoop [.action ⟨pos, .invocation name data⟩]
      [.invoke pos name data] [] := by
  apply follows_node
  intro a hchecked _
  have hdata : ∀ p ∈ data, (a.names isFunction).checkPipeline 0 .invocation p = .ok () := by
    intro p hp
    obtain ⟨construct, hcheck⟩ := hchecked p hp
    exact (checkPipeline_eq_ok_iff p).mpr ((checkPipeline_eq_ok_iff p).mp hcheck)
  exact takeItem_invocation hdata

theorem follows_jump {pos : Pos} {kind : Jump} :
    Follows isFunction top true [.action ⟨pos, .jump kind⟩] [.jump kind pos] [] :=
  follows_node fun _ _ hloop => takeItem_jump hloop

theorem follows_control {pos : Pos} {p : Pipeline}
    (hbody : Follows isFunction false (inLoop || kind == .range) body bodyNodes bodyDefs)
    (hends : Finishes isFunction kind inLoop ending otherwise endDefs) :
    Follows isFunction top inLoop (.action ⟨pos, .control kind p⟩ :: (body ++ ending))
      [.control kind pos p bodyNodes otherwise] (bodyDefs ++ endDefs) := by
  intro hdefs a hchecked hloop _
  obtain ⟨hbodyDefs, hendDefs⟩ := definitionsChecked_append.mp hdefs
  obtain ⟨⟨hcheck, hbodyNodes, hotherwise⟩, -⟩ := hchecked
  have hnames : (a.opened kind pos p false).names isFunction = (a.names isFunction).declare p :=
    names_declare a p
  rw [← hnames] at hbodyNodes hotherwise
  have hinner := hbody hbodyDefs (a.opened kind pos p false) hbodyNodes
    (by rw [opened, enter, hloop]) (by simp)
  have hleft : closeNode (.control kind pos p
      ((a.opened kind pos p false).grow isFunction bodyNodes bodyDefs).nodes.reverse otherwise)
      false a.outer a.frames = some (a.after (.control kind pos p bodyNodes otherwise)) := by
    rw [reverse_grow]
    rfl
  rw [← names_grow bodyNodes bodyDefs] at hotherwise
  have hend := hends hendDefs _ pos p false a.outer a.frames _ hotherwise rfl hloop hleft
  rw [foldlM_takeItem_cons (takeItem_control hcheck), foldlM_takeItem_append hinner, hend,
    grow_leave]
  rfl

/-- A definition, and a block with its call. -/
theorem follows_openDefinition {i : Item} {stop : Pos} {name : String}
    (call : Option (Pos × Pipeline))
    (hbody : Follows isFunction false false body bodyNodes bodyDefs)
    (h : ∀ a : Assembly,
      (∀ c ∈ call, ∃ construct, (a.names isFunction).checkPipeline 0 construct c.2 = .ok ()) →
      (top = true → a.frames = []) → a.takeItem isFunction i = .ok (a.openDefinition name call)) :
    Follows isFunction top inLoop (i :: (body ++ [.action ⟨stop, .close⟩]))
      (call.map fun (pos, data) => .invoke pos name (some data)).toList
      (bodyDefs ++ [(name, bodyNodes)]) := by
  intro hdefs a hchecked _ htop
  obtain ⟨hbodyDefs, hbodyNodes⟩ := definitionsChecked_append.mp hdefs
  have hcall : ∀ c ∈ call, ∃ construct,
      (a.names isFunction).checkPipeline 0 construct c.2 = .ok () := by
    intro c hc
    cases hc
    exact hchecked.1 c.2 rfl
  have hinner := hbody hbodyDefs (a.openDefinition name call) (hbodyNodes _ List.mem_cons_self) rfl
    (by simp)
  have hclose : ((a.openDefinition name call).grow isFunction bodyNodes bodyDefs).close =
      some (a.grow isFunction (call.map fun (pos, data) => .invoke pos name (some data)).toList
        (bodyDefs ++ [(name, bodyNodes)])) := by
    cases call <;> simp [close, openDefinition, grow, extend, outer, Entries.union] <;> rfl
  rw [foldlM_takeItem_cons (h a hcall htop), foldlM_takeItem_append hinner,
    foldlM_takeItem_cons (takeItem_close hclose)]
  rfl

theorem follows_definition {pos stop : Pos} {name : String}
    (hbody : Follows isFunction false false body bodyNodes bodyDefs) :
    Follows isFunction true inLoop
      (.action ⟨pos, .definition name⟩ :: (body ++ [.action ⟨stop, .close⟩]))
      [] (bodyDefs ++ [(name, bodyNodes)]) :=
  follows_openDefinition none hbody fun _ _ htop => takeItem_definition (htop rfl)

theorem follows_block {pos stop : Pos} {name : String} {p : Pipeline}
    (hbody : Follows isFunction false false body bodyNodes bodyDefs) :
    Follows isFunction top inLoop
      (.action ⟨pos, .block name p⟩ :: (body ++ [.action ⟨stop, .close⟩]))
      [.invoke pos name (some p)] (bodyDefs ++ [(name, bodyNodes)]) := by
  refine follows_openDefinition (some (pos, p)) hbody fun a hcall _ => takeItem_block ?_
  obtain ⟨construct, hcheck⟩ := hcall (pos, p) rfl
  exact (checkPipeline_eq_ok_iff p).mpr ((checkPipeline_eq_ok_iff p).mp hcheck)

theorem finishes_close {stop : Pos} :
    Finishes isFunction kind inLoop [.action ⟨stop, .close⟩] none [] := by
  intro _ a pos p chained outer frames left _ hframes _ hleft
  have hclose : a.close = some (a.leave left []) := by
    rw [close_control hframes, controlNode, hleft, Option.map_some]
  rw [foldlM_takeItem_cons (takeItem_close hclose)]
  rfl

theorem finishes_otherwise {turned stop : Pos}
    (hbody : Follows isFunction false inLoop body nodes defs) :
    Finishes isFunction kind inLoop
      (.action ⟨turned, .otherwise⟩ :: (body ++ [.action ⟨stop, .close⟩])) (some nodes) defs := by
  intro hdefs a pos p chained outer frames left hchecked hframes hloop hleft
  have hinner := hbody hdefs (a.turn kind pos p chained outer frames) hchecked hloop (by simp)
  have hclose : ((a.turn kind pos p chained outer frames).grow isFunction nodes defs).close =
      some (a.leave left defs) := by
    rw [close_control rfl, reverse_grow, turn, controlNode, List.reverse_nil, List.nil_append,
      hleft]
    rfl
  rw [foldlM_takeItem_cons (takeItem_otherwise hframes), foldlM_takeItem_append hinner,
    foldlM_takeItem_cons (takeItem_close hclose)]
  rfl

theorem finishes_elseControl {turned : Pos} {q : Pipeline} (hkind : kind ≠ .range)
    (hbody : Follows isFunction false inLoop body bodyNodes bodyDefs)
    (hends : Finishes isFunction kind inLoop ending otherwise endDefs) :
    Finishes isFunction kind inLoop (.action ⟨turned, .elseControl kind q⟩ :: (body ++ ending))
      (some [.control kind turned q bodyNodes otherwise]) (bodyDefs ++ endDefs) := by
  intro hdefs a pos p chained outer frames left hchecked hframes hloop hleft
  obtain ⟨hbodyDefs, hendDefs⟩ := definitionsChecked_append.mp hdefs
  obtain ⟨⟨hcheck, hbodyNodes, hotherwise⟩, -⟩ := hchecked
  have hstep := takeItem_elseControl turned hcheck hframes
  obtain ⟨b, hturn⟩ : ∃ b, a.turn kind pos p chained outer frames = b := ⟨_, rfl⟩
  have hturnLoop : b.inLoop = inLoop := hturn ▸ hloop
  have hnames : (b.opened kind turned q true).names isFunction =
      (a.names isFunction).declare q := by
    rw [← hturn]
    exact names_declare a q
  have hplain : (inLoop || kind == .range) = inLoop := by simp [hkind]
  rw [hplain, ← hnames] at hbodyNodes
  rw [← hnames] at hotherwise
  rw [hturn] at hstep
  have hinner := hbody hbodyDefs (b.opened kind turned q true) hbodyNodes
    (by simp [opened, enter, hturnLoop, hkind]) (by simp)
  -- The chained structure closes together with the one around it.
  have hchained : closeNode (.control kind turned q
      ((b.opened kind turned q true).grow isFunction bodyNodes bodyDefs).nodes.reverse otherwise)
      true b.outer b.frames = some left := by
    rw [reverse_grow, ← hturn]
    exact hleft
  rw [← names_grow bodyNodes bodyDefs] at hotherwise
  have hend := hends hendDefs _ turned q true b.outer b.frames left hotherwise rfl hturnLoop hchained
  rw [foldlM_takeItem_cons hstep, foldlM_takeItem_append hinner, hend, grow_leave, ← hturn]
  rfl

mutual

/-- Well nested items are taken in: they make up the nodes and definitions that the grammar
tells. -/
theorem Derives.follows {top inLoop : Bool} {items : List Item} {nodes : List Node}
    {defs : Definitions} :
    Derives top inLoop items nodes defs → Follows isFunction top inLoop items nodes defs
  | .nil => follows_nil
  | .text hrest => follows_text.append hrest.follows
  | .pipeline hrest => follows_pipeline.append hrest.follows
  | .invocation hrest => follows_invocation.append hrest.follows
  | .control hbody hends hrest =>
    (follows_control hbody.follows hends.finishes).append hrest.follows
  | .definition hbody hrest => (follows_definition hbody.follows).append hrest.follows
  | .block hbody hrest => (follows_block hbody.follows).append hrest.follows
  | .jump hrest => follows_jump.append hrest.follows

/-- The end of a control structure is taken in: the structure closes, with its nodes after
`else`. -/
theorem Ends.finishes {kind : Control} {inLoop : Bool} {items : List Item}
    {otherwise : Option (List Node)} {defs : Definitions} :
    Ends kind inLoop items otherwise defs → Finishes isFunction kind inLoop items otherwise defs
  | .close => finishes_close
  | .otherwise hbody => finishes_otherwise hbody.follows
  | .elseControl hkind hbody hends =>
    finishes_elseControl hkind hbody.follows hends.finishes

end

end Follows

/-! ### Plain items -/

section Plain

variable {isFunction : String → Bool} {inLoop : Bool} {nodes : List Node} {defs : Definitions}

/-- The nodes and definitions pass their checks, and the nodes declare no names. -/
structure Harmless (isFunction : String → Bool) (inLoop : Bool) (nodes : List Node)
    (defs : Definitions) : Prop where
  checked : CheckedNodes ⟨isFunction, ["$"]⟩ inLoop nodes
  after : Names.afterAll ⟨isFunction, ["$"]⟩ nodes = ⟨isFunction, ["$"]⟩
  definitions : DefinitionsChecked isFunction defs

theorem harmless_nil : Harmless isFunction inLoop [] [] :=
  ⟨trivial, rfl, definitionsChecked_nil⟩

theorem Harmless.cons (h : Harmless isFunction inLoop nodes defs) (n : Node) (more : Definitions)
    (hn : n.Checked ⟨isFunction, ["$"]⟩ inLoop)
    (hafter : Names.after ⟨isFunction, ["$"]⟩ n = ⟨isFunction, ["$"]⟩)
    (hmore : DefinitionsChecked isFunction more) :
    Harmless isFunction inLoop (n :: nodes) (more ++ defs) := by
  constructor
  · rw [CheckedNodes, hafter]
    exact ⟨hn, h.checked⟩
  · rw [Names.afterAll, List.foldl_cons, hafter]
    exact h.after
  · exact definitionsChecked_append.mpr ⟨hmore, h.definitions⟩

theorem definitionsChecked_concat {name : String} {bodyNodes : List Node} {bodyDefs : Definitions}
    (h : Harmless isFunction false bodyNodes bodyDefs) :
    DefinitionsChecked isFunction (bodyDefs ++ [(name, bodyNodes)]) := by
  apply definitionsChecked_append.mpr
  refine ⟨h.definitions, ?_⟩
  intro d hd
  cases List.mem_singleton.mp hd
  exact h.checked

mutual

/-- Plain items stand for nodes that pass their checks wherever `$` is in scope. -/
theorem Derives.harmless {top inLoop : Bool} {items : List Item} {nodes : List Node}
    {defs : Definitions} :
    Derives top inLoop items nodes defs → Plain isFunction items →
      Harmless isFunction inLoop nodes defs
  | .nil, _ => harmless_nil
  | @Derives.text _ _ s _ _ _ hrest, hplain =>
    (hrest.harmless (plain_cons.mp hplain).2).cons (.text s) [] trivial rfl definitionsChecked_nil
  | @Derives.pipeline _ _ _ p _ _ _ hrest, hplain => by
    obtain ⟨hp, hplain⟩ := plain_cons.mp hplain
    have hp : p.Plain isFunction := hp p List.mem_cons_self
    exact (hrest.harmless hplain).cons (.action p) [] hp.checked (hp.declare_names _)
      definitionsChecked_nil
  | @Derives.invocation _ _ pos name data _ _ _ hrest, hplain => by
    obtain ⟨hdata, hplain⟩ := plain_cons.mp hplain
    refine (hrest.harmless hplain).cons (.invoke pos name data) [] ?_ rfl definitionsChecked_nil
    intro p hp
    exact ⟨.invocation, (hdata p (Option.mem_toList.mpr hp)).checked⟩
  | @Derives.control _ _ kind pos p _ _ _ bodyNodes _ otherwise _ _ _ hbody hends hrest, hplain => by
    rw [List.cons_append] at hplain
    obtain ⟨hp, hplain⟩ := plain_cons.mp hplain
    obtain ⟨hwithin, hplain⟩ := plain_append.mp hplain
    obtain ⟨hbodyPlain, hendPlain⟩ := plain_append.mp hwithin
    have hp : p.Plain isFunction := hp p List.mem_cons_self
    have hbody := hbody.harmless hbodyPlain
    have hends := hends.harmless hendPlain
    refine (hrest.harmless hplain).cons (.control kind pos p bodyNodes otherwise) _
      ⟨hp.checked, ?_, ?_⟩ rfl (definitionsChecked_append.mpr ⟨hbody.definitions, hends.2⟩)
    · rw [hp.declare_names]
      exact hbody.checked
    · rw [hp.declare_names, hbody.after]
      exact hends.1
  | .definition hbody hrest, hplain => by
    rw [List.cons_append] at hplain
    obtain ⟨-, hplain⟩ := plain_cons.mp hplain
    obtain ⟨hwithin, hplain⟩ := plain_append.mp hplain
    have hbody := hbody.harmless (plain_append.mp hwithin).1
    have hrest := hrest.harmless hplain
    exact ⟨hrest.checked, hrest.after,
      definitionsChecked_append.mpr ⟨definitionsChecked_concat hbody, hrest.definitions⟩⟩
  | @Derives.block _ _ pos _ name p _ _ _ _ _ _ hbody hrest, hplain => by
    rw [List.cons_append] at hplain
    obtain ⟨hp, hplain⟩ := plain_cons.mp hplain
    obtain ⟨hwithin, hplain⟩ := plain_append.mp hplain
    have hp : p.Plain isFunction := hp p List.mem_cons_self
    have hbody := hbody.harmless (plain_append.mp hwithin).1
    refine (hrest.harmless hplain).cons (.invoke pos name (some p)) _ ?_ rfl
      (definitionsChecked_concat hbody)
    intro q hq
    cases hq
    exact ⟨.block, hp.checked⟩
  | @Derives.jump _ pos kind _ _ _ hrest, hplain =>
    (hrest.harmless (plain_cons.mp hplain).2).cons (.jump kind pos) [] rfl rfl definitionsChecked_nil

theorem Ends.harmless {kind : Control} {inLoop : Bool} {items : List Item}
    {otherwise : Option (List Node)} {defs : Definitions} :
    Ends kind inLoop items otherwise defs → Plain isFunction items →
      CheckedOtherwise ⟨isFunction, ["$"]⟩ inLoop otherwise ∧ DefinitionsChecked isFunction defs
  | .close, _ => ⟨trivial, definitionsChecked_nil⟩
  | .otherwise hbody, hplain => by
    obtain ⟨-, hplain⟩ := plain_cons.mp hplain
    have hbody := hbody.harmless (plain_append.mp hplain).1
    exact ⟨hbody.checked, hbody.definitions⟩
  | @Ends.elseControl _ _ _ p _ _ _ _ _ _ hkind hbody hends, hplain => by
    obtain ⟨hp, hplain⟩ := plain_cons.mp hplain
    obtain ⟨hbodyPlain, hendPlain⟩ := plain_append.mp hplain
    have hp : p.Plain isFunction := hp p List.mem_cons_self
    have hbody := hbody.harmless hbodyPlain
    have hends := hends.harmless hendPlain
    refine ⟨⟨⟨hp.checked, ?_, ?_⟩, trivial⟩, definitionsChecked_append.mpr ⟨hbody.definitions, hends.2⟩⟩
    · have hloop : (inLoop || kind == .range) = inLoop := by simp [hkind]
      rw [hp.declare_names, hloop]
      exact hbody.checked
    · rw [hp.declare_names, hbody.after]
      exact hends.1

end

/-- Plain items are taken in from nothing. -/
theorem Derives.follows_plain {items : List Item} (h : Derives true false items nodes defs)
    (hplain : Plain isFunction items) :
    items.foldlM (Assembly.takeItem isFunction) .empty = .ok (Assembly.empty.extend nodes defs) := by
  obtain ⟨hnodes, hafter, hdefs⟩ := h.harmless hplain
  have hfollows := h.follows hdefs .empty hnodes rfl fun _ => rfl
  have hgrow : Assembly.empty.grow isFunction nodes defs = Assembly.empty.extend nodes defs := by
    unfold Assembly.grow
    have hscope : ((Assembly.empty.names isFunction).afterAll nodes).scope = ["$"] :=
      congrArg Names.scope hafter
    rw [hscope]
    rfl
  rw [hfollows, hgrow]

end Plain

end BoundQuery.Template
