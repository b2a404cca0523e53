/-
# Templates are what the grammar tells

An assembly that ends with no structure open has taken in well nested items: from any place in the
sequence on, the items up to the next one that closes a structure, or ends its body, are derived from
the grammar. So a source with plain pipelines is parsed if and only if its items are well nested, and
the template is what the grammar tells.

Main statements: `splitsBelow`, `parse_eq_ok_iff_derives`.
-/

import BoundQuery.Proofs.Template.Following

namespace BoundQuery.Template

open Text (Pos)
open Assembly

/-! ### Where lists of nodes end -/

/-- No node starts with these items: there are none, or a structure ends, or its body does. -/
inductive Stops : List Item → Prop
  | nil : Stops []
  | close {stop : Pos} {rest : List Item} : Stops (.action ⟨stop, .close⟩ :: rest)
  | otherwise {turned : Pos} {rest : List Item} : Stops (.action ⟨turned, .otherwise⟩ :: rest)
  | elseControl {turned : Pos} {kind : Control} {q : Pipeline} {rest : List Item} :
      Stops (.action ⟨turned, .elseControl kind q⟩ :: rest)

/-- The pipelines of the item are plain, and it does not go on with a loop after the keyword for
otherwise. -/
structure Item.Regular (isFunction : String → Bool) (i : Item) : Prop where
  pipelines : ∀ p ∈ i.pipelines, p.Plain isFunction
  chained : ∀ pos kind p, i = .action ⟨pos, .elseControl kind p⟩ → kind ≠ .range

/-- All items are regular. -/
def Regular (isFunction : String → Bool) (items : List Item) : Prop :=
  ∀ i ∈ items, i.Regular isFunction

section Follows

variable {isFunction : String → Bool} {i : Item} {items rest : List Item} {a b c : Assembly}

theorem regular_cons :
    Regular isFunction (i :: rest) ↔ i.Regular isFunction ∧ Regular isFunction rest :=
  List.forall_mem_cons

theorem regular_append :
    Regular isFunction (items ++ rest) ↔ Regular isFunction items ∧ Regular isFunction rest :=
  List.forall_mem_append

/-- What is taken in after an item. -/
theorem foldlM_of_takeItem (hstep : a.takeItem isFunction i = .ok c)
    (h : (i :: rest).foldlM (takeItem isFunction) a = .ok b) :
    rest.foldlM (takeItem isFunction) c = .ok b := by
  rwa [foldlM_takeItem_cons hstep] at h

/-- What an action made of an assembly, and what is taken in after it. -/
theorem exists_stepped {pos : Pos} {clause : Clause}
    (h : (.action ⟨pos, clause⟩ :: rest).foldlM (takeItem isFunction) a = .ok b) :
    ∃ c, a.Stepped isFunction pos clause c ∧ rest.foldlM (takeItem isFunction) c = .ok b := by
  rw [List.foldlM_cons] at h
  obtain ⟨c, hstep, h⟩ := bind_eq_ok_iff.mp h
  exact ⟨c, stepped_of_step hstep, h⟩

/-- What becomes of an assembly where a list of nodes ends, if all its structures are closed in the
end. -/
inductive Stopped (isFunction : String → Bool) (a b : Assembly) : List Item → Prop
  | nil : a.frames = [] → a = b → Stopped isFunction a b []
  | close {stop : Pos} {rest : List Item} {c : Assembly} :
      a.close = some c → rest.foldlM (takeItem isFunction) c = .ok b →
      Stopped isFunction a b (.action ⟨stop, .close⟩ :: rest)
  | otherwise {turned pos : Pos} {kind : Control} {p : Pipeline} {chained : Bool} {outer : Outer}
      {frames : List Frame} {rest : List Item} :
      a.frames = .control kind pos p none chained outer :: frames →
      rest.foldlM (takeItem isFunction) (a.turn kind pos p chained outer frames) = .ok b →
      Stopped isFunction a b (.action ⟨turned, .otherwise⟩ :: rest)
  | elseControl {turned pos : Pos} {kind : Control} {p q : Pipeline} {chained : Bool}
      {outer : Outer} {frames : List Frame} {rest : List Item} :
      kind ≠ .range → a.frames = .control kind pos p none chained outer :: frames →
      rest.foldlM (takeItem isFunction)
        ((a.turn kind pos p chained outer frames).enter kind turned q true) = .ok b →
      Stopped isFunction a b (.action ⟨turned, .elseControl kind q⟩ :: rest)

theorem stopped_of_stops (hstops : Stops items) (hregular : Regular isFunction items)
    (hscope : a.scope = ["$"]) (hclosed : b.frames = [])
    (h : items.foldlM (takeItem isFunction) a = .ok b) : Stopped isFunction a b items := by
  cases hstops with
  | nil =>
    cases h
    exact .nil hclosed rfl
  | close =>
    obtain ⟨c, hstep, h⟩ := exists_stepped h
    cases hstep with
    | close hclose => exact .close hclose h
  | otherwise =>
    obtain ⟨c, hstep, h⟩ := exists_stepped h
    cases hstep with
    | otherwise hend =>
      obtain ⟨pos, p, chained, outer, frames, hframes, rfl⟩ := endBody_eq_ok hend
      exact .otherwise hframes h
  | elseControl =>
    obtain ⟨c, hstep, -⟩ := exists_stepped h
    cases hstep with
    | elseControl hend =>
      obtain ⟨pos, p, chained, outer, frames, hframes, rfl⟩ := endBody_eq_ok hend
      have hitem := (regular_cons.mp hregular).1
      have hq := hitem.pipelines _ List.mem_cons_self
      refine .elseControl (hitem.chained _ _ _ rfl) hframes ?_
      rw [← opened_plain hq]
      exact foldlM_of_takeItem (takeItem_elseControl _ (hq.check hscope) hframes) h

/-- Where a definition or a block ends, there is its closing keyword. -/
theorem Stopped.definition {name : String} {call : Option (Pos × Pipeline)} {nodes : List Node}
    {defs : Definitions}
    (h : Stopped isFunction ((a.openDefinition name call).extend nodes defs) b items) :
    ∃ stop rest, items = .action ⟨stop, .close⟩ :: rest ∧
      rest.foldlM (takeItem isFunction)
        (a.extend (call.map fun (pos, data) => .invoke pos name (some data)).toList
          (defs ++ [(name, nodes)])) = .ok b := by
  cases h with
  | nil hframes => cases hframes
  | close hclose h =>
    rw [close_definition] at hclose
    cases hclose
    exact ⟨_, _, rfl, h⟩
  | otherwise hframes => cases hframes
  | elseControl _ hframes => cases hframes

/-- Where the nodes after the keyword for otherwise end, there is the closing keyword. -/
theorem Stopped.turned {kind : Control} {pos : Pos} {p : Pipeline} {chained : Bool} {outer : Outer}
    {frames : List Frame} {nodes : List Node} {defs : Definitions}
    (h : Stopped isFunction ((a.turn kind pos p chained outer frames).extend nodes defs) b items) :
    ∃ stop rest left, items = .action ⟨stop, .close⟩ :: rest ∧
      closeNode (.control kind pos p a.nodes.reverse (some nodes)) chained outer frames =
        some left ∧
      rest.foldlM (takeItem isFunction) (a.leave left defs) = .ok b := by
  cases h with
  | nil hframes => cases hframes
  | close hclose h =>
    rw [close_control rfl, reverse_extend] at hclose
    obtain ⟨left, hleft, rfl⟩ := Option.map_eq_some_iff.mp hclose
    rw [extend_leave, List.append_nil] at h
    exact ⟨_, _, left, rfl, hleft, h⟩
  | otherwise hframes => cases hframes
  | elseControl _ hframes => cases hframes

/-! ### Lists of nodes -/

/-- The items start with a list of nodes, up to where no node starts; after it, what is left of them
leads to `b`. -/
def Splits (isFunction : String → Bool) (b : Assembly) (top inLoop : Bool) (a : Assembly)
    (items : List Item) : Prop :=
  ∃ taken nodes defs rest, items = taken ++ rest ∧ Derives top inLoop taken nodes defs ∧
    Stopped isFunction (a.extend nodes defs) b rest

/-- The items start with the end of the control structure that is open, and with it of those that it
is chained to; after it, what is left of them leads to `b`. -/
def SplitsEnds (isFunction : String → Bool) (b : Assembly) (kind : Control) (pos : Pos)
    (p : Pipeline) (chained : Bool) (outer : Outer) (frames : List Frame) (a : Assembly)
    (items : List Item) : Prop :=
  ∃ taken otherwise defs rest left, items = taken ++ rest ∧
    Ends kind outer.inLoop taken otherwise defs ∧
    closeNode (.control kind pos p a.nodes.reverse otherwise) chained outer frames = some left ∧
    rest.foldlM (takeItem isFunction) (a.leave left defs) = .ok b

/-- The list of nodes goes on after the items of one production. -/
theorem Splits.production {top inLoop : Bool} (items : List Item) (nodes : List Node)
    (defs : Definitions)
    (hproduction : ∀ {taken others more}, Derives top inLoop taken others more →
      Derives top inLoop (items ++ taken) (nodes ++ others) (defs ++ more))
    (h : Splits isFunction b top inLoop (a.extend nodes defs) rest) :
    Splits isFunction b top inLoop a (items ++ rest) := by
  obtain ⟨taken, others, more, left, rfl, hderives, hstopped⟩ := h
  rw [extend_extend] at hstopped
  exact ⟨items ++ taken, _, _, left, (List.append_assoc ..).symm, hproduction hderives, hstopped⟩

/-- What is shown of sequences of less than `n` items, if all structures are closed in the end: they
start with a list of nodes, and in the body of a control structure with its end. -/
structure SplitsBelow (isFunction : String → Bool) (b : Assembly) (n : Nat) : Prop where
  nodes : ∀ (items : List Item) (a : Assembly), items.foldlM (takeItem isFunction) a = .ok b →
    a.scope = ["$"] → items.length < n → Regular isFunction items →
    Splits isFunction b a.frames.isEmpty a.inLoop a items
  ends : ∀ (items : List Item) (a : Assembly) (kind : Control) (pos : Pos) (p : Pipeline)
    (chained : Bool) (outer : Outer) (frames : List Frame), Stopped isFunction a b items →
    a.frames = .control kind pos p none chained outer :: frames → a.scope = ["$"] →
    items.length < n → Regular isFunction items →
    SplitsEnds isFunction b kind pos p chained outer frames a items

section Step

variable {n : Nat} (ih : SplitsBelow isFunction b n) (hlength : items.length < n)
  (hscope : a.scope = ["$"])
include ih hlength hscope

/-- A control structure starts here: its body, its end and what comes after it. -/
theorem splits_control {pos : Pos} {kind : Control} {p : Pipeline}
    (hregular : Regular isFunction items)
    (h : items.foldlM (takeItem isFunction) (a.enter kind pos p false) = .ok b) :
    Splits isFunction b a.frames.isEmpty a.inLoop a (.action ⟨pos, .control kind p⟩ :: items) := by
  obtain ⟨body, bodyNodes, bodyDefs, middle, rfl, hbody, hstopped⟩ :=
    ih.nodes items _ h hscope hlength hregular
  rw [List.length_append] at hlength
  rw [regular_append] at hregular
  obtain ⟨ending, otherwise, endDefs, rest, left, rfl, hends, hleft, hrest⟩ :=
    ih.ends middle _ kind pos p false a.outer a.frames hstopped rfl hscope (by omega) hregular.2
  rw [List.length_append] at hlength
  rw [regular_append] at hregular
  rw [reverse_extend] at hleft
  obtain rfl : a.after (.control kind pos p bodyNodes otherwise) = left := Option.some.inj hleft
  rw [leave_enter] at hrest
  rw [← List.append_assoc, ← List.cons_append]
  exact (ih.nodes rest _ hrest hscope (by omega) hregular.2.2).production _ _ _ fun hrest =>
    .control hbody hends hrest

/-- A definition or a block starts here, and this is the production for it. -/
theorem splits_openDefinition {i : Item} {top : Bool} {name : String}
    {call : Option (Pos × Pipeline)} (htop : top = a.frames.isEmpty)
    (hproduction : ∀ {body bodyNodes bodyDefs stop taken others more},
      Derives false false body bodyNodes bodyDefs → Derives top a.inLoop taken others more →
      Derives top a.inLoop (i :: (body ++ [.action ⟨stop, .close⟩]) ++ taken)
        ((call.map fun (pos, data) => Node.invoke pos name (some data)).toList ++ others)
        (bodyDefs ++ [(name, bodyNodes)] ++ more))
    (hregular : Regular isFunction items)
    (h : items.foldlM (takeItem isFunction) (a.openDefinition name call) = .ok b) :
    Splits isFunction b top a.inLoop a (i :: items) := by
  obtain ⟨body, bodyNodes, bodyDefs, middle, rfl, hbody, hstopped⟩ :=
    ih.nodes items _ h rfl hlength hregular
  obtain ⟨stop, rest, rfl, hrest⟩ := hstopped.definition
  rw [List.length_append, List.length_cons] at hlength
  rw [regular_append, regular_cons] at hregular
  rw [List.append_cons, ← List.cons_append]
  have hrest := ih.nodes rest _ hrest hscope (by omega) hregular.2.2
  rw [htop] at hproduction ⊢
  exact hrest.production _ _ _ fun hrest => hproduction hbody hrest

/-- Lists of nodes of one item more. -/
theorem splits_cons {i : Item} (hregular : Regular isFunction (i :: items))
    (hclosed : b.frames = []) (h : (i :: items).foldlM (takeItem isFunction) a = .ok b) :
    Splits isFunction b a.frames.isEmpty a.inLoop a (i :: items) := by
  have hstop : Stops (i :: items) → Splits isFunction b a.frames.isEmpty a.inLoop a (i :: items) :=
    fun hstops => ⟨[], [], [], _, rfl, .nil, stopped_of_stops hstops hregular hscope hclosed h⟩
  have hnode : ∀ n : Node, a.takeItem isFunction i = .ok (a.push n) →
      (∀ {taken others more}, Derives a.frames.isEmpty a.inLoop taken others more →
        Derives a.frames.isEmpty a.inLoop (i :: taken) (n :: others) more) →
      Splits isFunction b a.frames.isEmpty a.inLoop a (i :: items) := by
    intro n hstep hproduction
    have hrest := ih.nodes items _ (foldlM_of_takeItem hstep h) hscope hlength
      (regular_cons.mp hregular).2
    exact hrest.production [i] [n] [] hproduction
  obtain ⟨hi, hitems⟩ := regular_cons.mp hregular
  rcases i with s | ⟨pos, clause⟩
  · exact hnode (.text s) rfl .text
  · cases clause with
    | pipeline p =>
      have hp := hi.pipelines p List.mem_cons_self
      have hstep : a.takeItem isFunction (.action ⟨pos, .pipeline p⟩) =
          .ok ((a.declare p).push (.action p)) := takeItem_pipeline (hp.check hscope)
      rw [hp.declare] at hstep
      exact hnode _ hstep .pipeline
    | control kind p =>
      have hp := hi.pipelines p List.mem_cons_self
      have hstep : a.takeItem isFunction (.action ⟨pos, .control kind p⟩) =
          .ok (a.opened kind pos p false) := takeItem_control (hp.check hscope)
      rw [opened_plain hp] at hstep
      exact splits_control ih hlength hscope hitems (foldlM_of_takeItem hstep h)
    | elseControl kind p => exact hstop .elseControl
    | otherwise => exact hstop .otherwise
    | close => exact hstop .close
    | definition name =>
      obtain ⟨c, hstep, h⟩ := exists_stepped h
      cases hstep with
      | definition hframes =>
        have htop : true = a.frames.isEmpty := by rw [hframes, List.isEmpty_nil]
        rw [← htop]
        exact splits_openDefinition ih hlength hscope htop .definition hitems h
    | invocation name data =>
      have hdata : ∀ p ∈ data, p.Plain isFunction :=
        fun p hp => hi.pipelines p (Option.mem_toList.mpr hp)
      exact hnode _ (takeItem_invocation fun p hp => (hdata p hp).check hscope) .invocation
    | block name p =>
      have hp := hi.pipelines p List.mem_cons_self
      exact splits_openDefinition ih hlength hscope rfl .block hitems
        (foldlM_of_takeItem (takeItem_block (hp.check hscope)) h)
    | jump kind =>
      obtain ⟨c, hstep, -⟩ := exists_stepped h
      cases hstep with
      | jump hloop =>
        refine hnode _ (takeItem_jump hloop) ?_
        rw [hloop]
        exact .jump

/-- Ends of control structures of one item more. -/
theorem splitsEnds_cons {i : Item} {kind : Control} {pos : Pos} {p : Pipeline} {chained : Bool}
    {outer : Outer} {frames : List Frame} (hregular : Regular isFunction (i :: items))
    (hframes : a.frames = .control kind pos p none chained outer :: frames)
    (h : Stopped isFunction a b (i :: items)) :
    SplitsEnds isFunction b kind pos p chained outer frames a (i :: items) := by
  obtain ⟨-, hitems⟩ := regular_cons.mp hregular
  cases h with
  | close hclose h =>
    rw [close_control hframes] at hclose
    obtain ⟨left, hleft, rfl⟩ := Option.map_eq_some_iff.mp hclose
    exact ⟨[_], none, [], items, left, rfl, .close, hleft, h⟩
  | otherwise hturned h =>
    rw [hframes] at hturned
    cases hturned
    obtain ⟨body, nodes, defs, middle, rfl, hbody, hstopped⟩ :=
      ih.nodes items _ h hscope hlength hitems
    obtain ⟨stop, rest, left, rfl, hleft, hrest⟩ := hstopped.turned
    rw [List.append_cons, ← List.cons_append]
    exact ⟨_, _, _, rest, left, rfl, .otherwise hbody, hleft, hrest⟩
  | elseControl hkind hturned h =>
    rw [hframes] at hturned
    cases hturned
    obtain ⟨body, nodes, defs, middle, rfl, hbody, hstopped⟩ :=
      ih.nodes items _ h hscope hlength hitems
    rw [List.length_append] at hlength
    rw [regular_append] at hitems
    obtain ⟨ending, last, endDefs, rest, left, rfl, hends, hleft, hrest⟩ :=
      ih.ends middle _ _ _ _ _ _ _ hstopped rfl hscope (by omega) hitems.2
    rw [reverse_extend] at hleft
    rw [extend_leave] at hrest
    rw [← List.append_assoc, ← List.cons_append]
    have hloop : (outer.inLoop || kind == .range) = outer.inLoop := by simp [hkind]
    exact ⟨_, _, _, rest, left, rfl, .elseControl hkind (hloop ▸ hbody) hends, hleft, hrest⟩

end Step

/-- Lists of nodes, and ends of control structures, are found in every sequence. -/
theorem splitsBelow (hclosed : b.frames = []) (n : Nat) : SplitsBelow isFunction b n := by
  induction n with
  | zero =>
    exact ⟨fun _ _ _ _ hlength => absurd hlength (Nat.not_lt_zero _),
      fun _ _ _ _ _ _ _ _ _ _ _ hlength => absurd hlength (Nat.not_lt_zero _)⟩
  | succ n ih =>
    refine ⟨?_, ?_⟩
    · intro items a h hscope hlength hregular
      cases items with
      | nil =>
        cases h
        exact ⟨[], [], [], [], rfl, .nil, .nil hclosed rfl⟩
      | cons i rest =>
        exact splits_cons ih (Nat.lt_of_succ_lt_succ hlength) hscope hregular hclosed h
    · intro items a kind pos p chained outer frames h hframes hscope hlength hregular
      cases items with
      | nil =>
        cases h with
        | nil hnone =>
          rw [hframes] at hnone
          cases hnone
      | cons i rest =>
        exact splitsEnds_cons ih (Nat.lt_of_succ_lt_succ hlength) hscope hregular hframes h

/-- Regular items are taken in and leave no structure open, if and only if they are well nested. -/
theorem foldlM_takeItem_empty_iff (hregular : Regular isFunction items) :
    items.foldlM (takeItem isFunction) .empty = .ok b ∧ b.frames = [] ↔
      ∃ nodes defs, Derives true false items nodes defs ∧ b = Assembly.empty.extend nodes defs := by
  constructor
  · rintro ⟨h, hclosed⟩
    have hsplits : SplitsBelow isFunction b (items.length + 1) := splitsBelow hclosed _
    obtain ⟨taken, nodes, defs, rest, rfl, hderives, hstopped⟩ :=
      hsplits.nodes items .empty h rfl (Nat.lt_succ_self _) hregular
    -- No structure is open, so none can end here.
    cases hstopped with
    | nil _ hb =>
      rw [List.append_nil]
      exact ⟨nodes, defs, hderives, hb.symm⟩
    | close hclose => cases hclose
    | otherwise hframes => cases hframes
    | elseControl _ hframes => cases hframes
  · rintro ⟨nodes, defs, hderives, rfl⟩
    have hplain : Plain isFunction items := fun i hi => (hregular i hi).pipelines
    exact ⟨hderives.follows_plain hplain, rfl⟩

end Follows

/-! ### Sources -/

section Sources

variable {isFunction : String → Bool} {source : List Char} {items : List Item}

/-- The keyword of a loop is not read after the keyword for otherwise. -/
theorem regular_of_items? (h : items? source = some items) (hplain : Plain isFunction items) :
    Regular isFunction items := by
  obtain ⟨found, -, hread⟩ := exists_of_items? h
  intro i hi
  refine ⟨hplain i hi, ?_⟩
  rintro pos kind p rfl
  obtain ⟨locate, body, haction⟩ := exists_readAction hread hi
  have hlexical : Clause.Lexical Region.anywhere.word (.elseControl kind p) :=
    (lexical_readAction trivial haction).2
  exact hlexical.2

/-- A source with plain pipelines is parsed if and only if its items are well nested, and to what
the grammar tells. -/
theorem parse_eq_ok_iff_derives {t : Template} (h : items? source = some items)
    (hplain : Plain isFunction items) :
    parse isFunction source = .ok t ↔
      ∃ nodes defs, Derives true false items nodes defs ∧ t = ⟨nodes, Entries.ofList defs⟩ := by
  rw [parse_eq_ok_iff_foldlM h]
  have hregular := regular_of_items? h hplain
  constructor
  · rintro ⟨a, hfold, hclosed, rfl⟩
    obtain ⟨nodes, defs, hderives, rfl⟩ :=
      (foldlM_takeItem_empty_iff hregular).mp ⟨hfold, hclosed⟩
    exact ⟨nodes, defs, hderives, by rw [reverse_extend]; rfl⟩
  · rintro ⟨nodes, defs, hderives, rfl⟩
    obtain ⟨hfold, hclosed⟩ :=
      (foldlM_takeItem_empty_iff hregular).mpr ⟨nodes, defs, hderives, rfl⟩
    exact ⟨_, hfold, hclosed, by rw [reverse_extend]; rfl⟩

end Sources

end BoundQuery.Template
