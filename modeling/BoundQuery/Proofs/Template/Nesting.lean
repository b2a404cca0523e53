/-
# Structures that go on

After the keyword for otherwise a control structure may go on with another one, and both have one
closing keyword. Said at length, the other structure is nested after the keyword and has a closing
keyword of its own. A source in which this is said at length is parsed to the same template, up to
positions.

Main statements: `Derives.unchain`, `parse_exactly`.
-/

import BoundQuery.Proofs.Template.Derivations
import BoundQuery.Proofs.Template.Unplaced

namespace BoundQuery.Template

open Text (Pos)

/-! ### Structures said at length -/

/-- The keyword for otherwise, and after it a structure of its own with the items inside. -/
def nested (turned : Pos) (kind : Control) (q : Pipeline) (inner : List Item) : List Item :=
  .action ⟨turned, .otherwise⟩ ::
    (.action ⟨turned, .control kind q⟩ :: inner ++ [.action ⟨turned, .close⟩])

/-- In place of a keyword with a structure that goes on, between what comes before and after it, the
structure can be nested, where the items inside are a body and an end. -/
def Unchains (before : List Item) (turned : Pos) (kind : Control) (q : Pipeline) (rest : List Item)
    (Holds : List Item → Prop) : Prop :=
  ∃ inner after inLoop otherwise defs, rest = inner ++ after ∧
    Ends kind inLoop (.action ⟨turned, .elseControl kind q⟩ :: inner) otherwise defs ∧
    Holds (before ++ nested turned kind q inner ++ after)

section Unchain

variable {turned : Pos} {kind : Control} {q : Pipeline}

/-- What comes before and after may be the parts of more. -/
theorem Unchains.within {before before' rest rest' : List Item} {Holds Holds' : List Item → Prop}
    (h : Unchains before turned kind q rest Holds) (first last : List Item)
    (hbefore : before' = first ++ before) (hrest : rest' = rest ++ last)
    (hmap : ∀ items, Holds items → Holds' (first ++ items ++ last)) :
    Unchains before' turned kind q rest' Holds' := by
  obtain ⟨inner, after, inLoop, otherwise, defs, rfl, hends, hholds⟩ := h
  refine ⟨inner, after ++ last, inLoop, otherwise, defs, by simp [hrest], hends, ?_⟩
  rw [hbefore]
  simpa using hmap _ hholds

/-- An item of two sequences is one of the first or one of the second. -/
theorem append_eq_split {items others before rest : List Item} {e : Item}
    (h : items ++ others = before ++ e :: rest) :
    (∃ between, items = before ++ e :: between ∧ rest = between ++ others) ∨
      ∃ between, before = items ++ between ∧ others = between ++ e :: rest := by
  rcases List.append_eq_append_iff.mp h with ⟨between, hbefore, hothers⟩ | ⟨between, hitems, hrest⟩
  · exact .inr ⟨between, hbefore, hothers⟩
  · cases between with
    | nil => exact .inr ⟨[], by simpa using hitems.symm, hrest.symm⟩
    | cons i between =>
      obtain ⟨rfl, hafter⟩ := List.cons_eq_cons.mp hrest
      exact .inl ⟨between, hitems, hafter⟩

theorem cons_eq_split {i e : Item} {items before rest : List Item}
    (h : i :: items = before ++ e :: rest) (hne : i ≠ e) :
    ∃ between, before = i :: between ∧ items = between ++ e :: rest := by
  cases before with
  | nil => exact absurd (List.cons_eq_cons.mp h).1 hne
  | cons j between =>
    obtain ⟨rfl, hitems⟩ := List.cons_eq_cons.mp h
    exact ⟨between, rfl, hitems⟩

theorem append_close_eq_split {items before rest : List Item} {stop : Pos}
    (h : items ++ [.action ⟨stop, .close⟩] =
      before ++ .action ⟨turned, .elseControl kind q⟩ :: rest) :
    ∃ between, items = before ++ .action ⟨turned, .elseControl kind q⟩ :: between ∧
      rest = between ++ [.action ⟨stop, .close⟩] := by
  rcases append_eq_split h with hitems | ⟨between, -, hclose⟩
  · exact hitems
  · obtain ⟨none, rfl, hnone⟩ := cons_eq_split hclose (by simp)
    cases none <;> cases hnone

/-- An item before that is not the keyword. -/
theorem unchains_cons {i : Item} {items before rest : List Item} {Holds Holds' : List Item → Prop}
    (h : i :: items = before ++ .action ⟨turned, .elseControl kind q⟩ :: rest)
    (hne : i ≠ .action ⟨turned, .elseControl kind q⟩)
    (hitems : ∀ {between}, items = between ++ .action ⟨turned, .elseControl kind q⟩ :: rest →
      Unchains between turned kind q rest Holds)
    (hmap : ∀ items, Holds items → Holds' (i :: items)) :
    Unchains before turned kind q rest Holds' := by
  obtain ⟨between, rfl, hafter⟩ := cons_eq_split h hne
  refine (hitems hafter).within [i] [] rfl (List.append_nil rest).symm fun items hholds => ?_
  rw [List.append_nil]
  exact hmap items hholds

/-- The structure that goes on is nested, as the same node after `else`. -/
theorem unchains_self {inLoop : Bool} {inner : List Item} {otherwise : Option (List Node)}
    {defs : Definitions}
    (h : Ends kind inLoop (.action ⟨turned, .elseControl kind q⟩ :: inner) otherwise defs) :
    Unchains [] turned kind q inner fun items => Ends kind inLoop items otherwise defs := by
  refine ⟨inner, [], inLoop, otherwise, defs, (List.append_nil inner).symm, h, ?_⟩
  rw [List.nil_append, List.append_nil]
  cases h with
  | @elseControl _ _ _ _ body ending bodyNodes last bodyDefs endDefs hkind hbody hends =>
    have hloop : inLoop = (inLoop || kind == .range) := by simp [hkind]
    have hcontrol : Derives false inLoop
        (.action ⟨turned, .control kind q⟩ :: (body ++ ending) ++ [])
        [.control kind turned q bodyNodes last] (bodyDefs ++ endDefs ++ []) :=
      .control (hloop ▸ hbody) hends .nil
    rw [List.append_nil, List.append_nil] at hcontrol
    exact .otherwise hcontrol

mutual

/-- What goes on after a keyword for otherwise can be nested: the nodes and definitions stay. -/
theorem Derives.unchain {top inLoop : Bool} {items before rest : List Item} {nodes : List Node}
    {defs : Definitions} :
    Derives top inLoop items nodes defs →
      items = before ++ .action ⟨turned, .elseControl kind q⟩ :: rest →
      Unchains before turned kind q rest fun items => Derives top inLoop items nodes defs
  | .nil, h => by cases before <;> cases h
  | .text hrest, h =>
    unchains_cons h (by simp) (fun hitems => hrest.unchain hitems) fun _ => .text
  | .pipeline hrest, h =>
    unchains_cons h (by simp) (fun hitems => hrest.unchain hitems) fun _ => .pipeline
  | .invocation hrest, h =>
    unchains_cons h (by simp) (fun hitems => hrest.unchain hitems) fun _ => .invocation
  | .jump hrest, h =>
    unchains_cons h (by simp) (fun hitems => hrest.unchain hitems) fun _ => .jump
  | .control hbody hends hrest, h => by
    rcases append_eq_split h with ⟨_, hcontrol, rfl⟩ | ⟨_, rfl, hitems⟩
    · obtain ⟨_, rfl, hinner⟩ := cons_eq_split hcontrol (by simp)
      rcases append_eq_split hinner with ⟨_, hitems, rfl⟩ | ⟨_, rfl, hitems⟩
      · exact (hbody.unchain hitems).within [_] _ rfl (List.append_assoc ..) fun _ h => by
          simpa using Derives.control h hends hrest
      · exact (hends.unchain hitems).within (_ :: _) _ rfl rfl fun _ h => by
          simpa using Derives.control hbody h hrest
    · exact (hrest.unchain hitems).within _ [] rfl (by simp) fun _ h => by
        simpa using Derives.control hbody hends h
  | .definition hbody hrest, h => by
    rcases append_eq_split h with ⟨_, hdefinition, rfl⟩ | ⟨_, rfl, hitems⟩
    · obtain ⟨_, rfl, hinner⟩ := cons_eq_split hdefinition (by simp)
      obtain ⟨_, hitems, rfl⟩ := append_close_eq_split hinner
      exact (hbody.unchain hitems).within [_] _ rfl (List.append_assoc ..) fun _ h => by
        simpa using Derives.definition h hrest
    · exact (hrest.unchain hitems).within _ [] rfl (by simp) fun _ h => by
        simpa using Derives.definition hbody h
  | .block hbody hrest, h => by
    rcases append_eq_split h with ⟨_, hblock, rfl⟩ | ⟨_, rfl, hitems⟩
    · obtain ⟨_, rfl, hinner⟩ := cons_eq_split hblock (by simp)
      obtain ⟨_, hitems, rfl⟩ := append_close_eq_split hinner
      exact (hbody.unchain hitems).within [_] _ rfl (List.append_assoc ..) fun _ h => by
        simpa using Derives.block h hrest
    · exact (hrest.unchain hitems).within _ [] rfl (by simp) fun _ h => by
        simpa using Derives.block hbody h

theorem Ends.unchain {around : Control} {inLoop : Bool} {items before rest : List Item}
    {otherwise : Option (List Node)} {defs : Definitions} :
    Ends around inLoop items otherwise defs →
      items = before ++ .action ⟨turned, .elseControl kind q⟩ :: rest →
      Unchains before turned kind q rest fun items => Ends around inLoop items otherwise defs
  | .close, h => by
    obtain ⟨between, rfl, hitems⟩ := cons_eq_split h (by simp)
    cases between <;> cases hitems
  | .otherwise hbody, h => by
    obtain ⟨_, rfl, hinner⟩ := cons_eq_split h (by simp)
    obtain ⟨_, hitems, rfl⟩ := append_close_eq_split hinner
    exact (hbody.unchain hitems).within [_] [_] rfl rfl fun _ h => .otherwise h
  | .elseControl hkind hbody hends, h => by
    cases before with
    | nil =>
      cases h
      exact unchains_self (.elseControl hkind hbody hends)
    | cons first before =>
      obtain ⟨rfl, hinner⟩ := List.cons_eq_cons.mp h
      rcases append_eq_split hinner with ⟨_, hitems, rfl⟩ | ⟨_, rfl, hitems⟩
      · exact (hbody.unchain hitems).within [_] _ rfl rfl fun _ h => by
          simpa using Ends.elseControl hkind h hends
      · exact (hends.unchain hitems).within (_ :: _) [] rfl (by simp) fun _ h => by
          simpa using Ends.elseControl hkind hbody h

end

end Unchain

/-! ### Sources -/

/-- Every source with plain pipelines and, up to positions, with these items is parsed to the
template, up to positions. -/
def ParsedTo (isFunction : String → Bool) (t : Template) (items : List Item) : Prop :=
  ∀ source others, items? source = some others → Plain isFunction others → SameItems others items →
    ∃ t', parse isFunction source = .ok t' ∧ t'.unplaced = t.unplaced

/-- The templates of sources with plain pipelines are what the grammar of structures tells: a source
is parsed if and only if its items are well nested. A structure that goes on after the keyword for
otherwise stands for what is said at length: a source where it is nested is parsed to the same
template, up to positions. -/
theorem parse_exactly {isFunction : String → Bool} {source : List Char} {items : List Item}
    (hitems : items? source = some items) (hplain : Plain isFunction items) :
    (∀ t, parse isFunction source = .ok t ↔
      ∃ nodes defs, Derives true false items nodes defs ∧ t = ⟨nodes, Entries.ofList defs⟩) ∧
    ∀ t, parse isFunction source = .ok t → ∀ before turned kind q rest,
      items = before ++ .action ⟨turned, .elseControl kind q⟩ :: rest →
      Unchains before turned kind q rest (ParsedTo isFunction t) := by
  refine ⟨fun t => parse_eq_ok_iff_derives hitems hplain, ?_⟩
  intro t ht before turned kind q rest hrest
  obtain ⟨nodes, defs, hderives, rfl⟩ := (parse_eq_ok_iff_derives hitems hplain).mp ht
  obtain ⟨inner, after, inLoop, otherwise, endDefs, hinner, hends, hunchained⟩ :=
    hderives.unchain hrest
  refine ⟨inner, after, inLoop, otherwise, endDefs, hinner, hends, ?_⟩
  intro source' items' hitems' hplain' hsame
  obtain ⟨nodes', defs', hderives', hnodes, hdefs⟩ := hunchained.transfer _ hsame
  have ht' := (parse_eq_ok_iff_derives hitems' hplain').mpr ⟨nodes', defs', hderives', rfl⟩
  exact ⟨_, ht', unplaced_template hnodes hdefs⟩

theorem parse_exactly_chained :
    ∃ (items before rest : List Item) (t : Template) (nodes : List Node)
      (defs : Definitions) (turned : Pos) (q : Pipeline),
      items? ("{{range f $}}{{if .B}}{{break}}{{else if .C}}".toList ++
        "\x7b\x7bblock \"D\" .\x7d\x7dx{{end}}{{end}}{{else}}y{{end}}".toList) = some items ∧
      Plain (· == "f") items ∧
      parse (· == "f") ("{{range f $}}{{if .B}}{{break}}{{else if .C}}".toList ++
        "\x7b\x7bblock \"D\" .\x7d\x7dx{{end}}{{end}}{{else}}y{{end}}".toList) = .ok t ∧
      Derives true false items nodes defs ∧ t = ⟨nodes, Entries.ofList defs⟩ ∧
      items = before ++ .action ⟨turned, .elseControl .cond q⟩ :: rest ∧
      Unchains before turned .cond q rest (ParsedTo (· == "f") t) := by
  let source : List Char := "{{range f $}}{{if .B}}{{break}}{{else if .C}}".toList ++
    "\x7b\x7bblock \"D\" .\x7d\x7dx{{end}}{{end}}{{else}}y{{end}}".toList
  have hread : (items? source).any (fun items =>
      (items.all fun i => i.pipelines.all fun p =>
        (Names.checkPipeline ⟨(· == "f"), ["$"]⟩ 0 .command p).toOption.isSome) &&
      items.any fun
        | .action ⟨_, .elseControl .cond _⟩ => true
        | _ => false) = true := by
    decide +kernel
  obtain ⟨t, ht, -⟩ := exists_of_any (x := parse (· == "f") source) (p := fun _ => true)
    (by decide +kernel)
  obtain ⟨items, hitems, hread⟩ := (Option.any_eq_true ..).mp hread
  obtain ⟨hchecked, hchained⟩ := Bool.and_eq_true_iff.mp hread
  have hplain : Plain (· == "f") items := by
    intro i hi p hp
    have hcheck := List.all_eq_true.mp (List.all_eq_true.mp hchecked i hi) p hp
    obtain ⟨u, hcheck⟩ := Option.isSome_iff_exists.mp hcheck
    exact Pipeline.plain_of_checkPipeline (toOption_eq_some_iff.mp hcheck)
  obtain ⟨i, hi, hkeyword⟩ := List.any_eq_true.mp hchained
  obtain ⟨before, rest, hsplit⟩ := List.append_of_mem hi
  split at hkeyword
  · rename_i turned q
    obtain ⟨hderives, hunchains⟩ := parse_exactly hitems hplain
    obtain ⟨nodes, defs, hnodes, htemplate⟩ := (hderives t).mp ht
    exact ⟨items, before, rest, t, nodes, defs, turned, q, hitems, hplain, ht, hnodes, htemplate,
      hsplit, hunchains t ht before turned .cond q rest hsplit⟩
  · cases hkeyword

end BoundQuery.Template
