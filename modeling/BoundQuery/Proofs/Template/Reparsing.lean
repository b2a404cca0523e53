/-
# Canonical source is parsed to what it is written of

A template is parsed again of its canonical source, up to places and with adjacent texts merged, if
its literals and names are spelled so that they can be read, and if no text runs into the mark that
opens an action: texts are written as they are, with nothing to keep their braces apart.

Main statement: `parse_render_iff`.
-/

import BoundQuery.Proofs.Entries
import BoundQuery.Proofs.Template.Places
import BoundQuery.Proofs.Template.Recutting

namespace BoundQuery

namespace Template

open Text (Pos)

/-! ### Legible templates -/

/-- What the action of a node says. -/
def Node.clause? : Node → Option Clause
  | .text _ => none
  | .action p => some (.pipeline p)
  | .control kind _ p _ _ => some (.control kind p)
  | .invoke _ name data => some (.invocation name data)
  | .jump kind _ => some (.jump kind)

end Template

open Template in
/-- The literals of a template and the names in it are spelled so that they can be read: there are no
floats, and strings and names are made of legible characters. -/
structure Template.Legible (t : Template) : Prop where
  nodes : ∀ n ∈ t.nodes, ∀ c ∈ n.clause?, c.Legible
  definitions : ∀ d ∈ t.definitions, (Clause.definition d.1).Legible

/-- In the canonical source of a template the braces of its texts are apart from those that open
actions. -/
def Template.BracesApart (t : Template) : Prop :=
  Template.Apart t.merged.items

namespace Template

instance : DecidablePred Template.Legible := fun t =>
  decidable_of_iff ((∀ n ∈ t.nodes, ∀ c ∈ n.clause?, c.Legible) ∧
      ∀ d ∈ t.definitions, (Clause.definition d.1).Legible)
    ⟨fun h => ⟨h.1, h.2⟩, fun h => ⟨h.nodes, h.definitions⟩⟩

instance : DecidablePred Template.BracesApart := fun t =>
  decideApart t.merged.items

/-- Printable characters of ASCII can be read in string literals. -/
theorem legible_of_printable {c : Char} (hfirst : ' ' ≤ c) (hlast : c ≤ '~') : Scan.Legible c := by
  have hlast : c.toNat < 127 := Nat.lt_succ_of_le hlast
  exact Text.of_toNat_lt (P := fun c => ' ' ≤ c → Scan.Legible c) (by decide +kernel) hlast hfirst

/-! ### Items of a template -/

section Items

theorem Node.Says.and {T : String → Prop} {Q R : Clause → Prop} {n : Node} (h : n.Says T Q)
    (h' : ∀ c ∈ n.clause?, R c) : n.Says T fun c => Q c ∧ R c := by
  cases n with
  | text => exact h
  | action | control | invoke | jump => exact ⟨h, h' _ rfl⟩

theorem readable_of_no_parts {c : Clause} (hpipelines : c.pipelines = []) (hnames : c.names = []) :
    c.Readable := by
  refine ⟨Clause.lexical_of_no_pipelines hpipelines, ?_, ?_⟩
  · simp [hpipelines]
  · simp [hnames]

/-- The items of a parsed template, with its adjacent texts merged, can be written and read again. -/
theorem readable_merged {isFunction : String → Bool} {source : List Char} {t : Template}
    (h : parse isFunction source = .ok t) (hlegible : t.Legible) :
    ∀ i ∈ t.merged.items, i.Readable := by
  have hnodes : ∀ n ∈ t.nodes, n.Says (· ≠ "") Clause.Readable := by
    have hlexical : ∀ n ∈ t.nodes, n.Says (· ≠ "") fun c => c.Lexical Region.ascii.word := by
      refine holds_parse (fun chars hchars => ?_) (fun _ hbody _ _ haction => ?_) h
      · simpa using hchars.ne_nil
      · exact (lexical_isBody hbody haction).canonical
    intro n hn
    exact (hlexical n hn).and (hlegible.nodes n hn)
  have happend : ∀ s s' : String, s ≠ "" → s' ≠ "" → s ++ s' ≠ "" := by
    intro s s' hs _ hempty
    exact hs (String.append_eq_empty_iff.mp hempty).1
  have hdefinition : ∀ d ∈ t.merged.definitions, Clause.Readable (.definition d.1) := by
    intro d hd
    obtain ⟨nodes, hmem, -⟩ := mem_mergedDefinitions.mp hd
    have hname := hlegible.definitions _ hmem
    exact ⟨trivial, hname⟩
  have hwords : HoldsOfWords Clause.Readable :=
    ⟨readable_of_no_parts rfl rfl, readable_of_no_parts rfl rfl⟩
  exact says_templateItems hwords hdefinition (says_merged_template happend hnodes)

end Items

/-! ### Definitions in order -/

section Ordered

variable {isFunction : String → Bool} {source : List Char} {a b : Assembly}

theorem ordered_step {pos : Text.Pos} {clause : Clause} (h : a.definitions.Ordered)
    (hstep : a.Stepped isFunction pos clause b) : b.definitions.Ordered := by
  cases hstep with
  | pipeline | definition | invocation | block | jump => exact h
  | control hopen =>
    obtain ⟨-, rfl⟩ := Assembly.openControl_eq_ok hopen
    exact h
  | otherwise hend =>
    obtain ⟨pos, p, chained, outer, frames, -, rfl⟩ := Assembly.endBody_eq_ok hend
    exact h
  | elseControl hend hopen =>
    obtain ⟨pos, p, chained, outer, frames, -, rfl⟩ := Assembly.endBody_eq_ok hend
    obtain ⟨-, rfl⟩ := Assembly.openControl_eq_ok hopen
    exact h
  | close hclose =>
    rcases Assembly.close_eq_some hclose with
      ⟨name, call, outer, frames, -, rfl⟩ | ⟨outer, frames, -, rfl⟩
    · exact h.insert name _
    · exact h

theorem ordered_assembled (h : Assembled isFunction source a) : a.definitions.Ordered := by
  induction h with
  | empty => exact Entries.ordered_nil
  | text _ _ ih => exact ih
  | action _ _ _ hstep ih => exact ordered_step ih hstep

/-- The definitions of a parsed template are in order. -/
theorem ordered_parse {t : Template} (h : parse isFunction source = .ok t) :
    t.definitions.Ordered := by
  obtain ⟨a, hassembled, -, rfl⟩ := exists_assembled_of_parse h
  exact ordered_assembled hassembled

end Ordered

/-! ### Canonical source -/

section Render

variable {isFunction : String → Bool} {source : List Char} {t : Template}

/-- Items that differ in places at most from those of a template that passes its checks are parsed to
it, up to places. -/
theorem parse_of_sameItems {items : List Item} (hitems : items? source = some items)
    (hsame : SameItems items t.items) (hchecked : t.Checked isFunction)
    (hordered : t.definitions.Ordered) :
    ∃ t', parse isFunction source = .ok t' ∧ t'.unplaced = t.unplaced := by
  obtain ⟨nodes, defs, hderives, hnodes, hdefs⟩ := hchecked.derives.transfer _ hsame
  have hchecks : CheckedNodes ⟨isFunction, ["$"]⟩ false nodes := hchecked.root.of_unplaced hnodes
  have hdefinitions : DefinitionsChecked isFunction defs :=
    definitionsChecked_of_unplaced hchecked.definitions hdefs
  have hfold := hderives.follows hdefinitions .empty hchecks rfl fun _ => rfl
  refine ⟨⟨nodes, Entries.ofList defs⟩, ?_, ?_⟩
  · rw [parse_eq_ok_iff_foldlM hitems]
    refine ⟨_, hfold, rfl, ?_⟩
    rw [Assembly.reverse_grow]
    rfl
  · have hstored : Entries.ofList t.definitions = t.definitions :=
      Entries.ofList_of_ordered hordered
    rw [unplaced_template hnodes hdefs, hstored]

theorem exists_parse_render (h : parse isFunction source = .ok t) (hlegible : t.Legible)
    (hapart : t.BracesApart) :
    ∃ t', parse isFunction t.render = .ok t' ∧ t'.unplaced = t.merged.unplaced := by
  obtain ⟨items, hitems, hsame⟩ :=
    exists_items (readable_merged h hlegible) (separate_items t) hapart
  rw [← Template.render_eq, render_merged_template] at hitems
  have hordered : t.merged.definitions.Ordered := (ordered_parse h).map mergedNodes
  exact parse_of_sameItems hitems hsame (checked_parse h).merged hordered

/-- No action opens in a text of a parsed template. -/
theorem unopened_of_mem_texts (h : parse isFunction source = .ok t) {s : String}
    (hs : s ∈ t.texts) : ¬ opening <:+: s.toList := by
  have hnodes : ∀ n ∈ t.nodes, n.Says (fun s => ¬ opening <:+: s.toList) fun _ => True := by
    refine holds_parse (fun chars hchars => ?_) (fun _ _ _ _ _ => trivial) h
    simpa using hchars.unopened
  obtain ⟨n, hn, htext⟩ := List.mem_filterMap.mp hs
  obtain rfl := eq_text_of_text? htext
  exact hnodes _ hn

/-- The texts among the items of a template are its texts. -/
theorem mem_texts_of_mem_items {s : String} (h : .text s ∈ t.items) : s ∈ t.texts := by
  have hnodes : ∀ n ∈ t.nodes, n.Says (· ∈ t.texts) fun _ => True := by
    intro n hn
    cases n with
    | text s => exact mem_texts hn
    | action | control | invoke | jump => trivial
  exact says_templateItems ⟨trivial, trivial⟩ (fun _ _ => trivial) hnodes _ h

/-- If canonical source is parsed to what it is written of, no text runs into an action. -/
theorem apart_of_parse_render {t' : Template} (h : parse isFunction source = .ok t)
    (hlegible : t.Legible) (hrender : parse isFunction t.render = .ok t')
    (hsame : t'.unplaced = t.merged.unplaced) : t.BracesApart := by
  have htexts : ∀ s, .text s ∈ t.merged.items → ¬ opening <:+: s.toList := by
    intro s hs
    have hmem : s ∈ t.merged.texts := mem_texts_of_mem_items hs
    rw [← texts_unplaced, ← hsame, texts_unplaced] at hmem
    exact unopened_of_mem_texts hrender hmem
  obtain ⟨found, hfound, hread⟩ := exists_readAction_of_parse hrender
  have hunbraced : Unbraced found := by
    intro start bodyStart body hmem
    obtain ⟨locate, action, haction⟩ := hread start bodyStart body hmem
    exact head?_of_readAction haction
  rw [← render_merged_template, Template.render_eq] at hfound
  exact apart_of_segments _ found (readable_merged h hlegible) (separate_items t) htexts hfound
    hunbraced

/-- A parsed template that is legible is parsed again of its canonical source, up to places and with
adjacent texts merged, if and only if the braces of its texts are apart from those that open actions:
a text is written as it is, and one brace at its end makes another mark of the one that follows. -/
theorem parse_render_iff (h : parse isFunction source = .ok t) (hlegible : t.Legible) :
    (∃ t', parse isFunction t.render = .ok t' ∧ t'.unplaced = t.merged.unplaced) ↔
      t.BracesApart := by
  constructor
  · rintro ⟨t', hrender, hsame⟩
    exact apart_of_parse_render h hlegible hrender hsame
  · intro hapart
    exact exists_parse_render h hlegible hapart

/-- A source with trim markers, a comment, a definition after the text, a block, and a condition
after `else`. -/
theorem parse_render_iff_hoisted :
    ∃ t, parse (· == "f") ("a \x7b\x7b- /* b */ -\x7d\x7d c\x7b\x7bdefine \"x\"\x7d\x7d".toList ++
        "\x7b\x7bf \"%d\" .A\x7d\x7d{{end}}\x7b {{range $i, $v := .L}}{{if $v.B}}d".toList ++
        "{{else if $i}}{{break}}{{end}}{{end}}\x7b\x7bblock \"y\" .C\x7d\x7de{{end}}".toList) = .ok t ∧
      t.Legible ∧ t.BracesApart ∧
      ∃ t', parse (· == "f") t.render = .ok t' ∧ t'.unplaced = t.merged.unplaced := by
  obtain ⟨t, ht, hall⟩ := exists_of_any
    (x := parse (· == "f") ("a \x7b\x7b- /* b */ -\x7d\x7d c\x7b\x7bdefine \"x\"\x7d\x7d".toList ++
      "\x7b\x7bf \"%d\" .A\x7d\x7d{{end}}\x7b {{range $i, $v := .L}}{{if $v.B}}d".toList ++
      "{{else if $i}}{{break}}{{end}}{{end}}\x7b\x7bblock \"y\" .C\x7d\x7de{{end}}".toList))
    (p := fun t => decide (t.Legible ∧ t.BracesApart)) (by decide +kernel)
  obtain ⟨hlegible, hapart⟩ := of_decide_eq_true hall
  exact ⟨t, ht, hlegible, hapart, (parse_render_iff ht hlegible).mpr hapart⟩

/-- A brace that a trim marker brings next to an action: the canonical source is refused. -/
theorem brace_meets_action :
    ∃ t, parse (fun _ => false) "\x7b \x7b\x7b- .A\x7d\x7d".toList = .ok t ∧ t.Legible ∧
      ∀ t', parse (fun _ => false) t.render ≠ .ok t' := by
  obtain ⟨t, ht, hall⟩ := exists_of_any
    (x := parse (fun _ => false) "\x7b \x7b\x7b- .A\x7d\x7d".toList)
    (p := fun t => decide (t.Legible ∧ (parse (fun _ => false) t.render).toOption.isNone))
    (by decide +kernel)
  obtain ⟨hlegible, hnone⟩ := of_decide_eq_true hall
  refine ⟨t, ht, hlegible, ?_⟩
  intro t' ht'
  rw [ht'] at hnone
  cases hnone

end Render

end Template

end BoundQuery
