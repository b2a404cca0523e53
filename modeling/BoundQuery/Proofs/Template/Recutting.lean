/-
# Canonical source is cut into its items

Where texts do not meet, and the brace that ends a text does not meet the mark that opens an action,
the canonical source of items is cut where they were put together. So its items are read back, up to
places.

Main statements: `exists_items`, `apart_of_segments`.
-/

import BoundQuery.Proofs.Template.Ascii
import BoundQuery.Proofs.Template.Merging
import BoundQuery.Proofs.Template.Rereading

namespace BoundQuery.Template

open Text (Pos utf8Length)

/-! ### Canonical clauses -/

section Clauses

variable {W : List Char → Prop} {c : Clause}

theorem Clause.Lexical.canonical (h : c.Lexical W) : c.canonical.Lexical W := by
  cases c with
  | elseControl kind p => exact h.1
  | block name p =>
    intro q hq
    cases hq
    exact h
  | pipeline | control | otherwise | close | definition | invocation | jump => exact h

/-- The canonical body of an action is passed over, literal by literal. -/
theorem Clause.Lexical.passed_render (h : c.Lexical Region.ascii.word) (hlegible : c.Legible) :
    Passed Ascii c.render := by
  obtain ⟨hterms, hnames⟩ := hlegible
  have hspace : Passed Ascii [' '] := passed_of_bare (by decide)
  have hword : ∀ keyword : String, keyword ∈ keywords → Passed Ascii keyword.toList := by
    intro keyword hkeyword
    have hall : keywords.all (fun keyword => keyword.toList.all fun c => decide (Bare c)) = true := by
      decide
    apply passed_of_bare
    intro c hc
    exact of_decide_eq_true (List.all_eq_true.mp (List.all_eq_true.mp hall keyword hkeyword) c hc)
  have hafter : ∀ {keyword : String} {cs : List Char}, keyword ∈ keywords → Passed Ascii cs →
      Passed Ascii (keyword.toList ++ ' ' :: cs) :=
    fun hkeyword hcs => (hword _ hkeyword).append (hspace.append hcs)
  cases c with
  | pipeline p => exact h.1.passed_render (hterms p List.mem_cons_self)
  | control kind p =>
    rw [render_control]
    exact hafter (by cases kind <;> decide) (h.passed_render (hterms p List.mem_cons_self))
  | elseControl kind p =>
    rw [render_elseControl]
    apply hafter (by decide)
    exact hafter (by cases kind <;> decide) (h.1.passed_render (hterms p List.mem_cons_self))
  | otherwise => exact hword "else" (by decide)
  | close => exact hword "end" (by decide)
  | definition name =>
    rw [render_definition]
    exact hafter (by decide) (passed_string (hnames name List.mem_cons_self))
  | invocation name data =>
    rw [render_invocation]
    apply hafter (by decide)
    apply (passed_string (hnames name List.mem_cons_self)).append
    cases data with
    | none => exact passed_nil
    | some p => exact hspace.append ((h p rfl).1.passed_render (hterms p List.mem_cons_self))
  | block name p =>
    rw [render_block]
    have hp := h.1.passed_render (hterms p List.mem_cons_self)
    exact hafter (by decide) ((passed_string (hnames name List.mem_cons_self)).append (hspace.append hp))
  | jump kind =>
    rw [render_word rfl]
    exact hword _ (by cases kind <;> decide)

/-- The mark that closes an action in canonical source is the first one that is found, also after a
brace. -/
theorem readTag_brace (h : c.Lexical Region.ascii.word) (hlegible : c.Legible) (after : List Char) :
    readTag ('\x7b' :: c.render ++ closing ++ after) =
      .ok (⟨false, false, '\x7b' :: c.render, false⟩, after) := by
  obtain ⟨action, hread, -⟩ := readAction_render h hlegible fun _ => .start
  have hspans := spans_of_notMem (by decide : '\x7b' ∉ marks) (spans_readAction hread)
  have hbrace : Passed Ascii ['\x7b'] := passed_of_bare (by decide)
  exact readTag_of_spans hspans (hbrace.append (h.passed_render hlegible)).bare after

/-- The mark that closes an action in canonical source is the first one that is found. -/
theorem readTag_render (h : c.Lexical Region.ascii.word) (hlegible : c.Legible) (after : List Char) :
    readTag (c.render ++ closing ++ after) = .ok (⟨false, false, c.render, false⟩, after) := by
  obtain ⟨action, hread, -⟩ := readAction_render h hlegible fun _ => .start
  exact readTag_of_spans (spans_readAction hread) (h.passed_render hlegible).bare after

end Clauses

/-! ### Segments -/

/-- The canonical source of the clause can be read: it can be written in ASCII, and it is legible. -/
def Clause.Readable (c : Clause) : Prop :=
  c.Lexical Region.ascii.word ∧ c.Legible

/-- The item can be written and read again. -/
abbrev Item.Readable (i : Item) : Prop :=
  i.Says (· ≠ "") Clause.Readable

/-- The segment is the canonical source of the item. -/
inductive Segment.Spells : Segment → Item → Prop
  | text {s : String} : Spells (.text s.toList) (.text s)
  | action {start bodyStart : Nat} {a : Action} :
      Spells (.action start bodyStart a.clause.render) (.action a)

theorem Segment.Spells.shift {s : Segment} {i : Item} (h : s.Spells i) (bytes : Nat) :
    (s.shift bytes).Spells i := by
  cases h with
  | text => exact .text
  | action => exact .action

/-- Whatever source it stands in, the canonical source of an item is read as the item, up to
places. -/
theorem Segment.Spells.exists_item {s : Segment} {i : Item} (h : s.Spells i) (hi : i.Readable)
    (source : List Char) : ∃ i', s.item? source = some i' ∧ i'.Same i := by
  cases h with
  | @text s =>
    refine ⟨.text s, ?_, .text⟩
    rw [Segment.item?, String.ofList_toList]
  | @action start bodyStart a =>
    obtain ⟨pos, c⟩ := a
    obtain ⟨⟨pos', d⟩, hread, hsame⟩ := readAction_render hi.1 hi.2
      (locateIn (Text.positionAt source bodyStart) c.render)
    refine ⟨.action ⟨pos', d⟩, ?_, .action hsame⟩
    rw [Segment.item?, hread]
    rfl

/-- What is read of segments that are the canonical source of items. -/
theorem items?_of_spells {source : List Char} {found : List Segment} {items : List Item}
    (hfound : segments source = .ok found) (h : List.Forall₂ Segment.Spells found items)
    (hitems : ∀ i ∈ items, i.Readable) :
    ∃ items', items? source = some items' ∧ SameItems items' items := by
  have hread : ∃ items', found.mapM (Segment.item? source) = some items' ∧
      SameItems items' items := by
    clear hfound
    induction h with
    | nil => exact ⟨[], rfl, .nil⟩
    | @cons s i found items hspells _ ih =>
      rw [List.forall_mem_cons] at hitems
      obtain ⟨i', hi', hsame⟩ := hspells.exists_item hitems.1 source
      obtain ⟨items', hitems', hrest⟩ := ih hitems.2
      refine ⟨i' :: items', ?_, .cons hsame hrest⟩
      rw [List.mapM_cons, hi', hitems']
      rfl
  obtain ⟨items', hitems', hsame⟩ := hread
  refine ⟨items', ?_, hsame⟩
  rw [items?, hfound]
  exact hitems'

/-! ### Braces -/

/-- In the source of the items no mark that opens an action stands in a text, and none starts with
the last brace of a text. -/
def Apart : List Item → Prop
  | [] => True
  | .text s :: rest =>
    ¬ opening <:+: s.toList ∧ (rest.isEmpty = false → s.toList.getLast? ≠ some '\x7b') ∧
      Apart rest
  | .action _ :: rest => Apart rest

/-- Whether braces are apart can be decided item by item. -/
def decideApart : (items : List Item) → Decidable (Apart items)
  | [] => .isTrue trivial
  | .text _ :: rest =>
    have := decideApart rest
    inferInstanceAs (Decidable (_ ∧ _ ∧ _))
  | .action _ :: rest => decideApart rest

instance : DecidablePred Apart :=
  decideApart

/-! ### Items -/

section Items

theorem segments_of_unopened {text : List Char} (hopening : ¬ opening <:+: text) :
    segments text = .ok (if text = [] then [] else [.text text]) := by
  rw [segments, cut_of_none (cutOpening_of_unopened hopening)]
  cases text <;> rfl

theorem append_renderItems_action (text : List Char) (a : Action) (rest : List Item) :
    text ++ renderItems (.action a :: rest) =
      text ++ opening ++ a.clause.render ++ closing ++ renderItems rest := by
  rw [renderItems_cons, Item.render, tag]
  simp only [List.append_assoc]

/-- An action is cut out after a text. -/
theorem exists_segments_action (text : List Char) {a : Action} {rest : List Item}
    (hopening : ¬ opening <:+: text) (hlast : text.getLast? ≠ some '\x7b')
    (ha : Item.Readable (.action a))
    (hrest : ∃ found, segments (renderItems rest) = .ok found ∧
      List.Forall₂ Segment.Spells found rest) :
    ∃ found, segments (text ++ renderItems (.action a :: rest)) =
        .ok ((if text = [] then [] else [.text text]) ++ found) ∧
      List.Forall₂ Segment.Spells found (.action a :: rest) := by
  obtain ⟨found, hfound, hspells⟩ := hrest
  have hcut := segments_tag hopening hlast (readTag_render ha.1 ha.2 (renderItems rest)) hfound
  have hshifted : ∀ bytes, List.Forall₂ Segment.Spells (found.map (Segment.shift bytes)) rest := by
    intro bytes
    rw [List.forall₂_map_left_iff]
    exact hspells.imp fun _ _ h => h.shift bytes
  rw [append_renderItems_action]
  exact ⟨_, hcut, .cons .action (hshifted _)⟩

theorem toList_ne_nil {s : String} (h : Item.Readable (.text s)) : s.toList ≠ [] :=
  fun hnil => h (String.toList_eq_nil_iff.mp hnil)

/-- Canonical source is cut into the sources of its items. -/
theorem exists_segments : ∀ items : List Item, (∀ i ∈ items, i.Readable) → Separate false items →
    Apart items → ∃ found, segments (renderItems items) = .ok found ∧
      List.Forall₂ Segment.Spells found items
  | [], _, _, _ => ⟨[], segments_of_unopened (by decide), .nil⟩
  | .action a :: rest, hreadable, hseparate, hapart => by
    rw [List.forall_mem_cons] at hreadable
    have hrest := exists_segments rest hreadable.2 hseparate hapart
    exact exists_segments_action [] (by decide) (by decide) hreadable.1 hrest
  | [.text s], hreadable, _, hapart => by
    have hs : s.toList ≠ [] := toList_ne_nil (hreadable _ List.mem_cons_self)
    refine ⟨[.text s.toList], ?_, .cons .text .nil⟩
    rw [renderItems_singleton, Item.render, segments_of_unopened hapart.1, if_neg hs]
  | .text s :: .action a :: rest, hreadable, hseparate, ⟨hopening, hlast, hapart⟩ => by
    rw [List.forall_mem_cons, List.forall_mem_cons] at hreadable
    obtain ⟨hfilled, ha, hreadable⟩ := hreadable
    have hs : s.toList ≠ [] := toList_ne_nil hfilled
    have hrest := exists_segments rest hreadable hseparate.2 hapart
    obtain ⟨found, hfound, hspells⟩ := exists_segments_action s.toList hopening (hlast rfl) ha hrest
    rw [if_neg hs] at hfound
    exact ⟨_, hfound, .cons .text hspells⟩
  | .text _ :: .text _ :: _, _, hseparate, _ => by
    cases hseparate.2.1

/-- The items of canonical source are read back, up to places. -/
theorem exists_items {items : List Item} (hreadable : ∀ i ∈ items, i.Readable)
    (hseparate : Separate false items) (hapart : Apart items) :
    ∃ items', items? (renderItems items) = some items' ∧ SameItems items' items := by
  obtain ⟨found, hfound, hspells⟩ := exists_segments items hreadable hseparate hapart
  exact items?_of_spells hfound hspells hreadable

/-- The bodies of the actions among the segments do not start with a brace. -/
def Unbraced (found : List Segment) : Prop :=
  ∀ start bodyStart body, .action start bodyStart body ∈ found → body.head? ≠ some '\x7b'

theorem unbraced_of_shift {found : List Segment} {bytes : Nat}
    (h : Unbraced (found.map (Segment.shift bytes))) : Unbraced found := by
  intro start bodyStart body hmem
  exact h _ _ body (List.mem_map_of_mem (f := Segment.shift bytes) hmem)

/-- Before an action stands no brace, or the action would start with it. -/
theorem unbraced_after (text : List Char) {a : Action} {rest : List Item} {found : List Segment}
    (hopening : ¬ opening <:+: text) (ha : Item.Readable (.action a))
    (hfound : segments (text ++ renderItems (.action a :: rest)) = .ok found)
    (hunbraced : Unbraced found) :
    text.getLast? ≠ some '\x7b' ∧
      ∃ after, segments (renderItems rest) = .ok after ∧ Unbraced after := by
  rw [append_renderItems_action] at hfound
  have hlast : text.getLast? ≠ some '\x7b' := by
    intro hbrace
    obtain ⟨before, rfl⟩ := List.getLast?_eq_some_iff.mp hbrace
    have hbefore : ¬ opening <:+: before := fun hpart =>
      hopening (hpart.trans (List.prefix_append _ _).isInfix)
    have hapart : before.getLast? ≠ some '\x7b' := by
      intro hbrace
      obtain ⟨more, rfl⟩ := List.getLast?_eq_some_iff.mp hbrace
      exact hopening ⟨more, [], by simp [opening]⟩
    have hsource : before ++ ['\x7b'] ++ opening ++ a.clause.render ++ closing ++ renderItems rest =
        before ++ opening ++ ('\x7b' :: a.clause.render) ++ closing ++ renderItems rest := by
      simp [opening]
    rw [hsource] at hfound
    obtain ⟨after, -, rfl⟩ := exists_segments_after hbefore hapart
      (readTag_brace ha.1 ha.2 (renderItems rest)) hfound
    exact hunbraced _ _ _ (List.mem_append_right _ List.mem_cons_self) rfl
  obtain ⟨after, hafter, rfl⟩ := exists_segments_after hopening hlast
    (readTag_render ha.1 ha.2 (renderItems rest)) hfound
  refine ⟨hlast, after, hafter, ?_⟩
  apply unbraced_of_shift
  intro start bodyStart body hmem
  exact hunbraced start bodyStart body (List.mem_append_right _ (List.mem_cons_of_mem _ hmem))

/-- Where canonical source is cut and no body of an action starts with a brace, the braces of its
texts are apart from those that open actions, if no text holds a mark that opens an action. -/
theorem apart_of_segments : ∀ (items : List Item) (found : List Segment),
    (∀ i ∈ items, i.Readable) → Separate false items →
    (∀ s, .text s ∈ items → ¬ opening <:+: s.toList) →
    segments (renderItems items) = .ok found → Unbraced found → Apart items
  | [], _, _, _, _, _, _ => trivial
  | .action a :: rest, found, hreadable, hseparate, htexts, hfound, hunbraced => by
    rw [List.forall_mem_cons] at hreadable
    obtain ⟨-, after, hafter, hbodies⟩ :=
      unbraced_after [] (by decide) hreadable.1 hfound hunbraced
    have hrest : ∀ s, .text s ∈ rest → ¬ opening <:+: s.toList :=
      fun s hs => htexts s (List.mem_cons_of_mem _ hs)
    exact apart_of_segments rest after hreadable.2 hseparate hrest hafter hbodies
  | [.text s], _, _, _, htexts, _, _ =>
    ⟨htexts s List.mem_cons_self, by simp, trivial⟩
  | .text s :: .action a :: rest, found, hreadable, hseparate, htexts, hfound, hunbraced => by
    rw [List.forall_mem_cons, List.forall_mem_cons] at hreadable
    have hopening := htexts s List.mem_cons_self
    obtain ⟨hlast, after, hafter, hbodies⟩ :=
      unbraced_after s.toList hopening hreadable.2.1 hfound hunbraced
    have hrest : ∀ s, .text s ∈ rest → ¬ opening <:+: s.toList :=
      fun s hs => htexts s (List.mem_cons_of_mem _ (List.mem_cons_of_mem _ hs))
    exact ⟨hopening, fun _ => hlast,
      apart_of_segments rest after hreadable.2.2 hseparate.2 hrest hafter hbodies⟩
  | .text _ :: .text _ :: _, _, _, hseparate, _, _, _ => by
    cases hseparate.2.1

end Items

end BoundQuery.Template
