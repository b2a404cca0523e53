/-
# How a template is assembled

What one action of the source makes of what is assembled so far, said once; and what may be assembled
when a source is read: what can be reached from nothing by its texts and by the actions that are read
of it. What is shown of every step holds of every parsed template.

Main statements: `stepped_of_step`, `exists_assembled_of_parse`.
-/

import BoundQuery.Proofs.Fallible
import BoundQuery.Proofs.Template.Scanning
import BoundQuery.Template.Assembly

namespace BoundQuery.Template

open Text (Pos)

/-! ### Segments -/

/-- A text is trimmed to a text. -/
theorem action_notMem_trimmed {trimsStart trimsEnd : Bool} {text body : List Char}
    {start bodyStart : Nat} : .action start bodyStart body ∉ trimmed trimsStart trimsEnd text := by
  intro hmem
  unfold trimmed at hmem
  dsimp only at hmem
  split at hmem <;> simp at hmem

/-- The body of an action is the interior of a tag, and starts after what is before that tag, its
opening mark and the dash of its trim marker. -/
theorem exists_tag_of_mem_segmentsFrom {offset start bodyStart : Nat} {trims : Bool}
    {last body : List Char} {tags : List (List Char × Tag)}
    (h : .action start bodyStart body ∈ segmentsFrom offset trims last tags) :
    ∃ front text t back, tags = front ++ (text, t) :: back ∧ t.isComment = false ∧
      t.interior = body ∧
      bodyStart = offset + Text.utf8Length (front.flatMap (fun (text, t) => text ++ t.source) ++ text) +
        2 + (dash t.trimsLeft).length := by
  induction tags generalizing offset trims with
  | nil => exact absurd h action_notMem_trimmed
  | cons tagged rest ih =>
    obtain ⟨text, t⟩ := tagged
    rw [segmentsFrom, List.mem_append, List.mem_append] at h
    rcases h with (h | h) | h
    · exact absurd h action_notMem_trimmed
    · unfold Tag.segment at h
      split at h
      · cases h
      · rename_i haction
        cases List.mem_singleton.mp h
        exact ⟨[], text, t, rest, rfl, Bool.eq_false_iff.mpr haction, rfl, rfl⟩
    · obtain ⟨front, text', t', back, rfl, haction, hinterior, hstart⟩ := ih h
      refine ⟨(text, t) :: front, text', t', back, rfl, haction, hinterior, ?_⟩
      rw [hstart, List.flatMap_cons, List.append_assoc (text ++ t.source),
        Text.utf8Length_append (text ++ t.source), Nat.add_assoc offset]

theorem infix_of_mem_tags {c : Cut} {text : List Char} {t : Tag} (h : (text, t) ∈ c.tags) :
    t.interior <:+: c.source := by
  have hsource : t.interior <:+: t.source := by
    unfold Tag.source
    exact ⟨opening ++ dash t.trimsLeft, dash t.trimsRight ++ closing, by simp⟩
  have htags : text ++ t.source <:+: c.tags.flatMap fun p => p.1 ++ p.2.source := by
    obtain ⟨before, after, hsplit⟩ := List.append_of_mem h
    rw [hsplit, List.flatMap_append, List.flatMap_cons, ← List.append_assoc]
    exact List.infix_append _ _ _
  exact (hsource.trans (List.suffix_append _ _).isInfix).trans
    (htags.trans (List.prefix_append _ _).isInfix)

/-- The body of an action of the source. -/
def IsBody (source body : List Char) : Prop :=
  ∃ found start bodyStart, segments source = .ok found ∧ .action start bodyStart body ∈ found

theorem IsBody.isInfix {source body : List Char} (h : IsBody source body) : body <:+: source := by
  obtain ⟨found, start, bodyStart, hfound, hmem⟩ := h
  obtain ⟨c, hcut, rfl⟩ := map_eq_ok_iff.mp hfound
  obtain ⟨front, text, t, back, htags, -, rfl, -⟩ := exists_tag_of_mem_segmentsFrom hmem
  rw [← source_cut hcut]
  exact infix_of_mem_tags (htags ▸ List.mem_append_right front List.mem_cons_self)

/-- A text of the source. -/
def IsText (source chars : List Char) : Prop :=
  ∃ found, segments source = .ok found ∧ .text chars ∈ found

/-- A text that is left by its trim markers is a part of it that is not empty. -/
theorem infix_of_mem_trimmed {trimsStart trimsEnd : Bool} {text chars : List Char}
    (h : .text chars ∈ trimmed trimsStart trimsEnd text) : chars ≠ [] ∧ chars <:+: text := by
  have hstart : (if trimsStart then trimStart text else text) <:+: text := by
    split
    · exact (List.dropWhile_suffix _).isInfix
    · exact List.infix_rfl
  have hend : ∀ left : List Char, (if trimsEnd then trimEnd left else left) <:+: left := by
    intro left
    split
    · have hprefix := List.reverse_prefix.mpr (List.dropWhile_suffix (l := left.reverse) isSpace)
      rw [List.reverse_reverse] at hprefix
      exact hprefix.isInfix
    · exact List.infix_rfl
  unfold trimmed at h
  dsimp only at h
  have hpart := (hend _).trans hstart
  generalize (if trimsEnd then trimEnd _ else _) = left at h hpart
  cases left with
  | nil => simp at h
  | cons c cs =>
    cases List.mem_singleton.mp h
    exact ⟨List.cons_ne_nil c cs, hpart⟩

/-- A text segment is a part of the texts that the source is cut into. -/
theorem exists_text_of_mem_segmentsFrom {offset : Nat} {trims : Bool} {last chars : List Char}
    {tags : List (List Char × Tag)} (h : .text chars ∈ segmentsFrom offset trims last tags) :
    chars ≠ [] ∧ ∃ text ∈ last :: tags.map Prod.fst, chars <:+: text := by
  induction tags generalizing offset trims with
  | nil =>
    obtain ⟨hne, hpart⟩ := infix_of_mem_trimmed h
    exact ⟨hne, last, List.mem_cons_self, hpart⟩
  | cons tagged rest ih =>
    obtain ⟨text, t⟩ := tagged
    rw [segmentsFrom, List.mem_append, List.mem_append] at h
    rcases h with (h | h) | h
    · obtain ⟨hne, hpart⟩ := infix_of_mem_trimmed h
      exact ⟨hne, text, by simp, hpart⟩
    · unfold Tag.segment at h
      split at h <;> simp at h
    · obtain ⟨hne, text', hmem, hpart⟩ := ih h
      refine ⟨hne, text', ?_, hpart⟩
      simp only [List.map_cons, List.mem_cons] at hmem ⊢
      exact hmem.imp_right .inr

theorem prefix_cutOpening (cs : List Char) : (cutOpening cs).1 <+: cs := by
  cases hcut : cutOpening cs with
  | mk text after =>
    cases after with
    | none =>
      exact cutOpening_none hcut ▸ List.prefix_rfl
    | some after =>
      rw [cutOpening_some hcut, List.append_assoc]
      exact List.prefix_append _ _

/-- No action opens in the text before the first opening mark. -/
theorem unopened_of_cutOpening {cs text : List Char} {after : Option (List Char)}
    (h : cutOpening cs = (text, after)) : ¬ opening <:+: text := by
  fun_induction cutOpening cs generalizing text with
  | case1 =>
    cases h
    decide
  | case2 rest =>
    cases h
    decide
  | case3 c rest hne ih =>
    simp only [Prod.mk.injEq] at h
    obtain ⟨rfl, rfl⟩ := h
    intro hpart
    rcases List.infix_cons_iff.mp hpart with hprefix | hpart
    · obtain ⟨rfl, hbrace⟩ := List.cons_prefix_cons.mp hprefix
      obtain ⟨after, hafter⟩ := hbrace.trans (prefix_cutOpening rest)
      exact hne after rfl hafter.symm
    · exact ih rfl hpart

theorem unopened_of_cut {offset : Nat} {source : List Char} {c : Cut}
    (h : cut offset source = .ok c) : ∀ text ∈ c.last :: c.tags.map Prod.fst, ¬ opening <:+: text := by
  fun_induction cut offset source generalizing c with
  | case1 _ _ text hopen =>
    cases h
    simpa using unopened_of_cutOpening hopen
  | case2 => cases h
  | case3 offset source text after hopen t rest htag ih =>
    obtain ⟨c', hc', rfl⟩ := map_eq_ok_iff.mp h
    have hall := ih hc'
    rw [List.forall_mem_cons] at hall
    simp only [List.map_cons, List.forall_mem_cons]
    exact ⟨hall.1, unopened_of_cutOpening hopen, hall.2⟩

theorem IsText.ne_nil {source chars : List Char} (h : IsText source chars) : chars ≠ [] := by
  obtain ⟨found, hfound, hmem⟩ := h
  obtain ⟨c, -, rfl⟩ := map_eq_ok_iff.mp hfound
  exact (exists_text_of_mem_segmentsFrom hmem).1

/-- No action opens in a text of the source. -/
theorem IsText.unopened {source chars : List Char} (h : IsText source chars) :
    ¬ opening <:+: chars := by
  obtain ⟨found, hfound, hmem⟩ := h
  obtain ⟨c, hcut, rfl⟩ := map_eq_ok_iff.mp hfound
  obtain ⟨-, text, htext, hpart⟩ := exists_text_of_mem_segmentsFrom hmem
  exact fun hopening => unopened_of_cut hcut text htext (hopening.trans hpart)

namespace Assembly

/-! ### Steps -/

variable {isFunction : String → Bool} {source : List Char} {a b : Assembly}

theorem openControl_eq_ok {kind : Control} {pos : Pos} {p : Pipeline} {chained : Bool}
    (h : a.openControl isFunction kind pos p chained = .ok b) :
    (a.names isFunction).checkPipeline kind.mostNames kind.construct p = .ok () ∧
      b = { a.declare p with
        nodes := [], inLoop := a.inLoop || kind == .range
        frames := .control kind pos p none chained a.outer :: a.frames } := by
  obtain ⟨_, hcheck, h⟩ := bind_eq_ok_iff.mp h
  cases h
  exact ⟨hcheck, rfl⟩

theorem endBody_eq_ok {kind : Control} (h : a.endBody = .ok (kind, b)) :
    ∃ pos p chained outer frames, a.frames = .control kind pos p none chained outer :: frames ∧
      b = { a with
        nodes := [], inLoop := outer.inLoop
        frames := .control kind pos p (some a.nodes.reverse) chained outer :: frames } := by
  unfold endBody at h
  split at h
  · rename_i hframes
    cases h
    exact ⟨_, _, _, _, _, hframes, rfl⟩
  · cases h
  · cases h

/-- The innermost structure is a definition, or a control structure that may be chained to others. -/
theorem close_eq_some (h : a.close = some b) :
    (∃ name call outer frames, a.frames = .definition name call outer :: frames ∧
      b = ⟨(call.map fun (pos, data) => .invoke pos name (some data)).toList ++ outer.nodes,
        outer.scope, outer.inLoop, frames, Entries.insert name a.nodes.reverse a.definitions⟩) ∨
    ∃ outer frames, closeControls a.nodes a.frames = some (outer, frames) ∧
      b = ⟨outer.nodes, outer.scope, outer.inLoop, frames, a.definitions⟩ := by
  unfold close at h
  split at h
  · rename_i name call outer frames hframes
    cases h
    refine .inl ⟨name, call, outer, frames, hframes, ?_⟩
    cases call <;> rfl
  · obtain ⟨⟨outer, frames⟩, hcontrols, rfl⟩ := Option.map_eq_some_iff.mp h
    exact .inr ⟨outer, frames, hcontrols, rfl⟩

/-- What an action at `pos` makes of what is assembled so far. -/
inductive Stepped (isFunction : String → Bool) (a : Assembly) (pos : Pos) :
    Clause → Assembly → Prop
  | pipeline {p : Pipeline} :
      (a.names isFunction).checkPipeline 1 .command p = .ok () →
      Stepped isFunction a pos (.pipeline p) ((a.declare p).push (.action p))
  | control {kind : Control} {p : Pipeline} {b : Assembly} :
      a.openControl isFunction kind pos p false = .ok b →
      Stepped isFunction a pos (.control kind p) b
  | otherwise {kind : Control} {b : Assembly} :
      a.endBody = .ok (kind, b) → Stepped isFunction a pos .otherwise b
  | elseControl {kind : Control} {p : Pipeline} {c b : Assembly} :
      a.endBody = .ok (kind, c) → c.openControl isFunction kind pos p true = .ok b →
      Stepped isFunction a pos (.elseControl kind p) b
  | close {b : Assembly} : a.close = some b → Stepped isFunction a pos .close b
  | definition {name : String} :
      a.frames = [] → Stepped isFunction a pos (.definition name) (a.openDefinition name none)
  | invocation {name : String} {data : Option Pipeline} :
      (∀ p ∈ data, (a.names isFunction).checkPipeline 0 .invocation p = .ok ()) →
      Stepped isFunction a pos (.invocation name data) (a.push (.invoke pos name data))
  | block {name : String} {p : Pipeline} :
      (a.names isFunction).checkPipeline 0 .block p = .ok () →
      Stepped isFunction a pos (.block name p) (a.openDefinition name (some (pos, p)))
  | jump {kind : Jump} :
      a.inLoop = true → Stepped isFunction a pos (.jump kind) (a.push (.jump kind pos))

theorem stepped_of_step {action : Action} (h : a.step isFunction action = .ok b) :
    a.Stepped isFunction action.pos action.clause b := by
  obtain ⟨pos, clause⟩ := action
  cases clause with
  | pipeline p =>
    obtain ⟨_, hcheck, h⟩ := bind_eq_ok_iff.mp h
    cases h
    exact .pipeline hcheck
  | control kind p => exact .control h
  | elseControl kind p =>
    simp only [step] at h
    split at h
    · rename_i around c hend
      split at h
      · rename_i hkind
        exact .elseControl (hkind ▸ hend) h
      · cases h
    · cases h
  | otherwise =>
    simp only [step] at h
    split at h
    · rename_i around c hend
      cases h
      exact .otherwise hend
    · cases h
  | close =>
    simp only [step] at h
    split at h
    · rename_i c hclose
      cases h
      exact .close hclose
    · cases h
  | definition name =>
    simp only [step] at h
    split at h
    · rename_i hempty
      cases h
      exact .definition (List.isEmpty_iff.mp hempty)
    · cases h
  | invocation name data =>
    cases data with
    | none =>
      cases h
      exact .invocation (by simp)
    | some p =>
      obtain ⟨_, hcheck, h⟩ := bind_eq_ok_iff.mp h
      cases h
      refine .invocation ?_
      intro q hq
      cases hq
      exact hcheck
  | block name p =>
    obtain ⟨_, hcheck, h⟩ := bind_eq_ok_iff.mp h
    cases h
    exact .block hcheck
  | jump kind =>
    simp only [step] at h
    split at h
    · rename_i hloop
      cases h
      exact .jump hloop
    · cases h

end Assembly

/-! ### Sources -/

/-- This may be assembled of texts and of actions that are read of a source. -/
inductive Assembled (isFunction : String → Bool) (source : List Char) : Assembly → Prop
  | empty : Assembled isFunction source .empty
  | text {a : Assembly} {chars : List Char} :
      Assembled isFunction source a → IsText source chars →
      Assembled isFunction source (a.push (.text (String.ofList chars)))
  | action {a b : Assembly} {body : List Char} {locate : List Char → Pos} {action : Action} :
      Assembled isFunction source a → IsBody source body → readAction locate body = .ok action →
      a.Stepped isFunction action.pos action.clause b → Assembled isFunction source b

section Parsed

variable {isFunction : String → Bool} {source : List Char}

theorem Assembled.foldlM {all found : List Segment} {a b : Assembly}
    (h : Assembled isFunction source a) (hall : segments source = .ok all) (hfound : found ⊆ all)
    (hfold : found.foldlM (Assembly.take isFunction source) a = .ok b) :
    Assembled isFunction source b := by
  induction found generalizing a with
  | nil =>
    cases hfold
    exact h
  | cons s rest ih =>
    rw [List.foldlM_cons] at hfold
    obtain ⟨c, htake, hfold⟩ := bind_eq_ok_iff.mp hfold
    rw [List.cons_subset] at hfound
    refine ih ?_ hfound.2 hfold
    cases s with
    | text chars =>
      cases htake
      exact h.text ⟨all, hall, hfound.1⟩
    | action start bodyStart body =>
      obtain ⟨action, haction, hstep⟩ := bind_eq_ok_iff.mp htake
      exact .action h ⟨all, start, bodyStart, hall, hfound.1⟩ haction (Assembly.stepped_of_step hstep)

/-- The actions of a source that is parsed were read. -/
theorem exists_readAction_of_parse {t : Template} (h : parse isFunction source = .ok t) :
    ∃ found, segments source = .ok found ∧ ∀ start bodyStart body,
      .action start bodyStart body ∈ found → ∃ locate action, readAction locate body = .ok action := by
  unfold parse at h
  split at h
  · cases h
  · rename_i found hfound
    obtain ⟨b, hfold, -⟩ := bind_eq_ok_iff.mp h
    refine ⟨found, hfound, ?_⟩
    intro start bodyStart body hmem
    clear h hfound
    generalize Assembly.empty = a at hfold
    induction found generalizing a with
    | nil => cases hmem
    | cons s rest ih =>
      rw [List.foldlM_cons] at hfold
      obtain ⟨c, htake, hfold⟩ := bind_eq_ok_iff.mp hfold
      rcases List.mem_cons.mp hmem with rfl | hmem
      · obtain ⟨action, haction, -⟩ := bind_eq_ok_iff.mp htake
        exact ⟨_, action, haction⟩
      · exact ih hmem c hfold

/-- A parsed template was assembled, and no structure of it is open. -/
theorem exists_assembled_of_parse {t : Template} (h : parse isFunction source = .ok t) :
    ∃ a, Assembled isFunction source a ∧ a.frames = [] ∧ t = ⟨a.nodes.reverse, a.definitions⟩ := by
  unfold parse at h
  split at h
  · cases h
  · rename_i found hfound
    obtain ⟨a, hfold, h⟩ := bind_eq_ok_iff.mp h
    have ha : Assembled isFunction source a :=
      Assembled.foldlM .empty hfound (List.Subset.refl found) hfold
    split at h
    · rename_i t' hfinish
      cases h
      unfold Assembly.finish at hfinish
      split at hfinish
      · rename_i hempty
        cases hfinish
        exact ⟨a, ha, List.isEmpty_iff.mp hempty, rfl⟩
      · cases hfinish
    · cases h

end Parsed

end BoundQuery.Template
