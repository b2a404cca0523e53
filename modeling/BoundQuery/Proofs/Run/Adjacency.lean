/-
# Adjacent marks

When the captured run of a template is refused a piece, told from the plain run: a captured value is
followed by another one, or by a text or a value that starts with a question mark, and everything
between them is empty. The run then ends at the first such value.

Main statements: `emitAll_cases`, `execute_capture_adjacent`.
-/

import BoundQuery.Proofs.Run.Writings
import Mathlib.Order.Bounds.Basic

namespace BoundQuery.Run

open Statement (mark)
open Template (Pipeline Site captureName)
open Text (Pos)

/-! ### Refused pieces -/

/-- The mark at position `i` would be followed right on by another mark. -/
def MeetsMark (es : List Emission) (i : Nat) : Prop :=
  ∃ pos v, es[i]? = some (.argument pos v) ∧
    ((es.drop (i + 1)).flatMap Emission.chars).head? = some mark

section Refused

variable {es : List Emission} {trace : Trace}

theorem Separated.not_meetsMark (h : Separated es) (i : Nat) : ¬ MeetsMark es i := by
  rintro ⟨pos, v, hi, hhead⟩
  obtain ⟨hlt, hget⟩ := List.getElem?_eq_some_iff.mp hi
  refine h (es.take i) pos v (es.drop (i + 1)) ?_ hhead
  rw [← hget, ← List.drop_eq_getElem_cons hlt, List.take_append_drop]

/-- Where another mark comes later, what follows on a mark is known before that one. -/
theorem MeetsMark.of_append {done rest : List Emission} {i j : Nat} {pos : Pos} {v : Value}
    (h : MeetsMark (done ++ rest) j) (hlt : j < i) (hi : done[i]? = some (.argument pos v)) :
    MeetsMark done j := by
  obtain ⟨pos', v', hj, hhead⟩ := h
  obtain ⟨hlength, -⟩ := List.getElem?_eq_some_iff.mp hi
  rw [List.getElem?_append_left (by omega)] at hj
  rw [List.drop_append_of_le_length (by omega), List.flatMap_append] at hhead
  have hmem : .argument pos v ∈ done.drop (j + 1) := by
    refine List.mem_of_getElem? (i := i - (j + 1)) ?_
    rw [List.getElem?_drop, ← hi]
    congr 1
    omega
  have hne : (done.drop (j + 1)).flatMap Emission.chars ≠ [] :=
    List.ne_nil_of_mem (List.mem_flatMap.mpr ⟨_, hmem, List.mem_singleton_self mark⟩)
  exact ⟨pos', v', hj, by rwa [List.head?_append_of_ne_nil _ hne] at hhead⟩

namespace Trace

theorem exists_of_openMark? {pos : Pos} (h : openMark? trace = some pos) :
    ∃ after v before, trace = after ++ .argument pos v :: before ∧
      after.flatMap Emission.chars = [] := by
  induction trace with
  | nil => cases h
  | cons e rest ih =>
    unfold openMark? at h
    split at h
    · cases h
    · rename_i pos' v _ heq
      cases heq
      cases h
      exact ⟨[], v, rest, rfl, rfl⟩
    · rename_i heq
      cases heq
      split at h
      · rename_i hempty
        obtain ⟨after, v, before, rfl, hafter⟩ := ih h
        exact ⟨e :: after, v, before, rfl, by simpa [hafter] using hempty⟩
      · cases h

/-- What pieces leave behind that were all written. -/
theorem written_of_emitAll {trace' : Trace} (h : emitAll es trace = .ok trace')
    (hwritten : Written (fun _ => True) trace) :
    Written (fun _ => True) trace' ∧ trace' = es.reverse ++ trace := by
  induction es generalizing trace with
  | nil =>
    cases h
    exact ⟨hwritten, rfl⟩
  | cons e es ih =>
    rw [emitAll_cons] at h
    obtain ⟨mid, hemit, h⟩ := bind_eq_ok_iff.mp h
    cases emit_eq_ok hemit
    obtain ⟨hwritten, htrace⟩ := ih h (.emit e.of_true hwritten hemit)
    exact ⟨hwritten, by simp [htrace]⟩

theorem separated_of_emitAll {trace : Trace} (h : emitAll es [] = .ok trace) :
    Separated es := by
  obtain ⟨hwritten, rfl⟩ := written_of_emitAll h .nil
  simpa using hwritten.separated

/-- The first piece that is refused, and those that were written before it. -/
theorem exists_of_emitAll_eq_error {err : EvalError} (h : emitAll es trace = .error err) :
    ∃ done e rest, es = done ++ e :: rest ∧ emitAll done trace = .ok (done.reverse ++ trace) ∧
      emit e (done.reverse ++ trace) = .error err := by
  induction es generalizing trace with
  | nil => cases h
  | cons e es ih =>
    rw [emitAll_cons] at h
    cases hemit : emit e trace with
    | error err' =>
      rw [hemit] at h
      cases h
      exact ⟨[], e, es, rfl, rfl, hemit⟩
    | ok mid =>
      rw [hemit] at h
      cases emit_eq_ok hemit
      obtain ⟨done, d, rest, rfl, hdone, hrefused⟩ := ih h
      refine ⟨e :: done, d, rest, rfl, ?_, ?_⟩
      · rw [emitAll_cons, hemit, List.reverse_cons, List.append_assoc]
        exact hdone
      · rw [List.reverse_cons, List.append_assoc]
        exact hrefused

/-- Pieces are written one after the other unless a mark for a value meets another mark. If one does,
the first one that does is told. -/
theorem emitAll_cases (es : List Emission) :
    (∃ trace, emitAll es [] = .ok trace) ∧ (∀ i, ¬ MeetsMark es i) ∨
    ∃ i pos v, IsLeast {j | MeetsMark es j} i ∧ es[i]? = some (.argument pos v) ∧
      emitAll es [] = .error ⟨pos, .adjacentPlaceholder⟩ := by
  cases hwritten : emitAll es [] with
  | ok trace => exact .inl ⟨⟨trace, rfl⟩, (separated_of_emitAll hwritten).not_meetsMark⟩
  | error err =>
    obtain ⟨done, e, rest, rfl, hdone, hrefused⟩ := exists_of_emitAll_eq_error hwritten
    obtain ⟨pos, hopen, hhead, rfl⟩ := exists_of_emit_eq_error hrefused
    obtain ⟨after, v, before, hsplit, hempty⟩ := exists_of_openMark? hopen
    -- The refused piece follows right on the mark that the pieces before it left open.
    have hmark : done = before.reverse ++ .argument pos v :: after.reverse := by
      simpa using congrArg List.reverse hsplit
    have hi : done[before.length]? = some (.argument pos v) := by
      simp [hmark]
    have hall : (done ++ e :: rest)[before.length]? = some (.argument pos v) := by
      rw [List.getElem?_append_left (List.getElem?_eq_some_iff.mp hi).1, hi]
    have hnext : (((done ++ e :: rest).drop (before.length + 1)).flatMap Emission.chars).head? =
        some mark := by
      have hdrop : (done ++ e :: rest).drop (before.length + 1) = after.reverse ++ e :: rest := by
        simp [hmark, List.drop_append]
      have hempty : after.reverse.flatMap Emission.chars = [] := by
        simpa [List.flatMap_eq_nil_iff] using hempty
      have hne : e.chars ≠ [] := by
        intro hnil
        simp [hnil] at hhead
      rw [hdrop, List.flatMap_append, hempty, List.nil_append, List.flatMap_cons,
        List.head?_append_of_ne_nil _ hne, hhead]
    refine .inr ⟨before.length, pos, v, ⟨⟨pos, v, hall, hnext⟩, fun j hj => ?_⟩, hall, rfl⟩
    by_contra hlt
    exact (separated_of_emitAll hdone).not_meetsMark j (MeetsMark.of_append hj (by omega) hi)

end Trace

end Refused

/-! ### Clashes of writings -/

namespace Writing

/-- Capturing the template makes the piece a mark for a captured value. -/
def captured (t : Template) (w : Writing) : Bool :=
  (t.capturedAt? w.site).isSome

/-- The captured run writes something for the piece. -/
def shows (t : Template) (w : Writing) : Bool :=
  w.captured t || !w.piece.chars.isEmpty

/-- The captured run writes something for the piece that starts with a question mark. -/
def marks (t : Template) (w : Writing) : Bool :=
  w.captured t || w.piece.chars.head? == some mark

end Writing

/-- Piece `i` is captured, and the next piece after it that is captured or not empty is captured or
starts with a question mark. -/
def clashes (t : Template) (ws : List Writing) (i : Nat) : Bool :=
  ws[i]?.any (Writing.captured t) &&
    ((ws.drop (i + 1)).find? (Writing.shows t)).any (Writing.marks t)

section Clashes

variable {t : Template} {w : Writing} {ws : List Writing}

namespace Writing

theorem marked_of_none (h : t.capturedAt? w.site = none) : w.marked t = w.piece := by
  simp [marked, h]

/-- Only values are captured. -/
theorem Of.marked_of_some (hw : w.Of t) {p : Pipeline} (hp : t.capturedAt? w.site = some p) :
    ∃ v, w.marked t = .argument p.pos v := by
  cases hw with
  | text hn =>
    obtain ⟨q, hq, -⟩ := Template.exists_of_capturedAt? hp
    cases hn.symm.trans (Template.nodeAt?_eq_action_iff.mpr hq)
  | @value _ _ v hn hsets => exact ⟨v, by simp [marked, hp]⟩

/-- The pieces that the captured run writes as marks are those that are captured. -/
theorem Of.marked_eq_argument (hw : w.Of t) {pos : Pos} {v : Value}
    (h : w.marked t = .argument pos v) : ∃ p, t.capturedAt? w.site = some p ∧ p.pos = pos := by
  cases hp : t.capturedAt? w.site with
  | none =>
    rw [marked_of_none hp] at h
    cases hw <;> cases h
  | some p =>
    obtain ⟨w', hmarked⟩ := hw.marked_of_some hp
    cases hmarked.symm.trans h
    exact ⟨p, rfl, rfl⟩

theorem Of.chars_marked (hw : w.Of t) :
    (w.marked t).chars = if w.captured t then [mark] else w.piece.chars := by
  cases hp : t.capturedAt? w.site with
  | none => simp [captured, marked_of_none hp, hp]
  | some p =>
    obtain ⟨v, hmarked⟩ := hw.marked_of_some hp
    simp [captured, hmarked, hp, Emission.chars]

theorem Of.shows_iff (hw : w.Of t) : w.shows t = true ↔ (w.marked t).chars ≠ [] := by
  rw [hw.chars_marked, shows]
  by_cases hcaptured : w.captured t <;> simp [hcaptured]

theorem Of.marks_iff (hw : w.Of t) : w.marks t = true ↔ (w.marked t).chars.head? = some mark := by
  rw [hw.chars_marked, marks]
  by_cases hcaptured : w.captured t <;> simp [hcaptured]

/-- The text of the captured run goes on with a question mark exactly if the next piece that shows
starts with one. -/
theorem head?_marked (hof : ∀ w ∈ ws, w.Of t) :
    ((ws.map (marked t)).flatMap Emission.chars).head? = some mark ↔
      (ws.find? (shows t)).any (marks t) = true := by
  induction ws with
  | nil => simp
  | cons w ws ih =>
    obtain ⟨hw, hrest⟩ := List.forall_mem_cons.mp hof
    rw [List.map_cons, List.flatMap_cons, List.find?_cons]
    cases hshows : w.shows t with
    | false =>
      have hempty : (w.marked t).chars = [] := by
        by_contra hne
        simp [hw.shows_iff.mpr hne] at hshows
      rw [hempty, List.nil_append]
      exact ih hrest
    | true =>
      rw [List.head?_append_of_ne_nil _ (hw.shows_iff.mp hshows), ← hw.marks_iff, Option.any_some]

end Writing

theorem meetsMark_iff (hof : ∀ w ∈ ws, w.Of t) {i : Nat} :
    MeetsMark (ws.map (Writing.marked t)) i ↔ clashes t ws i = true := by
  have hnext := Writing.head?_marked fun w (hw : w ∈ ws.drop (i + 1)) => hof w (List.mem_of_mem_drop hw)
  rw [clashes, Bool.and_eq_true, ← hnext, List.map_drop]
  constructor
  · rintro ⟨pos, v, hi, hhead⟩
    rw [List.getElem?_map] at hi
    obtain ⟨w, hw, hmarked⟩ := Option.map_eq_some_iff.mp hi
    obtain ⟨p, hp, -⟩ := (hof w (List.mem_of_getElem? hw)).marked_eq_argument hmarked
    exact ⟨by simp [hw, Writing.captured, hp], hhead⟩
  · rintro ⟨hcaptured, hhead⟩
    obtain ⟨w, hw, hcaptured⟩ := (Option.any_eq_true ..).mp hcaptured
    obtain ⟨p, hp⟩ := Option.isSome_iff_exists.mp hcaptured
    obtain ⟨v, hmarked⟩ := (hof w (List.mem_of_getElem? hw)).marked_of_some hp
    exact ⟨p.pos, v, by rw [List.getElem?_map, hw, Option.map_some, hmarked], hhead⟩

theorem lt_length_of_clashes {i : Nat} (h : clashes t ws i = true) : i < ws.length := by
  obtain ⟨hcaptured, -⟩ := Bool.and_eq_true_iff.mp h
  obtain ⟨w, hw, -⟩ := (Option.any_eq_true ..).mp hcaptured
  exact (List.getElem?_eq_some_iff.mp hw).1

end Clashes

/-! ### Captured runs -/

/-- A run whose pieces are all written has a raw text; otherwise it fails as the writing does. -/
theorem Follows.result_eq {t : Template} {functions : Registry} {data : Value} {before : List Value}
    {jump : Option Template.Jump} {bindings : Variables} {written : Except EvalError Trace}
    (h : Follows jump bindings written (ending functions t data before)) :
    (execute functions t data before).result =
      written.map fun _ => (ending functions t data before).2.trace.raw := by
  unfold execute
  generalize ending functions t data before = outcome at h ⊢
  cases h <;> rfl

/-- Take the pieces that the plain run of a template writes, one for each text, and one for each
action that sets no variables, that the run comes to. The captured run fails exactly if a captured
value clashes: the next piece after it that is captured or not empty is captured or starts with a
question mark. It fails then at the pipeline of the first such value, and otherwise succeeds. -/
theorem execute_capture_adjacent {t : Template} (hfree : captureName ∉ t.identifiers)
    {functions : Registry} {data : Value} {raw : List Char}
    (hrun : (execute functions t data []).result = .ok raw) (before : List Value) :
    (writings functions t data).map Writing.site =
        ((visits functions t data []).map Visit.site).filter t.writesAt ∧
      (writings functions t data).map Writing.piece = emissions functions t data ∧
      (∀ w ∈ writings functions t data, w.Of t) ∧
      ((∃ err, (execute functions t.capture data before).result = .error err) ↔
        ∃ i, clashes t (writings functions t data) i = true) ∧
      (∀ i, IsLeast {j | clashes t (writings functions t data) j = true} i →
        ∃ w p, (writings functions t data)[i]? = some w ∧ t.actionAt? w.site = some p ∧
          (execute functions t.capture data before).result =
            .error ⟨p.pos, .adjacentPlaceholder⟩) ∧
      ((∀ i, clashes t (writings functions t data) i = false) →
        ∃ raw, (execute functions t.capture data before).result = .ok raw) := by
  obtain ⟨hsites, hpieces, hof, jump, bindings, hfollows⟩ :=
    ending_capture_of_writings hfree hrun before
  refine ⟨hsites, hpieces, hof, ?_⟩
  have hresult := hfollows.result_eq
  rcases Trace.emitAll_cases ((writings functions t data).map (Writing.marked t)) with
    ⟨⟨trace, hwritten⟩, hnone⟩ | ⟨i, pos, v, hleast, hi, hwritten⟩
  · rw [hwritten] at hresult
    have hnone : ∀ i, ¬ clashes t (writings functions t data) i = true :=
      fun i hi => hnone i ((meetsMark_iff hof).mpr hi)
    refine ⟨⟨?_, ?_⟩, ?_, fun _ => ⟨_, hresult⟩⟩
    · rintro ⟨err, herr⟩
      cases hresult.symm.trans herr
    · rintro ⟨i, hi⟩
      exact absurd hi (hnone i)
    · intro i hleast
      exact absurd hleast.1 (hnone i)
  · rw [hwritten] at hresult
    have hset : {j | MeetsMark ((writings functions t data).map (Writing.marked t)) j} =
        {j | clashes t (writings functions t data) j = true} :=
      Set.ext fun j => meetsMark_iff hof
    rw [hset] at hleast
    refine ⟨⟨fun _ => ⟨i, hleast.1⟩, fun _ => ⟨_, hresult⟩⟩, ?_, ?_⟩
    · intro j hj
      cases hj.unique hleast
      rw [List.getElem?_map] at hi
      obtain ⟨w, hw, hmarked⟩ := Option.map_eq_some_iff.mp hi
      obtain ⟨p, hp, rfl⟩ := (hof w (List.mem_of_getElem? hw)).marked_eq_argument hmarked
      obtain ⟨q, hq, hpos⟩ := Template.exists_of_capturedAt? hp
      exact ⟨w, q, hw, hq, hpos ▸ hresult⟩
    · intro hnone
      cases (hnone i).symm.trans hleast.1

/-- Whether the marks for the two values meet is up to the condition between them. -/
theorem execute_capture_adjacent_condition :
    ∃ t : Template,
      Template.parse (fun _ => false) "{{.A}}{{if .B}}, {{end}}{{.A}}".toList = .ok t ∧
      (execute [] t.capture (.map [("A", .int 1), ("B", .bool false)]) []).result =
        .error ⟨⟨1, 3⟩, .adjacentPlaceholder⟩ ∧
      ∃ raw, (execute [] t.capture (.map [("A", .int 1), ("B", .bool true)]) []).result =
        .ok raw := by
  let adjacent : Value := .map [("A", .int 1), ("B", .bool false)]
  let apart : Value := .map [("A", .int 1), ("B", .bool true)]
  obtain ⟨t, hparse, ht⟩ := exists_of_any
    (x := Template.parse (fun _ => false) "{{.A}}{{if .B}}, {{end}}{{.A}}".toList)
    (p := fun t => decide (captureName ∉ t.identifiers) &&
      (execute [] t adjacent []).result.toOption.any (fun _ => true) &&
      clashes t (writings [] t adjacent) 0 &&
      (writings [] t adjacent)[0]?.any (fun w =>
        (t.actionAt? w.site).any fun p => p.pos == ⟨1, 3⟩) &&
      (execute [] t apart []).result.toOption.any (fun _ => true) &&
      decide (∀ i < (writings [] t apart).length, clashes t (writings [] t apart) i = false))
    (by decide +kernel)
  simp only [Bool.and_eq_true, decide_eq_true_eq] at ht
  obtain ⟨⟨⟨⟨⟨hfree, hadjacent⟩, hclash⟩, hfirst⟩, hapart⟩, hnone⟩ := ht
  obtain ⟨raw, hraw, -⟩ := exists_of_any hadjacent
  obtain ⟨raw', hraw', -⟩ := exists_of_any hapart
  obtain ⟨-, -, -, -, hfails, -⟩ := execute_capture_adjacent hfree hraw []
  obtain ⟨-, -, -, -, -, hsucceeds⟩ := execute_capture_adjacent hfree hraw' []
  refine ⟨t, hparse, ?_, hsucceeds fun i => ?_⟩
  · obtain ⟨w, p, hw, hp, herr⟩ := hfails 0 ⟨hclash, fun _ _ => Nat.zero_le _⟩
    rw [hw, Option.any_some, hp, Option.any_some, beq_iff_eq] at hfirst
    rw [herr, hfirst]
  · cases hi : clashes t (writings [] t apart) i with
    | false => rfl
    | true => exact hi.symm.trans (hnone i (lt_length_of_clashes hi))

end BoundQuery.Run
