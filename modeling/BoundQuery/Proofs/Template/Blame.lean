/-
# Errors point at what they are about

Each error of a source notes a place of it. What is wrong inside an action is noted in the body of
that action, whether it cannot be read or does not pass a check; an action that stands in the wrong
place is noted at its first character; a tag that is not closed at its opening mark; and structures
that are not closed at the end of the source.

Main statement: `points_of_parse`.
-/

import BoundQuery.Proofs.Template.Answers
import BoundQuery.Proofs.Template.Assembling
import BoundQuery.Proofs.Template.Faults
import BoundQuery.Proofs.Text.Lines

namespace BoundQuery.Template

open Text (Pos positionAt positionFrom utf8Length)

/-! ### Checks -/

/-- If the check fails, what is wrong is noted inside an action, at a place of which `L` holds. -/
def FailsIn (L : Pos → Prop) (check : Except SyntaxError Unit) : Prop :=
  ∀ e, check = .error e → L e.pos ∧ e.fault.isInside = true

section Checks

variable {L : Pos → Prop} {names : Names} {pos : Pos}

theorem failsIn_ok : FailsIn L (.ok ()) :=
  nofun

theorem failsIn_error {fault : SyntaxFault} (hpos : L pos) (h : fault.isInside = true) :
    FailsIn L (.error ⟨pos, fault⟩) := by
  rintro _ ⟨⟩
  exact ⟨hpos, h⟩

theorem FailsIn.bind {check : Except SyntaxError Unit} {f : Unit → Except SyntaxError Unit}
    (h : FailsIn L check) (hf : FailsIn L (f ())) : FailsIn L (check >>= f) := by
  intro e he
  rcases bind_eq_error_iff.mp he with he | ⟨_, -, he⟩
  · exact h e he
  · exact hf e he

theorem failsIn_checkVariable (hpos : L pos) (name : String) :
    FailsIn L (names.checkVariable pos name) := by
  unfold Names.checkVariable
  split
  · exact failsIn_ok
  · exact failsIn_error hpos rfl

theorem failsIn_checkVariables (hpos : L pos) (used : List String) :
    FailsIn L (names.checkVariables pos used) := by
  induction used with
  | nil => exact failsIn_ok
  | cons name rest ih => exact (failsIn_checkVariable hpos name).bind ih

theorem failsIn_checkFunction (hpos : L pos) (name : String) :
    FailsIn L (names.checkFunction pos name) := by
  unfold Names.checkFunction
  split
  · exact failsIn_ok
  · exact failsIn_error hpos rfl

theorem failsIn_checkShape (hpos : L pos) (stage : Nat) (operands : List Operand) :
    FailsIn L (Names.checkShape stage ⟨pos, operands⟩) := by
  cases operands with
  | nil => exact failsIn_error hpos rfl
  | cons first rest =>
    cases first with
    | nil => exact failsIn_error hpos rfl
    | identifier | field | chain | «variable» => exact failsIn_ok
    | dot | pipe | string | number | bool =>
      unfold Names.checkShape
      dsimp only
      split
      · exact failsIn_error hpos rfl
      · split
        · exact failsIn_error hpos rfl
        · exact failsIn_ok

mutual

theorem failsIn_checkOperand {pos : Pos} (hpos : L pos) :
    ∀ o : Operand, Placed L o.inner → FailsIn L (names.checkOperand pos o)
  | .identifier name, _ => failsIn_checkFunction hpos name
  | .variable name _, _ => failsIn_checkVariable hpos name
  | .pipe p, h => failsIn_checkPipeline p h
  | .chain base _, h => failsIn_checkOperand hpos base h
  | .dot, _ | .field _, _ | .string _, _ | .number _, _ | .bool _, _ | .nil, _ => failsIn_ok

theorem failsIn_checkOperands {pos : Pos} (hpos : L pos) :
    ∀ operands : List Operand, Placed L (operandsInner operands) →
      FailsIn L (names.checkOperands pos operands)
  | [], _ => failsIn_ok
  | o :: rest, h => by
    obtain ⟨ho, hrest⟩ := List.forall_mem_append.mp h
    exact (failsIn_checkOperand hpos o ho).bind (failsIn_checkOperands hpos rest hrest)

theorem failsIn_checkCommand (stage : Nat) :
    ∀ c : Command, L c.pos → Placed L c.inner → FailsIn L (names.checkCommand stage c)
  | ⟨_, operands⟩, hpos, h =>
    (failsIn_checkShape hpos stage operands).bind (failsIn_checkOperands hpos operands h)

theorem failsIn_checkCommands (stage : Nat) :
    ∀ commands : List Command, (∀ c ∈ commands, L c.pos ∧ Placed L c.inner) →
      FailsIn L (names.checkCommands stage commands)
  | [], _ => failsIn_ok
  | c :: rest, h => by
    obtain ⟨⟨hpos, hc⟩, hrest⟩ := List.forall_mem_cons.mp h
    exact (failsIn_checkCommand stage c hpos hc).bind (failsIn_checkCommands (stage + 1) rest hrest)

theorem failsIn_checkPipeline {most : Nat} {construct : Construct} :
    ∀ p : Pipeline, Placed L p.tree → FailsIn L (names.checkPipeline most construct p)
  | ⟨pos, assigns, declared, commands⟩, h => by
    obtain ⟨hpos, hcommands⟩ := placed_tree.mp h
    have hrest := failsIn_checkCommands 0 commands hcommands
    rw [Names.checkPipeline]
    by_cases hmost : most < declared.length
    · rw [if_pos hmost]
      have herror : FailsIn L (.error ⟨pos, .tooManyNames construct⟩) := failsIn_error hpos rfl
      exact herror
    · rw [if_neg hmost]
      cases assigns with
      | false => exact hrest
      | true => exact (failsIn_checkVariables hpos declared).bind hrest

end

end Checks

/-! ### Steps -/

/-- The clause cannot stand where it does, and this is why. -/
inductive Misplaced : Clause → SyntaxFault → Prop
  | close : Misplaced .close .strayEnd
  | otherwise : Misplaced .otherwise .strayElse
  | secondOtherwise : Misplaced .otherwise .secondElse
  | elseControl {kind : Control} {p : Pipeline} : Misplaced (.elseControl kind p) .strayElse
  | secondElseControl {kind : Control} {p : Pipeline} : Misplaced (.elseControl kind p) .secondElse
  | elseIn {kind around : Control} {p : Pipeline} :
      kind ≠ around → Misplaced (.elseControl kind p) (.elseIn around)
  | jump {kind : Jump} : Misplaced (.jump kind) (.jumpOutsideLoop kind)
  | definition {name : String} : Misplaced (.definition name) .nestedDefinition

namespace Assembly

variable {isFunction : String → Bool} {L : Pos → Prop} {a : Assembly}

theorem endBody_eq_error {fault : SyntaxFault} (h : a.endBody = .error fault) :
    fault = .strayElse ∨ fault = .secondElse := by
  unfold endBody at h
  split at h
  · cases h
  · cases h
    exact .inr rfl
  · cases h
    exact .inl rfl

theorem failsIn_openControl {kind : Control} {pos : Pos} {p : Pipeline} {chained : Bool}
    {e : SyntaxError} (hp : Placed L p.tree)
    (h : a.openControl isFunction kind pos p chained = .error e) :
    L e.pos ∧ e.fault.isInside = true := by
  rcases bind_eq_error_iff.mp h with h | ⟨_, -, h⟩
  · exact failsIn_checkPipeline p hp e h
  · cases h

/-- An action that is refused does not pass the check of its pipeline, or it is misplaced. -/
theorem step_eq_error {action : Action} {e : SyntaxError}
    (hplaced : ∀ p ∈ action.clause.pipelines, Placed L p.tree)
    (h : a.step isFunction action = .error e) :
    (L e.pos ∧ e.fault.isInside = true) ∨
      e.pos = action.pos ∧ Misplaced action.clause e.fault := by
  obtain ⟨pos, clause⟩ := action
  cases clause with
  | pipeline p =>
    rcases bind_eq_error_iff.mp h with h | ⟨_, -, h⟩
    · exact .inl (failsIn_checkPipeline p (hplaced p List.mem_cons_self) e h)
    · cases h
  | control kind p => exact .inl (failsIn_openControl (hplaced p List.mem_cons_self) h)
  | otherwise =>
    simp only [step] at h
    split at h
    · cases h
    · rename_i fault hend
      cases h
      rcases endBody_eq_error hend with rfl | rfl
      · exact .inr ⟨rfl, .otherwise⟩
      · exact .inr ⟨rfl, .secondOtherwise⟩
  | elseControl kind p =>
    simp only [step] at h
    split at h
    · split at h
      · exact .inl (failsIn_openControl (hplaced p List.mem_cons_self) h)
      · rename_i hkind
        cases h
        exact .inr ⟨rfl, .elseIn hkind⟩
    · rename_i fault hend
      cases h
      rcases endBody_eq_error hend with rfl | rfl
      · exact .inr ⟨rfl, .elseControl⟩
      · exact .inr ⟨rfl, .secondElseControl⟩
  | close =>
    simp only [step] at h
    split at h
    · cases h
    · cases h
      exact .inr ⟨rfl, .close⟩
  | definition name =>
    simp only [step] at h
    split at h
    · cases h
    · cases h
      exact .inr ⟨rfl, .definition⟩
  | invocation name data =>
    cases data with
    | none => cases h
    | some p =>
      rcases bind_eq_error_iff.mp h with h | ⟨_, -, h⟩
      · exact .inl (failsIn_checkPipeline p (hplaced p List.mem_cons_self) e h)
      · cases h
  | block name p =>
    rcases bind_eq_error_iff.mp h with h | ⟨_, -, h⟩
    · exact .inl (failsIn_checkPipeline p (hplaced p List.mem_cons_self) e h)
    · cases h
  | jump kind =>
    simp only [step] at h
    split at h
    · cases h
    · cases h
      exact .inr ⟨rfl, .jump⟩

end Assembly

/-! ### Places of a source -/

/-- A place of a part of the source is the place that comes after what stands before it. -/
theorem locateIn_append (front body rest back : List Char) :
    locateIn (positionAt (front ++ (body ++ rest) ++ back) (utf8Length front)) (body ++ rest) rest =
      positionAt (front ++ (body ++ rest) ++ back) (utf8Length (front ++ body)) := by
  have hbody : utf8Length (body ++ rest) - utf8Length rest = utf8Length body := by
    rw [Text.utf8Length_append, Nat.add_sub_cancel]
  have hsource : front ++ (body ++ rest) ++ back = (front ++ body) ++ (rest ++ back) := by
    simp only [List.append_assoc]
  calc
    _ = body.foldl Pos.advance (front.foldl Pos.advance .start) := by
      rw [locateIn, hbody, Text.positionFrom_append, List.append_assoc, Text.positionAt_append]
    _ = (front ++ body).foldl Pos.advance .start := (List.foldl_append ..).symm
    _ = _ := by rw [hsource, Text.positionAt_append]

/-- A place in the body of an action is a place of the source that the body stands in. -/
theorem exists_of_placeIn {front body back : List Char} {pos : Pos}
    (h : PlaceIn (locateIn (positionAt (front ++ body ++ back) (utf8Length front)) body) body pos) :
    ∃ passed rest, body = passed ++ rest ∧
      pos = positionAt (front ++ body ++ back) (utf8Length (front ++ passed)) := by
  obtain ⟨rest, ⟨passed, rfl⟩, rfl⟩ := h
  exact ⟨passed, rest, rfl, locateIn_append front passed rest back⟩

/-- The body of an action stands in the source at its offset. -/
theorem exists_of_mem_segmentsFrom {offset start bodyStart : Nat} {trims : Bool}
    {last body : List Char} {tags : List (List Char × Tag)}
    (h : .action start bodyStart body ∈ segmentsFrom offset trims last tags) :
    ∃ front back, tags.flatMap (fun (text, t) => text ++ t.source) ++ last = front ++ body ++ back ∧
      bodyStart = offset + utf8Length front := by
  obtain ⟨before, text, t, behind, rfl, -, rfl, hstart⟩ := exists_tag_of_mem_segmentsFrom h
  have hopening : utf8Length opening = 2 := rfl
  refine ⟨before.flatMap (fun (text, t) => text ++ t.source) ++ text ++ opening ++ dash t.trimsLeft,
    dash t.trimsRight ++ closing ++ behind.flatMap (fun (text, t) => text ++ t.source) ++ last,
    ?_, ?_⟩
  · simp [Tag.source]
  · rw [hstart, Text.utf8Length_append _ (dash _), Text.utf8Length_append _ opening, hopening,
      utf8Length_dash, length_dash, Nat.add_assoc, Nat.add_assoc, Nat.add_assoc]

theorem exists_of_mem_segments {source body : List Char} {found : List Segment}
    {start bodyStart : Nat} (h : segments source = .ok found)
    (hmem : .action start bodyStart body ∈ found) :
    ∃ front back, source = front ++ body ++ back ∧ bodyStart = utf8Length front := by
  obtain ⟨c, hcut, rfl⟩ := map_eq_ok_iff.mp h
  obtain ⟨front, back, hsource, hstart⟩ := exists_of_mem_segmentsFrom hmem
  refine ⟨front, back, ?_, by rw [hstart, Nat.zero_add]⟩
  rw [← hsource, ← source_cut hcut]
  rfl

/-- A tag that cannot be read is noted at its opening mark. -/
theorem exists_of_cut_error {cursor offset : Nat} {source : List Char} {fault : TagFault}
    (h : cut cursor source = .error (offset, fault)) :
    ∃ before stop text inner, source = before ++ opening ++ inner ∧
      offset = cursor + utf8Length before ∧ Reaches source stop ∧
      cutOpening stop = (text, some inner) ∧ readTag inner = .error fault := by
  -- By the recursion of `cut`: each tag that can be read is passed over.
  fun_induction cut cursor source with
  | case1 => cases h
  | case2 cursor source text after hopen fault' hread =>
    cases h
    exact ⟨text, source, text, after, cutOpening_some hopen, rfl, .start, hopen, hread⟩
  | case3 cursor source text after hopen t rest hread ih =>
    obtain ⟨before, stop, text', inner, heq, hoffset, hreaches, hstop⟩ := ih (map_eq_error_iff.mp h)
    refine ⟨text ++ t.source ++ before, stop, text', inner, ?_, ?_, .tag hopen hread hreaches,
      hstop⟩
    · rw [cutOpening_some hopen, List.append_assoc, source_readTag hread, heq]
      simp only [List.append_assoc]
    · rw [hoffset, Text.utf8Length_append _ before, Nat.add_assoc]

/-! ### Errors of sources -/

section Errors

variable {isFunction : String → Bool} {source : List Char} {e : SyntaxError}

/-- The action whose body stands between `front` and `back` is refused with the error, and no
segment before it is. -/
structure FirstRefused (isFunction : String → Bool) (source : List Char) (e : SyntaxError)
    (front body back : List Char) : Prop where
  source_eq : source = front ++ body ++ back
  refused : ∃ found start rest a,
    segments source = .ok (found ++ .action start (utf8Length front) body :: rest) ∧
    found.foldlM (Assembly.take isFunction source) .empty = .ok a ∧
    a.take isFunction source (.action start (utf8Length front) body) = .error e

/-- What stands before the place that an error notes, and what stands after it, by what is wrong. -/
inductive Points (isFunction : String → Bool) (source : List Char) (e : SyntaxError) :
    List Char → List Char → Prop
  /-- Tag by tag the reader comes to an opening mark, and the tag that starts there is not
  closed. -/
  | tag {before stop text inner : List Char} {fault : TagFault} :
      e.fault = .tag fault → fault ≠ .foreignCharacter → Reaches source stop →
      cutOpening stop = (text, some inner) → readTag inner = .error fault →
      Points isFunction source e before (opening ++ inner)
  /-- An action cannot be read, or its pipeline does not pass its check. -/
  | inside {front passed rest back : List Char} :
      e.fault.isInside = true → FirstRefused isFunction source e front (passed ++ rest) back →
      Points isFunction source e (front ++ passed) (rest ++ back)
  /-- An action stands where it cannot. Its first character that is not white space is noted. -/
  | misplaced {front body back : List Char} {clause : Clause} :
      Misplaced clause e.fault → FirstRefused isFunction source e front body back →
      readAction (locateIn (positionAt source (utf8Length front)) body) body = .ok ⟨e.pos, clause⟩ →
      trimStart body ≠ [] →
      Points isFunction source e (front ++ body.takeWhile isSpace) (trimStart body ++ back)
  /-- All segments are taken in, and structures are open. -/
  | ending {found : List Segment} {a : Assembly} :
      e.fault = .endOfSource → segments source = .ok found →
      found.foldlM (Assembly.take isFunction source) .empty = .ok a → a.frames ≠ [] →
      Points isFunction source e source []

namespace FirstRefused

variable {front body back : List Char}

theorem points_inside (h : FirstRefused isFunction source e front body back)
    (hplace : PlaceIn (locateIn (positionAt source (utf8Length front)) body) body e.pos)
    (hinside : e.fault.isInside = true) :
    ∃ before after, source = before ++ after ∧ e.pos = positionAt source (utf8Length before) ∧
      Points isFunction source e before after := by
  obtain rfl := h.source_eq
  obtain ⟨passed, rest, rfl, hpos⟩ := exists_of_placeIn hplace
  exact ⟨front ++ passed, rest ++ back, by simp only [List.append_assoc], hpos, .inside hinside h⟩

theorem points_misplaced (h : FirstRefused isFunction source e front body back) {clause : Clause}
    (hread : readAction (locateIn (positionAt source (utf8Length front)) body) body =
      .ok ⟨e.pos, clause⟩)
    (hmisplaced : Misplaced clause e.fault) :
    ∃ before after, source = before ++ after ∧ e.pos = positionAt source (utf8Length before) ∧
      Points isFunction source e before after := by
  obtain rfl := h.source_eq
  obtain ⟨hne, hpos, -⟩ := (located_readAction _ body).2 _ hread
  have hbody : body.takeWhile isSpace ++ trimStart body = body :=
    List.takeWhile_append_dropWhile
  refine ⟨front ++ body.takeWhile isSpace, trimStart body ++ back, ?_, ?_,
    .misplaced hmisplaced h hread hne⟩
  · conv_lhs => rw [← hbody]
    simp only [List.append_assoc]
  · have hplace := locateIn_append front (body.takeWhile isSpace) (trimStart body) back
    rw [hbody] at hplace
    exact hpos.trans hplace

/-- What stands around the place of an error, if an action is refused. -/
theorem points (h : FirstRefused isFunction source e front body back) :
    ∃ before after, source = before ++ after ∧ e.pos = positionAt source (utf8Length before) ∧
      Points isFunction source e before after := by
  obtain ⟨_, _, _, a, -, -, hrefused⟩ := h.refused
  obtain ⟨hunread, hread⟩ :=
    located_readAction (locateIn (positionAt source (utf8Length front)) body) body
  -- It cannot be read, or what it says is refused.
  rcases bind_eq_error_iff.mp hrefused with herror | ⟨action, haction, hstep⟩
  · obtain ⟨hplace, hinside⟩ := hunread e herror
    exact h.points_inside hplace hinside
  · obtain ⟨-, -, hplaced⟩ := hread action haction
    rcases Assembly.step_eq_error hplaced hstep with ⟨hplace, hinside⟩ | ⟨hpos, hmisplaced⟩
    · exact h.points_inside hplace hinside
    · rw [show action = ⟨e.pos, action.clause⟩ by rw [hpos]] at haction
      exact h.points_misplaced haction hmisplaced

end FirstRefused

/-- What stands around the place of an error, if the source cannot be cut. -/
theorem points_of_segments {offset : Nat} {fault : TagFault}
    (h : segments source = .error (offset, fault)) (hclosed : fault ≠ .foreignCharacter) :
    ∃ before after, source = before ++ after ∧ offset = utf8Length before ∧
      Points isFunction source ⟨positionAt source offset, .tag fault⟩ before after := by
  obtain ⟨before, stop, text, inner, hsource, rfl, hreaches, hopen, hread⟩ :=
    exists_of_cut_error (map_eq_error_iff.mp h)
  refine ⟨before, opening ++ inner, ?_, Nat.zero_add _, ?_⟩
  · rw [hsource, List.append_assoc]
  · exact .tag rfl hclosed hreaches hopen hread

/-- If the segments of a source are not all taken in, the first that is not is an action. -/
theorem exists_firstRefused {found : List Segment} (hfound : segments source = .ok found)
    (h : found.foldlM (Assembly.take isFunction source) .empty = .error e) :
    ∃ front body back, FirstRefused isFunction source e front body back := by
  obtain ⟨passed, s, later, a, rfl, hpassed, hrefused⟩ := foldlM_eq_error h
  cases s with
  | text => cases hrefused
  | action start bodyStart body =>
    obtain ⟨front, back, hsource, rfl⟩ :=
      exists_of_mem_segments hfound (List.mem_append_right _ List.mem_cons_self)
    exact ⟨front, body, back, hsource, passed, start, later, a, hfound, hpassed, hrefused⟩

/-- What stands around the place of an error, if the source ends too early. -/
theorem points_of_finish {found : List Segment} {a : Assembly}
    (hfound : segments source = .ok found)
    (hfold : found.foldlM (Assembly.take isFunction source) .empty = .ok a)
    (hfinish : a.finish = none) (hfault : e.fault = .endOfSource) :
    Points isFunction source e source [] := by
  refine .ending hfault hfound hfold fun hframes => ?_
  simp [Assembly.finish, hframes] at hfinish

/-- Each place of a source has a number, and none comes after the end. -/
theorem positionAt_bounds (before after : List Char) :
    positionAt (before ++ after) (utf8Length before) ≠ ⟨0, 0⟩ ∧
      ¬ positionAt (before ++ after) (utf8Length (before ++ after)) <
        positionAt (before ++ after) (utf8Length before) := by
  constructor
  · rw [Text.positionAt_append, Text.foldl_advance_start]
    intro hzero
    have hline := congrArg Pos.line hzero
    simp at hline
  · have hbefore : Text.Boundary (before ++ after) (utf8Length before) :=
      ⟨before, List.prefix_append _ _, rfl⟩
    have hend : Text.Boundary (before ++ after) (utf8Length (before ++ after)) :=
      ⟨_, List.prefix_rfl, rfl⟩
    rw [Text.positionAt_lt_iff hend hbefore, Text.utf8Length_append]
    omega

/-- **Errors point at what they are about.** The place that an error of a source notes is a place
between two characters of it, or at an end. It is in the body of the first action that is refused,
if what is wrong is inside that action; at its first character, if it stands where it cannot; at the
opening mark of a tag that is not closed; and at the end of the source, if structures are not
closed. So no error is without a place, and none has a place beyond the end. -/
theorem points_of_parse (h : parse isFunction source = .error e)
    (hlexed : e.fault ≠ .tag .foreignCharacter) :
    (∃ before after, source = before ++ after ∧ e.pos = positionAt source (utf8Length before) ∧
      Points isFunction source e before after) ∧
    e.pos ≠ ⟨0, 0⟩ ∧ ¬ positionAt source (utf8Length source) < e.pos := by
  have hplace : ∃ before after, source = before ++ after ∧
      e.pos = positionAt source (utf8Length before) ∧ Points isFunction source e before after := by
    -- A source is refused when it is cut, when a segment is taken in, or when it ends.
    unfold parse at h
    split at h
    · rename_i offset fault hcut
      cases h
      have hclosed : fault ≠ .foreignCharacter := fun heq => hlexed (congrArg SyntaxFault.tag heq)
      obtain ⟨before, after, hsource, hoffset, hpoints⟩ := points_of_segments hcut hclosed
      exact ⟨before, after, hsource, congrArg (positionAt source) hoffset, hpoints⟩
    · rename_i found hfound
      rcases bind_eq_error_iff.mp h with hfold | ⟨a, hfold, h⟩
      · obtain ⟨_, _, _, hrefused⟩ := exists_firstRefused hfound hfold
        exact hrefused.points
      · split at h
        · cases h
        · rename_i hfinish
          cases h
          exact ⟨source, [], (List.append_nil source).symm, rfl,
            points_of_finish hfound hfold hfinish rfl⟩
  refine ⟨hplace, ?_⟩
  obtain ⟨before, after, rfl, hpos, -⟩ := hplace
  rw [hpos]
  exact positionAt_bounds before after

/-- A template is defined inside a condition, in the third line. -/
theorem points_of_parse_nested :
    ∃ before after,
      "é\n\x7b\x7bif .A\x7d\x7d\n \x7b\x7b-  define \"x\"\x7d\x7d".toList = before ++ after ∧
      parse (fun _ => false) (before ++ after) = .error ⟨⟨3, 7⟩, .nestedDefinition⟩ ∧
      positionAt (before ++ after) (utf8Length before) = ⟨3, 7⟩ ∧
      Points (fun _ => false) (before ++ after) ⟨⟨3, 7⟩, .nestedDefinition⟩ before after := by
  have h : parse (fun _ => false)
      "é\n\x7b\x7bif .A\x7d\x7d\n \x7b\x7b-  define \"x\"\x7d\x7d".toList =
        .error ⟨⟨3, 7⟩, .nestedDefinition⟩ :=
    error?_eq_some_iff.mp (by decide +kernel)
  obtain ⟨⟨before, after, hsource, hpos, hpoints⟩, -⟩ := points_of_parse h (by decide)
  rw [hsource] at h hpos hpoints
  exact ⟨before, after, hsource, h, hpos.symm, hpoints⟩

end Errors

end BoundQuery.Template
