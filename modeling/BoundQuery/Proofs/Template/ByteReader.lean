/-
# Reading by byte offsets

The tags of a source may be found by byte offsets, with slices of the source between them. The reader
by byte offsets finds the same segments as `segments`, and the same faults, but it has no answer where
`segments` finds a character that is not ASCII outside string literals.

Main statements: `tagAt?_eq`, `readBytes_eq`.
-/

import BoundQuery.Proofs.Template.ByteSearch

namespace BoundQuery.Template

open Text (utf8Length utf8Length_nil utf8Length_cons utf8Length_append encode sliceFrom? sliceTo?
  slice? find?)

/-! ### Marks -/

theorem find?_opening (cs : List Char) :
    find? opening cs = (cutOpening cs).2.map fun _ => utf8Length (cutOpening cs).1 := by
  fun_induction cutOpening cs with
  | case1 => rfl
  | case2 rest => rfl
  | case3 c rest hopening ih =>
    have hstarts : ¬ opening.isPrefixOf (c :: rest) = true := by
      rw [List.isPrefixOf_iff_prefix]
      rintro ⟨more, h⟩
      obtain ⟨rfl, hmore⟩ := List.cons.inj h
      exact hopening more rfl hmore.symm
    rw [find?, if_neg hstarts, ih]
    cases (cutOpening rest).2 <;> rfl

theorem two_le_of_cutCommentEnd? {cs left right : List Char}
    (h : cutCommentEnd? cs = some (left, right)) : 2 ≤ utf8Length left := by
  fun_induction cutCommentEnd? cs generalizing left with
  | case1 => cases h
  | case2 rest =>
    cases h
    exact Nat.le_refl 2
  | case3 c rest _ ih =>
    obtain ⟨⟨l, r⟩, hl, he⟩ := Option.map_eq_some_iff.mp h
    cases he
    exact Nat.le_add_left_of_le (ih hl)

theorem find?_commentEnd (cs : List Char) :
    find? ['*', '/'] cs = (cutCommentEnd? cs).map fun parts => utf8Length parts.1 - 2 := by
  fun_induction cutCommentEnd? cs with
  | case1 => rfl
  | case2 rest => rfl
  | case3 c rest hend ih =>
    have hstarts : ¬ ['*', '/'].isPrefixOf (c :: rest) = true := by
      rw [List.isPrefixOf_iff_prefix]
      rintro ⟨more, h⟩
      obtain ⟨rfl, hmore⟩ := List.cons.inj h
      exact hend more rfl hmore.symm
    rw [find?, if_neg hstarts, ih]
    cases hcut : cutCommentEnd? rest with
    | none => rfl
    | some parts =>
      have hlength := two_le_of_cutCommentEnd? hcut
      simp only [Option.map_some, utf8Length_cons, Option.some.injEq]
      omega

/-! ### Tags -/

/-- A tag that was found by byte offsets: the segments that it makes, and the offset after it. -/
structure ByteTag where
  trimsLeft : Bool
  segments : List Segment
  next : Nat
  trimsRight : Bool
deriving DecidableEq

/-- The end of the comment that starts at a byte offset: the offset after its closing mark, and
whether that trims. -/
def closeCommentAt? (source : List Char) (start : Nat) : Option (Option (Nat × Bool)) :=
  (sliceFrom? source start).bind fun comment =>
    match find? ['*', '/'] comment with
    | none => some none
    | some found =>
      (sliceFrom? source (start + found + 2)).bind fun after =>
        let lead := trimStart after
        if closing.isPrefixOf after then some (some (start + found + 2 + 2, false))
        else if utf8Length lead < utf8Length after ∧ ('-' :: closing).isPrefixOf lead then
          some (some (start + found + 2 + (utf8Length after - utf8Length lead) + 3, true))
        else some none

/-- The tag whose opening mark is at a byte offset. -/
def tagAt? (source : List Char) (start : Nat) : Option (Except TagFault ByteTag) :=
  (sliceFrom? source (start + 2)).bind fun after =>
    let trimsLeft := startsTrim after
    let interiorStart := start + 2 + if trimsLeft then 1 else 0
    (sliceFrom? source interiorStart).bind fun interior =>
      let lead := trimStart interior
      if startsComment lead && (trimsLeft || utf8Length lead == utf8Length interior) then
        let commentStart := interiorStart + (utf8Length interior - utf8Length lead)
        (closeCommentAt? source commentStart).map fun
          | none => .error .unclosedComment
          | some (next, trimsRight) => .ok ⟨trimsLeft, [], next, trimsRight⟩
      else
        (findClosing interior 0 none (encode interior)).bind fun
          | none => some (.error .unclosedAction)
          | some stop =>
            (sliceTo? interior stop).bind fun body =>
              let trimsRight := endsTrim body
              let bodyStop := if trimsRight then utf8Length body - 1 else utf8Length body
              (sliceTo? body bodyStop).map fun body =>
                .ok ⟨trimsLeft, [.action start interiorStart body], interiorStart + stop + 2,
                  trimsRight⟩

/-- The outcome of reading; none where a character outside string literals is not ASCII. -/
def answer? {ε α : Type} (fault : ε → TagFault) : Except ε α → Option (Except ε α)
  | .error e => if fault e = .foreignCharacter then none else some (.error e)
  | .ok a => some (.ok a)

/-- White space at the front makes up the difference in length. -/
theorem utf8Length_trimStart (cs : List Char) :
    utf8Length cs = utf8Length (cs.takeWhile isSpace) + utf8Length (trimStart cs) := by
  rw [← utf8Length_append, trimStart, List.takeWhile_append_dropWhile]

theorem utf8Length_trimStart_lt {cs : List Char} :
    utf8Length (trimStart cs) < utf8Length cs ↔ (cs.takeWhile isSpace).isEmpty = false := by
  rw [utf8Length_trimStart cs]
  cases h : cs.takeWhile isSpace with
  | nil => simp
  | cons c blanks =>
    have hpos := Text.utf8Length_pos (List.cons_ne_nil c blanks)
    simp only [List.isEmpty_cons, iff_true]
    omega

theorem utf8Length_trimStart_beq (cs : List Char) :
    (utf8Length (trimStart cs) == utf8Length cs) = (cs.takeWhile isSpace).isEmpty := by
  cases hblanks : (cs.takeWhile isSpace).isEmpty with
  | true =>
    have hlength := utf8Length_trimStart cs
    rw [List.isEmpty_iff.mp hblanks, utf8Length_nil, Nat.zero_add] at hlength
    exact beq_iff_eq.mpr hlength.symm
  | false => exact beq_eq_false_iff_ne.mpr (Nat.ne_of_lt (utf8Length_trimStart_lt.mpr hblanks))

theorem closeComment?_of_not_closing {cs : List Char} (h : ¬ closing.isPrefixOf cs = true) :
    closeComment? cs =
      if utf8Length (trimStart cs) < utf8Length cs ∧
          ('-' :: closing).isPrefixOf (trimStart cs) = true then
        some (cs.takeWhile isSpace, true, (trimStart cs).drop 3)
      else none := by
  unfold closeComment?
  split
  · rename_i rest
    exact absurd (List.isPrefixOf_iff_prefix.mpr (List.prefix_append closing rest)) h
  · dsimp only
    split
    · rename_i rest hlead
      have hstarts : ('-' :: closing).isPrefixOf (trimStart cs) = true := by
        rw [hlead]
        exact List.isPrefixOf_iff_prefix.mpr (List.prefix_append ('-' :: closing) rest)
      cases hblanks : (cs.takeWhile isSpace).isEmpty with
      | true =>
        have hsame : ¬ (utf8Length (trimStart cs) < utf8Length cs ∧
            ('-' :: closing).isPrefixOf (trimStart cs) = true) := by
          rw [utf8Length_trimStart_lt, hblanks]
          rintro ⟨h, -⟩
          cases h
        rw [if_neg hsame]
        rfl
      | false =>
        have hshorter : utf8Length (trimStart cs) < utf8Length cs ∧
            ('-' :: closing).isPrefixOf (trimStart cs) = true :=
          ⟨utf8Length_trimStart_lt.mpr hblanks, hstarts⟩
        rw [if_pos hshorter, hlead]
        rfl
    · rename_i hlead
      rw [if_neg]
      rintro ⟨-, hstarts⟩
      obtain ⟨rest, hrest⟩ := List.isPrefixOf_iff_prefix.mp hstarts
      exact hlead rest hrest.symm

theorem answer?_eq_none_iff {ε α : Type} {fault : ε → TagFault} {outcome : Except ε α} :
    answer? fault outcome = none ↔ ∃ e, outcome = .error e ∧ fault e = .foreignCharacter := by
  cases outcome with
  | error e => simp [answer?]
  | ok a => simp [answer?]

theorem eq_of_answer? {ε α : Type} {fault : ε → TagFault} {outcome answer : Except ε α}
    (h : answer? fault outcome = some answer) : outcome = answer := by
  unfold answer? at h
  split at h
  · split at h
    · cases h
    · exact Option.some.inj h
  · exact Option.some.inj h

theorem closeCommentAt?_eq (before comment : List Char) :
    closeCommentAt? (before ++ comment) (utf8Length before) =
      some ((cutCommentEnd? comment).bind fun (left, rest) => (closeComment? rest).map
        fun (trail, trimsRight, _) =>
          (utf8Length (before ++ left ++ trail ++ dash trimsRight ++ closing), trimsRight)) := by
  rw [closeCommentAt?, Text.sliceFrom?_append, Option.bind_some, find?_commentEnd]
  cases hcut : cutCommentEnd? comment with
  | none => rfl
  | some parts =>
    obtain ⟨left, rest⟩ := parts
    have hlength := two_le_of_cutCommentEnd? hcut
    have hstop : utf8Length before + (utf8Length left - 2) + 2 = utf8Length (before ++ left) := by
      rw [utf8Length_append]
      omega
    simp only [Option.map_some, Option.bind_some]
    rw [hstop, cutCommentEnd?_some hcut, ← List.append_assoc, Text.sliceFrom?_append,
      Option.bind_some]
    by_cases hclosing : closing.isPrefixOf rest = true
    · obtain ⟨more, rfl⟩ := List.isPrefixOf_iff_prefix.mp hclosing
      have hclose : closeComment? (closing ++ more) = some ([], false, more) := rfl
      rw [if_pos hclosing, hclose, Option.map_some, dash, if_neg Bool.false_ne_true,
        List.append_nil, List.append_nil, utf8Length_append _ closing]
      rfl
    · rw [if_neg hclosing, closeComment?_of_not_closing hclosing]
      split
      · have hblanks := utf8Length_trimStart rest
        have hnext : utf8Length (before ++ left) + (utf8Length rest - utf8Length (trimStart rest)) + 3 =
            utf8Length (before ++ left ++ rest.takeWhile isSpace ++ dash true ++ closing) := by
          have hmarks : utf8Length (dash true ++ closing) = 3 := rfl
          rw [List.append_assoc _ (dash true), utf8Length_append _ (dash true ++ closing), hmarks,
            utf8Length_append _ (rest.takeWhile isSpace)]
          omega
        rw [hnext]
        rfl
      · rfl

theorem fault_of_cutClosing {place : Place} {cs : List Char} {fault : TagFault}
    (h : cutClosing place cs = .error fault) :
    fault = .unclosedAction ∨ fault = .foreignCharacter := by
  fun_induction cutClosing place cs with
  | case1 =>
    cases h
    exact .inl rfl
  | case2 => cases h
  | case3 =>
    cases h
    exact .inr rfl
  | case4 place c rest _ _ ih =>
    cases hrest : cutClosing (place.next c) rest with
    | error fault' =>
      rw [hrest] at h
      cases h
      exact ih hrest
    | ok parts =>
      rw [hrest] at h
      cases h

/-- A comment may come after white space. -/
theorem closeCommentAt?_interior (before interior : List Char) :
    closeCommentAt? (before ++ interior)
        (utf8Length before + (utf8Length interior - utf8Length (trimStart interior))) =
      some ((cutCommentEnd? (trimStart interior)).bind fun (left, rest) => (closeComment? rest).map
        fun (trail, trimsRight, _) =>
          (utf8Length (before ++ interior.takeWhile isSpace ++ left ++ trail ++ dash trimsRight ++
            closing), trimsRight)) := by
  have hstart : utf8Length before + (utf8Length interior - utf8Length (trimStart interior)) =
      utf8Length (before ++ interior.takeWhile isSpace) := by
    rw [utf8Length_append, utf8Length_trimStart interior, Nat.add_sub_cancel]
  have hinterior : before ++ interior =
      before ++ interior.takeWhile isSpace ++ trimStart interior := by
    rw [List.append_assoc, trimStart, List.takeWhile_append_dropWhile]
  rw [hstart, hinterior, closeCommentAt?_eq]

/-- The search for the closing mark of an action, from the start of its interior on. -/
theorem findClosing_interior (interior : List Char) :
    findClosing interior 0 none (encode interior) = closingAt 0 (cutClosing .outside interior) := by
  have hsearch := searchFrom_eq [] interior .outside
  rwa [searchFrom, List.nil_append, utf8Length_nil] at hsearch

theorem utf8Length_dash (trims : Bool) : utf8Length (dash trims) = if trims then 1 else 0 := by
  cases trims <;> rfl

theorem length_dash (trims : Bool) : (dash trims).length = if trims then 1 else 0 := by
  cases trims <;> rfl

/-- The interior of an action without the dash of its trim marker. -/
theorem sliceTo?_undashed (interior : List Char) :
    sliceTo? interior
        (if endsTrim interior then utf8Length interior - 1 else utf8Length interior) =
      some (if endsTrim interior then interior.dropLast else interior) := by
  have hdash := trimsRight_append interior
  generalize (if endsTrim interior then interior.dropLast else interior) = body at hdash ⊢
  have hlength : utf8Length interior = utf8Length body + if endsTrim interior then 1 else 0 := by
    rw [← utf8Length_dash, ← utf8Length_append, hdash]
  have hstop : (if endsTrim interior then utf8Length interior - 1 else utf8Length interior) =
      utf8Length body := by
    split <;> simp_all
  rw [hstop, ← hdash, Text.sliceTo?_append]

/-- By byte offsets the tag is found that is read by characters. -/
theorem tagAt?_eq (before after : List Char) :
    tagAt? (before ++ opening ++ after) (utf8Length before) =
      answer? id ((readTag after).map fun (t, _) =>
        ⟨t.trimsLeft, t.segment (utf8Length before), utf8Length (before ++ t.source),
          t.trimsRight⟩) := by
  have hstart : utf8Length before + 2 = utf8Length (before ++ opening) := by
    rw [utf8Length_append]
    rfl
  have hafter := trimsLeft_append after
  unfold tagAt? readTag
  rw [hstart, Text.sliceFrom?_append, Option.bind_some]
  dsimp only
  generalize startsTrim after = trimsLeft at hafter ⊢
  generalize (if trimsLeft = true then after.drop 1 else after) = interior at hafter ⊢
  have hsource : before ++ opening ++ after = before ++ opening ++ dash trimsLeft ++ interior := by
    rw [List.append_assoc _ (dash trimsLeft), hafter]
  rw [← utf8Length_dash, ← utf8Length_append, hsource, Text.sliceFrom?_append, Option.bind_some,
    utf8Length_trimStart_beq]
  split
  · -- A comment ends with its own mark.
    rw [closeCommentAt?_interior]
    cases cutCommentEnd? (trimStart interior) with
    | none => rfl
    | some parts =>
      obtain ⟨comment, rest⟩ := parts
      dsimp only
      rw [Option.bind_some]
      cases closeComment? rest with
      | none => rfl
      | some parts =>
        obtain ⟨trail, trimsRight, rest⟩ := parts
        simp [answer?, Except.map, Tag.segment, Tag.source]
  · -- An action ends with the first closing mark outside string literals.
    rw [findClosing_interior]
    cases hcut : cutClosing .outside interior with
    | error fault =>
      rcases fault_of_cutClosing hcut with rfl | rfl <;> rfl
    | ok parts =>
      obtain ⟨left, right⟩ := parts
      have hbody := trimsRight_append left
      have hleft : sliceTo? interior (0 + utf8Length left) = some left := by
        rw [cutClosing_ok hcut, List.append_assoc, Nat.zero_add, Text.sliceTo?_append]
      simp only [closingAt, Option.bind_some, hleft, sliceTo?_undashed, bind, Except.bind, pure,
        Except.pure]
      generalize (if endsTrim left = true then left.dropLast else left) = body at hbody ⊢
      generalize endsTrim left = trimsRight at hbody ⊢
      have hbodyStart : utf8Length (before ++ opening ++ dash trimsLeft) =
          utf8Length before + 2 + (dash trimsLeft).length := by
        rw [utf8Length_append, ← hstart, utf8Length_dash, length_dash]
      have hnext : utf8Length (before ++ opening ++ dash trimsLeft) + (0 + utf8Length left) + 2 =
          utf8Length (before ++
            (opening ++ dash trimsLeft ++ body ++ dash trimsRight ++ closing)) := by
        have hmark : utf8Length closing = 2 := rfl
        rw [← hbody]
        simp only [utf8Length_append, hmark]
        omega
      rw [hnext, hbodyStart]
      rfl

/-! ### Sources -/

theorem lt_of_closeCommentAt? {source : List Char} {start next : Nat} {trims : Bool}
    (h : closeCommentAt? source start = some (some (next, trims))) : start < next := by
  obtain ⟨comment, -, h⟩ := Option.bind_eq_some_iff.mp h
  split at h
  · cases h
  · obtain ⟨after, -, h⟩ := Option.bind_eq_some_iff.mp h
    dsimp only at h
    split at h
    · cases h
      omega
    · split at h
      · cases h
        omega
      · cases h

theorem lt_of_tagAt? {source : List Char} {start : Nat} {tag : ByteTag}
    (h : tagAt? source start = some (.ok tag)) : start < tag.next ∧ start < utf8Length source := by
  obtain ⟨after, hafter, h⟩ := Option.bind_eq_some_iff.mp h
  obtain ⟨interior, -, h⟩ := Option.bind_eq_some_iff.mp h
  have hinside : start + 2 ≤ utf8Length source := by
    obtain ⟨before, rfl, hlength⟩ := Text.sliceFrom?_eq_some hafter
    rw [utf8Length_append]
    omega
  refine ⟨?_, by omega⟩
  dsimp only at h
  split at h
  · obtain ⟨close, hclose, h⟩ := Option.map_eq_some_iff.mp h
    split at h
    · cases h
    · have hnext := lt_of_closeCommentAt? hclose
      cases h
      dsimp only
      omega
  · obtain ⟨stop, -, h⟩ := Option.bind_eq_some_iff.mp h
    cases stop with
    | none => cases h
    | some stop =>
      obtain ⟨body, -, h⟩ := Option.bind_eq_some_iff.mp h
      obtain ⟨body, -, h⟩ := Option.map_eq_some_iff.mp h
      cases h
      dsimp only
      omega

/-- The segments of a source from a byte offset on, after a tag that trims to its right or not. A
fault comes with the offset of the opening mark of its tag. -/
def readBytes (source : List Char) (cursor : Nat) (trims : Bool) :
    Option (Except (Nat × TagFault) (List Segment)) :=
  match sliceFrom? source cursor with
  | none => none
  | some rest =>
    match find? opening rest with
    | none => some (.ok (trimmed trims false rest))
    | some found =>
      match _h : tagAt? source (cursor + found) with
      | none => none
      | some (.error fault) => some (.error (cursor + found, fault))
      | some (.ok tag) =>
        (slice? source cursor (cursor + found)).bind fun text =>
          (readBytes source tag.next tag.trimsRight).map
            (Except.map (trimmed trims tag.trimsLeft text ++ tag.segments ++ ·))
termination_by utf8Length source - cursor
decreasing_by
  have := lt_of_tagAt? _h
  omega

section Reading

variable {source text after : List Char} {cursor : Nat} {trims : Bool}

theorem readBytes_of_none {rest : List Char} (hslice : sliceFrom? source cursor = some rest)
    (hopen : cutOpening rest = (text, none)) :
    readBytes source cursor trims = some (.ok (trimmed trims false rest)) := by
  have hfind : find? opening rest = none := by
    rw [find?_opening, hopen]
    rfl
  rw [readBytes, hslice]
  dsimp only
  rw [hfind]

theorem readBytes_of_tag {rest : List Char} (hslice : sliceFrom? source cursor = some rest)
    (hopen : cutOpening rest = (text, some after)) {outcome : Option (Except TagFault ByteTag)}
    (htag : tagAt? source (cursor + utf8Length text) = outcome) :
    readBytes source cursor trims = outcome.bind fun
      | .error fault => some (.error (cursor + utf8Length text, fault))
      | .ok tag =>
        (slice? source cursor (cursor + utf8Length text)).bind fun text =>
          (readBytes source tag.next tag.trimsRight).map
            (Except.map (trimmed trims tag.trimsLeft text ++ tag.segments ++ ·)) := by
  have hfind : find? opening rest = some (utf8Length text) := by
    rw [find?_opening, hopen]
    rfl
  rw [readBytes, hslice]
  dsimp only
  rw [hfind]
  dsimp only
  split <;> rename_i heq <;> rw [heq] at htag <;> subst htag <;> rfl

end Reading

/-- The tag after the text up to the next opening mark. -/
theorem tagAt?_of_cutOpening (before : List Char) {source text after : List Char}
    (hopen : cutOpening source = (text, some after)) :
    tagAt? (before ++ source) (utf8Length before + utf8Length text) =
      answer? id ((readTag after).map fun (t, _) =>
        ⟨t.trimsLeft, t.segment (utf8Length before + utf8Length text),
          utf8Length (before ++ text ++ t.source), t.trimsRight⟩) := by
  have hsource : before ++ source = before ++ text ++ opening ++ after := by
    rw [cutOpening_some hopen]
    simp only [List.append_assoc]
  rw [hsource, ← utf8Length_append, tagAt?_eq]

theorem readBytes_from {before rest : List Char} {cursor : Nat} (hcursor : utf8Length before = cursor)
    (trims : Bool) :
    readBytes (before ++ rest) cursor trims =
      answer? Prod.snd ((cut cursor rest).map fun c => segmentsFrom cursor trims c.last c.tags) := by
  fun_induction cut cursor rest generalizing before trims with
  | case1 cursor source text hopen =>
    subst hcursor
    rw [readBytes_of_none (Text.sliceFrom?_append before source) hopen, cutOpening_none hopen]
    rfl
  | case2 cursor source text after hopen fault hread =>
    subst hcursor
    have htag := tagAt?_of_cutOpening before hopen
    rw [hread] at htag
    rw [readBytes_of_tag (Text.sliceFrom?_append before source) hopen htag]
    by_cases hforeign : fault = .foreignCharacter
    · simp [answer?, Except.map, hforeign]
    · simp [answer?, Except.map, hforeign]
  | case3 cursor source text after hopen t rest hread ih =>
    subst hcursor
    have htag := tagAt?_of_cutOpening before hopen
    rw [hread] at htag
    rw [readBytes_of_tag (Text.sliceFrom?_append before source) hopen htag]
    have htext : slice? (before ++ source) (utf8Length before)
        (utf8Length before + utf8Length text) = some text := by
      rw [cutOpening_some hopen, List.append_assoc text, ← List.append_assoc before,
        Text.slice?_append]
    have hsource : before ++ source = before ++ text ++ t.source ++ rest := by
      rw [cutOpening_some hopen, List.append_assoc text, source_readTag hread]
      simp only [List.append_assoc]
    have hnext : utf8Length (before ++ text ++ t.source) =
        utf8Length before + utf8Length (text ++ t.source) := by
      rw [List.append_assoc, utf8Length_append]
    have hrest := ih hnext t.trimsRight
    simp only [answer?, Except.map, Option.bind_some]
    rw [htext, hnext, hsource, hrest]
    cases cut (utf8Length before + utf8Length (text ++ t.source)) rest with
    | error fault =>
      by_cases hforeign : fault.2 = .foreignCharacter
      · simp [answer?, Except.map, hforeign]
      · simp [answer?, Except.map, hforeign]
    | ok c => rfl

/-- The reader by byte offsets finds the segments and the faults of a source, but has no answer where
a character outside string literals is not ASCII. -/
theorem readBytes_eq (source : List Char) :
    readBytes source 0 false = answer? Prod.snd (segments source) :=
  @readBytes_from [] source 0 rfl false

end BoundQuery.Template
