/-
# What cutting a source loses

What a source is cut into is read off its parts. The trim markers of a tag say what white space the
texts beside it lose; a comment says nothing, and an action what stands between its marks. Nothing
else is lost.

Main statement: `segments_factors`.
-/

import BoundQuery.Proofs.Template.Assembling
import BoundQuery.Proofs.Template.Factors
import Mathlib.Data.List.DropRight

namespace BoundQuery.Template

open Text (utf8Length)

/-! ### Tags that are read -/

theorem first_of_cutOpening {source text after : List Char}
    (h : cutOpening source = (text, some after)) : First (fun _ => True) opening text := by
  fun_induction cutOpening source generalizing text with
  | case1 => cases h
  | case2 rest =>
    cases h
    exact .nil trivial
  | case3 c rest hne ih =>
    obtain ⟨rfl, hafter⟩ := Prod.mk.inj h
    have hrest := cutOpening_some (Prod.ext rfl hafter : cutOpening rest = (_, some after))
    -- A mark that starts at `c` would have been found there.
    refine .cons (ih (Prod.ext rfl hafter)) fun _ hmark => ?_
    obtain ⟨rfl, more, hmore⟩ := List.cons_prefix_cons.mp hmark
    exact hne (more ++ after) rfl (by rw [hrest, ← hmore]; rfl)

theorem first_of_cutCommentEnd? {cs left after : List Char}
    (h : cutCommentEnd? cs = some (left, after)) :
    ∃ comment, left = comment ++ ['*', '/'] ∧ First (fun _ => True) ['*', '/'] comment := by
  fun_induction cutCommentEnd? cs generalizing left with
  | case1 => cases h
  | case2 rest =>
    cases h
    exact ⟨[], rfl, .nil trivial⟩
  | case3 c rest hne ih =>
    obtain ⟨⟨left, right⟩, hcut, heq⟩ := Option.map_eq_some_iff.mp h
    cases heq
    obtain ⟨comment, rfl, hfirst⟩ := ih hcut
    refine ⟨c :: comment, rfl, .cons hfirst fun _ hmark => ?_⟩
    obtain ⟨rfl, more, hmore⟩ := List.cons_prefix_cons.mp hmark
    exact hne (more ++ after) rfl (by rw [cutCommentEnd?_some hcut, ← hmore]; rfl)

theorem first_of_cutClosing {place : Place} {cs left after : List Char}
    (h : cutClosing place cs = .ok (left, after)) :
    First (fun before => before.foldl Place.next place = .outside) closing left := by
  fun_induction cutClosing place cs generalizing left with
  | case1 => cases h
  | case2 place c rest hc =>
    cases h
    exact .nil hc.1
  | case3 => cases h
  | case4 place c rest hc _ ih =>
    obtain ⟨⟨left, right⟩, hcut, heq⟩ := map_eq_ok_iff.mp h
    cases heq
    refine .cons (ih hcut) fun hplace hmark => ?_
    obtain ⟨rfl, more, hmore⟩ := List.cons_prefix_cons.mp hmark
    exact hc ⟨hplace, rfl, by rw [cutClosing_ok hcut, ← hmore]; rfl⟩

/-! ### Trim markers -/

theorem startsTrim_iff {cs : List Char} :
    startsTrim cs = true ↔ ∃ c rest, isSpace c = true ∧ cs = '-' :: c :: rest := by
  unfold startsTrim
  split
  · simp
  · rename_i hne
    constructor
    · exact nofun
    · rintro ⟨c, rest, -, rfl⟩
      exact absurd rfl (hne c rest)

/-- A tag opens with a trim marker if a dash and white space follow its opening mark. -/
theorem opensTrim_iff {d : List Char} (h : opening <+: d) :
    opensTrim d = true ↔ ∃ c rest, isSpace c = true ∧ d = opening ++ '-' :: c :: rest := by
  obtain ⟨after, rfl⟩ := h
  exact startsTrim_iff.trans (by simp [opening])

/-- A tag closes with a trim marker if white space and a dash precede its closing mark. -/
theorem closesTrim_iff {d : List Char} (h : closing <:+ d) :
    closesTrim d = true ↔ ∃ c before, isSpace c = true ∧ d = before ++ c :: '-' :: closing := by
  obtain ⟨before, rfl⟩ := h
  have hreverse : closesTrim (before ++ closing) = startsTrim before.reverse := by
    simp [closesTrim, closing]
  rw [hreverse, startsTrim_iff]
  constructor
  · rintro ⟨c, rest, hc, heq⟩
    refine ⟨c, rest.reverse, hc, ?_⟩
    rw [← List.reverse_reverse before, heq]
    simp
  · rintro ⟨c, rest, hc, heq⟩
    refine ⟨c, rest.reverse, hc, ?_⟩
    have hbefore : before = rest ++ [c, '-'] :=
      List.append_cancel_right (heq.trans (by simp) : before ++ closing = rest ++ [c, '-'] ++ closing)
    simp [hbefore]

theorem startsTrim_cons (c : Char) (cs : List Char) :
    startsTrim (c :: cs) = (c == '-' && cs.head?.any isSpace) := by
  rw [Bool.eq_iff_iff, startsTrim_iff]
  cases cs with
  | nil => simp
  | cons d cs => simp [and_comm]

theorem startsTrim_append {cs : List Char} (h : 2 ≤ cs.length) (rest : List Char) :
    startsTrim (cs ++ rest) = startsTrim cs := by
  match cs with
  | c :: d :: cs => rw [List.cons_append, startsTrim_cons, startsTrim_cons]; rfl

/-- An opening mark does not look like the white space of a trim marker, with its own dash or
without. -/
theorem startsTrim_append_opening (cs : List Char) (trims : Bool) :
    startsTrim (cs ++ (opening ++ dash trims).reverse) = startsTrim cs := by
  have hspace : (opening ++ dash trims).reverse.head?.any isSpace = false := by
    cases trims <;> rfl
  cases cs with
  | nil => cases trims <;> rfl
  | cons c cs =>
    rw [List.cons_append, startsTrim_cons, startsTrim_cons]
    cases cs with
    | nil => rw [List.nil_append, hspace]; rfl
    | cons d cs => rfl

/-! ### What is read as a tag -/

theorem startsComment_iff {cs : List Char} :
    startsComment cs = true ↔ ∃ rest, cs = '/' :: '*' :: rest := by
  unfold startsComment
  split
  · simp
  · rename_i hne
    constructor
    · exact nofun
    · rintro ⟨rest, rfl⟩
      exact absurd rfl (hne rest)

theorem isLead_iff {lead : List Char} (hblanks : ∀ c ∈ lead, isSpace c = true) (trims : Bool)
    (htrims : trims = true → lead ≠ []) :
    IsLead (dash trims ++ lead) ↔ (trims || lead.isEmpty) = true := by
  cases trims with
  | false =>
    constructor
    · rintro (hnil | ⟨blanks, -, -, hdash⟩)
      · exact List.isEmpty_iff.mpr hnil
      · have hmem : '-' ∈ lead := by simp [show lead = '-' :: blanks from hdash]
        cases hblanks _ hmem
    · exact fun hnil => .inl (List.isEmpty_iff.mp hnil)
  | true => exact iff_of_true (.inr ⟨lead, htrims rfl, hblanks, rfl⟩) rfl

section Reading

variable {after inner : List Char} (hinner : inner = if startsTrim after then after.drop 1 else after)
include hinner

theorem reads_comment_iff :
    (startsComment (trimStart inner) &&
        (startsTrim after || (inner.takeWhile isSpace).isEmpty)) = true ↔
      startsComment (trimStart inner) = true ∧
        IsLead (dash (startsTrim after) ++ inner.takeWhile isSpace) := by
  have hblanks : ∀ c ∈ inner.takeWhile isSpace, isSpace c = true :=
    fun c hc => List.mem_takeWhile_imp hc
  have htrims : startsTrim after = true → inner.takeWhile isSpace ≠ [] := by
    intro htrims
    obtain ⟨c, rest, hc, rfl⟩ := startsTrim_iff.mp htrims
    rw [hinner, if_pos htrims]
    simp [hc]
  rw [Bool.and_eq_true, isLead_iff hblanks (startsTrim after) htrims]

/-- The reader of tags finds a comment where one starts. -/
theorem opensComment_iff :
    OpensComment after ↔ startsComment (trimStart inner) = true ∧
      IsLead (dash (startsTrim after) ++ inner.takeWhile isSpace) := by
  rw [startsComment_iff]
  constructor
  · rintro ⟨lead, rest, rfl | ⟨blanks, hne, hblanks, rfl⟩, rfl⟩
    · subst hinner
      exact ⟨⟨rest, rfl⟩, .inl rfl⟩
    · have htrims : startsTrim ('-' :: blanks ++ '/' :: '*' :: rest) = true := by
        obtain ⟨c, blanks, rfl⟩ := List.exists_cons_of_ne_nil hne
        exact startsTrim_iff.mpr ⟨c, _, hblanks c (List.mem_cons_self ..), rfl⟩
      rw [htrims, if_pos rfl] at hinner
      subst hinner
      rw [htrims]
      have hlead : (blanks ++ '/' :: '*' :: rest).takeWhile isSpace = blanks := by
        rw [List.takeWhile_append_of_pos hblanks]
        exact List.append_nil blanks
      have hrest : trimStart (blanks ++ '/' :: '*' :: rest) = '/' :: '*' :: rest :=
        List.dropWhile_append_of_pos hblanks
      exact ⟨⟨rest, hrest⟩, .inr ⟨blanks, hne, hblanks, congrArg ('-' :: ·) hlead⟩⟩
  · rintro ⟨⟨rest, hrest⟩, hlead⟩
    refine ⟨_, rest, hlead, ?_⟩
    rw [← hrest, List.append_assoc, trimStart, List.takeWhile_append_dropWhile, hinner]
    exact (trimsLeft_append after).symm

end Reading

theorem closeComment?_trail {cs trail rest : List Char} {trims : Bool}
    (h : closeComment? cs = some (trail, trims, rest)) :
    trims = false ∧ trail = [] ∨
      trims = true ∧ trail ≠ [] ∧ ∀ c ∈ trail, isSpace c = true := by
  unfold closeComment? at h
  split at h
  · cases h
    exact .inl ⟨rfl, rfl⟩
  · dsimp only at h
    split at h
    · split at h
      · cases h
      · rename_i hblanks
        cases h
        refine .inr ⟨rfl, by simpa using hblanks, fun c hc => ?_⟩
        exact List.mem_takeWhile_imp hc
    · cases h

/-- What a tag that is read holds between its marks. -/
theorem readTag_cases {after rest : List Char} {t : Tag} (h : readTag after = .ok (t, rest)) :
    t.trimsLeft = startsTrim after ∧
      ((t.isComment = false ∧ ¬ OpensComment after ∧
          t.trimsRight = endsTrim (t.interior ++ dash t.trimsRight) ∧
          First (fun before => placeAfter before = .outside) closing
            (t.interior ++ dash t.trimsRight)) ∨
        t.isComment = true ∧ ∃ lead comment trail,
          t.interior = lead ++ comment ++ ['*', '/'] ++ trail ∧ IsLead (dash t.trimsLeft ++ lead) ∧
          ['/', '*'] <+: comment ++ ['*', '/'] ∧ First (fun _ => True) ['*', '/'] comment ∧
          (t.trimsRight = false ∧ trail = [] ∨
            t.trimsRight = true ∧ trail ≠ [] ∧ ∀ c ∈ trail, isSpace c = true)) := by
  unfold readTag at h
  dsimp only at h
  generalize hinner : (if startsTrim after then after.drop 1 else after) = inner at h
  split at h
  · rename_i hcomment
    obtain ⟨hstarts, hlead⟩ := (reads_comment_iff hinner.symm).mp hcomment
    split at h
    · cases h
    · rename_i comment rest' hcut
      split at h
      · cases h
      · rename_i trail trims rest'' hclose
        cases h
        obtain ⟨comment, rfl, hfirst⟩ := first_of_cutCommentEnd? hcut
        obtain ⟨more, hmore⟩ := startsComment_iff.mp hstarts
        have hprefix : ['/', '*'] <+: comment ++ ['*', '/'] := by
          refine List.prefix_of_prefix_length_le ⟨more, hmore.symm⟩ ⟨_, (cutCommentEnd?_some hcut).symm⟩ ?_
          simp
        exact ⟨rfl, .inr ⟨rfl, _, comment, trail, by simp, hlead, hprefix, hfirst,
          closeComment?_trail hclose⟩⟩
  · rename_i hcomment
    obtain ⟨⟨interior, rest'⟩, hcut, hrest⟩ := bind_eq_ok_iff.mp h
    cases hrest
    refine ⟨rfl, .inl ⟨rfl, fun hopens => ?_, ?_, ?_⟩⟩
    · have hreads := (opensComment_iff hinner.symm).mp hopens
      exact hcomment ((reads_comment_iff hinner.symm).mpr hreads)
    · rw [trimsRight_append]
    · rw [trimsRight_append]
      exact first_of_cutClosing hcut

theorem closesTrim_source (t : Tag) :
    closesTrim t.source = endsTrim (t.interior ++ dash t.trimsRight) := by
  refine Eq.trans ?_ (startsTrim_append_opening (t.interior ++ dash t.trimsRight).reverse t.trimsLeft)
  simp [closesTrim, Tag.source, closing]

section Read

variable {after rest : List Char} {t : Tag} (h : readTag after = .ok (t, rest))
include h

theorem after_of_readTag :
    after = dash t.trimsLeft ++ (t.interior ++ dash t.trimsRight) ++ closing ++ rest := by
  have hsource : opening ++ after =
      opening ++ (dash t.trimsLeft ++ (t.interior ++ dash t.trimsRight) ++ closing ++ rest) := by
    rw [source_readTag h]
    simp [Tag.source]
  exact List.append_cancel_left hsource

theorem opensTrim_of_readTag : opensTrim t.source = t.trimsLeft := by
  have hlength :
      2 ≤ (dash t.trimsLeft ++ (t.interior ++ dash t.trimsRight) ++ closing).length := by
    rw [List.length_append]
    exact Nat.le_add_left 2 _
  rw [(readTag_cases h).1, after_of_readTag h, startsTrim_append hlength]
  simp [opensTrim, Tag.source, opening]

theorem closesTrim_of_readTag : closesTrim t.source = t.trimsRight := by
  rw [closesTrim_source]
  obtain ⟨-, ⟨-, -, hright, -⟩ | ⟨-, lead, comment, trail, hinterior, -, -, -, htrail⟩⟩ :=
    readTag_cases h
  · exact hright.symm
  · rcases htrail with ⟨hright, rfl⟩ | ⟨hright, hne, hblanks⟩
    · rw [hinterior, hright]
      simp [endsTrim, dash, startsTrim]
    · obtain ⟨blanks, c, rfl⟩ := (List.eq_nil_or_concat trail).resolve_left hne
      have hc : isSpace c = true := hblanks c (by simp)
      rw [hinterior, hright]
      simp [endsTrim, dash, startsTrim, hc]

/-- A tag that is read is an action or a comment, as it stands in the source. -/
theorem delimited_of_readTag :
    if t.isComment then IsComment t.source else IsAction t.source := by
  obtain ⟨hleft, ⟨hkind, hnot, -, hfirst⟩ |
    ⟨hkind, lead, comment, trail, hinterior, hlead, hprefix, hfirst, htrail⟩⟩ := readTag_cases h
  · rw [hkind, if_neg Bool.false_ne_true]
    refine ⟨dash t.trimsLeft ++ (t.interior ++ dash t.trimsRight), by simp [Tag.source], ?_, ?_⟩
    · intro hopens
      refine hnot ?_
      rw [after_of_readTag h, List.append_assoc]
      exact hopens.append _
    · cases t.trimsLeft with
      | false => exact hfirst
      | true =>
        -- The dash of the trim marker stands outside string literals, and is no mark.
        refine .cons hfirst fun _ hmark => ?_
        cases (List.cons_prefix_cons.mp hmark).1
  · rw [hkind, if_pos rfl]
    refine ⟨dash t.trimsLeft ++ lead, comment, trail ++ dash t.trimsRight, ?_, hlead, ?_, hprefix,
      hfirst⟩
    · simp [Tag.source, hinterior]
    · rcases htrail with ⟨hright, rfl⟩ | ⟨hright, hne, hblanks⟩
      · exact .inl (by rw [hright]; rfl)
      · exact .inr ⟨trail, hne, hblanks, by rw [hright]; rfl⟩

end Read

/-! ### What a source is cut into -/

/-- The parts of a source that was cut, as they stand in it. -/
def Cut.factors (c : Cut) : Factors :=
  ⟨c.tags.map fun (text, t) => (text, t.source), c.last⟩

theorem factors_of_cut {offset : Nat} {source : List Char} {c : Cut} (h : cut offset source = .ok c) :
    c.factors.Of source := by
  fun_induction cut offset source generalizing c with
  | case1 offset source text hopen =>
    cases h
    refine ⟨cutOpening_none hopen, ?_, ?_, unopened_of_cutOpening hopen⟩
    · exact List.forall_mem_nil _
    · exact List.forall_mem_nil _
  | case2 => cases h
  | case3 offset source text after hopen t rest htag ih =>
    obtain ⟨c', hc', rfl⟩ := map_eq_ok_iff.mp h
    refine Factors.of_cons_iff.mpr ⟨rest, ?_, first_of_cutOpening hopen, ?_, ih hc'⟩
    · rw [← source_readTag htag, cutOpening_some hopen, List.append_assoc]
    · have hdelimited := delimited_of_readTag htag
      split at hdelimited
      · exact .inr hdelimited
      · exact .inl hdelimited

/-! ### Segments of the parts -/

/-- What is left of a text between two tags: the trim markers beside it remove white space. -/
def stripped (trimsStart trimsEnd : Bool) (text : List Char) : List Char :=
  let text := if trimsStart then text.dropWhile isSpace else text
  if trimsEnd then text.rdropWhile isSpace else text

/-- A text as a segment; none if it is empty. -/
def kept (text : List Char) : List Segment :=
  if text = [] then [] else [.text text]

/-- What a tag says: a comment nothing; an action what stands between its marks, without the dashes
of trim markers, at the place of its opening mark. -/
inductive Says (start : Nat) (d : List Char) : List Segment → Prop
  | comment : IsComment d → Says start d []
  | action {body : List Char} :
      IsAction d → d = opening ++ dash (opensTrim d) ++ body ++ dash (closesTrim d) ++ closing →
      Says start d [.action start (start + 2 + (dash (opensTrim d)).length) body]

/-- The segments of the parts of a source, from so many bytes into it on, after the tag `previous`. -/
inductive Lists (last : List Char) :
    Nat → List Char → List (List Char × List Char) → List Segment → Prop
  | last {offset : Nat} {previous : List Char} :
      Lists last offset previous [] (kept (stripped (closesTrim previous) false last))
  | tag {offset : Nat} {previous text d : List Char} {tags : List (List Char × List Char)}
      {said found : List Segment} :
      Says (offset + utf8Length text) d said →
      Lists last (offset + utf8Length (text ++ d)) d tags found →
      Lists last offset previous ((text, d) :: tags)
        (kept (stripped (closesTrim previous) (opensTrim d) text) ++ said ++ found)

/-- A segment written back: a text as it is, an action between its marks. -/
def Segment.written : Segment → List Char
  | .text chars => chars
  | .action _ _ body => opening ++ body ++ closing

theorem trimmed_eq (trimsStart trimsEnd : Bool) (text : List Char) :
    trimmed trimsStart trimsEnd text = kept (stripped trimsStart trimsEnd text) := by
  change (if (stripped trimsStart trimsEnd text).isEmpty then []
    else [.text (stripped trimsStart trimsEnd text)]) = kept (stripped trimsStart trimsEnd text)
  cases stripped trimsStart trimsEnd text <;> rfl

theorem says_of_readTag {after rest : List Char} {t : Tag} (h : readTag after = .ok (t, rest))
    (start : Nat) : Says start t.source (t.segment start) := by
  have hdelimited := delimited_of_readTag h
  unfold Tag.segment
  split at hdelimited
  · rename_i hkind
    rw [if_pos hkind]
    exact .comment hdelimited
  · rename_i hkind
    rw [if_neg hkind, ← opensTrim_of_readTag h]
    refine .action hdelimited ?_
    rw [opensTrim_of_readTag h, closesTrim_of_readTag h]
    rfl

theorem lists_of_cut {offset : Nat} {source : List Char} {c : Cut} (h : cut offset source = .ok c)
    (previous : List Char) :
    Lists c.last offset previous c.factors.tags
      (segmentsFrom offset (closesTrim previous) c.last c.tags) := by
  fun_induction cut offset source generalizing c previous with
  | case1 offset source text hopen =>
    cases h
    rw [segmentsFrom, trimmed_eq]
    exact .last
  | case2 => cases h
  | case3 offset source text after hopen t rest htag ih =>
    obtain ⟨c', hc', rfl⟩ := map_eq_ok_iff.mp h
    rw [segmentsFrom, trimmed_eq, ← opensTrim_of_readTag htag, ← closesTrim_of_readTag htag]
    exact .tag (says_of_readTag htag _) (ih hc' t.source)

theorem written_kept (text : List Char) : (kept text).flatMap Segment.written = text := by
  cases text with
  | nil => rfl
  | cons c text => exact List.append_nil _

/-- Parts without comments and trim markers are written back as they were. -/
theorem Lists.written {last : List Char} {offset : Nat} {previous : List Char}
    {tags : List (List Char × List Char)} {found : List Segment}
    (h : Lists last offset previous tags found) (hprevious : closesTrim previous = false)
    (hplain : ∀ tag ∈ tags, ¬ IsComment tag.2 ∧ opensTrim tag.2 = false ∧ closesTrim tag.2 = false) :
    found.flatMap Segment.written = (⟨tags, last⟩ : Factors).source := by
  induction h with
  | last =>
    rw [hprevious, written_kept]
    rfl
  | @tag offset previous text d tags said found hsays _ ih =>
    rw [List.forall_mem_cons] at hplain
    obtain ⟨⟨hcomment, hopens, hcloses⟩, hrest⟩ := hplain
    cases hsays with
    | comment hsays => exact absurd hsays hcomment
    | @action body _ hd =>
      rw [hopens, hcloses] at hd
      have hwritten : opening ++ body ++ closing = d := by simpa [dash] using hd.symm
      rw [hprevious, hopens, List.flatMap_append, List.flatMap_append, written_kept, ih hcloses hrest]
      simp [stripped, Segment.written, hwritten, Factors.source]

/-- What cutting a source loses is what its trim markers and comments say. A source that is cut has
parts, in one way only: texts that end at the first opening mark, and tags. Its segments are, in this
order, what the markers beside each text leave of it, unless that is empty, and the action of each
tag that is no comment. Written back, the segments of a source without comments and trim markers
are the source. -/
theorem segments_factors {source : List Char} {found : List Segment}
    (h : segments source = .ok found) :
    ∃ f : Factors, f.Of source ∧ (∀ other : Factors, other.Of source → other = f) ∧
      Lists f.last 0 [] f.tags found ∧
      (∀ tag ∈ f.tags,
        (opensTrim tag.2 = true ↔
          ∃ c rest, isSpace c = true ∧ tag.2 = opening ++ '-' :: c :: rest) ∧
        (closesTrim tag.2 = true ↔
          ∃ c before, isSpace c = true ∧ tag.2 = before ++ c :: '-' :: closing)) ∧
      ((∀ tag ∈ f.tags, ¬ IsComment tag.2 ∧ opensTrim tag.2 = false ∧ closesTrim tag.2 = false) →
        found.flatMap Segment.written = source) := by
  obtain ⟨c, hcut, rfl⟩ := map_eq_ok_iff.mp h
  have hof := factors_of_cut hcut
  have hlists := lists_of_cut hcut []
  refine ⟨c.factors, hof, fun other hother => hother.unique hof, hlists, fun tag htag => ?_, ?_⟩
  · obtain ⟨hopening, hclosing⟩ := tag_marks (hof.tags tag htag)
    exact ⟨opensTrim_iff hopening, closesTrim_iff hclosing⟩
  · exact fun hplain => (hlists.written rfl hplain).trans hof.source

/-- Trim markers on both sides of an action, and after a comment. -/
theorem segments_factors_markers :
    ∃ f : Factors,
      segments "a {{- .A -}} b{{/* c */ -}} d{{.E}}".toList =
        .ok [.text "a".toList, .action 2 5 " .A ".toList, .text "b".toList, .text "d".toList,
          .action 29 31 ".E".toList] ∧
      f.Of "a {{- .A -}} b{{/* c */ -}} d{{.E}}".toList ∧
      (∀ other : Factors, other.Of "a {{- .A -}} b{{/* c */ -}} d{{.E}}".toList → other = f) ∧
      Lists f.last 0 [] f.tags
        [.text "a".toList, .action 2 5 " .A ".toList, .text "b".toList, .text "d".toList,
          .action 29 31 ".E".toList] := by
  have hfound : segments "a {{- .A -}} b{{/* c */ -}} d{{.E}}".toList =
      .ok [.text "a".toList, .action 2 5 " .A ".toList, .text "b".toList, .text "d".toList,
        .action 29 31 ".E".toList] := by
    decide +kernel
  obtain ⟨f, hof, hunique, hlists, -⟩ := segments_factors hfound
  exact ⟨f, hfound, hof, hunique, hlists⟩

end BoundQuery.Template
