/-
# Sources with comments

The end of a comment is searched from its first character on. So a comment is dropped, whatever it
contains, unless its content starts with a slash: then that slash and the star before it are taken
for the end, and either no closing mark is found there, or the tag closes within the content and the
remaining content is cut like the source after it.

Main statements: `segments_comment`, `slash_ends_comment`.
-/

import BoundQuery.Proofs.Template.Extents
import BoundQuery.Proofs.Template.Segments

namespace BoundQuery.Template

open Text (utf8Length)

/-- A comment between its marks. -/
def commentTag (content : List Char) : List Char :=
  opening ++ ['/', '*'] ++ content ++ ['*', '/'] ++ closing

/-- The segments of a source that follows a tag, which trims to its right or not. -/
def segmentsAfter (trims : Bool) (source : List Char) : Except (Nat × TagFault) (List Segment) :=
  (cut 0 source).map fun c => segmentsFrom 0 trims c.last c.tags

/-- What a source is cut into with these segments, of so many bytes with all that was dropped, in
front of it. A fault stays where it was. -/
def preceded (front : List Segment) (bytes : Nat) :
    Except (Nat × TagFault) (List Segment) → Except (Nat × TagFault) (List Segment)
  | .ok found => .ok (front ++ found.map (Segment.shift bytes))
  | .error (offset, fault) => .error (offset + bytes, fault)

/-! ### Places in a longer source -/

section Cuts

variable {offset : Nat} {source text after : List Char}

theorem cut_of_fault (hopen : cutOpening source = (text, some after)) {fault : TagFault}
    (htag : readTag after = .error fault) :
    cut offset source = .error (offset + utf8Length text, fault) := by
  rw [cut]
  split
  · rename_i heq
    cases hopen.symm.trans heq
  · rename_i heq
    cases hopen.symm.trans heq
    split
    · rename_i htag'
      cases htag.symm.trans htag'
      rfl
    · rename_i htag'
      cases htag.symm.trans htag'

/-- A source further on has its faults further on, and the same parts. -/
theorem cut_add (offset bytes : Nat) (source : List Char) :
    cut (offset + bytes) source = (cut offset source).mapError fun e => (e.1 + bytes, e.2) := by
  fun_induction cut offset source with
  | case1 offset source text hopen => exact cut_of_none hopen
  | case2 offset source text after hopen fault htag =>
    rw [cut_of_fault hopen htag, Except.mapError, Nat.add_right_comm]
  | case3 offset source text after hopen t rest htag ih =>
    rw [cut_of_tag hopen htag, Nat.add_right_comm, ih]
    cases cut (offset + utf8Length (text ++ t.source)) rest <;> rfl

/-- A comment that does not trim the text before it is dropped. -/
theorem segments_of_comment (hopen : cutOpening source = (text, some after)) {t : Tag}
    {rest : List Char} (htag : readTag after = .ok (t, rest)) (hcomment : t.isComment = true)
    (hleft : t.trimsLeft = false) :
    segments source =
      preceded (kept text) (utf8Length (text ++ t.source)) (segmentsAfter t.trimsRight rest) := by
  have htext : trimmed false false text = kept text := trimmed_eq false false text
  have hnothing : t.segment (0 + utf8Length text) = [] := if_pos hcomment
  rw [segments, segmentsAfter, cut_of_tag hopen htag, cut_add]
  cases cut 0 rest with
  | error e => rfl
  | ok c =>
    change Except.ok (trimmed false t.trimsLeft text ++ t.segment (0 + utf8Length text) ++
      segmentsFrom (0 + utf8Length (text ++ t.source)) t.trimsRight c.last c.tags) = _
    rw [hleft, htext, hnothing, segmentsFrom_shift, List.append_nil]
    rfl

end Cuts

/-! ### Comments that are read -/

/-- The end of a comment is the first one after the opening mark. -/
theorem cutCommentEnd?_append {content : List Char} (h : ¬ ['*', '/'] <:+: content)
    (rest : List Char) :
    cutCommentEnd? (content ++ ['*', '/'] ++ rest) = some (content ++ ['*', '/'], rest) := by
  induction content with
  | nil => rfl
  | cons c content ih =>
    have hrest := ih fun hwithin => h (hwithin.trans (List.suffix_cons c content).isInfix)
    have hstep : cutCommentEnd? (c :: (content ++ ['*', '/'] ++ rest)) =
        (cutCommentEnd? (content ++ ['*', '/'] ++ rest)).map fun cut => (c :: cut.1, cut.2) := by
      -- An end here would stand in the content: its slash is no star.
      rw [cutCommentEnd?]
      rintro more rfl hmore
      cases content with
      | nil => cases (List.cons.inj hmore).1
      | cons d content =>
        cases (List.cons.inj hmore).1
        exact h (List.prefix_append ['*', '/'] content).isInfix
    rw [List.cons_append, List.cons_append, hstep, hrest]
    rfl

/-- A slash at the start of the content is taken for the end, with the star before it. -/
theorem cutCommentEnd?_slash (rest : List Char) :
    cutCommentEnd? ('/' :: '*' :: '/' :: rest) = some (['/', '*', '/'], rest) :=
  rfl

theorem readTag_comment (more : List Char) :
    readTag ('/' :: '*' :: more) =
      match cutCommentEnd? ('/' :: '*' :: more) with
      | none => .error .unclosedComment
      | some (comment, rest) =>
        match closeComment? rest with
        | none => .error .unclosedComment
        | some (trail, trims, rest) => .ok (⟨false, true, comment ++ trail, trims⟩, rest) :=
  rfl

theorem IsTrail.notMem_star {trail : List Char} (h : IsTrail trail) : '*' ∉ trail := by
  rcases h with rfl | ⟨blanks, -, hblanks, rfl⟩
  · exact List.not_mem_nil
  · intro hmem
    rcases List.mem_append.mp hmem with hmem | hmem
    · cases hblanks _ hmem
    · cases List.mem_singleton.mp hmem

/-- A closing mark that follows a comment is found, with its trim marker. -/
theorem closeComment?_append {trail : List Char} (h : IsTrail trail) (rest : List Char) :
    ∃ blanks, trail = blanks ++ dash (!trail.isEmpty) ∧
      closeComment? (trail ++ closing ++ rest) = some (blanks, !trail.isEmpty, rest) := by
  rcases h with rfl | ⟨blanks, hne, hblanks, rfl⟩
  · exact ⟨[], rfl, rfl⟩
  · have htrims : (!(blanks ++ ['-']).isEmpty) = true := by simp
    refine ⟨blanks, by rw [htrims]; rfl, ?_⟩
    have hfront : (blanks ++ ['-'] ++ closing ++ rest).takeWhile isSpace = blanks := by
      rw [List.append_assoc, List.append_assoc, List.takeWhile_append_of_pos hblanks]
      exact List.append_nil blanks
    have hback : trimStart (blanks ++ ['-'] ++ closing ++ rest) = '-' :: (closing ++ rest) := by
      rw [trimStart, List.append_assoc, List.append_assoc, List.dropWhile_append_of_pos hblanks]
      rfl
    unfold closeComment?
    split
    · rename_i heq
      simp only [List.append_assoc] at heq
      exact absurd heq (blanks_append_ne_closing hne hblanks)
    · dsimp only
      rw [hfront, hback, htrims]
      simp [closing, hne]

/-- Where the content goes on without closing the tag, no closing mark is found. -/
theorem closeComment?_eq_none {content : List Char}
    (h : ∀ trail hidden, content = trail ++ closing ++ hidden → ¬ IsTrail trail)
    (rest : List Char) : closeComment? (content ++ '*' :: rest) = none := by
  cases hclose : closeComment? (content ++ '*' :: rest) with
  | none => rfl
  | some found =>
    obtain ⟨blanks, trims, after⟩ := found
    have htrail : IsTrail (blanks ++ dash trims) := by
      rcases closeComment?_trail hclose with ⟨rfl, rfl⟩ | ⟨rfl, hne, hblanks⟩
      · exact .inl rfl
      · exact .inr ⟨blanks, hne, hblanks, rfl⟩
    rcases List.append_eq_append_iff.mp (closeComment?_some hclose) with
      ⟨within, hwithin, hrest⟩ | ⟨hidden, hcontent, -⟩
    · cases within with
      | nil => exact absurd htrail (h _ [] (by simpa using hwithin.symm))
      | cons c within =>
        -- The closing mark would hold the star that ends the content.
        cases (List.cons.inj hrest).1
        have hmem : '*' ∈ blanks ++ dash trims ++ closing := by simp [hwithin]
        rcases List.mem_append.mp hmem with hmem | hmem
        · exact absurd hmem htrail.notMem_star
        · exact absurd hmem (by decide)
    · exact absurd htrail (h _ hidden hcontent)

/-! ### Tags of comments -/

section Tags

variable {content rest : List Char}

/-- A comment whose content does not start with a slash ends with its own end. -/
theorem readTag_commentTag (hcontent : ¬ ['*', '/'] <:+: content) (hhead : content.head? ≠ some '/') :
    readTag ('/' :: '*' :: content ++ ['*', '/'] ++ (closing ++ rest)) =
      .ok (⟨false, true, '/' :: '*' :: content ++ ['*', '/'], false⟩, rest) := by
  have hend : ¬ ['*', '/'] <:+: '/' :: '*' :: content := by
    intro hwithin
    rcases List.infix_cons_iff.mp hwithin with hprefix | hwithin
    · cases (List.cons_prefix_cons.mp hprefix).1
    rcases List.infix_cons_iff.mp hwithin with hprefix | hwithin
    · obtain ⟨more, hmore⟩ := (List.cons_prefix_cons.mp hprefix).2
      exact hhead (by rw [← hmore]; rfl)
    · exact hcontent hwithin
  have hcut : cutCommentEnd? ('/' :: '*' :: (content ++ ['*', '/'] ++ (closing ++ rest))) =
      some ('/' :: '*' :: content ++ ['*', '/'], closing ++ rest) :=
    cutCommentEnd?_append hend (closing ++ rest)
  refine (readTag_comment (content ++ ['*', '/'] ++ (closing ++ rest))).trans ?_
  rw [hcut]
  change Except.ok (Tag.mk false true ('/' :: '*' :: content ++ ['*', '/'] ++ []) false, rest) = _
  rw [List.append_nil]

/-- With a slash first and a closing mark after it the tag closes within the content. -/
theorem readTag_slash_closing {trail : List Char} (htrail : IsTrail trail) :
    ∃ blanks, trail = blanks ++ dash (!trail.isEmpty) ∧
      readTag ('/' :: '*' :: '/' :: (trail ++ closing ++ rest)) =
        .ok (⟨false, true, ['/', '*', '/'] ++ blanks, !trail.isEmpty⟩, rest) := by
  obtain ⟨blanks, hblanks, hclose⟩ := closeComment?_append htrail rest
  refine ⟨blanks, hblanks, ?_⟩
  rw [readTag_comment, cutCommentEnd?_slash]
  simp only [hclose]

/-- With a slash first and no closing mark after it no closing mark is found at all. -/
theorem readTag_slash
    (h : ∀ trail hidden, content = trail ++ closing ++ hidden → ¬ IsTrail trail) :
    readTag ('/' :: '*' :: '/' :: (content ++ '*' :: rest)) = .error .unclosedComment := by
  rw [readTag_comment, cutCommentEnd?_slash]
  simp only [closeComment?_eq_none h]

end Tags

/-! ### Sources -/

/-- A comment stands between a text and what follows; its content holds no end of a comment. If the
content does not start with a slash, the comment is dropped, and what follows is cut as it would be on
its own. If it does, the comment ends with that slash. Where the content goes on with a closing mark,
or with a trim marker and one, the tag closes there, and the rest of the content is cut with what
follows the comment; otherwise the comment is unclosed. -/
theorem segments_comment {text content rest : List Char} (hopening : ¬ opening <:+: text)
    (hlast : text.getLast? ≠ some '\x7b') (hcontent : ¬ ['*', '/'] <:+: content) :
    (content.head? ≠ some '/' →
      segments (text ++ commentTag content ++ rest) =
        preceded (kept text) (utf8Length (text ++ commentTag content)) (segments rest)) ∧
    (∀ trail hidden, content = '/' :: trail ++ closing ++ hidden → IsTrail trail →
      segments (text ++ commentTag content ++ rest) =
        preceded (kept text) (utf8Length (text ++ opening ++ ['/', '*', '/'] ++ trail ++ closing))
          (segmentsAfter (!trail.isEmpty) (hidden ++ ['*', '/'] ++ closing ++ rest))) ∧
    (content.head? = some '/' →
      (∀ trail hidden, content = '/' :: trail ++ closing ++ hidden → ¬ IsTrail trail) →
      segments (text ++ commentTag content ++ rest) =
        .error (utf8Length text, .unclosedComment)) := by
  have hopen : cutOpening (text ++ commentTag content ++ rest) =
      (text, some ('/' :: '*' :: content ++ ['*', '/'] ++ (closing ++ rest))) := by
    have hcut := cutOpening_append hopening hlast
      ('/' :: '*' :: content ++ ['*', '/'] ++ (closing ++ rest))
    simpa [commentTag] using hcut
  refine ⟨fun hhead => ?_, fun trail hidden hslash htrail => ?_, fun hhead hnot => ?_⟩
  · have hsource : (⟨false, true, '/' :: '*' :: content ++ ['*', '/'], false⟩ : Tag).source =
        commentTag content := by
      simp [commentTag, Tag.source, dash]
    have hsegments := segments_of_comment hopen (readTag_commentTag hcontent hhead) rfl rfl
    rw [hsource] at hsegments
    exact hsegments
  · subst hslash
    obtain ⟨blanks, hblanks, hread⟩ :=
      @readTag_slash_closing (hidden ++ ['*', '/'] ++ closing ++ rest) trail htrail
    have hsource : (⟨false, true, ['/', '*', '/'] ++ blanks, !trail.isEmpty⟩ : Tag).source =
        opening ++ ['/', '*', '/'] ++ trail ++ closing := by
      conv => rhs; rw [hblanks]
      simp [Tag.source, dash]
    have hsame : '/' :: '*' :: ('/' :: trail ++ closing ++ hidden) ++ ['*', '/'] ++
        (closing ++ rest) =
          '/' :: '*' :: '/' :: (trail ++ closing ++ (hidden ++ ['*', '/'] ++ closing ++ rest)) := by
      simp
    rw [hsame] at hopen
    rw [segments_of_comment hopen hread rfl rfl, hsource]
    simp
  · obtain ⟨content, rfl⟩ : ∃ more, content = '/' :: more := by
      cases content with
      | nil => cases hhead
      | cons c content =>
        cases hhead
        exact ⟨content, rfl⟩
    have hread := @readTag_slash content ('/' :: (closing ++ rest))
      fun trail hidden heq => hnot trail hidden (by simp [heq])
    have hsame : '/' :: '*' :: ('/' :: content) ++ ['*', '/'] ++ (closing ++ rest) =
        '/' :: '*' :: '/' :: (content ++ '*' :: '/' :: (closing ++ rest)) := by
      simp
    rw [hsame] at hopen
    rw [segments, cut_of_fault hopen hread, Nat.zero_add]
    rfl

/-- Contents with stars, quotes and an opening mark; with an action that shows because the tag closes
before it; and with no closing mark after the slash. -/
theorem segments_comment_contents :
    ¬ opening <:+: "a".toList ∧ "a".toList.getLast? ≠ some '\x7b' ∧
      ¬ ['*', '/'] <:+: "* \x7b\x7b \"é\n*".toList ∧
      segments ("a".toList ++ commentTag "* \x7b\x7b \"é\n*".toList ++ "b{{.C}}".toList) =
        .ok [.text "a".toList, .text "b".toList, .action 20 22 ".C".toList] ∧
      ¬ ['*', '/'] <:+: "/ -\x7d\x7d {{.S}} ".toList ∧
      segments ("a".toList ++ commentTag "/ -\x7d\x7d {{.S}} ".toList ++ "b".toList) =
        .ok [.text "a".toList, .action 11 13 ".S".toList, .text " */\x7d\x7db".toList] ∧
      ¬ ['*', '/'] <:+: "/ b ".toList ∧
      segments ("a".toList ++ commentTag "/ b ".toList ++ "c".toList) =
        .error (1, .unclosedComment) := by
  have hopening : ¬ opening <:+: "a".toList := by decide
  have hlast : "a".toList.getLast? ≠ some '\x7b' := by decide
  have hstars : ¬ ['*', '/'] <:+: "* \x7b\x7b \"é\n*".toList := by decide +kernel
  have hshown : ¬ ['*', '/'] <:+: "/ -\x7d\x7d {{.S}} ".toList := by decide +kernel
  have hopen : ¬ ['*', '/'] <:+: "/ b ".toList := by decide +kernel
  refine ⟨hopening, hlast, hstars, ?_, hshown, ?_, hopen, ?_⟩
  · rw [(segments_comment hopening hlast hstars).1 (by decide)]
    decide +kernel
  · rw [(segments_comment hopening hlast hshown).2.1 " -".toList " {{.S}} ".toList (by decide)
      (.inr ⟨[' '], by decide, by simp [isSpace], rfl⟩)]
    decide +kernel
  · refine (segments_comment hopening hlast hopen).2.2 (by decide) fun trail hidden heq => ?_
    have hmem : '\x7d' ∈ "/ b ".toList := by simp [heq, closing]
    exact absurd hmem (by decide)

/-- A comment whose content starts with a slash is refused, though its end and its closing mark are
there. -/
theorem slash_ends_comment :
    ¬ opening <:+: "a ".toList ∧ "a ".toList.getLast? ≠ some '\x7b' ∧
      ¬ ['*', '/'] <:+: "/ b ".toList ∧ segments " c".toList = .ok [.text " c".toList] ∧
      segments ("a ".toList ++ commentTag "/ b ".toList ++ " c".toList) =
        .error (2, .unclosedComment) := by
  decide +kernel

end BoundQuery.Template
