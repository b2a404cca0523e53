/-
# Sources in parts

A source is texts with tags between them, in one way only. A tag starts at the first opening mark
after the tag before it; an action ends at the first closing mark outside string literals, a comment
right after its own end. So no tag is an initial part of another.

Main statements: `tag_unique`, `Factors.Of.unique`.
-/

import BoundQuery.Template.Segment
import Mathlib.Data.List.TakeWhile

namespace BoundQuery.Template

/-! ### First places -/

/-- With `mark` after it the text satisfies `P`, and no shorter text with the mark after it does at
the front. -/
structure First (P : List Char → Prop) (mark text : List Char) : Prop where
  holds : P text
  least {before after : List Char} : P before → text ++ mark = before ++ mark ++ after → before = text

namespace First

variable {P : List Char → Prop} {mark text text' rest rest' : List Char}

theorem eq_of_length_le (h : P text) (h' : First P mark text')
    (heq : text ++ mark ++ rest = text' ++ mark ++ rest') (hle : text.length ≤ text'.length) :
    text = text' := by
  have hprefix : text ++ mark <+: text' ++ mark := by
    refine List.prefix_of_prefix_length_le ⟨rest, heq⟩ (List.prefix_append _ _) ?_
    simpa using hle
  obtain ⟨after, hafter⟩ := hprefix
  exact h'.least h hafter.symm

/-- There is one first place. -/
theorem unique (h : First P mark text) (h' : First P mark text')
    (heq : text ++ mark ++ rest = text' ++ mark ++ rest') : text = text' := by
  rcases Nat.le_total text.length text'.length with hle | hle
  · exact eq_of_length_le h.holds h' heq hle
  · exact (eq_of_length_le h'.holds h heq.symm hle).symm

theorem nil (h : P []) : First P mark [] where
  holds := h
  least := by
    intro before after _ heq
    have hlength := congrArg List.length heq
    simp only [List.length_append, List.length_nil] at hlength
    exact List.eq_nil_of_length_eq_zero (by omega)

/-- A character further on, unless the mark is right there. -/
theorem cons {c : Char} (h : First (fun before => P (c :: before)) mark text)
    (hnot : P [] → ¬ mark <+: c :: (text ++ mark)) : First P mark (c :: text) where
  holds := h.holds
  least := by
    intro before after hbefore heq
    cases before with
    | nil => exact absurd ⟨after, heq.symm⟩ (hnot hbefore)
    | cons d before =>
      obtain ⟨rfl, hrest⟩ := List.cons.inj heq
      rw [h.least hbefore hrest]

end First

/-! ### Tags -/

/-- What stands between an opening mark and a comment: nothing, or a trim marker. -/
def IsLead (lead : List Char) : Prop :=
  lead = [] ∨ ∃ blanks, blanks ≠ [] ∧ (∀ c ∈ blanks, isSpace c = true) ∧ lead = '-' :: blanks

/-- What stands between a comment and a closing mark: nothing, or a trim marker. -/
def IsTrail (trail : List Char) : Prop :=
  trail = [] ∨ ∃ blanks, blanks ≠ [] ∧ (∀ c ∈ blanks, isSpace c = true) ∧ trail = blanks ++ ['-']

/-- After an opening mark a comment starts. -/
def OpensComment (after : List Char) : Prop :=
  ∃ lead rest, IsLead lead ∧ after = lead ++ '/' :: '*' :: rest

/-- The place after some characters of an action. -/
def placeAfter (cs : List Char) : Place :=
  cs.foldl Place.next .outside

/-- An action, from its opening mark to the first closing mark outside string literals. -/
def IsAction (d : List Char) : Prop :=
  ∃ body, d = opening ++ body ++ closing ∧ ¬ OpensComment body ∧
    First (fun before => placeAfter before = .outside) closing body

/-- A comment, from its opening mark to the closing mark after its first end. -/
def IsComment (d : List Char) : Prop :=
  ∃ lead comment trail, d = opening ++ lead ++ comment ++ ['*', '/'] ++ trail ++ closing ∧
    IsLead lead ∧ IsTrail trail ∧ ['/', '*'] <+: comment ++ ['*', '/'] ∧
    First (fun _ => True) ['*', '/'] comment

/-- Whether a tag opens with a trim marker: the opening mark, a dash, and white space. -/
def opensTrim (d : List Char) : Bool :=
  startsTrim (d.drop 2)

/-- Whether a tag closes with a trim marker: white space, a dash, and the closing mark. -/
def closesTrim (d : List Char) : Bool :=
  startsTrim (d.reverse.drop 2)

section Tags

variable {d d' rest rest' : List Char}

theorem append_of_blanks {blanks blanks' : List Char} {c c' : Char}
    (h : ∀ c ∈ blanks, isSpace c = true) (h' : ∀ c ∈ blanks', isSpace c = true)
    (hc : isSpace c = false) (hc' : isSpace c' = false)
    (heq : blanks ++ c :: rest = blanks' ++ c' :: rest') :
    blanks = blanks' ∧ c :: rest = c' :: rest' := by
  have hfront := congrArg (List.takeWhile isSpace) heq
  rw [List.takeWhile_append_of_pos h, List.takeWhile_append_of_pos h',
    List.takeWhile_cons_of_neg (by simp [hc]), List.takeWhile_cons_of_neg (by simp [hc']),
    List.append_nil, List.append_nil] at hfront
  subst hfront
  exact ⟨rfl, List.append_cancel_left heq⟩

theorem IsLead.unique {lead lead' : List Char} (h : IsLead lead) (h' : IsLead lead')
    (heq : lead ++ '/' :: rest = lead' ++ '/' :: rest') : lead = lead' ∧ rest = rest' := by
  rcases h with rfl | ⟨blanks, -, hblanks, rfl⟩
  · rcases h' with rfl | ⟨blanks', -, -, rfl⟩
    · exact ⟨rfl, (List.cons.inj heq).2⟩
    · cases (List.cons.inj heq).1
  · rcases h' with rfl | ⟨blanks', -, hblanks', rfl⟩
    · cases (List.cons.inj heq).1
    · obtain ⟨rfl, hrest⟩ := append_of_blanks hblanks hblanks' (by decide) (by decide)
        (List.cons.inj heq).2
      exact ⟨rfl, (List.cons.inj hrest).2⟩

/-- A trim marker before a closing mark starts with white space, which the mark does not. -/
theorem blanks_append_ne_closing {blanks more more' : List Char} (hne : blanks ≠ [])
    (hblanks : ∀ c ∈ blanks, isSpace c = true) : blanks ++ more ≠ closing ++ more' := by
  intro heq
  cases blanks with
  | nil => exact hne rfl
  | cons c blanks =>
    cases (List.cons.inj heq).1
    cases hblanks _ (List.mem_cons_self ..)

theorem IsTrail.unique {trail trail' : List Char} (h : IsTrail trail) (h' : IsTrail trail')
    (heq : trail ++ closing ++ rest = trail' ++ closing ++ rest') : trail = trail' := by
  rcases h with rfl | ⟨blanks, hne, hblanks, rfl⟩
  · rcases h' with rfl | ⟨blanks', hne', hblanks', rfl⟩
    · rfl
    · simp only [List.nil_append, List.append_assoc] at heq
      exact absurd heq.symm (blanks_append_ne_closing hne' hblanks')
  · rcases h' with rfl | ⟨blanks', -, hblanks', rfl⟩
    · simp only [List.nil_append, List.append_assoc] at heq
      exact absurd heq (blanks_append_ne_closing hne hblanks)
    · simp only [List.append_assoc, List.singleton_append] at heq
      obtain ⟨rfl, -⟩ := append_of_blanks hblanks hblanks' (by decide) (by decide) heq
      rfl

theorem IsLead.notMem {lead : List Char} (h : IsLead lead) : '\x7d' ∉ lead := by
  rcases h with rfl | ⟨blanks, -, hblanks, rfl⟩
  · exact List.not_mem_nil
  · intro hmem
    rcases List.mem_cons.mp hmem with heq | hmem
    · cases heq
    · cases hblanks _ hmem

/-- Whether a comment starts is said before the closing mark. -/
theorem OpensComment.of_append {body : List Char} (h : OpensComment (body ++ closing ++ rest)) :
    OpensComment body := by
  obtain ⟨lead, more, hlead, heq⟩ := h
  have hstart : body ++ (closing ++ rest) = (lead ++ ['/', '*']) ++ more := by
    simpa using heq
  rcases List.append_eq_append_iff.mp hstart with ⟨cut, hcut, hrest⟩ | ⟨after, rfl, -⟩
  · cases cut with
    | nil =>
      rw [List.append_nil] at hcut
      exact ⟨lead, [], hlead, hcut.symm⟩
    | cons c cut =>
      cases (List.cons.inj hrest).1
      have hmem : '\x7d' ∈ lead ++ ['/', '*'] := by simp [hcut]
      simp [hlead.notMem] at hmem
  · exact ⟨lead, after, hlead, by simp⟩

theorem OpensComment.append {body : List Char} (h : OpensComment body) (rest : List Char) :
    OpensComment (body ++ rest) := by
  obtain ⟨lead, more, hlead, rfl⟩ := h
  exact ⟨lead, more ++ rest, hlead, by simp⟩

theorem IsAction.unique (h : IsAction d) (h' : IsAction d') (heq : d ++ rest = d' ++ rest') :
    d = d' := by
  obtain ⟨body, rfl, -, hfirst⟩ := h
  obtain ⟨body', rfl, -, hfirst'⟩ := h'
  simp only [List.append_assoc, List.append_cancel_left_eq] at heq
  rw [← List.append_assoc, ← List.append_assoc] at heq
  rw [hfirst.unique hfirst' heq]

theorem IsComment.unique (h : IsComment d) (h' : IsComment d') (heq : d ++ rest = d' ++ rest') :
    d = d' := by
  obtain ⟨lead, comment, trail, rfl, hlead, htrail, ⟨more, hmore⟩, hfirst⟩ := h
  obtain ⟨lead', comment', trail', rfl, hlead', htrail', ⟨more', hmore'⟩, hfirst'⟩ := h'
  have hinner : lead ++ (comment ++ ['*', '/'] ++ (trail ++ closing ++ rest)) =
      lead' ++ (comment' ++ ['*', '/'] ++ (trail' ++ closing ++ rest')) := by
    simpa [opening] using heq
  obtain rfl : lead = lead' := by
    rw [← hmore, ← hmore'] at hinner
    exact (hlead.unique hlead' hinner).1
  have hrest := List.append_cancel_left hinner
  obtain rfl := hfirst.unique hfirst' hrest
  rw [htrail.unique htrail' (List.append_cancel_left hrest)]

/-- No action starts where a comment does. -/
theorem IsAction.not_isComment (h : IsAction d) (h' : IsComment d')
    (heq : d ++ rest = d' ++ rest') : False := by
  obtain ⟨body, rfl, hbody, -⟩ := h
  obtain ⟨lead, comment, trail, rfl, hlead, -, ⟨more, hmore⟩, -⟩ := h'
  have hinner : body ++ closing ++ rest =
      lead ++ (comment ++ ['*', '/'] ++ (trail ++ closing ++ rest')) := by
    simpa [opening] using heq
  rw [← hmore] at hinner
  have hopens : OpensComment (body ++ closing ++ rest) := ⟨lead, _, hlead, hinner⟩
  exact hbody hopens.of_append

/-- A tag stands between an opening mark and a closing mark. -/
theorem tag_marks (h : IsAction d ∨ IsComment d) : opening <+: d ∧ closing <:+ d := by
  rcases h with ⟨body, rfl, -⟩ | ⟨lead, comment, trail, rfl, -⟩
  · exact ⟨⟨body ++ closing, (List.append_assoc ..).symm⟩, List.suffix_append _ _⟩
  · exact ⟨⟨lead ++ comment ++ ['*', '/'] ++ trail ++ closing, by simp⟩, List.suffix_append _ _⟩

/-- A tag is no initial part of another. -/
theorem tag_unique (h : IsAction d ∨ IsComment d) (h' : IsAction d' ∨ IsComment d')
    (heq : d ++ rest = d' ++ rest') : d = d' := by
  rcases h with h | h
  · rcases h' with h' | h'
    · exact h.unique h' heq
    · exact (h.not_isComment h' heq).elim
  · rcases h' with h' | h'
    · exact (h'.not_isComment h heq.symm).elim
    · exact h.unique h' heq

end Tags

/-! ### Sources -/

/-- A source as texts with tags between them: each tag comes with the text before it. The tags are as
they stand in the source. -/
structure Factors where
  tags : List (List Char × List Char)
  last : List Char

namespace Factors

/-- The source that the parts make up. -/
def source (f : Factors) : List Char :=
  f.tags.flatMap (fun (text, d) => text ++ d) ++ f.last

/-- The parts make up the source. Each text goes on to the first opening mark after the tag before
it, where an action or a comment starts; in the last one there is no opening mark. -/
structure Of (f : Factors) (source : List Char) : Prop where
  source : f.source = source
  texts : ∀ tag ∈ f.tags, First (fun _ => True) opening tag.1
  tags : ∀ tag ∈ f.tags, IsAction tag.2 ∨ IsComment tag.2
  last : ¬ opening <:+: f.last

variable {source : List Char}

theorem of_cons_iff {text d last : List Char} {tags : List (List Char × List Char)} :
    (Of ⟨(text, d) :: tags, last⟩ source) ↔
      ∃ rest, source = text ++ (d ++ rest) ∧ First (fun _ => True) opening text ∧
        (IsAction d ∨ IsComment d) ∧ Of ⟨tags, last⟩ rest := by
  constructor
  · rintro ⟨hsource, htexts, htags, hlast⟩
    rw [List.forall_mem_cons] at htexts htags
    exact ⟨_, by simpa [Factors.source] using hsource.symm, htexts.1, htags.1,
      rfl, htexts.2, htags.2, hlast⟩
  · rintro ⟨rest, rfl, htext, htag, hsource, htexts, htags, hlast⟩
    refine ⟨?_, ?_, ?_, hlast⟩
    · rw [← hsource]
      simp [Factors.source]
    · exact List.forall_mem_cons.mpr ⟨htext, htexts⟩
    · exact List.forall_mem_cons.mpr ⟨htag, htags⟩

/-- Where there is a tag there is an opening mark. -/
theorem Of.not_of_nil {text d last last' : List Char} {tags : List (List Char × List Char)}
    (h : Of ⟨(text, d) :: tags, last⟩ source) : ¬ Of ⟨[], last'⟩ source := by
  intro hnone
  obtain ⟨rest, rfl, -, htag, -⟩ := of_cons_iff.mp h
  obtain ⟨⟨after, rfl⟩, -⟩ := tag_marks htag
  have hlast : last' = text ++ (opening ++ after ++ rest) := hnone.source
  exact hnone.last ⟨text, after ++ rest, by simp [hlast]⟩

/-- A source has its parts in one way only. -/
theorem Of.unique {f f' : Factors} (h : f.Of source) (h' : f'.Of source) : f = f' := by
  obtain ⟨tags, last⟩ := f
  obtain ⟨tags', last'⟩ := f'
  induction tags generalizing tags' source with
  | nil =>
    cases tags' with
    | nil =>
      have hlast : last = last' := h.source.trans h'.source.symm
      rw [hlast]
    | cons tag' tags' => exact absurd h h'.not_of_nil
  | cons tag tags ih =>
    obtain ⟨text, d⟩ := tag
    cases tags' with
    | nil => exact absurd h' h.not_of_nil
    | cons tag' tags' =>
      obtain ⟨text', d'⟩ := tag'
      obtain ⟨rest, rfl, htext, htag, hrest⟩ := of_cons_iff.mp h
      obtain ⟨rest', heq, htext', htag', hrest'⟩ := of_cons_iff.mp h'
      obtain ⟨⟨after, hafter⟩, -⟩ := tag_marks htag
      obtain ⟨⟨after', hafter'⟩, -⟩ := tag_marks htag'
      have hplaces : text ++ opening ++ (after ++ rest) = text' ++ opening ++ (after' ++ rest') := by
        simpa [← hafter, ← hafter'] using heq
      obtain rfl := htext.unique htext' hplaces
      have hparts := List.append_cancel_left heq
      obtain rfl := tag_unique htag htag' hparts
      obtain rfl := List.append_cancel_left hparts
      cases ih hrest _ hrest'
      rfl

end Factors

end BoundQuery.Template
