/-
# Where actions end

Two readers look at an action: one finds the closing mark after it and keeps track of string literals
by single characters, the other reads what the action says, its string literals with their escapes
among it. They agree on where each string literal ends. So a body that is read as an action, put
between an opening and a closing mark, is cut out of its source as it is.

Main statements: `skips_of_spans`, `segments_action`.
-/

import Mathlib.Data.List.TakeWhile
import BoundQuery.Proofs.Fallible
import BoundQuery.Proofs.Template.Scanning
import BoundQuery.Template.Segment

namespace BoundQuery.Template

open Text (Pos utf8Length)

/-! ### Characters that are passed over -/

/-- An interior with characters before it. -/
def prepend (read : List Char) (interior : Except TagFault (List Char × List Char)) :
    Except TagFault (List Char × List Char) :=
  interior.map fun (left, right) => (read ++ left, right)

/-- Looking for a closing mark from one place on, these characters are passed over, and the search
goes on from the other place. -/
def Skips (start : Place) (read : List Char) (stop : Place) : Prop :=
  ∀ rest, cutClosing start (read ++ rest) = prepend read (cutClosing stop rest)

theorem prepend_nil (interior : Except TagFault (List Char × List Char)) :
    prepend [] interior = interior := by
  cases interior <;> rfl

theorem prepend_append (read more : List Char) (interior : Except TagFault (List Char × List Char)) :
    prepend (read ++ more) interior = prepend read (prepend more interior) := by
  cases interior with
  | error fault => rfl
  | ok parts => simp [prepend, Except.map]

theorem skips_nil (place : Place) : Skips place [] place := fun _ => (prepend_nil _).symm

theorem Skips.trans {start middle stop : Place} {read more : List Char}
    (h : Skips start read middle) (h' : Skips middle more stop) :
    Skips start (read ++ more) stop := by
  intro rest
  rw [List.append_assoc, h, h', prepend_append]

/-- In a string literal there is no closing mark. -/
theorem skips_inside {place : Place} (h : place ≠ .outside) (c : Char) :
    Skips place [c] (place.next c) := by
  intro rest
  rw [List.singleton_append, cutClosing, if_neg fun hc => h hc.1, if_neg fun hc => h hc.1]
  rfl

theorem skips_outside {c : Char} (hbrace : c ≠ '\x7d') (hforeign : c.toNat < 0x80) :
    Skips .outside [c] (Place.outside.next c) := by
  intro rest
  rw [List.singleton_append, cutClosing, if_neg fun hc => hbrace hc.2.1,
    if_neg fun hc => Nat.not_le.mpr hforeign hc.2]
  rfl

/-- Characters that do not change the place. -/
theorem skips_all {place : Place} (hplace : place ≠ .outside) {read : List Char}
    (h : ∀ c ∈ read, place.next c = place) : Skips place read place := by
  induction read with
  | nil => exact skips_nil place
  | cons c read ih =>
    rw [List.forall_mem_cons] at h
    have hfirst := skips_inside hplace c
    rw [h.1] at hfirst
    exact hfirst.trans (ih h.2)

theorem next_outside {c : Char} (hquote : c ≠ '"') (hraw : c ≠ Scan.backQuote) :
    Place.outside.next c = .outside :=
  (if_neg hquote).trans (if_neg hraw)

theorem next_raw {c : Char} (hraw : c ≠ Scan.backQuote) : Place.raw.next c = .raw :=
  if_neg hraw

/-! ### String literals -/

/-- In a quoted literal the character neither ends the literal nor starts an escape. -/
def Inert (c : Char) : Prop :=
  c ≠ '"' ∧ c ≠ '\\' ∧ c ≠ '\n'

theorem next_of_inert {c : Char} (h : Inert c) : Place.quoted.next c = .quoted := by
  obtain ⟨hquote, hescape, hline⟩ := h
  simp [Place.next, hquote, hescape, hline]

theorem inert_of_digitValue {c : Char} (h : Text.digitValue c < 16) : Inert c := by
  refine ⟨?_, ?_, ?_⟩ <;>
  · rintro rfl
    exact absurd h (by decide)

theorem inert_of_mem_sign {sign : List Char} (h : sign ∈ plusOrNone) : ∀ c ∈ sign, Inert c := by
  simp only [plusOrNone, List.mem_cons, List.not_mem_nil, or_false] at h
  rcases h with rfl | rfl
  · exact List.forall_mem_nil _
  · exact List.forall_mem_singleton.mpr ⟨by decide, by decide, by decide⟩

theorem skips_inert {read : List Char} (h : ∀ c ∈ read, Inert c) : Skips .quoted read .quoted :=
  skips_all (by decide) fun c hc => next_of_inert (h c hc)

/-- After a backslash the reader by single characters passes over one character; the sign and the
digits that may follow it are inert. -/
theorem skips_of_unit {unit : List Char} {c : Char} (h : QuotedUnit plusOrNone unit c) :
    Skips .quoted unit .quoted := by
  have hletter : ∀ letter, Skips .quoted ['\\', letter] .quoted := fun letter =>
    (skips_inside (by decide) '\\').trans (skips_inside (by decide) letter)
  cases h with
  | plain hquote hescape hline =>
    exact skips_inert (List.forall_mem_singleton.mpr ⟨hquote, hescape, hline⟩)
  | short _ => exact hletter _
  | numbered _ hsign _ hdigits _ =>
    have hplaces := List.forall_mem_append.mpr
      ⟨inert_of_mem_sign hsign, fun d hd => inert_of_digitValue (hdigits d hd)⟩
    exact (hletter _).trans (skips_inert hplaces)

theorem skips_of_units {inner chars : List Char} (h : QuotedUnits plusOrNone inner chars) :
    Skips .quoted inner .quoted := by
  induction h with
  | nil => exact skips_nil _
  | cons hunit _ ih => exact (skips_of_unit hunit).trans ih

/-- A string literal runs from a quote to a quote of the same form, for either reader. -/
theorem string_found {cs after : List Char} {s : String} (h : Scan.string cs = .found s after) :
    ∃ quote inner, (quote = '"' ∨ quote = Scan.backQuote) ∧
      cs = (quote :: inner ++ [quote]) ++ after ∧
      Skips .outside (quote :: inner ++ [quote]) .outside := by
  have hopens : ∀ {quote : Char} {place : Place}, Place.outside.next quote = place →
      quote ≠ '\x7d' → quote.toNat < 0x80 → Skips .outside [quote] place := by
    rintro quote place rfl hbrace hforeign
    exact skips_outside hbrace hforeign
  rcases Scan.orElse_eq_found_iff.mp h with h | ⟨-, h⟩
  · obtain ⟨inner, rfl, hinner⟩ := Scan.exists_units_of_quoted h
    have hopen : Skips .outside ['"'] .quoted :=
      hopens rfl (by decide) (by decide)
    have hclose : Skips .quoted ['"'] .outside := skips_inside (by decide) '"'
    exact ⟨'"', inner, .inl rfl, by simp, (hopen.trans (skips_of_units hinner)).trans hclose⟩
  · unfold Scan.raw at h
    split at h
    · rename_i c literal _
      split at h
      · rename_i hquote
        split at h
        · cases h
        · rename_i d beyond hdrop
          cases h
          have hd : d = Scan.backQuote := by
            have hhead := List.head?_dropWhile_not (· != Scan.backQuote) literal
            rw [hdrop] at hhead
            simpa using hhead
          have hliteral := List.takeWhile_append_dropWhile (p := (· != Scan.backQuote)) (l := literal)
          rw [hdrop, hd] at hliteral
          have hopen : Skips .outside [Scan.backQuote] .raw :=
            hopens rfl (by decide) (by decide)
          have hinner : Skips .raw (literal.takeWhile (· != Scan.backQuote)) .raw := by
            refine skips_all (by decide) fun c hc => ?_
            have hc : c ≠ Scan.backQuote := by simpa using List.mem_takeWhile_imp hc
            exact next_raw hc
          have hclose : Skips .raw [Scan.backQuote] .outside := skips_inside (by decide) _
          refine ⟨Scan.backQuote, _, .inr rfl, ?_, (hopen.trans hinner).trans hclose⟩
          rw [hquote]
          simpa using hliteral.symm
      · cases h
    · cases h

theorem length_string {cs after : List Char} {s : String} (h : Scan.string cs = .found s after) :
    after.length < cs.length := by
  obtain ⟨quote, inner, -, rfl, -⟩ := string_found h
  simp only [List.length_append, List.length_cons]
  omega

/-- The characters of a text outside string literals. -/
def bare : List Char → List Char
  | [] => []
  | c :: cs =>
    match _h : Scan.string (c :: cs) with
    | .found _ after => bare after
    | _ => c :: bare cs
termination_by cs => cs.length
decreasing_by
  all_goals first
    | exact length_string _h
    | exact Nat.lt_succ_self _

theorem string_cons {c : Char} (hquote : c ≠ '"') (hraw : c ≠ Scan.backQuote) (cs after : List Char)
    (s : String) : Scan.string (c :: cs) ≠ .found s after := by
  intro h
  obtain ⟨quote, inner, hquotes, heq, -⟩ := string_found h
  cases heq
  exact hquotes.elim hquote hraw

theorem bare_cons {c : Char} (hquote : c ≠ '"') (hraw : c ≠ Scan.backQuote) (cs : List Char) :
    bare (c :: cs) = c :: bare cs := by
  rw [bare]
  split
  · rename_i hread
    exact absurd hread (string_cons hquote hraw _ _ _)
  · rfl

theorem bare_literal {cs after : List Char} {s : String} (h : Scan.string cs = .found s after) :
    bare cs = bare after := by
  cases cs with
  | nil => cases h
  | cons c cs =>
    rw [bare]
    split
    · rename_i hread
      rw [h] at hread
      cases hread
      rfl
    · rename_i hread
      exact absurd h (hread _ _)

/-! ### Bodies of actions -/

section Bodies

variable {P : Char → List Char → Prop} {Q : Char → Prop} {cs rest : List Char}

theorem Spans.and_bare (h : Spans P cs rest) (hbare : ∀ c ∈ bare cs, Q c) :
    Spans (fun c after => P c after ∧ Q c) cs rest := by
  induction h with
  | stop => exact .stop
  | char hquote hraw hc _ ih =>
    rw [bare_cons hquote hraw, List.forall_mem_cons] at hbare
    exact .char hquote hraw ⟨hc, hbare.1⟩ (ih hbare.2)
  | literal hread _ ih =>
    rw [bare_literal hread] at hbare
    exact .literal hread (ih hbare)

theorem Spans.of_cons {c : Char} (h : Spans P (c :: cs) []) (hquote : c ≠ '"')
    (hraw : c ≠ Scan.backQuote) : P c cs ∧ Spans P cs [] := by
  cases h with
  | char _ _ hc hrest => exact ⟨hc, hrest⟩
  | literal hread _ => exact absurd hread (string_cons hquote hraw _ _ _)

theorem Spans.exists_skips (h : Spans (fun c after => NoMark c after ∧ c.toNat < 0x80) cs rest) :
    ∃ read, cs = read ++ rest ∧ Skips .outside read .outside := by
  induction h with
  | stop => exact ⟨[], rfl, skips_nil _⟩
  | @char c _ rest hquote hraw hc _ ih =>
    obtain ⟨read, rfl, hread⟩ := ih
    have hfirst := skips_outside hc.1.1 hc.2
    rw [next_outside hquote hraw] at hfirst
    exact ⟨c :: read, rfl, hfirst.trans hread⟩
  | literal hread _ ih =>
    obtain ⟨read, rfl, hread'⟩ := ih
    obtain ⟨quote, inner, -, rfl, hliteral⟩ := string_found hread
    exact ⟨_, (List.append_assoc ..).symm, hliteral.trans hread'⟩

/-- The search for a closing mark passes over a body whose characters outside string literals are
ASCII, and no marks. -/
theorem skips_of_spans (h : Spans NoMark cs []) (hforeign : ∀ c ∈ bare cs, c.toNat < 0x80) :
    Skips .outside cs .outside := by
  obtain ⟨read, hcs, hread⟩ := (h.and_bare hforeign).exists_skips
  rw [List.append_nil] at hcs
  rwa [hcs]

theorem startsTrim_of_spans (h : Spans NoMark cs []) (after : List Char) :
    startsTrim (cs ++ closing ++ after) = false := by
  cases cs with
  | nil => rfl
  | cons c cs =>
    by_cases hdash : c = '-'
    · subst hdash
      obtain ⟨⟨-, -, hsign⟩, -⟩ := h.of_cons (by decide) (by decide)
      obtain ⟨d, hd, hdigit⟩ := (Option.any_eq_true ..).mp (hsign rfl)
      obtain ⟨cs, rfl⟩ := List.head?_eq_some_iff.mp hd
      change isSpace d = false
      cases hspace : isSpace d with
      | false => rfl
      | true =>
        have hspaces : d = ' ' ∨ d = '\t' ∨ d = '\r' ∨ d = '\n' := by
          simpa [isSpace, or_assoc] using hspace
        rcases hspaces with rfl | rfl | rfl | rfl <;> cases hdigit
    · unfold startsTrim
      split
      · rename_i heq
        exact absurd (List.cons.inj heq).1 hdash
      · rfl

theorem startsComment_of_spans (h : Spans NoMark cs []) (after : List Char) :
    startsComment (trimStart (cs ++ closing ++ after)) = false := by
  induction cs with
  | nil => rfl
  | cons c cs ih =>
    by_cases hspace : isSpace c
    · have hunquoted : c ∉ marks := Scan.unmarked_isSpace.notMem hspace
      have hrest := (h.of_cons (fun heq => hunquoted (by simp [marks, heq]))
        (fun heq => hunquoted (by simp [marks, heq]))).2
      have htrim : trimStart (c :: cs ++ closing ++ after) = trimStart (cs ++ closing ++ after) :=
        List.dropWhile_cons_of_pos hspace
      rw [htrim]
      exact ih hrest
    · have htrim : trimStart (c :: cs ++ closing ++ after) = c :: cs ++ closing ++ after :=
        List.dropWhile_cons_of_neg hspace
      rw [htrim]
      unfold startsComment
      split
      · rename_i heq
        cases (List.cons.inj heq).1
        exact absurd rfl (h.of_cons (by decide) (by decide)).1.2.1
      · rfl

theorem getLast?_of_spans (h : Spans NoMark cs rest) (hrest : rest = []) :
    cs.getLast? ≠ some '-' := by
  induction h with
  | stop => simp [hrest]
  | @char c cs rest _ _ hc _ ih =>
    intro hlast
    cases cs with
    | nil =>
      cases Option.some.inj hlast
      cases hc.2.2 rfl
    | cons d cs => exact ih hrest hlast
  | @literal _ _ after _ hread _ ih =>
    obtain ⟨quote, inner, hquote, rfl, -⟩ := string_found hread
    intro hlast
    rw [List.getLast?_append] at hlast
    cases hafter : after.getLast? with
    | none =>
      rw [hafter, Option.none_or, List.getLast?_concat] at hlast
      have hdash : quote = '-' := Option.some.inj hlast
      rcases hquote with rfl | rfl <;> cases hdash
    | some d =>
      rw [hafter] at hlast
      exact ih hrest (hafter.trans hlast)

theorem endsTrim_of_spans (h : Spans NoMark cs []) : endsTrim cs = false := by
  unfold endsTrim startsTrim
  split
  · rename_i c before hreverse
    have hlast : cs.getLast? = some '-' := by
      rw [List.getLast?_eq_head?_reverse, hreverse, List.head?_cons]
    exact absurd hlast (getLast?_of_spans h rfl)
  · rfl

/-- The tag of a body that is read as an action, closed right after it. -/
theorem readTag_of_spans (h : Spans NoMark cs []) (hforeign : ∀ c ∈ bare cs, c.toNat < 0x80)
    (after : List Char) :
    readTag (cs ++ closing ++ after) = .ok (⟨false, false, cs, false⟩, after) := by
  have hcut : cutClosing .outside (cs ++ closing ++ after) = .ok (cs, after) := by
    rw [List.append_assoc, skips_of_spans h hforeign]
    simp [closing, cutClosing, prepend, Except.map]
  unfold readTag
  simp only [startsTrim_of_spans h after, Bool.false_eq_true, if_false,
    startsComment_of_spans h after, Bool.false_and, hcut]
  simp [bind, Except.bind, pure, Except.pure, endsTrim_of_spans h]

end Bodies

/-! ### Sources -/

/-- A segment so many bytes further on. -/
def Segment.shift (bytes : Nat) : Segment → Segment
  | .text chars => .text chars
  | .action start bodyStart body => .action (start + bytes) (bodyStart + bytes) body

theorem cutOpening_append {text : List Char} (hopening : ¬ opening <:+: text)
    (hlast : text.getLast? ≠ some '\x7b') (after : List Char) :
    cutOpening (text ++ opening ++ after) = (text, some after) := by
  induction text with
  | nil => rfl
  | cons c text ih =>
    have hrest : cutOpening (text ++ opening ++ after) = (text, some after) := by
      refine ih (fun hwithin => hopening (hwithin.trans (List.suffix_cons c text).isInfix)) ?_
      intro h
      cases text with
      | nil => cases h
      | cons d text => exact hlast h
    have hstep : cutOpening (c :: (text ++ opening ++ after)) =
        (c :: (cutOpening (text ++ opening ++ after)).1, (cutOpening (text ++ opening ++ after)).2) := by
      -- An opening mark here would stand in the text, or overlap the one after it.
      rw [cutOpening]
      rintro more rfl hmore
      cases text with
      | nil => exact hlast rfl
      | cons d text =>
        cases (List.cons.inj hmore).1
        exact hopening (List.prefix_append opening text).isInfix
    rw [List.cons_append, List.cons_append, hstep, hrest]

/-- A text in which no action opens. -/
theorem cutOpening_of_unopened {text : List Char} (hopening : ¬ opening <:+: text) :
    cutOpening text = (text, none) := by
  cases hcut : cutOpening text with
  | mk before after =>
    cases after with
    | none => rw [cutOpening_none hcut]
    | some after =>
      rw [cutOpening_some hcut] at hopening
      exact absurd (List.infix_append before opening after) hopening

section Cuts

variable {offset : Nat} {source text after : List Char}

theorem cut_of_none (hopen : cutOpening source = (text, none)) :
    cut offset source = .ok ⟨[], text⟩ := by
  rw [cut]
  split
  · rename_i heq
    cases hopen.symm.trans heq
    rfl
  · rename_i heq
    cases hopen.symm.trans heq

theorem cut_of_tag (hopen : cutOpening source = (text, some after)) {t : Tag} {rest : List Char}
    (htag : readTag after = .ok (t, rest)) :
    cut offset source = (cut (offset + utf8Length (text ++ t.source)) rest).map fun c =>
      { c with tags := (text, t) :: c.tags } := by
  rw [cut]
  split
  · rename_i heq
    cases hopen.symm.trans heq
  · rename_i heq
    cases hopen.symm.trans heq
    split
    · rename_i htag'
      cases htag.symm.trans htag'
    · rename_i htag'
      cases htag.symm.trans htag'
      rfl

/-- What a source is cut into does not depend on where it starts. -/
theorem cut_eq_ok {c : Cut} (h : cut offset source = .ok c) (other : Nat) :
    cut other source = .ok c := by
  fun_induction cut offset source generalizing other c with
  | case1 offset source text hopen =>
    cases h
    exact cut_of_none hopen
  | case2 => cases h
  | case3 offset source text after hopen t rest htag ih =>
    obtain ⟨c', hc', rfl⟩ := map_eq_ok_iff.mp h
    rw [cut_of_tag hopen htag, ih hc']
    rfl

end Cuts

theorem segmentsFrom_shift (bytes offset : Nat) (trims : Bool) (last : List Char)
    (tags : List (List Char × Tag)) :
    segmentsFrom (offset + bytes) trims last tags =
      (segmentsFrom offset trims last tags).map (Segment.shift bytes) := by
  have htrimmed : ∀ (trimsStart trimsEnd : Bool) (text : List Char),
      (trimmed trimsStart trimsEnd text).map (Segment.shift bytes) = trimmed trimsStart trimsEnd text := by
    intro trimsStart trimsEnd text
    unfold trimmed
    dsimp only
    split <;> split <;> split <;> rfl
  induction tags generalizing offset trims with
  | nil => exact (htrimmed _ _ _).symm
  | cons tag rest ih =>
    obtain ⟨text, t⟩ := tag
    have hsegment : ∀ start, t.segment (start + bytes) = (t.segment start).map (Segment.shift bytes) := by
      intro start
      unfold Tag.segment
      split
      · rfl
      · simp only [List.map_cons, List.map_nil, Segment.shift]
        congr 2
        omega
    have hafter : ∀ n, offset + bytes + n = offset + n + bytes := fun n => by omega
    rw [segmentsFrom, segmentsFrom, List.map_append, List.map_append, htrimmed, hafter, hafter, ih,
      hsegment]

theorem cutOpening_tag {text : List Char} (hopening : ¬ opening <:+: text)
    (hlast : text.getLast? ≠ some '\x7b') (body rest : List Char) :
    cutOpening (text ++ opening ++ body ++ closing ++ rest) = (text, some (body ++ closing ++ rest)) := by
  have hopen := cutOpening_append hopening hlast (body ++ closing ++ rest)
  simpa only [List.append_assoc] using hopen

/-- A tag whose closing mark is the first one that is found is cut out of its source as it stands,
between a text and the segments that follow. -/
theorem segments_tag {text body rest : List Char} {found : List Segment}
    (hopening : ¬ opening <:+: text) (hlast : text.getLast? ≠ some '\x7b')
    (htag : readTag (body ++ closing ++ rest) = .ok (⟨false, false, body, false⟩, rest))
    (hrest : segments rest = .ok found) :
    segments (text ++ opening ++ body ++ closing ++ rest) =
      .ok ((if text = [] then [] else [.text text]) ++
        .action (utf8Length text) (utf8Length text + 2) body ::
          found.map (Segment.shift (utf8Length (text ++ opening ++ body ++ closing)))) := by
  obtain ⟨c, hcut, rfl⟩ := map_eq_ok_iff.mp hrest
  let tag : Tag := ⟨false, false, body, false⟩
  have hopen := cutOpening_tag hopening hlast body rest
  have hsource : text ++ tag.source = text ++ opening ++ body ++ closing := by
    simp [tag, Tag.source, dash]
  have htext : trimmed false false text = if text = [] then [] else [.text text] := by
    cases text <;> rfl
  rw [segments, cut_of_tag hopen htag, hsource, cut_eq_ok hcut]
  change Except.ok (trimmed false false text ++ [.action (0 + utf8Length text) _ body] ++
    segmentsFrom (0 + utf8Length (text ++ tag.source)) false c.last c.tags) = _
  rw [htext, hsource, segmentsFrom_shift, Nat.zero_add, List.append_assoc]
  rfl

/-- If a source is cut with a tag in front, so is what follows the tag. -/
theorem exists_segments_after {text body rest : List Char} {found : List Segment}
    (hopening : ¬ opening <:+: text) (hlast : text.getLast? ≠ some '\x7b')
    (htag : readTag (body ++ closing ++ rest) = .ok (⟨false, false, body, false⟩, rest))
    (h : segments (text ++ opening ++ body ++ closing ++ rest) = .ok found) :
    ∃ after, segments rest = .ok after ∧
      found = (if text = [] then [] else [.text text]) ++
        .action (utf8Length text) (utf8Length text + 2) body ::
          after.map (Segment.shift (utf8Length (text ++ opening ++ body ++ closing))) := by
  obtain ⟨c, hcut, -⟩ := map_eq_ok_iff.mp h
  rw [cut_of_tag (cutOpening_tag hopening hlast body rest) htag] at hcut
  obtain ⟨c', hrest, -⟩ := map_eq_ok_iff.mp hcut
  have hafter : segments rest = .ok (segmentsFrom 0 false c'.last c'.tags) :=
    map_eq_ok_iff.mpr ⟨c', cut_eq_ok hrest 0, rfl⟩
  rw [segments_tag hopening hlast htag hafter] at h
  exact ⟨_, hafter, (Except.ok.inj h).symm⟩

/-- An action whose body can be read on its own, and in which all characters outside string literals
are ASCII, is cut out of its source as it stands, between a text and the segments that follow. -/
theorem segments_action {text body rest : List Char} {locate : List Char → Pos} {action : Action}
    {found : List Segment} (hopening : ¬ opening <:+: text) (hlast : text.getLast? ≠ some '\x7b')
    (hread : readAction locate body = .ok action) (hforeign : ∀ c ∈ bare body, c.toNat < 0x80)
    (hrest : segments rest = .ok found) :
    segments (text ++ opening ++ body ++ closing ++ rest) =
      .ok ((if text = [] then [] else [.text text]) ++
        .action (utf8Length text) (utf8Length text + 2) body ::
          found.map (Segment.shift (utf8Length (text ++ opening ++ body ++ closing)))) := by
  have htag := readTag_of_spans (spans_readAction hread) hforeign rest
  exact segments_tag hopening hlast htag hrest

theorem segments_action_quoted :
    ∃ action, readAction (fun _ => ⟨1, 1⟩) " eq .A \"\x7d\x7dé\" ".toList = .ok action ∧
      ¬ opening <:+: "a".toList ∧ "a".toList.getLast? ≠ some '\x7b' ∧
      (∀ c ∈ bare " eq .A \"\x7d\x7dé\" ".toList, c.toNat < 0x80) ∧
      segments "b{{.C}}".toList = .ok [.text "b".toList, .action 1 3 ".C".toList] ∧
      segments ("a".toList ++ opening ++ " eq .A \"\x7d\x7dé\" ".toList ++ closing ++
        "b{{.C}}".toList) =
        .ok [.text "a".toList, .action 1 3 " eq .A \"\x7d\x7dé\" ".toList, .text "b".toList,
          .action 20 22 ".C".toList] := by
  obtain ⟨action, hread, -⟩ := exists_of_any
    (x := readAction (fun _ => ⟨1, 1⟩) " eq .A \"\x7d\x7dé\" ".toList) (p := fun _ => true)
    (by decide +kernel)
  have hopening : ¬ opening <:+: "a".toList := by decide
  have hlast : "a".toList.getLast? ≠ some '\x7b' := by decide
  have hforeign : ∀ c ∈ bare " eq .A \"\x7d\x7dé\" ".toList, c.toNat < 0x80 := by
    have hall : (bare " eq .A \"\x7d\x7dé\" ".toList).all (·.toNat < 0x80) = true := by
      decide +kernel
    simpa using hall
  have hrest : segments "b{{.C}}".toList = .ok [.text "b".toList, .action 1 3 ".C".toList] := by
    decide +kernel
  exact ⟨action, hread, hopening, hlast, hforeign, hrest,
    segments_action hopening hlast hread hforeign hrest⟩

end BoundQuery.Template
