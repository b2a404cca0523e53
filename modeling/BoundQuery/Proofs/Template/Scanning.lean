/-
# What scanners read

A scanner reads from the front: what it leaves is the end of its text, and what lies between are whole
string literals, and characters that are marks of no tag. So whatever is read of an action stands in
its source, the names of functions among it, and no pipeline is read without a command.

Main statement: `lexical_readAction`.
-/

import Mathlib.Data.List.TakeWhile
import BoundQuery.Proofs.Template.Lexical
import BoundQuery.Proofs.Template.Spans

namespace BoundQuery.Template

open Text (Pos)

/-! ### Regions -/

/-- What is known of the texts that scanners come to, and of the words that they read of them. -/
structure Region where
  text : List Char → Prop
  word : List Char → Prop
  /-- It is known of what scanners leave. -/
  rest {cs rest : List Char} : text cs → Spans NoMark cs rest → text rest
  /-- It is known of words at the front, which hold no marks. -/
  take {cs rest : List Char} : text (cs ++ rest) → (∀ c ∈ cs, c ∉ marks) → word cs

/-- Nothing is known. -/
def Region.anywhere : Region where
  text _ := True
  word _ := True
  rest _ _ := trivial
  take _ _ := trivial

/-- The parts of a text; their words are parts of it too. -/
def Region.within (cs : List Char) : Region where
  text part := part <:+: cs
  word part := part <:+: cs
  rest hpart hspans := hspans.suffix.isInfix.trans hpart
  take hpart _ := (List.prefix_append _ _).isInfix.trans hpart

namespace Scan

/-! ### Scanners one after the other -/

/-- From a text of the region nothing is passed over but string literals and characters that are no
marks, and what is read satisfies `Q`. -/
def Reads {α : Type} (r : Region) (Q : α → Prop) (p : Scan α) : Prop :=
  ∀ cs a rest, r.text cs → p cs = .found a rest → Spans NoMark cs rest ∧ Q a

section Combinators

variable {α β : Type} {r : Region} {Q : α → Prop} {R : β → Prop} {p q : Scan α}

theorem reads_pure {a : α} (h : Q a) : Reads r Q (pure a : Scan α) := by
  intro cs b rest _ hread
  cases hread
  exact ⟨.stop, h⟩

theorem Reads.mono {Q' : α → Prop} (hp : Reads r Q p) (h : ∀ a, Q a → Q' a) :
    Reads r Q' p :=
  fun cs a rest hcs hread => (hp cs a rest hcs hread).imp_right (h a)

theorem bind_eq_found_iff {f : α → Scan β} {cs rest : List Char} {b : β} :
    (p >>= f) cs = .found b rest ↔
      ∃ a middle, p cs = .found a middle ∧ f a middle = .found b rest := by
  cases h : p cs with
  | found a middle =>
    constructor
    · intro hread
      exact ⟨a, middle, rfl, by simpa [bind, h] using hread⟩
    · rintro ⟨_, _, ⟨⟩, hread⟩
      simpa [bind, h] using hread
  | missed fault => simp [bind, h]
  | failed fault => simp [bind, h]

theorem map_eq_missed_iff {f : α → β} {cs : List Char} {fault : Fault} :
    (f <$> p) cs = .missed fault ↔ p cs = .missed fault := by
  cases h : p cs with
  | found a rest =>
    simp only [Functor.map, h, reduceCtorEq, iff_false]
    exact fun hread => nomatch hread
  | missed fault' => simp [Functor.map, h]
  | failed fault' => simp [Functor.map, h]

theorem reads_bind {f : α → Scan β} (hp : Reads r Q p)
    (hf : ∀ a, Q a → Reads r R (f a)) : Reads r R (p >>= f) := by
  intro cs b rest hcs hread
  obtain ⟨a, middle, hmiddle, hread⟩ := bind_eq_found_iff.mp hread
  obtain ⟨hspans, ha⟩ := hp cs a middle hcs hmiddle
  obtain ⟨hrest, hb⟩ := hf a ha middle b rest (r.rest hcs hspans) hread
  exact ⟨hspans.trans hrest, hb⟩

theorem reads_map {f : α → β} (hp : Reads r Q p) (h : ∀ a, Q a → R (f a)) :
    Reads r R (f <$> p) :=
  reads_bind hp fun a ha => reads_pure (h a ha)

theorem reads_here : Reads r (fun _ => True) here := by
  intro cs a rest _ hread
  cases hread
  exact ⟨.stop, trivial⟩

theorem reads_miss : Reads r Q (miss : Scan α) := by
  intro cs a rest _ hread
  cases hread

theorem reads_orElse (hp : Reads r Q p) (hq : Reads r Q q) :
    Reads r Q (p <|> q) := by
  intro cs a rest hcs hread
  rcases orElse_eq_found_iff.mp hread with hread | ⟨-, hread⟩
  · exact hp cs a rest hcs hread
  · exact hq cs a rest hcs hread

theorem reads_commit (hp : Reads r Q p) : Reads r Q (commit p) := by
  intro cs a rest hcs hread
  unfold commit at hread
  split at hread
  · cases hread
  · exact hp cs a rest hcs hread

theorem reads_within (construct : Construct) (hp : Reads r Q p) :
    Reads r Q (within construct p) := by
  intro cs a rest hcs hread
  unfold within at hread
  split at hread
  · cases hread
  · cases hread
  · exact hp cs a rest hcs hread

theorem reads_optional (hp : Reads r Q p) :
    Reads r (fun o => ∀ a ∈ o, Q a) (optional p) := by
  intro cs o rest hcs hread
  unfold optional at hread
  split at hread
  · rename_i a middle hmiddle
    cases hread
    obtain ⟨hspans, ha⟩ := hp cs a _ hcs hmiddle
    exact ⟨hspans, by simpa using ha⟩
  · cases hread
    exact ⟨.stop, by simp⟩
  · cases hread

theorem reads_many (hp : Reads r Q p) : Reads r (fun as => ∀ a ∈ as, Q a) (many p) := by
  intro cs
  fun_induction many p cs with
  | case1 cs a middle hmiddle hshorter as rest hmany ih =>
    intro bs rest' hcs hread
    cases hread
    obtain ⟨hspans, ha⟩ := hp cs a middle hcs hmiddle
    obtain ⟨hrest, has⟩ := ih as rest (r.rest hcs hspans) hmany
    exact ⟨hspans.trans hrest, by simpa using ⟨ha, has⟩⟩
  | case2 cs a middle hmiddle hshorter hmany ih =>
    intro bs rest' hcs hread
    exact absurd hread (hmany bs rest')
  | case3 cs a middle hmiddle hlonger =>
    intro bs rest' hcs hread
    cases hread
    obtain ⟨hspans, ha⟩ := hp cs a middle hcs hmiddle
    exact ⟨hspans, by simpa using ha⟩
  | case4 cs fault hmiss =>
    intro bs rest' hcs hread
    cases hread
    exact ⟨.stop, by simp⟩
  | case5 cs fault hfail =>
    intro bs rest' hcs hread
    cases hread

theorem reads_oneOrMore (hp : Reads r Q p) :
    Reads r (fun as => as ≠ [] ∧ ∀ a ∈ as, Q a) (oneOrMore p) :=
  reads_bind hp fun _ ha => reads_bind (reads_many hp) fun _ has =>
    reads_pure ⟨List.cons_ne_nil _ _, by simpa using ⟨ha, has⟩⟩

end Combinators

/-! ### Words and literals -/

section Words

variable {r : Region}

theorem unmarked_isSpace : Unmarked isSpace := by
  decide

theorem unmarked_isIdentifierStart : Unmarked isIdentifierStart := by
  decide +kernel

theorem unmarked_isIdentifierChar : Unmarked isIdentifierChar := by
  decide +kernel

/-- A word of a class ends before a character that is not of the class. -/
theorem takeWhile_append {holds : Char → Bool} {rest : List Char} (word : List Char)
    (hword : ∀ c ∈ word, holds c = true) (hrest : rest.head?.any holds = false) :
    (word ++ rest).takeWhile holds = word ∧ (word ++ rest).dropWhile holds = rest := by
  rw [List.takeWhile_append_of_pos hword, List.dropWhile_append_of_pos hword]
  cases rest with
  | nil => simp
  | cons c rest =>
    have hc : holds c = false := by simpa using hrest
    simp [hc]

theorem reads_takeWhile {holds : Char → Bool} (h : Unmarked holds) :
    Reads r (fun _ => True) (takeWhile holds) := by
  intro cs a rest _ hread
  cases hread
  exact ⟨spans_dropWhile h cs, trivial⟩

theorem reads_takeSome {holds : Char → Bool} (h : Unmarked holds) :
    Reads r (fun _ => True) (takeSome holds) := by
  intro cs a rest _ hread
  unfold takeSome at hread
  split at hread
  · cases hread
  · cases hread
    exact ⟨spans_dropWhile h cs, trivial⟩

theorem reads_char {c : Char} (h : c ∉ marks) : Reads r (fun _ => True) (char c) := by
  intro cs a rest _ hread
  unfold char satisfy at hread
  split at hread
  · cases hread
  · split at hread
    · rename_i heq
      cases hread
      cases beq_iff_eq.mp heq
      exact ⟨spans_of_notMem h .stop, trivial⟩
    · cases hread

theorem reads_word {chars : List Char} (h : Unmarked chars.contains) :
    Reads r (fun _ => True) (word chars) := by
  intro cs a rest _ hread
  unfold word at hread
  split at hread
  · rename_i hdrop
    cases hread
    rw [Text.dropStart?_eq_some_iff.mp hdrop]
    exact ⟨spans_append h, trivial⟩
  · cases hread

theorem reads_notFollowedBy (holds : Char → Bool) :
    Reads r (fun _ => True) (notFollowedBy holds) := by
  intro cs a rest _ hread
  unfold notFollowedBy at hread
  split at hread
  · cases hread
    exact ⟨.stop, trivial⟩
  · split at hread
    · cases hread
    · cases hread
      exact ⟨.stop, trivial⟩

theorem reads_keyword {name : String} (h : Unmarked name.toList.contains) :
    Reads r (fun _ => True) (keyword name) :=
  reads_bind (reads_word h) fun _ _ => reads_notFollowedBy _

theorem reads_spaces : Reads r (fun _ => True) spaces :=
  reads_takeWhile unmarked_isSpace

theorem reads_someSpaces : Reads r (fun _ => True) someSpaces :=
  reads_takeSome unmarked_isSpace

theorem identifier_cons (c : Char) (cs : List Char) :
    identifier (c :: cs) =
      if isIdentifierStart c then
        .found (String.ofList (c :: cs.takeWhile isIdentifierChar)) (cs.dropWhile isIdentifierChar)
      else .missed ⟨.missing none, c :: cs⟩ := by
  unfold identifier
  simp only [bind, satisfy]
  by_cases hstart : isIdentifierStart c
  · simp only [hstart, if_true]
    rfl
  · simp only [hstart, Bool.false_eq_true, if_false]

theorem variableName_cons (c : Char) (cs : List Char) :
    variableName (c :: cs) =
      if c = '$' then
        .found (String.ofList (c :: cs.takeWhile isIdentifierChar)) (cs.dropWhile isIdentifierChar)
      else .missed ⟨.missing none, c :: cs⟩ := by
  unfold variableName char
  simp only [bind, satisfy, beq_iff_eq]
  by_cases hsign : c = '$'
  · simp only [hsign, if_true]
    rfl
  · simp only [hsign, if_false]

/-- A word of characters of identifiers after its first character. -/
theorem spans_word {c : Char} (hc : c ∉ marks) (cs : List Char) :
    Spans NoMark (c :: cs) (cs.dropWhile isIdentifierChar) :=
  spans_of_notMem hc (spans_dropWhile unmarked_isIdentifierChar cs)

theorem word_of_text {c : Char} {cs : List Char} (hc : c ∉ marks) (h : r.text (c :: cs)) :
    r.word (c :: cs.takeWhile isIdentifierChar) := by
  have htext : r.text ((c :: cs.takeWhile isIdentifierChar) ++ cs.dropWhile isIdentifierChar) := by
    simpa using h
  refine r.take htext ?_
  rw [List.forall_mem_cons]
  exact ⟨hc, fun d hd => unmarked_isIdentifierChar.notMem (List.mem_takeWhile_imp hd)⟩

theorem reads_identifier : Reads r (IdentifierOf r.word) identifier := by
  intro cs name rest hcs hread
  cases cs with
  | nil => cases hread
  | cons c cs =>
    rw [identifier_cons] at hread
    split at hread
    · rename_i hstart
      cases hread
      have hc := unmarked_isIdentifierStart.notMem hstart
      refine ⟨spans_word hc cs, ⟨c, _, String.toList_ofList, hstart, ?_⟩, ?_⟩
      · exact fun d hd => List.mem_takeWhile_imp hd
      · rw [String.toList_ofList]
        exact word_of_text hc hcs
    · cases hread

theorem reads_variableName : Reads r (VariableOf r.word) variableName := by
  intro cs name rest hcs hread
  cases cs with
  | nil => cases hread
  | cons c cs =>
    rw [variableName_cons] at hread
    split at hread
    · rename_i hsign
      subst hsign
      cases hread
      have hc : '$' ∉ marks := by decide
      refine ⟨spans_word hc cs, ⟨_, String.toList_ofList, ?_⟩, ?_⟩
      · exact fun d hd => List.mem_takeWhile_imp hd
      · rw [String.toList_ofList]
        exact word_of_text hc hcs
    · cases hread

theorem reads_field : Reads r (IdentifierOf r.word) field :=
  reads_bind (reads_char (by decide)) fun _ _ => reads_identifier

theorem reads_fields : Reads r (fun fs => ∀ f ∈ fs, IdentifierOf r.word f) fields :=
  reads_many reads_field

/-- A keyword is found where it stands and no longer word does. -/
theorem keyword_append (name : String) {rest : List Char}
    (hrest : rest.head?.any isIdentifierChar = false) :
    keyword name (name.toList ++ rest) = .found () rest := by
  have hword : word name.toList (name.toList ++ rest) = .found () rest := by
    simp [word, Text.dropStart?_eq_some_iff.mpr]
  refine bind_eq_found_iff.mpr ⟨(), rest, hword, ?_⟩
  cases rest with
  | nil => rfl
  | cons c rest =>
    have hc : isIdentifierChar c = false := by simpa using hrest
    simp [notFollowedBy, hc]

/-- What is read as an identifier is no keyword that was not found before. -/
theorem ne_of_keyword_missed {cs rest : List Char} {name keyword : String} {fault : Fault}
    (hread : identifier cs = .found name rest)
    (hmissed : Scan.keyword keyword cs = .missed fault) : name ≠ keyword := by
  rintro rfl
  cases cs with
  | nil => cases hread
  | cons c cs =>
    rw [identifier_cons] at hread
    split at hread
    · cases hread
      have hafter : (cs.dropWhile isIdentifierChar).head?.any isIdentifierChar = false := by
        have hhead := List.head?_dropWhile_not isIdentifierChar cs
        cases hd : (cs.dropWhile isIdentifierChar).head? <;> simp_all
      have hfound := keyword_append (String.ofList (c :: cs.takeWhile isIdentifierChar)) hafter
      rw [String.toList_ofList, List.cons_append, List.takeWhile_append_dropWhile, hmissed] at hfound
      cases hfound
    · cases hread

theorem reads_boolean : Reads r (fun _ => True) boolean :=
  reads_orElse (reads_bind (reads_keyword (by decide)) fun _ _ => reads_pure trivial)
    (reads_bind (reads_keyword (by decide)) fun _ _ => reads_pure trivial)

theorem reads_string : Reads r (fun _ => True) string :=
  fun _ _ _ _ hread => ⟨.literal hread .stop, trivial⟩

end Words

/-! ### Numbers -/

section Numbers

variable {cs rest : List Char} {n : Numeral}

theorem unmarked_isHexDigit : Unmarked fun c => Text.isHexDigit c || c == '_' := by
  decide

theorem unmarked_isDigit : Unmarked Char.isDigit := by
  decide

theorem unmarked_isDigit_or : Unmarked fun c => c.isDigit || c == '_' := by
  decide

/-- A dash before a digit is the sign of a number. -/
theorem spans_dash (h : cs.head?.any Char.isDigit = true) (hrest : Spans NoMark cs rest) :
    Spans NoMark ('-' :: cs) rest :=
  .char (by decide) (by decide) ⟨by decide, by decide, fun _ => h⟩ hrest

theorem spans_readBased? (h : readBased? cs = some (n, rest)) :
    cs.head?.any Char.isDigit = true ∧ Spans NoMark cs rest := by
  unfold readBased? at h
  split at h
  · rename_i mark after
    obtain ⟨base, hbase, h⟩ := Option.bind_eq_some_iff.mp h
    have hmark : mark ∉ marks := by
      have hunmarked : Unmarked fun c => (baseOf? c).isSome := by decide
      refine hunmarked.notMem ?_
      rw [hbase]
      rfl
    dsimp only at h
    split at h
    · cases h
    · cases h
      refine ⟨rfl, spans_of_notMem (by decide) (spans_of_notMem hmark ?_)⟩
      exact spans_dropWhile unmarked_isHexDigit after
  · cases h

theorem head?_of_takeWhile {holds : Char → Bool} (h : (cs.takeWhile holds).isEmpty = false) :
    cs.head?.any holds = true := by
  cases cs with
  | nil => cases h
  | cons c cs =>
    cases hc : holds c with
    | true => exact hc
    | false => simp [hc] at h

theorem spans_readExponent (cs : List Char) : Spans NoMark cs (readExponent cs).2 := by
  unfold readExponent
  split
  · rename_i c rest
    split
    · rename_i hletter
      have hmark : c ∉ marks := by
        rcases hletter with rfl | rfl <;> decide
      split
      rename_i negative digits hsign
      split
      rename_i read after hspan
      cases hspan
      split
      · exact .stop
      · rename_i hdigits
        have hdigit := head?_of_takeWhile (Bool.eq_false_iff.mpr hdigits)
        refine spans_of_notMem hmark ?_
        have hafter := spans_dropWhile unmarked_isDigit digits
        split at hsign
        · cases hsign
          exact spans_dash hdigit hafter
        · cases hsign
          exact spans_of_notMem (by decide) hafter
        · cases hsign
          exact hafter
    · exact .stop
  · exact .stop

theorem spans_readDecimal? (h : readDecimal? cs = some (n, rest)) :
    cs.head?.any Char.isDigit = true ∧ Spans NoMark cs rest := by
  unfold readDecimal? at h
  split at h
  · rename_i hdigit
    refine ⟨by cases cs <;> simp_all, ?_⟩
    have hwhole := spans_dropWhile unmarked_isDigit_or cs
    dsimp only at h
    split at h
    · rename_i fraction hpoint
      cases h
      rw [hpoint] at hwhole
      refine hwhole.trans (spans_of_notMem (by decide) ?_)
      exact (spans_dropWhile unmarked_isDigit_or fraction).trans (spans_readExponent _)
    · cases h
      exact hwhole.trans (spans_readExponent _)
  · cases h

theorem reads_number {r : Region} : Reads r (fun _ => True) number := by
  intro cs n rest _ hread
  unfold number at hread
  split at hread
  rename_i negative unsigned hsign
  split at hread
  · cases hread
  · rename_i numeral after hnumeral
    have hunsigned : unsigned.head?.any Char.isDigit = true ∧ Spans NoMark unsigned after := by
      rcases Option.or_eq_some_iff.mp hnumeral with hbased | ⟨-, hdecimal⟩
      · exact spans_readBased? hbased
      · exact spans_readDecimal? hdecimal
    have hcs : Spans NoMark cs after := by
      split at hsign
      · cases hsign
        exact spans_dash hunsigned.1 hunsigned.2
      · cases hsign
        exact spans_of_notMem (by decide) hunsigned.2
      · cases hsign
        exact hunsigned.2
    split at hread
    · split at hread
      · cases hread
        exact ⟨hcs, trivial⟩
      · cases hread
    · cases hread

end Numbers

/-! ### Operands and commands -/

section Pipelines

variable {r : Region} {inner : Scan Pipeline}

/-- What is asked of a scanner of pipelines that sets no variables. -/
abbrev ReadsPipelines (r : Region) (p : Scan Pipeline) : Prop :=
  Reads r (fun p => p.Lexical r.word ∧ p.names = []) p

theorem reads_parenthesized (hinner : ReadsPipelines r inner) :
    Reads r (Operand.Lexical r.word) (parenthesized inner) := by
  refine reads_bind (reads_char (by decide)) fun _ _ => reads_bind reads_spaces fun _ _ => ?_
  refine reads_bind (reads_commit hinner) fun p hp => ?_
  refine reads_bind reads_spaces fun _ _ => ?_
  refine reads_bind (reads_commit (reads_within _ (reads_char (by decide)))) fun _ _ => ?_
  exact reads_pure (.pipe hp.1 hp.2)

theorem boolean_missed {cs : List Char} {fault : Fault} (h : boolean cs = .missed fault) :
    (∃ fault, keyword "true" cs = .missed fault) ∧ ∃ fault, keyword "false" cs = .missed fault := by
  unfold boolean at h
  cases htrue : keyword "true" cs <;> cases hfalse : keyword "false" cs <;>
    simp [HOrElse.hOrElse, OrElse.orElse, Scan.orElse, bind, htrue, hfalse, pure] at h ⊢

theorem reads_term (hinner : ReadsPipelines r inner) :
    Reads r (Operand.Lexical r.word) (term inner) := by
  intro cs o rest hcs hread
  rcases orElse_eq_found_iff.mp hread with h | ⟨-, hread⟩
  · exact reads_parenthesized hinner cs o rest hcs h
  rcases orElse_eq_found_iff.mp hread with h | ⟨-, hread⟩
  · exact reads_map reads_string (fun _ _ => .string) cs o rest hcs h
  rcases orElse_eq_found_iff.mp hread with h | ⟨-, hread⟩
  · exact reads_map reads_number (fun _ _ => .number) cs o rest hcs h
  rcases orElse_eq_found_iff.mp hread with h | ⟨⟨_, hboolean⟩, hread⟩
  · exact reads_map reads_boolean (fun _ _ => .bool) cs o rest hcs h
  rcases orElse_eq_found_iff.mp hread with h | ⟨⟨_, hnil⟩, hread⟩
  · exact reads_bind (reads_keyword (by decide)) (fun _ _ => reads_pure .nil) cs o rest hcs h
  rcases orElse_eq_found_iff.mp hread with h | ⟨-, hread⟩
  · exact reads_map (reads_oneOrMore reads_field) (fun _ hfields => .field hfields.1 hfields.2)
      cs o rest hcs h
  rcases orElse_eq_found_iff.mp hread with h | ⟨-, hread⟩
  · exact reads_bind (reads_char (by decide)) (fun _ _ => reads_pure .dot) cs o rest hcs h
  rcases orElse_eq_found_iff.mp hread with h | ⟨-, hread⟩
  · exact reads_bind reads_variableName (fun _ hname => reads_bind reads_fields fun _ hfields =>
      reads_pure (.var hname hfields)) cs o rest hcs h
  -- The words for the truth values and for null were looked for before.
  obtain ⟨name, middle, hname, h⟩ := bind_eq_found_iff.mp hread
  cases h
  obtain ⟨hspans, hlexical⟩ := reads_identifier cs name _ hcs hname
  obtain ⟨⟨_, htrue⟩, ⟨_, hfalse⟩⟩ := boolean_missed (map_eq_missed_iff.mp hboolean)
  refine ⟨hspans, .identifier hlexical ?_⟩
  simp only [literalWords, List.mem_cons, List.not_mem_nil, or_false, not_or]
  exact ⟨ne_of_keyword_missed hname htrue, ne_of_keyword_missed hname hfalse,
    ne_of_keyword_missed hname (map_eq_missed_iff.mp hnil)⟩

theorem reads_operand (hinner : ReadsPipelines r inner) :
    Reads r (Operand.Lexical r.word) (operand inner) := by
  refine reads_bind (reads_term hinner) fun o ho => ?_
  split
  · refine reads_bind reads_fields fun path hpath => reads_pure ?_
    split
    · exact ho
    · rename_i p hne
      cases ho with
      | pipe hp hnames => exact .chain hp hnames (by simpa using hne) hpath
  · exact reads_pure ho

variable (locate : List Char → Pos)

theorem reads_command (hinner : ReadsPipelines r inner) :
    Reads r (Command.Lexical r.word) (command locate inner) := by
  refine reads_bind reads_here fun start _ => ?_
  refine reads_bind (reads_within _ (reads_operand hinner)) fun first hfirst => ?_
  refine reads_bind (reads_many (reads_bind reads_someSpaces fun _ _ => reads_operand hinner))
    fun others hothers => ?_
  exact reads_pure (.mk (List.cons_ne_nil _ _) (by simpa using ⟨hfirst, hothers⟩))

/-! ### Pipelines -/

/-- What holds of the names on the left of a declaration or an assignment. -/
structure DeclaredOf (W : List Char → Prop) (declared : List String × Bool) : Prop where
  nonempty : declared.1 ≠ []
  atMost : declared.1.length ≤ 2
  names : ∀ x ∈ declared.1, VariableOf W x

theorem reads_declaration : Reads r (DeclaredOf r.word) declaration := by
  refine reads_bind reads_variableName fun first hfirst => ?_
  refine reads_bind (Q := fun o => ∀ x ∈ o, VariableOf r.word x) ?_ fun second hsecond => ?_
  · refine reads_optional (reads_bind reads_spaces fun _ _ => ?_)
    refine reads_bind (reads_char (by decide)) fun _ _ => ?_
    exact reads_bind reads_spaces fun _ _ => reads_variableName
  · refine reads_bind reads_spaces fun _ _ => ?_
    refine reads_bind (Q := fun _ => True) (reads_orElse ?_ ?_) fun _ _ => ?_
    · exact reads_bind (reads_word (by decide)) fun _ _ => reads_pure trivial
    · exact reads_bind (reads_char (by decide)) fun _ _ => reads_bind (reads_notFollowedBy _) fun _ _ =>
        reads_pure trivial
    · refine reads_bind reads_spaces fun _ _ => reads_pure ⟨List.cons_ne_nil _ _, ?_, ?_⟩
      · cases second <;> simp
      · simpa using ⟨hfirst, hsecond⟩

/-- What may stand before the commands of a pipeline. -/
def leading (declares : Bool) : Scan (Option (List String × Bool)) :=
  if declares then optional declaration else pure none

/-- A command after others. -/
def laterCommand (inner : Scan Pipeline) : Scan Command := do
  let _ ← spaces
  let _ ← char '|'
  let _ ← spaces
  commit (command locate inner)

theorem pipelineWith_eq (declares : Bool) (inner : Scan Pipeline) :
    pipelineWith locate declares inner = (do
      let start ← here
      let names ← leading declares
      let first ← command locate inner
      let others ← many (laterCommand locate inner)
      let (names, assigns) := names.getD ([], false)
      return ⟨locate start, assigns, names, first :: others⟩) := by
  cases declares <;> rfl

theorem reads_leading (declares : Bool) :
    Reads r (fun o => (declares = false → o = none) ∧ ∀ d ∈ o, DeclaredOf r.word d)
      (leading declares) := by
  cases declares with
  | false => exact reads_pure ⟨fun _ => rfl, by simp⟩
  | true => exact (reads_optional reads_declaration).mono fun _ ho => ⟨by simp, ho⟩

theorem reads_laterCommand (hinner : ReadsPipelines r inner) :
    Reads r (Command.Lexical r.word) (laterCommand locate inner) := by
  refine reads_bind reads_spaces fun _ _ => reads_bind (reads_char (by decide)) fun _ _ => ?_
  exact reads_bind reads_spaces fun _ _ => reads_commit (reads_command locate hinner)

theorem reads_pipelineWith (declares : Bool) (hinner : ReadsPipelines r inner) :
    Reads r (fun p => p.Lexical r.word ∧ (declares = false → p.names = []))
      (pipelineWith locate declares inner) := by
  rw [pipelineWith_eq]
  refine reads_bind reads_here fun start _ => ?_
  refine reads_bind (reads_leading declares) fun names hnames => ?_
  refine reads_bind (reads_command locate hinner) fun first hfirst => ?_
  refine reads_bind (reads_many (reads_laterCommand locate hinner)) fun others hothers =>
    reads_pure ?_
  have hcommands : ∀ c ∈ first :: others, c.Lexical r.word := by simpa using ⟨hfirst, hothers⟩
  cases names with
  | none => exact ⟨.mk (List.cons_ne_nil _ _) hcommands (by simp) (by simp) (by simp), by simp⟩
  | some declared =>
    obtain ⟨hnone, hdeclared⟩ := hnames
    obtain ⟨hne, hmost, hvariables⟩ := hdeclared declared rfl
    exact ⟨.mk (List.cons_ne_nil _ _) hcommands hmost hvariables fun h => absurd h hne,
      fun h => nomatch hnone h⟩

theorem reads_nested (depth : Nat) : ReadsPipelines r (nested locate depth) := by
  induction depth with
  | zero => exact reads_within _ reads_miss
  | succ depth ih => exact (reads_pipelineWith locate false ih).mono fun _ hp => hp.imp_right (· rfl)

theorem reads_pipeline (declares : Bool) : Reads r (Pipeline.Lexical r.word) (pipeline locate declares) :=
  fun cs => ((reads_pipelineWith locate declares (reads_nested locate cs.length)).mono
    fun _ hp => hp.1) cs

theorem reads_data : ReadsPipelines r (pipeline locate false) :=
  fun cs => ((reads_pipelineWith locate false (reads_nested locate cs.length)).mono
    fun _ hp => hp.imp_right (· rfl)) cs

/-! ### What pipelines start with -/

theorem exists_of_bind_found {α β : Type} {p : Scan α} {f : α → Scan β} {cs rest : List Char}
    {b : β} (h : (p >>= f) cs = .found b rest) : ∃ a cs, f a cs = .found b rest := by
  obtain ⟨a, middle, -, h⟩ := bind_eq_found_iff.mp h
  exact ⟨a, middle, h⟩

/-- An operand that is read as a function is an identifier. -/
theorem identifier_of_term {cs rest : List Char} {name : String}
    (h : term inner cs = .found (.identifier name) rest) : identifier cs = .found name rest := by
  have hmap : ∀ {α : Type} {f : α → Operand} {p : Scan α},
      (f <$> p) cs = .found (.identifier name) rest → ∃ a, f a = .identifier name := by
    intro α f p h
    obtain ⟨a, _, -, h⟩ := bind_eq_found_iff.mp h
    exact ⟨a, (Scanned.found.inj h).1⟩
  -- The forms that are tried before are no functions.
  rcases orElse_eq_found_iff.mp h with h | ⟨-, h⟩
  · obtain ⟨_, _, h⟩ := exists_of_bind_found h
    obtain ⟨_, _, h⟩ := exists_of_bind_found h
    obtain ⟨_, _, h⟩ := exists_of_bind_found h
    obtain ⟨_, _, h⟩ := exists_of_bind_found h
    obtain ⟨_, _, h⟩ := exists_of_bind_found h
    cases h
  rcases orElse_eq_found_iff.mp h with h | ⟨-, h⟩
  · obtain ⟨_, h⟩ := hmap h
    cases h
  rcases orElse_eq_found_iff.mp h with h | ⟨-, h⟩
  · obtain ⟨_, h⟩ := hmap h
    cases h
  rcases orElse_eq_found_iff.mp h with h | ⟨-, h⟩
  · obtain ⟨_, h⟩ := hmap h
    cases h
  rcases orElse_eq_found_iff.mp h with h | ⟨-, h⟩
  · obtain ⟨_, _, h⟩ := exists_of_bind_found h
    cases h
  rcases orElse_eq_found_iff.mp h with h | ⟨-, h⟩
  · obtain ⟨_, h⟩ := hmap h
    cases h
  rcases orElse_eq_found_iff.mp h with h | ⟨-, h⟩
  · obtain ⟨_, _, h⟩ := exists_of_bind_found h
    cases h
  rcases orElse_eq_found_iff.mp h with h | ⟨-, h⟩
  · obtain ⟨_, _, h⟩ := exists_of_bind_found h
    obtain ⟨_, _, h⟩ := exists_of_bind_found h
    cases h
  obtain ⟨_, middle, hname, h⟩ := bind_eq_found_iff.mp h
  cases h
  exact hname

theorem identifier_of_operand {cs rest : List Char} {name : String}
    (h : operand inner cs = .found (.identifier name) rest) : identifier cs = .found name rest := by
  obtain ⟨o, middle, hterm, h⟩ := bind_eq_found_iff.mp h
  cases o with
  | pipe p =>
    obtain ⟨path, _, h⟩ := exists_of_bind_found h
    cases path <;> cases h
  | identifier =>
    cases h
    exact identifier_of_term hterm
  | _ => cases h

theorem identifier_of_command {cs rest : List Char} {c : Command} {name : String}
    (h : command locate inner cs = .found c rest) (hname : c.function? = some name) :
    ∃ rest, identifier cs = .found name rest := by
  obtain ⟨start, _, hhere, h⟩ := bind_eq_found_iff.mp h
  cases hhere
  obtain ⟨o, middle, hoperand, h⟩ := bind_eq_found_iff.mp h
  obtain ⟨others, _, -, h⟩ := bind_eq_found_iff.mp h
  cases h
  unfold Command.function? at hname
  split at hname
  · rename_i heq
    cases hname
    cases heq
    unfold within at hoperand
    split at hoperand
    · cases hoperand
    · cases hoperand
    · exact ⟨middle, identifier_of_operand hoperand⟩
  · cases hname

/-- A pipeline without names on its left that starts with a function starts with an identifier. -/
theorem identifier_of_pipeline {cs rest : List Char} {p : Pipeline} {declares : Bool}
    (h : pipelineWith locate declares inner cs = .found p rest) (hnames : p.names = [])
    {c : Command} (hc : c ∈ p.commands.head?) {name : String} (hname : name ∈ c.function?) :
    ∃ rest, identifier cs = .found name rest := by
  rw [pipelineWith_eq] at h
  obtain ⟨start, _, hhere, h⟩ := bind_eq_found_iff.mp h
  cases hhere
  obtain ⟨declared, after, hleading, h⟩ := bind_eq_found_iff.mp h
  obtain ⟨first, middle, hfirst, h⟩ := bind_eq_found_iff.mp h
  obtain ⟨others, _, -, h⟩ := bind_eq_found_iff.mp h
  cases h
  cases hc
  -- Nothing was declared, so nothing was read before the first command.
  have hafter : after = cs := by
    cases declares with
    | false =>
      cases hleading
      rfl
    | true =>
      change optional declaration cs = _ at hleading
      unfold optional at hleading
      split at hleading
      · rename_i d middle hdeclared
        cases hleading
        have hne := (reads_declaration (r := .anywhere) cs d after trivial hdeclared).2.nonempty
        exact absurd hnames hne
      · cases hleading
        rfl
      · cases hleading
  rw [hafter] at hfirst
  exact identifier_of_command locate hfirst hname

/-! ### Keywords -/

/-- The clauses that start with a keyword, in the order in which they are tried. -/
def keyed : List (String × Scan Clause) :=
  [("if", Clause.control .cond <$> control locate .cond .cond),
   ("else", elseClause locate),
   ("end", do keyword "end"; return .close),
   ("range", Clause.control .range <$> control locate .range .range),
   ("with", Clause.control .scope <$> control locate .scope .scope),
   ("define", definition),
   ("template", invocation locate),
   ("block", block locate),
   ("break", do keyword "break"; return .jump .leave),
   ("continue", do keyword "continue"; return .jump .next)]

/-- The first of the scanners that does not miss, or the last one. -/
def firstOf (scanners : List (String × Scan Clause)) (last : Scan Clause) : Scan Clause :=
  scanners.foldr (fun s others => s.2 <|> others) last

theorem clause_eq : clause locate = firstOf (keyed locate) (Clause.pipeline <$> pipeline locate true) :=
  rfl

theorem keyed_keywords : (keyed locate).map Prod.fst = keywords :=
  rfl

theorem firstOf_eq_found {scanners : List (String × Scan Clause)} {last : Scan Clause}
    {cs rest : List Char} {c : Clause} (h : firstOf scanners last cs = .found c rest) :
    (∃ s ∈ scanners, s.2 cs = .found c rest) ∨
      (∀ s ∈ scanners, ∃ fault, s.2 cs = .missed fault) ∧ last cs = .found c rest := by
  induction scanners with
  | nil => exact .inr ⟨by simp, h⟩
  | cons s scanners ih =>
    rcases orElse_eq_found_iff.mp h with h | ⟨hmissed, h⟩
    · exact .inl ⟨s, List.mem_cons_self, h⟩
    · rcases ih h with ⟨t, ht, h⟩ | ⟨hall, h⟩
      · exact .inl ⟨t, List.mem_cons_of_mem _ ht, h⟩
      · exact .inr ⟨List.forall_mem_cons.mpr ⟨hmissed, hall⟩, h⟩

/-- The scanner does not miss: it finds something, or it fails. -/
def Insists {α : Type} (p : Scan α) : Prop :=
  ∀ cs fault, p cs ≠ .missed fault

section Insists

variable {α β : Type}

theorem insists_pure (a : α) : Insists (pure a : Scan α) := by
  intro cs fault h
  cases h

theorem insists_spaces : Insists spaces := by
  intro cs fault h
  cases h

theorem insists_commit (p : Scan α) : Insists (commit p) := by
  intro cs fault h
  unfold commit at h
  split at h
  · cases h
  · rename_i hmissed
    exact hmissed fault h

theorem bind_eq_missed {p : Scan α} {f : α → Scan β} (hf : ∀ a, Insists (f a)) {cs : List Char}
    {fault : Fault} (h : (p >>= f) cs = .missed fault) : p cs = .missed fault := by
  cases hp : p cs with
  | found a rest => exact absurd (by simpa [bind, hp] using h) (hf a rest fault)
  | missed fault' => simpa [bind, hp] using h
  | failed fault' => simp [bind, hp] at h

theorem Insists.bind {p : Scan α} {f : α → Scan β} (hp : Insists p) (hf : ∀ a, Insists (f a)) :
    Insists (p >>= f) :=
  fun cs fault h => hp cs fault (bind_eq_missed hf h)

theorem insists_orElse {p q : Scan α} (hq : Insists q) : Insists (p <|> q) := by
  intro cs fault h
  cases hp : p cs with
  | found a rest => simp [HOrElse.hOrElse, OrElse.orElse, Scan.orElse, hp] at h
  | missed fault' =>
    refine hq cs fault ?_
    simpa [HOrElse.hOrElse, OrElse.orElse, Scan.orElse, hp] using h
  | failed fault' => simp [HOrElse.hOrElse, OrElse.orElse, Scan.orElse, hp] at h

end Insists

theorem control_missed {kind : Control} {construct : Construct} {cs : List Char} {fault : Fault}
    (h : control locate kind construct cs = .missed fault) :
    keyword kind.keyword cs = .missed fault :=
  bind_eq_missed (fun _ => insists_spaces.bind fun _ => insists_commit _) h

/-- A clause with a keyword is missed only where its keyword is. -/
theorem keyword_missed {s : String × Scan Clause} (hs : s ∈ keyed locate) {cs : List Char}
    {fault : Fault} (h : s.2 cs = .missed fault) : keyword s.1 cs = .missed fault := by
  have hcontrol : ∀ (kind : Control) {construct : Construct},
      (Clause.control kind <$> control locate kind construct) cs = .missed fault →
      keyword kind.keyword cs = .missed fault :=
    fun kind _ h => control_missed locate (map_eq_missed_iff.mp h)
  simp only [keyed, List.mem_cons, List.not_mem_nil, or_false] at hs
  rcases hs with rfl | rfl | rfl | rfl | rfl | rfl | rfl | rfl | rfl | rfl
  · exact hcontrol .cond h
  · exact bind_eq_missed (fun _ => insists_orElse (insists_orElse (insists_pure _))) h
  · exact bind_eq_missed (fun _ => insists_pure _) h
  · exact hcontrol .range h
  · exact hcontrol .scope h
  · refine bind_eq_missed (fun _ => insists_spaces.bind fun _ => ?_) h
    exact (insists_commit _).bind fun _ => insists_pure _
  · refine bind_eq_missed (fun _ => insists_spaces.bind fun _ => ?_) h
    exact (insists_commit _).bind fun _ => (insists_commit _).bind fun _ => insists_pure _
  · refine bind_eq_missed (fun _ => insists_spaces.bind fun _ => ?_) h
    exact (insists_commit _).bind fun _ => (insists_commit _).bind fun _ => insists_pure _
  · exact bind_eq_missed (fun _ => insists_pure _) h
  · exact bind_eq_missed (fun _ => insists_pure _) h

/-! ### Clauses -/

/-- What is asked of a scanner of clauses. -/
abbrev ReadsClauses (r : Region) (p : Scan Clause) : Prop :=
  Reads r (Clause.Lexical r.word) p

theorem reads_control (kind : Control) (construct : Construct) :
    Reads r (Pipeline.Lexical r.word) (control locate kind construct) := by
  have hkeyword : Unmarked kind.keyword.toList.contains := by
    cases kind <;> decide
  refine reads_bind (reads_keyword hkeyword) fun _ _ => reads_bind reads_spaces fun _ _ => ?_
  exact reads_commit (reads_within construct (reads_pipeline locate true))

theorem reads_elseClause : ReadsClauses r (elseClause locate) := by
  have hcontrol : ∀ {kind : Control} {construct : Construct}, kind ≠ .range →
      ReadsClauses r (Clause.elseControl kind <$> do let _ ← spaces; control locate kind construct) :=
    fun hkind => reads_map (reads_bind reads_spaces fun _ _ => reads_control locate _ _)
      fun _ hp => ⟨hp, hkind⟩
  refine reads_bind (reads_keyword (by decide)) fun _ _ => ?_
  refine reads_orElse (hcontrol (by decide)) (reads_orElse (hcontrol (by decide)) ?_)
  exact reads_pure trivial

theorem reads_definition : ReadsClauses r definition := by
  refine reads_bind (reads_keyword (by decide)) fun _ _ => reads_bind reads_spaces fun _ _ => ?_
  refine reads_bind (reads_commit (reads_within _ reads_string)) fun name _ => ?_
  exact reads_pure trivial

theorem reads_invocation : ReadsClauses r (invocation locate) := by
  refine reads_bind (reads_keyword (by decide)) fun _ _ => reads_bind reads_spaces fun _ _ => ?_
  refine reads_bind (reads_commit (reads_within _ reads_string)) fun name _ => ?_
  refine reads_bind (reads_commit (reads_optional ?_)) fun data hdata => reads_pure hdata
  exact reads_bind reads_someSpaces fun _ _ => reads_data locate

theorem reads_block : ReadsClauses r (block locate) := by
  refine reads_bind (reads_keyword (by decide)) fun _ _ => reads_bind reads_spaces fun _ _ => ?_
  refine reads_bind (reads_commit (reads_within _ reads_string)) fun name _ => ?_
  refine reads_bind (reads_commit ?_) fun data hdata => reads_pure hdata
  exact reads_bind reads_someSpaces fun _ _ => reads_within _ (reads_data locate)

theorem reads_keyed : ∀ s ∈ keyed locate, ReadsClauses r s.2 := by
  have hcontrol : ∀ kind construct,
      ReadsClauses r (Clause.control kind <$> control locate kind construct) :=
    fun kind construct => reads_map (reads_control locate kind construct) fun p hp => hp
  have hkeyword : ∀ {name : String} {c : Clause}, Unmarked name.toList.contains →
      c.Lexical r.word → ReadsClauses r (keyword name >>= fun _ => pure c) :=
    fun hname hc => reads_bind (reads_keyword hname) fun _ _ => reads_pure hc
  simp only [keyed, List.forall_mem_cons, List.not_mem_nil, false_imp_iff, implies_true, and_true]
  refine ⟨hcontrol _ _, reads_elseClause locate, hkeyword (by decide) trivial, hcontrol _ _,
    hcontrol _ _, reads_definition, reads_invocation locate, reads_block locate,
    hkeyword (by decide) trivial, hkeyword (by decide) trivial⟩

theorem reads_clause : ReadsClauses r (clause locate) := by
  intro cs c rest hcs hread
  rw [clause_eq] at hread
  rcases firstOf_eq_found hread with ⟨s, hs, hread⟩ | ⟨hmissed, hread⟩
  · exact reads_keyed locate s hs cs c rest hcs hread
  -- The keywords were looked for before.
  · obtain ⟨p, middle, hp, h⟩ := bind_eq_found_iff.mp hread
    cases h
    obtain ⟨hspans, hlexical⟩ := reads_pipeline locate true cs p _ hcs hp
    refine ⟨hspans, hlexical, ?_⟩
    intro hnames c hc name hname hreserved
    obtain ⟨rest, hidentifier⟩ := identifier_of_pipeline locate hp hnames hc hname
    rw [← keyed_keywords locate, List.mem_map] at hreserved
    obtain ⟨s, hs, rfl⟩ := hreserved
    obtain ⟨fault, hfault⟩ := hmissed s hs
    exact ne_of_keyword_missed hidentifier (keyword_missed locate hs hfault) rfl

end Pipelines

end Scan

/-- The body of an action is passed over by whole string literals and characters that are no marks, and
it says what can be written in an action. -/
theorem lexical_readAction {r : Region} {body : List Char} {locate : List Char → Pos}
    {action : Action} (hbody : r.text body) (h : readAction locate body = .ok action) :
    Spans NoMark body [] ∧ action.clause.Lexical r.word := by
  have hstart : Spans NoMark body (trimStart body) := spans_dropWhile Scan.unmarked_isSpace body
  unfold readAction at h
  dsimp only at h
  split at h
  · cases h
  · split at h
    · rename_i clause rest hread
      obtain ⟨hclause, hlexical⟩ := Scan.reads_clause locate _ clause rest (r.rest hbody hstart) hread
      split at h
      · rename_i hrest
        cases h
        have hend : Spans NoMark rest (trimStart rest) := spans_dropWhile Scan.unmarked_isSpace rest
        rw [hrest] at hend
        exact ⟨hstart.trans (hclause.trans hend), hlexical⟩
      · cases h
    · cases h
    · cases h

theorem spans_readAction {body : List Char} {locate : List Char → Pos} {action : Action}
    (h : readAction locate body = .ok action) : Spans NoMark body [] :=
  (lexical_readAction (r := .anywhere) trivial h).1

end BoundQuery.Template
