/-
# Words and literals as they are spelled

Where the canonical spelling of a word or of a literal stands before something that ends it, scanners
find what was spelled, and the scanners of other forms find nothing.

Main statements: `keyword_misses`, `fields_append`, `quoted_render`, `number_append`.
-/

import BoundQuery.Proofs.Template.Numerals
import BoundQuery.Proofs.Template.Quotation
import BoundQuery.Template.Render

namespace BoundQuery.Template

namespace Scan

variable {α β : Type} {p q : Scan α} {f : α → Scan β} {cs middle rest : List Char} {a : α}

/-! ### Finding and missing -/

/-- At the front of the text the scanner misses what it looks for. -/
def Misses (p : Scan α) (cs : List Char) : Prop :=
  ∃ fault, p cs = .missed fault

theorem bind_of_found (h : p cs = .found a middle) : (p >>= f) cs = f a middle := by
  simp [bind, h]

theorem map_of_found (g : α → β) (h : p cs = .found a rest) : (g <$> p) cs = .found (g a) rest :=
  bind_eq_found_iff.mpr ⟨a, rest, h, rfl⟩

theorem orElse_of_found (h : p cs = .found a rest) : (p <|> q) cs = .found a rest :=
  orElse_eq_found_iff.mpr (.inl h)

theorem commit_of_found (h : p cs = .found a rest) : commit p cs = .found a rest := by
  rw [commit, h]

theorem within_of_found {construct : Construct} (h : p cs = .found a rest) :
    within construct p cs = .found a rest := by
  rw [within, h]

theorem optional_of_found (h : p cs = .found a rest) : optional p cs = .found (some a) rest := by
  rw [optional, h]

theorem many_of_found {as : List α} (h : p cs = .found a middle) (hless : middle.length < cs.length)
    (hmany : many p middle = .found as rest) : many p cs = .found (a :: as) rest := by
  rw [many]
  split
  · rename_i heq
    cases h.symm.trans heq
    rw [dif_pos hless, hmany]
  · rename_i heq
    cases h.symm.trans heq
  · rename_i heq
    cases h.symm.trans heq

namespace Misses

theorem orElse (h : Misses p cs) : (p <|> q) cs = q cs := by
  obtain ⟨fault, h⟩ := h
  simp [HOrElse.hOrElse, OrElse.orElse, Scan.orElse, h]

theorem bind (h : Misses p cs) (f : α → Scan β) : Misses (p >>= f) cs := by
  obtain ⟨fault, h⟩ := h
  exact ⟨fault, by simp [Bind.bind, h]⟩

theorem map (h : Misses p cs) (g : α → β) : Misses (g <$> p) cs := by
  obtain ⟨fault, h⟩ := h
  exact ⟨fault, map_eq_missed_iff.mpr h⟩

theorem both (hp : Misses p cs) (hq : Misses q cs) : Misses (p <|> q) cs := by
  obtain ⟨fault, hq⟩ := hq
  exact ⟨fault, hp.orElse.trans hq⟩

theorem within (h : Misses p cs) (construct : Construct) : Misses (within construct p) cs := by
  obtain ⟨fault, h⟩ := h
  exact ⟨Fault.within construct fault, by rw [Scan.within, h]⟩

theorem many (h : Misses p cs) : many p cs = .found [] cs := by
  obtain ⟨fault, h⟩ := h
  rw [Scan.many]
  split
  · rename_i heq
    cases h.symm.trans heq
  · rfl
  · rename_i heq
    cases h.symm.trans heq

theorem optional (h : Misses p cs) : optional p cs = .found none cs := by
  obtain ⟨fault, h⟩ := h
  simp [Scan.optional, h]

end Misses

theorem misses_of_found_bind (h : p cs = .found a middle) (hf : Misses (f a) middle) :
    Misses (p >>= f) cs := by
  obtain ⟨fault, hf⟩ := hf
  exact ⟨fault, (bind_of_found h).trans hf⟩

/-! ### Characters and white space -/

theorem misses_satisfy {holds : Char → Bool} (h : cs.head?.any holds = false) :
    Misses (satisfy holds) cs := by
  cases cs with
  | nil => exact ⟨_, rfl⟩
  | cons c cs =>
    have hc : holds c = false := by simpa using h
    exact ⟨⟨.missing none, c :: cs⟩, by simp [satisfy, hc]⟩

theorem misses_char {c : Char} (h : cs.head? ≠ some c) : Misses (char c) cs := by
  refine misses_satisfy ?_
  cases hhead : cs.head? with
  | none => rfl
  | some d =>
    rw [hhead] at h
    simpa using h

theorem char_cons (c : Char) (rest : List Char) : char c (c :: rest) = .found c rest := by
  simp [char, satisfy]

theorem spaces_append (blanks : List Char) (hblanks : ∀ c ∈ blanks, isSpace c = true)
    (hrest : rest.head?.any isSpace = false) : spaces (blanks ++ rest) = .found blanks rest := by
  obtain ⟨htake, hdrop⟩ := takeWhile_append _ hblanks hrest
  rw [spaces, takeWhile, htake, hdrop]

/-- Where no white space stands, none is read. -/
theorem spaces_none (hrest : rest.head?.any isSpace = false) : spaces rest = .found [] rest :=
  spaces_append [] (by simp) hrest

/-- The space that separates words in canonical spelling. -/
theorem spaces_cons (hrest : rest.head?.any isSpace = false) :
    spaces (' ' :: rest) = .found [' '] rest :=
  spaces_append [' '] (by simp [isSpace]) hrest

theorem someSpaces_cons (hrest : rest.head?.any isSpace = false) :
    someSpaces (' ' :: rest) = .found [' '] rest := by
  obtain ⟨htake, hdrop⟩ := takeWhile_append [' '] (by simp [isSpace]) hrest
  rw [List.singleton_append] at htake hdrop
  rw [someSpaces, takeSome, htake, hdrop]
  rfl

theorem misses_someSpaces (h : cs.head?.any isSpace = false) : Misses someSpaces cs := by
  obtain ⟨htake, -⟩ := takeWhile_append [] (by simp) h
  rw [List.nil_append] at htake
  exact ⟨_, by rw [someSpaces, takeSome, htake]; rfl⟩

/-! ### Words -/

theorem word_append (chars rest : List Char) : word chars (chars ++ rest) = .found () rest := by
  simp [word, Text.dropStart?_eq_some_iff.mpr]

theorem misses_word {c : Char} {chars : List Char} (h : cs.head? ≠ some c) :
    Misses (word (c :: chars)) cs := by
  refine ⟨⟨.missing none, cs⟩, ?_⟩
  cases cs with
  | nil => rfl
  | cons d cs =>
    have hne : c ≠ d := by simpa using Ne.symm (by simpa using h)
    simp [word, Text.dropStart?, hne]

/-- A keyword is not found where a longer or another word stands. -/
theorem keyword_misses {name : String} (chars : List Char)
    (hname : ∀ c ∈ name.toList, isIdentifierChar c = true)
    (hchars : ∀ c ∈ chars, isIdentifierChar c = true) (hne : chars ≠ name.toList)
    (hrest : rest.head?.any isIdentifierChar = false) : Misses (keyword name) (chars ++ rest) := by
  unfold keyword
  cases hdrop : Text.dropStart? name.toList (chars ++ rest) with
  | none =>
    refine Misses.bind ⟨⟨.missing none, chars ++ rest⟩, ?_⟩ _
    simp [word, hdrop]
  | some after =>
    have hword : word name.toList (chars ++ rest) = .found () after := by
      simp [word, hdrop]
    refine misses_of_found_bind hword ?_
    -- If the word ended here it would be the whole word that stands there.
    cases hafter : after.head?.any isIdentifierChar with
    | false =>
      have heq := Text.dropStart?_eq_some_iff.mp hdrop
      have hwhole := (takeWhile_append _ hchars hrest).1
      rw [heq, (takeWhile_append _ hname hafter).1] at hwhole
      exact absurd hwhole.symm hne
    | true =>
      cases after with
      | nil => cases hafter
      | cons c after =>
        have hc : isIdentifierChar c = true := by simpa using hafter
        exact ⟨⟨.missing none, c :: after⟩, by simp [notFollowedBy, hc]⟩

theorem identifier_append {name : String} (hname : IsIdentifier name)
    (hrest : rest.head?.any isIdentifierChar = false) :
    identifier (name.toList ++ rest) = .found name rest := by
  obtain ⟨c, cs, heq, hstart, hchars⟩ := hname
  obtain ⟨htake, hdrop⟩ := takeWhile_append _ hchars hrest
  rw [heq, List.cons_append, identifier_cons, if_pos hstart, htake, hdrop, ← heq,
    String.ofList_toList]

theorem misses_identifier (h : cs.head?.any isIdentifierStart = false) : Misses identifier cs :=
  (misses_satisfy h).bind _

theorem variableName_append {name : String} (hname : IsVariable name)
    (hrest : rest.head?.any isIdentifierChar = false) :
    variableName (name.toList ++ rest) = .found name rest := by
  obtain ⟨cs, heq, hchars⟩ := hname
  obtain ⟨htake, hdrop⟩ := takeWhile_append _ hchars hrest
  rw [heq, List.cons_append, variableName_cons, if_pos rfl, htake, hdrop, ← heq,
    String.ofList_toList]

theorem misses_variableName (h : cs.head? ≠ some '$') : Misses variableName cs :=
  (misses_char h).bind _

theorem misses_field (h : cs.head? ≠ some '.') : Misses field cs :=
  (misses_char h).bind _

theorem field_append {name : String} (hname : IsIdentifier name)
    (hrest : rest.head?.any isIdentifierChar = false) :
    field ('.' :: (name.toList ++ rest)) = .found name rest :=
  (bind_of_found (char_cons '.' _)).trans (identifier_append hname hrest)

theorem renderFields_cons (name : String) (names : List String) :
    renderFields (name :: names) = '.' :: (name.toList ++ renderFields names) := by
  simp [renderFields]

theorem head?_renderFields_append (names : List String) (rest : List Char) :
    (renderFields names ++ rest).head? = if names = [] then rest.head? else some '.' := by
  cases names with
  | nil => rfl
  | cons name names => simp [renderFields_cons]

/-- A word ends before fields where it ends before what follows them. -/
theorem word_ends_renderFields (names : List String)
    (hrest : rest.head?.any isIdentifierChar = false) :
    (renderFields names ++ rest).head?.any isIdentifierChar = false := by
  rw [head?_renderFields_append]
  split
  · exact hrest
  · rfl

theorem fields_append {names : List String} (hnames : ∀ f ∈ names, IsIdentifier f)
    (hdot : rest.head? ≠ some '.') (hrest : rest.head?.any isIdentifierChar = false) :
    fields (renderFields names ++ rest) = .found names rest := by
  induction names with
  | nil => exact (misses_field hdot).many
  | cons name names ih =>
    rw [List.forall_mem_cons] at hnames
    have hafter := word_ends_renderFields names hrest
    rw [renderFields_cons, List.cons_append, List.append_assoc]
    refine many_of_found (field_append hnames.1 hafter) ?_ (ih hnames.2)
    simp only [List.length_cons, List.length_append]
    omega

/-! ### Strings -/

/-- A character whose spelling is read as the character. -/
def Legible (c : Char) : Prop :=
  Text.Quoted.showsAlone c = true ∨ c ∈ ['"', '\\', '\n', '\t', '\r', '\x00']

/-- The spelling of a legible character is a unit. -/
theorem quotedUnit_escape {c : Char} (h : Legible c) :
    QuotedUnit plusOrNone (Text.Quoted.escape c) c := by
  by_cases hspecial : c ∈ ['"', '\\', '\n', '\t', '\r', '\x00']
  · simp only [List.mem_cons, List.not_mem_nil, or_false] at hspecial
    rcases hspecial with rfl | rfl | rfl | rfl | rfl | rfl <;>
      exact .short (by simp [shortEscapes])
  · have hshows : Text.Quoted.showsAlone c = true := h.resolve_right hspecial
    simp only [List.mem_cons, List.not_mem_nil, or_false, not_or] at hspecial
    obtain ⟨hquote, hescape, hline, htab, hreturn, hzero⟩ := hspecial
    have hspelling : Text.Quoted.escape c = [c] := by
      simp [Text.Quoted.escape, hshows]
    rw [hspelling]
    exact .plain hquote hescape hline

theorem quotedUnits_spell {chars : List Char} (h : ∀ c ∈ chars, Legible c) :
    QuotedUnits plusOrNone (chars.flatMap Text.Quoted.escape) chars := by
  induction chars with
  | nil => exact .nil
  | cons c chars ih =>
    rw [List.forall_mem_cons] at h
    exact .cons (quotedUnit_escape h.1) (ih h.2)

theorem spell_append (chars rest : List Char) :
    Text.Quoted.spell chars ++ rest =
      '"' :: (chars.flatMap Text.Quoted.escape ++ '"' :: rest) := by
  simp [Text.Quoted.spell]

theorem quoted_spell {s : String} (h : ∀ c ∈ s.toList, Legible c) (rest : List Char) :
    quoted (Text.Quoted.spell s.toList ++ rest) = .found s rest := by
  rw [spell_append, quoted_append (quotedUnits_spell h), String.ofList_toList]

/-- The canonical spelling of a legible string is read as the string. -/
theorem string_spell {s : String} (h : ∀ c ∈ s.toList, Legible c) (rest : List Char) :
    string (Text.Quoted.spell s.toList ++ rest) = .found s rest :=
  orElse_of_found (quoted_spell h rest)

/-- No digits stand after the letter of an escape, but a brace. -/
theorem escape?_brace (cs : List Char) : escape? ('u' :: '\x7b' :: cs) = none := by
  change numbered? 4 ('\x7b' :: cs) = none
  unfold numbered?
  split
  · rfl
  · rfl

theorem escape_of_not_legible {c : Char} (h : ¬ Legible c) :
    Text.Quoted.escape c = Text.Quoted.numbered c := by
  simp only [Legible, List.mem_cons, List.not_mem_nil, or_false, not_or] at h
  simp [Text.Quoted.escape, h]

/-- The first character that is not legible makes its spelling an escape that is refused. -/
theorem quoted_spell_illegible {before after : List Char} {c : Char} (h : ∀ d ∈ before, Legible d)
    (hc : ¬ Legible c) (rest : List Char) :
    quoted (Text.Quoted.spell (before ++ c :: after) ++ rest) =
      .failed ⟨.badEscape, Text.Quoted.numbered c ++
        (after.flatMap Text.Quoted.escape ++ '"' :: rest)⟩ := by
  have hstop : StopsUnits (Text.Quoted.numbered c ++ (after.flatMap Text.Quoted.escape ++ '"' :: rest)) :=
    .escape (escape?_brace _)
  have hspelled : (before ++ c :: after).flatMap Text.Quoted.escape ++ '"' :: rest =
      before.flatMap Text.Quoted.escape ++
        (Text.Quoted.numbered c ++ (after.flatMap Text.Quoted.escape ++ '"' :: rest)) := by
    simp [escape_of_not_legible hc]
  rw [spell_append, hspelled, quoted_cons, quotedFrom_units (quotedUnits_spell h)]
  rcases quotedFrom_stop hstop _ with ⟨_, heq, -⟩ | ⟨hopen, -⟩ | ⟨_, -, -, -, hfailed⟩
  · cases (List.cons.inj heq).1
  · rcases hopen with heq | heq | heq
    · cases heq
    · cases (List.cons.inj heq).2
    · cases heq
  · rw [hfailed]
    rfl

theorem exists_first_illegible {chars : List Char} (h : ¬ ∀ c ∈ chars, Legible c) :
    ∃ before c after, chars = before ++ c :: after ∧ (∀ d ∈ before, Legible d) ∧ ¬ Legible c := by
  classical
  obtain ⟨c, hmem, hc⟩ : ∃ c ∈ chars, ¬ Legible c := by simpa using h
  have hsome : (chars.find? fun c => decide ¬ Legible c).isSome :=
    List.find?_isSome.mpr ⟨c, hmem, decide_eq_true hc⟩
  obtain ⟨first, hfirst⟩ := Option.isSome_iff_exists.mp hsome
  obtain ⟨hillegible, before, after, heq, hbefore⟩ := List.find?_eq_some_iff_append.mp hfirst
  exact ⟨before, first, after, heq, fun d hd => by simpa using hbefore d hd, by simpa using hillegible⟩

/-- The canonical spelling of a string is read as the string if and only if its characters are
legible. The first one that is not is spelled by its number between braces, which is refused. -/
theorem quoted_render (s : String) (rest : List Char) :
    (quoted ((Operand.string s).render ++ rest) = .found s rest ↔ ∀ c ∈ s.toList, Legible c) ∧
      ∀ before c after, s.toList = before ++ c :: after → (∀ d ∈ before, Legible d) → ¬ Legible c →
        quoted ((Operand.string s).render ++ rest) =
          .failed ⟨.badEscape, Text.Quoted.numbered c ++
            (after.flatMap Text.Quoted.escape ++ '"' :: rest)⟩ := by
  rw [Operand.render]
  refine ⟨⟨fun hread => ?_, fun h => quoted_spell h rest⟩, fun before c after heq hbefore hc => ?_⟩
  · by_contra hnot
    obtain ⟨before, c, after, heq, hbefore, hc⟩ := exists_first_illegible hnot
    rw [heq, quoted_spell_illegible hbefore hc] at hread
    cases hread
  · rw [heq, quoted_spell_illegible hbefore hc]

/-- The bell has a letter of its own in literals, but canonical source spells it by its number. -/
theorem bell_unread :
    quoted ['"', '\\', 'a', '"'] = .found "\x07" [] ∧
      (Operand.string "\x07").render = ['"', '\\', 'u', '\x7b', '7', '\x7d', '"'] ∧
      quoted (Operand.string "\x07").render =
        .failed ⟨.badEscape, ['\\', 'u', '\x7b', '7', '\x7d', '"']⟩ := by
  have hbell : QuotedUnit plusOrNone ['\\', 'a'] '\x07' := .short (by simp [shortEscapes])
  have hillegible : ¬ Legible '\x07' := by
    unfold Legible
    decide +kernel
  have hrender : (Operand.string "\x07").render = ['"', '\\', 'u', '\x7b', '7', '\x7d', '"'] := by
    decide +kernel
  have hrefused : quoted (Text.Quoted.spell ([] ++ ['\x07']) ++ []) =
      .failed ⟨.badEscape, Text.Quoted.numbered '\x07' ++ ([] ++ ['"'])⟩ :=
    quoted_spell_illegible (List.forall_mem_nil _) hillegible []
  refine ⟨quoted_append (.cons hbell .nil) [], hrender, ?_⟩
  rw [hrender]
  exact hrefused

theorem misses_string (hquote : cs.head? ≠ some '"') (hraw : cs.head? ≠ some backQuote) :
    Misses string cs := by
  cases cs with
  | nil => exact ⟨_, rfl⟩
  | cons c cs =>
    have hc : c ≠ '"' := by simpa using hquote
    have hc' : c ≠ backQuote := by simpa using hraw
    refine Misses.both ⟨⟨.missing none, c :: cs⟩, ?_⟩ ⟨⟨.missing none, c :: cs⟩, ?_⟩
    · unfold quoted
      split
      · rename_i heq
        exact absurd (List.cons.inj heq).1 hc
      · rfl
    · simp [raw, hc']

/-! ### Numbers -/

theorem head?_toDigits (n : Nat) : ∃ d ds, Nat.toDigits 10 n = d :: ds ∧ d.isDigit = true := by
  obtain ⟨d, ds, heq⟩ := List.exists_cons_of_ne_nil (Nat.toDigits_ne_nil (n := n) (b := 10))
  have hmem : d ∈ Nat.toDigits 10 n := by
    rw [heq]
    exact List.mem_cons_self ..
  exact ⟨d, ds, heq, Nat.isDigit_of_mem_toDigits (by decide) (by decide) hmem⟩

theorem head?_printInteger (i : Int) : ∃ c, (Value.printInteger i).head? = some c ∧
    (c = '-' ∨ c.isDigit = true) := by
  cases i with
  | ofNat n =>
    obtain ⟨d, ds, hcons, hd⟩ := head?_toDigits n
    exact ⟨d, by simp [Value.printInteger, hcons], .inr hd⟩
  | negSucc n => exact ⟨'-', rfl, .inl rfl⟩

/-- A whole number is printed as its digits, after a sign if it is negative. -/
theorem exists_toDigits (i : Int) : ∃ sign n, Value.printInteger i = sign ++ Nat.toDigits 10 n ∧
    sign ∈ [[], ['+'], ['-']] ∧ i = if sign == ['-'] then -(n : Int) else n := by
  cases i with
  | ofNat n => exact ⟨[], n, rfl, by simp, rfl⟩
  | negSucc n => exact ⟨['-'], n + 1, rfl, by simp, rfl⟩

theorem ofDigits_toDigits (n : Nat) : Decimal.ofDigits (plainDigits (Nat.toDigits 10 n)) = n := by
  have hplain : plainDigits (Nat.toDigits 10 n) = Nat.toDigits 10 n := by
    refine List.filter_eq_self.mpr fun c hc => ?_
    have hdigit := Nat.isDigit_of_mem_toDigits (by decide) (by decide) hc
    simp only [bne_iff_ne]
    exact ne_of_isDigit hdigit (by decide)
  rw [hplain]
  exact Nat.ofDigitChars_toDigits (by decide) (by decide)

/-- The canonical spelling of a whole number is read as the number. -/
theorem number_append (i : Int64) (hdot : rest.head? ≠ some '.')
    (hrest : rest.head?.any isIdentifierChar = false) :
    number (Value.printInteger i.toInt ++ rest) = .found (.int i) rest := by
  obtain ⟨sign, n, hprint, hsign, hi⟩ := exists_toDigits i.toInt
  have hfirst : (Nat.toDigits 10 n).head?.any Char.isDigit = true := by
    obtain ⟨d, ds, hcons, hd⟩ := head?_toDigits n
    simp [hcons, hd]
  have hdigits : ∀ c ∈ Nat.toDigits 10 n, c = '_' ∨ c.isDigit = true := fun c hc =>
    .inr (Nat.isDigit_of_mem_toDigits (by decide) (by decide) hc)
  have hnumeral : (readBased? (Nat.toDigits 10 n ++ rest)).or (readDecimal? (Nat.toDigits 10 n ++ rest)) =
      some (.decimal (Nat.toDigits 10 n) none none, rest) := by
    rw [readBased?_decimal hfirst hdigits hrest, readDecimal?_decimal hfirst hdigits hdot hrest,
      Option.none_or]
  have hvalue : (Numeral.decimal (Nat.toDigits 10 n) none none).value? (sign == ['-']) =
      some (.int i) := by
    rw [value?_decimal, ofDigits_toDigits]
    exact ⟨i, rfl, hi⟩
  rw [hprint, List.append_assoc,
    number_of_numeral hsign hnumeral (endsNumber_iff.mpr ⟨hdot, hrest⟩), hvalue]

theorem misses_number (hdigit : cs.head?.any Char.isDigit = false) (hminus : cs.head? ≠ some '-')
    (hplus : cs.head? ≠ some '+') : Misses number cs := by
  have hbased : readBased? cs = none := by
    unfold readBased?
    split
    · cases hdigit
    · rfl
  have hdecimal : readDecimal? cs = none := by
    cases cs with
    | nil => rfl
    | cons c cs =>
      have hc : c.isDigit = false := by simpa using hdigit
      simp [readDecimal?, hc]
  refine ⟨⟨.missing none, cs⟩, ?_⟩
  unfold number
  split
  rename_i negative unsigned hsign
  split at hsign
  · exact absurd rfl hminus
  · exact absurd rfl hplus
  · cases hsign
    rw [hbased, hdecimal]
    rfl

end Scan

/-! ### Variables -/

theorem dollar_notMem_toDigits (n : Nat) : '$' ∉ Nat.toDigits 10 n := by
  intro h
  have hdigit := Nat.isDigit_of_mem_toDigits (by decide) (by decide) h
  cases hdigit

theorem dollar_notMem_positional {digits : List Char} (h : '$' ∉ digits) (wholePoint : Bool)
    (point : Int) : '$' ∉ Decimal.positional wholePoint digits point := by
  have hzeros : ∀ k, '$' ∉ List.replicate k '0' := fun k hmem => by
    cases List.eq_of_mem_replicate hmem
  unfold Decimal.positional
  split
  · simp [hzeros, h]
  · split
    · split <;> simp [hzeros, h]
    · simp [mt List.mem_of_mem_take h, mt List.mem_of_mem_drop h]

theorem dollar_notMem_scientific {digits : List Char} (h : '$' ∉ digits) (plusSign : Bool)
    (exponent : Int) : '$' ∉ Decimal.scientific plusSign digits exponent := by
  unfold Decimal.scientific
  simp only [List.mem_append, not_or]
  refine ⟨⟨⟨⟨mt List.mem_of_mem_take h, ?_⟩, by decide⟩, ?_⟩, dollar_notMem_toDigits _⟩
  · split
    · simp
    · simpa using mt List.mem_of_mem_tail h
  · split
    · decide
    · split <;> decide

theorem dollar_notMem_magnitude (layout : Decimal.Layout) (significand : Nat) (exponent : Int) :
    '$' ∉ layout.magnitude significand exponent := by
  unfold Decimal.Layout.magnitude
  dsimp only
  generalize (if significand = 0 then ⟨0, 0⟩ else Decimal.shortest layout.tie significand exponent) = d
  have hdigits := dollar_notMem_toDigits d.coefficient
  split
  · exact dollar_notMem_positional hdigits _ _
  · exact dollar_notMem_scientific hdigits _ _

theorem dollar_notMem_write (layout : Decimal.Layout) (x : Float) : '$' ∉ layout.write x := by
  unfold Decimal.Layout.write
  split
  · decide
  · cases ‹Bool› <;> decide
  · cases ‹Bool› <;> simp [Decimal.signed, dollar_notMem_magnitude]

section Variables

variable {W : List Char → Prop}

theorem renderOperands_cons (o : Operand) (operands : List Operand) :
    renderOperands (o :: operands) = o.render ++ operands.flatMap fun p => ' ' :: p.render := by
  induction operands generalizing o with
  | nil => simp [renderOperands]
  | cons p operands ih => rw [renderOperands, ih, List.flatMap_cons, List.cons_append]

/-- Only variables start with a dollar sign. -/
theorem head?_of_not_variable {o : Operand} (h : o.Lexical W)
    (hvariable : ∀ name fields, o ≠ .variable name fields) : o.render.head? ≠ some '$' := by
  intro hdollar
  cases h with
  | var => exact hvariable _ _ rfl
  | @field fields hne _ =>
    have hhead := Scan.head?_renderFields_append fields []
    rw [if_neg hne, List.append_nil] at hhead
    cases hhead.symm.trans hdollar
  | @identifier name hname _ =>
    obtain ⟨c, cs, hcons, hstart, -⟩ := hname.shape
    rw [Operand.render, hcons] at hdollar
    cases hdollar
    cases hstart
  | @number n =>
    cases n with
    | float x => exact dollar_notMem_write _ _ (List.mem_of_head? hdollar)
    | int i =>
      obtain ⟨c, hc, hminus | hdigit⟩ := Scan.head?_printInteger i.toInt
      · cases hc.symm.trans hdollar
        cases hminus
      · cases hc.symm.trans hdollar
        cases hdigit
  | @bool b => cases b <;> cases hdollar
  | dot | chain | pipe | string | nil => cases hdollar

/-- A command is written like a variable if and only if it is the variable. -/
theorem render_eq_iff {c : Command} {name : String} (h : c.Lexical W)
    (hname : IsVariable name) : c.render = name.toList ↔ c.variable? = some name := by
  constructor
  · intro hrender
    obtain ⟨hne, hoperands⟩ := h
    obtain ⟨pos, operands⟩ := c
    obtain ⟨o, operands, rfl⟩ := List.exists_cons_of_ne_nil hne
    obtain ⟨chars, hchars, hwords⟩ := hname
    rw [Command.render, renderOperands_cons, hchars] at hrender
    have habsent : ∀ c, isIdentifierChar c = false → c ≠ '$' →
        c ∉ o.render ++ operands.flatMap fun p => ' ' :: p.render := by
      intro c hc hdollar hmem
      rw [hrender] at hmem
      rcases List.mem_cons.mp hmem with heq | hmem
      · exact hdollar heq
      · rw [hwords c hmem] at hc
        cases hc
    have hspace := habsent ' ' rfl (by decide)
    have hdot := habsent '.' rfl (by decide)
    obtain rfl : operands = [] := by
      cases operands with
      | nil => rfl
      | cons p operands => simp at hspace
    rw [List.flatMap_nil, List.append_nil] at hrender hdot
    by_cases hvariable : ∃ other fields, o = .variable other fields
    · obtain ⟨other, fields, rfl⟩ := hvariable
      obtain rfl : fields = [] := by
        cases fields with
        | nil => rfl
        | cons f fields => simp [Operand.render, Scan.renderFields_cons] at hdot
      rw [Operand.render, renderFields, List.flatMap_nil, List.append_nil, ← hchars,
        String.toList_inj] at hrender
      unfold Command.variable?
      rw [hrender]
    · refine absurd ?_ (head?_of_not_variable (hoperands o (List.mem_cons_self ..))
        fun other fields heq => hvariable ⟨other, fields, heq⟩)
      rw [hrender, List.head?_cons]
  · intro hvariable
    obtain ⟨pos, operands⟩ := c
    unfold Command.variable? at hvariable
    split at hvariable
    · rename_i heq
      cases hvariable
      cases heq
      simp [Command.render, renderOperands, Operand.render, renderFields]
    · cases hvariable

end Variables

end BoundQuery.Template
