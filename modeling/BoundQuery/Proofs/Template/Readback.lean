/-
# Pipelines are read back

The canonical source of a pipeline is read as the pipeline, up to places. Each scanner of the grammar
leaves alone what the others are meant to read: where an operand is spelled, all forms that are tried
before its own miss, and what stands between operands and between commands belongs to none of them.

Main statement: `pipeline_render`.
-/

import BoundQuery.Proofs.Template.Spelling
import BoundQuery.Proofs.Template.Unplaced

namespace BoundQuery.Template

open Text (Pos)

/-! ### Terms of a pipeline -/

mutual

/-- All operands in an operand, at any depth. -/
def Operand.terms : Operand → List Operand
  | .chain base fields => .chain base fields :: base.terms
  | .pipe p => .pipe p :: p.terms
  | o => [o]

/-- All operands in several operands, at any depth. -/
def operandTerms : List Operand → List Operand
  | [] => []
  | o :: rest => o.terms ++ operandTerms rest

/-- All operands in a command, at any depth. -/
def Command.terms : Command → List Operand
  | ⟨_, operands⟩ => operandTerms operands

/-- All operands in several commands, at any depth. -/
def commandTerms : List Command → List Operand
  | [] => []
  | c :: rest => c.terms ++ commandTerms rest

/-- All operands in a pipeline, at any depth. -/
def Pipeline.terms : Pipeline → List Operand
  | ⟨_, _, _, commands⟩ => commandTerms commands

end

theorem mem_operandTerms {t : Operand} {operands : List Operand} :
    t ∈ operandTerms operands ↔ ∃ o ∈ operands, t ∈ o.terms := by
  induction operands with
  | nil => simp [operandTerms]
  | cons o rest ih => simp [operandTerms, ih]

theorem mem_commandTerms {t : Operand} {commands : List Command} :
    t ∈ commandTerms commands ↔ ∃ c ∈ commands, t ∈ c.terms := by
  induction commands with
  | nil => simp [commandTerms]
  | cons c rest ih => simp [commandTerms, ih]

theorem Command.mem_terms {t : Operand} {c : Command} :
    t ∈ c.terms ↔ ∃ o ∈ c.operands, t ∈ o.terms := by
  cases c
  exact mem_operandTerms

theorem Pipeline.mem_terms {t : Operand} {p : Pipeline} :
    t ∈ p.terms ↔ ∃ c ∈ p.commands, t ∈ c.terms := by
  cases p
  exact mem_commandTerms

theorem Operand.mem_terms_self (o : Operand) : o ∈ o.terms := by
  cases o <;> simp [Operand.terms]

/-- The spelling of the operand itself, if it is a literal, can be read: it is no float, and a string
of legible characters. -/
def Operand.Legible : Operand → Prop
  | .string s => ∀ c ∈ s.toList, Scan.Legible c
  | .number (.float _) => False
  | _ => True

instance : DecidablePred Scan.Legible := fun c =>
  inferInstanceAs (Decidable (Text.Quoted.showsAlone c = true ∨ _))

instance (cs : List Char) : Decidable (∀ c ∈ cs, Scan.Legible c) :=
  List.decidableBAll Scan.Legible cs

instance : DecidablePred Operand.Legible := fun o =>
  match o with
  | .string s => inferInstanceAs (Decidable (∀ c ∈ s.toList, Scan.Legible c))
  | .number (.float _) => .isFalse id
  | .number (.int _) | .dot | .field _ | .variable _ _ | .identifier _ | .chain _ _ | .pipe _
  | .bool _ | .nil => .isTrue trivial

/-! ### Where operands, commands and pipelines end -/

/-- An operand may end before this text. -/
def EndsOperand (rest : List Char) : Prop :=
  ∀ c ∈ rest.head?, c = ' ' ∨ c = ')'

/-- A pipeline may end before this text. -/
def EndsPipeline (rest : List Char) : Prop :=
  ∀ c ∈ rest.head?, c = ')'

/-- A command may end before this text: the pipeline ends, or a bar and a space follow. -/
def EndsCommand (rest : List Char) : Prop :=
  EndsPipeline rest ∨ ∃ cs, rest = ' ' :: '|' :: ' ' :: cs

theorem EndsPipeline.endsCommand {rest : List Char} (h : EndsPipeline rest) : EndsCommand rest :=
  .inl h

theorem EndsCommand.endsOperand {rest : List Char} (h : EndsCommand rest) : EndsOperand rest := by
  rcases h with h | ⟨cs, rfl⟩
  · exact fun c hc => .inr (h c hc)
  · simp [EndsOperand]

/-- The first character of a text before which an operand may end does not go on with it. -/
theorem EndsOperand.head_not {rest : List Char} (h : EndsOperand rest) {holds : Char → Bool}
    (hspace : holds ' ' = false) (hparenthesis : holds ')' = false) :
    rest.head?.any holds = false := by
  cases rest with
  | nil => rfl
  | cons c rest => rcases h c rfl with rfl | rfl <;> simpa

/-- Words end where operands do. -/
theorem EndsOperand.word_ends {rest : List Char} (h : EndsOperand rest) :
    rest.head?.any isIdentifierChar = false :=
  h.head_not rfl rfl

/-- No field is read where operands end. -/
theorem EndsOperand.no_dot {rest : List Char} (h : EndsOperand rest) : rest.head? ≠ some '.' := by
  intro hdot
  rcases h '.' hdot with hc | hc <;> cases hc

theorem EndsPipeline.head_not {rest : List Char} (h : EndsPipeline rest) {holds : Char → Bool}
    (hparenthesis : holds ')' = false) : rest.head?.any holds = false := by
  cases rest with
  | nil => rfl
  | cons c rest =>
    cases h c rfl
    simpa

/-! ### How operands start -/

/-- The characters that operands start with in canonical spelling. -/
def isOperandStart (c : Char) : Bool :=
  isIdentifierStart c || c.isDigit || ['.', '$', '(', '"', '-'].contains c

/-- White space and the characters of the signs between operands, commands and names. -/
def separators : List Char :=
  [' ', '\t', '\r', '\n', '|', ',', ':', '=']

theorem isOperandStart_of_mem {c : Char} (h : c ∈ separators) : isOperandStart c = false := by
  have hall : separators.all (fun c => !isOperandStart c) = true := rfl
  simpa using List.all_eq_true.mp hall c h

/-- What starts like an operand does not start with a separator. -/
theorem head_not_of_start {cs : List Char} (h : cs.head?.any isOperandStart = true)
    {holds : Char → Bool} (hholds : ∀ c, holds c = true → c ∈ separators) :
    cs.head?.any holds = false := by
  cases cs with
  | nil => rfl
  | cons c cs =>
    have hc : isOperandStart c = true := by simpa using h
    refine Bool.eq_false_iff.mpr fun hmem => ?_
    rw [isOperandStart_of_mem (hholds c (by simpa using hmem))] at hc
    cases hc

theorem head_append {cs : List Char} {holds : Char → Bool} (h : cs.head?.any holds = true)
    (rest : List Char) : (cs ++ rest).head?.any holds = true := by
  cases cs with
  | nil => cases h
  | cons c cs => exact h

theorem mem_separators_of_isSpace {c : Char} (h : isSpace c = true) : c ∈ separators := by
  simp only [isSpace, Bool.or_eq_true, beq_iff_eq] at h
  rcases h with ((rfl | rfl) | rfl) | rfl <;> decide

/-- Before an operand no white space is left to read. -/
theorem head_not_space {cs : List Char} (h : cs.head?.any isOperandStart = true) (rest : List Char) :
    (cs ++ rest).head?.any isSpace = false :=
  head_not_of_start (head_append h rest) fun _ => mem_separators_of_isSpace

theorem head_isIdentifierStart {name : String} (h : IsIdentifier name) (rest : List Char) :
    (name.toList ++ rest).head?.any isIdentifierStart = true := by
  obtain ⟨c, cs, hname, hstart, -⟩ := h
  simp [hname, hstart]

section Starts

variable {W : List Char → Prop} {o : Operand}

/-- Operands start as operands do in canonical spelling. -/
theorem Operand.Lexical.head_render (h : o.Lexical W) (hlegible : o.Legible) :
    o.render.head?.any isOperandStart = true := by
  cases h with
  | dot => rfl
  | @field fields hne _ =>
    have hhead := Scan.head?_renderFields_append fields []
    rw [if_neg hne, List.append_nil] at hhead
    rw [Operand.render, hhead]
    rfl
  | @var name fields hname _ =>
    obtain ⟨cs, hname, -⟩ := hname.shape
    rw [Operand.render, hname]
    exact (rfl : isOperandStart '$' = true)
  | @identifier name hname _ =>
    have hstart := head_isIdentifierStart hname.shape []
    obtain ⟨c, hc, hstart⟩ := (Option.any_eq_true ..).mp hstart
    rw [List.append_nil] at hc
    rw [Operand.render, hc]
    simp [isOperandStart, hstart]
  | chain | pipe => exact (rfl : isOperandStart '(' = true)
  | string => exact (rfl : isOperandStart '"' = true)
  | @number n =>
    cases n with
    | float x => exact hlegible.elim
    | int i =>
      rw [Operand.render, Number.render]
      cases i.toInt with
      | ofNat n =>
        obtain ⟨d, ds, hcons, hd⟩ := Scan.head?_toDigits n
        simp [Value.printInteger, hcons, isOperandStart, hd]
      | negSucc n => simp [Value.printInteger, isOperandStart]
  | @bool b => cases b <;> rfl
  | nil => rfl

end Starts

/-! ### Operands -/

namespace Scan

section Terms

variable {inner : Scan Pipeline} {cs rest : List Char}

/-- The forms of operands that start with a word, a dot or a dollar sign. -/
def wordTerm : Scan Operand :=
  Operand.bool <$> boolean
  <|> (do nil; return .nil)
  <|> Operand.field <$> oneOrMore field
  <|> (do let _ ← char '.'; return .dot)
  <|> (do
    let name ← variableName
    let path ← fields
    return .variable name path)
  <|> Operand.identifier <$> identifier

/-- The characters besides digits that the other forms of operands start with. -/
def openers : List Char :=
  ['(', '"', backQuote, '-', '+']

theorem isDigit_of_isIdentifierStart {c : Char} (h : isIdentifierStart c = true) :
    c.isDigit = false := by
  refine Bool.eq_false_iff.mpr fun hdigit => ?_
  have hlast : c.toNat < 58 := Nat.lt_succ_of_le (Char.isDigit_iff_toNat.mp hdigit).2
  have hnone : c.isDigit = true → isIdentifierStart c = false :=
    Text.of_toNat_lt (P := fun c => c.isDigit = true → isIdentifierStart c = false) (by decide) hlast
  rw [hnone hdigit] at h
  cases h

theorem notMem_openers_of_isIdentifierStart {c : Char} (h : isIdentifierStart c = true) :
    c ∉ openers := by
  intro hmem
  have hall : openers.all (fun c => !isIdentifierStart c) = true := rfl
  have hc := List.all_eq_true.mp hall c hmem
  rw [h] at hc
  cases hc

theorem term_eq_wordTerm {c : Char} (hc : cs.head? = some c) (hopen : c ∉ openers)
    (hdigit : c.isDigit = false) : term inner cs = wordTerm cs := by
  have hne : ∀ d ∈ openers, cs.head? ≠ some d := by
    rintro d hd heq
    cases hc.symm.trans heq
    exact hopen hd
  have hparenthesized : Misses (parenthesized inner) cs :=
    (misses_char (hne '(' (by decide))).bind _
  have hstring : Misses (Operand.string <$> string) cs :=
    (misses_string (hne '"' (by decide)) (hne backQuote (by decide))).map _
  have hnumber : Misses (Operand.number <$> number) cs :=
    (misses_number (by simp [hc, hdigit]) (hne '-' (by decide)) (hne '+' (by decide))).map _
  exact hparenthesized.orElse.trans (hstring.orElse.trans hnumber.orElse)

theorem isIdentifierChar_of_mem_literalWords {word : String} (hword : word ∈ literalWords) :
    ∀ c ∈ word.toList, isIdentifierChar c = true := by
  have hall : literalWords.all (fun word => word.toList.all isIdentifierChar) = true := by decide
  exact List.all_eq_true.mp (List.all_eq_true.mp hall word hword)

/-- The word for a truth value or for null is not found where another word, or none, stands. -/
theorem literalWord_misses {word : String} (hword : word ∈ literalWords) {chars : List Char}
    (hchars : ∀ c ∈ chars, isIdentifierChar c = true) (hne : chars ≠ word.toList)
    (hrest : rest.head?.any isIdentifierChar = false) : Misses (keyword word) (chars ++ rest) :=
  keyword_misses chars (isIdentifierChar_of_mem_literalWords hword) hchars hne hrest

/-- The words for truth values and for null are not taken for one another. -/
theorem otherLiteral_misses {word other : String} (hword : word ∈ literalWords)
    (hother : other ∈ literalWords) (hne : other ≠ word)
    (hrest : rest.head?.any isIdentifierChar = false) :
    Misses (keyword word) (other.toList ++ rest) := by
  apply literalWord_misses hword (isIdentifierChar_of_mem_literalWords hother) _ hrest
  exact fun heq => hne (String.toList_inj.mp heq)

theorem misses_literals (chars : List Char) (hchars : ∀ c ∈ chars, isIdentifierChar c = true)
    (hne : ∀ word ∈ literalWords, chars ≠ word.toList)
    (hrest : rest.head?.any isIdentifierChar = false) :
    Misses (Operand.bool <$> boolean) (chars ++ rest) ∧
      Misses (nil >>= fun _ => (pure Operand.nil : Scan Operand)) (chars ++ rest) := by
  have hmisses : ∀ word ∈ literalWords, Misses (keyword word) (chars ++ rest) := fun word hword =>
    literalWord_misses hword hchars (hne word hword) hrest
  refine ⟨(Misses.both ?_ ?_).map _, (hmisses "nil" (by decide)).bind _⟩
  · exact (hmisses "true" (by decide)).bind _
  · exact (hmisses "false" (by decide)).bind _

/-- Where no word stands, no truth value and no null is read. -/
theorem misses_literals_of_head (cs : List Char) (h : cs.head?.any isIdentifierChar = false) :
    Misses (Operand.bool <$> boolean) cs ∧
      Misses (nil >>= fun _ => (pure Operand.nil : Scan Operand)) cs :=
  misses_literals [] (by simp) (by decide) h

theorem term_dot (hrest : EndsOperand rest) : term inner ('.' :: rest) = .found .dot rest := by
  rw [term_eq_wordTerm rfl (by decide) (by decide)]
  obtain ⟨hbool, hnil⟩ := misses_literals_of_head ('.' :: rest)
    (rfl : isIdentifierChar '.' = false)
  have hfield : Misses (oneOrMore field) ('.' :: rest) := by
    refine Misses.bind (misses_of_found_bind (char_cons '.' rest) ?_) _
    exact misses_identifier (hrest.head_not rfl rfl)
  rw [wordTerm, hbool.orElse, hnil.orElse, (hfield.map _).orElse]
  exact orElse_of_found (bind_of_found (char_cons '.' rest))

theorem term_field {fields : List String} (hne : fields ≠ [])
    (hfields : ∀ f ∈ fields, IsIdentifier f) (hrest : EndsOperand rest) :
    term inner (renderFields fields ++ rest) = .found (.field fields) rest := by
  obtain ⟨name, names, rfl⟩ := List.exists_cons_of_ne_nil hne
  have hhead : (renderFields (name :: names) ++ rest).head? = some '.' :=
    head?_renderFields_append _ _
  have hdot : rest.head? ≠ some '.' := hrest.no_dot
  have hword : rest.head?.any isIdentifierChar = false := hrest.word_ends
  obtain ⟨hbool, hnil⟩ := misses_literals_of_head (renderFields (name :: names) ++ rest) (by
    rw [hhead]
    rfl)
  rw [term_eq_wordTerm hhead (by decide) (by decide), wordTerm, hbool.orElse, hnil.orElse]
  refine orElse_of_found (map_of_found _ ?_)
  rw [List.forall_mem_cons] at hfields
  have hafter := word_ends_renderFields names hword
  rw [renderFields_cons, List.cons_append, List.append_assoc]
  refine (bind_of_found (field_append hfields.1 hafter)).trans ?_
  exact bind_of_found (fields_append hfields.2 hdot hword)

theorem misses_dots (cs : List Char) (h : cs.head? ≠ some '.') :
    Misses (Operand.field <$> oneOrMore field) cs ∧
      Misses (char '.' >>= fun _ => (pure Operand.dot : Scan Operand)) cs :=
  ⟨((misses_field h).bind _).map _, (misses_char h).bind _⟩

theorem term_variable {name : String} {fields : List String} (hname : IsVariable name)
    (hfields : ∀ f ∈ fields, IsIdentifier f) (hrest : EndsOperand rest) :
    term inner (name.toList ++ renderFields fields ++ rest) =
      .found (.variable name fields) rest := by
  have hdot : rest.head? ≠ some '.' := hrest.no_dot
  have hword : rest.head?.any isIdentifierChar = false := hrest.word_ends
  have hafter := word_ends_renderFields fields hword
  have hhead : (name.toList ++ renderFields fields ++ rest).head? = some '$' := by
    obtain ⟨chars, hchars, -⟩ := hname
    simp [hchars]
  obtain ⟨hbool, hnil⟩ := misses_literals_of_head (name.toList ++ renderFields fields ++ rest) (by
    rw [hhead]
    rfl)
  obtain ⟨hfield, hpoint⟩ := misses_dots (name.toList ++ renderFields fields ++ rest) (by
    rw [hhead]
    decide)
  rw [term_eq_wordTerm hhead (by decide) (by decide), wordTerm, hbool.orElse, hnil.orElse,
    hfield.orElse, hpoint.orElse]
  refine orElse_of_found ?_
  rw [List.append_assoc]
  refine (bind_of_found (variableName_append hname hafter)).trans ?_
  exact bind_of_found (fields_append hfields hdot hword)

theorem exists_head_of_any {holds : Char → Bool} (h : cs.head?.any holds = true) :
    ∃ c, cs.head? = some c ∧ holds c = true :=
  (Option.any_eq_true ..).mp h

theorem term_identifier {name : String} (hname : IsIdentifier name) (hliteral : name ∉ literalWords)
    (hrest : EndsOperand rest) :
    term inner (name.toList ++ rest) = .found (.identifier name) rest := by
  have hword : rest.head?.any isIdentifierChar = false := hrest.word_ends
  obtain ⟨c, hhead, hstart⟩ := exists_head_of_any (head_isIdentifierStart hname rest)
  obtain ⟨hbool, hnil⟩ := misses_literals _ hname.isIdentifierChar (fun word hmem heq => by
    rw [String.toList_inj] at heq
    exact hliteral (heq ▸ hmem)) hword
  have hne : ∀ d : Char, isIdentifierStart d = false → (name.toList ++ rest).head? ≠ some d := by
    rintro d hd heq
    cases hhead.symm.trans heq
    rw [hstart] at hd
    cases hd
  obtain ⟨hfield, hpoint⟩ := misses_dots _ (hne '.' rfl)
  have hvariable := misses_variableName (hne '$' rfl)
  rw [term_eq_wordTerm hhead (notMem_openers_of_isIdentifierStart hstart)
    (isDigit_of_isIdentifierStart hstart), wordTerm, hbool.orElse, hnil.orElse, hfield.orElse,
    hpoint.orElse, (hvariable.bind _).orElse]
  exact map_of_found _ (identifier_append hname hword)

theorem term_nil (hrest : EndsOperand rest) :
    term inner ("nil".toList ++ rest) = .found .nil rest := by
  have hword : rest.head?.any isIdentifierChar = false := hrest.word_ends
  have hbool : Misses (Operand.bool <$> boolean) ("nil".toList ++ rest) := by
    refine (Misses.both ?_ ?_).map _
    · exact (otherLiteral_misses (by decide) (by decide) (by decide) hword).bind _
    · exact (otherLiteral_misses (by decide) (by decide) (by decide) hword).bind _
  rw [term_eq_wordTerm (c := 'n') rfl (by decide) (by decide), wordTerm, hbool.orElse]
  exact orElse_of_found (bind_of_found (keyword_append "nil" hword))

theorem term_bool (b : Bool) (hrest : EndsOperand rest) :
    term inner (Value.printBool b ++ rest) = .found (.bool b) rest := by
  have hword : rest.head?.any isIdentifierChar = false := hrest.word_ends
  cases b with
  | true =>
    rw [Value.printBool, if_pos rfl, term_eq_wordTerm (c := 't') rfl (by decide) (by decide),
      wordTerm]
    refine orElse_of_found (map_of_found _ (orElse_of_found ?_))
    exact bind_of_found (keyword_append "true" hword)
  | false =>
    have htrue : Misses (keyword "true") ("false".toList ++ rest) :=
      otherLiteral_misses (by decide) (by decide) (by decide) hword
    rw [Value.printBool, if_neg (by decide), term_eq_wordTerm (c := 'f') rfl (by decide) (by decide),
      wordTerm]
    refine orElse_of_found (map_of_found _ ((htrue.bind _).orElse.trans ?_))
    exact bind_of_found (keyword_append "false" hword)

theorem term_string {s : String} (h : ∀ c ∈ s.toList, Legible c) :
    term inner (Text.Quoted.spell s.toList ++ rest) = .found (.string s) rest := by
  have hparenthesized : Misses (parenthesized inner) (Text.Quoted.spell s.toList ++ rest) :=
    (misses_char (by simp [Text.Quoted.spell])).bind _
  rw [term, hparenthesized.orElse]
  exact orElse_of_found (map_of_found _ (string_spell h rest))

theorem term_number (i : Int64) (hrest : EndsOperand rest) :
    term inner (Value.printInteger i.toInt ++ rest) = .found (.number (.int i)) rest := by
  obtain ⟨c, hhead, hc⟩ := head?_printInteger i.toInt
  have hne : ∀ d : Char, d ≠ '-' → d.isDigit = false →
      (Value.printInteger i.toInt ++ rest).head? ≠ some d := by
    intro d hminus hdigit heq
    rw [List.head?_append, hhead] at heq
    cases heq
    rcases hc with rfl | hc
    · exact hminus rfl
    · exact ne_of_isDigit hc hdigit rfl
  have hparenthesized : Misses (parenthesized inner) (Value.printInteger i.toInt ++ rest) :=
    (misses_char (hne '(' (by decide) (by decide))).bind _
  have hstring : Misses (Operand.string <$> string) (Value.printInteger i.toInt ++ rest) :=
    (misses_string (hne '"' (by decide) (by decide))
      (hne backQuote (by decide) (by decide))).map _
  rw [term, hparenthesized.orElse, hstring.orElse]
  refine orElse_of_found (map_of_found _ (number_append i ?_ ?_))
  · exact hrest.no_dot
  · exact hrest.word_ends

end Terms

/-- What is found at the front of a text satisfies the check. -/
theorem exists_of_any {α : Type} {p : Scan α} {cs : List Char} {Q : α → Prop} [DecidablePred Q]
    (h : (match p cs with
      | .found a _ => decide (Q a)
      | _ => false) = true) : ∃ a rest, p cs = .found a rest ∧ Q a := by
  split at h
  · rename_i a rest hread
    exact ⟨a, rest, hread, of_decide_eq_true h⟩
  · cases h

/-! ### Operands with pipelines in parentheses -/

section Operands

variable {inner : Scan Pipeline} {cs rest : List Char} {o : Operand}

theorem operand_of_term (h : term inner cs = .found o rest) (hpipe : ∀ p, o ≠ .pipe p) :
    operand inner cs = .found o rest := by
  refine (bind_of_found h).trans ?_
  cases o with
  | pipe p => exact absurd rfl (hpipe p)
  | _ => rfl

theorem operand_parenthesized {chars : List Char} {q : Pipeline} {fields : List String}
    (hchars : chars.head?.any isSpace = false)
    (hinner : inner (chars ++ ')' :: (renderFields fields ++ rest)) =
      .found q (')' :: (renderFields fields ++ rest)))
    (hfields : ∀ f ∈ fields, IsIdentifier f) (hrest : EndsOperand rest) :
    operand inner ('(' :: (chars ++ ')' :: (renderFields fields ++ rest))) =
      .found (if fields.isEmpty then .pipe q else .chain (.pipe q) fields) rest := by
  have hdot : rest.head? ≠ some '.' := hrest.no_dot
  have hword : rest.head?.any isIdentifierChar = false := hrest.word_ends
  have hspaces : spaces (chars ++ ')' :: (renderFields fields ++ rest)) =
      .found [] (chars ++ ')' :: (renderFields fields ++ rest)) := by
    refine spaces_none ?_
    cases chars with
    | nil => rfl
    | cons c chars => exact hchars
  have hterm : term inner ('(' :: (chars ++ ')' :: (renderFields fields ++ rest))) =
      .found (.pipe q) (renderFields fields ++ rest) := by
    refine orElse_of_found ((bind_of_found (char_cons '(' _)).trans ?_)
    refine (bind_of_found hspaces).trans ((bind_of_found (commit_of_found hinner)).trans ?_)
    have hclose : (')' :: (renderFields fields ++ rest)).head?.any isSpace = false :=
      (by decide : isSpace ')' = false)
    exact bind_of_found (spaces_none hclose)
  refine (bind_of_found hterm).trans ?_
  exact bind_of_found (fields_append hfields hdot hword)

/-- No operand starts with a character that is no part of a word and opens no other form. -/
theorem operand_misses {c : Char} (hopen : c ∉ '.' :: '$' :: openers)
    (hword : isIdentifierChar c = false) : Misses (operand inner) (c :: rest) := by
  simp only [List.mem_cons, not_or] at hopen
  obtain ⟨hdot, hdollar, hopen⟩ := hopen
  have hdigit : c.isDigit = false := by
    refine Bool.eq_false_iff.mpr fun hdigit => ?_
    rw [isIdentifierChar_of_isDigit hdigit] at hword
    cases hword
  have hstart : isIdentifierStart c = false := by
    refine Bool.eq_false_iff.mpr fun hstart => ?_
    rw [isIdentifierChar_of_isIdentifierStart hstart] at hword
    cases hword
  have hne : ∀ {d : Char}, c ≠ d → (c :: rest).head? ≠ some d := by
    intro d hne heq
    exact hne (Option.some.inj heq)
  obtain ⟨hbool, hnil⟩ := misses_literals_of_head (c :: rest) hword
  obtain ⟨hfield, hpoint⟩ := misses_dots (c :: rest) (hne hdot)
  have hvariable : Misses variableName (c :: rest) := misses_variableName (hne hdollar)
  have hidentifier : Misses identifier (c :: rest) := misses_identifier hstart
  have hmisses : Misses wordTerm (c :: rest) :=
    hbool.both (hnil.both (hfield.both (hpoint.both ((hvariable.bind _).both (hidentifier.map _)))))
  obtain ⟨fault, hmisses⟩ := hmisses
  have hterm : Misses (term inner) (c :: rest) :=
    ⟨fault, (term_eq_wordTerm rfl (by simpa [openers] using hopen) hdigit).trans hmisses⟩
  exact hterm.bind _

end Operands

end Scan

/-! ### Commands -/

/-- Where something of this form ends, the scanner reads the text as the tree, up to places. -/
def ReadsBack {α : Type} (p : Scan α) (unplaced : α → α) (ends : List Char → Prop)
    (text : List Char) (a : α) : Prop :=
  ∀ rest, ends rest → ∃ b, p (text ++ rest) = .found b rest ∧ unplaced b = unplaced a

theorem renderCommands_cons (c : Command) (commands : List Command) :
    renderCommands (c :: commands) =
      c.render ++ commands.flatMap fun d => ' ' :: '|' :: ' ' :: d.render := by
  induction commands generalizing c with
  | nil => simp [renderCommands]
  | cons d commands ih =>
    rw [renderCommands, ih, List.flatMap_cons]
    simp

section Commands

variable {inner : Scan Pipeline} {rest : List Char}

theorem endsOperand_operands (operands : List Operand) (hrest : EndsCommand rest) :
    EndsOperand ((operands.flatMap fun o => ' ' :: o.render) ++ rest) := by
  cases operands with
  | nil => exact hrest.endsOperand
  | cons o operands => simp [EndsOperand]

theorem endsCommand_commands (commands : List Command) (hrest : EndsPipeline rest) :
    EndsCommand ((commands.flatMap fun c => ' ' :: '|' :: ' ' :: c.render) ++ rest) := by
  cases commands with
  | nil => exact hrest.endsCommand
  | cons c commands => exact .inr ⟨_, rfl⟩

/-- Operands after the first of a command. -/
theorem many_operands {operands : List Operand}
    (hstart : ∀ o ∈ operands, o.render.head?.any isOperandStart = true)
    (hback : ∀ o ∈ operands,
      ReadsBack (Scan.operand inner) Operand.unplaced EndsOperand o.render o)
    (hrest : EndsCommand rest) :
    ∃ read, Scan.many (do let _ ← Scan.someSpaces; Scan.operand inner)
        ((operands.flatMap fun o => ' ' :: o.render) ++ rest) = .found read rest ∧
      unplacedOperands read = unplacedOperands operands := by
  induction operands with
  | nil =>
    refine ⟨[], Scan.Misses.many ?_, rfl⟩
    rcases hrest with hrest | ⟨cs, rfl⟩
    · exact (Scan.misses_someSpaces (hrest.head_not (by decide))).bind _
    · exact Scan.misses_of_found_bind (Scan.someSpaces_cons (by decide : isSpace '|' = false))
        (Scan.operand_misses (by decide) rfl)
  | cons o operands ih =>
    rw [List.forall_mem_cons] at hstart hback
    obtain ⟨read, hread, hunplaced⟩ := ih hstart.2 hback.2
    obtain ⟨o', ho, hsame⟩ := hback.1 _ (endsOperand_operands operands hrest)
    have hhead := head_not_space hstart.1 ((operands.flatMap fun o => ' ' :: o.render) ++ rest)
    refine ⟨o' :: read, ?_, ?_⟩
    · rw [List.flatMap_cons, List.cons_append, List.cons_append, List.append_assoc]
      refine Scan.many_of_found ((Scan.bind_of_found (Scan.someSpaces_cons hhead)).trans ho) ?_ hread
      simp only [List.length_cons, List.length_append]
      omega
    · rw [unplacedOperands, unplacedOperands, hsame, hunplaced]

variable (locate : List Char → Pos)

theorem readsBack_command {c : Command} (hne : c.operands ≠ [])
    (hstart : ∀ o ∈ c.operands, o.render.head?.any isOperandStart = true)
    (hback : ∀ o ∈ c.operands,
      ReadsBack (Scan.operand inner) Operand.unplaced EndsOperand o.render o) :
    ReadsBack (Scan.command locate inner) Command.unplaced EndsCommand c.render c := by
  obtain ⟨pos, operands⟩ := c
  obtain ⟨o, operands, rfl⟩ := List.exists_cons_of_ne_nil hne
  rw [List.forall_mem_cons] at hstart hback
  intro rest hrest
  obtain ⟨read, hread, hunplaced⟩ := many_operands hstart.2 hback.2 hrest
  obtain ⟨o', ho, hsame⟩ := hback.1 _ (endsOperand_operands operands hrest)
  rw [Command.render, renderOperands_cons, List.append_assoc]
  refine ⟨⟨locate (o.render ++ ((operands.flatMap fun o => ' ' :: o.render) ++ rest)), o' :: read⟩,
    ?_, ?_⟩
  · exact (Scan.bind_of_found (Scan.within_of_found ho)).trans (Scan.bind_of_found hread)
  · rw [Command.unplaced, Command.unplaced, unplacedOperands, unplacedOperands, hsame, hunplaced]

theorem head_renderOperands {operands : List Operand} (hne : operands ≠ [])
    (hstart : ∀ o ∈ operands, o.render.head?.any isOperandStart = true) :
    (renderOperands operands).head?.any isOperandStart = true := by
  obtain ⟨o, operands, rfl⟩ := List.exists_cons_of_ne_nil hne
  rw [renderOperands_cons]
  exact head_append (hstart o (List.mem_cons_self ..)) _

theorem laterCommand_misses (hrest : EndsPipeline rest) :
    Scan.Misses (Scan.laterCommand locate inner) rest := by
  refine Scan.misses_of_found_bind (Scan.spaces_none (hrest.head_not (by decide))) ?_
  refine (Scan.misses_char fun hbar => ?_).bind _
  cases hrest '|' hbar

/-- Commands after the first of a pipeline. -/
theorem many_commands {commands : List Command}
    (hstart : ∀ c ∈ commands, c.render.head?.any isOperandStart = true)
    (hback : ∀ c ∈ commands,
      ReadsBack (Scan.command locate inner) Command.unplaced EndsCommand c.render c)
    (hrest : EndsPipeline rest) :
    ∃ read, Scan.many (Scan.laterCommand locate inner)
        ((commands.flatMap fun c => ' ' :: '|' :: ' ' :: c.render) ++ rest) = .found read rest ∧
      unplacedCommands read = unplacedCommands commands := by
  induction commands with
  | nil => exact ⟨[], (laterCommand_misses locate hrest).many, rfl⟩
  | cons c commands ih =>
    rw [List.forall_mem_cons] at hstart hback
    obtain ⟨read, hread, hunplaced⟩ := ih hstart.2 hback.2
    obtain ⟨c', hc, hsame⟩ := hback.1 _ (endsCommand_commands commands hrest)
    have hhead := head_not_space hstart.1
      ((commands.flatMap fun c => ' ' :: '|' :: ' ' :: c.render) ++ rest)
    refine ⟨c' :: read, ?_, ?_⟩
    · rw [List.flatMap_cons, List.cons_append, List.cons_append, List.cons_append,
        List.cons_append, List.cons_append, List.cons_append, List.append_assoc]
      refine Scan.many_of_found ?_ ?_ hread
      · have hbar : ∀ cs, ('|' :: cs).head?.any isSpace = false := fun _ => rfl
        refine (Scan.bind_of_found (Scan.spaces_cons (hbar _))).trans ?_
        refine (Scan.bind_of_found (Scan.char_cons '|' _)).trans ?_
        exact (Scan.bind_of_found (Scan.spaces_cons hhead)).trans (Scan.commit_of_found hc)
      · simp only [List.length_cons, List.length_append]
        omega
    · rw [unplacedCommands, unplacedCommands, hsame, hunplaced]

end Commands

/-! ### Names -/

section Names

variable {rest : List Char}

/-- No sign of a declaration or an assignment stands before this text, and no second name. -/
def NoSign (cs : List Char) : Prop :=
  ∃ blanks after, cs = blanks ++ after ∧ (∀ c ∈ blanks, isSpace c = true) ∧
    after.head?.any isSpace = false ∧ ∀ c ∈ [',', ':', '='], after.head? ≠ some c

theorem NoSign.fields (h : NoSign rest) (fields : List String) :
    NoSign (renderFields fields ++ rest) := by
  by_cases hfields : fields = []
  · subst hfields
    exact h
  · have hhead : (renderFields fields ++ rest).head? = some '.' := by
      rw [Scan.head?_renderFields_append, if_neg hfields]
    refine ⟨[], renderFields fields ++ rest, rfl, by simp, ?_, ?_⟩ <;> rw [hhead]
    · rfl
    · simp

/-- A second name after its comma. -/
def secondName : Scan String := do
  let _ ← Scan.spaces
  let _ ← Scan.char ','
  let _ ← Scan.spaces
  Scan.variableName

theorem secondName_misses {blanks after : List Char} (hblanks : ∀ c ∈ blanks, isSpace c = true)
    (hspace : after.head?.any isSpace = false) (hcomma : after.head? ≠ some ',') :
    Scan.Misses secondName (blanks ++ after) :=
  Scan.misses_of_found_bind (Scan.spaces_append blanks hblanks hspace)
    ((Scan.misses_char hcomma).bind _)

theorem secondName_append {name : String} (hname : IsVariable name)
    (hword : rest.head?.any isIdentifierChar = false) :
    secondName (',' :: ' ' :: (name.toList ++ rest)) = .found name rest := by
  have hcomma : (',' :: ' ' :: (name.toList ++ rest)).head?.any isSpace = false := rfl
  have hdollar : (name.toList ++ rest).head?.any isSpace = false := by
    obtain ⟨chars, hchars, -⟩ := hname
    rw [hchars]
    rfl
  refine (Scan.bind_of_found (Scan.spaces_none hcomma)).trans ?_
  refine (Scan.bind_of_found (Scan.char_cons ',' _)).trans ?_
  refine (Scan.bind_of_found (Scan.spaces_cons hdollar)).trans ?_
  exact Scan.variableName_append hname hword

theorem declaration_misses {name : String} (hname : IsVariable name)
    (hword : rest.head?.any isIdentifierChar = false) (hsign : NoSign rest) :
    Scan.Misses Scan.declaration (name.toList ++ rest) := by
  obtain ⟨blanks, after, rfl, hblanks, hspace, hafter⟩ := hsign
  have hspaces := Scan.spaces_append blanks hblanks hspace
  refine Scan.misses_of_found_bind (Scan.variableName_append hname hword) ?_
  have hsecond := secondName_misses hblanks hspace (hafter ',' (by decide))
  refine Scan.misses_of_found_bind hsecond.optional (Scan.misses_of_found_bind hspaces ?_)
  refine Scan.Misses.bind (Scan.Misses.both ?_ ?_) _
  · exact (Scan.misses_word (hafter ':' (by decide))).bind _
  · exact (Scan.misses_char (hafter '=' (by decide))).bind _

/-- The sign of a declaration or of an assignment, as it stands in canonical source. -/
def sign (assigns : Bool) : List Char :=
  if assigns then [' ', '=', ' '] else [' ', ':', '=', ' ']

theorem renderNames_append (assigns : Bool) {names : List String} (hne : names ≠ []) :
    renderNames assigns names ++ rest =
      [',', ' '].intercalate (names.map String.toList) ++ (sign assigns ++ rest) := by
  have hsign : (if assigns then " = " else " := ").toList = sign assigns := by
    cases assigns <;> rfl
  rw [renderNames, if_neg (by simpa using hne), hsign, List.append_assoc]

theorem exists_sign_append (assigns : Bool) (rest : List Char) :
    ∃ c cs, sign assigns ++ rest = [' '] ++ c :: cs ∧ isSpace c = false ∧ c ≠ ',' := by
  cases assigns
  · exact ⟨':', '=' :: ' ' :: rest, rfl, by decide, by decide⟩
  · exact ⟨'=', ' ' :: rest, rfl, by decide, by decide⟩

/-- The sign between the names and the commands. -/
def signScan : Scan Bool :=
  (do Scan.word ":=".toList; return false)
    <|> (do let _ ← Scan.char '='; Scan.notFollowedBy (· == '='); return true)

/-- After the names only the sign is left. -/
theorem sign_append (assigns : Bool) (names : List String) (hrest : rest.head?.any isSpace = false) :
    (do
      let _ ← Scan.spaces
      let assigns ← signScan
      let _ ← Scan.spaces
      return (names, assigns) : Scan (List String × Bool)) (sign assigns ++ rest) =
        .found (names, assigns) rest := by
  have hlast := Scan.spaces_cons hrest
  cases assigns with
  | true =>
    have hspaces : Scan.spaces (sign true ++ rest) = .found [' '] ('=' :: ' ' :: rest) :=
      Scan.spaces_cons (by rfl)
    have hword : Scan.Misses (Scan.word [':', '=']) ('=' :: ' ' :: rest) :=
      Scan.misses_word (by simp)
    have hsign : signScan ('=' :: ' ' :: rest) = .found true (' ' :: rest) :=
      (hword.bind _).orElse.trans (Scan.bind_of_found (Scan.char_cons '=' _))
    exact (Scan.bind_of_found hspaces).trans ((Scan.bind_of_found hsign).trans
      (Scan.bind_of_found hlast))
  | false =>
    have hspaces : Scan.spaces (sign false ++ rest) = .found [' '] ([':', '='] ++ ' ' :: rest) :=
      Scan.spaces_cons (by rfl)
    have hsign : signScan ([':', '='] ++ ' ' :: rest) = .found false (' ' :: rest) :=
      Scan.orElse_of_found (Scan.bind_of_found (Scan.word_append [':', '='] _))
    exact (Scan.bind_of_found hspaces).trans ((Scan.bind_of_found hsign).trans
      (Scan.bind_of_found hlast))

theorem declaration_append (assigns : Bool) {names : List String} (hne : names ≠ [])
    (hmost : names.length ≤ 2) (hnames : ∀ x ∈ names, IsVariable x)
    (hrest : rest.head?.any isSpace = false) :
    Scan.declaration (renderNames assigns names ++ rest) = .found (names, assigns) rest := by
  obtain ⟨c, cs, hsign, hspace, hcomma⟩ := exists_sign_append assigns rest
  have hword : (sign assigns ++ rest).head?.any isIdentifierChar = false := by
    rw [hsign]
    exact (rfl : isIdentifierChar ' ' = false)
  rw [renderNames_append assigns hne]
  obtain ⟨x, others, rfl⟩ := List.exists_cons_of_ne_nil hne
  rw [List.forall_mem_cons] at hnames
  cases others with
  | nil =>
    rw [List.map_cons, List.map_nil, List.intercalate_singleton]
    refine (Scan.bind_of_found (Scan.variableName_append hnames.1 hword)).trans ?_
    have hsecond : Scan.Misses secondName (sign assigns ++ rest) := by
      rw [hsign]
      exact secondName_misses (by simp [isSpace]) (by simpa using hspace) (by simpa using hcomma)
    exact (Scan.bind_of_found hsecond.optional).trans (sign_append assigns [x] hrest)
  | cons y others =>
    obtain rfl : others = [] := by
      cases others with
      | nil => rfl
      | cons _ _ => simp at hmost
    have hsecond := secondName_append (hnames.2 y (List.mem_singleton_self y)) hword
    have hafter : (',' :: ' ' :: (y.toList ++ (sign assigns ++ rest))).head?.any isIdentifierChar
        = false :=
      (rfl : isIdentifierChar ',' = false)
    rw [List.map_cons, List.map_cons, List.map_nil, List.intercalate_cons_cons,
      List.intercalate_singleton, List.append_assoc, List.append_assoc]
    refine (Scan.bind_of_found (Scan.variableName_append hnames.1 hafter)).trans ?_
    exact (Scan.bind_of_found (Scan.optional_of_found hsecond)).trans
      (sign_append assigns [x, y] hrest)

end Names

/-! ### Pipelines -/

section Pipelines

variable {W : List Char → Prop} {o : Operand} {c : Command} {p : Pipeline}

theorem length_le_renderOperands {operands : List Operand} (h : o ∈ operands) :
    o.render.length ≤ (renderOperands operands).length := by
  induction operands with
  | nil => cases h
  | cons first operands ih =>
    cases operands with
    | nil => rw [List.mem_singleton.mp h, renderOperands]
    | cons second operands =>
      rw [renderOperands, List.length_append, List.length_cons]
      rcases List.mem_cons.mp h with rfl | h
      · omega
      · have hle := ih h
        omega

theorem length_le_renderCommand (h : o ∈ c.operands) : o.render.length ≤ c.render.length := by
  cases c
  exact length_le_renderOperands h

theorem length_le_renderCommands {commands : List Command} (h : c ∈ commands) :
    c.render.length ≤ (renderCommands commands).length := by
  induction commands with
  | nil => cases h
  | cons first commands ih =>
    cases commands with
    | nil => rw [List.mem_singleton.mp h, renderCommands]
    | cons second commands =>
      rw [renderCommands, List.length_append, List.length_append]
      rcases List.mem_cons.mp h with rfl | h
      · omega
      · have hle := ih h
        omega

theorem length_le_renderPipeline (h : c ∈ p.commands) : c.render.length ≤ p.render.length := by
  obtain ⟨pos, assigns, names, commands⟩ := p
  rw [Pipeline.render, List.length_append]
  exact (length_le_renderCommands h).trans (Nat.le_add_left _ _)

theorem Command.Lexical.head_render (h : c.Lexical W) (hlegible : ∀ t ∈ c.terms, t.Legible) :
    c.render.head?.any isOperandStart = true := by
  obtain ⟨hne, hoperands⟩ := h
  have hstart : ∀ o ∈ c.operands, o.render.head?.any isOperandStart = true := fun o ho =>
    (hoperands o ho).head_render (hlegible o (Command.mem_terms.mpr ⟨o, ho, o.mem_terms_self⟩))
  cases c
  exact head_renderOperands hne hstart

/-- What stands after an operand of a pipeline is no sign. -/
theorem noSign_tail {operands : List Operand} (commands : List Command) {rest : List Char}
    (hstart : ∀ o ∈ operands, o.render.head?.any isOperandStart = true)
    (hrest : EndsPipeline rest) :
    NoSign ((operands.flatMap fun o => ' ' :: o.render) ++
      ((commands.flatMap fun c => ' ' :: '|' :: ' ' :: c.render) ++ rest)) := by
  cases operands with
  | cons o operands =>
    refine ⟨[' '], o.render ++ ((operands.flatMap fun o => ' ' :: o.render) ++
      ((commands.flatMap fun c => ' ' :: '|' :: ' ' :: c.render) ++ rest)), ?_, by simp [isSpace],
      head_not_space (hstart o (List.mem_cons_self ..)) _, ?_⟩
    · simp
    · have hhead := head_append (hstart o (List.mem_cons_self ..))
        ((operands.flatMap fun o => ' ' :: o.render) ++
          ((commands.flatMap fun c => ' ' :: '|' :: ' ' :: c.render) ++ rest))
      rintro c hc heq
      rw [heq] at hhead
      have hnone : isOperandStart c = false := isOperandStart_of_mem (by
        simp only [List.mem_cons, List.not_mem_nil, or_false] at hc
        rcases hc with rfl | rfl | rfl <;> decide)
      rw [Option.any_some, hnone] at hhead
      cases hhead
  | nil =>
    cases commands with
    | cons c commands =>
      exact ⟨[' '], '|' :: ' ' :: (c.render ++ ((commands.flatMap fun c => ' ' :: '|' :: ' ' :: c.render)
        ++ rest)), by simp, by simp [isSpace], rfl, by simp⟩
    | nil =>
      refine ⟨[], rest, rfl, by simp, hrest.head_not (by decide), ?_⟩
      rintro c hc heq
      cases hrest c heq
      exact absurd hc (by decide)

/-- The texts of the commands of a pipeline are no declaration. -/
theorem leading_commands {commands : List Command} {rest : List Char} (declares : Bool)
    (hc : c.Lexical W) (hlegible : ∀ t ∈ c.terms, t.Legible) (hrest : EndsPipeline rest) :
    Scan.leading declares (renderCommands (c :: commands) ++ rest) =
      .found none (renderCommands (c :: commands) ++ rest) := by
  cases declares with
  | false => rfl
  | true =>
    refine Scan.Misses.optional ?_
    obtain ⟨hne, hoperands⟩ := hc
    obtain ⟨pos, operands⟩ := c
    obtain ⟨o, operands, rfl⟩ := List.exists_cons_of_ne_nil hne
    have hterms : ∀ p ∈ o :: operands, p.Legible := fun p hp =>
      hlegible p (Command.mem_terms.mpr ⟨p, hp, p.mem_terms_self⟩)
    have hstart : ∀ p ∈ operands, p.render.head?.any isOperandStart = true := fun p hp =>
      (hoperands p (List.mem_cons_of_mem _ hp)).head_render (hterms p (List.mem_cons_of_mem _ hp))
    have hsign := noSign_tail commands hstart hrest
    have hfirst := hoperands o (List.mem_cons_self ..)
    rw [renderCommands_cons, Command.render, renderOperands_cons, List.append_assoc,
      List.append_assoc]
    by_cases hvariable : ∃ name fields, o = .variable name fields
    · obtain ⟨name, fields, rfl⟩ := hvariable
      obtain ⟨hname, -⟩ : VariableOf W name ∧ ∀ f ∈ fields, IdentifierOf W f := by
        cases hfirst with
        | var hname hfields => exact ⟨hname, hfields⟩
      have hends := endsOperand_operands operands (endsCommand_commands commands hrest)
      rw [Operand.render, List.append_assoc]
      exact declaration_misses hname.shape (Scan.word_ends_renderFields fields hends.word_ends)
        (hsign.fields fields)
    · have hdollar := head?_of_not_variable hfirst
        fun name fields heq => hvariable ⟨name, fields, heq⟩
      refine Scan.Misses.bind (Scan.misses_variableName ?_) _
      have hhead := hfirst.head_render (hterms o (List.mem_cons_self ..))
      cases hrender : o.render with
      | nil => simp [hrender] at hhead
      | cons d ds => simpa [hrender] using hdollar

/-- The names in front of the commands, if there are any, are read as a declaration. -/
theorem leading_names (commands : List Command) {rest : List Char} {declares : Bool}
    (assigns : Bool) {names : List String} (hdeclares : declares = false → names = []) (hmost : names.length ≤ 2)
    (hnames : ∀ x ∈ names, IsVariable x) (hc : c.Lexical W) (hlegible : ∀ t ∈ c.terms, t.Legible)
    (hrest : EndsPipeline rest) :
    Scan.leading declares (renderNames assigns names ++ (renderCommands (c :: commands) ++ rest)) =
      .found (if names = [] then none else some (names, assigns))
        (renderCommands (c :: commands) ++ rest) := by
  by_cases hempty : names = []
  · subst hempty
    exact leading_commands declares hc hlegible hrest
  · cases declares with
    | false => exact absurd (hdeclares rfl) hempty
    | true =>
      rw [if_neg hempty]
      refine Scan.optional_of_found (declaration_append assigns hempty hmost hnames ?_)
      rw [renderCommands_cons, List.append_assoc]
      exact head_not_space (hc.head_render hlegible) _

/-- The first command, the others, and the names before them. -/
theorem readsBack_pipeline (locate : List Char → Pos) {inner : Scan Pipeline} {declares : Bool}
    (hp : p.Lexical W) (hlegible : ∀ t ∈ p.terms, t.Legible)
    (hdeclares : declares = false → p.names = [])
    (hback : ∀ c ∈ p.commands,
      ReadsBack (Scan.command locate inner) Command.unplaced EndsCommand c.render c) :
    ReadsBack (Scan.pipelineWith locate declares inner) Pipeline.unplaced EndsPipeline p.render p := by
  obtain ⟨hne, hcommands, hmost, hnames, hassigns⟩ := hp
  obtain ⟨pos, assigns, names, commands⟩ := p
  obtain ⟨c, commands, rfl⟩ := List.exists_cons_of_ne_nil hne
  have hterms : ∀ d ∈ c :: commands, ∀ t ∈ d.terms, t.Legible := fun d hd t ht =>
    hlegible t (Pipeline.mem_terms.mpr ⟨d, hd, ht⟩)
  have hstart : ∀ d ∈ c :: commands, d.render.head?.any isOperandStart = true := fun d hd =>
    (hcommands d hd).head_render (hterms d hd)
  rw [List.forall_mem_cons] at hback
  intro rest hrest
  obtain ⟨read, hread, hunplaced⟩ :=
    many_commands locate (List.forall_mem_cons.mp hstart).2 hback.2 hrest
  obtain ⟨c', hc, hsame⟩ := hback.1 _ (endsCommand_commands commands hrest)
  have hleading := leading_names commands assigns hdeclares hmost (fun x hx => (hnames x hx).shape)
    (hcommands c List.mem_cons_self) (hterms c List.mem_cons_self) hrest
  rw [Pipeline.render, List.append_assoc, Scan.pipelineWith_eq]
  let text := renderNames assigns names ++ (renderCommands (c :: commands) ++ rest)
  refine ⟨⟨locate text, assigns, names, c' :: read⟩, ?_, ?_⟩
  · have hhere : Scan.here text = .found text text := rfl
    refine (Scan.bind_of_found hhere).trans ((Scan.bind_of_found hleading).trans ?_)
    rw [renderCommands_cons, List.append_assoc]
    refine (Scan.bind_of_found hc).trans ((Scan.bind_of_found hread).trans ?_)
    by_cases hempty : names = []
    · subst hempty
      have hdeclaration : assigns = false := hassigns rfl
      subst hdeclaration
      rfl
    · rw [if_neg hempty]
      rfl
  · rw [Pipeline.unplaced, Pipeline.unplaced, unplacedCommands, unplacedCommands, hsame, hunplaced]

theorem Pipeline.Lexical.head_render (h : p.Lexical W) (hlegible : ∀ t ∈ p.terms, t.Legible)
    (hnames : p.names = []) : p.render.head?.any isOperandStart = true := by
  obtain ⟨hne, hcommands, -, -, -⟩ := h
  obtain ⟨pos, assigns, names, commands⟩ := p
  obtain ⟨c, commands, rfl⟩ := List.exists_cons_of_ne_nil hne
  cases hnames
  have hc := (hcommands c (List.mem_cons_self ..)).head_render fun t ht =>
    hlegible t (Pipeline.mem_terms.mpr ⟨c, List.mem_cons_self .., ht⟩)
  rw [Pipeline.render, renderCommands_cons]
  exact head_append hc _

/-- A pipeline in parentheses, with or without fields. -/
theorem operand_pipe (locate : List Char → Pos) (fields : List String) {n : Nat} {rest : List Char}
    (hp : p.Lexical W) (hnames : p.names = []) (hlegible : ∀ t ∈ p.terms, t.Legible)
    (hback : ∀ n, p.render.length ≤ n →
      ReadsBack (Scan.nested locate (n + 1)) Pipeline.unplaced EndsPipeline p.render p)
    (hfields : ∀ f ∈ fields, IdentifierOf W f)
    (hn : (('(' :: p.render ++ [')']) ++ renderFields fields).length ≤ n) (hrest : EndsOperand rest) :
    ∃ q, Scan.operand (Scan.nested locate n)
        (('(' :: p.render ++ [')']) ++ renderFields fields ++ rest) =
          .found (if fields.isEmpty then .pipe q else .chain (.pipe q) fields) rest ∧
      q.unplaced = p.unplaced := by
  obtain ⟨n, rfl⟩ : ∃ m, n = m + 1 := by
    refine Nat.exists_eq_add_one.mpr ?_
    simp only [List.length_append, List.length_cons] at hn
    omega
  have hends : EndsPipeline (')' :: (renderFields fields ++ rest)) := by
    simp [EndsPipeline]
  obtain ⟨q, hq, hsame⟩ := hback n (by
    simp only [List.length_append, List.length_cons] at hn
    omega) _ hends
  have hhead : p.render.head?.any isSpace = false :=
    head_not_of_start (hp.head_render hlegible hnames) fun _ => mem_separators_of_isSpace
  refine ⟨q, ?_, hsame⟩
  have hread := Scan.operand_parenthesized hhead hq (fun f hf => (hfields f hf).shape) hrest
  simpa using hread

mutual

theorem Operand.Lexical.readsBack (locate : List Char → Pos) {o : Operand} :
    o.Lexical W → (∀ t ∈ o.terms, t.Legible) → ∀ n, o.render.length ≤ n →
      ReadsBack (Scan.operand (Scan.nested locate n)) Operand.unplaced EndsOperand o.render o
  | .dot, _, _, _, _, hrest => ⟨_, Scan.operand_of_term (Scan.term_dot hrest) (by simp), rfl⟩
  | .field hne hfields, _, _, _, _, hrest =>
    ⟨_, Scan.operand_of_term (Scan.term_field hne (fun f hf => (hfields f hf).shape) hrest)
      (by simp), rfl⟩
  | .var hname hfields, _, _, _, _, hrest =>
    ⟨_, Scan.operand_of_term (Scan.term_variable hname.shape (fun f hf => (hfields f hf).shape) hrest)
      (by simp), rfl⟩
  | .identifier hname hliteral, _, _, _, _, hrest =>
    ⟨_, Scan.operand_of_term (Scan.term_identifier hname.shape hliteral hrest) (by simp), rfl⟩
  | @Operand.Lexical.chain _ p fields hp hnames hne hfields, hlegible, n, hn, rest, hrest => by
    have hterms : ∀ t ∈ p.terms, t.Legible := fun t ht => hlegible t (by simp [Operand.terms, ht])
    obtain ⟨q, hq, hsame⟩ := operand_pipe locate fields hp hnames hterms
      (fun m hm => hp.readsBack locate hterms m false (fun _ => hnames) hm) hfields hn hrest
    refine ⟨.chain (.pipe q) fields, ?_, ?_⟩
    · simpa [hne, Operand.render] using hq
    · simp [Operand.unplaced, hsame]
  | @Operand.Lexical.pipe _ p hp hnames, hlegible, n, hn, rest, hrest => by
    have hterms : ∀ t ∈ p.terms, t.Legible := fun t ht => hlegible t (by simp [Operand.terms, ht])
    obtain ⟨q, hq, hsame⟩ := operand_pipe locate [] hp hnames hterms
      (fun m hm => hp.readsBack locate hterms m false (fun _ => hnames) hm) (by simp)
      (by simpa [Operand.render, renderFields] using hn) hrest
    exact ⟨.pipe q, by simpa [Operand.render, renderFields] using hq, by simp [Operand.unplaced, hsame]⟩
  | .string, hlegible, _, _, _, _ => 
    ⟨_, Scan.operand_of_term (Scan.term_string (hlegible _ (Operand.mem_terms_self _))) (by simp), rfl⟩
  | .number (n := .int i), _, _, _, _, hrest =>
    ⟨_, Scan.operand_of_term (Scan.term_number i hrest) (by simp), rfl⟩
  | .number (n := .float _), hlegible, _, _, _, _ =>
    (hlegible _ (Operand.mem_terms_self _)).elim
  | .bool, _, _, _, _, hrest => ⟨_, Scan.operand_of_term (Scan.term_bool _ hrest) (by simp), rfl⟩
  | .nil, _, _, _, _, hrest => ⟨_, Scan.operand_of_term (Scan.term_nil hrest) (by simp), rfl⟩

theorem Command.Lexical.readsBack (locate : List Char → Pos) {c : Command} :
    c.Lexical W → (∀ t ∈ c.terms, t.Legible) → ∀ n, c.render.length ≤ n →
      ReadsBack (Scan.command locate (Scan.nested locate n)) Command.unplaced EndsCommand c.render c
  | .mk hne hoperands, hlegible, n, hn => by
    have hterms : ∀ o ∈ c.operands, ∀ t ∈ o.terms, t.Legible := fun o ho t ht =>
      hlegible t (Command.mem_terms.mpr ⟨o, ho, ht⟩)
    refine readsBack_command locate hne (fun o ho => ?_) fun o ho => ?_
    · exact (hoperands o ho).head_render (hterms o ho o o.mem_terms_self)
    · exact (hoperands o ho).readsBack locate (hterms o ho) n
        ((length_le_renderCommand ho).trans hn)

theorem Pipeline.Lexical.readsBack (locate : List Char → Pos) {p : Pipeline} :
    p.Lexical W → (∀ t ∈ p.terms, t.Legible) → ∀ n declares, (declares = false → p.names = []) →
      p.render.length ≤ n →
      ReadsBack (Scan.pipelineWith locate declares (Scan.nested locate n)) Pipeline.unplaced
        EndsPipeline p.render p
  | .mk hne hcommands hmost hnames hassigns, hlegible, n, declares, hdeclares, hn => by
    refine readsBack_pipeline locate ⟨hne, hcommands, hmost, hnames, hassigns⟩ hlegible hdeclares
      fun c hc => ?_
    refine (hcommands c hc).readsBack locate
      (fun t ht => hlegible t (Pipeline.mem_terms.mpr ⟨c, hc, ht⟩)) n ?_
    exact (length_le_renderPipeline hc).trans hn

end

end Pipelines

/-- A pipeline that is read of some text is read again, up to places, of its canonical source, and
nothing of that source is left; provided that its literals are spelled so that they can be read. -/
theorem pipeline_render {locate : List Char → Pos} {cs rest : List Char} {p : Pipeline}
    (hread : Scan.pipeline locate true cs = .found p rest) (hlegible : ∀ t ∈ p.terms, t.Legible)
    (locate' : List Char → Pos) :
    ∃ q, Scan.pipeline locate' true p.render = .found q [] ∧ q.unplaced = p.unplaced := by
  have hlexical : p.Lexical Region.anywhere.word :=
    (Scan.reads_pipeline locate true cs p rest trivial hread).2
  have hback := hlexical.readsBack locate' hlegible p.render.length true (by simp) le_rfl
  simpa [Scan.pipeline] using hback [] (by simp [EndsPipeline])

theorem pipeline_render_nested :
    ∃ p rest, Scan.pipeline (fun _ => ⟨1, 1⟩) true
        "$i, $x = ((.A | f \"é\\n\").B | g $y.C -5) | h true nil . 0x1f,".toList = .found p rest ∧
      (∀ t ∈ p.terms, t.Legible) ∧
      ∃ q, Scan.pipeline (fun _ => ⟨1, 2⟩) true p.render = .found q [] ∧ q.unplaced = p.unplaced := by
  obtain ⟨p, rest, hread, hlegible⟩ : ∃ p rest, Scan.pipeline (fun _ => ⟨1, 1⟩) true
      "$i, $x = ((.A | f \"é\\n\").B | g $y.C -5) | h true nil . 0x1f,".toList = .found p rest ∧
        ∀ t ∈ p.terms, t.Legible :=
    Scan.exists_of_any (by decide +kernel)
  exact ⟨p, rest, hread, hlegible, pipeline_render hread hlegible _⟩

end BoundQuery.Template
