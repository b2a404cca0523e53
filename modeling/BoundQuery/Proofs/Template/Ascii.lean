/-
# ASCII outside string literals

The search for the closing mark of an action refuses all characters beyond ASCII, but for those in
string literals. So the names in an action that is read are ASCII, and its canonical source is ASCII
outside string literals again: a search for a closing mark passes over it.

Main statements: `lexical_isBody`, `Pipeline.Lexical.passed_render`.
-/

import BoundQuery.Proofs.Template.Assembling
import BoundQuery.Proofs.Template.Extents
import BoundQuery.Proofs.Template.Readback

namespace BoundQuery.Template

open Text (Pos)

/-! ### Bodies of actions -/

/-- An ASCII character, whatever follows it. -/
def Ascii (c : Char) (_ : List Char) : Prop :=
  c.toNat < 0x80

section Bodies

variable {P : Char → List Char → Prop} {cs rest : List Char}

/-- What the search for a closing mark has passed over is ASCII outside string literals. -/
theorem ascii_of_cutClosing {tail more after : List Char} (h : Spans P cs rest)
    (hcut : cutClosing .outside (cs ++ tail) = .ok (cs ++ more, after)) : Spans Ascii cs rest := by
  induction h with
  | stop => exact .stop
  | @char c cs rest hquote hraw _ _ ih =>
    rw [List.cons_append, cutClosing] at hcut
    split at hcut
    · cases hcut
    · split at hcut
      · cases hcut
      · rename_i hclosing hforeign
        rw [next_outside hquote hraw] at hcut
        obtain ⟨⟨left, right⟩, hleft, heq⟩ := map_eq_ok_iff.mp hcut
        simp only [Prod.mk.injEq, List.cons_append, List.cons.injEq, true_and] at heq
        obtain ⟨rfl, rfl⟩ := heq
        refine .char hquote hraw ?_ (ih hleft)
        exact Nat.lt_of_not_le fun hle => hforeign ⟨rfl, hle⟩
  | @literal s cs beyond rest hread _ ih =>
    obtain ⟨quote, inner, -, rfl, hskips⟩ := string_found hread
    rw [List.append_assoc, hskips] at hcut
    obtain ⟨⟨left, right⟩, hleft, heq⟩ := map_eq_ok_iff.mp hcut
    simp only [Prod.mk.injEq, List.append_assoc, List.append_cancel_left_eq] at heq
    obtain ⟨rfl, rfl⟩ := heq
    exact .literal hread (ih hleft)

/-- The interior of an action is what the search for its closing mark has passed over. -/
theorem cutClosing_of_readTag {source : List Char} {t : Tag} (h : readTag source = .ok (t, rest))
    (haction : t.isComment = false) :
    ∃ tail, cutClosing .outside (t.interior ++ tail) =
      .ok (t.interior ++ dash t.trimsRight, rest) := by
  unfold readTag at h
  dsimp only at h
  generalize (if startsTrim source then source.drop 1 else source) = inner at h
  split at h
  · split at h
    · cases h
    · split at h
      · cases h
      · cases h
        cases haction
  · obtain ⟨⟨interior, after⟩, hcut, h⟩ := bind_eq_ok_iff.mp h
    cases h
    have hinterior := trimsRight_append interior
    have hsource := cutClosing_ok hcut
    refine ⟨dash (endsTrim interior) ++ closing ++ after, ?_⟩
    dsimp only
    rw [← List.append_assoc, ← List.append_assoc, hinterior, ← hsource, hcut]

theorem cutClosing_of_mem_cut {offset : Nat} {source text : List Char} {c : Cut} {t : Tag}
    (h : cut offset source = .ok c) (ht : (text, t) ∈ c.tags) (haction : t.isComment = false) :
    ∃ more tail after, cutClosing .outside (t.interior ++ tail) = .ok (t.interior ++ more, after) := by
  fun_induction cut offset source generalizing c with
  | case1 =>
    cases h
    cases ht
  | case2 => cases h
  | case3 offset source before after hopen first rest htag ih =>
    obtain ⟨c', hc', rfl⟩ := map_eq_ok_iff.mp h
    rcases List.mem_cons.mp ht with heq | ht
    · cases heq
      obtain ⟨tail, hcut⟩ := cutClosing_of_readTag htag haction
      exact ⟨_, tail, rest, hcut⟩
    · exact ih hc' ht

end Bodies

/-! ### Words of an action -/

/-- String literals are told apart from what stands between them in one way only. -/
theorem Spans.of_spans {P Q : Char → List Char → Prop} {cs rest : List Char} (h : Spans P cs [])
    (hrest : Spans Q cs rest) : Spans P rest [] := by
  induction hrest with
  | stop => exact h
  | char hquote hraw _ _ ih => exact ih (h.of_cons hquote hraw).2
  | @literal s cs after rest hread _ ih =>
    apply ih
    cases h with
    | stop => cases hread
    | char hquote hraw => exact absurd hread (string_cons hquote hraw _ _ _)
    | literal hread' hafter =>
      cases hread.symm.trans hread'
      exact hafter

/-- The texts that are ASCII outside string literals; their words are ASCII. -/
def Region.ascii : Region where
  text cs := Spans Ascii cs []
  word cs := ∀ c ∈ cs, c.toNat < 0x80
  rest htext hspans := htext.of_spans hspans
  take {cs rest} htext hmarks := by
    induction cs with
    | nil => simp
    | cons c cs ih =>
      rw [List.forall_mem_cons] at hmarks ⊢
      obtain ⟨hc, hrest⟩ := htext.of_cons (fun heq => hmarks.1 (by simp [marks, heq]))
        (fun heq => hmarks.1 (by simp [marks, heq]))
      exact ⟨hc, ih hrest hmarks.2⟩

/-- An action of a source says what can be written in ASCII. -/
theorem lexical_isBody {source body : List Char} {locate : List Char → Pos} {action : Action}
    (hbody : IsBody source body) (h : readAction locate body = .ok action) :
    action.clause.Lexical Region.ascii.word := by
  obtain ⟨found, start, bodyStart, hfound, hmem⟩ := hbody
  obtain ⟨c, hcut, rfl⟩ := map_eq_ok_iff.mp hfound
  obtain ⟨front, text, t, back, htags, haction, rfl, -⟩ := exists_tag_of_mem_segmentsFrom hmem
  have ht : (text, t) ∈ c.tags := htags ▸ List.mem_append_right front List.mem_cons_self
  obtain ⟨more, tail, after, hclosing⟩ := cutClosing_of_mem_cut hcut ht haction
  have hascii : Spans Ascii t.interior [] := ascii_of_cutClosing (spans_readAction h) hclosing
  exact (lexical_readAction (r := .ascii) hascii h).2

/-! ### Canonical source -/

/-- The text is passed over literal by literal, whatever follows it. -/
def Passed (P : Char → List Char → Prop) (cs : List Char) : Prop :=
  ∀ rest, Spans P (cs ++ rest) rest

section Passed

variable {P : Char → List Char → Prop} {cs more : List Char}

theorem passed_nil : Passed P [] :=
  fun _ => .stop

theorem Passed.append (h : Passed P cs) (h' : Passed P more) : Passed P (cs ++ more) := by
  intro rest
  rw [List.append_assoc]
  exact (h _).trans (h' rest)

theorem Passed.flatMap {α : Type} {xs : List α} {f : α → List Char}
    (h : ∀ x ∈ xs, Passed P (f x)) : Passed P (xs.flatMap f) := by
  induction xs with
  | nil => exact passed_nil
  | cons x xs ih =>
    rw [List.forall_mem_cons] at h
    rw [List.flatMap_cons]
    exact h.1.append (ih h.2)

/-- A character that can stand outside string literals in an action. -/
def Bare (c : Char) : Prop :=
  c ≠ '"' ∧ c ≠ Scan.backQuote ∧ c.toNat < 0x80

instance : DecidablePred Bare := fun _ =>
  inferInstanceAs (Decidable (_ ∧ _ ∧ _))

instance : Decidable (∀ c ∈ cs, Bare c) :=
  List.decidableBAll Bare cs

theorem passed_of_bare (h : ∀ c ∈ cs, Bare c) : Passed Ascii cs := by
  intro rest
  induction cs with
  | nil => exact .stop
  | cons c cs ih =>
    rw [List.forall_mem_cons] at h
    obtain ⟨⟨hquote, hraw, hascii⟩, hcs⟩ := h
    exact .char hquote hraw hascii (ih hcs)

/-- Outside string literals a text that is passed over is ASCII. -/
theorem Passed.bare (h : Passed Ascii cs) : ∀ c ∈ bare cs, c.toNat < 0x80 := by
  have hspans := h []
  rw [List.append_nil] at hspans
  have hall : ∀ {cs rest : List Char}, Spans Ascii cs rest → rest = [] →
      ∀ c ∈ Template.bare cs, c.toNat < 0x80 := by
    intro cs rest hspans hrest
    induction hspans with
    | stop => simp [hrest, Template.bare]
    | char hquote hraw hc _ ih =>
      rw [bare_cons hquote hraw, List.forall_mem_cons]
      exact ⟨hc, ih hrest⟩
    | literal hread _ ih =>
      rw [bare_literal hread]
      exact ih hrest
  exact hall hspans rfl

end Passed

section Rendered

theorem passed_word {cs : List Char} (hword : ∀ c ∈ cs, isIdentifierChar c = true)
    (h : Region.ascii.word cs) : Passed Ascii cs := by
  apply passed_of_bare
  intro c hc
  have hmark : c ∉ marks := Scan.unmarked_isIdentifierChar.notMem (hword c hc)
  simp only [marks, List.mem_cons, List.not_mem_nil, or_false, not_or] at hmark
  exact ⟨hmark.1, hmark.2.1, h c hc⟩

theorem IdentifierOf.passed {name : String} (h : IdentifierOf Region.ascii.word name) :
    Passed Ascii name.toList :=
  passed_word h.shape.isIdentifierChar h.word

theorem VariableOf.passed {name : String} (h : VariableOf Region.ascii.word name) :
    Passed Ascii name.toList := by
  obtain ⟨cs, hname, hchars⟩ := h.shape
  have hword := h.word
  rw [hname] at hword ⊢
  have hdollar : Passed Ascii ['$'] := passed_of_bare (by decide)
  exact hdollar.append (passed_word hchars fun c hc => hword c (List.mem_cons_of_mem _ hc))

theorem passed_fields {fields : List String}
    (h : ∀ f ∈ fields, IdentifierOf Region.ascii.word f) : Passed Ascii (renderFields fields) := by
  apply Passed.flatMap
  intro f hf
  have hdot : Passed Ascii ['.'] := passed_of_bare (by decide)
  exact hdot.append (h f hf).passed

theorem passed_string {s : String} (h : ∀ c ∈ s.toList, Scan.Legible c) :
    Passed Ascii (Text.Quoted.spell s.toList) :=
  fun rest => .literal (Scan.string_spell h rest) .stop

theorem passed_printInteger (i : Int) : Passed Ascii (Value.printInteger i) := by
  have hdigits : ∀ n, Passed Ascii (Nat.toDigits 10 n) := by
    intro n
    apply passed_of_bare
    intro c hc
    have hdigit : c.isDigit = true := Nat.isDigit_of_mem_toDigits (by decide) (by decide) hc
    refine ⟨Scan.ne_of_isDigit hdigit (by decide), Scan.ne_of_isDigit hdigit (by decide), ?_⟩
    exact (Char.isDigit_iff_toNat.mp hdigit).2.trans_lt (by decide)
  cases i with
  | ofNat n => exact hdigits n
  | negSucc n =>
    have hminus : Passed Ascii ['-'] := passed_of_bare (by decide)
    exact hminus.append (hdigits (n + 1))

theorem passed_names (assigns : Bool) {names : List String}
    (h : ∀ x ∈ names, VariableOf Region.ascii.word x) : Passed Ascii (renderNames assigns names) := by
  have hjoined : Passed Ascii ([',', ' '].intercalate (names.map String.toList)) := by
    have hcomma : Passed Ascii [',', ' '] := passed_of_bare (by decide)
    induction names with
    | nil => exact passed_nil
    | cons x names ih =>
      rw [List.forall_mem_cons] at h
      cases names with
      | nil =>
        rw [List.map_cons, List.map_nil, List.intercalate_singleton]
        exact h.1.passed
      | cons y names =>
        rw [List.map_cons, List.map_cons, List.intercalate_cons_cons]
        exact (h.1.passed.append hcomma).append (ih h.2)
  have hsign : Passed Ascii (if assigns then " = " else " := ").toList := by
    cases assigns <;> exact passed_of_bare (by decide)
  unfold renderNames
  split
  · exact passed_nil
  · exact hjoined.append hsign

theorem passed_operands {operands : List Operand} (h : ∀ o ∈ operands, Passed Ascii o.render) :
    Passed Ascii (renderOperands operands) := by
  have hspace : Passed Ascii [' '] := passed_of_bare (by decide)
  cases operands with
  | nil => exact passed_nil
  | cons o operands =>
    rw [List.forall_mem_cons] at h
    rw [renderOperands_cons]
    apply h.1.append
    apply Passed.flatMap
    intro p hp
    exact hspace.append (h.2 p hp)

theorem passed_commands {commands : List Command} (h : ∀ c ∈ commands, Passed Ascii c.render) :
    Passed Ascii (renderCommands commands) := by
  have hbar : Passed Ascii [' ', '|', ' '] := passed_of_bare (by decide)
  cases commands with
  | nil => exact passed_nil
  | cons c commands =>
    rw [List.forall_mem_cons] at h
    rw [renderCommands_cons]
    apply h.1.append
    apply Passed.flatMap
    intro d hd
    exact hbar.append (h.2 d hd)

theorem passed_parentheses {cs : List Char} (h : Passed Ascii cs) :
    Passed Ascii ('(' :: cs ++ [')']) := by
  have hopening : Passed Ascii ['('] := passed_of_bare (by decide)
  have hclosing : Passed Ascii [')'] := passed_of_bare (by decide)
  exact (hopening.append h).append hclosing

mutual

theorem Operand.Lexical.passed_render {o : Operand} :
    o.Lexical Region.ascii.word → (∀ t ∈ o.terms, t.Legible) → Passed Ascii o.render
  | .dot, _ => passed_of_bare (by decide)
  | .field _ hfields, _ => passed_fields hfields
  | .var hname hfields, _ => hname.passed.append (passed_fields hfields)
  | .identifier hname _, _ => hname.passed
  | @Operand.Lexical.chain _ p fields hp _ _ hfields, hlegible => by
    have hterms : ∀ t ∈ p.terms, t.Legible := by
      intro t ht
      exact hlegible t (by simp [Operand.terms, ht])
    exact (passed_parentheses (hp.passed_render hterms)).append (passed_fields hfields)
  | @Operand.Lexical.pipe _ p hp _, hlegible => by
    have hterms : ∀ t ∈ p.terms, t.Legible := by
      intro t ht
      exact hlegible t (by simp [Operand.terms, ht])
    exact passed_parentheses (hp.passed_render hterms)
  | .string, hlegible => passed_string (hlegible _ (Operand.mem_terms_self _))
  | .number (n := .int i), _ => passed_printInteger i.toInt
  | .number (n := .float _), hlegible => (hlegible _ (Operand.mem_terms_self _)).elim
  | .bool (b := b), _ => by cases b <;> exact passed_of_bare (by decide)
  | .nil, _ => passed_of_bare (by decide)

theorem Command.Lexical.passed_render {c : Command} :
    c.Lexical Region.ascii.word → (∀ t ∈ c.terms, t.Legible) → Passed Ascii c.render
  | .mk _ hoperands, hlegible => by
    have hall : ∀ o ∈ c.operands, Passed Ascii o.render := by
      intro o ho
      exact (hoperands o ho).passed_render fun t ht => hlegible t (Command.mem_terms.mpr ⟨o, ho, ht⟩)
    cases c
    exact passed_operands hall

theorem Pipeline.Lexical.passed_render {p : Pipeline} :
    p.Lexical Region.ascii.word → (∀ t ∈ p.terms, t.Legible) → Passed Ascii p.render
  | .mk _ hcommands _ hnames _, hlegible => by
    have hall : ∀ c ∈ p.commands, Passed Ascii c.render := by
      intro c hc
      exact (hcommands c hc).passed_render fun t ht => hlegible t (Pipeline.mem_terms.mpr ⟨c, hc, ht⟩)
    cases p
    exact (passed_names _ hnames).append (passed_commands hall)

end

end Rendered

end BoundQuery.Template
