/-
# Actions are read back

The canonical body of an action is read as what the action says, up to places. The words that tell
clauses apart are looked for one after the other: each is found in canonical source where its own
clause stands, and in the source of a pipeline none is.

Main statements: `readAction_render`, `head?_of_readAction`.
-/

import Mathlib.Data.List.Nodup
import BoundQuery.Proofs.Template.Canonical
import BoundQuery.Proofs.Template.Readback

namespace BoundQuery.Template

open Text (Pos)

/-! ### Legible clauses -/

/-- The names of templates in what an action says. -/
def Clause.names : Clause → List String
  | .definition name | .invocation name _ | .block name _ => [name]
  | _ => []

/-- The literals of the clause, and the names of templates in it, are spelled so that they can be
read. -/
structure Clause.Legible (c : Clause) : Prop where
  terms : ∀ p ∈ c.pipelines, ∀ t ∈ p.terms, t.Legible
  names : ∀ name ∈ c.names, ∀ char ∈ name.toList, Scan.Legible char

instance : DecidablePred Clause.Legible := fun c =>
  decidable_of_iff ((∀ p ∈ c.pipelines, ∀ t ∈ p.terms, t.Legible) ∧
      ∀ name ∈ c.names, ∀ char ∈ name.toList, Scan.Legible char)
    ⟨fun h => ⟨h.1, h.2⟩, fun h => ⟨h.terms, h.names⟩⟩

/-! ### Keywords -/

section Keywords

variable {W : List Char → Prop} {keyword : String} {rest : List Char}

theorem isIdentifierChar_of_mem_keywords (hkeyword : keyword ∈ keywords) :
    ∀ c ∈ keyword.toList, isIdentifierChar c = true := by
  have hall : keywords.all (fun keyword => keyword.toList.all isIdentifierChar) = true := by decide
  exact List.all_eq_true.mp (List.all_eq_true.mp hall keyword hkeyword)

/-- A keyword is missed where another word stands. -/
theorem keyword_misses_of_word (hkeyword : keyword ∈ keywords) {word : String}
    (hword : ∀ c ∈ word.toList, isIdentifierChar c = true) (hne : word ≠ keyword)
    (hrest : rest.head?.any isIdentifierChar = false) :
    Scan.Misses (Scan.keyword keyword) (word.toList ++ rest) := by
  apply Scan.keyword_misses word.toList (isIdentifierChar_of_mem_keywords hkeyword) hword _ hrest
  intro heq
  exact hne (String.toList_inj.mp heq)

/-- A keyword is missed where no identifier starts. -/
theorem keyword_misses_of_start (hkeyword : keyword ∈ keywords) {cs : List Char}
    (hstart : cs.head?.any isIdentifierStart = false) : Scan.Misses (Scan.keyword keyword) cs := by
  have hall : keywords.all (fun keyword => keyword.toList.head?.any isIdentifierStart) = true := by
    decide
  obtain ⟨c, hc, hletter⟩ := Scan.exists_head_of_any (List.all_eq_true.mp hall keyword hkeyword)
  obtain ⟨chars, hchars⟩ := List.head?_eq_some_iff.mp hc
  have hmisses : Scan.Misses (Scan.word keyword.toList) cs := by
    rw [hchars]
    apply Scan.misses_word
    intro hhead
    rw [hhead, Option.any_some, hletter] at hstart
    cases hstart
  exact hmisses.bind _

/-- No keyword stands in front of an operand that names no keyword as a function. -/
theorem Operand.Lexical.keyword_misses {o : Operand} (h : o.Lexical W) (hlegible : o.Legible)
    (hkeyword : keyword ∈ keywords) (hfunction : o ≠ .identifier keyword)
    (hrest : EndsOperand rest) : Scan.Misses (Scan.keyword keyword) (o.render ++ rest) := by
  have hword : rest.head?.any isIdentifierChar = false := hrest.word_ends
  have hstart : ∀ (c : Char) (cs : List Char), o.render = c :: cs → isIdentifierStart c = false →
      Scan.Misses (Scan.keyword keyword) (o.render ++ rest) := by
    intro c cs hrender hc
    apply keyword_misses_of_start hkeyword
    rw [hrender, List.cons_append, List.head?_cons, Option.any_some, hc]
  have hliteral : ∀ word : String, word ∈ literalWords →
      Scan.Misses (Scan.keyword keyword) (word.toList ++ rest) := by
    intro word hliteral
    apply keyword_misses_of_word hkeyword (Scan.isIdentifierChar_of_mem_literalWords hliteral) _ hword
    rintro rfl
    have hall : literalWords.all (fun word => !keywords.contains word) = true := by decide
    have hnone := List.all_eq_true.mp hall word hliteral
    simp [hkeyword] at hnone
  cases h with
  | dot => exact hstart _ _ rfl rfl
  | @field fields hne _ =>
    obtain ⟨name, names, rfl⟩ := List.exists_cons_of_ne_nil hne
    exact hstart _ _ (Scan.renderFields_cons name names) rfl
  | @var name fields hname _ =>
    obtain ⟨cs, hname, -⟩ := hname.shape
    refine hstart '$' (cs ++ renderFields fields) ?_ rfl
    rw [Operand.render, hname, List.cons_append]
  | @identifier name hname _ =>
    apply keyword_misses_of_word hkeyword hname.shape.isIdentifierChar _ hword
    rintro rfl
    exact hfunction rfl
  | chain | pipe => exact hstart '(' _ rfl rfl
  | string => exact hstart '"' _ rfl rfl
  | @number n =>
    cases n with
    | float x => exact hlegible.elim
    | int i =>
      obtain ⟨c, hhead, hc⟩ := Scan.head?_printInteger i.toInt
      obtain ⟨cs, hcs⟩ := List.head?_eq_some_iff.mp hhead
      refine hstart c cs hcs ?_
      rcases hc with rfl | hdigit
      · rfl
      · refine Bool.eq_false_iff.mpr fun hletter => ?_
        rw [Scan.isDigit_of_isIdentifierStart hletter] at hdigit
        cases hdigit
  | @bool b =>
    cases b with
    | true => exact hliteral "true" (by decide)
    | false => exact hliteral "false" (by decide)
  | nil => exact hliteral "nil" (by decide)

/-- The canonical source of a pipeline with names on its left starts with a dollar sign. -/
theorem Pipeline.Lexical.head_render_names {p : Pipeline} (h : p.Lexical W) (hnames : p.names ≠ []) :
    p.render.head? = some '$' := by
  obtain ⟨-, -, -, hvariables, -⟩ := h
  obtain ⟨pos, assigns, names, commands⟩ := p
  obtain ⟨name, names, rfl⟩ := List.exists_cons_of_ne_nil hnames
  obtain ⟨cs, hname, -⟩ := (hvariables name List.mem_cons_self).shape
  rw [Pipeline.render, renderNames_append assigns hnames, List.map_cons, hname]
  cases names <;> rfl

/-- No keyword stands in front of a pipeline that does not start with one. -/
theorem Pipeline.Lexical.keyword_misses {p : Pipeline} (h : p.Lexical W)
    (hlegible : ∀ t ∈ p.terms, t.Legible) (hunreserved : p.Unreserved)
    (hkeyword : keyword ∈ keywords) : Scan.Misses (Scan.keyword keyword) p.render := by
  by_cases hnames : p.names = []
  · obtain ⟨hne, hcommands, -⟩ := h
    obtain ⟨pos, assigns, names, commands⟩ := p
    obtain ⟨⟨start, operands⟩, commands, rfl⟩ := List.exists_cons_of_ne_nil hne
    obtain ⟨hfilled, hoperands⟩ := hcommands _ List.mem_cons_self
    obtain ⟨o, operands, rfl⟩ := List.exists_cons_of_ne_nil hfilled
    have ho : o.Legible := by
      refine hlegible o (Pipeline.mem_terms.mpr ⟨_, List.mem_cons_self, ?_⟩)
      exact Command.mem_terms.mpr ⟨o, List.mem_cons_self, o.mem_terms_self⟩
    have hfunction : o ≠ .identifier keyword := by
      rintro rfl
      exact hunreserved hnames _ rfl keyword rfl hkeyword
    have hends : EndsPipeline [] := by simp [EndsPipeline]
    have hrest := endsOperand_operands operands (endsCommand_commands commands hends)
    rw [List.append_nil] at hrest
    cases hnames
    change Scan.Misses _ (renderCommands _)
    rw [renderCommands_cons, Command.render, renderOperands_cons, List.append_assoc]
    exact (hoperands o List.mem_cons_self).keyword_misses ho hkeyword hfunction hrest
  · apply keyword_misses_of_start hkeyword
    rw [h.head_render_names hnames]
    rfl

/-- A pipeline does not start with white space. -/
theorem Pipeline.Lexical.exists_render {p : Pipeline} (h : p.Lexical W)
    (hlegible : ∀ t ∈ p.terms, t.Legible) : ∃ c cs, p.render = c :: cs ∧ isSpace c = false := by
  have hcons : ∀ {c : Char}, p.render.head? = some c → isSpace c = false →
      ∃ c cs, p.render = c :: cs ∧ isSpace c = false := by
    intro c hc hspace
    obtain ⟨cs, hcs⟩ := List.head?_eq_some_iff.mp hc
    exact ⟨c, cs, hcs, hspace⟩
  by_cases hnames : p.names = []
  · have hstart := h.head_render hlegible hnames
    obtain ⟨c, hc, -⟩ := Scan.exists_head_of_any hstart
    have hspace := head_not_of_start hstart fun _ => mem_separators_of_isSpace
    rw [hc] at hspace
    exact hcons hc hspace
  · exact hcons (h.head_render_names hnames) (by decide)

theorem Pipeline.Lexical.head_not_space {p : Pipeline} (h : p.Lexical W)
    (hlegible : ∀ t ∈ p.terms, t.Legible) : p.render.head?.any isSpace = false := by
  obtain ⟨c, cs, hrender, hspace⟩ := h.exists_render hlegible
  rw [hrender]
  exact hspace

/-- A keyword does not start with white space. -/
theorem exists_keyword (hkeyword : keyword ∈ keywords) (cs : List Char) :
    ∃ c more, keyword.toList ++ cs = c :: more ∧ isSpace c = false := by
  have hall : keywords.all (fun keyword => keyword.toList.head?.any (!isSpace ·)) = true := by
    decide
  obtain ⟨c, hc, hspace⟩ := Scan.exists_head_of_any (List.all_eq_true.mp hall keyword hkeyword)
  obtain ⟨chars, hchars⟩ := List.head?_eq_some_iff.mp hc
  exact ⟨c, chars ++ cs, by rw [hchars, List.cons_append], by simpa using hspace⟩

end Keywords

/-! ### Clauses -/

section Clauses

variable {W : List Char → Prop} {c : Clause} {cs rest : List Char} (locate : List Char → Pos)

/-- A pipeline is read back, up to places. -/
theorem Pipeline.Lexical.exists_pipeline {p : Pipeline} (h : p.Lexical W)
    (hlegible : ∀ t ∈ p.terms, t.Legible) (declares : Bool)
    (hdeclares : declares = false → p.names = []) :
    ∃ q, Scan.pipeline locate declares p.render = .found q [] ∧ q.unplaced = p.unplaced := by
  have hback := h.readsBack locate hlegible p.render.length declares hdeclares le_rfl
  simpa [Scan.pipeline] using hback [] (by simp [EndsPipeline])

/-- A clause with a keyword misses where the keyword does. -/
theorem keyed_misses {s : String × Scan Clause} (hs : s ∈ Scan.keyed locate)
    (h : Scan.Misses (Scan.keyword s.1) cs) : Scan.Misses s.2 cs := by
  simp only [Scan.keyed, List.mem_cons, List.not_mem_nil, or_false] at hs
  rcases hs with rfl | rfl | rfl | rfl | rfl | rfl | rfl | rfl | rfl | rfl
  · exact (h.bind _).map _
  · exact h.bind _
  · exact h.bind _
  · exact (h.bind _).map _
  · exact (h.bind _).map _
  · exact h.bind _
  · exact h.bind _
  · exact h.bind _
  · exact h.bind _
  · exact h.bind _

theorem firstOf_eq_last {scanners : List (String × Scan Clause)} {last : Scan Clause}
    (h : ∀ s ∈ scanners, Scan.Misses s.2 cs) : Scan.firstOf scanners last cs = last cs := by
  induction scanners with
  | nil => rfl
  | cons s scanners ih =>
    rw [List.forall_mem_cons] at h
    exact h.1.orElse.trans (ih h.2)

theorem firstOf_eq_of_mem {scanners : List (String × Scan Clause)} {last : Scan Clause}
    {s : String × Scan Clause} (hs : s ∈ scanners) (hfound : s.2 cs = .found c rest)
    (h : ∀ t ∈ scanners, t ≠ s → Scan.Misses t.2 cs) :
    Scan.firstOf scanners last cs = .found c rest := by
  induction scanners with
  | nil => cases hs
  | cons t scanners ih =>
    rw [List.forall_mem_cons] at h
    by_cases heq : t = s
    · subst heq
      exact Scan.orElse_of_found hfound
    · have hlater : s ∈ scanners := (List.mem_cons.mp hs).resolve_left (Ne.symm heq)
      exact (h.1 heq).orElse.trans (ih hlater h.2)

theorem keyword_of_mem_keyed {s : String × Scan Clause} (hs : s ∈ Scan.keyed locate) :
    s.1 ∈ keywords := by
  rw [← Scan.keyed_keywords locate]
  exact List.mem_map_of_mem hs

/-- Clauses with the same keyword are the same. -/
theorem eq_of_keyed {s t : String × Scan Clause} (hs : s ∈ Scan.keyed locate)
    (ht : t ∈ Scan.keyed locate) (h : t.1 = s.1) : t = s := by
  have hnodup : ((Scan.keyed locate).map Prod.fst).Nodup := by
    rw [Scan.keyed_keywords]
    decide
  exact List.inj_on_of_nodup_map hnodup ht hs h

/-- Where its keyword stands, a clause is read as the scanner for the keyword reads it. -/
theorem clause_of_keyed {keyword : String} {p : Scan Clause}
    (hp : (keyword, p) ∈ Scan.keyed locate) (hcs : cs.head?.any isIdentifierChar = false)
    (hfound : p (keyword.toList ++ cs) = .found c rest) :
    Scan.clause locate (keyword.toList ++ cs) = .found c rest := by
  rw [Scan.clause_eq]
  apply firstOf_eq_of_mem hp hfound
  intro s hs hne
  have hword := isIdentifierChar_of_mem_keywords (keyword_of_mem_keyed locate hp)
  apply keyed_misses locate hs
  apply keyword_misses_of_word (keyword_of_mem_keyed locate hs) hword _ hcs
  intro heq
  exact hne (eq_of_keyed locate hp hs heq.symm)

theorem space_not_identifierChar (cs : List Char) :
    (' ' :: cs).head?.any isIdentifierChar = false :=
  (rfl : isIdentifierChar ' ' = false)

/-- A control structure is read back after its keyword. -/
theorem exists_control (kind : Control) (construct : Construct) {p : Pipeline} (hp : p.Lexical W)
    (hlegible : ∀ t ∈ p.terms, t.Legible) :
    ∃ q, Scan.control locate kind construct (kind.keyword.toList ++ ' ' :: p.render) = .found q [] ∧
      q.unplaced = p.unplaced := by
  obtain ⟨q, hq, hsame⟩ := hp.exists_pipeline locate hlegible true (by simp)
  have hkeyword := Scan.keyword_append kind.keyword (space_not_identifierChar p.render)
  have hspaces := Scan.spaces_cons (hp.head_not_space hlegible)
  refine ⟨q, ?_, hsame⟩
  refine (Scan.bind_of_found hkeyword).trans ((Scan.bind_of_found hspaces).trans ?_)
  exact Scan.commit_of_found (Scan.within_of_found hq)

theorem control_mem_keyed (kind : Control) :
    (kind.keyword, Clause.control kind <$> Scan.control locate kind kind.construct) ∈
      Scan.keyed locate := by
  cases kind <;> simp [Scan.keyed, Control.keyword, Control.construct]

theorem jump_mem_keyed (kind : Jump) :
    (kind.keyword, (do Scan.keyword kind.keyword; return Clause.jump kind)) ∈ Scan.keyed locate := by
  cases kind <;> simp [Scan.keyed, Jump.keyword]

/-- The name of a template is read back after a keyword and a space. -/
theorem bind_name (construct : Construct) (f : String → Scan Clause) {name : String}
    (hname : ∀ c ∈ name.toList, Scan.Legible c) (cs : List Char) :
    (Scan.spaces >>= fun _ => Scan.commit (Scan.within construct Scan.string) >>= f)
      (' ' :: (Text.Quoted.spell name.toList ++ cs)) = f name cs := by
  have hquote : (Text.Quoted.spell name.toList ++ cs).head?.any isSpace = false :=
    (by decide : isSpace '"' = false)
  refine (Scan.bind_of_found (Scan.spaces_cons hquote)).trans ?_
  exact Scan.bind_of_found (Scan.commit_of_found (Scan.within_of_found (Scan.string_spell hname cs)))

/-- The data of a called template is read back. -/
theorem exists_data {data : Option Pipeline} (hdata : ∀ p ∈ data, p.Lexical W ∧ p.names = [])
    (hlegible : ∀ p ∈ data, ∀ t ∈ p.terms, t.Legible) :
    ∃ other, Scan.commit (Scan.optional (do let _ ← Scan.someSpaces; Scan.pipeline locate false))
        (dataSource data) = .found other [] ∧
      other.map Pipeline.unplaced = data.map Pipeline.unplaced := by
  cases data with
  | none =>
    have hspaces : Scan.Misses Scan.someSpaces [] := Scan.misses_someSpaces rfl
    exact ⟨none, Scan.commit_of_found (hspaces.bind _).optional, rfl⟩
  | some p =>
    obtain ⟨hp, hnames⟩ := hdata p rfl
    have hterms := hlegible p rfl
    obtain ⟨q, hq, hsame⟩ := hp.exists_pipeline locate hterms false fun _ => hnames
    have hspaces := Scan.someSpaces_cons (hp.head_not_space hterms)
    refine ⟨some q, ?_, congrArg some hsame⟩
    exact Scan.commit_of_found (Scan.optional_of_found ((Scan.bind_of_found hspaces).trans hq))

/-- A pipeline is read back as what an action says: it starts with no keyword. -/
theorem clause_pipeline {p : Pipeline} (hp : p.Lexical W) (hunreserved : p.Unreserved)
    (hlegible : ∀ t ∈ p.terms, t.Legible) :
    ∃ d, Scan.clause locate p.render = .found d [] ∧ d.Same (.pipeline p) := by
  obtain ⟨q, hq, hsame⟩ := hp.exists_pipeline locate hlegible true (by simp)
  refine ⟨.pipeline q, ?_, .pipeline hsame⟩
  have hmisses : ∀ s ∈ Scan.keyed locate, Scan.Misses s.2 p.render := by
    intro s hs
    apply keyed_misses locate hs
    exact hp.keyword_misses hlegible hunreserved (keyword_of_mem_keyed locate hs)
  rw [Scan.clause_eq, firstOf_eq_last hmisses]
  exact Scan.map_of_found _ hq

theorem clause_control {kind : Control} {p : Pipeline} (hp : p.Lexical W)
    (hlegible : ∀ t ∈ p.terms, t.Legible) :
    ∃ d, Scan.clause locate (kind.keyword.toList ++ ' ' :: p.render) = .found d [] ∧
      d.Same (.control kind p) := by
  obtain ⟨q, hq, hsame⟩ := exists_control locate kind kind.construct hp hlegible
  refine ⟨.control kind q, ?_, .control hsame⟩
  apply clause_of_keyed locate (control_mem_keyed locate kind) (space_not_identifierChar _)
  exact Scan.map_of_found _ hq

/-- What follows the keyword for otherwise is read back, if it is no loop. -/
theorem clause_elseControl {kind : Control} {p : Pipeline} (hp : p.Lexical W) (hkind : kind ≠ .range)
    (hlegible : ∀ t ∈ p.terms, t.Legible) :
    ∃ d, Scan.clause locate ("else".toList ++ ' ' :: (kind.keyword.toList ++ ' ' :: p.render)) =
        .found d [] ∧ d.Same (.elseControl kind p) := by
  obtain ⟨q, hq, hsame⟩ := exists_control locate kind kind.construct hp hlegible
  refine ⟨.elseControl kind q, ?_, .elseControl hsame⟩
  have helse := Scan.keyword_append "else"
    (space_not_identifierChar (kind.keyword.toList ++ ' ' :: p.render))
  have hspaces : Scan.spaces (' ' :: (kind.keyword.toList ++ ' ' :: p.render)) =
      .found [' '] (kind.keyword.toList ++ ' ' :: p.render) := by
    apply Scan.spaces_cons
    cases kind <;> rfl
  apply clause_of_keyed locate (by simp [Scan.keyed] : ("else", Scan.elseClause locate) ∈ _)
    (space_not_identifierChar _)
  refine (Scan.bind_of_found helse).trans ?_
  cases kind with
  | range => exact absurd rfl hkind
  | cond => exact Scan.orElse_of_found (Scan.map_of_found _ ((Scan.bind_of_found hspaces).trans hq))
  | scope =>
    have hcond : Scan.Misses (Scan.control locate .cond .cond) ("with".toList ++ ' ' :: p.render) := by
      apply Scan.Misses.bind
      apply keyword_misses_of_word (by decide) (isIdentifierChar_of_mem_keywords (by decide))
        (by decide) (space_not_identifierChar _)
    have hmisses := Scan.misses_of_found_bind (f := fun _ => Scan.control locate .cond .cond)
      hspaces hcond
    refine (hmisses.map _).orElse.trans ?_
    exact Scan.orElse_of_found (Scan.map_of_found _ ((Scan.bind_of_found hspaces).trans hq))

theorem clause_otherwise : Scan.clause locate ("else".toList ++ []) = .found .otherwise [] := by
  apply clause_of_keyed locate (by simp [Scan.keyed] : ("else", Scan.elseClause locate) ∈ _) rfl
  refine (Scan.bind_of_found (Scan.keyword_append "else" rfl)).trans ?_
  -- Nothing follows, so no structure goes on.
  have hmisses : ∀ (kind : Control) (construct : Construct),
      Scan.Misses (do let _ ← Scan.spaces; Scan.control locate kind construct) [] := by
    intro kind construct
    apply Scan.misses_of_found_bind (Scan.spaces_none rfl)
    apply Scan.Misses.bind
    apply keyword_misses_of_start _ rfl
    cases kind <;> decide
  exact ((hmisses .cond .cond).map _).orElse.trans ((hmisses .scope .scope).map _).orElse

theorem clause_word {keyword : String} {c : Clause}
    (hmem : (keyword, (do Scan.keyword keyword; return c)) ∈ Scan.keyed locate) :
    Scan.clause locate (keyword.toList ++ []) = .found c [] :=
  clause_of_keyed locate hmem rfl (Scan.bind_of_found (Scan.keyword_append keyword rfl))

theorem clause_definition {name : String} (hname : ∀ c ∈ name.toList, Scan.Legible c) :
    Scan.clause locate ("define".toList ++ ' ' :: Text.Quoted.spell name.toList) =
      .found (.definition name) [] := by
  apply clause_of_keyed locate (by simp [Scan.keyed] : ("define", Scan.definition) ∈ _)
    (space_not_identifierChar _)
  refine (Scan.bind_of_found (Scan.keyword_append "define" (space_not_identifierChar _))).trans ?_
  have hread := bind_name .definition (fun name => pure (.definition name)) hname []
  rw [List.append_nil] at hread
  exact hread

theorem clause_invocation {name : String} {data : Option Pipeline}
    (hname : ∀ c ∈ name.toList, Scan.Legible c) (hdata : ∀ p ∈ data, p.Lexical W ∧ p.names = [])
    (hlegible : ∀ p ∈ data, ∀ t ∈ p.terms, t.Legible) :
    ∃ d, Scan.clause locate
        ("template".toList ++ ' ' :: (Text.Quoted.spell name.toList ++ dataSource data)) =
          .found d [] ∧ d.Same (.invocation name data) := by
  obtain ⟨other, hother, hsame⟩ := exists_data locate hdata hlegible
  refine ⟨.invocation name other, ?_, .invocation hsame⟩
  apply clause_of_keyed locate (by simp [Scan.keyed] : ("template", Scan.invocation locate) ∈ _)
    (space_not_identifierChar _)
  refine (Scan.bind_of_found (Scan.keyword_append "template" (space_not_identifierChar _))).trans ?_
  exact (bind_name .invocation _ hname _).trans (Scan.bind_of_found hother)

theorem clause_block {name : String} {p : Pipeline} (hname : ∀ c ∈ name.toList, Scan.Legible c)
    (hp : p.Lexical W) (hnames : p.names = []) (hlegible : ∀ t ∈ p.terms, t.Legible) :
    ∃ d, Scan.clause locate
        ("block".toList ++ ' ' :: (Text.Quoted.spell name.toList ++ ' ' :: p.render)) =
          .found d [] ∧ d.Same (.block name p) := by
  obtain ⟨q, hq, hsame⟩ := hp.exists_pipeline locate hlegible false fun _ => hnames
  have hspaces := Scan.someSpaces_cons (hp.head_not_space hlegible)
  refine ⟨.block name q, ?_, .block hsame⟩
  apply clause_of_keyed locate (by simp [Scan.keyed] : ("block", Scan.block locate) ∈ _)
    (space_not_identifierChar _)
  refine (Scan.bind_of_found (Scan.keyword_append "block" (space_not_identifierChar _))).trans ?_
  refine (bind_name .block _ hname _).trans (Scan.bind_of_found (Scan.commit_of_found ?_))
  exact (Scan.bind_of_found hspaces).trans (Scan.within_of_found hq)

/-- The canonical body of an action is read as what it says, up to places. -/
theorem exists_clause (hc : c.Lexical W) (hlegible : c.Legible) :
    ∃ d, Scan.clause locate c.render = .found d [] ∧ d.Same c := by
  obtain ⟨hterms, hnames⟩ := hlegible
  cases c with
  | pipeline p => exact clause_pipeline locate hc.1 hc.2 (hterms p List.mem_cons_self)
  | control kind p =>
    rw [render_control]
    exact clause_control locate hc (hterms p List.mem_cons_self)
  | elseControl kind p =>
    rw [render_elseControl]
    exact clause_elseControl locate hc.1 hc.2 (hterms p List.mem_cons_self)
  | otherwise => exact ⟨.otherwise, clause_otherwise locate, .otherwise⟩
  | close =>
    have hmem : ("end", (do Scan.keyword "end"; return Clause.close)) ∈ Scan.keyed locate := by
      simp [Scan.keyed]
    exact ⟨.close, clause_word locate hmem, .close⟩
  | definition name =>
    rw [render_definition]
    exact ⟨_, clause_definition locate (hnames name List.mem_cons_self), .definition⟩
  | invocation name data =>
    rw [render_invocation]
    refine clause_invocation locate (hnames name List.mem_cons_self) hc fun p hp => ?_
    exact hterms p (Option.mem_toList.mpr hp)
  | block name p =>
    rw [render_block]
    have hname := hnames name List.mem_cons_self
    exact clause_block locate hname hc.1 hc.2 (hterms p List.mem_cons_self)
  | jump kind =>
    have hrender : (Clause.jump kind).render = kind.keyword.toList ++ [] := rfl
    rw [hrender]
    exact ⟨_, clause_word locate (jump_mem_keyed locate kind), .jump⟩

end Clauses

/-! ### Bodies of actions -/

/-- The body of an action does not start with white space. -/
theorem Clause.Lexical.exists_render {W : List Char → Prop} {c : Clause} (h : c.Lexical W)
    (hlegible : c.Legible) : ∃ char cs, c.render = char :: cs ∧ isSpace char = false := by
  cases c with
  | pipeline p => exact h.1.exists_render (hlegible.terms p List.mem_cons_self)
  | control kind p =>
    rw [render_control]
    exact exists_keyword (by cases kind <;> decide) _
  | elseControl kind p =>
    rw [render_elseControl]
    exact exists_keyword (by decide) _
  | otherwise | close => exact ⟨'e', _, rfl, by decide⟩
  | definition name =>
    rw [render_definition]
    exact exists_keyword (by decide) _
  | invocation name data =>
    rw [render_invocation]
    exact exists_keyword (by decide) _
  | block name p =>
    rw [render_block]
    exact exists_keyword (by decide) _
  | jump kind =>
    rw [render_word rfl, ← List.append_nil (Clause.head _).toList]
    exact exists_keyword (by cases kind <;> decide) _

/-- The canonical body of an action is read back, up to places. -/
theorem readAction_render {W : List Char → Prop} {c : Clause} (hc : c.Lexical W)
    (hlegible : c.Legible) (locate : List Char → Pos) :
    ∃ action, readAction locate c.render = .ok action ∧ action.clause.Same c := by
  obtain ⟨d, hd, hsame⟩ := exists_clause locate hc hlegible
  obtain ⟨char, cs, hrender, hspace⟩ := hc.exists_render hlegible
  have hstart : trimStart c.render = c.render := by
    rw [trimStart, hrender, List.dropWhile_cons_of_neg (by simp [hspace])]
  have hfilled : c.render.isEmpty = false := by
    rw [hrender]
    rfl
  refine ⟨⟨locate c.render, d⟩, ?_, hsame⟩
  unfold readAction
  dsimp only
  rw [hstart, hfilled, hd]
  rfl

/-- No pipeline starts with a character that starts no operand. -/
theorem pipeline_misses (locate : List Char → Pos) {c : Char} (cs : List Char)
    (hopen : c ∉ '.' :: '$' :: Scan.openers) (hword : isIdentifierChar c = false) :
    Scan.Misses (Scan.pipeline locate true) (c :: cs) := by
  let inner := Scan.nested locate (cs.length + 1)
  have hhere : Scan.here (c :: cs) = .found (c :: cs) (c :: cs) := rfl
  have hdollar : (c :: cs).head? ≠ some '$' := by
    intro heq
    cases heq
    simp at hopen
  have hdeclaration : Scan.Misses Scan.declaration (c :: cs) :=
    (Scan.misses_variableName hdollar).bind _
  have hleading : Scan.leading true (c :: cs) = .found none (c :: cs) := hdeclaration.optional
  have hoperand : Scan.Misses (Scan.operand inner) (c :: cs) := Scan.operand_misses hopen hword
  have hcommand : Scan.Misses (Scan.command locate inner) (c :: cs) :=
    Scan.misses_of_found_bind hhere ((hoperand.within _).bind _)
  change Scan.Misses (Scan.pipelineWith locate true inner) (c :: cs)
  rw [Scan.pipelineWith_eq]
  exact Scan.misses_of_found_bind hhere (Scan.misses_of_found_bind hleading (hcommand.bind _))

/-- The body of an action does not start with a brace. -/
theorem head?_of_readAction {locate : List Char → Pos} {body : List Char} {action : Action}
    (h : readAction locate body = .ok action) : body.head? ≠ some '\x7b' := by
  intro hbrace
  obtain ⟨cs, rfl⟩ := List.head?_eq_some_iff.mp hbrace
  have hstart : trimStart ('\x7b' :: cs) = '\x7b' :: cs := rfl
  have hkeyed : ∀ s ∈ Scan.keyed locate, Scan.Misses s.2 ('\x7b' :: cs) := by
    intro s hs
    apply keyed_misses locate hs
    apply keyword_misses_of_start (keyword_of_mem_keyed locate hs)
    exact (rfl : isIdentifierStart '\x7b' = false)
  have hpipeline := pipeline_misses locate (c := '\x7b') cs (by decide) rfl
  have hclause : Scan.Misses (Scan.clause locate) ('\x7b' :: cs) := by
    obtain ⟨fault, hmissed⟩ := hpipeline.map Clause.pipeline
    rw [Scan.clause_eq]
    exact ⟨fault, (firstOf_eq_last hkeyed).trans hmissed⟩
  obtain ⟨fault, hmissed⟩ := hclause
  unfold readAction at h
  dsimp only at h
  rw [hstart, hmissed] at h
  cases h

end BoundQuery.Template
