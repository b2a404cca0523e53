/-
# Formats and their verbs

A format is text with verbs in it, where the text has every percent sign twice. A format that does not
end in a percent sign of its own is written so in one way: its verbs take one argument each, from left
to right, and its text stays as it is.

Main statements: `ofText?_eq_some_iff`, `isSome_ofText?_iff`, `printf_by_verbs`.
-/

import BoundQuery.Function.Print
import Mathlib.Algebra.Group.Nat.Even

namespace BoundQuery

namespace Value

/-- Text as it stands in a format: every percent sign twice. -/
def escapePercents (cs : List Char) : List Char :=
  cs.flatMap fun c => if c = '%' then ['%', '%'] else [c]

/-- How many percent signs a format ends in. -/
def percentsAtEnd (cs : List Char) : Nat :=
  (cs.reverse.takeWhile (· == '%')).length

/-- Text with verbs in it. -/
structure Format where
  first : List Char
  /-- The verbs, each with the text after it. -/
  verbs : List (Char × List Char)
  ne_percent : ∀ d ∈ verbs, d.1 ≠ '%'

/-- What stands for a verb, given the argument in its place. -/
def printArgument (verb : Char) : Option Value → List Char
  | some v => v.printVerb verb
  | none => "%!".toList ++ [verb] ++ "(MISSING)".toList

namespace Format

/-- A format as it is written. -/
def source (f : Format) : List Char :=
  escapePercents f.first ++ f.verbs.flatMap fun (verb, text) => '%' :: verb :: escapePercents text

/-- What a format makes of its arguments: the n-th verb takes the n-th argument, and those that no verb
takes are listed at the end. -/
def written (f : Format) (args : List Value) : List Char :=
  f.first
    ++ (f.verbs.zipIdx.flatMap fun ((verb, text), i) => printArgument verb args[i]? ++ text)
    ++ if args.length ≤ f.verbs.length then []
      else "%!(EXTRA ".toList
        ++ [',', ' '].intercalate ((args.drop f.verbs.length).map fun v =>
          v.kind.name.toList ++ ['='] ++ v.print)
        ++ [')']

/-! ### Reading a format -/

/-- A character of the text before a format. -/
def consText (c : Char) (f : Format) : Format :=
  { f with first := c :: f.first }

/-- A verb before a format, which follows it without text between them. -/
def consVerb (verb : Char) (h : verb ≠ '%') (f : Format) : Format where
  first := []
  verbs := (verb, f.first) :: f.verbs
  ne_percent := List.forall_mem_cons.mpr ⟨h, f.ne_percent⟩

/-- Reads a format, unless it ends in a percent sign of its own. -/
def ofText? : List Char → Option Format
  | [] => some ⟨[], [], by simp⟩
  | ['%'] => none
  | '%' :: verb :: rest =>
    if h : verb = '%' then (ofText? rest).map (consText '%')
    else (ofText? rest).map (consVerb verb h)
  | c :: rest => (ofText? rest).map (consText c)

theorem ofText?_percents (rest : List Char) :
    ofText? ('%' :: '%' :: rest) = (ofText? rest).map (consText '%') := by
  simp [ofText?]

theorem ofText?_verb {verb : Char} (h : verb ≠ '%') (rest : List Char) :
    ofText? ('%' :: verb :: rest) = (ofText? rest).map (consVerb verb h) := by
  simp [ofText?, h]

theorem ofText?_char {c : Char} (h : c ≠ '%') (rest : List Char) :
    ofText? (c :: rest) = (ofText? rest).map (consText c) := by
  rw [ofText?]
  · rintro rfl
    exact fun _ => h rfl
  · intro verb rest' hc
    exact absurd hc h

/-- A format is nothing, a percent sign of its own, or starts with two percent signs, a verb or another
character. Statements about formats are proved along these cases. -/
theorem induction_text {motive : List Char → Prop} (nil : motive []) (alone : motive ['%'])
    (percents : ∀ rest, motive rest → motive ('%' :: '%' :: rest))
    (verb : ∀ c rest, c ≠ '%' → motive rest → motive ('%' :: c :: rest))
    (char : ∀ c rest, c ≠ '%' → motive rest → motive (c :: rest)) (cs : List Char) : motive cs := by
  fun_induction ofText? cs with
  | case1 => exact nil
  | case2 => exact alone
  | case3 rest ih => exact percents rest ih
  | case4 c rest h ih => exact verb c rest h ih
  | case5 c rest halone hverb ih =>
    refine char c rest ?_ ih
    rintro rfl
    cases rest with
    | nil => exact halone rfl rfl
    | cons verb rest => exact hverb verb rest rfl rfl

theorem source_consText (c : Char) (f : Format) :
    (consText c f).source = (if c = '%' then ['%', '%'] else [c]) ++ f.source := by
  simp [source, consText, escapePercents]

theorem source_consVerb {verb : Char} (h : verb ≠ '%') (f : Format) :
    (consVerb verb h f).source = '%' :: verb :: f.source := by
  simp [source, consVerb, escapePercents]

/-- What is read is written as it was. -/
theorem source_of_ofText? {cs : List Char} {f : Format} (h : ofText? cs = some f) :
    f.source = cs := by
  induction cs using induction_text generalizing f with
  | nil =>
    cases h
    rfl
  | alone => cases h
  | percents rest ih =>
    rw [ofText?_percents] at h
    obtain ⟨g, hg, rfl⟩ := Option.map_eq_some_iff.mp h
    rw [source_consText, ih hg]
    rfl
  | verb c rest hc ih =>
    rw [ofText?_verb hc] at h
    obtain ⟨g, hg, rfl⟩ := Option.map_eq_some_iff.mp h
    rw [source_consVerb, ih hg]
  | char c rest hc ih =>
    rw [ofText?_char hc] at h
    obtain ⟨g, hg, rfl⟩ := Option.map_eq_some_iff.mp h
    rw [source_consText, ih hg, if_neg hc, List.singleton_append]

/-- Text is read as text, up to the verb after it. -/
theorem ofText?_escapePercents_append (cs : List Char) {rest : List Char} {f : Format}
    (h : ofText? rest = some f) :
    ofText? (escapePercents cs ++ rest) = some { f with first := cs ++ f.first } := by
  induction cs with
  | nil => exact h
  | cons c cs ih =>
    rw [escapePercents, List.flatMap_cons, List.append_assoc, ← escapePercents]
    by_cases hc : c = '%'
    · subst hc
      rw [if_pos rfl, List.cons_append, List.cons_append, List.nil_append, ofText?_percents, ih]
      rfl
    · rw [if_neg hc, List.singleton_append, ofText?_char hc, ih]
      rfl

theorem ofText?_escapePercents (cs : List Char) :
    ofText? (escapePercents cs) = some ⟨cs, [], by simp⟩ := by
  have hnil : ofText? [] = some ⟨[], [], by simp⟩ := rfl
  simpa using ofText?_escapePercents_append cs hnil

/-- What is written is read as it was. -/
theorem ofText?_source (f : Format) : ofText? f.source = some f := by
  obtain ⟨first, verbs, hverbs⟩ := f
  induction verbs generalizing first with
  | nil => simpa [source] using ofText?_escapePercents first
  | cons d verbs ih =>
    obtain ⟨verb, text⟩ := d
    obtain ⟨hverb, hrest⟩ := List.forall_mem_cons.mp hverbs
    have hread : ofText? ('%' :: verb :: source ⟨text, verbs, hrest⟩) =
        some ⟨[], (verb, text) :: verbs, hverbs⟩ := by
      rw [ofText?_verb hverb, ih text hrest]
      rfl
    simpa [source] using ofText?_escapePercents_append first hread

/-- A text is read as the format that is written so. -/
theorem ofText?_eq_some_iff {cs : List Char} {f : Format} : ofText? cs = some f ↔ f.source = cs :=
  ⟨source_of_ofText?, fun h => h ▸ ofText?_source f⟩

/-! ### The end of a format -/

theorem percentsAtEnd_append (front back : List Char) :
    percentsAtEnd (front ++ back) =
      if percentsAtEnd back = back.length then back.length + percentsAtEnd front
      else percentsAtEnd back := by
  rw [percentsAtEnd, percentsAtEnd, percentsAtEnd, List.reverse_append, List.takeWhile_append,
    List.length_reverse]
  split
  · rw [List.length_append, List.length_reverse]
  · rfl

theorem percentsAtEnd_append_of_eq_zero {front : List Char} (h : percentsAtEnd front = 0)
    (back : List Char) : percentsAtEnd (front ++ back) = percentsAtEnd back := by
  rw [percentsAtEnd_append, h, Nat.add_zero]
  split
  · rename_i heq
    exact heq.symm
  · rfl

theorem percentsAtEnd_char {c : Char} (h : c ≠ '%') (rest : List Char) :
    percentsAtEnd (c :: rest) = percentsAtEnd rest := by
  have hzero : percentsAtEnd [c] = 0 := by simp [percentsAtEnd, h]
  exact percentsAtEnd_append_of_eq_zero hzero rest

theorem percentsAtEnd_verb {verb : Char} (h : verb ≠ '%') (rest : List Char) :
    percentsAtEnd ('%' :: verb :: rest) = percentsAtEnd rest := by
  have hzero : percentsAtEnd ['%', verb] = 0 := by simp [percentsAtEnd, h]
  exact percentsAtEnd_append_of_eq_zero hzero rest

theorem even_percentsAtEnd_percents (rest : List Char) :
    Even (percentsAtEnd ('%' :: '%' :: rest)) ↔ Even (percentsAtEnd rest) := by
  have htwo : percentsAtEnd ['%', '%'] = 2 := rfl
  have heven : Even 2 := by decide
  rw [show '%' :: '%' :: rest = ['%', '%'] ++ rest from rfl, percentsAtEnd_append, htwo]
  -- Where the rest is percent signs only, there are two more of them.
  split
  · rename_i heq
    rw [heq, Nat.even_add, iff_true_right heven]
  · rfl

/-- A format has no percent sign of its own at its end if the percent signs there come in pairs. -/
theorem isSome_ofText?_iff {cs : List Char} :
    (ofText? cs).isSome ↔ Even (percentsAtEnd cs) := by
  induction cs using induction_text with
  | nil => simp [ofText?, percentsAtEnd]
  | alone => simp [ofText?, percentsAtEnd]
  | percents rest ih => rw [ofText?_percents, Option.isSome_map, even_percentsAtEnd_percents, ih]
  | verb c rest hc ih => rw [ofText?_verb hc, Option.isSome_map, percentsAtEnd_verb hc, ih]
  | char c rest hc ih => rw [ofText?_char hc, Option.isSome_map, percentsAtEnd_char hc, ih]

/-! ### Following a format -/

theorem written_consText (c : Char) (f : Format) (args : List Value) :
    (consText c f).written args = c :: f.written args :=
  rfl

/-- A verb takes the first argument, and leaves the others to the verbs after it. -/
theorem written_consVerb {verb : Char} (h : verb ≠ '%') (f : Format) (args : List Value) :
    (consVerb verb h f).written args =
      printArgument verb args.head? ++ f.written args.tail := by
  cases args with
  | nil => simp [written, consVerb, List.zipIdx_succ, List.flatMap_map]
  | cons v args => simp [written, consVerb, List.zipIdx_succ, List.flatMap_map]

theorem written_empty (h : ∀ d ∈ ([] : List (Char × List Char)), d.1 ≠ '%') (args : List Value) :
    (⟨[], [], h⟩ : Format).written args = printExtra args := by
  cases args with
  | nil => rfl
  | cons v args =>
    have hkinded : printKinded = fun v : Value => v.kind.name.toList ++ ['='] ++ v.print := by
      funext v
      rw [printKinded, List.append_assoc, List.singleton_append]
    simp [written, printExtra, hkinded]

theorem printFormat_verb {verb : Char} (h : verb ≠ '%') (rest : List Char) (args : List Value) :
    printFormat ('%' :: verb :: rest) args =
      printArgument verb args.head? ++ printFormat rest args.tail := by
  cases args with
  | nil =>
    rw [printFormat.eq_4 verb rest h]
    rfl
  | cons v args =>
    rw [printFormat.eq_5 verb rest v args h]
    rfl

theorem printFormat_char {c : Char} (h : c ≠ '%') (rest : List Char) (args : List Value) :
    printFormat (c :: rest) args = c :: printFormat rest args := by
  rw [printFormat]
  · exact fun hc => absurd hc h
  · exact fun _ hc => absurd hc h
  · exact fun _ _ _ hc => absurd hc h
  · exact fun _ _ _ _ _ hc => absurd hc h

/-- A format that does not end in a percent sign of its own is followed verb by verb. -/
theorem printFormat_of_ofText? {cs : List Char} {f : Format} (h : ofText? cs = some f)
    (args : List Value) : printFormat cs args = f.written args := by
  induction cs using induction_text generalizing f args with
  | nil =>
    cases h
    rw [written_empty, printFormat]
  | alone => cases h
  | percents rest ih =>
    rw [ofText?_percents] at h
    obtain ⟨g, hg, rfl⟩ := Option.map_eq_some_iff.mp h
    rw [written_consText, ← ih hg, printFormat]
  | verb c rest hc ih =>
    rw [ofText?_verb hc] at h
    obtain ⟨g, hg, rfl⟩ := Option.map_eq_some_iff.mp h
    rw [written_consVerb, ← ih hg, printFormat_verb hc]
  | char c rest hc ih =>
    rw [ofText?_char hc] at h
    obtain ⟨g, hg, rfl⟩ := Option.map_eq_some_iff.mp h
    rw [written_consText, ← ih hg, printFormat_char hc]

end Format

end Value

namespace Function

open Value

/-- A format that does not end in a percent sign of its own is text and verbs in one way. What is
printed is the text, with each verb replaced by the argument in its place, as the verb wants it, or by
the note that there is none; the arguments that are left are listed with their kinds. So text whose
percent signs are doubled is printed as it is. -/
theorem printf_by_verbs (format : String) :
    (Even (percentsAtEnd format.toList) ↔ ∃! f : Format, f.source = format.toList) ∧
    (∀ f : Format, f.source = format.toList → ∀ args : List Value,
      printf (.string format :: args) = .ok (.string (String.ofList (f.written args)))) ∧
    printf [.string (String.ofList (escapePercents format.toList))] = .ok (.string format) := by
  refine ⟨?_, ?_, ?_⟩
  · rw [← Format.isSome_ofText?_iff, Option.isSome_iff_exists]
    constructor
    · rintro ⟨f, hf⟩
      refine ⟨f, Format.source_of_ofText? hf, fun g hg => ?_⟩
      have hread := Format.ofText?_eq_some_iff.mpr hg
      rw [hf] at hread
      exact (Option.some.inj hread).symm
    · rintro ⟨f, hf, -⟩
      exact ⟨f, Format.ofText?_eq_some_iff.mpr hf⟩
  · intro f hf args
    rw [printf, Format.printFormat_of_ofText? (Format.ofText?_eq_some_iff.mpr hf)]
  · have hwritten : (⟨format.toList, [], by simp⟩ : Format).written [] = format.toList := by
      simp [Format.written]
    rw [printf, String.toList_ofList,
      Format.printFormat_of_ofText? (Format.ofText?_escapePercents format.toList), hwritten,
      String.ofList_toList]

/-- One verb has its argument, one has none, and a doubled percent sign is text. -/
theorem printf_by_verbs_missing :
    ∃ f : Format, f.source = "%s-%%%d".toList ∧
      printf [.string "%s-%%%d", .string "a"] =
        .ok (.string (String.ofList (f.written [.string "a"]))) ∧
      f.written [.string "a"] = "a-%%!d(MISSING)".toList := by
  have hread : (⟨[], [('s', ['-', '%']), ('d', [])], by decide⟩ : Format).source =
      "%s-%%%d".toList := by
    decide
  refine ⟨_, hread, (printf_by_verbs "%s-%%%d").2.1 _ hread [.string "a"], ?_⟩
  decide

example : printf [.string "%v%%", .string "a", .null] =
    .ok (.string "a%%!(EXTRA nil=<nil>)") := by
  rfl

end Function

end BoundQuery
