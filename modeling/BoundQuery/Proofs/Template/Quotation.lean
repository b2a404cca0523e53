/-
# Quoted literals

A quoted literal is units up to a quote: characters that stand for themselves, letters after a
backslash, and characters spelled by their number in two, four or eight places. A text after a quote
is units up to the first place where no unit stands. There the literal ends, or it is refused.

Main statements: `quoted_units`, `plus_among_digits`.
-/

import BoundQuery.Proofs.Text.Digits
import BoundQuery.Template.Literal

namespace BoundQuery.Template

open Text (digitValue denoted)

/-! ### Units -/

/-- The letters of escapes without digits, each with the character that it stands for. -/
def shortEscapes : List (Char × Char) :=
  [('n', '\n'), ('t', '\t'), ('r', '\r'), ('a', '\x07'), ('b', '\x08'), ('f', '\x0c'), ('v', '\x0b'),
    ('0', '\x00'), ('\\', '\\'), ('"', '"'), ('\'', '\'')]

/-- The letters of escapes by number, each with the places that the number fills. -/
def numberedEscapes : List (Char × Nat) :=
  [('x', 2), ('u', 4), ('U', 8)]

/-- A unit of a quoted literal, and the character that it stands for. The places of a number hold
hexadecimal digits, maybe after one of the signs. -/
inductive QuotedUnit (signs : List (List Char)) : List Char → Char → Prop
  | plain {c : Char} : c ≠ '"' → c ≠ '\\' → c ≠ '\n' → QuotedUnit signs [c] c
  | short {letter c : Char} : (letter, c) ∈ shortEscapes → QuotedUnit signs ['\\', letter] c
  | numbered {letter : Char} {width : Nat} {sign digits : List Char} :
      (letter, width) ∈ numberedEscapes → sign ∈ signs → (sign ++ digits).length = width →
      (∀ d ∈ digits, digitValue d < 16) → (denoted 16 digits).isValidChar →
      QuotedUnit signs ('\\' :: letter :: (sign ++ digits)) (Char.ofNat (denoted 16 digits))

/-- Units one after the other, and the characters that they stand for. -/
inductive QuotedUnits (signs : List (List Char)) : List Char → List Char → Prop
  | nil : QuotedUnits signs [] []
  | cons {unit inner chars : List Char} {c : Char} :
      QuotedUnit signs unit c → QuotedUnits signs inner chars →
      QuotedUnits signs (unit ++ inner) (c :: chars)

/-- The signs that may stand before the digits of a number: none, or a plus sign. -/
def plusOrNone : List (List Char) :=
  [[], ['+']]

/-! ### Escapes -/

theorem character?_eq_some_iff {n : Nat} {c : Char} :
    character? n = some c ↔ n.isValidChar ∧ c = Char.ofNat n := by
  unfold character?
  split <;> simp_all [eq_comm]

theorem codePoint?_eq_some_iff {cs : List Char} {n : Nat} :
    codePoint? cs = some n ↔ ∃ sign digits, cs = sign ++ digits ∧ sign ∈ plusOrNone ∧
      digits ≠ [] ∧ (∀ d ∈ digits, digitValue d < 16) ∧ n = denoted 16 digits := by
  have hplus : ¬ digitValue '+' < 16 := by decide
  unfold codePoint?
  split
  · rename_i digits
    rw [Text.natural?_eq_some_iff (Nat.le_refl 16)]
    constructor
    · exact fun h => ⟨['+'], digits, rfl, by simp [plusOrNone], h⟩
    · rintro ⟨sign, digits', heq, hsign, h⟩
      simp only [plusOrNone, List.mem_cons, List.not_mem_nil, or_false] at hsign
      rcases hsign with rfl | rfl
      · rw [List.nil_append] at heq
        subst heq
        exact absurd (h.2.1 '+' List.mem_cons_self) hplus
      · obtain rfl : digits = digits' := (List.cons.inj heq).2
        exact h
  · rename_i hne
    rw [Text.natural?_eq_some_iff (Nat.le_refl 16)]
    constructor
    · exact fun h => ⟨[], cs, rfl, by simp [plusOrNone], h⟩
    · rintro ⟨sign, digits, rfl, hsign, h⟩
      simp only [plusOrNone, List.mem_cons, List.not_mem_nil, or_false] at hsign
      rcases hsign with rfl | rfl
      · exact h
      · exact absurd rfl (hne digits)

theorem numbered?_eq_some_iff {width : Nat} (hwidth : 2 ≤ width) {cs rest : List Char} {c : Char} :
    numbered? width cs = some (c, rest) ↔ ∃ sign digits, cs = sign ++ digits ++ rest ∧
      sign ∈ plusOrNone ∧ (sign ++ digits).length = width ∧ (∀ d ∈ digits, digitValue d < 16) ∧
      (denoted 16 digits).isValidChar ∧ c = Char.ofNat (denoted 16 digits) := by
  constructor
  · intro h
    unfold numbered? at h
    split at h
    · rename_i hlength
      obtain ⟨d, hd, heq⟩ := Option.map_eq_some_iff.mp h
      obtain ⟨rfl, rfl⟩ := Prod.mk.inj heq
      obtain ⟨n, hn, hcharacter⟩ := Option.bind_eq_some_iff.mp hd
      obtain ⟨sign, digits, htake, hsign, -, hdigits, rfl⟩ := codePoint?_eq_some_iff.mp hn
      obtain ⟨hvalid, rfl⟩ := character?_eq_some_iff.mp hcharacter
      refine ⟨sign, digits, ?_, hsign, by rw [← htake, hlength], hdigits, hvalid, rfl⟩
      rw [← htake, List.take_append_drop]
    · cases h
  · rintro ⟨sign, digits, rfl, hsign, hlength, hdigits, hvalid, rfl⟩
    have hne : digits ≠ [] := by
      rintro rfl
      simp only [plusOrNone, List.mem_cons, List.not_mem_nil, or_false] at hsign
      rcases hsign with rfl | rfl <;> simp at hlength <;> omega
    have htake : (sign ++ digits ++ rest).take width = sign ++ digits := List.take_left' hlength
    have hdrop : (sign ++ digits ++ rest).drop width = rest := List.drop_left' hlength
    have hpoint : codePoint? (sign ++ digits) = some (denoted 16 digits) :=
      codePoint?_eq_some_iff.mpr ⟨sign, digits, rfl, hsign, hne, hdigits, rfl⟩
    have hcharacter := character?_eq_some_iff.mpr ⟨hvalid, rfl⟩
    rw [numbered?, htake, hdrop, if_pos hlength, hpoint, Option.bind_some, hcharacter, Option.map_some]

/-- The escapes that are read are the units that start with a backslash. -/
theorem escape?_eq_some_iff {cs rest : List Char} {c : Char} :
    escape? cs = some (c, rest) ↔
      ∃ spelled, cs = spelled ++ rest ∧ QuotedUnit plusOrNone ('\\' :: spelled) c := by
  have hnumbered : ∀ {letter : Char} {width : Nat} {cs : List Char},
      (letter, width) ∈ numberedEscapes → 2 ≤ width → numbered? width cs = some (c, rest) →
      ∃ spelled, letter :: cs = spelled ++ rest ∧ QuotedUnit plusOrNone ('\\' :: spelled) c := by
    intro letter width cs hletter hwidth h
    obtain ⟨sign, digits, rfl, hsign, hlength, hdigits, hvalid, rfl⟩ :=
      (numbered?_eq_some_iff hwidth).mp h
    exact ⟨letter :: (sign ++ digits), rfl, .numbered hletter hsign hlength hdigits hvalid⟩
  constructor
  · intro h
    unfold escape? at h
    split at h
    case h_12 => exact hnumbered (by simp [numberedEscapes]) (by decide) h
    case h_13 => exact hnumbered (by simp [numberedEscapes]) (by decide) h
    case h_14 => exact hnumbered (by simp [numberedEscapes]) (by decide) h
    case h_15 => cases h
    all_goals
      cases h
      exact ⟨[_], rfl, .short (by simp [shortEscapes])⟩
  · rintro ⟨spelled, rfl, hunit⟩
    cases hunit with
    | plain _ hescape => exact absurd rfl hescape
    | short hletter =>
      simp only [shortEscapes, List.mem_cons, List.not_mem_nil, or_false, Prod.mk.injEq] at hletter
      rcases hletter with ⟨rfl, rfl⟩ | ⟨rfl, rfl⟩ | ⟨rfl, rfl⟩ | ⟨rfl, rfl⟩ | ⟨rfl, rfl⟩ | ⟨rfl, rfl⟩ |
        ⟨rfl, rfl⟩ | ⟨rfl, rfl⟩ | ⟨rfl, rfl⟩ | ⟨rfl, rfl⟩ | ⟨rfl, rfl⟩ <;> rfl
    | @numbered letter width sign digits hletter hsign hlength hdigits hvalid =>
      have hread : ∀ w, w = width → 2 ≤ w →
          numbered? w (sign ++ digits ++ rest) = some (Char.ofNat (denoted 16 digits), rest) :=
        fun w hw hle => (numbered?_eq_some_iff hle).mpr
          ⟨sign, digits, rfl, hsign, hlength.trans hw.symm, hdigits, hvalid, rfl⟩
      simp only [numberedEscapes, List.mem_cons, List.not_mem_nil, or_false, Prod.mk.injEq] at hletter
      rcases hletter with ⟨rfl, hwidth⟩ | ⟨rfl, hwidth⟩ | ⟨rfl, hwidth⟩
      · exact hread 2 hwidth.symm (by decide)
      · exact hread 4 hwidth.symm (by decide)
      · exact hread 8 hwidth.symm (by decide)

/-! ### Literals -/

namespace Scan

/-- What is read, with characters before it. -/
def readBefore (chars : List Char) : Scanned (List Char) → Scanned (List Char)
  | .found read rest => .found (chars ++ read) rest
  | outcome => outcome

theorem quotedFrom_unit {unit : List Char} {c : Char} (h : QuotedUnit plusOrNone unit c)
    (literal more : List Char) :
    quotedFrom literal (unit ++ more) = readBefore [c] (quotedFrom literal more) := by
  have hescaped : ∀ {spelled : List Char}, QuotedUnit plusOrNone ('\\' :: spelled) c → spelled ≠ [] →
      quotedFrom literal ('\\' :: spelled ++ more) = readBefore [c] (quotedFrom literal more) := by
    intro spelled hunit hne
    have hescape : escape? (spelled ++ more) = some (c, more) :=
      escape?_eq_some_iff.mpr ⟨spelled, rfl, hunit⟩
    rw [List.cons_append, quotedFrom]
    · split
      · rename_i heq
        cases hescape.symm.trans heq
      · rename_i heq
        cases hescape.symm.trans heq
        cases quotedFrom literal more <;> rfl
    · simp [hne]
  cases h with
  | plain hquote hescape hline =>
    rw [List.singleton_append, quotedFrom]
    · cases quotedFrom literal more <;> rfl
    all_goals simp_all
  | short hletter => exact hescaped (.short hletter) (List.cons_ne_nil _ _)
  | numbered hletter hsign hlength hdigits hvalid =>
    exact hescaped (.numbered hletter hsign hlength hdigits hvalid) (List.cons_ne_nil _ _)

/-- Units are read as the characters that they stand for. -/
theorem quotedFrom_units {inner chars : List Char} (h : QuotedUnits plusOrNone inner chars)
    (literal more : List Char) :
    quotedFrom literal (inner ++ more) = readBefore chars (quotedFrom literal more) := by
  induction h with
  | nil => cases hread : quotedFrom literal more <;> simp [hread, readBefore]
  | cons hunit _ ih =>
    rw [List.append_assoc, quotedFrom_unit hunit, ih]
    cases quotedFrom literal more <;> rfl

end Scan

/-- A place where no unit stands: the end of the text, a quote, the end of the line, or a backslash
with no escape after it. -/
inductive StopsUnits : List Char → Prop
  | nothing : StopsUnits []
  | quote {rest : List Char} : StopsUnits ('"' :: rest)
  | line {rest : List Char} : StopsUnits ('\n' :: rest)
  | escape {rest : List Char} : escape? rest = none → StopsUnits ('\\' :: rest)

/-- A text is units up to a place where none stands. -/
theorem exists_units (cs : List Char) :
    ∃ inner chars stop, cs = inner ++ stop ∧ QuotedUnits plusOrNone inner chars ∧ StopsUnits stop := by
  have hcons : ∀ {unit rest : List Char} {c : Char}, QuotedUnit plusOrNone unit c →
      (∃ inner chars stop, rest = inner ++ stop ∧ QuotedUnits plusOrNone inner chars ∧
        StopsUnits stop) →
      ∃ inner chars stop, unit ++ rest = inner ++ stop ∧ QuotedUnits plusOrNone inner chars ∧
        StopsUnits stop := by
    rintro unit rest c hunit ⟨inner, chars, stop, rfl, hinner, hstop⟩
    exact ⟨unit ++ inner, c :: chars, stop, (List.append_assoc ..).symm, .cons hunit hinner, hstop⟩
  match hcs : cs with
  | [] => exact ⟨[], [], [], rfl, .nil, .nothing⟩
  | c :: rest =>
    by_cases hquote : c = '"'
    · subst hquote
      exact ⟨[], [], _, rfl, .nil, .quote⟩
    by_cases hline : c = '\n'
    · subst hline
      exact ⟨[], [], _, rfl, .nil, .line⟩
    by_cases hescape : c = '\\'
    · subst hescape
      cases hread : escape? rest with
      | none => exact ⟨[], [], _, rfl, .nil, .escape hread⟩
      | some found =>
        obtain ⟨d, after⟩ := found
        have hless := length_escape? hread
        obtain ⟨spelled, rfl, hunit⟩ := escape?_eq_some_iff.mp hread
        exact hcons hunit (exists_units after)
    · exact hcons (.plain hquote hescape hline) (exists_units rest)
termination_by cs.length

namespace Scan

/-- Where the units stop the literal ends, or it is refused. -/
theorem quotedFrom_stop {stop : List Char} (h : StopsUnits stop) (literal : List Char) :
    (∃ rest, stop = '"' :: rest ∧ quotedFrom literal stop = .found [] rest) ∨
      ((stop = [] ∨ stop = ['\\'] ∨ stop.head? = some '\n') ∧
        quotedFrom literal stop = .failed ⟨.openString, literal⟩) ∨
      ∃ rest, stop = '\\' :: rest ∧ rest ≠ [] ∧ escape? rest = none ∧
        quotedFrom literal stop = .failed ⟨.badEscape, stop⟩ := by
  cases h with
  | nothing => exact .inr (.inl ⟨.inl rfl, by rw [quotedFrom]⟩)
  | quote => exact .inl ⟨_, rfl, by rw [quotedFrom]⟩
  | line => exact .inr (.inl ⟨.inr (.inr rfl), by rw [quotedFrom]⟩)
  | @escape rest hnone =>
    cases rest with
    | nil => exact .inr (.inl ⟨.inr (.inl rfl), by rw [quotedFrom]⟩)
    | cons c rest =>
      refine .inr (.inr ⟨_, rfl, List.cons_ne_nil _ _, hnone, ?_⟩)
      rw [quotedFrom]
      · split
        · rfl
        · rename_i heq
          cases hnone.symm.trans heq
      · simp

theorem quoted_cons (cs : List Char) :
    quoted ('"' :: cs) =
      match quotedFrom ('"' :: cs) cs with
      | .found read rest => .found (String.ofList read) rest
      | .missed fault => .missed fault
      | .failed fault => .failed fault :=
  rfl

/-- Units between quotes are read as the string that they stand for. -/
theorem quoted_append {inner chars : List Char} (h : QuotedUnits plusOrNone inner chars)
    (rest : List Char) :
    quoted ('"' :: (inner ++ '"' :: rest)) = .found (String.ofList chars) rest := by
  rw [quoted_cons, quotedFrom_units h, quotedFrom, readBefore, List.append_nil]

/-- What comes of a text after a quote. -/
theorem quoted_outcome (cs : List Char) :
    ∃ inner chars stop, cs = inner ++ stop ∧ QuotedUnits plusOrNone inner chars ∧
      ((∃ rest, stop = '"' :: rest ∧ quoted ('"' :: cs) = .found (String.ofList chars) rest) ∨
        ((stop = [] ∨ stop = ['\\'] ∨ stop.head? = some '\n') ∧
          quoted ('"' :: cs) = .failed ⟨.openString, '"' :: cs⟩) ∨
        ∃ rest, stop = '\\' :: rest ∧ rest ≠ [] ∧
          (∀ spelled after c, rest = spelled ++ after →
            ¬ QuotedUnit plusOrNone ('\\' :: spelled) c) ∧
          quoted ('"' :: cs) = .failed ⟨.badEscape, stop⟩) := by
  obtain ⟨inner, chars, stop, rfl, hinner, hstop⟩ := exists_units cs
  have hrefused : ∀ {fault : Fault},
      quotedFrom ('"' :: (inner ++ stop)) stop = .failed fault →
      quoted ('"' :: (inner ++ stop)) = .failed fault := by
    intro fault hfault
    rw [quoted_cons, quotedFrom_units hinner, hfault, readBefore]
    intro _ _ hfound
    cases hfound
  refine ⟨inner, chars, stop, rfl, hinner, ?_⟩
  rcases quotedFrom_stop hstop ('"' :: (inner ++ stop)) with
    ⟨rest, rfl, -⟩ | ⟨hopen, hfault⟩ | ⟨rest, rfl, hne, hnone, hfault⟩
  · exact .inl ⟨rest, rfl, quoted_append hinner rest⟩
  · exact .inr (.inl ⟨hopen, hrefused hfault⟩)
  · refine .inr (.inr ⟨rest, rfl, hne, fun spelled after c heq hunit => ?_, hrefused hfault⟩)
    cases hnone.symm.trans (escape?_eq_some_iff.mpr ⟨spelled, heq, hunit⟩)

theorem quoted_eq_found_iff {cs rest : List Char} {s : String} :
    quoted ('"' :: cs) = .found s rest ↔
      ∃ inner, cs = inner ++ '"' :: rest ∧ QuotedUnits plusOrNone inner s.toList := by
  constructor
  · intro h
    obtain ⟨inner, chars, stop, rfl, hinner,
      ⟨_, rfl, hfound⟩ | ⟨-, hfailed⟩ | ⟨_, rfl, -, -, hfailed⟩⟩ := quoted_outcome cs
    · cases hfound.symm.trans h
      exact ⟨inner, rfl, by rwa [String.toList_ofList]⟩
    · cases hfailed.symm.trans h
    · cases hfailed.symm.trans h
  · rintro ⟨inner, rfl, hinner⟩
    rw [quoted_append hinner, String.ofList_toList]

/-- A literal that is read is units between quotes. -/
theorem exists_units_of_quoted {cs rest : List Char} {s : String} (h : quoted cs = .found s rest) :
    ∃ inner, cs = '"' :: (inner ++ '"' :: rest) ∧ QuotedUnits plusOrNone inner s.toList := by
  have hquote : ∃ after, cs = '"' :: after := by
    unfold quoted at h
    split at h
    · exact ⟨_, rfl⟩
    · cases h
  obtain ⟨after, rfl⟩ := hquote
  obtain ⟨inner, rfl, hinner⟩ := quoted_eq_found_iff.mp h
  exact ⟨inner, rfl, hinner⟩

/-- A text after a quote is units up to a place where none stands. If a quote stands there, the literal
is read as the characters that the units stand for, and so is every literal that is read. Otherwise
the literal is refused for good: it does not end on its line, or a backslash starts no unit. -/
theorem quoted_units (cs : List Char) :
    (∀ s rest, quoted ('"' :: cs) = .found s rest ↔
      ∃ inner, cs = inner ++ '"' :: rest ∧ QuotedUnits plusOrNone inner s.toList) ∧
    ∃ inner chars stop, cs = inner ++ stop ∧ QuotedUnits plusOrNone inner chars ∧
      ((∃ rest, stop = '"' :: rest ∧ quoted ('"' :: cs) = .found (String.ofList chars) rest) ∨
        ((stop = [] ∨ stop = ['\\'] ∨ stop.head? = some '\n') ∧
          quoted ('"' :: cs) = .failed ⟨.openString, '"' :: cs⟩) ∨
        ∃ rest, stop = '\\' :: rest ∧ rest ≠ [] ∧
          (∀ spelled after c, rest = spelled ++ after →
            ¬ QuotedUnit plusOrNone ('\\' :: spelled) c) ∧
          quoted ('"' :: cs) = .failed ⟨.badEscape, stop⟩) :=
  ⟨fun _ _ => quoted_eq_found_iff, quoted_outcome cs⟩

/-- A plus sign stands among the digits of a number: the literal is read, though without signs it has
no units. -/
theorem plus_among_digits :
    quoted ['"', '\\', 'x', '+', '7', '"'] = .found "\x07" [] ∧
      ¬ ∃ inner rest chars, ['\\', 'x', '+', '7', '"'] = inner ++ '"' :: rest ∧
        QuotedUnits [[]] inner chars := by
  constructor
  · have hunit : QuotedUnit plusOrNone ['\\', 'x', '+', '7'] '\x07' :=
      @QuotedUnit.numbered plusOrNone 'x' 2 ['+'] ['7'] (by decide) (by decide) rfl
        (List.forall_mem_singleton.mpr (by decide)) (by decide)
    exact quoted_eq_found_iff.mpr ⟨['\\', 'x', '+', '7'], rfl, .cons hunit .nil⟩
  · rintro ⟨inner, rest, chars, heq, hinner⟩
    cases hinner with
    | nil => cases (List.cons.inj heq).1
    | cons hunit _ =>
      cases hunit with
      | plain _ hescape _ => exact hescape (List.cons.inj heq).1.symm
      | short hletter =>
        obtain ⟨rfl, -⟩ := List.cons.inj (List.cons.inj heq).2
        simp [shortEscapes] at hletter
      | @numbered letter width sign digits hletter hsign hlength hdigits _ =>
        obtain ⟨rfl, hplaces⟩ := List.cons.inj (List.cons.inj heq).2
        obtain rfl : sign = [] := List.mem_singleton.mp hsign
        obtain rfl : width = 2 := by simpa [numberedEscapes] using hletter
        -- The first of the two places holds the sign, which is no digit.
        obtain ⟨d, digits, rfl⟩ := List.exists_cons_of_length_pos (l := digits) (by simp_all)
        cases (List.cons.inj hplaces).1
        exact absurd (hdigits '+' List.mem_cons_self) (by decide)

end Scan

end BoundQuery.Template
