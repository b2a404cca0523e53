/-
# Tokens of raw texts

Formatting reads a raw text from left to right as plain characters, doubled question marks and
single ones, and writes one thing for each of them. `tokens` is this reading on its own, so that
what is said of formatting can be said of a list of tokens.

Main statements:

* `formatFrom_of_accepts`: with a strategy that refuses nothing, formatting writes the tokens one
  after the other.
* `placeholders_of_formatFrom`: whatever the strategy, a formatted text has as many placeholders as
  its raw text has single marks.
* `tokens_append`: two texts are read apart unless a single mark at the end of the first meets a
  mark.
* `evenRuns_iff`: a text has no single marks exactly when all its runs of marks are even.
-/

import BoundQuery.Proofs.Fallible
import BoundQuery.Statement.Format
import BoundQuery.Text.Bytes
import Mathlib.Algebra.Group.Nat.Even
import Mathlib.Data.List.TakeWhile

namespace BoundQuery.Statement

/-- What formatting finds in a raw text. -/
inductive Token
  | char (c : Char)
  /-- Two question marks, meant as one. -/
  | doubled
  /-- A question mark that stands for an argument. -/
  | single
deriving DecidableEq, Repr

/-- The characters of a raw text that make up a token. -/
def Token.source : Token → List Char
  | char c => [c]
  | doubled => [mark, mark]
  | single => [mark]

/-- The tokens of a raw text. -/
def tokens : List Char → List Token
  | [] => []
  | '?' :: '?' :: rest => .doubled :: tokens rest
  | c :: rest => (if c = mark then .single else .char c) :: tokens rest

/-- The text for tokens that follow on `count` placeholders. -/
def fill (placeholder : Nat → String) (count : Nat) : List Token → List Char
  | [] => []
  | .char c :: rest => c :: fill placeholder count rest
  | .doubled :: rest => mark :: fill placeholder count rest
  | .single :: rest => (placeholder (count + 1)).toList ++ fill placeholder (count + 1) rest

/-! ### Reading -/

@[simp] theorem tokens_nil : tokens [] = [] := rfl

@[simp] theorem tokens_doubled (rest : List Char) :
    tokens (mark :: mark :: rest) = .doubled :: tokens rest := by
  simp [tokens, mark]

theorem tokens_char {c : Char} (h : c ≠ mark) (rest : List Char) :
    tokens (c :: rest) = .char c :: tokens rest := by
  rw [tokens.eq_3 _ _ (by rintro _ rfl; exact absurd rfl h), if_neg h]

theorem tokens_single {rest : List Char} (h : rest.head? ≠ some mark) :
    tokens (mark :: rest) = .single :: tokens rest := by
  rw [tokens.eq_3 _ _ (by rintro _ _ rfl; exact absurd rfl h), if_pos rfl]

/-- A text is nothing, or starts with a doubled mark, a single mark or another character.
Statements about tokens are proved along these cases. -/
theorem tokens_induction {motive : List Char → Prop} (nil : motive [])
    (doubled : ∀ rest, motive rest → motive (mark :: mark :: rest))
    (single : ∀ rest, rest.head? ≠ some mark → motive rest → motive (mark :: rest))
    (char : ∀ c rest, c ≠ mark → motive rest → motive (c :: rest)) (cs : List Char) :
    motive cs := by
  fun_induction tokens cs with
  | case1 => exact nil
  | case2 rest ih => exact doubled rest ih
  | case3 c rest hrest ih =>
    by_cases hc : c = mark
    · subst hc
      refine single rest ?_ ih
      intro hhead
      obtain ⟨tail, rfl⟩ : ∃ tail, rest = mark :: tail := by
        cases rest with
        | nil => simp at hhead
        | cons d tail => exact ⟨tail, by simpa using hhead⟩
      exact hrest tail rfl rfl
    · exact char c rest hc ih

/-- Reading loses nothing. -/
theorem source_tokens (cs : List Char) : (tokens cs).flatMap Token.source = cs := by
  induction cs using tokens_induction with
  | nil => rfl
  | doubled rest ih => simp [Token.source, ih]
  | single rest h ih => simp [tokens_single h, Token.source, ih]
  | char c rest h ih => simp [tokens_char h, Token.source, ih]

/-- Two texts are read apart, unless a single mark that ends the first meets a mark. -/
theorem tokens_append {a b : List Char}
    (h : (tokens a).getLast? = some .single → b.head? ≠ some mark) :
    tokens (a ++ b) = tokens a ++ tokens b := by
  induction a using tokens_induction with
  | nil => rfl
  | doubled rest ih =>
    have hrest : (tokens rest).getLast? = some .single → b.head? ≠ some mark := by
      intro hlast
      exact h (by simp [List.getLast?_cons, hlast])
    simp [ih hrest]
  | single rest hhead ih =>
    have hrest : (tokens rest).getLast? = some .single → b.head? ≠ some mark := by
      intro hlast
      exact h (by simp [tokens_single hhead, List.getLast?_cons, hlast])
    have happ : (rest ++ b).head? ≠ some mark := by
      cases rest with
      | nil => exact h (by rw [tokens_single hhead]; rfl)
      | cons c rest => exact hhead
    rw [List.cons_append, tokens_single happ, tokens_single hhead, ih hrest, List.cons_append]
  | char c rest hc ih =>
    have hrest : (tokens rest).getLast? = some .single → b.head? ≠ some mark := by
      intro hlast
      exact h (by simp [tokens_char hc, List.getLast?_cons, hlast])
    rw [List.cons_append, tokens_char hc, tokens_char hc, ih hrest, List.cons_append]

/-- A text without single marks is read apart from all that follows. -/
theorem tokens_append_of_notMem {a : List Char} (h : .single ∉ tokens a) (b : List Char) :
    tokens (a ++ b) = tokens a ++ tokens b :=
  tokens_append fun hlast => absurd (List.mem_of_getLast? hlast) h

/-- The last single mark of a text is its last character. -/
theorem getLast?_of_tokens {cs : List Char} (h : (tokens cs).getLast? = some .single) :
    cs.getLast? = some mark := by
  obtain ⟨front, hfront⟩ := List.getLast?_eq_some_iff.mp h
  rw [← source_tokens cs, hfront, List.flatMap_append]
  simp [Token.source]

/-- The tokens up to a place are those of the text up to there, and the tokens from there on are
those of the text from there on. -/
theorem tokens_of_append {cs : List Char} {ts us : List Token} (h : tokens cs = ts ++ us) :
    tokens (ts.flatMap Token.source) = ts ∧ tokens (us.flatMap Token.source) = us := by
  induction cs using tokens_induction generalizing ts with
  | nil =>
    obtain ⟨rfl, rfl⟩ := List.nil_eq_append_iff.mp h
    exact ⟨rfl, rfl⟩
  | doubled rest ih =>
    cases ts with
    | nil =>
      obtain rfl : tokens (mark :: mark :: rest) = us := h
      exact ⟨rfl, by rw [source_tokens]⟩
    | cons t ts =>
      rw [tokens_doubled, List.cons_append, List.cons.injEq] at h
      obtain ⟨rfl, hrest⟩ := h
      obtain ⟨hts, hus⟩ := ih hrest
      exact ⟨by simp [Token.source, hts], hus⟩
  | single rest hhead ih =>
    cases ts with
    | nil =>
      obtain rfl : tokens (mark :: rest) = us := h
      exact ⟨rfl, by rw [source_tokens]⟩
    | cons t ts =>
      rw [tokens_single hhead, List.cons_append, List.cons.injEq] at h
      obtain ⟨rfl, hrest⟩ := h
      obtain ⟨hts, hus⟩ := ih hrest
      refine ⟨?_, hus⟩
      have hnext : (ts.flatMap Token.source).head? ≠ some mark := by
        intro hmark
        have happ : rest = ts.flatMap Token.source ++ us.flatMap Token.source := by
          rw [← List.flatMap_append, ← hrest, source_tokens]
        exact hhead (by rw [happ, List.head?_append, hmark, Option.some_or])
      rw [List.flatMap_cons, Token.source, List.singleton_append, tokens_single hnext, hts]
  | char c rest hc ih =>
    cases ts with
    | nil =>
      obtain rfl : tokens (c :: rest) = us := h
      exact ⟨rfl, by rw [source_tokens]⟩
    | cons t ts =>
      rw [tokens_char hc, List.cons_append, List.cons.injEq] at h
      obtain ⟨rfl, hrest⟩ := h
      obtain ⟨hts, hus⟩ := ih hrest
      refine ⟨?_, hus⟩
      rw [List.flatMap_cons, Token.source, List.singleton_append, tokens_char hc, hts]

/-- No two single marks are read one after the other. -/
theorem getLast?_of_tokens_single {cs : List Char} {ts us : List Token}
    (h : tokens cs = ts ++ .single :: us) : ts.getLast? ≠ some .single := by
  intro hlast
  obtain ⟨front, rfl⟩ := List.getLast?_eq_some_iff.mp hlast
  rw [List.append_assoc] at h
  have hboth := (tokens_of_append h).2
  simp [Token.source] at hboth

/-! ### Runs of question marks -/

/-- All longest runs of question marks in a text have even length. -/
def EvenRuns (cs : List Char) : Prop :=
  ∀ before k after, cs = before ++ List.replicate k mark ++ after →
    before.getLast? ≠ some mark → after.head? ≠ some mark → Even k

/-- A run of question marks is read as doubled marks and, if it is odd, a single mark at its end. -/
theorem tokens_replicate (k : Nat) :
    tokens (List.replicate k mark) =
      List.replicate (k / 2) .doubled ++ if Even k then [] else [.single] := by
  induction k using Nat.twoStepInduction with
  | zero => rfl
  | one => rfl
  | more k ih _ =>
    have hdiv : (k + 2) / 2 = k / 2 + 1 := by omega
    have heven : Even (k + 2) ↔ Even k := by grind
    rw [List.replicate_succ, List.replicate_succ, tokens_doubled, ih, hdiv, List.replicate_succ]
    simp only [heven, List.cons_append]

/-- A text that does not end in a mark is read apart from all that follows. -/
theorem tokens_append_of_getLast {a : List Char} (h : a.getLast? ≠ some mark) (b : List Char) :
    tokens (a ++ b) = tokens a ++ tokens b :=
  tokens_append fun hlast => absurd (getLast?_of_tokens hlast) h

theorem tokens_append_of_head {b : List Char} (h : b.head? ≠ some mark) (a : List Char) :
    tokens (a ++ b) = tokens a ++ tokens b :=
  tokens_append fun _ => h

/-- The runs after a doubled mark at the front of a text. -/
theorem EvenRuns.of_doubled {rest : List Char} (h : EvenRuns (mark :: mark :: rest)) :
    EvenRuns rest := by
  rintro before k after rfl hbefore hafter
  cases before with
  | nil =>
    have heven : Even (k + 2) := h [] (k + 2) after (by simp [List.replicate_succ]) (by simp) hafter
    grind
  | cons c before =>
    exact h (mark :: mark :: c :: before) k after (by simp) (by simpa using hbefore) hafter

/-- The runs after another character at the front of a text. -/
theorem EvenRuns.of_char {c : Char} {rest : List Char} (hc : c ≠ mark) (h : EvenRuns (c :: rest)) :
    EvenRuns rest := by
  rintro before k after rfl hbefore hafter
  refine h (c :: before) k after (by simp) ?_ hafter
  cases before with
  | nil => simpa using hc
  | cons d before => simpa using hbefore

/-- A text has no single marks exactly when all its runs of question marks are even. -/
theorem evenRuns_iff {cs : List Char} : EvenRuns cs ↔ .single ∉ tokens cs := by
  constructor
  · intro h
    induction cs using tokens_induction with
    | nil => simp
    | doubled rest ih => simpa using ih h.of_doubled
    | single rest hhead _ =>
      have : Even 1 := h [] 1 rest (by simp) (by simp) hhead
      simp at this
    | char c rest hc ih => simpa [tokens_char hc] using ih (h.of_char hc)
  · rintro h before k after rfl hbefore hafter
    by_contra hodd
    rw [List.append_assoc, tokens_append_of_getLast hbefore, tokens_append_of_head hafter,
      tokens_replicate, if_neg hodd] at h
    simp at h

/-- The number of question marks at the end of a text. -/
def trailingMarks (cs : List Char) : Nat :=
  (cs.reverse.takeWhile (· == mark)).length

/-- A text is the run of marks at its end, after something that does not end in a mark. -/
theorem exists_append_replicate (cs : List Char) :
    ∃ front, cs = front ++ List.replicate (trailingMarks cs) mark ∧ front.getLast? ≠ some mark := by
  refine ⟨(cs.reverse.dropWhile (· == mark)).reverse, ?_, ?_⟩
  · have hmarks : cs.reverse.takeWhile (· == mark) = List.replicate (trailingMarks cs) mark :=
      List.eq_replicate_iff.mpr ⟨rfl, fun c hc => by simpa using List.mem_takeWhile_imp hc⟩
    have hsplit := List.takeWhile_append_dropWhile (p := (· == mark)) (l := cs.reverse)
    rw [hmarks] at hsplit
    have := congrArg List.reverse hsplit
    simpa using this.symm
  · intro hlast
    rw [List.getLast?_reverse] at hlast
    have := List.head?_dropWhile_not (· == mark) cs.reverse
    rw [hlast] at this
    simp at this

/-- A text ends in a single mark exactly when its last run of marks is odd. -/
theorem getLast?_tokens_iff {cs : List Char} :
    (tokens cs).getLast? = some .single ↔ ¬ Even (trailingMarks cs) := by
  obtain ⟨front, hcs, hfront⟩ := exists_append_replicate cs
  have htokens : tokens cs = tokens front ++ tokens (List.replicate (trailingMarks cs) mark) := by
    conv => lhs; rw [hcs]
    exact tokens_append_of_getLast hfront _
  rw [htokens, tokens_replicate]
  by_cases heven : Even (trailingMarks cs)
  · -- Doubled marks are at the end, or the text before them, which does not end in a mark.
    simp only [heven, if_true, List.append_nil, not_true_eq_false, iff_false]
    intro hlast
    rw [List.getLast?_append, List.getLast?_replicate] at hlast
    split at hlast
    · exact hfront (getLast?_of_tokens (by simpa using hlast))
    · simp at hlast
  · simp [heven]

instance (cs : List Char) : Decidable (EvenRuns cs) :=
  decidable_of_iff _ evenRuns_iff.symm

/-- Doubling leaves no single marks, and the tokens stand for the characters that were there. -/
theorem tokens_double (cs : List Char) :
    tokens (double cs) = cs.map fun c => if c = mark then .doubled else .char c := by
  induction cs with
  | nil => rfl
  | cons c cs ih =>
    by_cases hc : c = mark
    · simp [double_cons, hc, ih]
    · simp [double_cons, hc, tokens_char hc, ih]

theorem single_notMem_tokens_double (cs : List Char) : .single ∉ tokens (double cs) := by
  rw [tokens_double, List.mem_map]
  rintro ⟨c, -, hc⟩
  split at hc <;> cases hc

/-- Every two question marks of a text, taken together from left to right, become one. -/
def collapse : List Char → List Char
  | [] => []
  | '?' :: '?' :: rest => mark :: collapse rest
  | c :: rest => c :: collapse rest

/-! ### Filling in placeholders -/

section Filling

variable (placeholder : Nat → String)

theorem fill_append (count : Nat) (ts us : List Token) :
    fill placeholder count (ts ++ us) =
      fill placeholder count ts ++ fill placeholder (count + ts.count .single) us := by
  induction ts generalizing count with
  | nil => rfl
  | cons t ts ih =>
    cases t with
    | char c => simp [fill, ih]
    | doubled => simp [fill, ih]
    | single => simp [fill, ih, Nat.add_assoc, Nat.add_comm 1]

/-- A text without single marks is written with every doubled mark as one. -/
theorem fill_tokens_of_notMem {cs : List Char} (h : .single ∉ tokens cs) (count : Nat) :
    fill placeholder count (tokens cs) = collapse cs := by
  induction cs using tokens_induction with
  | nil => rfl
  | doubled rest ih =>
    have hrest : .single ∉ tokens rest := by simpa using h
    rw [tokens_doubled, fill, ih hrest]
    simp [collapse, mark]
  | single rest hhead _ => simp [tokens_single hhead] at h
  | char c rest hc ih =>
    have hrest : .single ∉ tokens rest := by simpa [tokens_char hc] using h
    rw [tokens_char hc, fill, ih hrest, collapse.eq_3 _ _ (by rintro _ rfl; exact absurd rfl hc)]

/-- What was doubled is written as it was. -/
theorem fill_tokens_double (count : Nat) (cs : List Char) :
    fill placeholder count (tokens (double cs)) = cs := by
  rw [tokens_double]
  induction cs with
  | nil => rfl
  | cons c cs ih =>
    by_cases hc : c = mark
    · simp [hc, fill, ih]
    · simp [hc, fill, ih]

end Filling

/-! ### Formatting -/

section Formatting

variable {strategy : Nat → Except Rejection String}

theorem formatFrom_doubled (count : Nat) (rest : List Char) :
    formatFrom strategy count (mark :: mark :: rest) =
      (formatFrom strategy count rest).map fun f => { f with text := mark :: f.text } := by
  simp only [mark, formatFrom]
  cases formatFrom strategy count rest <;> rfl

theorem formatFrom_single {rest : List Char} (h : rest.head? ≠ some mark) (count : Nat) :
    formatFrom strategy count (mark :: rest) =
      strategy (count + 1) >>= fun marker =>
        (formatFrom strategy (count + 1) rest).map fun f =>
          { f with text := marker.toList ++ f.text } := by
  rw [formatFrom.eq_3 _ _ _ _ (by rintro _ _ rfl; exact absurd rfl h), if_pos rfl]
  cases strategy (count + 1) with
  | error e => rfl
  | ok marker => cases formatFrom strategy (count + 1) rest <;> rfl

theorem formatFrom_char {c : Char} (h : c ≠ mark) (count : Nat) (rest : List Char) :
    formatFrom strategy count (c :: rest) =
      (formatFrom strategy count rest).map fun f => { f with text := c :: f.text } := by
  rw [formatFrom.eq_3 _ _ _ _ (by rintro _ rfl; exact absurd rfl h), if_neg h]
  cases formatFrom strategy count rest <;> rfl

/-- If the placeholders that a text needs are not refused, formatting writes its tokens one after the
other. -/
theorem formatFrom_of_accepts_needed {placeholder : Nat → String} {count : Nat} {cs : List Char}
    (accepts : ∀ i, count < i → i ≤ count + (tokens cs).count .single →
      strategy i = .ok (placeholder i)) :
    formatFrom strategy count cs =
      .ok ⟨fill placeholder count (tokens cs), count + (tokens cs).count .single⟩ := by
  induction cs using tokens_induction generalizing count with
  | nil => rfl
  | doubled rest ih =>
    have hrest := ih fun i hlt hle => accepts i hlt (by simpa using hle)
    rw [formatFrom_doubled, hrest, tokens_doubled]
    simp [Except.map, fill]
  | single rest h ih =>
    have hcount : (tokens (mark :: rest)).count .single = (tokens rest).count .single + 1 := by
      rw [tokens_single h, List.count_cons_self]
    have hnext : strategy (count + 1) = .ok (placeholder (count + 1)) :=
      accepts (count + 1) (by omega) (by omega)
    have haccepts : ∀ i, count + 1 < i → i ≤ count + 1 + (tokens rest).count .single →
        strategy i = .ok (placeholder i) :=
      fun i hlt hle => accepts i (by omega) (by omega)
    have hrest := ih haccepts
    rw [formatFrom_single h, hnext, hrest, tokens_single h]
    simp [bind, Except.bind, Except.map, fill]
    omega
  | char c rest h ih =>
    have hrest := ih fun i hlt hle => accepts i hlt (by simpa [tokens_char h] using hle)
    rw [formatFrom_char h, hrest, tokens_char h]
    simp [Except.map, fill]

/-- With a strategy that refuses nothing, formatting writes the tokens one after the other. -/
theorem formatFrom_of_accepts {placeholder : Nat → String}
    (accepts : ∀ i, strategy i = .ok (placeholder i)) (count : Nat) (cs : List Char) :
    formatFrom strategy count cs =
      .ok ⟨fill placeholder count (tokens cs), count + (tokens cs).count .single⟩ :=
  formatFrom_of_accepts_needed fun i _ _ => accepts i

/-- The first of the placeholders needed that is refused makes formatting fail. -/
theorem formatFrom_of_rejects {count i : Nat} {cs : List Char} {r : Rejection} (hlt : count < i)
    (hle : i ≤ count + (tokens cs).count .single) (hrejects : strategy i = .error r)
    (hbefore : ∀ j, count < j → j < i → ∃ marker, strategy j = .ok marker) :
    formatFrom strategy count cs = .error r := by
  induction cs using tokens_induction generalizing count with
  | nil =>
    have hle : i ≤ count := hle
    omega
  | doubled rest ih =>
    have hrest := ih hlt (by simpa using hle) hbefore
    rw [formatFrom_doubled, hrest]
    rfl
  | single rest h ih =>
    rw [formatFrom_single h]
    rcases Nat.eq_or_lt_of_le hlt with rfl | hlater
    · rw [hrejects]
      rfl
    · obtain ⟨marker, hmarker⟩ := hbefore (count + 1) (by omega) hlater
      have hcount : (tokens (mark :: rest)).count .single = (tokens rest).count .single + 1 := by
        rw [tokens_single h, List.count_cons_self]
      have hrest := ih hlater (by omega) fun j hj => hbefore j (by omega)
      rw [hmarker, hrest]
      rfl
  | char c rest h ih =>
    have hrest := ih hlt (by simpa [tokens_char h] using hle) hbefore
    rw [formatFrom_char h, hrest]
    rfl

/-- Whatever the strategy, there are as many placeholders as single marks. -/
theorem placeholders_of_formatFrom {count : Nat} {cs : List Char} {f : Formatted}
    (h : formatFrom strategy count cs = .ok f) :
    f.placeholders = count + (tokens cs).count .single := by
  induction cs using tokens_induction generalizing count f with
  | nil =>
    cases h
    rfl
  | doubled rest ih =>
    rw [formatFrom_doubled] at h
    obtain ⟨g, hg, rfl⟩ := map_eq_ok_iff.mp h
    simpa using ih hg
  | single rest hhead ih =>
    rw [formatFrom_single hhead] at h
    obtain ⟨marker, -, h⟩ := bind_eq_ok_iff.mp h
    obtain ⟨g, hg, rfl⟩ := map_eq_ok_iff.mp h
    have := ih hg
    simp only [tokens_single hhead, List.count_cons_self]
    omega
  | char c rest hc ih =>
    rw [formatFrom_char hc] at h
    obtain ⟨g, hg, rfl⟩ := map_eq_ok_iff.mp h
    simpa [tokens_char hc] using ih hg

end Formatting

end BoundQuery.Statement
