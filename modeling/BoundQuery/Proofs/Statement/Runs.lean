/-
# Runs of question marks

Formatting told by the longest runs of question marks of a raw text, whatever the strategy. A run of k
marks becomes k/2 marks and, if k is odd, the next placeholder; all else stays as it is. Of the
placeholders that a text needs, the first one that is refused is the reason why there is no statement.

Main statements: `Runs.tokens_source`, `format_by_runs`.
-/

import BoundQuery.Proofs.Statement.Tokens
import Mathlib.Algebra.Ring.Parity
import Mathlib.Data.Nat.Find
import Mathlib.Order.Bounds.Basic

namespace BoundQuery.Statement

/-- The longest runs of question marks of a text, each with the text before it. -/
structure Runs where
  /-- The text before each run, from the run before it on, and the length of the run. -/
  runs : List (List Char × Nat)
  /-- The text after the last run. -/
  last : List Char
  unmarked : ∀ r ∈ runs, mark ∉ r.1
  unmarked_last : mark ∉ last
  pos : ∀ r ∈ runs, 0 < r.2
  /-- No two runs meet. -/
  apart : ∀ r ∈ runs.tail, r.1 ≠ []

namespace Runs

/-- The text that the runs are those of. -/
def source (r : Runs) : List Char :=
  r.runs.flatMap (fun (gap, k) => gap ++ List.replicate k mark) ++ r.last

/-- The number of runs that are odd. -/
def odd (r : Runs) : Nat :=
  r.runs.countP fun (_, k) => decide (Odd k)

/-- Each run of k marks is written as k/2 marks and, if k is odd, the next placeholder. -/
def renderAll (placeholder : Nat → String) (count : Nat) : List (List Char × Nat) → List Char
  | [] => []
  | (gap, k) :: rest =>
    gap ++ List.replicate (k / 2) mark ++
      if Odd k then (placeholder (count + 1)).toList ++ renderAll placeholder (count + 1) rest
      else renderAll placeholder count rest

/-- The text with its runs rendered. -/
def render (placeholder : Nat → String) (r : Runs) : List Char :=
  renderAll placeholder 0 r.runs ++ r.last

/-! ### The runs of a text -/

def empty : Runs :=
  ⟨[], [], by simp, by simp, by simp, by simp⟩

/-- A character other than a mark before the text. -/
def consPlain (c : Char) (h : c ≠ mark) (r : Runs) : Runs :=
  match r with
  | ⟨[], last, unmarked, unmarked_last, pos, apart⟩ =>
    ⟨[], c :: last, unmarked, by simp [h.symm, unmarked_last], pos, apart⟩
  | ⟨(gap, k) :: rest, last, unmarked, unmarked_last, pos, apart⟩ =>
    ⟨(c :: gap, k) :: rest, last, by
        rw [List.forall_mem_cons] at unmarked ⊢
        exact ⟨by simp [h.symm, unmarked.1], unmarked.2⟩,
      unmarked_last, by simpa using pos, apart⟩

/-- A mark before the text makes its first run longer, or is a run of its own. -/
def consMark (r : Runs) : Runs :=
  match r with
  | ⟨([], k) :: rest, last, unmarked, unmarked_last, pos, apart⟩ =>
    ⟨([], k + 1) :: rest, last, by simpa using unmarked, unmarked_last,
      List.forall_mem_cons.mpr ⟨Nat.succ_pos k, (List.forall_mem_cons.mp pos).2⟩, apart⟩
  | ⟨[], last, _, unmarked_last, _, _⟩ =>
    ⟨[([], 1)], last, by simp, unmarked_last, by simp, by simp⟩
  | ⟨(c :: gap, k) :: rest, last, unmarked, unmarked_last, pos, apart⟩ =>
    ⟨([], 1) :: (c :: gap, k) :: rest, last, List.forall_mem_cons.mpr ⟨by simp, unmarked⟩,
      unmarked_last, List.forall_mem_cons.mpr ⟨Nat.one_pos, pos⟩,
      List.forall_mem_cons.mpr ⟨List.cons_ne_nil c gap, apart⟩⟩

/-- The longest runs of marks in a text. -/
def ofText : List Char → Runs
  | [] => empty
  | c :: cs => if h : c = mark then (ofText cs).consMark else (ofText cs).consPlain c h

theorem source_consPlain {c : Char} (h : c ≠ mark) (r : Runs) :
    (r.consPlain c h).source = c :: r.source := by
  obtain ⟨_ | ⟨⟨gap, k⟩, rest⟩, last⟩ := r <;> simp [consPlain, source]

theorem source_consMark (r : Runs) : r.consMark.source = mark :: r.source := by
  obtain ⟨_ | ⟨⟨_ | ⟨c, gap⟩, k⟩, rest⟩, last⟩ := r <;>
    simp [consMark, source, List.replicate_succ]

/-- The runs of a text, with what is between them, are the text. -/
theorem source_ofText (cs : List Char) : (ofText cs).source = cs := by
  induction cs with
  | nil => rfl
  | cons c cs ih =>
    rw [ofText]
    split
    · rename_i h
      rw [source_consMark, ih, h]
    · rw [source_consPlain, ih]

/-! ### What is read in runs -/

theorem tokens_append_of_unmarked {gap : List Char} (h : mark ∉ gap) (cs : List Char) :
    tokens (gap ++ cs) = gap.map .char ++ tokens cs := by
  induction gap with
  | nil => rfl
  | cons c gap ih =>
    have hc : c ≠ mark := fun hc => h (hc ▸ List.mem_cons_self)
    have hgap : mark ∉ gap := fun hmem => h (List.mem_cons_of_mem c hmem)
    rw [List.cons_append, tokens_char hc, ih hgap, List.map_cons, List.cons_append]

/-- The tokens of a run after other text. -/
def runTokens : List Char × Nat → List Token
  | (gap, k) =>
    gap.map .char ++ (List.replicate (k / 2) .doubled ++ if Even k then [] else [.single])

/-- Each run is read on its own. -/
theorem tokens_source (r : Runs) :
    tokens r.source = r.runs.flatMap runTokens ++ r.last.map .char := by
  obtain ⟨runs, last, unmarked, unmarked_last, pos, apart⟩ := r
  change tokens (runs.flatMap _ ++ last) = runs.flatMap runTokens ++ last.map .char
  clear pos
  induction runs with
  | nil => simpa using tokens_append_of_unmarked unmarked_last []
  | cons first rest ih =>
    obtain ⟨gap, k⟩ := first
    obtain ⟨hgap, hrest⟩ := List.forall_mem_cons.mp unmarked
    have hread := ih hrest fun r hr => apart r (List.mem_of_mem_tail hr)
    -- What follows on the run does not start with a mark, or the two would be one run.
    have hhead : (rest.flatMap (fun (gap, k) => gap ++ List.replicate k mark) ++ last).head? ≠
        some mark := by
      intro hmark
      cases rest with
      | nil => exact unmarked_last (List.mem_of_head? hmark)
      | cons second rest =>
        obtain ⟨_ | ⟨c, gap⟩, k⟩ := second
        · exact apart _ List.mem_cons_self rfl
        · cases hmark
          exact hrest _ List.mem_cons_self List.mem_cons_self
    rw [List.flatMap_cons, List.flatMap_cons, List.append_assoc, List.append_assoc,
      tokens_append_of_unmarked hgap, tokens_append_of_head hhead, tokens_replicate, hread]
    simp [runTokens]

theorem count_runTokens (run : List Char × Nat) :
    (runTokens run).count .single = if Odd run.2 then 1 else 0 := by
  have hchars : (run.1.map Token.char).count .single = 0 :=
    List.count_eq_zero.mpr (by simp)
  have hdoubled : (List.replicate (run.2 / 2) Token.doubled).count .single = 0 :=
    List.count_eq_zero.mpr (by simp [List.mem_replicate])
  rw [runTokens, List.count_append, List.count_append, hchars, hdoubled]
  by_cases hodd : Odd run.2
  · simp [hodd, Nat.not_even_iff_odd.mpr hodd]
  · simp [hodd, Nat.not_odd_iff_even.mp hodd]

/-- A text has as many single marks as odd runs. -/
theorem count_tokens_source (r : Runs) : (tokens r.source).count .single = r.odd := by
  have hlast : (r.last.map Token.char).count .single = 0 := List.count_eq_zero.mpr (by simp)
  rw [tokens_source, List.count_append, hlast, Nat.add_zero, odd]
  induction r.runs with
  | nil => rfl
  | cons run rest ih =>
    rw [List.flatMap_cons, List.count_append, count_runTokens, ih, List.countP_cons, Nat.add_comm]
    simp

section Filling

variable (placeholder : Nat → String)

theorem fill_chars (count : Nat) (cs : List Char) (ts : List Token) :
    fill placeholder count (cs.map .char ++ ts) = cs ++ fill placeholder count ts := by
  induction cs with
  | nil => rfl
  | cons c cs ih => rw [List.map_cons, List.cons_append, fill, ih, List.cons_append]

theorem fill_doubled (count k : Nat) (ts : List Token) :
    fill placeholder count (List.replicate k .doubled ++ ts) =
      List.replicate k mark ++ fill placeholder count ts := by
  induction k with
  | zero => rfl
  | succ k ih =>
    rw [List.replicate_succ, List.cons_append, fill, ih, List.replicate_succ, List.cons_append]

theorem fill_runs (count : Nat) (runs : List (List Char × Nat)) (last : List Char) :
    fill placeholder count (runs.flatMap runTokens ++ last.map .char) =
      renderAll placeholder count runs ++ last := by
  induction runs generalizing count with
  | nil => simpa [fill, renderAll] using fill_chars placeholder count last []
  | cons run rest ih =>
    obtain ⟨gap, k⟩ := run
    rw [List.flatMap_cons, runTokens, List.append_assoc, List.append_assoc, List.append_assoc,
      fill_chars, fill_doubled, renderAll]
    by_cases hodd : Odd k
    · rw [if_neg (Nat.not_even_iff_odd.mpr hodd), if_pos hodd, List.singleton_append, fill, ih]
      simp
    · rw [if_pos (Nat.not_odd_iff_even.mp hodd), if_neg hodd, List.nil_append, ih]
      simp

/-- Filling in the placeholders of a text renders its runs. -/
theorem fill_tokens_source (r : Runs) : fill placeholder 0 (tokens r.source) = r.render placeholder := by
  rw [tokens_source, fill_runs, render]

end Filling

end Runs

/-! ### Formatting -/

/-- A strategy refuses the placeholder of an argument. -/
def Strategy.Rejects (s : Strategy) (i : Nat) : Prop :=
  ∃ r, s.placeholder i = .error r

/-- A strategy that does not refuse a placeholder renders it. -/
theorem Strategy.exists_of_not_rejects {s : Strategy} {i : Nat} (h : ¬ s.Rejects i) :
    ∃ marker, s.placeholder i = .ok marker := by
  cases hi : s.placeholder i with
  | ok marker => exact ⟨marker, rfl⟩
  | error r => exact absurd ⟨r, hi⟩ h

/-- What becomes of a raw text with `n` odd runs of question marks. If none of the first `n`
placeholders is refused, the text is that with its runs rendered, and there are `n` placeholders. If
one is refused, the reason is that of the first one refused. What was doubled is written as it was. -/
theorem format_by_runs (s : Strategy) (raw : List Char) :
    (Runs.ofText raw).source = raw ∧
    (∀ placeholder : Nat → String,
      (∀ i, 1 ≤ i → i ≤ (Runs.ofText raw).odd → s.placeholder i = .ok (placeholder i)) →
      s.format raw = .ok ⟨(Runs.ofText raw).render placeholder, (Runs.ofText raw).odd⟩) ∧
    (∀ k, 1 ≤ k → k ≤ (Runs.ofText raw).odd → s.Rejects k →
      ∃ i r, IsLeast {j | 1 ≤ j ∧ j ≤ (Runs.ofText raw).odd ∧ s.Rejects j} i ∧
        s.placeholder i = .error r ∧ s.format raw = .error r) ∧
    ∀ cs, s.format (double cs) = .ok ⟨cs, 0⟩ := by
  have hsource := Runs.source_ofText raw
  have hcount : (tokens raw).count .single = (Runs.ofText raw).odd := by
    rw [← Runs.count_tokens_source, hsource]
  refine ⟨hsource, ?_, ?_, ?_⟩
  · intro placeholder haccepts
    have hfill : fill placeholder 0 (tokens raw) = (Runs.ofText raw).render placeholder := by
      rw [← Runs.fill_tokens_source, hsource]
    have hneeded : ∀ i, 0 < i → i ≤ 0 + (tokens raw).count .single →
        s.placeholder i = .ok (placeholder i) :=
      fun i hlt hle => haccepts i hlt (by omega)
    rw [Strategy.format, formatFrom_of_accepts_needed hneeded, hfill, hcount, Nat.zero_add]
  · intro k hpos hle hrejects
    classical
    have hexists : ∃ j, 1 ≤ j ∧ j ≤ (Runs.ofText raw).odd ∧ s.Rejects j := ⟨k, hpos, hle, hrejects⟩
    obtain ⟨hfirst, hneeded, r, hr⟩ := Nat.find_spec hexists
    refine ⟨Nat.find hexists, r, ⟨⟨hfirst, hneeded, r, hr⟩, fun j hj => Nat.find_min' hexists hj⟩,
      hr, formatFrom_of_rejects hfirst (by omega) hr ?_⟩
    intro j hj hlt
    exact Strategy.exists_of_not_rejects fun hrejects =>
      Nat.find_min hexists hlt ⟨hj, by omega, hrejects⟩
  · intro cs
    have hnone : (tokens (double cs)).count .single = 0 :=
      List.count_eq_zero_of_not_mem (single_notMem_tokens_double cs)
    have haccepts : ∀ i, 0 < i → i ≤ 0 + (tokens (double cs)).count .single →
        s.placeholder i = .ok "" := by
      intro i hlt hle
      omega
    rw [Strategy.format, formatFrom_of_accepts_needed haccepts, fill_tokens_double, hnone]

theorem format_by_runs_limited :
    (Strategy.limited "hashes" "#" 2).format "??? a ?? b ?".toList =
      .ok ⟨"?#1 a ? b #2".toList, 2⟩ ∧
    (Runs.ofText "??? a ?? b ?".toList).odd = 2 ∧
    ∃ r, (Strategy.limited "hashes" "#" 1).placeholder 2 = .error r ∧
      (Strategy.limited "hashes" "#" 1).format "??? a ?? b ?".toList = .error r := by
  have hodd : (Runs.ofText "??? a ?? b ?".toList).odd = 2 := by decide
  refine ⟨?_, hodd, ?_⟩
  · obtain ⟨-, haccepts, -⟩ := format_by_runs (.limited "hashes" "#" 2) "??? a ?? b ?".toList
    have hformat := haccepts (fun i => "#" ++ toString i) fun i _ hle =>
      if_neg (Nat.not_lt.mpr (hodd ▸ hle))
    rw [hformat, hodd]
    rfl
  · obtain ⟨-, -, hrejects, -⟩ := format_by_runs (.limited "hashes" "#" 1) "??? a ?? b ?".toList
    obtain ⟨i, r, ⟨⟨hpos, hle, hi⟩, -⟩, hr, hformat⟩ :=
      hrejects 2 (by decide) (Nat.le_of_eq hodd.symm) ⟨_, rfl⟩
    have hsecond : i = 2 := by
      obtain ⟨q, hq⟩ := hi
      by_contra hne
      have hfirst : i = 1 := by omega
      rw [hfirst] at hq
      cases hq
    exact ⟨r, hsecond ▸ hr, hformat⟩

end BoundQuery.Statement
