/-
# Lines of a text

An index holds where the lines of a text start, in bytes. The line of an offset is found in it by
halving, and its column by counting the characters from the start of that line on. What is found is
the position that passing over the characters leads to, and positions are in the order of offsets.

Main statements: `position?_eq`, `positionAt_lines`.
-/

import Mathlib.Data.List.DropRight
import BoundQuery.Proofs.Text.Offsets
import BoundQuery.Proofs.Text.Slices
import BoundQuery.Text.Position

namespace BoundQuery.Text

/-! ### The order of positions -/

namespace Pos

/-- Positions are ordered by their lines, and on one line by their columns. -/
instance : LT Pos where
  lt p q := p.line < q.line ∨ p.line = q.line ∧ p.column < q.column

instance (p q : Pos) : Decidable (p < q) :=
  inferInstanceAs (Decidable (p.line < q.line ∨ p.line = q.line ∧ p.column < q.column))

variable {p q r : Pos}

theorem lt_iff : p < q ↔ p.line < q.line ∨ p.line = q.line ∧ p.column < q.column :=
  Iff.rfl

theorem lt_irrefl (p : Pos) : ¬ p < p := by
  rw [lt_iff]
  omega

theorem lt_trans (h : p < q) (h' : q < r) : p < r := by
  rw [lt_iff] at h h' ⊢
  omega

theorem lt_advance (p : Pos) (c : Char) : p < p.advance c := by
  unfold advance
  split
  · exact .inl (Nat.lt_succ_self _)
  · exact .inr ⟨rfl, Nat.lt_succ_self _⟩

/-- Whatever is passed over, the position after it is a later one. -/
theorem lt_foldl_advance {cs : List Char} (h : cs ≠ []) (p : Pos) : p < cs.foldl advance p := by
  induction cs generalizing p with
  | nil => exact absurd rfl h
  | cons c cs ih =>
    rw [List.foldl_cons]
    by_cases hcs : cs = []
    · rw [hcs]
      exact lt_advance p c
    · exact lt_trans (lt_advance p c) (ih hcs (p.advance c))

end Pos

/-! ### Lines and columns -/

/-- What stands after the last line feed of a text. -/
def lastLine (cs : List Char) : List Char :=
  cs.rtakeWhile (· != '\n')

theorem lastLine_concat (cs : List Char) (c : Char) :
    lastLine (cs ++ [c]) = if c = '\n' then [] else lastLine cs ++ [c] := by
  rw [lastLine, List.rtakeWhile_concat]
  by_cases hc : c = '\n' <;> simp [hc, lastLine]

/-- From the start of a text one comes to the line that the line feeds tell, and to the column that
the characters after the last of them do. -/
theorem foldl_advance_start (cs : List Char) :
    cs.foldl Pos.advance .start = ⟨1 + cs.count '\n', 1 + (lastLine cs).length⟩ := by
  induction cs using List.reverseRecOn with
  | nil => rfl
  | append_singleton cs c ih =>
    rw [List.foldl_append, ih, lastLine_concat, List.count_append, List.foldl_cons, List.foldl_nil,
      Pos.advance]
    by_cases hc : c = '\n'
    · simp [hc, Nat.add_assoc]
    · simp [hc, Nat.add_assoc]

/-! ### Offsets between characters and inside them -/

/-- The offset is one between characters, or at an end of the text. -/
def Boundary (text : List Char) (offset : Nat) : Prop :=
  ∃ before, before <+: text ∧ utf8Length before = offset

/-- A text as what lies before an offset, and what does not: where the offset is inside a character,
that character is the first of the rest. -/
structure SplitAt (offset : Nat) (before after : List Char) : Prop where
  le : utf8Length before ≤ offset
  lt : ∀ c ∈ after.head?, offset < utf8Length before + c.utf8Size

theorem exists_splitAt (text : List Char) (offset : Nat) :
    ∃ before after, text = before ++ after ∧ SplitAt offset before after := by
  induction text generalizing offset with
  | nil => exact ⟨[], [], rfl, Nat.zero_le _, by simp⟩
  | cons c cs ih =>
    by_cases hc : c.utf8Size ≤ offset
    · obtain ⟨before, after, rfl, hle, hlt⟩ := ih (offset - c.utf8Size)
      refine ⟨c :: before, after, rfl, ?_, fun d hd => ?_⟩
      · rw [utf8Length_cons]
        omega
      · have hd := hlt d hd
        rw [utf8Length_cons]
        omega
    · refine ⟨[], c :: cs, rfl, Nat.zero_le _, fun d hd => ?_⟩
      cases hd
      rw [utf8Length_nil]
      omega

section Split

variable {before after : List Char} {offset : Nat}

/-- Inside a character, or beyond the end, the position is the start of the line. -/
theorem positionFrom_splitAt (h : SplitAt offset before after) (p : Pos) :
    positionFrom p (before ++ after) offset =
      if offset = utf8Length before then before.foldl Pos.advance p
      else ⟨(before.foldl Pos.advance p).line, 1⟩ := by
  obtain ⟨hle, hlt⟩ := h
  split
  · rename_i heq
    rw [heq, positionFrom_append]
  · rename_i hne
    induction before generalizing p offset with
    | nil =>
      obtain ⟨n, rfl⟩ : ∃ n, offset = n + 1 := Nat.exists_eq_succ_of_ne_zero hne
      cases after with
      | nil => rfl
      | cons c after =>
        have hc := hlt c rfl
        rw [utf8Length_nil, Nat.zero_add] at hc
        rw [List.nil_append, positionFrom, if_neg (by omega)]
        rfl
    | cons c before ih =>
      rw [utf8Length_cons] at hle hne hlt
      have hc := c.utf8Size_pos
      obtain ⟨n, rfl⟩ : ∃ n, offset = n + 1 := Nat.exists_eq_succ_of_ne_zero (by omega)
      have hrest : ∀ d ∈ after.head?, n + 1 - c.utf8Size < utf8Length before + d.utf8Size :=
        fun d hd => by
          have hd := hlt d hd
          omega
      rw [List.cons_append, positionFrom, if_pos (by omega), ih (p.advance c) (by omega) hrest
        (by omega)]
      rfl

/-- The text can be cut at the offset only where the split is. -/
theorem eq_of_boundary (h : SplitAt offset before after)
    (hcut : Boundary (before ++ after) offset) : offset = utf8Length before := by
  obtain ⟨front, ⟨back, hfront⟩, rfl⟩ := hcut
  obtain ⟨hle, hlt⟩ := h
  rcases List.append_eq_append_iff.mp hfront with ⟨more, rfl, -⟩ | ⟨more, rfl, rfl⟩
  · rw [utf8Length_append] at hle ⊢
    omega
  · cases more with
    | nil => rw [List.append_nil]
    | cons c more =>
      have hc := hlt c rfl
      rw [utf8Length_append, utf8Length_cons] at hc
      omega

end Split

/-- A slice ends at a boundary. -/
theorem boundary_of_slice? {cs slice : List Char} {start stop : Nat}
    (h : slice? cs start stop = some slice) : Boundary cs stop := by
  unfold slice? at h
  split at h
  · obtain ⟨rest, hfrom, hto⟩ := Option.bind_eq_some_iff.mp h
    obtain ⟨before, rfl, rfl⟩ := sliceFrom?_eq_some hfrom
    obtain ⟨⟨front, back⟩, hcut, rfl⟩ := Option.map_eq_some_iff.mp hto
    obtain ⟨rfl, hlength⟩ := cutAt?_eq_some_iff.mp hcut
    refine ⟨before ++ front, ⟨back, List.append_assoc ..⟩, ?_⟩
    rw [utf8Length_append]
    omega
  · cases h

/-! ### The index -/

/-- Where lines start after the line feeds of a text that is itself so many bytes into another. -/
def startsFrom (offset : Nat) : List Char → List Nat
  | [] => []
  | c :: cs =>
    if c = '\n' then (offset + 1) :: startsFrom (offset + c.utf8Size) cs
    else startsFrom (offset + c.utf8Size) cs

/-- Where the lines of a text start: at its front, and after each line feed. -/
def lineStarts (text : List Char) : Array Nat :=
  (0 :: startsFrom 0 text).toArray

/-- How many entries at the front of an array satisfy a test that no later ones do, searched between
two places by halving what lies between them. -/
def partitionPoint (holds : Nat → Bool) (xs : Array Nat) (low high : Nat) (h : high ≤ xs.size) :
    Nat :=
  if hlt : low < high then
    let middle := low + (high - low) / 2
    have hmiddle : middle < high := by
      dsimp only [middle]
      omega
    have hsize : middle < xs.size := Nat.lt_of_lt_of_le hmiddle h
    if holds xs[middle] then
      partitionPoint holds xs (middle + 1) high h
    else partitionPoint holds xs low middle (Nat.le_trans (Nat.le_of_lt hmiddle) h)
  else low
termination_by high - low

/-- The position of an offset by the index of the lines. There is none if the index has no entry for
the line. Where there is no slice of the text from the start of the line to the offset, no
characters are counted. -/
def position? (text : List Char) (offset : Nat) : Option Pos :=
  let starts := lineStarts text
  let line := partitionPoint (· ≤ offset) starts 0 starts.size (Nat.le_refl _)
  starts[line - 1]?.map fun start =>
    ⟨line, ((slice? text start offset).map List.length).getD 0 + 1⟩

/-- The search by halving finds where the front ends. -/
theorem partitionPoint_eq {holds : Nat → Bool} {xs : Array Nat} {front back : List Nat}
    (hxs : xs.toList = front ++ back) (hfront : ∀ x ∈ front, holds x = true)
    (hback : ∀ x ∈ back, holds x = false) {low high : Nat} (hhigh : high ≤ xs.size)
    (hlow : low ≤ front.length) (hle : front.length ≤ high) :
    partitionPoint holds xs low high hhigh = front.length := by
  have hget : ∀ i (hi : i < xs.size), holds xs[i] = true ↔ i < front.length := by
    intro i hi
    rw [← Array.getElem_toList hi]
    by_cases hlt : i < front.length
    · have hmem : xs.toList[i] ∈ front := by
        simp only [hxs, List.getElem_append_left hlt]
        exact List.getElem_mem hlt
      simp only [hlt, iff_true]
      exact hfront _ hmem
    · have hmem : xs.toList[i] ∈ back := by
        simp only [hxs, List.getElem_append_right (Nat.le_of_not_lt hlt)]
        exact List.getElem_mem _
      simp only [hlt, hback _ hmem, Bool.false_eq_true]
  fun_induction partitionPoint holds xs low high hhigh with
  | case1 low high hhigh hlt middle hmiddle hsize hholds ih =>
    exact ih ((hget middle _).mp hholds) hle
  | case2 low high hhigh hlt middle hmiddle hsize hholds ih =>
    exact ih hlow (Nat.le_of_not_lt fun hlt => hholds ((hget middle _).mpr hlt))
  | case3 low high hhigh hlt => omega

theorem startsFrom_append (offset : Nat) (cs more : List Char) :
    startsFrom offset (cs ++ more) =
      startsFrom offset cs ++ startsFrom (offset + utf8Length cs) more := by
  induction cs generalizing offset with
  | nil => rfl
  | cons c cs ih =>
    rw [List.cons_append, startsFrom, startsFrom, ih, utf8Length_cons, Nat.add_assoc]
    split <;> rfl

theorem startsFrom_concat (offset : Nat) (cs : List Char) (c : Char) :
    startsFrom offset (cs ++ [c]) =
      startsFrom offset cs ++ if c = '\n' then [offset + utf8Length cs + 1] else [] := by
  rw [startsFrom_append]
  rfl

theorem length_startsFrom (offset : Nat) (cs : List Char) :
    (startsFrom offset cs).length = cs.count '\n' := by
  induction cs generalizing offset with
  | nil => rfl
  | cons c cs ih =>
    by_cases hc : c = '\n'
    · simp [startsFrom, hc, ih]
    · simp [startsFrom, hc, ih]

/-- No line of a text starts beyond its end. -/
theorem startsFrom_le {offset start : Nat} {cs : List Char} (h : start ∈ startsFrom offset cs) :
    start ≤ offset + utf8Length cs := by
  induction cs generalizing offset with
  | nil => cases h
  | cons c cs ih =>
    have hpos := c.utf8Size_pos
    rw [startsFrom] at h
    rw [utf8Length_cons]
    split at h
    · rcases List.mem_cons.mp h with rfl | h
      · omega
      · have := ih h
        omega
    · have := ih h
      omega

/-- After the first character of a text, at the earliest, a line starts. -/
theorem le_startsFrom {offset start : Nat} {cs : List Char} (h : start ∈ startsFrom offset cs) :
    ∃ c ∈ cs.head?, offset + c.utf8Size ≤ start := by
  induction cs generalizing offset with
  | nil => cases h
  | cons c cs ih =>
    refine ⟨c, rfl, ?_⟩
    rw [startsFrom] at h
    have hrest : start ∈ startsFrom (offset + c.utf8Size) cs → offset + c.utf8Size ≤ start := by
      intro h
      obtain ⟨d, -, hd⟩ := ih h
      omega
    split at h
    · rename_i hc
      rcases List.mem_cons.mp h with rfl | h
      · rw [hc]
        exact Nat.le_refl _
      · exact hrest h
    · exact hrest h

/-- The last line of a text starts where the last entry of its index says. -/
theorem exists_lastLine (cs : List Char) :
    ∃ front, cs = front ++ lastLine cs ∧
      (0 :: startsFrom 0 cs)[cs.count '\n']? = some (utf8Length front) := by
  induction cs using List.reverseRecOn with
  | nil => exact ⟨[], rfl, rfl⟩
  | append_singleton cs c ih =>
    rw [lastLine_concat, startsFrom_concat, List.count_append]
    by_cases hc : c = '\n'
    · refine ⟨cs ++ [c], by simp [hc], ?_⟩
      simp [hc, ← length_startsFrom 0 cs, show '\n'.utf8Size = 1 from rfl]
    · obtain ⟨front, hfront, hstart⟩ := ih
      refine ⟨front, ?_, by simpa [hc] using hstart⟩
      rw [if_neg hc, ← List.append_assoc, ← hfront]

theorem lineStarts_append (before after : List Char) :
    (lineStarts (before ++ after)).toList =
      (0 :: startsFrom 0 before) ++ startsFrom (utf8Length before) after := by
  rw [lineStarts, startsFrom_append, Nat.zero_add]
  rfl

theorem length_starts (cs : List Char) : (0 :: startsFrom 0 cs).length = cs.count '\n' + 1 := by
  rw [List.length_cons, length_startsFrom]

section Index

variable {front before after : List Char} {offset : Nat}

/-- The lines that start up to an offset are those that start in what lies before it. -/
theorem partitionPoint_lineStarts (h : SplitAt offset before after) :
    partitionPoint (· ≤ offset) (lineStarts (before ++ after)) 0
      (lineStarts (before ++ after)).size (Nat.le_refl _) = before.count '\n' + 1 := by
  have hstarts := lineStarts_append before after
  rw [← length_starts]
  refine partitionPoint_eq hstarts ?_ ?_ _ (Nat.zero_le _) ?_
  · intro start hmem
    rw [decide_eq_true_eq]
    rcases List.mem_cons.mp hmem with rfl | hmem
    · exact Nat.zero_le _
    · have hle := startsFrom_le hmem
      have hbefore := h.le
      omega
  · intro start hmem
    obtain ⟨c, hc, hle⟩ := le_startsFrom hmem
    have hlt := h.lt c hc
    exact decide_eq_false (by omega)
  · rw [← Array.length_toList, hstarts, List.length_append]
    exact Nat.le_add_right _ _

/-- From the start of the line to the offset are the characters of the last line before it, unless
the offset is inside a character: then there is no slice. -/
theorem slice?_lastLine (h : SplitAt offset before after)
    (hfront : before = front ++ lastLine before) :
    slice? (before ++ after) (utf8Length front) offset =
      if offset = utf8Length before then some (lastLine before) else none := by
  split
  · rename_i heq
    have hslice := Text.slice?_append front (lastLine before) after
    rwa [← utf8Length_append, ← hfront, ← heq] at hslice
  · rename_i hne
    cases hslice : slice? (before ++ after) (utf8Length front) offset with
    | none => rfl
    | some slice => exact absurd (eq_of_boundary h (boundary_of_slice? hslice)) hne

end Index

/-- The index leads to the same positions as passing over the characters, at every offset. -/
theorem position?_eq (text : List Char) (offset : Nat) :
    position? text offset = some (positionAt text offset) := by
  obtain ⟨before, after, rfl, hsplit⟩ := exists_splitAt text offset
  obtain ⟨front, hfront, hstart⟩ := exists_lastLine before
  have hentry : (lineStarts (before ++ after))[before.count '\n']? = some (utf8Length front) := by
    have hlength := length_starts before
    rw [← Array.getElem?_toList, lineStarts_append, List.getElem?_append_left (by omega), hstart]
  unfold position?
  dsimp only
  rw [partitionPoint_lineStarts hsplit, Nat.add_sub_cancel, hentry, Option.map_some,
    slice?_lastLine hsplit hfront, positionAt, positionFrom_splitAt hsplit, foldl_advance_start,
    Nat.add_comm 1, Nat.add_comm 1]
  split <;> rfl

/-! ### Positions of a text -/

/-- One boundary comes before another just as its position does. -/
theorem positionAt_lt_iff {text : List Char} {offset other : Nat} (h : Boundary text offset)
    (h' : Boundary text other) :
    positionAt text offset < positionAt text other ↔ offset < other := by
  have hforward : ∀ {offset other : Nat}, Boundary text offset → Boundary text other →
      offset < other → positionAt text offset < positionAt text other := by
    rintro _ _ ⟨before, hbefore, rfl⟩ ⟨front, hfront, rfl⟩ hlt
    obtain ⟨more, rfl⟩ : before <+: front := by
      rcases List.prefix_or_prefix_of_prefix hbefore hfront with hprefix | ⟨more, rfl⟩
      · exact hprefix
      · rw [utf8Length_append] at hlt
        omega
    have hmore : more ≠ [] := by
      rintro rfl
      rw [List.append_nil] at hlt
      exact Nat.lt_irrefl _ hlt
    obtain ⟨after, rfl⟩ := hfront
    have hposition : positionAt (before ++ more ++ after) (utf8Length before) =
        before.foldl Pos.advance .start := by
      rw [List.append_assoc, positionAt_append]
    rw [hposition, positionAt_append, List.foldl_append]
    exact Pos.lt_foldl_advance hmore _
  refine ⟨fun hlt => ?_, hforward h h'⟩
  rcases Nat.lt_trichotomy offset other with hoffset | rfl | hoffset
  · exact hoffset
  · exact absurd hlt (Pos.lt_irrefl _)
  · exact absurd (Pos.lt_trans hlt (hforward h' h hoffset)) (Pos.lt_irrefl _)

/-- The position of each offset is found by the index of the lines. After an initial part of a text
it tells how many line feeds are in that part, and how many characters are after the last of them.
So positions of boundaries are in the order of their offsets, and no two boundaries share one. -/
theorem positionAt_lines (text : List Char) :
    (∀ offset, position? text offset = some (positionAt text offset)) ∧
    (∀ before, before <+: text → positionAt text (utf8Length before) =
      ⟨1 + before.count '\n', 1 + (lastLine before).length⟩) ∧
    ∀ offset other, Boundary text offset → Boundary text other →
      (positionAt text offset < positionAt text other ↔ offset < other) ∧
      (positionAt text offset = positionAt text other ↔ offset = other) := by
  refine ⟨position?_eq text, ?_, ?_⟩
  · rintro before ⟨after, rfl⟩
    rw [positionAt_append, foldl_advance_start]
  · intro offset other h h'
    refine ⟨positionAt_lt_iff h h', fun heq => ?_, fun heq => by rw [heq]⟩
    rcases Nat.lt_trichotomy offset other with hlt | heq' | hlt
    · have hlt := (positionAt_lt_iff h h').mpr hlt
      exact absurd (heq ▸ hlt) (Pos.lt_irrefl _)
    · exact heq'
    · have hlt := (positionAt_lt_iff h' h).mpr hlt
      exact absurd (heq ▸ hlt) (Pos.lt_irrefl _)

/-- A line that ends in a carriage return and a line feed, an empty one, and one without an end. -/
theorem positionAt_lines_mixed :
    Boundary "é\r\n\nbü".toList 4 ∧ Boundary "é\r\n\nbü".toList 8 ∧
      position? "é\r\n\nbü".toList 8 = some ⟨3, 3⟩ ∧
      positionAt "é\r\n\nbü".toList 4 = ⟨2, 1⟩ ∧
      positionAt "é\r\n\nbü".toList 4 < positionAt "é\r\n\nbü".toList 8 := by
  obtain ⟨hindex, hexact, horder⟩ := positionAt_lines "é\r\n\nbü".toList
  have hfirst : Boundary "é\r\n\nbü".toList 4 := ⟨"é\r\n".toList, by decide, by decide⟩
  have hlast : Boundary "é\r\n\nbü".toList 8 := ⟨"é\r\n\nbü".toList, by decide, by decide⟩
  have hline : positionAt "é\r\n\nbü".toList 4 = ⟨2, 1⟩ := hexact "é\r\n".toList (by decide)
  have hend : positionAt "é\r\n\nbü".toList 8 = ⟨3, 3⟩ :=
    hexact "é\r\n\nbü".toList (List.prefix_refl _)
  refine ⟨hfirst, hlast, ?_, hline, (horder 4 8 hfirst hlast).1.mpr (by decide)⟩
  rw [hindex, hend]

end BoundQuery.Text
