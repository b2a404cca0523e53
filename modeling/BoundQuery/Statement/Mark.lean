/-
# Question marks

In the text that a template writes, a single question mark stands for an argument. A question mark
that is meant as such is doubled.
-/

namespace BoundQuery.Statement

/-- What stands for an argument. -/
def mark : Char := '?'

/-- Writes every question mark twice. -/
def double (cs : List Char) : List Char :=
  cs.flatMap fun c => if c = mark then [mark, mark] else [c]

/-! ### Laws -/

@[simp] theorem double_nil : double [] = [] := rfl

theorem double_cons (c : Char) (cs : List Char) :
    double (c :: cs) = (if c = mark then [mark, mark] else [c]) ++ double cs := rfl

theorem double_append (s t : List Char) : double (s ++ t) = double s ++ double t := by
  simp [double]

theorem double_eq_nil_iff {cs : List Char} : double cs = [] ↔ cs = [] := by
  constructor
  · intro h
    cases cs with
    | nil => rfl
    | cons c cs =>
      simp only [double, List.flatMap_cons] at h
      by_cases hc : c = mark <;> simp [hc] at h
  · rintro rfl
    rfl

end BoundQuery.Statement
