/-
# How a text starts

Main statement: `dropStart?_eq_some_iff`, what is dropped from the front of a text is what stands
there.
-/

namespace BoundQuery.Text

/-- What follows `start` at the front of a text. -/
def dropStart? : List Char → List Char → Option (List Char)
  | [], cs => some cs
  | s :: start, c :: cs => if s = c then dropStart? start cs else none
  | _ :: _, [] => none

theorem dropStart?_eq_some_iff {start cs rest : List Char} :
    dropStart? start cs = some rest ↔ cs = start ++ rest := by
  fun_induction dropStart? start cs with
  | case1 cs => simp
  | case2 start s cs ih => simpa using ih
  | case3 s start c cs h =>
    simp only [reduceCtorEq, List.cons_append, List.cons.injEq, false_iff, not_and]
    exact fun hc => absurd hc.symm h
  | case4 => simp

end BoundQuery.Text
