/-
# Settings

The settings of a compiler that can be kept in a file: the dialect, and whether white space is
normalized.
-/

import BoundQuery.Statement.Dialect

namespace BoundQuery

structure Settings where
  dialect : Statement.Dialect
  normalizes : Bool
deriving DecidableEq, Repr

/-- The settings of a compiler that is not told otherwise. -/
def Settings.default : Settings :=
  ⟨.question, true⟩

instance : Inhabited Settings := ⟨.default⟩

end BoundQuery
