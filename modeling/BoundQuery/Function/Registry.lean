/-
# Registered functions

The functions of the caller by name. A registered function takes the place of a builtin one of the
same name.
-/

import BoundQuery.Function.Builtin

namespace BoundQuery

/-- The functions of the caller. -/
abbrev Registry : Type := Entries Function

/-- Whether a registered or builtin function has the name. -/
def Registry.resolves (registry : Registry) (name : String) : Bool :=
  Entries.contains name registry || (Builtin.ofName? name).isSome

end BoundQuery
