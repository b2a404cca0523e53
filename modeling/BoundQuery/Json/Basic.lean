/-
# JSON documents

Whole numbers stand apart from the others: `1` and `1.0` are different documents.
-/

import BoundQuery.Entries

namespace BoundQuery

/-- A JSON document. The entries of an object are in ascending order of the keys. -/
inductive Json
  | null
  | bool (b : Bool)
  | int (i : Int)
  | float (x : Float)
  | string (s : String)
  | array (items : List Json)
  | object (entries : List (String × Json))
deriving Inhabited

namespace Json

/-- An object with the given entries; of several with one key the last counts. -/
def ofEntries (entries : List (String × Json)) : Json :=
  object (Entries.ofList entries)

/-- The entry of an object under `key`. -/
def get? (key : String) : Json → Option Json
  | object entries => Entries.find? key entries
  | _ => none

end Json

end BoundQuery
