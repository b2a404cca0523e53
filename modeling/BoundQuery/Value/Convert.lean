/-
# Values and JSON documents

Template data comes from JSON documents and goes back to them. A whole number becomes a signed word
if it fits one, else an unsigned word. JSON has no infinities and no not-a-number: they become null.
-/

import BoundQuery.Value.Print
import BoundQuery.Json.Basic
import BoundQuery.Decimal.Double

namespace BoundQuery.Value

/-- A whole number as the smallest kind of value that holds it. -/
def ofInt (i : Int) : Value :=
  if Int64.minValue.toInt ≤ i ∧ i ≤ Int64.maxValue.toInt then int (Int64.ofInt i)
  else if 0 ≤ i ∧ i.toNat < UInt64.size then uint (UInt64.ofNat i.toNat)
  else float (Float.ofInt i)

mutual

/-- The value that a document denotes. -/
def ofJson : Json → Value
  | .null => null
  | .bool b => bool b
  | .int i => ofInt i
  | .float x => float x
  | .string s => string s
  | .array items => seq (ofItems items)
  | .object entries => map (ofJsonEntries entries)

/-- The values of the items of an array. -/
def ofItems : List Json → List Value
  | [] => []
  | v :: rest => ofJson v :: ofItems rest

/-- The values of the entries of an object. -/
def ofJsonEntries : List (String × Json) → List (String × Value)
  | [] => []
  | (key, v) :: rest => (key, ofJson v) :: ofJsonEntries rest

end

mutual

/-- The document that holds a value. -/
def toJson : Value → Json
  | null => .null
  | bool b => .bool b
  | int i => .int i.toInt
  | uint u => .int u.toNat
  | float x => if Decimal.isFinite x then .float x else .null
  | string s => .string s
  | seq items => .array (toItems items)
  | map entries => .object (toJsonEntries entries)

/-- The documents that hold the items of a sequence. -/
def toItems : List Value → List Json
  | [] => []
  | v :: rest => toJson v :: toItems rest

/-- The documents that hold the entries of a map. -/
def toJsonEntries : List (String × Value) → List (String × Json)
  | [] => []
  | (key, v) :: rest => (key, toJson v) :: toJsonEntries rest

end

/-- The key of an entry in data that is not JSON yet. -/
inductive Key
  | text (s : String)
  | integer (i : Int)
  /-- A key of several parts, such as a pair. -/
  | compound
deriving DecidableEq, Repr

/-- The text that stands for a key in a map; a compound key has none. -/
def Key.text? : Key → Option String
  | .text s => some s
  | .integer i => some (String.ofList (printInteger i))
  | .compound => none

/-- Why data cannot be a value. -/
inductive DataFault
  | compoundKey
  /-- What data of the caller has to say. -/
  | reported (reason : String)
deriving DecidableEq, Repr

def DataFault.message : DataFault → String
  | compoundKey => "invalid template data: key must be a string"
  | reported reason => "invalid template data: " ++ reason

/-- Data of any kind as a value, by way of the document that it is written as. -/
def ofData {α : Type} (write : α → Except DataFault Json) (data : α) : Except DataFault Value :=
  (write data).map ofJson

/-- The map with the given entries, if all keys have a text. -/
def ofKeyed (entries : List (Key × Value)) : Except DataFault Value :=
  let texts : Option (List (String × Value)) :=
    entries.mapM fun (key, v) => key.text?.map fun text => (text, v)
  match texts with
  | some texts => .ok (ofEntries texts)
  | none => .error .compoundKey

end BoundQuery.Value
