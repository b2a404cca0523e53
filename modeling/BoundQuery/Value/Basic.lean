/-
# Template values

The data that templates read, and the arguments that statements carry. Whole numbers are signed or
unsigned words of 64 bits; the unsigned ones are there for what the signed ones cannot hold.
-/

import BoundQuery.Entries
import BoundQuery.Text.Bytes

namespace BoundQuery

/-- A value of template data. -/
inductive Value
  | null
  | bool (b : Bool)
  | int (i : Int64)
  | uint (u : UInt64)
  | float (x : Float)
  | string (s : String)
  | seq (items : List Value)
  | map (entries : List (String × Value))
deriving Inhabited

/-- The kinds of values. -/
inductive Kind
  | nil
  | bool
  | int
  | uint
  | float
  | string
  | seq
  | map
deriving DecidableEq, Repr

/-- The name of a kind in messages. -/
def Kind.name : Kind → String
  | nil => "nil"
  | bool => "bool"
  | int => "int"
  | uint => "uint"
  | float => "float"
  | string => "string"
  | seq => "seq"
  | map => "map"

namespace Value

def kind : Value → Kind
  | null => .nil
  | bool _ => .bool
  | int _ => .int
  | uint _ => .uint
  | float _ => .float
  | string _ => .string
  | seq _ => .seq
  | map _ => .map

/-- Whether a condition holds of the value: zeros and what is empty count as false, and so does
null. The not-a-number is not zero. -/
def isTruthy : Value → Bool
  | null => false
  | bool b => b
  | int i => i != 0
  | uint u => u != 0
  | float x => x != 0
  | string s => !s.isEmpty
  | seq items => !items.isEmpty
  | map entries => !entries.isEmpty

def isNull : Value → Bool
  | null => true
  | _ => false

def isNumber : Value → Bool
  | int _ | uint _ | float _ => true
  | _ => false

/-- The whole number that the value holds. -/
def integer? : Value → Option Int
  | int i => some i.toInt
  | uint u => some u.toNat
  | _ => none

def string? : Value → Option String
  | string s => some s
  | _ => none

/-- The signed word that the value holds. -/
def int? : Value → Option Int64
  | int i => some i
  | _ => none

/-- The length of a string in bytes, or the number of items or entries. -/
def length? : Value → Option Nat
  | string s => some (Text.utf8Length s.toList)
  | seq items => some items.length
  | map entries => some entries.length
  | _ => none

/-- Whether the length is zero; what has no length is empty. -/
def isEmpty (v : Value) : Bool :=
  v.length?.all (· == 0)

/-- A count as a signed word; counts from `2 ^ 63` on wrap around. -/
def ofNat (n : Nat) : Value :=
  int (Int64.ofNat n)

/-- An unsigned word, kept as a signed one if it fits. -/
def ofUInt64 (u : UInt64) : Value :=
  if u.toNat ≤ Int64.maxValue.toNatClampNeg then int (Int64.ofNat u.toNat) else uint u

/-- A map with the given entries; of several with one key the last counts. -/
def ofEntries (entries : List (String × Value)) : Value :=
  map (Entries.ofList entries)

end Value

end BoundQuery
