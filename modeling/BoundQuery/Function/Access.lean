/-
# Parts of values

Lengths, items and slices. Strings are taken as their bytes; a slice of a string does not split
characters.
-/

import BoundQuery.Function.Basic

namespace BoundQuery

namespace Value

/-- The signed word of an index. An unsigned one is beyond every length. -/
def asIndex : Value → Except CallFault Int
  | int i => .ok i.toInt
  | uint u => .error (.outOfRange u.toNat)
  | v => .error (.notAnIndex v.kind)

/-- The index of one of `length` items. -/
def checkIndex (length : Nat) (i : Int) : Except CallFault Nat :=
  if 0 ≤ i ∧ i < length then .ok i.toNat else .error (.outOfRange i)

/-- The item of a sequence, the byte of a string or the entry of a map under a key. A map has null
where it has no entry. -/
def item (v key : Value) : Except CallFault Value :=
  match v with
  | seq items => do
    let i ← checkIndex items.length (← key.asIndex)
    return items.getD i null
  | string s => do
    let i ← checkIndex (Text.utf8Length s.toList) (← key.asIndex)
    return ofNat ((Text.encode s.toList).getD i 0).toNat
  | map entries =>
    match key with
    | string k => .ok ((Entries.find? k entries).getD null)
    | _ => .error (.keyNotString key.kind)
  | null => .error .indexOfNil
  | _ => .error (.notIndexable v.kind)

/-- The item under the first key, of that the item under the second, and so on. -/
def itemAt (v : Value) : List Value → Except CallFault Value
  | [] => .ok v
  | key :: keys => do
    let next ← v.item key
    next.itemAt keys

/-- A bound of a slice of `length` items, or `default` if there is none. -/
def checkBound (length default : Nat) : Option Value → Except CallFault Nat
  | none => .ok default
  | some v => do
    let i ← v.asIndex
    if 0 ≤ i ∧ i ≤ length then return i.toNat else throw (.outOfRange i)

/-- The two bounds of a slice of `length` items, in order. -/
def checkBounds (length : Nat) (first last : Option Value) : Except CallFault (Nat × Nat) := do
  let i ← checkBound length 0 first
  let j ← checkBound length length last
  if j < i then throw (.reversedBounds i j)
  return (i, j)

/-- The characters from byte `i` to byte `j`. -/
def sliceText? (i j : Nat) (cs : List Char) : Option (List Char) := do
  let (_, rest) ← Text.cutAt? i cs
  let (middle, _) ← Text.cutAt? (j - i) rest
  return middle

/-- The part of a sequence or of a string between two bounds. -/
def slice (v : Value) (first last : Option Value) : Except CallFault Value :=
  match v with
  | seq items => do
    let (i, j) ← checkBounds items.length first last
    return seq ((items.take j).drop i)
  | string s => do
    let (i, j) ← checkBounds (Text.utf8Length s.toList) first last
    match sliceText? i j s.toList with
    | some cs => return string (String.ofList cs)
    | none => throw .splitsCharacter
  | _ => .error (.notSliceable v.kind)

end Value

namespace Function

/-- The length of the argument. -/
def len : Function
  | [v] =>
    match v.length? with
    | some n => .ok (.ofNat n)
    | none => .error (.noLength v.kind)
  | args => .error (.wrongCount args.length 1)

/-- The item of the first argument under the others. -/
def index : Function
  | v :: keys => v.itemAt keys
  | [] => .error (.tooFew 0 1)

/-- The part of the first argument between the bounds given by the others. -/
def slice : Function
  | [] => .error (.tooFew 0 1)
  | [v] => v.slice none none
  | [v, first] => v.slice (some first) none
  | [v, first, last] => v.slice (some first) (some last)
  | _ => .error .tooManyBounds

end Function

end BoundQuery
