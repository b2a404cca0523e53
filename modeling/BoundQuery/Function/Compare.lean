/-
# Comparisons

Numbers of all kinds compare with each other: whole numbers exactly, and with floats as floats.
Strings compare by their code points. Sequences and maps do not compare.
-/

import BoundQuery.Function.Basic

namespace BoundQuery

namespace Value

/-- The order of two floats, unless one of them is the not-a-number. -/
def compareFloats? (x y : Float) : Option Ordering :=
  if x < y then some .lt else if x == y then some .eq else if y < x then some .gt else none

/-- The number that a value holds as a float. -/
def float? : Value → Option Float
  | int i => some i.toFloat
  | uint u => some u.toFloat
  | float x => some x
  | _ => none

/-- The order of a signed word and an unsigned one. A negative word is less than all unsigned ones. -/
def compareMixed (i : Int64) (u : UInt64) : Ordering :=
  if i < 0 then .lt else Ord.compare i.toUInt64 u

/-- The order of two values. -/
def compare : Value → Value → Except CallFault Ordering
  | int i, int j => .ok (Ord.compare i j)
  | uint u, uint v => .ok (Ord.compare u v)
  | int i, uint u => .ok (compareMixed i u)
  | uint u, int i => .ok (compareMixed i u).swap
  | string s, string t => .ok (Ord.compare s t)
  | a, b =>
    match a.float?, b.float? with
    | some x, some y =>
      match compareFloats? x y with
      | some o => .ok o
      | none => .error .unordered
    | _, _ => .error (.incompatible a.kind b.kind)

/-- Whether a value has parts. -/
def isCompound : Value → Bool
  | seq _ | map _ => true
  | _ => false

/-- Whether two values without parts are the same, but for numbers. -/
def sameScalar : Value → Value → Bool
  | null, null => true
  | bool a, bool b => a == b
  | string s, string t => s == t
  | _, _ => false

/-- Whether two values are equal. The not-a-number equals nothing. -/
def equals (a b : Value) : Except CallFault Bool :=
  if a.isCompound || b.isCompound then .error (.notComparable a.kind b.kind)
  else if a.isNumber && b.isNumber then
    match a.compare b with
    | .ok .eq => .ok true
    | _ => .ok false
  else .ok (sameScalar a b)

/-- Whether a value equals one of the others. The comparison stops at the first that does. -/
def equalsAny (a : Value) : List Value → Except CallFault Bool
  | [] => .ok false
  | b :: rest => do
    if ← a.equals b then return true
    a.equalsAny rest

end Value

namespace Function

/-- Whether the first argument equals one of the others. -/
def eq : Function
  | a :: b :: others => do return .bool (← a.equalsAny (b :: others))
  | args => .error (.tooFew args.length 2)

/-- Whether two arguments differ. -/
def ne : Function
  | [a, b] => do return .bool !(← a.equals b)
  | args => .error (.wrongCount args.length 2)

/-- Whether the order of two arguments is one of the accepted. -/
def ordered (accepts : Ordering → Bool) : Function
  | [a, b] => do return .bool (accepts (← a.compare b))
  | args => .error (.wrongCount args.length 2)

end Function

end BoundQuery
