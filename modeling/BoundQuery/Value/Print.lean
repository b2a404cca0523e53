/-
# The printed form of a value

What a template prints for a value: strings as they are, numbers in decimal, sequences and maps in
brackets with single spaces between their parts.
-/

import BoundQuery.Value.Basic
import BoundQuery.Decimal.Layout

namespace BoundQuery.Value

/-- Floats are printed in full, without an exponent, and whole ones without a fraction. -/
def floatLayout : Decimal.Layout where
  tie := .up
  positional _ := true
  wholePoint := false
  plusSign := false

/-- The decimal digits of a whole number, after a minus sign if it is negative. -/
def printInteger : Int → List Char
  | .ofNat n => Nat.toDigits 10 n
  | .negSucc n => '-' :: Nat.toDigits 10 (n + 1)

def printBool (b : Bool) : List Char :=
  if b then "true".toList else "false".toList

mutual

/-- The printed form of a value. -/
def print : Value → List Char
  | null => "<nil>".toList
  | bool b => printBool b
  | int i => printInteger i.toInt
  | uint u => Nat.toDigits 10 u.toNat
  | float x => floatLayout.write x
  | string s => s.toList
  | seq items => '[' :: printItems items ++ [']']
  | map entries => "map[".toList ++ printEntries entries ++ [']']

/-- The printed forms of several values with spaces between them. -/
def printItems : List Value → List Char
  | [] => []
  | [v] => print v
  | v :: w :: rest => print v ++ ' ' :: printItems (w :: rest)

/-- Keys and printed values, joined by colons, with spaces between the entries. -/
def printEntries : List (String × Value) → List Char
  | [] => []
  | [(key, v)] => key.toList ++ ':' :: print v
  | (key, v) :: e :: rest => key.toList ++ ':' :: print v ++ ' ' :: printEntries (e :: rest)

end

/-- The printed form as a string. -/
def text (v : Value) : String :=
  String.ofList v.print

end BoundQuery.Value
