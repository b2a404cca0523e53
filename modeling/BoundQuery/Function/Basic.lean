/-
# Functions

A function of a template takes values and yields a value or says what is wrong with them. The
builtin functions know a fixed number of causes; functions of the caller report theirs in words.
-/

import BoundQuery.Value.Basic

namespace BoundQuery

/-- Why a function yields no value. -/
inductive CallFault
  | wrongCount (got want : Nat)
  | tooFew (got least : Nat)
  | noLength (kind : Kind)
  | outOfRange (index : Int)
  | notAnIndex (kind : Kind)
  | keyNotString (kind : Kind)
  | indexOfNil
  | notIndexable (kind : Kind)
  | tooManyBounds
  | reversedBounds (first last : Nat)
  | splitsCharacter
  | notSliceable (kind : Kind)
  | notComparable (left right : Kind)
  | incompatible (left right : Kind)
  | unordered
  | formatNotString
  /-- What a function of the caller has to say. -/
  | reported (message : String)
deriving DecidableEq, Repr

def CallFault.message : CallFault → String
  | wrongCount got want => "wrong number of args: got " ++ toString got ++ " want " ++ toString want
  | tooFew got least =>
    "wrong number of args: got " ++ toString got ++ " want at least " ++ toString least
  | noLength kind => "len of type " ++ kind.name
  | outOfRange index => "index out of range: " ++ toString index
  | notAnIndex kind => "cannot index with type " ++ kind.name
  | keyNotString kind => "value has type " ++ kind.name ++ "; should be string"
  | indexOfNil => "index of untyped nil"
  | notIndexable kind => "can't index item of type " ++ kind.name
  | tooManyBounds => "too many slice indexes"
  | reversedBounds first last =>
    "invalid slice index: " ++ toString first ++ " > " ++ toString last
  | splitsCharacter => "slice splits a multi-byte character"
  | notSliceable kind => "can't slice item of type " ++ kind.name
  | notComparable left right => "non-comparable types " ++ left.name ++ " and " ++ right.name
  | incompatible left right =>
    "incompatible types for comparison: " ++ left.name ++ " and " ++ right.name
  | unordered => "comparison with NaN"
  | formatNotString => "printf format must be a string"
  | reported message => message

/-- A function that templates can call. The value handed on by a pipeline comes last. -/
abbrev Function : Type :=
  List Value → Except CallFault Value

end BoundQuery
