/-
# Scanners

A scanner reads something from the front of a text. Where it finds nothing of the form it looks for
it *misses*, and another scanner may try; where what it finds cannot be meant for anything else it
*fails*, and reading ends.
-/

import BoundQuery.Text.Start

namespace BoundQuery.Template

/-- The parts of an action that messages name. -/
inductive Construct
  | cond
  | range
  | scope
  | definition
  | invocation
  | block
  | command
  | parentheses
deriving DecidableEq, Repr

/-- The name of a part of an action in messages. -/
def Construct.name : Construct → String
  | cond => "if"
  | range => "range"
  | scope => "with"
  | definition => "define clause"
  | invocation => "template clause"
  | block => "block clause"
  | command => "command"
  | parentheses => "parenthesized pipeline"

/-- Why a scanner did not find what it looks for. -/
inductive Reason
  /-- Something else stands there, in a construct if one is named. -/
  | missing (construct : Option Construct)
  | badEscape
  | openString
  | openRawString
  | badNumber
deriving DecidableEq, Repr

/-- A reason and the text at whose front it arose. -/
structure Fault where
  reason : Reason
  rest : List Char
deriving DecidableEq, Repr

/-- The outcome of a scanner. -/
inductive Scanned (α : Type)
  /-- A value was read and a rest is left. -/
  | found (value : α) (rest : List Char)
  | missed (fault : Fault)
  | failed (fault : Fault)
deriving Repr

/-- A reader of the front of a text. -/
def Scan (α : Type) : Type :=
  List Char → Scanned α

namespace Scan

variable {α β : Type}

instance : Monad Scan where
  pure a := fun cs => .found a cs
  bind p f := fun cs =>
    match p cs with
    | .found a rest => f a rest
    | .missed fault => .missed fault
    | .failed fault => .failed fault

/-- The text at hand; reads nothing. -/
def here : Scan (List Char) :=
  fun cs => .found cs cs

/-- Finds nothing. -/
def miss : Scan α :=
  fun cs => .missed ⟨.missing none, cs⟩

/-- The first of two scanners that does not miss. The miss of the second is reported. -/
protected def orElse (p : Scan α) (q : Unit → Scan α) : Scan α := fun cs =>
  match p cs with
  | .missed _ => q () cs
  | outcome => outcome

instance : OrElse (Scan α) := ⟨Scan.orElse⟩

/-- Nothing else can be meant: a miss becomes a failure. -/
def commit (p : Scan α) : Scan α := fun cs =>
  match p cs with
  | .missed fault => .failed fault
  | outcome => outcome

/-- Names the construct, unless the fault names one already. -/
def Fault.within (construct : Construct) : Fault → Fault
  | ⟨.missing none, rest⟩ => ⟨.missing (some construct), rest⟩
  | fault => fault

/-- Faults of `p` arise in the construct. -/
def within (construct : Construct) (p : Scan α) : Scan α := fun cs =>
  match p cs with
  | .missed fault => .missed (Fault.within construct fault)
  | .failed fault => .failed (Fault.within construct fault)
  | outcome => outcome

/-- What `p` reads, or nothing if it misses. -/
def optional (p : Scan α) : Scan (Option α) := fun cs =>
  match p cs with
  | .found a rest => .found (some a) rest
  | .missed _ => .found none cs
  | .failed fault => .failed fault

/-- All that `p` reads one after the other, until it misses or reads nothing. -/
def many (p : Scan α) : Scan (List α) := fun cs =>
  match p cs with
  | .found a rest =>
    if _h : rest.length < cs.length then
      match many p rest with
      | .found as rest => .found (a :: as) rest
      | outcome => outcome
    else .found [a] rest
  | .missed _ => .found [] cs
  | .failed fault => .failed fault
termination_by cs => cs.length

/-- One or more of what `p` reads. -/
def oneOrMore (p : Scan α) : Scan (List α) := do
  let a ← p
  let as ← many p
  return a :: as

/-- The characters at the front that belong to a class. -/
def takeWhile (holds : Char → Bool) : Scan (List Char) :=
  fun cs => .found (cs.takeWhile holds) (cs.dropWhile holds)

/-- The characters at the front that belong to a class, at least one. -/
def takeSome (holds : Char → Bool) : Scan (List Char) := fun cs =>
  if (cs.takeWhile holds).isEmpty then .missed ⟨.missing none, cs⟩
  else .found (cs.takeWhile holds) (cs.dropWhile holds)

/-- A character of a class. -/
def satisfy (holds : Char → Bool) : Scan Char
  | [] => .missed ⟨.missing none, []⟩
  | c :: cs => if holds c then .found c cs else .missed ⟨.missing none, c :: cs⟩

/-- The character `c`. -/
def char (c : Char) : Scan Char :=
  satisfy (· == c)

/-- The characters of `word`. -/
def word (word : List Char) : Scan Unit := fun cs =>
  match Text.dropStart? word cs with
  | some rest => .found () rest
  | none => .missed ⟨.missing none, cs⟩

/-- Does not read on where a character of a class follows. -/
def notFollowedBy (holds : Char → Bool) : Scan Unit := fun cs =>
  match cs with
  | [] => .found () []
  | c :: rest => if holds c then .missed ⟨.missing none, cs⟩ else .found () (c :: rest)

end Scan

end BoundQuery.Template
