/-
# Builtin functions

The functions that every template can call.
-/

import BoundQuery.Function.Access
import BoundQuery.Function.Compare
import BoundQuery.Function.Print

namespace BoundQuery

/-- The builtin functions. -/
inductive Builtin
  | and | or | not | len | index | slice | eq | ne | lt | le | gt | ge | print | println | printf
deriving DecidableEq, Repr

namespace Builtin

/-- All builtin functions. -/
def all : List Builtin :=
  [and, or, not, len, index, slice, eq, ne, lt, le, gt, ge, print, println, printf]

def name : Builtin → String
  | and => "and"
  | or => "or"
  | not => "not"
  | len => "len"
  | index => "index"
  | slice => "slice"
  | eq => "eq"
  | ne => "ne"
  | lt => "lt"
  | le => "le"
  | gt => "gt"
  | ge => "ge"
  | print => "print"
  | println => "println"
  | printf => "printf"

/-- The builtin function with the given name. -/
def ofName? (name : String) : Option Builtin :=
  all.find? fun b => b.name == name

/-- The first argument whose truth is `decides`, or else the last. -/
def firstDeciding (decides : Bool) : Function := fun args =>
  match args.find? fun v => v.isTruthy == decides with
  | some v => .ok v
  | none =>
    match args.getLast? with
    | some v => .ok v
    | none => .error (.tooFew 0 1)

/-- What a builtin function yields for its arguments. -/
def apply : Builtin → Function
  | and => firstDeciding false
  | or => firstDeciding true
  | not => fun
    | [v] => .ok (.bool !v.isTruthy)
    | args => .error (.wrongCount args.length 1)
  | len => Function.len
  | index => Function.index
  | slice => Function.slice
  | eq => Function.eq
  | ne => Function.ne
  | lt => Function.ordered fun o => o == .lt
  | le => Function.ordered fun o => o != .gt
  | gt => Function.ordered fun o => o == .gt
  | ge => Function.ordered fun o => o != .lt
  | print => Function.print
  | println => Function.println
  | printf => Function.printf

end Builtin

end BoundQuery
