/-
# Placeholder dialects

Databases differ in how a statement marks the place of its n-th argument. A strategy renders these
placeholders and may refuse some; the builtin dialects refuse none.
-/

namespace BoundQuery.Statement

/-- A strategy refuses the placeholder of an argument. -/
structure Rejection where
  index : Nat
  reason : String
deriving DecidableEq, Repr

/-- How the place of the n-th argument is marked, counted from one. A strategy may refuse an argument,
but only with a rejection. The other error of formatting, a mismatch of counts, comes from the compiler
alone; strategies that report it in place of a marker are left out. -/
structure Strategy where
  name : String
  placeholder : Nat → Except Rejection String

/-- The builtin dialects. -/
inductive Dialect
  /-- `?` -/
  | question
  /-- `$1` -/
  | dollar
  /-- `:1` -/
  | colon
  /-- `@p1` -/
  | atP
deriving DecidableEq, Repr, Inhabited

namespace Dialect

def all : List Dialect :=
  [question, dollar, colon, atP]

def name : Dialect → String
  | question => "question"
  | dollar => "dollar"
  | colon => "colon"
  | atP => "at_p"

/-- What placeholders start with. -/
def start : Dialect → String
  | question => "?"
  | dollar => "$"
  | colon => ":"
  | atP => "@p"

/-- The placeholder of an argument. -/
def placeholder (d : Dialect) (index : Nat) : String :=
  match d with
  | question => "?"
  | _ => d.start ++ toString index

/-- The dialect with the given name, which is written exactly so. -/
def ofName? (name : String) : Option Dialect :=
  all.find? fun d => d.name == name

/-- Other names of a dialect. -/
def aliases : Dialect → List String
  | question => ["?"]
  | dollar => ["$", "postgres"]
  | colon => [":", "oracle"]
  | atP => ["@p", "mssql"]

/-- The dialect that a text names, in any case of letters, by its name or by an alias. -/
def ofText? (text : String) : Option Dialect :=
  let text := text.toLower
  all.find? fun d => d.name == text || d.aliases.contains text

/-- What is said of a text that names no dialect. -/
def unknownMessage (text : String) : String :=
  "unknown placeholder dialect: " ++ text

/-- The strategy that refuses nothing. -/
def strategy (d : Dialect) : Strategy :=
  ⟨d.name, fun index => .ok (d.placeholder index)⟩

end Dialect

/-- The placeholders start with a given text; there are at most `most` of them. -/
def Strategy.limited (name start : String) (most : Nat) : Strategy :=
  ⟨name, fun index =>
    if most < index then .error ⟨index, "at most " ++ toString most ++ " parameters"⟩
    else .ok (start ++ toString index)⟩

end BoundQuery.Statement
