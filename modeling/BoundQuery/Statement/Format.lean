/-
# Formatting statements

The raw text of a statement becomes its final text: question marks that stand for arguments become
placeholders, doubled ones become single. Read from left to right, a question mark right before
another is taken together with it.
-/

import BoundQuery.Statement.Dialect
import BoundQuery.Statement.Mark

namespace BoundQuery.Statement

/-- A statement with its placeholders, and their number. -/
structure Formatted where
  text : List Char
  placeholders : Nat
deriving DecidableEq, Repr

/-- Formats the rest of a raw text after `count` placeholders. -/
def formatFrom (placeholder : Nat → Except Rejection String) (count : Nat) :
    List Char → Except Rejection Formatted
  | [] => .ok ⟨[], count⟩
  | '?' :: '?' :: rest => do
    let f ← formatFrom placeholder count rest
    return { f with text := mark :: f.text }
  | c :: rest =>
    if c = mark then do
      let marker ← placeholder (count + 1)
      let f ← formatFrom placeholder (count + 1) rest
      return { f with text := marker.toList ++ f.text }
    else do
      let f ← formatFrom placeholder count rest
      return { f with text := c :: f.text }

/-- Formats a raw text. -/
def Strategy.format (s : Strategy) (raw : List Char) : Except Rejection Formatted :=
  formatFrom s.placeholder 0 raw

/-- Why a statement cannot be formatted. -/
inductive FormatError
  | rejected (rejection : Rejection)
  /-- There are not as many placeholders as captured values. -/
  | countMismatch (placeholders arguments : Nat)
deriving DecidableEq, Repr

def FormatError.message : FormatError → String
  | rejected ⟨index, reason⟩ => "placeholder " ++ toString index ++ " rejected: " ++ reason
  | countMismatch placeholders arguments =>
    "statement has " ++ toString placeholders ++ " placeholders but " ++ toString arguments
      ++ " arguments were captured"

end BoundQuery.Statement
