/-
# Printing functions

Values joined into a string, as they are or by a format. In a format a percent sign and a letter
stand for the next argument; two percent signs stand for one.
-/

import BoundQuery.Function.Basic
import BoundQuery.Text.Quoted
import BoundQuery.Value.Print

namespace BoundQuery

namespace Value

def isString : Value → Bool
  | string _ => true
  | _ => false

/-- The printed forms with a space between two neighbours that are no strings. -/
def printSpaced : List Value → List Char
  | [] => []
  | [v] => v.print
  | v :: w :: rest =>
    v.print ++ (if v.isString || w.isString then [] else [' ']) ++ printSpaced (w :: rest)

/-- A value with its kind, as formats show what they have no use for. -/
def printKinded (v : Value) : List Char :=
  v.kind.name.toList ++ '=' :: v.print

/-- A value as the letter of a format wants it. -/
def printVerb (verb : Char) (v : Value) : List Char :=
  match verb, v with
  | 'v', v | 's', v => v.print
  | 'd', int i => printInteger i.toInt
  | 'd', uint u => Nat.toDigits 10 u.toNat
  | 'f', float x => Decimal.fixed 6 x
  | 'f', int i => Decimal.fixed 6 i.toFloat
  | 'f', uint u => Decimal.fixed 6 u.toFloat
  | 'q', v => Text.Quoted.spell v.print
  | 't', bool b => printBool b
  | verb, v => ['%', '!', verb, '('] ++ v.printKinded ++ [')']

/-- The arguments that a format has not used. -/
def printExtra (args : List Value) : List Char :=
  if args.isEmpty then []
  else "%!(EXTRA ".toList ++ [',', ' '].intercalate (args.map printKinded) ++ [')']

/-- What is written for a verb without an argument. -/
def missingArgument (verb : Char) : List Char :=
  ['%', '!', verb] ++ "(MISSING)".toList

/-- What is written for a percent sign at the end of a format. -/
def missingVerb : List Char :=
  "%!(NOVERB)".toList

/-- Follows a format. -/
def printFormat : List Char → List Value → List Char
  | [], args => printExtra args
  | ['%'], args => missingVerb ++ printExtra args
  | '%' :: '%' :: format, args => '%' :: printFormat format args
  | '%' :: verb :: format, [] => missingArgument verb ++ printFormat format []
  | '%' :: verb :: format, v :: args => v.printVerb verb ++ printFormat format args
  | c :: format, args => c :: printFormat format args

end Value

namespace Function

/-- The printed arguments, with spaces only between neighbours that are no strings. -/
def print : Function := fun args =>
  .ok (.string (String.ofList (Value.printSpaced args)))

/-- The printed arguments with spaces between them, and the end of the line. -/
def println : Function := fun args =>
  .ok (.string (String.ofList ([' '].intercalate (args.map Value.print) ++ ['\n'])))

/-- The arguments printed by a format, which is the first of them. -/
def printf : Function
  | [] => .error (.tooFew 0 1)
  | .string format :: args => .ok (.string (String.ofList (Value.printFormat format.toList args)))
  | _ => .error .formatNotString

end Function

end BoundQuery
