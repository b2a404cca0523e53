/-
# Compiling statements

A compiler turns the source of a template and its data into a statement and the arguments for its
placeholders. A builder collects the settings of a compiler; the names of its functions are checked
once, when the compiler is built.
-/

import BoundQuery.Run.Walk
import BoundQuery.Settings.Reader
import BoundQuery.Statement.Format
import BoundQuery.Template.Assembly
import BoundQuery.Text.Words
import BoundQuery.Value.Convert

namespace BoundQuery

/-- A statement with the arguments for its placeholders. -/
structure Statement where
  text : String
  arguments : List Value

/-- Why a template does not become a statement. -/
inductive CompileError
  | syntactic (e : Template.SyntaxError)
  | run (e : Run.EvalError)
  | format (e : Statement.FormatError)
deriving DecidableEq, Repr

/-- Why a template and data of any kind do not become a statement. -/
inductive RequestError
  | data (fault : Value.DataFault)
  | compile (e : CompileError)
deriving DecidableEq, Repr

/-- A compiler. -/
structure Compiler where
  strategy : Statement.Strategy
  functions : Registry
  normalizes : Bool

namespace Compiler

/-- A compiler with the given settings and the builtin functions only. -/
def ofSettings (settings : Settings) : Compiler :=
  ⟨settings.dialect.strategy, [], settings.normalizes⟩

/-- A compiler that is not told anything. -/
def default : Compiler :=
  ofSettings .default

/-- The final text for a raw text and the values captured with it. -/
def format (c : Compiler) (raw : List Char) (arguments : List Value) :
    Except Statement.FormatError Statement :=
  match c.strategy.format raw with
  | .error rejection => .error (.rejected rejection)
  | .ok formatted =>
    if formatted.placeholders ≠ arguments.length then
      .error (.countMismatch formatted.placeholders arguments.length)
    else
      let text := if c.normalizes then Text.normalize formatted.text else formatted.text
      .ok ⟨String.ofList text, arguments⟩

/-- Compiles a template for its data. -/
def compile (c : Compiler) (source : String) (data : Value) : Except CompileError Statement :=
  match Template.parse c.functions.resolves source.toList with
  | .error e => .error (.syntactic e)
  | .ok t =>
    let outcome := Run.execute c.functions t.capture data []
    match outcome.result with
    | .error e => .error (.run e)
    | .ok raw => (c.format raw outcome.captured).mapError .format

/-- Compiles a template for data of any kind, which `write` makes documents of. -/
def compileData {α : Type} (c : Compiler) (write : α → Except Value.DataFault Json)
    (source : String) (data : α) : Except RequestError Statement :=
  match Value.ofData write data with
  | .error fault => .error (.data fault)
  | .ok v => (c.compile source v).mapError .compile

/-- A compiler as a line of text, for logs. -/
def describe (c : Compiler) : String :=
  let names := ", ".intercalate ((Entries.keys c.functions).map Text.quoted)
  "Compiler \x7b placeholder: " ++ Text.quoted c.strategy.name
    ++ ", funcs: FuncMap \x7b funcs: [" ++ names ++ "] \x7d, normalize_whitespace: "
    ++ (if c.normalizes then "true" else "false") ++ " \x7d"

/-! ### Building -/

/-- Words that cannot name a function: they mean something else in a template. -/
def keywords : List String :=
  ["if", "else", "end", "range", "with", "define", "template", "block", "break", "continue",
   "true", "false", "nil"]

/-- Whether a text is an identifier. -/
def isIdentifier (name : String) : Bool :=
  match Template.Scan.identifier name.toList with
  | .found _ rest => rest.isEmpty
  | _ => false

/-- Whether a function can have the name. -/
def isFunctionName (name : String) : Bool :=
  isIdentifier name && !keywords.contains name

/-- Why a compiler cannot be built. -/
inductive BuildError
  | reservedName (name : String)
  | invalidName (name : String)
deriving DecidableEq, Repr

def BuildError.message : BuildError → String
  | reservedName name => "invalid function name, " ++ name ++ " is reserved"
  | invalidName name => "function name " ++ Text.quoted name ++ " is not a valid identifier"

/-- Checks the name of a function. -/
def checkName (name : String) : Except BuildError Unit :=
  if name = Template.captureName then .error (.reservedName name)
  else if isFunctionName name then .ok ()
  else .error (.invalidName name)

/-- The settings and functions that a compiler is built from. -/
structure Builder where
  strategy : Statement.Strategy
  functions : Registry
  normalizes : Bool

namespace Builder

/-- A builder that is not told anything. -/
def default : Builder :=
  ⟨Compiler.default.strategy, Compiler.default.functions, Compiler.default.normalizes⟩

def withStrategy (b : Builder) (s : Statement.Strategy) : Builder :=
  { b with strategy := s }

def withDialect (b : Builder) (d : Statement.Dialect) : Builder :=
  b.withStrategy d.strategy

def withNormalization (b : Builder) (on : Bool) : Builder :=
  { b with normalizes := on }

/-- Registers a function, in place of another of the same name. -/
def withFunction (b : Builder) (name : String) (f : Function) : Builder :=
  { b with functions := Entries.insert name f b.functions }

/-- Registers several functions. -/
def withFunctions (b : Builder) (functions : Registry) : Builder :=
  { b with functions := Entries.union b.functions functions }

def withSettings (b : Builder) (settings : Settings) : Builder :=
  (b.withDialect settings.dialect).withNormalization settings.normalizes

/-- The compiler, if all functions have names that templates can call. -/
def build (b : Builder) : Except BuildError Compiler := do
  (Entries.keys b.functions).forM checkName
  return ⟨b.strategy, b.functions, b.normalizes⟩

end Builder

end Compiler

end BoundQuery
