import BlockProgram.Program.Vocabulary.App
import BlockProgram.Program.Vocabulary.Device
import BlockProgram.Program.Vocabulary.Lists
import BlockProgram.Program.Vocabulary.Logic
import BlockProgram.Program.Vocabulary.Loops
import BlockProgram.Program.Vocabulary.Widgets

/-! From a workspace to a program. -/
namespace BlockProgram

def Vocabulary.standard : Vocabulary :=
  Vocabulary.logic ++ Vocabulary.loops ++ Vocabulary.math ++ Vocabulary.text ++ Vocabulary.lists ++
    Vocabulary.procedures ++ Vocabulary.widgets ++ Vocabulary.app ++ Vocabulary.device

/-- The words of the target language and its library, which are no identifiers. -/
def reservedWords : List String := [
  "assert", "break", "case", "catch", "class", "const", "continue", "default", "do", "else",
  "enum", "extends", "false", "final", "finally", "for", "if", "in", "is", "new", "null",
  "rethrow", "return", "super", "switch", "this", "throw", "true", "try", "var", "void", "while",
  "with", "print", "identityHashCode", "identical", "BidirectionalIterator", "Comparable",
  "double", "Function", "int", "Invocation", "Iterable", "Iterator", "List", "Map", "Match",
  "num", "Pattern", "RegExp", "Set", "StackTrace", "String", "StringSink", "Type", "bool",
  "DateTime", "Deprecated", "Duration", "Expando", "Null", "Object", "RuneIterator", "Runes",
  "Stopwatch", "StringBuffer", "Symbol", "Uri", "Comparator", "AbstractClassInstantiationError",
  "ArgumentError", "AssertionError", "CastError", "ConcurrentModificationError",
  "CyclicInitializationError", "Error", "Exception", "FallThroughError", "FormatException",
  "IntegerDivisionByZeroException", "NoSuchMethodError", "NullThrownError", "OutOfMemoryError",
  "RangeError", "StackOverflowError", "StateError", "TypeError", "UnimplementedError",
  "UnsupportedError", "Math", "Html"]

/-- A generator: its handlers, the words it never uses as identifiers, and its options. -/
structure Generator where
  vocabulary : Vocabulary := Vocabulary.standard
  reserved : List String := reservedWords
  options : Options := {}

/-- What generating gives: the program, the identifiers and the definitions. -/
structure Result where
  code : String
  names : List NameEntry
  definitions : Definitions
deriving DecidableEq

namespace Generator

def setting (g : Generator) : Setting :=
  { options := g.options.completed, flags := g.vocabulary.flags? }

def nameAll (category : Category) : List String → NameTable → List String × NameTable
  | [], t => ([], t)
  | n :: ns, t =>
    let (word, t) := t.get n category
    let (words, t) := nameAll category ns t
    (word :: words, t)

/-- The start of a run: the variables of the developer and those in use have identifiers, and are
declared together if there are any. -/
def start (g : Generator) (w : Workspace) : Run :=
  let names : NameTable :=
    { reserved := g.reserved, vars := w.vars.map fun v => (v.id, v.name) }
  let (developer, names) := nameAll .developerVariable w.developerVariables names
  let (user, names) := nameAll .userVariable (w.usedVariables.map (·.id)) names
  let declared := developer ++ user
  { names := names
    definitions :=
      if declared.isEmpty then [] else [⟨"variables", "var " ++ Text.join ", " declared ++ ";"⟩] }

/-- Puts definitions and entry point around the body: imports, then all other definitions, with at
most one blank line between them. -/
def finish (indent : String) (definitions : Definitions) (body : String) : String :=
  let body := if body = "" then "" else Text.prependLines indent body
  let header := Text.join "\n" definitions.imports ++ "\n\n" ++ Text.join "\n\n" definitions.others
  let header := Text.dropEndNewlines (Text.collapseNewlines 0 header.toList)
  String.ofList header ++ "\n\n" ++ "main() \x7b\n" ++ body ++ "\x7d"

def bareValue (setting : Setting) (b : BlockData) (code : String) : String :=
  let line := code ++ ";\n"
  if (setting.flagsOf b.type).ownHooks then line
  else
    Emit.hook setting.options.statementPrefix b ++ line ++ Emit.hook setting.options.statementSuffix b

/-- Emits one stack of the workspace. What follows a value that stands alone is left out. -/
def emitTop (g : Generator) : Stack → Emit String
  | [] => return ""
  | b :: bs => do
    let code ← b.emit g.vocabulary {}
    if ← Emit.failed then return ""
    let setting ← read
    match code with
    | .expression text _ => return if text = "" then "" else bareValue setting b.data text
    | code =>
      let rest ← Stack.emit g.vocabulary (({} : Place).after b.data) bs
      return code.text ++ rest

/-- Emits stacks one after the other; those without code are left out. -/
def emitTops (g : Generator) : List Stack → Emit (List String)
  | [] => return []
  | s :: ss => do
    let code ← emitTop g s
    if ← Emit.failed then return []
    let rest ← emitTops g ss
    return if code = "" then rest else code :: rest

/-- The whole program. Empty after a failure. -/
def program (g : Generator) (w : Workspace) : Emit String := do
  let parts ← emitTops g w.inReadingOrder
  if ← Emit.failed then return ""
  let run ← get
  return Text.tidy
    (finish (← Emit.options).indent run.definitions (Text.join "\n" parts))

def generate (g : Generator) (w : Workspace) : Except Failure Result :=
  let (code, run) := (g.program w).run g.setting |>.run (g.start w)
  match run.failure with
  | some f => .error f
  | none => .ok { code := code, names := run.names.entries, definitions := run.definitions }

end Generator

end BlockProgram
