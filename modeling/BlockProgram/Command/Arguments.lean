import BlockProgram.Settings.Basic

/-! Arguments of the command: flags, and then the file of a workspace. A flag is written with one or
two dashes, and its value after an equals sign or as the next argument; a flag that is a truth value
takes one after an equals sign only. -/
namespace BlockProgram.Command

/-- What a flag takes, and what it is when it is not given. -/
inductive FlagKind where
  | text (default : String)
  | truth (default : Bool)

structure Flag where
  name : String
  kind : FlagKind
  help : String

def flags : List Flag :=
  [⟨"env", .text "", "Read defaults from this .env file."⟩,
    ⟨"indent", .text "    ", "One indentation level."⟩,
    ⟨"log-level", .text "info",
      "Set the logging level. Options: 'debug', 'info', 'warn', 'error'."⟩,
    ⟨"loop-trap", .text "", "Code injected at the top of every loop body; %1 is the block id."⟩,
    ⟨"names", .truth false, "Also print the name table to stderr."⟩,
    ⟨"o", .text "", "Write the program to this file instead of stdout."⟩,
    ⟨"one-based", .truth true, "Count list and text positions from 1."⟩,
    ⟨"statement-prefix", .text "", "Code injected before every statement; %1 is the block id."⟩,
    ⟨"statement-suffix", .text "", "Code injected after every statement; %1 is the block id."⟩]

def Flag.usage (f : Flag) : String :=
  let (type, default) :=
    match f.kind with
    | .text d => (" string", if d = "" then "" else " (default " ++ Text.quoted d ++ ")")
    | .truth d => ("", if d then " (default true)" else "")
  "  -" ++ f.name ++ type ++ "\n    \t" ++ f.help ++ default ++ "\n"

def usage : String :=
  "\nblockgen - turns a block workspace into program text.\n\nUsage:\n" ++
  "  blockgen [options] WORKSPACE_FILE\n\nArguments:\n  WORKSPACE_FILE\n" ++
  "    A .json or .hcl workspace document.\n\nOptions:\n" ++ String.join (flags.map Flag.usage)

/-- What the command is asked to do. A flag that is not given leaves its choice open. -/
structure Request where
  workspacePath : String := ""
  outputPath : String := ""
  envFile : String := ""
  logLevel : Option String := none
  showNames : Bool := false
  indent : Option String := none
  oneBased : Option Bool := none
  statementPrefix : Option String := none
  statementSuffix : Option String := none
  loopTrap : Option String := none
deriving DecidableEq

def Request.options (r : Request) (base : Options) : Options :=
  { base with
    indent := r.indent.getD base.indent
    oneBasedIndex := r.oneBased.getD base.oneBasedIndex
    statementPrefix := r.statementPrefix.getD base.statementPrefix
    statementSuffix := r.statementSuffix.getD base.statementSuffix
    infiniteLoopTrap := r.loopTrap.getD base.infiniteLoopTrap }

def Request.setText (r : Request) (name value : String) : Request :=
  match name with
  | "env" => { r with envFile := value }
  | "indent" => { r with indent := some value }
  | "log-level" => { r with logLevel := some value }
  | "loop-trap" => { r with loopTrap := some value }
  | "o" => { r with outputPath := value }
  | "statement-prefix" => { r with statementPrefix := some value }
  | "statement-suffix" => { r with statementSuffix := some value }
  | _ => r

def Request.setTruth (r : Request) (name : String) (value : Bool) : Request :=
  match name with
  | "names" => { r with showNames := value }
  | "one-based" => { r with oneBased := some value }
  | _ => r

inductive ArgumentFault where
  | badSyntax (argument : String)
  | unknownFlag (name : String)
  | badTruth (value name : String)
  | noValue (name : String)
  | tooMany (count : Nat)
  | badLogLevel
  | badIndent
deriving DecidableEq

namespace ArgumentFault

def message : ArgumentFault → String
  | badSyntax argument => "bad flag syntax: " ++ argument
  | unknownFlag name => "flag provided but not defined: -" ++ name
  | badTruth value name =>
    "invalid boolean value " ++ Text.quoted value ++ " for -" ++ name ++ ": parse error"
  | noValue name => "flag needs an argument: -" ++ name
  | tooMany count => "expected one workspace file, got " ++ toString count ++ " arguments"
  | badLogLevel => "invalid log-level: must be 'debug', 'info', 'warn', or 'error'"
  | badIndent => "invalid indent: must be spaces or tabs"

end ArgumentFault

/-- What the flags come to: a request and the arguments after them, the wish for help, or a
fault. -/
inductive FlagOutcome where
  | done (request : Request) (arguments : List String)
  | help
  | fault (f : ArgumentFault)

/-- The name of a flag without its dashes; `none` for an argument that is no flag. -/
def flagBody? (argument : String) : Option (List Char) :=
  match argument.toList with
  | '-' :: '-' :: r => some r
  | '-' :: c :: r => some (c :: r)
  | _ => none

/-- A name and the value after the first equals sign that does not begin it. -/
def splitValue : List Char → List Char × Option (List Char)
  | [] => ([], none)
  | c :: r =>
    let name := r.takeWhile (· ≠ '=')
    match r.drop name.length with
    | [] => (c :: name, none)
    | _ :: value => (c :: name, some value)

/-- Reads flags up to the first argument that is none. -/
def readFlags (r : Request) : List String → FlagOutcome
  | [] => .done r []
  | "--" :: rest => .done r rest
  | argument :: rest =>
    match flagBody? argument with
    | none => .done r (argument :: rest)
    | some body =>
      if body.isEmpty || body.head? = some '-' || body.head? = some '=' then
        .fault (.badSyntax argument)
      else
        let (nameChars, given) := splitValue body
        let name := String.ofList nameChars
        let value := given.map String.ofList
        match flags.find? (·.name = name) with
        | none => if name = "help" || name = "h" then .help else .fault (.unknownFlag name)
        | some f =>
          match f.kind, value, rest with
          | .truth _, none, rest => readFlags (r.setTruth name true) rest
          | .truth _, some v, rest =>
            match Settings.truth? v with
            | some b => readFlags (r.setTruth name b) rest
            | none => .fault (.badTruth v name)
          | .text _, some v, rest => readFlags (r.setText name v) rest
          | .text _, none, v :: rest => readFlags (r.setText name v) rest
          | .text _, none, [] => .fault (.noValue name)

/-- What arguments come to: a request, no request but an end, or a fault; and what is printed. -/
structure Parsed where
  output : String := ""
  outcome : Except ArgumentFault (Option Request)

def isLogLevel (s : String) : Bool := ["debug", "info", "warn", "error"].contains s

def Request.check (r : Request) : Except ArgumentFault Request :=
  let level := Text.lower (r.logLevel.getD "info")
  if !isLogLevel level then .error .badLogLevel
  else if (r.indent.getD "").toList.any fun c => c ≠ ' ' && c ≠ '\t' then .error .badIndent
  else .ok { r with logLevel := r.logLevel.map fun _ => level }

def parse (arguments : List String) : Parsed :=
  match readFlags {} arguments with
  | .help => ⟨usage, .ok none⟩
  | .fault f => ⟨f.message ++ "\n" ++ usage, .error f⟩
  | .done _ [] => ⟨usage, .ok none⟩
  | .done r [path] => ⟨"", (({ r with workspacePath := path } : Request).check).map some⟩
  | .done _ paths => ⟨"", .error (.tooMany paths.length)⟩

end BlockProgram.Command
