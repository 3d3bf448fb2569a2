import BlockProgram.Command.Arguments
import BlockProgram.Log
import BlockProgram.Program.Generate
import BlockProgram.Workspace.Check
import BlockProgram.Workspace.Load

/-! The command: it reads a workspace, checks it and prints its program. -/
namespace BlockProgram.Command

inductive Error where
  | arguments (fault : ArgumentFault)
  | settings (fault : Settings.Fault)
  | unknownFormat (path : String)
  | unreadable (path : String) (fault : FileFault)
  | document (error : LoadError)
  | invalid (path : String) (problems : List Problem)
  | generation (failure : Failure)
  | unwritable (path : String) (fault : FileFault)

def Error.message : Error → String
  | arguments f => f.message
  | settings f => f.message
  | unknownFormat path => unknownFormatMessage path
  | unreadable path f => "read workspace: " ++ f.message true path
  | document e => e.message
  | invalid path ps => "invalid workspace " ++ path ++ ": " ++ Problem.messages ps
  | generation f => f.message
  | unwritable path f => "write program: " ++ f.message false path

def Error.code : Error → Nat
  | arguments _ => 2
  | settings _ => 2
  | _ => 1

/-- What a run of the command does: what it prints, the file it writes, and its error. -/
structure Outcome where
  stdout : String := ""
  stderr : String := ""
  written : Option (String × String) := none
  error : Option Error := none

def nameLines (names : List NameEntry) : String :=
  String.join (names.map fun n =>
    Log.padRight 20 n.category.label ++ " " ++ Log.padRight 40 n.logical ++ " " ++ n.text ++ "\n")

def readWorkspace (files : FileView) (path : String) : Except Error Workspace :=
  match formatOfPath? path with
  | none => .error (.unknownFormat path)
  | some format =>
    match files.read path with
    | .error f => .error (.unreadable path f)
    | .ok bytes =>
      match (Workspace.load format bytes path {}).1 with
      | .error e => .error (.document e)
      | .ok w => if w.problems.isEmpty then .ok w else .error (.invalid path w.problems)

def Request.result (r : Request) (files : FileView) (env : Settings.Environment) :
    Except Error Result :=
  match Settings.load files r.envFile env with
  | .error f => .error (.settings f)
  | .ok s =>
    match readWorkspace files r.workspacePath with
    | .error e => .error e
    | .ok w =>
      match ({ options := r.options s.options } : Generator).generate w with
      | .error f => .error (.generation f)
      | .ok result => .ok result

def Request.run (r : Request) (files : FileView) (env : Settings.Environment) : Outcome :=
  match r.result files env with
  | .error e => { error := some e }
  | .ok result =>
    let names := if r.showNames then nameLines result.names else ""
    if r.outputPath = "" then { stdout := result.code ++ "\n", stderr := names }
    else
      match files.refusal r.outputPath with
      | some f => { stderr := names, error := some (.unwritable r.outputPath f) }
      | none => { stderr := names, written := some (r.outputPath, result.code ++ "\n") }

def run (files : FileView) (env : Settings.Environment) (arguments : List String) : Outcome :=
  let p := parse arguments
  match p.outcome with
  | .error f => { stdout := p.output, error := some (.arguments f) }
  | .ok none => { stdout := p.output }
  | .ok (some r) => r.run files env

def Outcome.code (o : Outcome) : Nat := (o.error.map Error.code).getD 0

def Outcome.errorText (o : Outcome) : String :=
  o.stderr ++ (o.error.map fun e => e.message ++ "\n").getD ""

end BlockProgram.Command
