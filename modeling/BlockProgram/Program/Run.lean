import BlockProgram.Program.Definitions
import BlockProgram.Program.Literal
import BlockProgram.Program.NameTable
import BlockProgram.Program.Options
import BlockProgram.Program.Precedence
import BlockProgram.Text.Pattern
import BlockProgram.Text.Quoted
import BlockProgram.Text.Wrap
import BlockProgram.Workspace.Place

/-! A run of the generator. Blocks are emitted one by one; on the way identifiers are handed out,
definitions are stored, and the first failure is kept. Emission does not stop at a failure, but from
then on no block is handed to its handler and all code is empty. -/
namespace BlockProgram

inductive FailureKind where
  /-- A block, or an option of it, that no handler knows. -/
  | dispatch
  /-- A field with a value its handler does not know. -/
  | option
  /-- A block in a place where it cannot stand. -/
  | shape
  /-- A handler gave up altogether. -/
  | abort
deriving DecidableEq

structure Failure where
  kind : FailureKind
  id : String
  type : String
  detail : String
deriving DecidableEq

namespace Failure

def kindName : FailureKind → String
  | .dispatch => "unhandled block dispatch"
  | .option => "unhandled option"
  | .shape => "block shape mismatch"
  | .abort => "aborted"

def message (f : Failure) : String :=
  match f.kind with
  | .abort => f.detail
  | kind => kindName kind ++ ": block " ++ f.id ++ " (" ++ f.type ++ "): " ++ f.detail

end Failure

inductive Fragment where
  | statement (text : String)
  | expression (text : String) (precedence : Precedence)
  /-- Nothing here: the code is stored elsewhere. -/
  | handled
deriving DecidableEq, Inhabited

namespace Fragment

def empty : Fragment := .statement ""

def text : Fragment → String
  | statement t => t
  | expression t _ => t
  | handled => ""

end Fragment

/-- How a handler is set up: whether it places the hooks of its blocks by itself, and whether its
blocks define procedures. -/
structure HandlerFlags where
  ownHooks : Bool := false
  definesProcedure : Bool := false
deriving DecidableEq

/-- What stays the same during a run. -/
structure Setting where
  options : Options
  flags : String → Option HandlerFlags

/-- The flags that count for a type, whether it has a handler or not. -/
def Setting.flagsOf (s : Setting) (type : String) : HandlerFlags := (s.flags type).getD {}

structure Run where
  names : NameTable
  definitions : Definitions := []
  /-- The names of helper functions, by their key. -/
  helpers : List (String × String) := []
  /-- The widgets declared for each user interface, the newest last. -/
  panels : List Definitions := [[]]
  /-- The blocks handed to their handlers, latest first. -/
  dispatched : List BlockData := []
  failure : Option Failure := none

def Run.helper? (r : Run) (key : String) : Option String := (r.helpers.find? (·.1 = key)).map (·.2)

abbrev Emit (α : Type) := ReaderT Setting (StateM Run) α

namespace Emit

def options : Emit Options := return (← read).options

def failed : Emit Bool := return (← get).failure.isSome

/-- Records a failure unless there is one already. -/
def fail (kind : FailureKind) (block : Option BlockData) (detail : String) : Emit Fragment := do
  modify fun r =>
    match r.failure with
    | some _ => r
    | none =>
      let id := (block.map (·.id)).getD ""
      let type := (block.map (·.type)).getD ""
      { r with failure := some ⟨kind, id, type, detail⟩ }
  return .empty

/-- Records a failure with the pattern of a detail that takes no values. -/
def failPattern (kind : FailureKind) (block : Option BlockData) (pattern : String) : Emit Fragment :=
  fail kind block (Text.unfilled pattern)

/-- The identifier of a variable, given by id or by name. -/
def variableName (idOrName : String) : Emit String :=
  modifyGet fun r =>
    let (word, names) := r.names.get idOrName .userVariable
    (word, { r with names := names })

def procedureName (name : String) : Emit String :=
  modifyGet fun r =>
    let (word, names) := r.names.get name .procedure
    (word, { r with names := names })

def freshVariable (seed : String) : Emit String :=
  modifyGet fun r =>
    let (word, names) := r.names.distinct seed .userVariable
    (word, { r with names := names })

def define (key code : String) : Emit Unit :=
  modify fun r => { r with definitions := r.definitions.put key code }

/-- Stands for the name of a helper function in its text. -/
def placeholder : String := "\x7bleCUI8hutHZI4480Dc\x7d"

/-- The text of a helper function with the given name. -/
def helperText (setting : Setting) (lines : List String) (name : String) : String :=
  Text.reindent setting.options.indent (Text.replaceAll (Text.join "\n" lines) placeholder name)

/-- The key for a helper function whose own key is taken. -/
def divertedKey (name : String) : String := "helper:" ++ name

/-- Gives a helper function a fresh name and stores it: under its key, or under a key of its own if
that is in use. -/
def storeHelper (setting : Setting) (key : String) (lines : List String) (r : Run) : String × Run :=
  let (name, names) := r.names.distinct key .procedure
  let slot := if (r.definitions.get? key).isSome then divertedKey name else key
  (name, { r with
    names := names
    helpers := r.helpers ++ [(key, name)]
    definitions := r.definitions.put slot (helperText setting lines name) })

/-- The name of the helper function with this key. It is generated and stored when it is asked for
the first time. -/
def provide {m : Type → Type} [Monad m] (setting : Setting) (key : String) (generate : m (List String))
    (r : Run) : m (String × Run) :=
  match r.helper? key with
  | some name => return (name, r)
  | none => do
    let lines ← generate
    return storeHelper setting key lines r

/-- The name of the helper function with this key and these lines. -/
def addHelper (key : String) (lines : List String) : Emit String := do
  let setting ← read
  modifyGet (provide (m := Id) setting key (pure lines))

/-- Starts a new list of widgets, and gives its number. -/
def openPanel : Emit Nat :=
  modifyGet fun r => (r.panels.length, { r with panels := r.panels ++ [[]] })

def panel (number : Nat) : Emit Definitions := return (← get).panels.getD number []

def addWidget (name code : String) : Emit Unit :=
  modify fun r =>
    match r.panels.getLast? with
    | some last => { r with panels := r.panels.dropLast ++ [Definitions.put last name code] }
    | none => r

/-- Fills the id of a block into a template. -/
def fillId (template : String) (b : BlockData) : String :=
  Text.replaceAll template "%1" ("'" ++ b.id ++ "'")

/-- The filled template, or nothing for an unused one. -/
def hook (template : String) (b : BlockData) : String :=
  if template = "" then "" else fillId template b

/-- The filled template, indented by one step. -/
def indentedHook (indent template : String) (b : BlockData) : String :=
  if template = "" then "" else Text.prependLines indent (fillId template b)

end Emit

end BlockProgram
