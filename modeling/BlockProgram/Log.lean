import BlockProgram.Json.Record
import BlockProgram.Text.Lines
import BlockProgram.Text.Quoted

/-! Lines of a log on a console: time, level, place, message and named values, with colours. -/
namespace BlockProgram.Log

/-- How much a line matters. A log shows lines from its own level upwards. -/
inductive Level where
  | trace
  | debug
  | info
  | warn
  | error
  | fatal
  | panic
  | disabled
deriving DecidableEq

namespace Level

def rank : Level → Nat
  | trace => 0
  | debug => 1
  | info => 2
  | warn => 3
  | error => 4
  | fatal => 5
  | panic => 6
  | disabled => 7

def name : Level → String
  | trace => "trace"
  | debug => "debug"
  | info => "info"
  | warn => "warn"
  | error => "error"
  | fatal => "fatal"
  | panic => "panic"
  | disabled => "disabled"

def all : List Level := [trace, debug, info, warn, error, fatal, panic, disabled]

/-- The level with a name, in whatever case; a name that is none stands for `info`. -/
def ofName (name : String) : Level :=
  (all.find? fun l => l.name = Json.foldKey name).getD info

end Level

structure Event where
  level : Level
  message : String
  values : List (String × String) := []
  cause : Option String := none

def style (code text : String) : String := "\x1b[" ++ code ++ "m" ++ text ++ "\x1b[0m"

def padRight (width : Nat) (s : String) : String :=
  s ++ String.ofList (List.replicate (width - s.length) ' ')

/-- A value as a line shows it: quoted if it holds a blank, a quote, a backslash or anything that is
not a visible ASCII character. -/
def showValue (s : String) : String :=
  let odd (c : Char) : Bool := c.toNat ≤ 0x20 || 0x7E < c.toNat || c = '\\' || c = '"'
  if s.toList.any odd then Text.quoted s else s

/-- The values sorted by name; of two with one name the last counts. -/
def sortedValues (values : List (String × String)) : List (String × String) :=
  let names := (values.map (·.1)).eraseDups.mergeSort fun a b => a ≤ b
  names.filterMap fun n => values.reverse.find? (·.1 = n)

/-- The names of the parts every line has; a value with one of these names is not listed. -/
def partNames : List String := ["time", "level", "caller", "message"]

def lastValue? (values : List (String × String)) (name : String) : Option String :=
  (values.reverse.find? (·.1 = name)).map (·.2)

/-- The values a line lists. A value named `error` comes first and in colour, and then one without a
name is left out. -/
def listed (values : List (String × String)) : List String :=
  let named := (sortedValues values).filter fun (n, _) => !partNames.contains n && n ≠ "error"
  let plain (values : List (String × String)) := values.map fun (n, v) => n ++ "=" ++ showValue v
  match lastValue? values "error" with
  | some cause =>
    (style "36" "error=" ++ style "31" ("\x1b[1m" ++ showValue cause ++ "\x1b[0m")) ::
      plain (named.filter (·.1 ≠ ""))
  | none => plain named

/-- The line for an event, written at `time` from `place`; empty if the log does not show it. A
value may take the place of the level, and of a message that is empty. -/
def line (threshold : Level) (time place : String) (e : Event) : String :=
  if e.level.rank < threshold.rank || e.level = .disabled then ""
  else
    let level := (lastValue? e.values "level").getD e.level.name
    let message :=
      if e.message = "" then (lastValue? e.values "message").getD "%!s(<nil>)" else e.message
    let values := e.values ++ (e.cause.map fun c => ("error", c)).toList
    style "90" time ++ " | " ++ padRight 6 (level.map Char.toUpper) ++ "| " ++
      style "1" place ++ style "36" " >" ++ "   " ++ message ++ "  " ++
      String.join ((listed values).map (" " ++ ·)) ++ "\n"

end BlockProgram.Log
