import BlockProgram.Command.Run

/-! The command line: files, environment and streams around `Command.run`. -/
namespace BlockProgram.Command

def fileFault : IO.Error → FileFault
  | .inappropriateType _ code _ => if code = 21 then .directory else .notDirectory
  | _ => .missing

def readFile (path : String) : IO (Except FileFault (List UInt8)) := do
  try
    return .ok (← IO.FS.readBinFile path).toList
  catch e =>
    return .error (fileFault e)

/-- The files a command line may read: the one with settings and the one with the workspace. -/
def readable (arguments : List String) : List String :=
  match (parse arguments).outcome with
  | .ok (some r) => [if r.envFile = "" then ".env" else r.envFile, r.workspacePath]
  | _ => []

def readEnvironment : IO Settings.Environment :=
  Settings.keys.filterMapM fun key => do
    return (← IO.getEnv key).map fun value => (key, value)

/-- Writes the program to its file; a failure is the error of the run. -/
def writeProgram (o : Outcome) : IO Outcome := do
  match o.written with
  | none => return o
  | some (path, text) =>
    try
      IO.FS.writeFile path text
      return o
    catch e =>
      return { o with error := some (.unwritable path (fileFault e)) }

def execute (arguments : List String) : IO UInt32 := do
  let contents ← (readable arguments).mapM fun path => do
    return (path, ← readFile path)
  let files : FileView :=
    { read := fun path => ((contents.find? (·.1 = path)).map (·.2)).getD (.error .missing)
      refusal := fun _ => none }
  let o ← writeProgram (run files (← readEnvironment) arguments)
  IO.print o.stdout
  IO.eprint o.errorText
  return o.code.toUInt32

end BlockProgram.Command

def main (arguments : List String) : IO UInt32 := BlockProgram.Command.execute arguments
