import BlockProgram.Text.Lines

/-! Files by path. A command sees files through a `FileView`; `Files` is a whole tree of them, for
commands that run on nothing else. -/
namespace BlockProgram

inductive FileFault where
  | missing
  | directory
  | notDirectory
deriving DecidableEq

/-- The wording of a fault of the file at a path. Reading a directory fails only after it was
opened. -/
def FileFault.message (reading : Bool) (path : String) : FileFault → String
  | missing => "open " ++ path ++ ": no such file or directory"
  | directory => (if reading then "read " else "open ") ++ path ++ ": is a directory"
  | notDirectory => "open " ++ path ++ ": not a directory"

/-- What a command can do with files: read one, and learn whether one may be written. -/
structure FileView where
  read : String → Except FileFault (List UInt8)
  refusal : String → Option FileFault

structure Files where
  entries : List (List String × List UInt8)

namespace Files

/-- The names a path is made of, without those that lead nowhere. -/
def parts (path : String) : List String :=
  let step (acc : List String) (part : String) : List String :=
    if part = "" || part = "." then acc
    else if part = ".." then acc.dropLast
    else acc ++ [part]
  ((path.splitOn "/").foldl step [])

def ofList (entries : List (String × List UInt8)) : Files :=
  ⟨entries.map fun (p, bytes) => (parts p, bytes)⟩

/-- Whether some file lies below a path. The empty path is always a directory. -/
def isDirectory (fs : Files) (path : List String) : Bool :=
  path.isEmpty || fs.entries.any fun e => path.isPrefixOf e.1 && path.length < e.1.length

def find? (fs : Files) (path : List String) : Option (List UInt8) :=
  (fs.entries.find? (·.1 = path)).map (·.2)

/-- Whether a part of a path stays in a directory or leads back from it. -/
def isStep (part : String) : Bool := part = "" || part = "." || part = ".."

/-- Goes from a directory to the one that a part of a path names. Nothing is known of what lies
above the tree. -/
def enter (fs : Files) (dir : List String) (part : String) : Except FileFault (List String) :=
  if part = "" || part = "." then .ok dir
  else if part = ".." then if dir.isEmpty then .error .missing else .ok dir.dropLast
  else
    let path := dir ++ [part]
    if fs.isDirectory path then .ok path
    else .error (if (fs.find? path).isSome then .notDirectory else .missing)

def read (fs : Files) (path : String) : Except FileFault (List UInt8) := do
  if path = "" then throw .missing
  let parts := path.splitOn "/"
  let last := parts.getLastD ""
  let dir ← parts.dropLast.foldlM fs.enter []
  if isStep last then
    let _ ← fs.enter dir last
    throw .directory
  match fs.find? (dir ++ [last]) with
  | some bytes => return bytes
  | none => throw (if fs.isDirectory (dir ++ [last]) then .directory else .missing)

/-- The directory in which a file at a path is written, if it can be written there. A path that ends
with a slash is that of a directory. -/
def writable (fs : Files) (path : String) : Except FileFault (List String) := do
  let slashes := (path.toList.reverse.takeWhile (· = '/')).length
  let parts := (String.ofList (path.toList.take (path.length - slashes))).splitOn "/"
  let last := parts.getLastD ""
  let dir ← parts.dropLast.foldlM fs.enter []
  if isStep last then
    let _ ← fs.enter dir last
    throw .directory
  if 0 < slashes || fs.isDirectory (dir ++ [last]) then throw .directory
  return dir

def refusal (fs : Files) (path : String) : Option FileFault :=
  match fs.writable path with
  | .error f => some f
  | .ok _ => none

def view (fs : Files) : FileView := ⟨fs.read, fs.refusal⟩

end Files

end BlockProgram
