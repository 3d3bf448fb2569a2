import BlockProgram.Hcl.Standard
import BlockProgram.Text.Lowercase
import BlockProgram.Workspace.Loading
import BlockProgram.Workspace.Sections

/-! Loading a workspace from the bytes of a document, in whatever format. -/
namespace BlockProgram

inductive LoadError where
  | json (fault : LoadFault)
  | sections (name : String) (complaints : List Complaint)
  | unsupported (name format : String)
  | breakdown (text : Option String)
deriving DecidableEq

def LoadError.message : LoadError → String
  | json f => "load json: " ++ f.message
  | sections name cs => "load " ++ name ++ ": " ++ Complaint.messages name cs
  | unsupported name format => "load " ++ name ++ ": unsupported format " ++ Text.quoted format
  | breakdown text => text.getD ""

def formatOfPath? (path : String) : Option String :=
  let base := path.toList.reverse.takeWhile (· ≠ '/')
  let ending := base.takeWhile (· ≠ '.')
  if ending.length = base.length then none
  else
    match Text.lower (String.ofList ending.reverse) with
    | "json" => some "json"
    | "hcl" => some "hcl"
    | _ => none

def unknownFormatMessage (path : String) : String :=
  "unknown workspace format for " ++ Text.quoted path ++ " (want .json or .hcl)"

/-- Loads a workspace. No format means JSON; `name` labels messages. -/
def Workspace.load [Hcl.Library] (format : String) (bytes : List UInt8) (name : String) (ids : Ids) :
    Except LoadError Workspace × Ids :=
  if format = "" || format = "json" then
    match Workspace.ofJsonText (Text.ofBytes bytes) ids with
    | (.ok w, ids) => (.ok w, ids)
    | (.error f, ids) => (.error (.json f), ids)
  else if format = "hcl" then
    match Workspace.ofSections bytes ids with
    | (.ok w, ids) => (.ok w, ids)
    | (.error (.complaints cs), ids) => (.error (.sections name cs), ids)
    | (.error (.breakdown b), ids) => (.error (.breakdown b.text), ids)
  else (.error (.unsupported name format), ids)

end BlockProgram
