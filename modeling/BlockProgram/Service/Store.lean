import BlockProgram.Ids
import BlockProgram.Service.Document
import BlockProgram.Text.Uuid

/-! Stored workspaces. -/
namespace BlockProgram

/-- A stored workspace. Its document is in `document`, or in `source` when the format is not
JSON. -/
structure SavedWorkspace where
  id : String := ""
  name : String
  format : String := ""
  document : StoredText := {}
  source : String := ""
  /-- Seconds since the start of 1970, if known. -/
  createdAt : Option Int := none
deriving DecidableEq

def SavedWorkspace.content (w : SavedWorkspace) : String :=
  if w.format = "hcl" then w.source else w.document.content

/-- The moment a workspace without a known one sorts at: the start of the first year. -/
def SavedWorkspace.age (w : SavedWorkspace) : Int := w.createdAt.getD (-62135596800)

/-- The stored workspaces, in the order of their creation. -/
structure Store where
  rows : List SavedWorkspace := []
deriving DecidableEq

namespace Store

inductive Fault where
  | notFound
  | down
deriving DecidableEq

def Fault.message : Fault → String
  | notFound => "workspace not found"
  | down => "store down"

/-- Adds a workspace, with a fresh identifier unless it has one. The identifier is drawn even if the
store fails. -/
def create (s : Store) (fails : Bool) (ids : Ids) (w : SavedWorkspace) :
    Except Fault (SavedWorkspace × Store) × Ids :=
  let (w, ids) :=
    if w.id = "" || w.id = Text.Uuid.zero then
      let (id, ids) := ids.draw
      ({ w with id := id }, ids)
    else (w, ids)
  if fails then (.error .down, ids) else (.ok (w, ⟨s.rows ++ [w]⟩), ids)

/-- A workspace as it is read back: a document without a byte is nothing. -/
def readBack (w : SavedWorkspace) : SavedWorkspace :=
  if w.document.content = "" then { w with document := {} } else w

def all (s : Store) : List SavedWorkspace :=
  (s.rows.mergeSort fun a b => a.age ≤ b.age).map readBack

def find (s : Store) (id : String) : Except Fault SavedWorkspace :=
  match s.rows.find? (·.id = id) with
  | some w => .ok (readBack w)
  | none => .error .notFound

def delete (s : Store) (id : String) : Except Fault Store :=
  if s.rows.any (·.id = id) then .ok ⟨s.rows.filter (·.id ≠ id)⟩ else .error .notFound

end Store

end BlockProgram
