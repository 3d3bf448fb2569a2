import BlockProgram.Service.Generation
import BlockProgram.Service.Store

/-! Storing workspaces and generating their programs later. Only documents that load are stored. -/
namespace BlockProgram.Service

inductive StoredRefusal where
  | refused (refusal : Refusal)
  | store (fault : Store.Fault)

def withFormat (w : SavedWorkspace) : SavedWorkspace :=
  { w with format := Fingerprint.format w.format }

/-- Stores a workspace, once its document has been found to load. -/
def createStored (store : Store) (fails : Bool) (ids : Ids) (w : SavedWorkspace) :
    Except StoredRefusal (SavedWorkspace × Store) × Ids :=
  let w := withFormat w
  match loadChecked w.format (Digest.bytesOf w.content) w.name ids with
  | (.error r, ids) => (.error (.refused r), ids)
  | (.ok _, ids) =>
    if fails then (.error (.store .down), ids)
    else
      match store.create false ids w with
      | (.error f, ids) => (.error (.store f), ids)
      | (.ok created, ids) => (.ok created, ids)

def storedOrder (w : SavedWorkspace) (overrides : String) : Order :=
  { format := w.format, document := Digest.bytesOf w.content, overrides := overrides }

def generateSaved (s : Service) (c : Conditions) (b : Backends) (ids : Ids) (store : Store)
    (id overrides : String) : Except StoredRefusal Delivery × Backends × Ids :=
  match store.find id with
  | .error f => (.error (.store f), b, ids)
  | .ok w =>
    match s.generate c b ids (storedOrder w overrides) with
    | (.error r, b, ids) => (.error (.refused r), b, ids)
    | (.ok d, b, ids) => (.ok d, b, ids)

end BlockProgram.Service
