import BlockProgram.Access.Guard
import BlockProgram.Calendar
import BlockProgram.Live.System
import BlockProgram.Service.Requests
import BlockProgram.Service.Workspaces
import BlockProgram.Web.Route

/-! Answering requests. -/
namespace BlockProgram.Web

/-- What answering changes besides stored workspaces: the backends of the service, and identifiers
drawn. -/
structure World where
  backends : Service.Backends := {}
  ids : Ids := {}

/-- A site: its service, the secret for tokens, the stored workspaces, whether they can be reached,
and the connections to clients. -/
structure Site where
  service : Service := {}
  secret : String := ""
  store : Store := {}
  storeFails : Bool := false
  live : Live.System World := { world := {} }

inductive Answer where
  | reply (r : Reply)
  | connection (room : String)

def deliveryJson (d : Service.Delivery) : Json :=
  .object [("code", .string d.result.code), ("names", .array (d.result.names.map (·.json)) ""),
    ("definitions", .array (d.result.definitions.map (·.json)) ""),
    ("digest", .string d.digest), ("cached", .bool d.cached)]

def storedJson (w : SavedWorkspace) : Json :=
  let time := Json.string (((Moment.mk w.age 0).text?).getD "")
  let document := match w.document.content with
    | "" => []
    | text => [("workspace", (Json.read text).toOption.getD .null)]
  let source := if w.source = "" then [] else [("source", Json.string w.source)]
  .object ([("id", .string w.id), ("name", .string w.name), ("format", .string w.format)] ++ document ++
    source ++ [("createdAt", time), ("updatedAt", time)])

/-- The reply to a request that the service refuses. `fallback` is said where nobody but the site is
to blame. -/
def Reply.refused (r : Service.Refusal) (fallback : String) : Reply :=
  if r.isInvalidDocument then problem 400 r.message .null
  else
    match r with
    | .failure f =>
      if f.kind = .abort then problem 500 fallback .null
      else problem 422 f.message (.object [("blockId", .string f.id), ("blockType", .string f.type)])
    | _ => problem 500 fallback .null

/-- The reply to a request about a stored workspace that cannot be met. -/
def Reply.storedRefused (r : Service.StoredRefusal) (fallback : String) : Reply :=
  match r with
  | .refused r => refused r fallback
  | .store .notFound => problem 404 "Workspace not found" .null
  | .store .down => problem 500 fallback .null

namespace Site

def world (s : Site) : World := s.live.world

def withWorld (s : Site) (w : World) : Site := { s with live := { s.live with world := w } }

def generate (s : Site) (order : Service.Order) : Except Service.Refusal Service.Delivery × Site :=
  match s.service.generate {} s.world.backends s.world.ids order with
  | (outcome, b, ids) => (outcome, s.withWorld ⟨b, ids⟩)

def answerGenerate (s : Site) (body : String) : Reply × Site :=
  match Service.GenerateRequest.read body with
  | .error f => (.invalidRequest f.message, s)
  | .ok r =>
    if r.broken.isEmpty then
      match s.generate r.order with
      | (.ok d, s) => (⟨200, .json (deliveryJson d)⟩, s)
      | (.error e, s) => (.refused e "Failed to generate program", s)
    else (.invalidRequest (Text.join "\n" r.broken), s)

def answerCreate (s : Site) (body : String) : Reply × Site :=
  match Service.CreateRequest.read body with
  | .error f => (.invalidRequest f.message, s)
  | .ok r =>
    if r.broken.isEmpty then
      match Service.createStored s.store s.storeFails s.world.ids r.workspace with
      | (.ok (w, store), ids) =>
        (⟨201, .json (storedJson w)⟩, { s with store := store }.withWorld { s.world with ids := ids })
      | (.error e, ids) =>
        (.storedRefused e "Failed to store workspace", s.withWorld { s.world with ids := ids })
    else (.invalidRequest (Text.join "\n" r.broken), s)

/-- The identifier in a path, or the reply to one that names nothing. -/
def named (id : String) (k : String → Reply × Site) (s : Site) : Reply × Site :=
  match Text.Uuid.parse? id with
  | none => (.storedRefused (.store .notFound) "", s)
  | some id => k id

/-- A call to the store, which may be out of reach. -/
def stored {α : Type} (s : Site) (call : Except Store.Fault α) : Except Store.Fault α :=
  if s.storeFails then .error .down else call

def answerFind (s : Site) (id : String) : Reply :=
  match s.stored (s.store.find id) with
  | .ok w => ⟨200, .json (storedJson w)⟩
  | .error f => .storedRefused (.store f) "Failed to retrieve workspace"

def answerAll (s : Site) : Reply :=
  match s.stored (.ok s.store.all) with
  | .ok ws => ⟨200, .json (.array (ws.map storedJson) "")⟩
  | .error f => .storedRefused (.store f) "Failed to retrieve workspaces"

def answerDelete (s : Site) (id : String) : Reply × Site :=
  match s.stored (s.store.delete id) with
  | .ok store => (⟨204, .text ""⟩, { s with store := store })
  | .error f => (.storedRefused (.store f) "Failed to delete workspace", s)

/-- Answers a request for the program of a stored workspace. The body may be empty. -/
def answerStored (s : Site) (id body : String) : Reply × Site :=
  match if body = "" then .ok "" else Service.readOverrides body with
  | .error f => (.invalidRequest f.message, s)
  | .ok overrides =>
    let w := s.world
    let outcome := if s.storeFails then (.error (.store .down), w.backends, w.ids)
      else s.service.generateSaved {} w.backends w.ids s.store id overrides
    match outcome with
    | (.ok d, b, ids) => (⟨200, .json (deliveryJson d)⟩, s.withWorld ⟨b, ids⟩)
    | (.error e, b, ids) => (.storedRefused e "Failed to generate program", s.withWorld ⟨b, ids⟩)

def roomsJson (s : Site) : Json :=
  .object (s.live.hub.roomSizes.map fun r => (r.1, .number (toString r.2)))

/-- Answers a request that has found its way and was let pass. -/
def serve (s : Site) (r : Request) : Route → Answer × Site
  | .health => (.reply ⟨200, .json (.object [("status", .string "ok")])⟩, s)
  | .generate => reply (s.answerGenerate r.body)
  | .allWorkspaces => (.reply s.answerAll, s)
  | .createWorkspace => reply (s.answerCreate r.body)
  | .workspace id => reply (named id (fun id => (s.answerFind id, s)) s)
  | .deleteWorkspace id => reply (named id s.answerDelete s)
  | .generateSaved id => reply (named id (s.answerStored · r.body) s)
  | .preview room =>
    if r.isUpgrade then (.connection room, s) else (.reply ⟨400, .text "Bad Request\n"⟩, s)
  | .roomSizes => (.reply ⟨200, .json (.object [("rooms", s.roomsJson)])⟩, s)
where
  reply (p : Reply × Site) : Answer × Site := (.reply p.1, p.2)

def handle (s : Site) (now : Int) (r : Request) : Answer × Site :=
  match r.direction with
  | .nowhere => (.reply .pageNotFound, s)
  | .moved path => (.reply (.moved r path), s)
  | .found route =>
    match if route.guarded then Access.check s.secret now r else .ok () with
    | .error d => (.reply (.problem 401 d.message .null), s)
    | .ok () => s.serve r route

end Site

end BlockProgram.Web
