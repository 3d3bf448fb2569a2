import BlockProgram.Json.Record
import BlockProgram.Json.Source
import BlockProgram.Live.Hub

/-! The connection of one client. A reader takes in what the client sends, and a worker answers its
requests one after the other; between them is a queue of limited length. -/
namespace BlockProgram.Live

/-- What a client has sent. A request keeps its data as they are written; none may be missing. -/
inductive Inbound where
  | unreadable
  | unsupported (kind : String)
  | request (data : String)
deriving DecidableEq

def Inbound.members : List Json.Member → Except Json.Fault (String × String)
  | ms => ms.foldlM (fun (kind, data) m =>
    match Json.foldKey m.key with
    | "type" => (Json.takeString kind m.value).map (·, data)
    | "data" => .ok (kind, m.source)
    | _ => .ok (kind, data)) ("", "")

def Inbound.read (text : String) : Inbound :=
  let parts := match Json.read text with
    | .ok (.object _) => Inbound.members (Json.membersOf text)
    | .ok .null => .ok ("", "")
    | .ok _ => .error (.mismatch "an object")
    | .error f => .error f
  match parts with
  | .error _ => .unreadable
  | .ok (kind, data) => if kind = "generate" then .request data else .unsupported kind

/-- How the answer to a request comes out. A collapse is an answer that broke off. -/
inductive Outcome where
  | payload (data : Json)
  | failed (text : String)
  | collapsed (text : String)

/-- What the reader of a session is doing. A reader that is joining waits to be let in. One that has
stopped, or was turned away, has closed the queue and waits for the worker. -/
inductive Reader where
  | joining
  | reading
  | stopped
  | turnedAway
  | gone
deriving DecidableEq

def Reader.hasClosed : Reader → Bool
  | joining | reading => false
  | stopped | turnedAway | gone => true

inductive Worker where
  | idle
  | busy (data : String)
  | publishing (m : Message)
  | finished

/-- A session: who it belongs to, its reader and its worker, and the requests between them.
`misused` records that something was put on the queue after it was closed. -/
structure Session where
  member : Member
  reader : Reader := .joining
  worker : Worker := .idle
  queue : List String := []
  misused : Bool := false

def queueCapacity : Nat := 16

def outboxCapacity : Nat := 256

def pendingCapacity : Nat := 256

def frameLimit : Nat := 1048576

/-- The code that tells a client that it has sent too much. -/
def tooLargeCode : Nat := 1009

namespace Session

def enqueue? (s : Session) (data : String) : Option Session :=
  if s.reader.hasClosed then some { s with misused := true }
  else if s.queue.length < queueCapacity then some { s with queue := s.queue ++ [data] }
  else none

/-- Takes in what the client has sent: the session after it, and a text that is answered at once. -/
def receive (s : Session) (text : String) : Session × Option String :=
  match Inbound.read text with
  | .unreadable => (s, some "Invalid message format")
  | .unsupported kind => (s, some ("Unsupported message type " ++ kind))
  | .request data =>
    match s.enqueue? data with
    | some s => (s, none)
    | none => (s, some "Server is busy, please try again")

end Session

end BlockProgram.Live
