import BlockProgram.Live.Schedule
import BlockProgram.Web.Site

/-! Live previews: clients of a room see the programs that any of them has generated. -/
namespace BlockProgram.Web

/-- Answers a client's request for a program, as the same request would be answered without a
lasting connection. -/
def generateProcessor (service : Service) : Live.Processor World := fun w data =>
  match Service.GenerateRequest.read data with
  | .error f => (.failed f.message, w)
  | .ok r =>
    if r.broken.isEmpty then
      match service.generate {} w.backends w.ids r.order with
      | (.ok d, b, ids) => (.payload (deliveryJson d), ⟨b, ids⟩)
      | (.error (.document (.breakdown text)), b, ids) => (.collapsed (text.getD ""), ⟨b, ids⟩)
      | (.error e, b, ids) => (.failed e.message, ⟨b, ids⟩)
    else (.failed (Text.join "\n" r.broken), w)

/-- How an attempt to connect ends: refused with a status, turned away because the hub has stopped,
or as a client with a new identifier. -/
inductive Joining where
  | refused (status : Nat)
  | turnedAway
  | joined (id : String)
deriving DecidableEq

namespace Site

def perform (process : Live.Processor World) (s : Site) (a : Live.Action) : Site :=
  { s with live := s.live.perform process a }

def connect (process : Live.Processor World) (s : Site) (room : String) : Joining × Site :=
  let (id, ids) := s.world.ids.draw
  let s := s.withWorld { s.world with ids := ids }
  (if s.live.hub.running then .joined id else .turnedAway, s.perform process (.connect ⟨id, room⟩))

def join (process : Live.Processor World) (s : Site) (now : Int) (r : Request) : Joining × Site :=
  match s.handle now r with
  | (.reply reply, s) => (.refused reply.status, s)
  | (.connection room, s) => s.connect process room

/-- Takes in what a client sends. Too long a message ends the connection; the answer is the code
that the client is told then. -/
def receive (process : Live.Processor World) (s : Site) (id text : String) : Option Nat × Site :=
  if text.utf8ByteSize ≤ Live.frameLimit then (none, s.perform process (.read id text))
  else (some Live.tooLargeCode, s.perform process (.hangUp id))

/-- Lets everything go on that can, and writes all messages to the clients. Clients in `held` get no
answers. -/
def settle (process : Live.Processor World) (held : List String) (s : Site) :
    List (String × List Live.Message) × Site :=
  let (got, live) := (s.live.settle process held).deliver
  (got, { s with live := live })

end Site

end BlockProgram.Web
