import BlockProgram.Live.Session

/-! All sessions and the hub between them. Readers, workers and the hub move on their own: every
action is one step of one of them, and any order of steps in which each is possible is a run. A step
is small enough to touch one outbox only, apart from the step in which the hub changes its rooms. -/
namespace BlockProgram.Live

/-- Answers one request; answering may change the world outside. -/
abbrev Processor (σ : Type) := σ → String → Outcome × σ

/-- What the hub is doing: it waits for an event, it has taken one, or it is telling a room a
message that some members have yet to be offered. -/
inductive Task where
  | waiting
  | handling (e : Event)
  | telling (message : Message) (rest : List String)

/-- Tells a message to those who are left; when nobody is, the hub waits again. -/
def Task.tell (message : Message) : List String → Task
  | [] => waiting
  | id :: rest => telling message (id :: rest)

/-- The hub and what it is doing, the messages on their way to it, the sessions, and the world
outside. -/
structure System (σ : Type) where
  hub : Hub := {}
  task : Task := .waiting
  pending : List Message := []
  sessions : List Session := []
  world : σ

/-- One step of a reader, a worker, a writer or the hub. -/
inductive Action where
  /-- A client connects and asks to be let into its room. -/
  | connect (m : Member)
  /-- The hub hears that a client joins, and its reader starts to read. -/
  | join (id : String)
  /-- A reader finds that the hub has stopped before it was let in, and closes the queue. -/
  | turnAway (id : String)
  /-- A reader takes in what its client has sent. -/
  | read (id text : String)
  /-- A reader finds the connection closed, and closes the queue. -/
  | hangUp (id : String)
  /-- A reader whose worker is done goes; a running hub hears of it. -/
  | leave (id : String)
  | take (id : String)
  | answer (id : String)
  | publish (id : String)
  /-- A worker gives up an answer, because the hub has stopped. -/
  | abandon (id : String)
  /-- A worker is done, because the queue is closed and empty. -/
  | finish (id : String)
  | collect
  | handle
  /-- The hub offers the message it is telling to one more member. -/
  | tell (id : String)
  | write (id : String)
  | stop
deriving DecidableEq

namespace System
variable {σ : Type}

def session? (s : System σ) (id : String) : Option Session :=
  s.sessions.find? (·.member.id = id)

def replace (s : System σ) (new : Session) : System σ :=
  { s with sessions := s.sessions.map fun t => if t.member.id = new.member.id then new else t }

def complain (s : System σ) (m : Member) (text : String) : System σ :=
  { s with hub := s.hub.offer m.id (.problem m text) }

def connect (s : System σ) (m : Member) : Option (System σ) :=
  if (s.session? m.id).isSome then none
  else
    some { s with
      hub := s.hub.welcome m.id outboxCapacity
      sessions := s.sessions ++ [{ member := m }] }

def join (s : System σ) (t : Session) : Option (System σ) :=
  match t.reader, s.task with
  | .joining, .waiting =>
    if s.hub.running then
      some { s.replace { t with reader := .reading } with task := .handling (.register t.member) }
    else none
  | _, _ => none

def turnAway (s : System σ) (t : Session) : Option (System σ) :=
  if t.reader = .joining && !s.hub.running then some (s.replace { t with reader := .turnedAway })
  else none

def read (s : System σ) (t : Session) (text : String) : Option (System σ) :=
  if t.reader = .reading then
    let (t, problem) := t.receive text
    let s := s.replace t
    some (match problem with
      | none => s
      | some p => s.complain t.member p)
  else none

def hangUp (s : System σ) (t : Session) : Option (System σ) :=
  if t.reader = .reading then some (s.replace { t with reader := .stopped }) else none

/-- A reader goes. One that was let in tells the hub, which must be waiting for an event or have
stopped. -/
def leave (s : System σ) (t : Session) : Option (System σ) :=
  let gone := s.replace { t with reader := .gone }
  match t.worker, t.reader with
  | .finished, .stopped =>
    if s.hub.running then
      match s.task with
      | .waiting => some { gone with task := .handling (.unregister t.member) }
      | _ => none
    else some gone
  | .finished, .turnedAway => some gone
  | _, _ => none

def take (s : System σ) (t : Session) : Option (System σ) :=
  match t.worker, t.queue with
  | .idle, data :: rest => some (s.replace { t with worker := .busy data, queue := rest })
  | _, _ => none

/-- A worker answers. What goes wrong is told to its client alone. -/
def answer (process : Processor σ) (s : System σ) (t : Session) : Option (System σ) :=
  match t.worker with
  | .busy data =>
    let (outcome, world) := process s.world data
    let s := { s with world := world }
    some (match outcome with
      | .payload p => s.replace { t with worker := .publishing (.generated t.member p) }
      | .failed text => (s.replace { t with worker := .idle }).complain t.member text
      | .collapsed text =>
        (s.replace { t with worker := .idle }).complain t.member ("generation failed: " ++ text))
  | _ => none

def publish (s : System σ) (t : Session) : Option (System σ) :=
  match t.worker with
  | .publishing m =>
    if s.pending.length < pendingCapacity then
      some { s.replace { t with worker := .idle } with pending := s.pending ++ [m] }
    else none
  | _ => none

def abandon (s : System σ) (t : Session) : Option (System σ) :=
  match t.worker with
  | .publishing _ => if s.hub.running then none else some (s.replace { t with worker := .idle })
  | _ => none

def finish (s : System σ) (t : Session) : Option (System σ) :=
  match t.worker, t.queue with
  | .idle, [] =>
    if t.reader.hasClosed then some (s.replace { t with worker := .finished }) else none
  | _, _ => none

def collect (s : System σ) : Option (System σ) :=
  match s.task, s.pending with
  | .waiting, m :: rest =>
    if s.hub.running then some { s with task := .handling (.broadcast m), pending := rest } else none
  | _, _ => none

def handle (s : System σ) : Option (System σ) :=
  match s.task with
  | .handling e =>
    some (match s.hub.handle e with
      | (hub, some m) => { s with hub := hub, task := .tell m (hub.members m.room) }
      | (hub, none) => { s with hub := hub, task := .waiting })
  | _ => none

def tell (s : System σ) (id : String) : Option (System σ) :=
  match s.task with
  | .telling m rest =>
    if id ∈ rest then some { s with hub := s.hub.offer id m, task := .tell m (rest.erase id) }
    else none
  | _ => none

def write (s : System σ) (id : String) : Option (System σ) :=
  (s.hub.next? id).map fun (_, hub) => { s with hub := hub }

/-- The hub stops, which it does only while it waits for an event. -/
def stop (s : System σ) : Option (System σ) :=
  match s.task with
  | .waiting => if s.hub.running then some { s with hub := s.hub.stop } else none
  | _ => none

def step (process : Processor σ) (s : System σ) : Action → Option (System σ)
  | .connect m => s.connect m
  | .join id => (s.session? id).bind s.join
  | .turnAway id => (s.session? id).bind s.turnAway
  | .read id text => (s.session? id).bind (s.read · text)
  | .hangUp id => (s.session? id).bind s.hangUp
  | .leave id => (s.session? id).bind s.leave
  | .take id => (s.session? id).bind s.take
  | .answer id => (s.session? id).bind (s.answer process)
  | .publish id => (s.session? id).bind s.publish
  | .abandon id => (s.session? id).bind s.abandon
  | .finish id => (s.session? id).bind s.finish
  | .collect => s.collect
  | .handle => s.handle
  | .tell id => s.tell id
  | .write id => s.write id
  | .stop => s.stop

/-- The system after a step; an impossible one changes nothing. -/
def perform (process : Processor σ) (s : System σ) (a : Action) : System σ :=
  (s.step process a).getD s

end System

end BlockProgram.Live
