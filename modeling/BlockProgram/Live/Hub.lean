import BlockProgram.Live.Outbox
import BlockProgram.Service.Shelf

/-! The hub keeps the rooms and hands every message to the members of its room. -/
namespace BlockProgram.Live

/-- The hub: the identifiers of the members of each room, the outbox of every client it has heard
of, and whether it is still running. -/
structure Hub where
  rooms : Shelf (List String) := {}
  outboxes : Shelf Outbox := {}
  running : Bool := true

inductive Event where
  | register (m : Member)
  | unregister (m : Member)
  | broadcast (message : Message)

namespace Hub

/-- The members of a room; a room that is not there has none. -/
def members (h : Hub) (room : String) : List String := (h.rooms.get? room).getD []

def changeOutbox (h : Hub) (id : String) (change : Outbox → Outbox) : Hub :=
  match h.outboxes.get? id with
  | some o => { h with outboxes := h.outboxes.put id (change o) }
  | none => h

def offer (h : Hub) (id : String) (m : Message) : Hub := h.changeOutbox id (·.offer m)

def offerAll (h : Hub) (ids : List String) (m : Message) : Hub := ids.foldl (·.offer · m) h

def broadcast (h : Hub) (m : Message) : Hub := h.offerAll (h.members m.room) m

/-- Gives a client an outbox, unless it has one. -/
def welcome (h : Hub) (id : String) (capacity : Nat) : Hub :=
  if (h.outboxes.get? id).isSome then h
  else { h with outboxes := h.outboxes.put id { capacity := capacity } }

/-- Takes a client into its room, which is made if need be. The notice is for the whole room. -/
def enter (h : Hub) (m : Member) : Hub × Message :=
  let old := h.members m.room
  let new := if m.id ∈ old then old else old ++ [m.id]
  ({ h with rooms := h.rooms.put m.room new }, .joined m new.length)

/-- Takes a client out of its room and closes its outbox. The notice is for those who stay; a room
without members is given up. Clients that are not in their room are left alone. -/
def dismiss (h : Hub) (m : Member) : Hub × Option Message :=
  let old := h.members m.room
  if m.id ∈ old then
    let rest := old.filter (· ≠ m.id)
    let h := h.changeOutbox m.id (·.close)
    if rest.isEmpty then ({ h with rooms := h.rooms.remove m.room }, none)
    else ({ h with rooms := h.rooms.put m.room rest }, some (.left m rest.length))
  else (h, none)

/-- What an event changes by itself, and what the hub tells a room because of it. -/
def handle (h : Hub) : Event → Hub × Option Message
  | .register m => ((h.enter m).1, some (h.enter m).2)
  | .unregister m => h.dismiss m
  | .broadcast message => (h, some message)

def step (h : Hub) (e : Event) : Hub :=
  match h.handle e with
  | (h, some message) => h.broadcast message
  | (h, none) => h

/-- What a running hub does about an event; a stopped one does nothing. -/
def tell (h : Hub) (e : Event) : Hub := if h.running then h.step e else h

def stop (h : Hub) : Hub := { h with running := false }

def roomSizes (h : Hub) : List (String × Nat) := h.rooms.entries.map fun r => (r.1, r.2.length)

/-- Takes the oldest message for a client out of its outbox, if one waits there. -/
def next? (h : Hub) (id : String) : Option (Message × Hub) :=
  (h.outboxes.get? id).bind fun o =>
    o.next?.map fun (m, o) => (m, { h with outboxes := h.outboxes.put id o })

def drain (h : Hub) (id : String) : List Message × Hub :=
  match h.outboxes.get? id with
  | some o => (o.drain.1, { h with outboxes := h.outboxes.put id o.drain.2 })
  | none => ([], h)

def isClosed (h : Hub) (id : String) : Bool := (h.outboxes.get? id).any (·.closed)

end Hub

end BlockProgram.Live
