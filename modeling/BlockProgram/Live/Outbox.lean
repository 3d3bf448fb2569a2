import BlockProgram.Live.Message

/-! The messages on their way to one client. Nothing waits for room: a message that finds none is
dropped. -/
namespace BlockProgram.Live

/-- Messages waiting to be written, the oldest first. An outbox that is closed takes no more;
`misused` records that someone has tried to use a closed one. -/
structure Outbox where
  capacity : Nat
  waiting : List Message := []
  closed : Bool := false
  misused : Bool := false

namespace Outbox

def offer (o : Outbox) (m : Message) : Outbox :=
  if o.closed then { o with misused := true }
  else if o.waiting.length < o.capacity then { o with waiting := o.waiting ++ [m] }
  else o

/-- Closes the outbox; what waits can still be written. -/
def close (o : Outbox) : Outbox :=
  if o.closed then { o with misused := true } else { o with closed := true }

def next? (o : Outbox) : Option (Message × Outbox) :=
  match o.waiting with
  | [] => none
  | m :: rest => some (m, { o with waiting := rest })

def drain (o : Outbox) : List Message × Outbox := (o.waiting, { o with waiting := [] })

end Outbox

end BlockProgram.Live
