import BlockProgram.Live.System

/-! One way to run the system: whatever can go on by itself does, until everybody waits for a
client. -/
namespace BlockProgram.Live.System
variable {σ : Type}

/-- The members that the hub has yet to offer its message. -/
def untold (s : System σ) : List String :=
  match s.task with
  | .telling _ rest => rest
  | _ => []

/-- The steps of the hub, of workers, and of readers that join or leave, in the order in which they
are tried. A worker that is held back does not answer. -/
def ownSteps (s : System σ) (held : List String) : List Action :=
  .handle :: s.untold.map .tell ++ s.sessions.flatMap (fun t =>
    let id := t.member.id
    [.join id, .turnAway id, .take id] ++ (if id ∈ held then [] else [.answer id]) ++
      [.publish id, .finish id, .leave id]) ++
    [.collect]

/-- More than the steps that are left. An event keeps the hub busy for two steps and one more for
every client; a session has three events besides its requests, and each of these takes three steps
of its own. -/
def ownStepsLeft (s : System σ) : Nat :=
  let event := s.sessions.length + 2
  s.sessions.foldl (fun n t => n + (t.queue.length + 3) * (event + 3)) ((s.pending.length + 1) * event)

def goOn (process : Processor σ) (held : List String) : Nat → System σ → System σ
  | 0, s => s
  | fuel + 1, s =>
    match (s.ownSteps held).findSome? (s.step process) with
    | some next => goOn process held fuel next
    | none => s

/-- Takes steps until nothing goes on by itself. -/
def settle (process : Processor σ) (held : List String) (s : System σ) : System σ :=
  goOn process held s.ownStepsLeft s

/-- Writes everything that waits to the clients, and tells who got what. -/
def deliver (s : System σ) : List (String × List Message) × System σ :=
  s.sessions.foldl (fun (got, s) t =>
    let (messages, hub) := s.hub.drain t.member.id
    (got ++ [(t.member.id, messages)], { s with hub := hub })) ([], s)

end BlockProgram.Live.System
