import BlockProgram.Calendar
import BlockProgram.Service.Generation

/-! Sending announcements of fresh programs over a connection, each as JSON under one subject. -/
namespace BlockProgram

namespace Announcer

inductive Fault where
  | cancelled
  | unwritableTime
  | invalidSubject (subject : String)
  | connectionClosed (subject : String)
deriving DecidableEq

def Fault.message : Fault → String
  | cancelled => "context canceled"
  | unwritableTime => "marshal event: json: error in the time: year outside of range [0,9999]"
  | invalidSubject s => "nats publish " ++ Text.quoted s ++ ": nats: invalid subject"
  | connectionClosed s => "nats publish " ++ Text.quoted s ++ ": nats: connection closed"

def payload? (a : Service.Announcement) (generatedAt : Moment) : Option String :=
  generatedAt.text?.map fun time =>
    Json.writeObject [("digest", Json.writeString a.digest), ("format", Json.writeString a.format),
      ("bytes", toString a.bytes), ("definitions", toString a.definitions),
      ("generatedAt", Json.writeString time)]

/-- Whether a subject can be sent: it is not empty and has no blanks. -/
def isSubject (s : String) : Bool :=
  s ≠ "" && !s.toList.any fun c => c = ' ' || c = '\t' || c = '\r' || c = '\n'

end Announcer

/-- A sender of announcements: its subject, whether the connection is closed, and all that has been
received at the other end. -/
structure Announcer where
  subject : String
  closed : Bool := false
  received : List (String × String) := []
deriving DecidableEq

namespace Announcer

def publish (n : Announcer) (cancelled : Bool) (a : Service.Announcement) (generatedAt : Moment) :
    Except Fault Announcer :=
  if cancelled then .error .cancelled
  else
    match payload? a generatedAt with
    | none => .error .unwritableTime
    | some text =>
      if !isSubject n.subject then .error (.invalidSubject n.subject)
      else if n.closed then .error (.connectionClosed n.subject)
      else .ok { n with received := n.received ++ [(n.subject, text)] }

def close (n : Announcer) : Announcer := { n with closed := true }

end Announcer

end BlockProgram
