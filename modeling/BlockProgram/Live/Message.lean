import BlockProgram.Json.Basic

/-! Messages to the clients of a room. -/
namespace BlockProgram.Live

structure Member where
  id : String
  room : String
deriving DecidableEq

/-- A message: what kind it is, the room it belongs to, the client it is about, and what it says. -/
structure Message where
  kind : String
  room : String
  client : String
  data : Json
deriving Inhabited

namespace Message

def presence (kind : String) (m : Member) (clients : Nat) : Message :=
  ⟨kind, m.room, m.id, .object [("clients", .number (toString clients))]⟩

def joined (m : Member) (clients : Nat) : Message := presence "join" m clients

def left (m : Member) (clients : Nat) : Message := presence "leave" m clients

def problem (m : Member) (text : String) : Message :=
  ⟨"error", m.room, m.id, .object [("message", .string text)]⟩

def generated (m : Member) (payload : Json) : Message := ⟨"generated", m.room, m.id, payload⟩

end Message

end BlockProgram.Live
