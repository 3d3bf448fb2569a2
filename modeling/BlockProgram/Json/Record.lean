import BlockProgram.Json.Basic
import BlockProgram.Number.Literal

/-! Reading records from JSON objects. Members are taken in order, each updating what is known so
far, so that a repeated member counts last and `null` leaves things as they are. Keys match without
regard to case. -/
namespace BlockProgram.Json

/-- A character of a key, brought to lower case. Two letters outside ASCII fold onto it as well: the
long s and the Kelvin sign. -/
def foldKeyChar (c : Char) : Char :=
  if c.toNat = 0x17F then 's' else if c.toNat = 0x212A then 'k' else c.toLower

def foldKey (key : String) : String := key.map foldKeyChar

def takeString (old : String) : Json → Except Fault String
  | .null => .ok old
  | .string s => .ok s
  | _ => .error (.mismatch "a string")

def takeBool (old : Bool) : Json → Except Fault Bool
  | .null => .ok old
  | .bool b => .ok b
  | _ => .error (.mismatch "a truth value")

/-- An integer in place of `old`. Only spellings without a fraction and an exponent count. -/
def takeInt (old : Int) : Json → Except Fault Int
  | .null => .ok old
  | .number s =>
    match Number.readInteger? s.toList with
    | some i => .ok i
    | none => .error (.mismatch "an integer")
  | _ => .error (.mismatch "an integer")

def takeDouble (old : Number.Floating) : Json → Except Fault Number.Floating
  | .null => .ok old
  | .number s =>
    match Number.readDouble? s.toList with
    | some x => .ok x
    | none => .error (.mismatch "a number")
  | _ => .error (.mismatch "a number")

/-- An optional value, which `null` takes away again. -/
def takeOption {α : Type} (take : Json → Except Fault α) : Json → Except Fault (Option α)
  | .null => .ok none
  | v => (take v).map some

/-- A list that may be given more than once. A shorter list leaves the items beyond its end in
`spare`, where a longer one finds them again. -/
structure Slots (α : Type) where
  items : List α := []
  spare : List α := []

/-- What is left in place of `old` when a list with these items is given. An empty list keeps
nothing. -/
def Slots.refill {α : Type} (old : Slots α) : List α → Slots α
  | [] => {}
  | items => ⟨items, (old.items ++ old.spare).drop items.length⟩

/-- A list in place of `old`, each item updating the one that stood there before. -/
def takeItems {α ε : Type} (take : Option α → Json → Except ε α) (old : Slots α) (items : List Json) :
    Except ε (Slots α) :=
  let before := old.items ++ old.spare
  (items.zipIdx.mapM fun ((v, i) : Json × Nat) => take before[i]? v).map old.refill

/-- A list in place of `old`; `null` takes it away. -/
def takeList {α : Type} (take : Option α → Json → Except Fault α) (old : Slots α) :
    Json → Except Fault (Slots α)
  | .null => .ok {}
  | .array items _ => takeItems take old items
  | _ => .error (.mismatch "a list")

/-- A list of strings in place of `old`; an item that is `null` keeps what stood there before. -/
def takeStrings : Slots String → Json → Except Fault (Slots String) :=
  takeList fun s => takeString (s.getD "")

def takeMembers {α : Type} (update : String → Json → α → Except Fault α) (old : α) :
    Json → Except Fault α
  | .null => .ok old
  | .object members => members.foldlM (fun acc (k, v) => update (foldKey k) v acc) old
  | _ => .error (.mismatch "an object")

end BlockProgram.Json
