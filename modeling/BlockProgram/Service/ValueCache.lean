import BlockProgram.Json.Printer
import BlockProgram.Json.Record
import BlockProgram.Json.Source
import BlockProgram.Service.Shelf

/-! A cache of JSON values. Everything put into it lives for the same time. -/
namespace BlockProgram

inductive Expiry where
  | never
  | seconds (n : Int)
  | milliseconds (n : Int)
deriving DecidableEq

namespace Expiry

/-- The expiry for a lifetime in milliseconds: in seconds if it is a whole number of them. -/
def ofLifetime (ms : Int) : Expiry :=
  if ms ≤ 0 then never else if ms % 1000 = 0 then seconds (ms / 1000) else milliseconds ms

def argument : Expiry → String
  | never => ""
  | seconds n => "ex " ++ toString n
  | milliseconds n => "px " ++ toString n

end Expiry

namespace ValueCache

inductive Command where
  | get | set | delete
deriving DecidableEq

structure Entry where
  text : String
  expiry : Expiry
deriving DecidableEq

inductive Fault where
  | down
  | unreadable (fault : Json.Fault)

def Fault.message : Fault → String
  | down => "ERR cache down"
  | unreadable f => f.message

end ValueCache

/-- A cache: the lifetime of entries in milliseconds, the entries, and the commands that fail at
present. -/
structure ValueCache where
  lifetime : Int
  shelf : Shelf ValueCache.Entry := {}
  refused : List ValueCache.Command := []

namespace ValueCache

def keep (c : ValueCache) (key text : String) : Except Fault ValueCache :=
  if .set ∈ c.refused then .error .down
  else .ok { c with shelf := c.shelf.put key ⟨text, Expiry.ofLifetime c.lifetime⟩ }

def set (c : ValueCache) (key : String) (value : Json) : Except Fault ValueCache :=
  c.keep key value.canonical.compact

def text? (c : ValueCache) (key : String) : Except Fault (Option String) :=
  if .get ∈ c.refused then .error .down else .ok ((c.shelf.get? key).map (·.text))

/-- Reads the text under a key; no entry gives nothing. -/
def getWith {α : Type} (take : Json → Except Json.Fault α) (c : ValueCache) (key : String) :
    Except Fault (Option α) :=
  match c.text? key with
  | .error f => .error f
  | .ok none => .ok none
  | .ok (some text) =>
    match Json.read text >>= take with
    | .error f => .error (.unreadable f)
    | .ok v => .ok (some v)

def get (c : ValueCache) (key : String) : Except Fault (Option Json) :=
  c.getWith (fun v => if v.inRange then .ok v.canonical else .error (.mismatch "a number")) key

def getInteger (c : ValueCache) (key : String) : Except Fault (Option Int) :=
  c.getWith (Json.takeInt 0) key

def delete (c : ValueCache) (key : String) : Except Fault ValueCache :=
  if .delete ∈ c.refused then .error .down else .ok { c with shelf := c.shelf.remove key }

/-- Puts a text under a key past the cache; an entry that is there keeps its expiry. -/
def write (c : ValueCache) (key text : String) : ValueCache :=
  let expiry := ((c.shelf.get? key).map (·.expiry)).getD .never
  { c with shelf := c.shelf.put key ⟨text, expiry⟩ }

end ValueCache

end BlockProgram
