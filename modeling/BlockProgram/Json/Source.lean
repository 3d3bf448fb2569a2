import BlockProgram.Json.Reader
import BlockProgram.Number.Literal
import BlockProgram.Text.Quoted

/-! JSON as it is written. Some values are passed on with the spelling they were given, and only
white space around tokens is taken out. -/
namespace BlockProgram.Json

structure Member where
  key : String
  value : Json
  source : String

/-- The members of an object whose opening brace has been read, in a text that is known to be
well-formed. Each member takes at least one character. -/
def sourceMembers : Nat → List Char → List Member
  | 0, _ => []
  | fuel + 1, cs =>
    match skipSpace cs with
    | '"' :: cs =>
      match readString cs.length cs [] with
      | .error _ => []
      | .ok (key, rest) =>
        let start := skipSpace ((skipSpace rest).drop 1)
        match readValue (2 * start.length + 2) maxDepth start with
        | .error _ => []
        | .ok (value, rest) =>
          let source := String.ofList (start.take (start.length - rest.length))
          ⟨key, value, source⟩ ::
            match skipSpace rest with
            | ',' :: rest => sourceMembers fuel rest
            | _ => []
    | _ => []

def membersOf (text : String) : List Member :=
  match skipSpace text.toList with
  | '\x7b' :: cs => sourceMembers (cs.length + 1) cs
  | _ => []

/-- The first value of a text as it is written, without the white space around it. -/
def firstSource (text : String) : String :=
  let cs := skipSpace text.toList
  match readValue (2 * cs.length + 2) maxDepth cs with
  | .ok (_, rest) => String.ofList (cs.take (cs.length - rest.length))
  | .error _ => ""

/-- How a character inside a string is passed on: those that mean something in markup are
escaped. -/
def passChar (c : Char) : List Char :=
  if c = '<' || c = '>' || c = '&' || c.toNat = 0x2028 || c.toNat = 0x2029 then
    '\\' :: 'u' :: Text.hexPadded 4 c.toNat
  else [c]

/-- Takes the white space between tokens out of a well-formed text. -/
def squeeze (inText escaped : Bool) : List Char → List Char
  | [] => []
  | c :: cs =>
    if inText then
      passChar c ++
        squeeze (escaped || c != '"') (!escaped && c == '\\') cs
    else if isSpace c then squeeze false false cs
    else c :: squeeze (c == '"') false cs

def squeezed (text : String) : Except Fault String :=
  (read text).map fun _ => String.ofList (squeeze false false text.toList)

mutual

def inRange : Json → Bool
  | .number s => (Number.readDouble? s.toList).isSome
  | .array items _ => itemsInRange items
  | .object members => membersInRange members
  | _ => true

def itemsInRange : List Json → Bool
  | [] => true
  | v :: vs => inRange v && itemsInRange vs

def membersInRange : List (String × Json) → Bool
  | [] => true
  | (_, v) :: rest => inRange v && membersInRange rest

end

end BlockProgram.Json
