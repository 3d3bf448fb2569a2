import BlockProgram.Json.Basic
import BlockProgram.Number.Literal
import BlockProgram.Text.Quoted

/-! Writing JSON on one line. Besides what JSON itself requires, the characters `<`, `>` and `&` and
the two Unicode line separators are escaped, so that the text may stand inside markup. -/
namespace BlockProgram.Json

def writeChar (c : Char) : List Char :=
  match c with
  | '"' => ['\\', '"']
  | '\\' => ['\\', '\\']
  | '\n' => ['\\', 'n']
  | '\r' => ['\\', 'r']
  | '\t' => ['\\', 't']
  | '\x08' => ['\\', 'b']
  | '\x0c' => ['\\', 'f']
  | c =>
    if c.toNat < 0x20 || c = '<' || c = '>' || c = '&' || c.toNat = 0x2028 || c.toNat = 0x2029 then
      '\\' :: 'u' :: Text.hexPadded 4 c.toNat
    else [c]

def writeString (s : String) : String :=
  String.ofList ('"' :: (s.toList.flatMap writeChar ++ ['"']))

def writeBool (b : Bool) : String := if b then "true" else "false"

def writeObject (members : List (String × String)) : String :=
  "\x7b" ++ ",".intercalate (members.map fun (k, v) => writeString k ++ ":" ++ v) ++ "\x7d"

def writeArray (items : List String) : String := "[" ++ ",".intercalate items ++ "]"

/-- A number by its value: the shortest decimal, a negative zero with its sign. -/
def writeDouble (x : Number.Floating) : String :=
  match x with
  | .finite s m e => Number.binary64.write Number.programNotation s m e
  | _ => "null"

mutual

/-- A value on one line, numbers as they are spelled. -/
def compact : Json → String
  | .null => "null"
  | .bool b => writeBool b
  | .number s => s
  | .string s => writeString s
  | .array items _ => "[" ++ compactItems true items ++ "]"
  | .object members => "\x7b" ++ compactMembers true members ++ "\x7d"

def compactItems (first : Bool) : List Json → String
  | [] => ""
  | v :: vs => (if first then "" else ",") ++ compact v ++ compactItems false vs

def compactMembers (first : Bool) : List (String × Json) → String
  | [] => ""
  | (k, v) :: vs =>
    (if first then "" else ",") ++ writeString k ++ ":" ++ compact v ++ compactMembers false vs

end

/-- Puts a member into its place by key; a key met again takes the later value. -/
def insertMember (key : String) (value : Json) : List (String × Json) → List (String × Json)
  | [] => [(key, value)]
  | (k, v) :: rest =>
    if key = k then (k, value) :: rest
    else if key < k then (key, value) :: (k, v) :: rest
    else (k, v) :: insertMember key value rest

mutual

/-- A value by its content: keys sorted, a repeated key with its last value, numbers by the double
they stand for. -/
def canonical : Json → Json
  | .number s => .number (writeDouble ((Number.readDouble? s.toList).getD .nan))
  | .array items source => .array (canonicalItems items) source
  | .object members => .object (canonicalMembers members [])
  | v => v

def canonicalItems : List Json → List Json
  | [] => []
  | v :: vs => canonical v :: canonicalItems vs

/-- `canonical` on the members of an object, sorted into `done`. -/
def canonicalMembers : List (String × Json) → List (String × Json) → List (String × Json)
  | [], done => done
  | (k, v) :: rest, done => canonicalMembers rest (insertMember k (canonical v) done)

end

end BlockProgram.Json
