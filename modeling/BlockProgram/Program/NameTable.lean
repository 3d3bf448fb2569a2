import BlockProgram.Text.Lowercase

/-! Identifiers for logical names. A logical name keeps its identifier for the whole run; two names
of one category share an identifier exactly when they differ only in case; and a distinct name is
free of everything handed out before, in whatever category. -/
namespace BlockProgram

structure Category where
  label : String
deriving DecidableEq, Inhabited

namespace Category

/-- Variables of the user, and temporaries. -/
def userVariable : Category := ⟨"VARIABLE"⟩
/-- Procedures and helper functions. -/
def procedure : Category := ⟨"PROCEDURE"⟩
/-- Variables of the developer. -/
def developerVariable : Category := ⟨"DEVELOPER_VARIABLE"⟩

end Category

/-- One line of the table: a logical name and the identifier it was given. -/
structure NameEntry where
  category : Category
  logical : String
  text : String
deriving DecidableEq, Inhabited

structure NameTable where
  /-- Words that are never handed out. -/
  reserved : List String := []
  keyed : List (String × String) := []
  /-- Identifiers in use, with their category. -/
  taken : List (Category × String) := []
  /-- Logical names in the order in which they were first looked up. -/
  entries : List NameEntry := []
  vars : List (String × String) := []

namespace NameTable

/-- Bytes that stand in an address as they are. An identifier has an underscore for each. -/
def isAddressByte (b : UInt8) : Bool :=
  ";,/?:@&=+$-.!~*'()#".toList.any fun c => c.toNat = b.toNat

def isPlainByte (b : UInt8) : Bool :=
  b = 95 || (48 ≤ b && b ≤ 57) || (97 ≤ b && b ≤ 122) || (65 ≤ b && b ≤ 90)

def upperHexDigit (n : Nat) : Char := if n < 10 then Char.ofNat (48 + n) else Char.ofNat (55 + n)

def safeByte (b : UInt8) : List Char :=
  if isPlainByte b then [Char.ofNat b.toNat]
  else if b = 32 || isAddressByte b then ['_']
  else ['_', upperHexDigit (b.toNat / 16), upperHexDigit (b.toNat % 16)]

/-- An identifier made from a name: letters, digits and underscores only, not starting with a digit,
and never empty. -/
def plainName (name : String) : String :=
  let cs := name.toUTF8.toList.flatMap safeByte
  match cs with
  | [] => "unnamed"
  | c :: _ => String.ofList (if c.isDigit then "my_".toList ++ cs else cs)

def empty (reserved : List String) : NameTable := { reserved := reserved }

/-- Forgets all names and variables; the reserved words stay. -/
def reset (t : NameTable) : NameTable := { reserved := t.reserved }

def isReserved (t : NameTable) (word : String) : Bool := t.reserved.contains word

/-- Whether a word is not free: reserved, or in use in the category, or in use in any category when
a name is to be distinct. -/
def isTaken (t : NameTable) (word : String) (category : Category) (distinct : Bool) : Bool :=
  t.isReserved word || t.taken.any fun (c, w) => w = word && (distinct || c = category)

/-- The first free word among `base` followed by `n`, `n + 1`, …. Among one more words than are
reserved or in use one is free, so that number is enough fuel. -/
def firstFree (t : NameTable) (base : String) (category : Category) (distinct : Bool) :
    Nat → Nat → String
  | 0, n => base ++ toString n
  | fuel + 1, n =>
    let candidate := base ++ toString n
    if t.isTaken candidate category distinct then
      firstFree t base category distinct fuel (n + 1)
    else candidate

/-- The identifier for a seed: its safe form if that is free, and otherwise the safe form with the
least number from two on that makes it free. -/
def freeName (t : NameTable) (seed : String) (category : Category) (distinct : Bool) : String :=
  let base := plainName seed
  if t.isTaken base category distinct then
    t.firstFree base category distinct (t.reserved.length + t.taken.length + 1) 2
  else base

def assign (t : NameTable) (seed : String) (category : Category) (distinct : Bool) :
    String × NameTable :=
  let word := t.freeName seed category distinct
  (word, { t with taken := t.taken ++ [(category, word)] })

/-- The name a variable is looked up by: the one declared for it, if it is an id. -/
def resolve (t : NameTable) (name : String) (category : Category) : String :=
  if category = .userVariable then
    match t.vars.find? (·.1 = name) with
    | some (_, declared) => declared
    | none => name
  else name

def key (name : String) (category : Category) : String :=
  Text.lower name ++ "_" ++ category.label

/-- The identifier of a logical name, which is given one when it has none. -/
def get (t : NameTable) (name : String) (category : Category) : String × NameTable :=
  let logical := t.resolve name category
  let k := key logical category
  match t.keyed.find? (·.1 = k) with
  | some (_, word) => (word, t)
  | none =>
    let (word, t) := t.assign logical category false
    (word, { t with
      keyed := t.keyed ++ [(k, word)]
      entries := t.entries ++ [⟨category, logical, word⟩] })

/-- An identifier that is in use nowhere. -/
def distinct (t : NameTable) (seed : String) (category : Category) : String × NameTable :=
  t.assign seed category true

end NameTable

end BlockProgram
