import BlockProgram.Hcl.Type
import BlockProgram.Json.Printer
import BlockProgram.Number.Wide
import BlockProgram.Text.NormalForm

/-! Values of expressions. A value may be null of a type, and it may be unknown, when the choice
that gives it involves something that cannot be evaluated. Texts are in normal form. -/
namespace BlockProgram.Hcl

/-- A value. The members of objects and maps are sorted by name, each name once. -/
inductive Value where
  | unknown (type : Ty)
  | null (type : Ty)
  | bool (value : Bool)
  | number (value : Number.Wide)
  | string (value : String)
  | tuple (items : List Value)
  | object (members : List (String × Value))
  | list (item : Ty) (items : List Value)
  | map (item : Ty) (members : List (String × Value))
deriving Inhabited

namespace Value

mutual

def type : Value → Ty
  | unknown t => t
  | null t => t
  | bool _ => .bool
  | number _ => .number
  | string _ => .string
  | tuple xs => .tuple (itemTypes xs)
  | object ms => .object (memberTypes ms)
  | list t _ => .list t
  | map t _ => .map t

def itemTypes : List Value → List Ty
  | [] => []
  | v :: vs => v.type :: itemTypes vs

def memberTypes : List (String × Value) → List (String × Ty)
  | [] => []
  | (k, v) :: ms => (k, v.type) :: memberTypes ms

end

def isBareNull : Value → Bool
  | null .dynamic => true
  | _ => false

def isNull : Value → Bool
  | null _ => true
  | _ => false

def isKnown : Value → Bool
  | unknown _ => false
  | _ => true

def member? (name : String) (members : List (String × Value)) : Option Value :=
  (members.find? (·.1 == name)).map (·.2)

/-- The members with one more, kept sorted; a member of the same name is replaced. -/
def insertMember (name : String) (v : Value) : List (String × Value) → List (String × Value)
  | [] => [(name, v)]
  | (k, w) :: ms =>
    if name < k then (name, v) :: (k, w) :: ms
    else if name == k then (name, v) :: ms
    else (k, w) :: insertMember name v ms

def toText? : Value → Option String
  | bool b => some (if b then "true" else "false")
  | number x => some x.text
  | string s => some s
  | _ => none

def text (s : String) : Value := string (Text.normalForm s)

mutual

/-- Whether something inside a value is of unknown type. -/
def isVague : Value → Bool
  | unknown t => t.isDynamic
  | tuple vs => anyVague vs
  | list _ vs => anyVague vs
  | object ms => anyVagueMember ms
  | map _ ms => anyVagueMember ms
  | _ => false

def anyVague : List Value → Bool
  | [] => false
  | v :: vs => v.isVague || anyVague vs

def anyVagueMember : List (String × Value) → Bool
  | [] => false
  | (_, v) :: ms => v.isVague || anyVagueMember ms

end

/-- Whether an unknown value of a type may turn out equal to a known one; it never does if its type
rules that out. -/
def mayEqual (t : Ty) (v : Value) : Option Bool :=
  if t.isDynamic || (!v.isNull && v.type.conforms t) then none else some false

/-- Whether the types of two values are the same; `none` when one of them is vague and they may
be. -/
def sameType? (v w : Value) : Option Bool :=
  if v.isVague || w.isVague then
    if v.type.conforms w.type || w.type.conforms v.type then none else some false
  else some (v.type.same w.type)

mutual

/-- Whether two values are equal; `none` when that is unknown. Nulls of all types are equal, and
values of different types are not. -/
def equals? : Value → Value → Option Bool
  | unknown _, unknown _ => none
  | unknown t, v => mayEqual t v
  | v, unknown t => mayEqual t v
  | null _, null _ => some true
  | bool a, bool b => some (a == b)
  | number x, number y => some (x.value.same y.value)
  | string s, string t => some (s == t)
  | tuple xs, tuple ys =>
    match sameType? (tuple xs) (tuple ys) with
    | some true => equalItems? xs ys
    | unsettled => unsettled
  | list t xs, list u ys =>
    match sameType? (list t xs) (list u ys) with
    | some true => equalItems? xs ys
    | unsettled => unsettled
  | object xs, object ys =>
    match sameType? (object xs) (object ys) with
    | some true => equalMembers? xs ys
    | unsettled => unsettled
  | map t xs, map u ys =>
    match sameType? (map t xs) (map u ys) with
    | some true => equalMembers? xs ys
    | unsettled => unsettled
  | _, _ => some false

def equalItems? : List Value → List Value → Option Bool
  | [], [] => some true
  | x :: xs, y :: ys =>
    match equals? x y with
    | some true => equalItems? xs ys
    | unsettled => unsettled
  | _, _ => some false

def equalMembers? : List (String × Value) → List (String × Value) → Option Bool
  | [], [] => some true
  | (k, x) :: xs, (l, y) :: ys =>
    if k == l then
      match equals? x y with
      | some true => equalMembers? xs ys
      | unsettled => unsettled
    else some false
  | _, _ => some false

end

inductive WriteFault where
  | unknown
  | infinite
deriving DecidableEq

def WriteFault.message : WriteFault → String
  | unknown => "value is not known"
  | infinite => "cannot serialize infinity as JSON"

mutual

def writeJson : Value → Except WriteFault String
  | unknown _ => .error .unknown
  | null _ => .ok "null"
  | bool b => .ok (if b then "true" else "false")
  | number x =>
    match x.value with
    | .finite _ _ _ => .ok x.text
    | _ => .error .infinite
  | string s => .ok (Json.writeString s)
  | tuple vs => (writeItems vs).map Json.writeArray
  | list _ vs => (writeItems vs).map Json.writeArray
  | object ms => (writeMembers ms).map Json.writeObject
  | map _ ms => (writeMembers ms).map Json.writeObject

def writeItems : List Value → Except WriteFault (List String)
  | [] => .ok []
  | v :: vs =>
    match writeJson v with
    | .error f => .error f
    | .ok s => (writeItems vs).map (s :: ·)

def writeMembers : List (String × Value) → Except WriteFault (List (String × String))
  | [] => .ok []
  | (k, v) :: ms =>
    match writeJson v with
    | .error f => .error f
    | .ok s => (writeMembers ms).map ((k, s) :: ·)

end

end Value

/-- What evaluating comes to, and whether something in it was at fault. -/
structure Outcome where
  value : Value
  faulty : Bool := false

end BlockProgram.Hcl
