import BlockProgram.Hcl.Value

/-! Converting values between types. -/
namespace BlockProgram.Hcl

namespace Value

/-- The value as an element of a list or a map of type `t`: nulls and unknown values have that
type. -/
def asElement (t : Ty) : Value → Value
  | unknown _ => unknown t
  | null _ => null t
  | v => v

/-- The one type that values have, those of unknown type aside; `none` when they have several. -/
def sharedType? (vs : List Value) : Option Ty :=
  let known := (vs.map type).filter fun t => !t.isDynamic
  match known with
  | [] => some .dynamic
  | t :: ts => if ts.all t.same then some t else none

def listOf? (vs : List Value) : Option Value :=
  (sharedType? vs).map fun t => list t (vs.map (asElement t))

def mapOf? (ms : List (String × Value)) : Option Value :=
  (sharedType? (ms.map (·.2))).map fun t => map t (ms.map fun m => (m.1, asElement t m.2))

def mapMembers? (f : Value → Option Value) (ms : List (String × Value)) :
    Option (List (String × Value)) :=
  ms.mapM fun m => (f m.2).map fun v => (m.1, v)

/-- The members an object type asks for, each converted to its type. -/
def pickMembers? (f : Ty → Value → Option Value) (ts : List (String × Ty))
    (ms : List (String × Value)) : Option (List (String × Value)) :=
  ts.mapM fun t => ((member? t.1 ms).bind (f t.2)).map fun v => (t.1, v)

def readBool? (s : String) : Option Bool :=
  if s = "true" || s = "1" then some true
  else if s = "false" || s = "0" then some false
  else none

/-- Converts a value to a type that its type converts to, for a fuel that is at least the depth of
the types. Elements of a collection are brought to one type once each of them is converted. -/
def convertWithin? : Nat → Ty → Value → Option Value
  | 0, _, _ => none
  | fuel + 1, target, v =>
    let depth := max v.type.depth target.depth
    let unite (vs : List Value) : Option (List Value) :=
      match Ty.common (vs.map type) with
      | some t => vs.mapM (convertWithin? fuel t)
      | none => none
    let uniteMembers (ms : List (String × Value)) : Option (List (String × Value)) :=
      match Ty.common (ms.map (·.2.type)) with
      | some t => mapMembers? (convertWithin? fuel t) ms
      | none => none
    if v.type.same target then some v
    else
      match target, v with
      | .dynamic, v => some v
      | t, unknown s => some (unknown (Ty.fill depth s t))
      | t, null s => some (null (Ty.fill depth s t))
      | .string, v => v.toText?.map string
      | .number, string s => (Number.Wide.read? s).map number
      | .bool, string s => (readBool? s).map bool
      | .tuple ts, tuple vs => ((vs.zip ts).mapM fun p => convertWithin? fuel p.2 p.1).map tuple
      | .object ts, object ms => (pickMembers? (convertWithin? fuel) ts ms).map object
      | .object ts, map _ ms => (pickMembers? (convertWithin? fuel) ts ms).map object
      | .list t, list u vs =>
        if vs.isEmpty then some (list (if t.isDynamic then u else t) [])
        else (vs.mapM (convertWithin? fuel t)).bind listOf?
      | .list t, tuple vs =>
        if vs.isEmpty then some (list t [])
        else
          match Ty.listElement? (Ty.fuelFor depth) t (vs.map type) with
          | some e => ((vs.mapM (convertWithin? fuel e)).bind unite).bind listOf?
          | none => none
      | .map t, map u ms =>
        if ms.isEmpty then some (map (if t.isDynamic then u else t) [])
        else
          let converted := mapMembers? (convertWithin? fuel t) ms
          (if t.isCompound then converted.bind uniteMembers else converted).bind mapOf?
      | .map t, object ms =>
        if ms.isEmpty then some (map t [])
        else
          match Ty.mapElement? (Ty.fuelFor depth) t (ms.map (·.2.type)) with
          | some e =>
            let converted := mapMembers? (convertWithin? fuel e) ms
            (if e.isCompound then converted.bind uniteMembers else converted).bind mapOf?
          | none => none
      | _, _ => none

def convert? (target : Ty) (v : Value) : Option Value :=
  if v.type.convertsTo target then
    convertWithin? (max v.type.depth target.depth + 2) target v
  else none

end Value

end BlockProgram.Hcl
