/-! The types of values, and which of them convert to which. Several types may have one that all of
them convert to. -/
namespace BlockProgram.Hcl

/-- The type of a value. Attributes of an object are sorted by name. -/
inductive Ty where
  | dynamic
  | bool
  | number
  | string
  | tuple (items : List Ty)
  | object (members : List (String × Ty))
  | list (item : Ty)
  | map (item : Ty)
deriving Inhabited

namespace Ty

mutual

def same : Ty → Ty → Bool
  | dynamic, dynamic => true
  | bool, bool => true
  | number, number => true
  | string, string => true
  | tuple xs, tuple ys => sameItems xs ys
  | object xs, object ys => sameMembers xs ys
  | list x, list y => same x y
  | map x, map y => same x y
  | _, _ => false

def sameItems : List Ty → List Ty → Bool
  | [], [] => true
  | x :: xs, y :: ys => same x y && sameItems xs ys
  | _, _ => false

def sameMembers : List (String × Ty) → List (String × Ty) → Bool
  | [], [] => true
  | (k, x) :: xs, (l, y) :: ys => k == l && same x y && sameMembers xs ys
  | _, _ => false

end

mutual

def depth : Ty → Nat
  | tuple xs => depthItems xs + 1
  | object ms => depthMembers ms + 1
  | list x => depth x + 1
  | map x => depth x + 1
  | _ => 1

def depthItems : List Ty → Nat
  | [] => 0
  | x :: xs => max (depth x) (depthItems xs)

def depthMembers : List (String × Ty) → Nat
  | [] => 0
  | (_, x) :: xs => max (depth x) (depthMembers xs)

end

def name : Ty → String
  | dynamic => "dynamic"
  | bool => "bool"
  | number => "number"
  | string => "string"
  | tuple _ => "tuple"
  | object _ => "object"
  | list x => "list of " ++ x.name
  | map x => "map of " ++ x.name

def member? (name : String) (members : List (String × Ty)) : Option Ty :=
  (members.find? (·.1 == name)).map (·.2)

def isDynamic : Ty → Bool
  | dynamic => true
  | _ => false

mutual

/-- Whether a type is `wanted` as far as that says something: an unknown type may be any. -/
def conforms : Ty → Ty → Bool
  | _, dynamic => true
  | bool, bool => true
  | number, number => true
  | string, string => true
  | tuple xs, tuple ys => conformItems xs ys
  | object xs, object ys => conformMembers xs ys
  | list x, list y => conforms x y
  | map x, map y => conforms x y
  | _, _ => false

def conformItems : List Ty → List Ty → Bool
  | [], [] => true
  | x :: xs, y :: ys => conforms x y && conformItems xs ys
  | _, _ => false

def conformMembers : List (String × Ty) → List (String × Ty) → Bool
  | [], [] => true
  | (k, x) :: xs, (l, y) :: ys => k == l && conforms x y && conformMembers xs ys
  | _, _ => false

end

def members : Ty → List (String × Ty)
  | object ms => ms
  | _ => []

def items : Ty → List Ty
  | tuple xs => xs
  | _ => []

def element? : Ty → Option Ty
  | list x => some x
  | map x => some x
  | _ => none

/-- What a type is made of, as far as joining types asks. -/
inductive Kind where
  | dynamic
  | plain
  | tuple
  | object
  | list
  | map
deriving DecidableEq

def kind : Ty → Kind
  | dynamic => .dynamic
  | bool => .plain
  | number => .plain
  | string => .plain
  | tuple _ => .tuple
  | object _ => .object
  | list _ => .list
  | map _ => .map

def isCompound : Ty → Bool
  | list _ => true
  | map _ => true
  | object _ => true
  | _ => false

/-- A rank of preference: texts, which all plain values convert to, come first, and unknown types
last. -/
def rank : Ty → Nat
  | string => 0
  | list _ => 0
  | map _ => 0
  | dynamic => 2
  | _ => 1

mutual

/-- Whether values of the first type may convert to the second. Whether one does can still depend on
the value: a text converts to a number if it spells one. An object may have more attributes than are
asked for. The fuel bounds the depth of the types. -/
def converts : Nat → Ty → Ty → Bool
  | 0, _, _ => false
  | fuel + 1, source, target =>
    source.same target ||
      match target, source with
      | dynamic, _ => true
      | _, dynamic => true
      | string, bool => true
      | string, number => true
      | number, string => true
      | bool, string => true
      | tuple ts, tuple ss =>
        ts.length = ss.length && (ss.zip ts).all fun p => converts fuel p.1 p.2
      | object ts, object ss =>
        ts.all fun m => match member? m.1 ss with | some s => converts fuel s m.2 | none => false
      | object ts, map s => ts.all fun m => converts fuel s m.2
      | list t, list s => converts fuel s t
      | map t, map s => converts fuel s t
      | list t, tuple ss =>
        ss.isEmpty ||
          match listElement? fuel t ss with
          | some e => ss.all fun s => converts fuel s e
          | none => false
      | map t, object ms =>
        ms.isEmpty ||
          match mapElement? fuel t (ms.map (·.2)) with
          | some e => ms.all fun m => converts fuel m.2 e
          | none => false
      | _, _ => false

/-- The type of the elements of a list made of a tuple, of which `wanted` is asked: if that is
unknown, one that all items convert to. Items of several types are no list if nothing is known of
what they have in common. -/
def listElement? : Nat → Ty → List Ty → Option Ty
  | 0, _, _ => none
  | fuel + 1, wanted, ts =>
    if wanted.isDynamic then
      match join fuel ts with
      | some t => if t.isDynamic && !ts.all isDynamic then none else some t
      | none => none
    else some wanted

/-- The type of the elements of a map made of an object, of which `wanted` is asked: if that is
unknown, one that all attributes convert to. -/
def mapElement? : Nat → Ty → List Ty → Option Ty
  | 0, _, _ => none
  | fuel + 1, wanted, ts => if wanted.isDynamic then join fuel ts else some wanted

/-- The type that all of the types convert to. Objects with the same attributes and tuples of the
same length are joined part by part, and otherwise become maps and lists, as they do beside maps and
lists. -/
def join : Nat → List Ty → Option Ty
  | 0, _ => none
  | fuel + 1, ts =>
    let has (k : Kind) : Bool := ts.any (·.kind = k)
    let only (ks : List Kind) : Bool := ts.all fun t => ks.contains t.kind
    let suits (t : Ty) : Bool := ts.all fun s => converts fuel s t
    let preferred (found : Option Ty) : Option Ty :=
      match found with
      | some t => some t
      | none => (ts.mergeSort fun a b => a.rank ≤ b.rank).find? suits
    let elements (of : Ty → Ty) : Option Ty :=
      ((join fuel (ts.filterMap element?)).map of).filter suits
    let beside (collection : Ty → Option Ty) : Option Ty :=
      match ts.mapM collection with
      | some cs => (join fuel cs).filter fun t => t.element?.isSome && suits t
      | none => none
    if ts.isEmpty then none
    else if has .map && only [.map, .dynamic] then
      if has .dynamic then some dynamic else elements map
    else if has .list && only [.list, .dynamic] then
      if has .dynamic then some dynamic else elements list
    else if has .map && only [.map, .object, .dynamic] then
      preferred (beside fun t =>
        if t.kind = .object then (join fuel (t.members.map (·.2))).map map else some t)
    else if has .list && only [.list, .tuple, .dynamic] then
      preferred (beside fun t =>
        if t.kind = .tuple then (join fuel t.items).map list else some t)
    else if has .object && only [.object, .dynamic] then
      if has .dynamic then some dynamic
      else
        let first : List (String × Ty) := (ts.head?.map members).getD []
        if ts.all fun t => t.members.map (·.1) = first.map (·.1) then
          let joined (m : String × Ty) : Option (String × Ty) :=
            (join fuel (ts.filterMap fun t => member? m.1 t.members)).map fun t => (m.1, t)
          ((first.mapM joined).map object).filter suits
        else ((join fuel (ts.flatMap fun t => t.members.map (·.2))).map map).filter suits
    else if has .tuple && only [.tuple, .dynamic] then
      if has .dynamic then some dynamic
      else
        let first : List Ty := (ts.head?.map items).getD []
        if ts.all fun t => t.items.length = first.length then
          let joined (i : Nat) : Option Ty := join fuel (ts.filterMap fun t => t.items[i]?)
          (((List.range first.length).mapM joined).map tuple).filter suits
        else ((join fuel (ts.flatMap items)).map list).filter suits
    else if has .object && has .tuple then none
    else preferred none

end

def fuelFor (depth : Nat) : Nat := 4 * depth + 4

def convertsTo (source target : Ty) : Bool :=
  converts (fuelFor (max source.depth target.depth)) source target

def common (ts : List Ty) : Option Ty := join (fuelFor (depthItems ts)) ts

/-- The target type of a conversion with its unknown parts filled in from the source type. -/
def fill : Nat → Ty → Ty → Ty
  | 0, _, target => target
  | fuel + 1, source, target =>
    match source, target with
    | dynamic, t => t
    | s, dynamic => s
    | map s, map t => map (fill fuel s t)
    | object ss, map t => map (fill fuel ((common (ss.map (·.2))).getD dynamic) t)
    | map s, object ts => object (ts.map fun m => (m.1, fill fuel s m.2))
    | object ss, object ts =>
      object (ts.map fun m => (m.1, match member? m.1 ss with | some s => fill fuel s m.2 | none => m.2))
    | list s, list t => list (fill fuel s t)
    | tuple ss, list t => list (fill fuel ((common ss).getD dynamic) t)
    | tuple ss, tuple ts => tuple ((ss.zip ts).map fun p => fill fuel p.1 p.2)
    | _, t => t

end Ty

end BlockProgram.Hcl
