import BlockProgram.Hcl.Conversion

/-! Expressions, and what they come to. Evaluation always gives a value, and says whether something
in it was at fault; a choice only minds the faults of the branch it takes. -/
namespace BlockProgram.Hcl

inductive UnaryOp where
  | negate
  | invert
deriving DecidableEq

inductive BinaryOp where
  | either
  | both
  | equal
  | notEqual
  | less
  | lessEqual
  | greater
  | greaterEqual
  | add
  | subtract
  | multiply
  | divide
  | modulo
deriving DecidableEq

/-- An expression. `wrapped` is an expression in parentheses, or one that makes up a whole text.
`item` is the element at which a splat stands. `call` and `ambiguous` cannot be evaluated: there are
no functions, and a key with points in it is neither a name nor a reference. A loop without a
condition has one that is always true, and an empty name for a key it does not use. -/
inductive Expr where
  | literal (value : Value)
  | template (parts : List Expr)
  | wrapped (inner : Expr)
  | reference (name : String)
  | select (source : Expr) (name : String)
  | index (source key : Expr)
  | splat (source each : Expr)
  | item
  | call
  | ambiguous
  | tuple (items : List Expr)
  | object (items : List (Expr × Expr))
  | unary (op : UnaryOp) (operand : Expr)
  | binary (op : BinaryOp) (left right : Expr)
  | conditional (condition yes no : Expr)
  | forTuple (keyName valueName : String) (source result condition : Expr)
  | forObject (keyName valueName : String) (source key result condition : Expr) (group : Bool)
  | joined (parts : Expr)

/-- The names that can be referred to, and the element of a splat. -/
structure Scope where
  names : List (String × Value) := []
  item : Option Value := none

namespace Outcome

/-- An outcome at fault, of which only the type is known. -/
def fault (t : Ty) : Outcome := ⟨.unknown t, true⟩

def blame (o : Outcome) (b : Bool) : Outcome := { o with faulty := o.faulty || b }

def found (v : Option Value) : Outcome := (v.map fun v => ⟨v, false⟩).getD (fault .dynamic)

def select (o : Outcome) (name : String) : Outcome :=
  let key := Text.normalForm name
  let result : Outcome :=
    match o.value with
    | .object ms => found (Value.member? key ms)
    | .map _ ms => found (Value.member? key ms)
    | .unknown .dynamic => ⟨.unknown .dynamic, false⟩
    | .unknown (.object ts) => found ((Ty.member? key ts).map .unknown)
    | .unknown (.map t) => ⟨.unknown t, false⟩
    | _ => fault .dynamic
  result.blame o.faulty

def itemAt? {α : Type} (items : List α) : Value → Option α
  | .number x => x.value.natural?.bind fun i => items[i]?
  | _ => none

def element (source key : Value) : Outcome :=
  let vague : Outcome := ⟨.unknown .dynamic, false⟩
  if source.isNull || key.isNull then fault .dynamic
  else if source.type.isDynamic || key.type.isDynamic then vague
  else
    match source with
    | .tuple vs =>
      match Value.convert? .number key with
      | some (.unknown _) => vague
      | some k => found (itemAt? vs k)
      | none => fault .dynamic
    | .unknown (.tuple ts) =>
      match Value.convert? .number key with
      | some (.unknown _) => vague
      | some k => found ((itemAt? ts k).map .unknown)
      | none => fault .dynamic
    | .list t vs =>
      match Value.convert? .number key with
      | some (.unknown _) => ⟨.unknown t, false⟩
      | some k => found (itemAt? vs k)
      | none => fault .dynamic
    | .unknown (.list t) =>
      if (Value.convert? .number key).isSome then ⟨.unknown t, false⟩ else fault .dynamic
    | .object ms =>
      match Value.convert? .string key with
      | some (.unknown _) => vague
      | some (.string k) => found (Value.member? k ms)
      | _ => fault .dynamic
    | .unknown (.object _) =>
      if (Value.convert? .string key).isSome then vague else fault .dynamic
    | .map t ms =>
      match Value.convert? .string key with
      | some (.unknown _) => ⟨.unknown t, false⟩
      | some (.string k) => found (Value.member? k ms)
      | _ => fault .dynamic
    | .unknown (.map t) =>
      if (Value.convert? .string key).isSome then ⟨.unknown t, false⟩ else fault .dynamic
    | _ => fault .dynamic

/-- The element of a collection at a key, faults of both counted. -/
def index (source key : Outcome) : Outcome :=
  (element source.value key.value).blame (source.faulty || key.faulty)

/-- A text under construction: what there is of it, whether all of it is known, and whether
something in it is at fault. -/
structure Draft where
  text : String := ""
  known : Bool := true
  faulty : Bool := false

/-- Adds a part to a text. A null or a value that is no plain one is a fault, and after a fault
nothing is added. -/
def Draft.add (d : Draft) (o : Outcome) : Draft :=
  let faulty := d.faulty || o.faulty
  if o.value.isNull then { d with faulty := true }
  else if !o.value.isKnown then { d with known := false, faulty := faulty }
  else
    match o.value.toText? with
    | none => { d with faulty := true }
    | some s =>
      { d with text := if d.known && !faulty then d.text ++ s else d.text, faulty := faulty }

def concatenate (os : List Outcome) : Outcome :=
  let d := os.foldl Draft.add {}
  ⟨if d.known then Value.text d.text else .unknown .string, d.faulty⟩

/-- Adds a member to an object under construction; `none` when a key is not known. -/
def addMember (acc : Option (List (String × Value)) × Bool) (pair : Outcome × Outcome) :
    Option (List (String × Value)) × Bool :=
  let (key, value) := pair
  let faulty := acc.2 || key.faulty || value.faulty
  if key.faulty then (none, true)
  else if key.value.isNull then (none, true)
  else
    match Value.convert? .string key.value with
    | some (.string k) => (acc.1.map (Value.insertMember k value.value), faulty)
    | some _ => (none, faulty)
    | none => (none, true)

/-- The object with the given keys and values. Of two values for one key the last counts. -/
def object (pairs : List (Outcome × Outcome)) : Outcome :=
  match pairs.foldl addMember (some [], false) with
  | (some ms, faulty) => ⟨.object ms, faulty⟩
  | (none, faulty) => ⟨.unknown .dynamic, faulty⟩

def unary (op : UnaryOp) (o : Outcome) : Outcome :=
  match op with
  | .negate =>
    match Value.convert? .number o.value with
    | some (.number x) => if o.faulty then fault .number else ⟨.number x.neg, false⟩
    | some (.unknown t) => ⟨.unknown t, o.faulty⟩
    | _ => fault .number
  | .invert =>
    match Value.convert? .bool o.value with
    | some (.bool b) => if o.faulty then fault .bool else ⟨.bool !b, false⟩
    | some (.unknown t) => ⟨.unknown t, o.faulty⟩
    | _ => fault .bool

def compute (op : BinaryOp) (x y : Number.Wide) : Value :=
  match op with
  | .add => .number (x.add y)
  | .subtract => .number (x.sub y)
  | .multiply => .number (x.mul y)
  | .divide => .number (x.div y)
  | .modulo => .number (x.mod y)
  | .less => .bool (x.value.lt y.value)
  | .lessEqual => .bool (x.value.le y.value)
  | .greater => .bool (y.value.lt x.value)
  | .greaterEqual => .bool (y.value.le x.value)
  | _ => .null .dynamic

def resultType : BinaryOp → Ty
  | .add => .number
  | .subtract => .number
  | .multiply => .number
  | .divide => .number
  | .modulo => .number
  | _ => .bool

/-- Whether a truth value is `wanted`. A null is not true, and so counts as false. -/
def isTruth (wanted : Bool) : Value → Bool
  | .bool b => b == wanted
  | .null _ => !wanted
  | _ => false

/-- An operation on two truth values. `decisive` on one side settles the result, and then the other
side's faults do not count; an unknown side beside one that settles nothing leaves it unknown, and a
null that settles nothing is a fault. -/
def connect (decisive : Bool) (l r : Outcome) : Outcome :=
  match Value.convert? .bool l.value, Value.convert? .bool r.value with
  | some a, some b =>
    if isTruth decisive a then ⟨.bool decisive, l.faulty⟩
    else if isTruth decisive b then ⟨.bool decisive, r.faulty⟩
    else
      match a.isKnown, b.isKnown with
      | true, true =>
        if a.isNull || b.isNull then fault .bool else ⟨.bool !decisive, l.faulty || r.faulty⟩
      | true, false => ⟨.unknown .bool, r.faulty⟩
      | false, true => ⟨.unknown .bool, l.faulty⟩
      | false, false => ⟨.unknown .bool, l.faulty || r.faulty⟩
  | _, _ => fault .bool

def calculate (op : BinaryOp) (l r : Outcome) : Outcome :=
  match Value.convert? .number l.value, Value.convert? .number r.value with
  | some x, some y =>
    if l.faulty || r.faulty then fault (resultType op)
    else
      match x, y with
      | .number x, .number y =>
        match compute op x y with
        | .number ⟨.nan, _⟩ => fault .number
        | v => ⟨v, false⟩
      | .null _, _ => fault (resultType op)
      | _, .null _ => fault (resultType op)
      | _, _ => ⟨.unknown (resultType op), false⟩
  | _, _ => fault (resultType op)

def binary (op : BinaryOp) (l r : Outcome) : Outcome :=
  let equality (wanted : Bool) : Outcome :=
    if l.faulty || r.faulty then fault .bool
    else
      match l.value.equals? r.value with
      | some b => ⟨.bool (b == wanted), false⟩
      | none => ⟨.unknown .bool, false⟩
  match op with
  | .either => connect true l r
  | .both => connect false l r
  | .equal => equality true
  | .notEqual => equality false
  | _ => calculate op l r

def isBlank : Value → Bool
  | .unknown t => t.isDynamic
  | _ => false

/-- The type both branches of a choice convert to. A bare null takes the type of the other branch,
and beside a value of which nothing is known the other keeps its own. -/
def branchType (yes no : Value) : Option Ty :=
  if isBlank yes || isBlank no then some .dynamic
  else if yes.isBareNull then some no.type
  else if no.isBareNull then some yes.type
  else Ty.common [yes.type, no.type]

def branch (t : Ty) (o : Outcome) : Outcome :=
  match Value.convert? t o.value with
  | some v => ⟨v, o.faulty⟩
  | none => fault t

/-- Chooses between two values. Only the faults of the branch that is taken count. -/
def choose (condition yes no : Outcome) : Outcome :=
  match branchType yes.value no.value with
  | none => fault .dynamic
  | some t =>
    if condition.value.isNull then fault t
    else if !condition.value.isKnown then
      ⟨if yes.value.isNull && no.value.isNull then .null t else .unknown t, condition.faulty⟩
    else
      match Value.convert? .bool condition.value with
      | some (.bool b) => (branch t (if b then yes else no)).blame condition.faulty
      | _ => fault t

end Outcome

def Value.elements? : Value → Option (List (Value × Value))
  | .tuple vs => some (vs.zipIdx.map fun (v, i) => (.number (.ofNat i), v))
  | .list _ vs => some (vs.zipIdx.map fun (v, i) => (.number (.ofNat i), v))
  | .object ms => some (ms.map fun (k, v) => (.string k, v))
  | .map _ ms => some (ms.map fun (k, v) => (.string k, v))
  | _ => none

def Scope.round (s : Scope) (keyName valueName : String) (key value : Value) : Scope :=
  let names := if keyName = "" then s.names else (keyName, key) :: s.names
  { s with names := (valueName, value) :: names }

/-- The elements a loop goes over, or what the loop comes to without going over any. -/
def loopElements (source : Outcome) : Except Outcome (List (Value × Value)) :=
  let v := source.value
  if v.isNull then .error (.fault .dynamic)
  else if v.type.isDynamic then .error ⟨.unknown .dynamic, source.faulty⟩
  else if v.type.kind = .plain then .error (.fault .dynamic)
  else
    match v.elements? with
    | some es => .ok es
    | none => .error ⟨.unknown .dynamic, source.faulty⟩

/-- Whether the condition of a loop can be one at all, as an evaluation with nothing known shows. -/
def isCondition (trial : Outcome) : Bool :=
  !trial.faulty && !trial.value.isNull && (Value.convert? .bool trial.value).isSome

/-- What a loop has come to: what it has gathered, whether that is all known, and whether something
is at fault. -/
structure Progress (α : Type) where
  gathered : α
  known : Bool := true
  faulty : Bool := false

namespace Progress
variable {α : Type}

/-- A step that failed; once something is unknown that is no fault any more. -/
def fail (p : Progress α) : Progress α :=
  { p with known := false, faulty := p.faulty || p.known }

def lose (p : Progress α) : Progress α := { p with known := false }

def blame (p : Progress α) (b : Bool) : Progress α := { p with faulty := p.faulty || b }

def guarded (p : Progress α) (condition : Outcome) (step : Progress α → Progress α) : Progress α :=
  let p := p.blame condition.faulty
  match Value.convert? .bool condition.value with
  | some (.bool b) => if b then step p else p
  | some (.unknown _) => p.lose
  | _ => p.fail

def addItem (p : Progress (List Value)) (o : Outcome) : Progress (List Value) :=
  { p.blame o.faulty with gathered := p.gathered ++ [o.value] }

/-- Adds a member. A key that comes twice is a fault, unless values with the same key are
grouped. -/
def addMember (group : Bool) (p : Progress (List (String × Value))) (key value : Outcome) :
    Progress (List (String × Value)) :=
  let p := p.blame key.faulty
  match (if key.value.isKnown then Value.convert? .string key.value else some key.value) with
  | some (.string k) =>
    let p := p.blame value.faulty
    if group then
      let before := match Value.member? k p.gathered with | some (.tuple vs) => vs | _ => []
      { p with gathered := Value.insertMember k (.tuple (before ++ [value.value])) p.gathered }
    else if (Value.member? k p.gathered).isSome then p.blame true
    else { p with gathered := Value.insertMember k value.value p.gathered }
  | some (.unknown _) => p.lose
  | _ => p.fail

def outcome (p : Progress α) (of : α → Value) : Outcome :=
  ⟨if p.known then of p.gathered else .unknown .dynamic, p.faulty⟩

end Progress

/-- A loop that gathers items: the condition and the item of each round. -/
def loopItems (faulty : Bool) (rounds : List (Outcome × Outcome)) : Outcome :=
  let start : Progress (List Value) := ⟨[], true, faulty⟩
  let step (p : Progress (List Value)) (r : Outcome × Outcome) : Progress (List Value) :=
    p.guarded r.1 fun p => p.addItem r.2
  (rounds.foldl step start).outcome .tuple

/-- A loop that gathers members: the condition, the key and the value of each round. -/
def loopMembers (group faulty : Bool) (rounds : List (Outcome × Outcome × Outcome)) : Outcome :=
  let start : Progress (List (String × Value)) := ⟨[], true, faulty⟩
  let step (p : Progress (List (String × Value))) (r : Outcome × Outcome × Outcome) :
      Progress (List (String × Value)) :=
    p.guarded r.1 fun p => p.addMember group r.2.1 r.2.2
  (rounds.foldl step start).outcome .object

/-- What a splat over `source` comes to, for what its steps come to at an item. A value that is no
tuple or list counts as the only item of one, and a null as none at all. -/
def splat (source : Outcome) (visit : Value → Outcome) : Outcome :=
  let v := source.value
  let guess (ts : List Ty) : List Outcome := ts.map fun t => visit (.unknown t)
  let types (os : List Outcome) : List Ty := os.map (·.value.type)
  let faulty (os : List Outcome) : Bool := os.any (·.faulty)
  let values (os : List Outcome) : List Value := os.map (·.value)
  let single : Outcome :=
    let o := visit v
    if !v.isKnown then ⟨.unknown .dynamic, o.faulty⟩
    else if o.faulty then .fault (.tuple (types (guess [v.type])))
    else ⟨.tuple [o.value], false⟩
  if source.faulty then .fault .dynamic
  else
    match v with
    | .null (.tuple _) => .fault .dynamic
    | .null (.list _) => .fault .dynamic
    | .null _ => ⟨.tuple [], false⟩
    | .unknown .dynamic => ⟨.unknown .dynamic, false⟩
    | .tuple vs =>
      let os := vs.map visit
      if faulty os then .fault (.tuple (types (guess (vs.map Value.type))))
      else ⟨.tuple (values os), false⟩
    | .unknown (.tuple ts) => ⟨.unknown (.tuple (types (guess ts))), faulty (guess ts)⟩
    | .list t vs =>
      let os := vs.map visit
      let o := visit (.unknown t)
      if faulty os then .fault (.list o.value.type)
      else if vs.isEmpty then ⟨.list o.value.type [], o.faulty⟩
      else .found (Value.listOf? (values os))
    | .unknown (.list t) =>
      let o := visit (.unknown t)
      ⟨.unknown (.list o.value.type), o.faulty⟩
    | _ => single

mutual

def Expr.eval (s : Scope) : Expr → Outcome
  | .literal v => ⟨v, false⟩
  | .template parts => .concatenate (evalAll s parts)
  | .wrapped e => e.eval s
  | .reference name =>
    match s.names.find? (·.1 == name) with
    | some (_, v) => ⟨v, false⟩
    | none => .fault .dynamic
  | .select e name => (e.eval s).select name
  | .index e k => (e.eval s).index (k.eval s)
  | .splat e each => Hcl.splat (e.eval s) fun v => each.eval { s with item := some v }
  | .item => (s.item.map fun v => (⟨v, false⟩ : Outcome)).getD (.fault .dynamic)
  | .call => .fault .dynamic
  | .ambiguous => .fault .dynamic
  | .tuple items =>
    let os := evalAll s items
    ⟨.tuple (os.map (·.value)), os.any (·.faulty)⟩
  | .object items => .object (evalPairs s items)
  | .unary op e => .unary op (e.eval s)
  | .binary op l r => .binary op (l.eval s) (r.eval s)
  | .conditional c a b => .choose (c.eval s) (a.eval s) (b.eval s)
  | .forTuple keyName valueName source result condition =>
    let inside (k v : Value) : Scope := s.round keyName valueName k v
    let o := source.eval s
    match loopElements o with
    | .error o => o
    | .ok es =>
      if isCondition (condition.eval (inside (.unknown .dynamic) (.unknown .dynamic))) then
        loopItems o.faulty (es.map fun e =>
          (condition.eval (inside e.1 e.2), result.eval (inside e.1 e.2)))
      else .fault .dynamic
  | .forObject keyName valueName source key result condition group =>
    let inside (k v : Value) : Scope := s.round keyName valueName k v
    let o := source.eval s
    match loopElements o with
    | .error o => o
    | .ok es =>
      if isCondition (condition.eval (inside (.unknown .dynamic) (.unknown .dynamic))) then
        loopMembers group o.faulty (es.map fun e =>
          (condition.eval (inside e.1 e.2), key.eval (inside e.1 e.2), result.eval (inside e.1 e.2)))
      else .fault .dynamic
  | .joined parts =>
    let o := parts.eval s
    match o.value with
    | .tuple vs =>
      ⟨if vs.all Value.isKnown then Value.text (String.join (vs.filterMap Value.toText?))
        else .unknown .string, o.faulty⟩
    | _ => ⟨.unknown .string, o.faulty⟩

def evalAll (s : Scope) : List Expr → List Outcome
  | [] => []
  | e :: es => e.eval s :: evalAll s es

def evalPairs (s : Scope) : List (Expr × Expr) → List (Outcome × Outcome)
  | [] => []
  | (k, v) :: ps => (k.eval s, v.eval s) :: evalPairs s ps

end

end BlockProgram.Hcl
