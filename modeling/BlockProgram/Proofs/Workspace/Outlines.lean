import BlockProgram.Proofs.Hcl.Library
import BlockProgram.Workspace.Loading
import BlockProgram.Workspace.Sections

/-! # Outlines of workspaces

An outline is a workspace as its author has it in mind, before it is written in one of the two
formats: a forest of blocks with ids, fields, inputs, bodies and extra state, and the variables.
`Outline.json` writes it in the format of the editor, and `Outline.Written` says which sections of a
configuration document stand for it.  The parts of an outline carry what makes them writable in both
formats.
-/
namespace BlockProgram

variable [L : Hcl.Library]

namespace Hcl

/-- An expression comes to a value, without a fault. -/
def Gives (e : L.Expr) (v : Value) : Prop := L.eval e = ⟨v, false⟩

/-- An attribute is missing, which `missing` allows, or its expression fits. -/
def Says (as : List (Attribute L.Expr)) (name : String) (missing : Prop) (fits : L.Expr → Prop) : Prop :=
  (attribute? name as).elim missing fun a => fits a.expr

/-- An expression is an object that is written out, its names and values in order. -/
def Lists {α : Type} (fits : α → Value → Prop) (members : List (String × α)) (e : L.Expr) : Prop :=
  ∃ items, L.items? e = some items ∧ List.Forall₂ (fun m item =>
    Gives item.1 (.string m.1) ∧ ∃ v, Gives item.2 v ∧ fits m.2 v) members items

end Hcl

/-! ### What a block says of itself -/

/-- What a field says if it refers to no variable. -/
inductive Scalar where
  | null
  | bool (b : Bool)
  | integer (i : Int) (small : i.natAbs < 2 ^ 513)
  | text (s : String)

namespace Scalar

def fieldText : Scalar → String
  | null => ""
  | bool b => if b then "TRUE" else "FALSE"
  | integer i _ => toString i
  | text s => s

def json : Scalar → Json
  | null => .null
  | bool b => .bool b
  | integer i _ => .number (toString i)
  | text s => .string s

def Fits : Scalar → Hcl.Value → Prop
  | null, v => v.isNull = true
  | bool b, v => v = .bool b
  | integer i _, v => ∃ x, v = .number x ∧ x.IsSpelled ∧ x.value.Is (decide (i < 0)) i.natAbs
  | text s, v => v = .string s

end Scalar

/-- A coordinate that is a double, and a spelling that is exactly this double. -/
structure Coordinate where
  negative : Bool := false
  mantissa : Nat
  exponent : Int
  double : mantissa = 0 ∧ exponent = 0 ∨ Number.IsDouble mantissa exponent
  spelling : String
  decimal : Number.Decimal
  spelled : Number.readDecimal? spelling.toList = some (negative, decimal)
  exact : decimal.toRat = mantissa * 2 ^ exponent

namespace Coordinate

def value (c : Coordinate) : Number.Floating := .finite c.negative c.mantissa c.exponent

def Fits (c : Coordinate) (v : Hcl.Value) : Prop :=
  ∃ x, v = .number x ∧ x.value.Is c.negative (c.mantissa * 2 ^ c.exponent)

end Coordinate

/-- A block apart from its sockets. Fields that refer to variables come last. -/
structure OutlineData where
  id : String
  id_ne : id ≠ ""
  type : String
  x : Coordinate
  y : Coordinate
  disabled : Bool
  comment : String
  fields : List (String × Scalar)
  references : List (String × { id : String // id ≠ "" })
  extra : Json
  extra_apart : extra.Apart
  extra_depth : extra.depth ≤ Json.maxDepth

namespace OutlineData

/-- The mutation that the extra state describes, if it describes one. -/
def mutation? (d : OutlineData) : Option Mutation := (Mutation.ofJson d.type d.extra).toOption

def blockData (d : OutlineData) : BlockData where
  id := d.id
  type := d.type
  x := d.x.value
  y := d.y.value
  disabled := d.disabled
  comment := d.comment
  fields := d.fields.map (fun f => ⟨f.1, f.2.fieldText, ""⟩) ++ d.references.map fun r => ⟨r.1, "", r.2⟩
  mutation := d.mutation?.getD {}

def fieldMembers (d : OutlineData) : List (String × Json) :=
  d.fields.map (fun f => (f.1, f.2.json)) ++ d.references.map fun r => (r.1, .object [("id", .string r.2)])

/-- The members of the object that describes the block in JSON, as far as they do not describe
others. -/
def members (d : OutlineData) : List (String × Json) :=
  [("type", .string d.type), ("id", .string d.id), ("x", .number d.x.spelling), ("y", .number d.y.spelling),
   ("enabled", .bool !d.disabled), ("comment", .string d.comment), ("fields", .object d.fieldMembers),
   ("extraState", d.extra)]

/-- The attributes of the block in a configuration document. What it says anyway may be left out. -/
structure Written (d : OutlineData) (as : List (Hcl.Attribute L.Expr)) : Prop where
  names : ∀ a ∈ as, a.name ∈ Hcl.blockShape.attributes
  id : Hcl.Says as "id" False (Hcl.Gives · (.string d.id))
  x : Hcl.Says as "x" (d.x.value = .zero) fun e => ∃ v, Hcl.Gives e v ∧ d.x.Fits v
  y : Hcl.Says as "y" (d.y.value = .zero) fun e => ∃ v, Hcl.Gives e v ∧ d.y.Fits v
  disabled : Hcl.Says as "disabled" (d.disabled = false) (Hcl.Gives · (.bool d.disabled))
  comment : Hcl.Says as "comment" (d.comment = "") (Hcl.Gives · (.string d.comment))
  fields : Hcl.Says as "fields" (d.fields = []) (Hcl.Lists Scalar.Fits d.fields)
  references : Hcl.Says as "vars" (d.references = []) 
    (Hcl.Lists (fun r v => v = .string r.1) d.references)
  extra : Hcl.Says as "extra" (d.extra = .null) fun e => ∃ v, Hcl.Gives e v ∧ v.Tells d.extra

end OutlineData

/-! ### Blocks -/

mutual

/-- A block with its inputs and its bodies. -/
inductive Outline where
  | mk (data : OutlineData) (inputs : List InputOutline) (bodies : List BodyOutline)

/-- An input: at most one block, and at most one shadow. -/
inductive InputOutline where
  | mk (name : String) (isValue : defaultSocketKind name = .value) (block shadow : Option Outline)

/-- A body: blocks that follow one another. -/
inductive BodyOutline where
  | mk (name : String) (blocks : List Outline)

end

namespace Outline

mutual

def block : Outline → Block
  | mk data inputs bodies => .mk data.blockData (inputSockets inputs ++ bodySockets bodies)

def inputSockets : List InputOutline → List Socket
  | [] => []
  | .mk name _ block shadow :: rest =>
    .mk name .value (optionalStack block) (optionalStack shadow) :: inputSockets rest

def optionalStack : Option Outline → Stack
  | none => []
  | some o => [o.block]

def bodySockets : List BodyOutline → List Socket
  | [] => []
  | .mk name blocks :: rest => .mk name .statement (stack blocks) [] :: bodySockets rest

def stack : List Outline → Stack
  | [] => []
  | o :: os => o.block :: stack os

end

mutual

/-- All extra state describes mutations. -/
def Readable : Outline → Prop
  | mk data inputs bodies => data.mutation?.isSome = true ∧ InputsReadable inputs ∧ BodiesReadable bodies

def InputsReadable : List InputOutline → Prop
  | [] => True
  | .mk _ _ block shadow :: rest => (OptionalReadable block ∧ OptionalReadable shadow) ∧ InputsReadable rest

def OptionalReadable : Option Outline → Prop
  | none => True
  | some o => o.Readable

def BodiesReadable : List BodyOutline → Prop
  | [] => True
  | .mk _ blocks :: rest => StackReadable blocks ∧ BodiesReadable rest

def StackReadable : List Outline → Prop
  | [] => True
  | o :: os => o.Readable ∧ StackReadable os

end

/-! ### Blocks in JSON -/

/-- A connection in JSON: a block and a shadow, each of which may be missing. -/
def connection (block shadow : Option Json) : Json :=
  .object ((block.map fun v => ("block", v)).toList ++ (shadow.map fun v => ("shadow", v)).toList)

mutual

/-- The object that describes a block, and what follows it, in JSON. -/
def json (following : Option Json) : Outline → Json
  | mk data inputs bodies => .object (data.members ++
      ([("inputs", .object (inputMembers inputs)), ("statements", .object (bodyMembers bodies))] ++
        (following.map fun v => ("next", connection (some v) none)).toList))

def inputMembers : List InputOutline → List (String × Json)
  | [] => []
  | .mk name _ block shadow :: rest =>
    (name, connection (optionalJson block) (optionalJson shadow)) :: inputMembers rest

def optionalJson : Option Outline → Option Json
  | none => none
  | some o => some (o.json none)

def bodyMembers : List BodyOutline → List (String × Json)
  | [] => []
  | .mk name blocks :: rest => (name, connection (stackJson blocks) none) :: bodyMembers rest

/-- Blocks that follow one another, each in the description of the one before it. -/
def stackJson : List Outline → Option Json
  | [] => none
  | o :: os => some (o.json (stackJson os))

end

/-! ### Blocks in configuration documents -/

mutual

/-- A section of the given type describes a block. -/
def Written (sectionType : String) : Outline → Hcl.Section L.Expr → Prop
  | mk data inputs bodies, s => s.type = sectionType ∧ s.labels = [data.type] ∧ data.Written s.attributes ∧
      ∃ values statements, s.sections = values ++ statements ∧ InputsWritten inputs values ∧
        BodiesWritten bodies statements

def InputsWritten : List InputOutline → List (Hcl.Section L.Expr) → Prop
  | [], ss => ss = []
  | .mk name _ block shadow :: rest, ss => ∃ start blocks shadows others,
      ss = .mk "value" [name] start [] (blocks ++ shadows) :: others ∧ OptionalWritten "block" block blocks ∧
        OptionalWritten "shadow" shadow shadows ∧ InputsWritten rest others

/-- Sections of the given type that describe at most one block. -/
def OptionalWritten (sectionType : String) : Option Outline → List (Hcl.Section L.Expr) → Prop
  | none, ss => ss = []
  | some o, ss => ∃ s, ss = [s] ∧ o.Written sectionType s

def BodiesWritten : List BodyOutline → List (Hcl.Section L.Expr) → Prop
  | [], ss => ss = []
  | .mk name blocks :: rest, ss => ∃ start sections others,
      ss = .mk "statement" [name] start [] sections :: others ∧ StackWritten blocks sections ∧
        BodiesWritten rest others

/-- Sections that describe blocks that follow one another. -/
def StackWritten : List Outline → List (Hcl.Section L.Expr) → Prop
  | [], ss => ss = []
  | o :: os, ss => ∃ s others, ss = s :: others ∧ o.Written "block" s ∧ StackWritten os others

end

end Outline

/-! ### Workspaces -/

/-- A forest of blocks, none of its stacks empty, and the variables. -/
structure WorkspaceOutline where
  forest : List (Outline × List Outline)
  vars : List Variable := []
  developerVariables : List String := []

namespace WorkspaceOutline

def workspace (w : WorkspaceOutline) : Workspace where
  tops := w.forest.map fun s => Outline.stack (s.1 :: s.2)
  vars := w.vars
  developerVariables := w.developerVariables

/-- All extra state describes mutations. -/
def Readable (w : WorkspaceOutline) : Prop := ∀ s ∈ w.forest, Outline.StackReadable (s.1 :: s.2)

def variableJson (v : Variable) : Json :=
  .object [("name", .string v.name), ("id", .string v.id), ("type", .string v.type)]

/-- A JSON document describes a workspace. The texts of its lists do not matter. -/
def WrittenAsJson (w : WorkspaceOutline) (json : Json) : Prop :=
  ∃ blocks vars developerVariables, json = .object
    [("blocks", .object
       [("blocks", .array (w.forest.map fun s => s.1.json (Outline.stackJson s.2)) blocks)]),
     ("variables", .array (w.vars.map variableJson) vars),
     ("developerVariables", .array (w.developerVariables.map .string) developerVariables)]

structure VariableWritten (v : Variable) (s : Hcl.Section L.Expr) : Prop where
  type : s.type = "variable"
  labels : s.labels = [v.id]
  names : ∀ a ∈ s.attributes, a.name ∈ Hcl.variableShape.attributes
  sections : s.sections = []
  name : Hcl.Says s.attributes "name" (v.name = v.id) (Hcl.Gives · (.string v.name))
  kind : Hcl.Says s.attributes "type" (v.type = "") (Hcl.Gives · (.string v.type))

/-- A section describes a stack: a block that stands alone, or a stack of them. -/
def StackWritten (stack : Outline × List Outline) (s : Hcl.Section L.Expr) : Prop :=
  stack.2 = [] ∧ stack.1.Written "block" s ∨
    s.type = "stack" ∧ s.labels = [] ∧ s.attributes = [] ∧ Outline.StackWritten (stack.1 :: stack.2) s.sections

def WrittenAsBody (w : WorkspaceOutline) (body : Hcl.Body L.Expr) : Prop :=
  body.attributes = [] ∧ ∃ vars developerVariables forest,
    body.sections = vars ++ (developerVariables ++ forest) ∧
      List.Forall₂ VariableWritten w.vars vars ∧
      List.Forall₂ (fun name s => s.type = "developer_variable" ∧ s.labels = [name]) w.developerVariables
        developerVariables ∧
      List.Forall₂ StackWritten w.forest forest

end WorkspaceOutline

end BlockProgram
