import BlockProgram.Hcl.Document
import BlockProgram.Hcl.Parser

/-! Reading the bodies of configuration documents. -/
namespace BlockProgram.Hcl

/-- Reads a text in quotes that has no sequences in it, after its opening quote. -/
def labelText : Tokens → Except Pos ((List Char) × Tokens)
  | ⟨.closeQuote, _⟩ :: rest => .ok ([], rest)
  | ⟨.quotedText cs, p⟩ :: rest =>
    match unescape true cs with
    | none => .error p
    | some cs =>
      match labelText rest with
      | .ok (ds, rest) => .ok (cs ++ ds, rest)
      | .error p => .error p
  | ts => fault ts

/-- Reads labels, up to and with the opening brace. The fuel is the number of tokens. -/
def labelList : Nat → Tokens → Except Pos ((List String) × Tokens)
  | 0, ts => fault ts
  | fuel + 1, ts =>
    match ts with
    | ⟨.sign .openBrace, _⟩ :: rest => .ok ([], rest)
    | ⟨.openQuote, _⟩ :: rest => do
      let (cs, rest) ← labelText rest
      let (ls, rest) ← labelList fuel rest
      return (String.ofList cs :: ls, rest)
    | ⟨.word name, _⟩ :: rest => do
      let (ls, rest) ← labelList fuel rest
      return (name :: ls, rest)
    | ts => fault ts

def attributeValue (fuel : Nat) (name : String) (ts : Tokens) : Except Pos (Attribute Expr × Tokens) := do
  let (e, rest) ← expression fuel true ts
  return (⟨name, e, placeOf ts⟩, rest)

def lineEnd : Tokens → Except Pos Tokens
  | ⟨.newline, _⟩ :: rest => .ok rest
  | ⟨.finish, p⟩ :: _ => .ok [⟨.finish, p⟩]
  | ts => .error (placeOf ts)

mutual

/-- Reads the items of a body up to a closing brace, or for the whole document up to its end. -/
def bodyItems : Nat → Bool → Body Expr → Tokens → Except Pos (Body Expr × Tokens)
  | 0, _, _, ts => fault ts
  | fuel + 1, inner, body, ts =>
    match ts with
    | ⟨.newline, _⟩ :: rest => bodyItems fuel inner body rest
    | ⟨.sign .closeBrace, p⟩ :: rest => if inner then .ok (body, rest) else .error p
    | ⟨.finish, p⟩ :: rest => if inner then .error p else .ok (body, rest)
    | ⟨.word name, p⟩ :: ⟨.sign .assign, _⟩ :: rest => do
      let (a, rest) ← attributeValue fuel name rest
      let rest ← lineEnd rest
      if (attribute? name body.attributes).isSome then throw p
      else bodyItems fuel inner { body with attributes := body.attributes ++ [a] } rest
    | ⟨.word type, p⟩ :: rest => do
      let (s, rest) ← sectionBody fuel type p rest
      let rest ← lineEnd rest
      bodyItems fuel inner { body with sections := body.sections ++ [s] } rest
    | ts => fault ts

/-- Reads the labels and the body of a section. On one line the body may hold one attribute. -/
def sectionBody : Nat → String → Pos → Tokens → Except Pos (Section Expr × Tokens)
  | 0, _, _, ts => fault ts
  | fuel + 1, type, p, ts => do
    let (labels, rest) ← labelList (ts.length + 1) ts
    match rest with
    | ⟨.word name, _⟩ :: ⟨.sign .assign, _⟩ :: rest =>
      let (a, rest) ← attributeValue fuel name rest
      let rest ← expect true .closeBrace rest
      return (.mk type labels p [a] [], rest)
    | ⟨.newline, _⟩ :: _ =>
      let (body, rest) ← bodyItems fuel true {} rest
      return (.mk type labels p body.attributes body.sections, rest)
    | ⟨.sign .closeBrace, _⟩ :: rest => return (.mk type labels p [] [], rest)
    | rest => fault rest

end

/-- Reads a document; a fault is told by its place. No call takes more than a dozen others without a
token between them, which gives the fuel. -/
def Body.read (text : String) : Except Pos (Body Expr) :=
  let ts := scan text
  match ts.find? (·.token == .stray) with
  | some t => .error t.start
  | none =>
    match bodyItems (16 * (ts.length + 1)) false {} ts with
    | .ok (body, _) => .ok body
    | .error p => .error p

def Schema.allows (s : Schema) (attributes : List (Attribute Expr)) (sections : List (Section Expr)) :
    Bool :=
  attributes.all (fun a => s.attributes.contains a.name) &&
    sections.all fun x => s.sections.contains (x.type, x.labels.length)

end BlockProgram.Hcl
