/-! Markup elements: the small part of XML in which old documents write the shape of a block. -/
namespace BlockProgram.Markup

structure Name where
  space : String
  base : String
deriving DecidableEq, Inhabited

/-- An element with its attributes in order and the elements directly inside it. Text is left
out. -/
inductive Element where
  | mk (name : Name) (attributes : List (Name × String)) (children : List Element)

inductive Fault where
  | malformed
  | noElement
  | version (spelled : String)
  | encoding (spelled : String)
  | notWhole (key : String)
deriving DecidableEq

namespace Element

def name : Element → Name
  | mk n _ _ => n

def attributes : Element → List (Name × String)
  | mk _ as _ => as

def children : Element → List Element
  | mk _ _ es => es

/-- The value of the last attribute with this name, whatever stands before the colon. -/
def attribute? (e : Element) (base : String) : Option String :=
  (e.attributes.reverse.find? (·.1.base = base)).map (·.2)

end Element

end BlockProgram.Markup
