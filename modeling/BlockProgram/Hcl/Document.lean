import BlockProgram.Hcl.Token

/-! Configuration documents: bodies with attributes and with sections, which have labels and bodies
in turn. A `Schema` says which of them a body may have. -/
namespace BlockProgram.Hcl

variable {E : Type}

/-- A named expression, and where the expression starts. -/
structure Attribute (E : Type) where
  name : String
  expr : E
  start : Pos

/-- A section: its type, its labels, where it starts, and its body. -/
inductive Section (E : Type) where
  | mk (type : String) (labels : List String) (start : Pos) (attributes : List (Attribute E))
      (sections : List (Section E))

namespace Section

def type : Section E → String | mk t _ _ _ _ => t

def labels : Section E → List String | mk _ ls _ _ _ => ls

def start : Section E → Pos | mk _ _ p _ _ => p

def attributes : Section E → List (Attribute E) | mk _ _ _ as _ => as

def sections : Section E → List (Section E) | mk _ _ _ _ ss => ss

end Section

/-- A body: attributes, each name once, and sections in order. -/
structure Body (E : Type) where
  attributes : List (Attribute E) := []
  sections : List (Section E) := []

def attribute? (name : String) (as : List (Attribute E)) : Option (Attribute E) :=
  as.find? (·.name == name)

/-- The attributes a body may have, and the sections, with the number of their labels. -/
structure Schema where
  attributes : List String := []
  sections : List (String × Nat) := []

end BlockProgram.Hcl
