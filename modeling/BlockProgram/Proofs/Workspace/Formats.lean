import BlockProgram.Proofs.Workspace.OutlineLoading
import BlockProgram.Proofs.Workspace.OutlineSections
import Mathlib

/-! # The two formats of workspaces

A workspace that is written as a JSON document and as a configuration document loads alike from
both: each loader gives the workspace that was outlined, and draws no ids.  If some extra state
describes no mutation, both loaders refuse.  That holds with every faithful library for
configuration documents.  Such a library may bring texts into a normal form, and then no
configuration document describes an outline with other texts.
-/
namespace BlockProgram

namespace WorkspaceOutline

variable {w : WorkspaceOutline} {text : String}

theorem ofJsonText_written {json : Json} {rest : List Char} (hread : Json.readFirst text = .ok (json, rest))
    (h : w.WrittenAsJson json) (ids : Ids) : (w.Readable → Workspace.ofJsonText text ids = (.ok w.workspace, ids)) ∧
      (¬ w.Readable → ∃ f, Workspace.ofJsonText text ids = (.error f, ids)) := by
  obtain ⟨document, hdocument, hload⟩ := load_json h
  have hrun : Workspace.ofJsonText text ids = document.load ids := by
    simp only [Workspace.ofJsonText, hread, hdocument]
  rw [hrun]
  exact hload ids

section

variable [L : Hcl.Library] {bytes : List UInt8}

theorem ofSections_written (hL : L.Faithful) {body : Hcl.Body L.Expr} (hread : L.read bytes = .ok body)
    (h : w.WrittenAsBody body) (ids : Ids) :
    (w.Readable → Workspace.ofSections bytes ids = (.ok w.workspace, ids)) ∧
      (¬ w.Readable → ∃ cs, cs ≠ [] ∧ Workspace.ofSections bytes ids = (.error (.complaints cs), ids)) := by
  obtain ⟨hallows, hreads⟩ := reads_workspace hL h
  obtain ⟨cs, hrun, hcs⟩ := hreads ⟨ids, []⟩
  rw [List.nil_append] at hrun
  unfold Workspace.ofSections
  simp only [hread, hallows, Bool.not_true, Bool.false_eq_true, if_false, hrun]
  refine ⟨fun hreadable => ?_, fun hfaulty => ?_⟩
  · rw [hcs.mpr hreadable]
    rfl
  · have hne : cs ≠ [] := fun hnil => hfaulty (hcs.mp hnil)
    refine ⟨cs, hne, ?_⟩
    rw [if_neg (by rwa [List.isEmpty_iff])]

end

/-! ### A document in both formats -/

namespace Sample

def origin : Coordinate where
  mantissa := 0
  exponent := 0
  double := .inl ⟨rfl, rfl⟩
  spelling := "0"
  decimal := ⟨0, 0⟩
  spelled := by decide +kernel
  exact := by simp [Number.Decimal.toRat]

def plain (id type : String) (id_ne : id ≠ "") : OutlineData where
  id := id
  id_ne := id_ne
  type := type
  x := origin
  y := origin
  disabled := false
  comment := ""
  fields := []
  references := []
  extra := .null
  extra_apart := trivial
  extra_depth := by decide

/-- A conditional that sets a variable in its else arm. -/
def outline : WorkspaceOutline where
  forest :=
    [(.mk { plain "a" "controls_if" (by decide) with
        extra := .object [("hasElse", .bool true)]
        extra_apart := by simp [Json.Apart, Json.KeysApart]
        extra_depth := by decide } []
      [.mk "ELSE"
        [.mk { plain "b" "variables_set" (by decide) with references := [("VAR", ⟨"v", by decide⟩)] } [] []]], [])]

def blocksText : String :=
  "[\x7b\"type\":\"controls_if\",\"id\":\"a\",\"x\":0,\"y\":0,\"enabled\":true,\"comment\":\"\",\"fields\":\x7b\x7d," ++
  "\"extraState\":\x7b\"hasElse\":true\x7d,\"inputs\":\x7b\x7d,\"statements\":\x7b\"ELSE\":\x7b\"block\":\x7b" ++
  "\"type\":\"variables_set\",\"id\":\"b\",\"x\":0,\"y\":0,\"enabled\":true,\"comment\":\"\"," ++
  "\"fields\":\x7b\"VAR\":\x7b\"id\":\"v\"\x7d\x7d,\"extraState\":null,\"inputs\":\x7b\x7d,\"statements\":\x7b\x7d" ++
  "\x7d\x7d\x7d\x7d]"

def jsonText : String :=
  "\x7b\"blocks\":\x7b\"blocks\":" ++ blocksText ++ "\x7d,\"variables\":[],\"developerVariables\":[]\x7d"

def bodyText : String :=
  "block \"controls_if\" \x7b\n  id = \"a\"\n  extra = \x7b hasElse = true \x7d\n  statement \"ELSE\" \x7b\n" ++
  "    block \"variables_set\" \x7b\n      id = \"b\"\n      vars = \x7b VAR = \"v\" \x7d\n    \x7d\n  \x7d\n\x7d\n"

set_option maxRecDepth 20000 in
theorem read_jsonText : Json.readFirst jsonText = .ok (.object [("blocks", .object
       [("blocks", .array (outline.forest.map fun s => s.1.json (Outline.stackJson s.2)) blocksText)]),
     ("variables", .array (outline.vars.map variableJson) "[]"),
     ("developerVariables", .array (outline.developerVariables.map .string) "[]")], []) := by
  -- A long literal is taken apart slowly, so it is cut first.
  unfold Json.readFirst jsonText blocksText
  simp only [String.toList_append]
  cbv

/-- The body that the configuration document is read as. -/
def body : Hcl.Body Hcl.standard.Expr where
  sections :=
    [.mk "block" ["controls_if"] {}
      [⟨"id", .template [.literal (.string "a")], { line := 2, column := 8 }⟩,
       ⟨"extra", .object [(.literal (.string "hasElse"), .literal (.bool true))], { line := 3, column := 11 }⟩]
      [.mk "statement" ["ELSE"] { line := 4, column := 3 } []
        [.mk "block" ["variables_set"] { line := 5, column := 5 }
          [⟨"id", .template [.literal (.string "b")], { line := 6, column := 12 }⟩,
           ⟨"vars", .object [(.literal (.string "VAR"), .template [.literal (.string "v")])],
             { line := 7, column := 14 }⟩] []]]]

/-- A document whose bytes are those of a text is read as the text, if all of it may be there. -/
theorem read_toUTF8 {text : String} (htext : Text.ofBytes text.toUTF8.toList = text)
    (hreadable : Hcl.isReadable text (Text.strayBytes text.toUTF8.toList.length text.toUTF8.toList) = true) :
    Hcl.Library.read text.toUTF8.toList = Hcl.Body.read text := by
  show Hcl.Body.ofBytes _ = _
  unfold Hcl.Body.ofBytes
  rw [htext, if_pos hreadable]

set_option maxRecDepth 20000 in
theorem read_bodyText : Hcl.standard.read bodyText.toUTF8.toList = .ok body := by
  have hbody : Hcl.Body.read bodyText = .ok body := by cbv
  rw [read_toUTF8 (by decide +kernel) (by decide +kernel), hbody]

theorem written_body : outline.WrittenAsBody body := by
  refine ⟨rfl, [], [], _, rfl, .nil, .nil, .cons (.inl ⟨rfl, ?_⟩) .nil⟩
  have hset : Outline.Written "block"
      (.mk { plain "b" "variables_set" (by decide) with references := [("VAR", ⟨"v", by decide⟩)] } [] [])
      (.mk "block" ["variables_set"] { line := 5, column := 5 }
        [⟨"id", .template [.literal (.string "b")], { line := 6, column := 12 }⟩,
         ⟨"vars", .object [(.literal (.string "VAR"), .template [.literal (.string "v")])],
           { line := 7, column := 14 }⟩] []) := by
    refine ⟨rfl, rfl, ⟨by decide, ?_, rfl, rfl, rfl, rfl, rfl, ?_, rfl⟩, [], [], rfl, rfl, rfl⟩
    · rfl
    · exact ⟨_, rfl, .cons ⟨rfl, _, rfl, rfl⟩ .nil⟩
  refine ⟨rfl, rfl, ⟨by decide, rfl, rfl, rfl, rfl, rfl, rfl, rfl, ?_⟩, [], _, rfl, rfl, _, _, _, rfl, ?_, rfl⟩
  · exact ⟨_, rfl, [("hasElse", .bool true)], .refl _, rfl, rfl, trivial⟩
  · exact ⟨_, _, rfl, hset, rfl⟩

end Sample

/-- The data of the blocks that were loaded, or nothing if the document was refused. -/
def loadedData {ε : Type} (result : Except ε Workspace × Ids) : Option (List (List BlockData)) :=
  result.1.toOption.map fun w => w.tops.map (·.map Block.data)

/-- What is loaded from a JSON document with one block, which has an id and one more member. -/
def fromJson (type further : String) : Option (List (List BlockData)) :=
  loadedData (Workspace.ofJsonText
    ("\x7b\"blocks\":\x7b\"blocks\":[\x7b\"type\":\"" ++ type ++ "\",\"id\":\"a\"," ++ further ++ "\x7d]\x7d\x7d") {})

/-- What is loaded from a configuration document with one block, which has an id and one more
attribute. -/
def fromSections (type further : String) : Option (List (List BlockData)) :=
  loadedData (Workspace.ofSections
    ("block \"" ++ type ++ "\" \x7b\n  id = \"a\"\n  " ++ further ++ "\n\x7d\n").toUTF8.toList {})

/-- The document is long, so that it is read step by step. -/
theorem fromSections_wide : fromSections "math_number" ("fields = \x7b NUM = " ++ toString (2 ^ 513) ++ " \x7d") ≠
    some [[{ type := "math_number", id := "a", fields := [⟨"NUM", toString (2 ^ 513), ""⟩] }]] := by
  rw [fromSections, Workspace.ofSections, Sample.read_toUTF8 (by decide +kernel) (by decide +kernel)]
  decide +kernel

end WorkspaceOutline

end BlockProgram
