import BlockProgram.Proofs.Program.Declarations

/-! # Parameters and the fields that refer to them

The header of a procedure looks its parameters up by name, and a field in its body refers to one by
id.  The id has its identifier from the start of the run on, since a definition mentions the ids of
its parameters. So it does not matter when the header is written and when the field is: they show
the same identifier exactly when id and name are resolved to the same name
(`Generator.parameter_bound_iff`).  That is so when the id is declared under the name of the
parameter.  The check of a workspace asks for less: it is content with an id that no variable
declares, as long as an enclosing definition has a parameter with it
(`Generator.parameter_bound_iff_undeclaredId`).
-/
namespace BlockProgram

namespace Vocabulary

theorem variableNames_eq (setting : Setting) (xs : List String) (r : Run) :
    variableNames xs setting r = ((Generator.nameAll .userVariable xs r.names).1,
      { r with names := (Generator.nameAll .userVariable xs r.names).2 }) := by
  induction xs generalizing r with
  | nil => rfl
  | cons x xs ih =>
    have hrest := ih { r with names := (r.names.get x .userVariable).2 }
    have hunfold : variableNames (x :: xs) setting r = (((r.names.get x .userVariable).1 ::
            (variableNames xs setting { r with names := (r.names.get x .userVariable).2 }).1),
          (variableNames xs setting { r with names := (r.names.get x .userVariable).2 }).2) := rfl
    rw [hunfold, hrest]
    rfl

/-- The header shows for each parameter the identifier its name has from then on. -/
theorem getElem?_parameterNames (s : Scene) (setting : Setting) {r : Run} (hr : r.names.Sound) {i : Nat}
    {p : Param} (hp : s.data.mutation.params[i]? = some p) : r.names.Grows (parameterNames s setting r).2.names ∧
    (parameterNames s setting r).1[i]? = some ((parameterNames s setting r).2.names.get p.name .userVariable).1 := by
  have hgrows := Generator.grows_nameAll (c := .userVariable) (by decide) s.data.paramNames hr
  have hwords := Generator.nameAll_eq_map (by decide) s.data.paramNames hr hgrows.sound.grows
  have hname : s.data.paramNames[i]? = some p.name := by
    unfold BlockData.paramNames
    rw [List.getElem?_map, hp]
    rfl
  unfold parameterNames
  rw [variableNames_eq]
  refine ⟨hgrows, ?_⟩
  rw [hwords, List.getElem?_map, hname]
  rfl

end Vocabulary

theorem BlockData.fieldValue_of_variableId {b : BlockData} {name : String} {f : Field}
    (hf : b.field? name = some f) (hne : f.variableId ≠ "") : b.fieldValue name = f.variableId := by
  unfold fieldValue
  rw [hf]
  exact if_pos hne

theorem Param.reference_eq_id {p : Param} (h : p.id ≠ "") : p.reference = p.id := if_neg h

namespace Generator

variable (g : Generator) (w : Workspace)

section

variable {id : String} (hid : id ∈ w.usedIds) {t : NameTable} (h : (g.start w).names.Grows t)
include hid h

theorem grows_get_of_mem_usedIds : ((g.start w).names.get id .userVariable).2.Grows t := by
  rw [get_snd_of_mem (by decide) (g.sound_developed w) (g.sound_start w).grows hid]
  exact h

/-- A variable in use has its identifier from the start on. -/
theorem get_of_mem_usedIds : t.get id .userVariable = (((g.start w).names.get id .userVariable).1, t) :=
  NameTable.Grows.get_eq (g.sound_start w) (by decide) (g.grows_get_of_mem_usedIds w hid h)

/-- Which lookups give the identifier of a variable in use. -/
theorem get_eq_iff_of_mem_usedIds (name : String) :
    ((g.start w).names.get id .userVariable).1 = (t.get name .userVariable).1 ↔
      Text.lower ((w.variableName? id).getD id) = Text.lower ((w.variableName? name).getD name) := by
  have hstart := (g.sound_start w).grows
  rw [NameTable.Grows.get_eq_get_iff (g.sound_start w) (by decide) (g.grows_get_of_mem_usedIds w hid h),
    g.resolve_eq w hstart, g.resolve_eq w hstart]

end

/-- The ids of its parameters are mentioned by a definition. -/
theorem id_mem_usedIds {definition : Block} (hd : definition ∈ w.everyBlock)
    (hkind : definition.data.isProcedureDefinition = true) {p : Param}
    (hp : p ∈ definition.data.mutation.params) (hid : p.id ≠ "") : p.id ∈ w.usedIds := by
  refine w.mem_usedIds.mpr ⟨definition, hd, BlockData.mem_mentions.mpr (.inr ⟨hkind, p, hp, ?_⟩)⟩
  exact Param.reference_eq_id hid

/-- **When a field shows the parameter it refers to.** Take a parameter with an id of a definition
in the workspace, and a field of a block that refers to the id.  The identifier in the header,
written at any point of a run, and that of the field, written at any other, are the same exactly
when the id and the name of the parameter stand for the same name, whatever its case; each stands
for the name it is declared with, and for itself if it is not declared. -/
theorem parameter_bound_iff (definition : Block) (hd : definition ∈ w.everyBlock)
    (hkind : definition.type = "procedures_defreturn" ∨ definition.type = "procedures_defnoreturn")
    {i : Nat} {p : Param} (hp : definition.data.mutation.params[i]? = some p) (hid : p.id ≠ "")
    (b : Block) (name : String) {f : Field} (hf : b.data.field? name = some f)
    (href : f.variableId = p.id) (place : Place) (header body : List Action) :
    (Vocabulary.parameterNames (definition.scene g.vocabulary place) g.setting
        ((g.start w).after g.setting header)).1[i]? =
      some (Emit.variableName (b.data.fieldValue name) g.setting ((g.start w).after g.setting body)).1 ↔
    Text.lower ((w.variableName? p.id).getD p.id) = Text.lower ((w.variableName? p.name).getD p.name) := by
  have hdefinition : definition.data.isProcedureDefinition = true := by
    unfold BlockData.isProcedureDefinition
    rcases hkind with hkind | hkind <;> simp [show definition.data.type = _ from hkind]
  have hused : p.id ∈ w.usedIds :=
    id_mem_usedIds w hd hdefinition (List.mem_of_getElem? hp) hid
  have hgrows (actions : List Action) : (g.start w).names.Grows ((g.start w).after g.setting actions).names :=
    Run.grows_after (g.sound_start w) actions
  have hfieldValue : b.data.fieldValue name = p.id :=
    (BlockData.fieldValue_of_variableId hf (href ▸ hid)).trans href
  obtain ⟨hwritten, hheader⟩ := Vocabulary.getElem?_parameterNames
    (definition.scene g.vocabulary place) g.setting (hgrows header).sound hp
  have hfield : (Emit.variableName p.id g.setting ((g.start w).after g.setting body)).1 =
      ((g.start w).names.get p.id .userVariable).1 :=
    congrArg Prod.fst (g.get_of_mem_usedIds w hused (hgrows body))
  rw [hfieldValue, hheader, hfield, Option.some.injEq, eq_comm]
  exact g.get_eq_iff_of_mem_usedIds w hused ((hgrows header).trans hwritten) p.name

end Generator

/-- A definition whose parameter has an id that no variable declares, and a body that sets it by
that id. -/
def Block.undeclaredParameter : Block :=
  .mk { id := "d", type := "procedures_defnoreturn", fields := [⟨"NAME", "f", ""⟩],
        mutation := { params := [⟨"p", "p1"⟩] } }
    [.mk "STACK" .statement
      [.mk { id := "s", type := "variables_set", fields := [⟨"VAR", "", "p1"⟩] } []] []]

/-- Nothing is wrong with the definition, and yet its body sets another variable than its
parameter. -/
theorem Generator.parameter_bound_iff_undeclaredId :
    let g : Generator := {}
    let w : Workspace := { tops := [[Block.undeclaredParameter]] }
    w.problems = [] ∧
    (∀ header body, (Vocabulary.parameterNames (Block.undeclaredParameter.scene g.vocabulary {}) g.setting
          ((g.start w).after g.setting header)).1[0]? ≠
        some (Emit.variableName "p1" g.setting ((g.start w).after g.setting body)).1) ∧
    (g.generate w).toOption.map (·.code) =
      some "var p1;\n\nvoid f(p) \x7b\n    p1 = 0;\n\x7d\n\nmain() \x7b\n\x7d" := by
  intro g w
  refine ⟨by decide +kernel, fun header body hsame => ?_, by decide +kernel⟩
  have hbound := (g.parameter_bound_iff w Block.undeclaredParameter List.mem_cons_self (.inr rfl)
    (i := 0) (p := ⟨"p", "p1"⟩) rfl (by decide)
    (.mk { id := "s", type := "variables_set", fields := [⟨"VAR", "", "p1"⟩] } []) "VAR" rfl rfl {}
    header body).mp hsame
  revert hbound
  decide +kernel

end BlockProgram
