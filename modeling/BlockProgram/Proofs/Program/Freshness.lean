import BlockProgram.Proofs.Emission.Grouping
import BlockProgram.Proofs.Program.Start

/-! # Names that are made up are fresh

Temporaries and helper functions are given names that are made up.  The history of a run, from its
start on, has a line for every identifier handed out, and tells the made-up ones from the looked-up
ones.  A made-up name differs from everything before it, from everything after it in its own
category, and from all other made-up names (`Generator.fresh_of_run`).  It may be met again after it
in another category: a procedure is looked up among procedures only
(`Workspace.procedure_named_as_temporary`).
-/
namespace BlockProgram

open NameTable (Handed Recorded Covers)

/-- What the identifiers of a history owe to one that was made up: those before it all differ from
it, and so do those after it that are of its category or were made up too. -/
def NameTable.Handed.Fresh (before : List Handed) (x : Handed) (later : List Handed) : Prop :=
  (∀ y ∈ before, y.text ≠ x.text) ∧
    ∀ y ∈ later, y.category = x.category ∨ y.logical = none → y.text ≠ x.text

theorem NameTable.Handed.fresh_of_pairwise {before later : List Handed} {x : Handed}
    (h : (before ++ x :: later).Pairwise Handed.Apart) (hx : x.logical = none) : x.Fresh before later := by
  obtain ⟨-, hlater, hbefore⟩ := List.pairwise_append.mp h
  constructor
  · intro y hy
    exact (hbefore y hy x List.mem_cons_self).1 hx
  · intro y hy hyx
    have hapart : x.Apart y := (List.pairwise_cons.mp hlater).1 y hy
    rcases hyx with hcategory | hmade
    · exact (hapart.2 hx hcategory.symm).symm
    · exact (hapart.1 hmade).symm

namespace Generator

/-- The history of a run up to a point: what the start hands out, and what the actions since do. -/
def history (g : Generator) (w : Workspace) (actions : List Action) : List Handed :=
  g.opening w ++ (g.start w).handed g.setting actions

/-- **Names that are made up are fresh.** Whatever the workspace, a run is nothing but actions.  At
any point of it the identifiers in use are those of its history, and every one in the history that
was made up for a temporary or a helper function differs from all before it in whatever category,
from all after it in its category, and from all others that are made up. -/
theorem fresh_of_run (reserved : List String) (options : Options) (w : Workspace) :
    let g : Generator := { reserved := reserved, options := options }
    (∃ actions, (g.program w g.setting (g.start w)).2 = (g.start w).after g.setting actions) ∧
    ∀ actions,
      (∀ category word, (category, word) ∈ ((g.start w).after g.setting actions).names.taken ↔
        ∃ x ∈ g.history w actions, x.category = category ∧ x.text = word) ∧
      ∀ before x later, g.history w actions = before ++ x :: later → x.logical = none → x.Fresh before later := by
  intro g
  have hacts : Acts g.setting (g.program w) := acts_program rfl w
  refine ⟨hacts.exists_actions (g.start w), fun actions => ?_⟩
  have hrecorded : Recorded reserved ⟨((g.start w).after g.setting actions).names, g.history w actions⟩ :=
    Run.recorded_after (g.recorded_start w) actions
  have hcovers : Covers (g.history w actions) ((g.start w).after g.setting actions).names :=
    Run.covers_after (g.covers_start w) (g.sound_start w) actions
  refine ⟨fun category word => ⟨fun hword => ?_, ?_⟩, fun before x later hsplit hx => ?_⟩
  · obtain ⟨x, hx, heq⟩ := hcovers _ hword
    exact ⟨x, hx, congrArg Prod.fst heq, congrArg Prod.snd heq⟩
  · rintro ⟨x, hx, rfl, rfl⟩
    exact hrecorded.handed_taken x hx
  · have hapart : (g.history w actions).Pairwise Handed.Apart := hrecorded.apart
    rw [hsplit] at hapart
    exact Handed.fresh_of_pairwise hapart hx

end Generator

deriving instance DecidableEq for NameTable, Run

/-- Two loops with a counter each, and between them a variable that has the name the counters are
made up from. -/
def Workspace.countersAroundCount : Workspace where
  tops := [[Block.simple "controls_repeat" [("TIMES", "2")] [],
    Block.simple "variables_set" [("VAR", "count")] [],
    Block.simple "controls_repeat" [("TIMES", "2")] []]]

def Workspace.countersAroundCountActions : List Action :=
  [.enter (Block.simple "controls_repeat" [("TIMES", "2")] []).data, .freshVariable "count",
    .enter (Block.simple "variables_set" [("VAR", "count")] []).data, .variableName "count",
    .enter (Block.simple "controls_repeat" [("TIMES", "2")] []).data, .freshVariable "count"]

theorem Generator.fresh_of_run_countersAroundCount :
    let g : Generator := {}
    let w := Workspace.countersAroundCount
    let actions := Workspace.countersAroundCountActions
    let first : Handed := ⟨.userVariable, none, "count"⟩
    let between : Handed := ⟨.userVariable, some "count", "count2"⟩
    let last : Handed := ⟨.userVariable, none, "count3"⟩
    (g.program w g.setting (g.start w)).2 = (g.start w).after g.setting actions ∧
    g.history w actions = [first, between, last] ∧
    first.Fresh [] [between, last] ∧ last.Fresh [first, between] [] := by
  intro g w actions first between last
  have hrun : (g.program w g.setting (g.start w)).2 = (g.start w).after g.setting actions := by
    decide +kernel
  have hhistory : g.history w actions = [first, between, last] := by decide +kernel
  have hfresh := ((fresh_of_run reservedWords {} w).2 actions).2
  exact ⟨hrun, hhistory, hfresh [] first [between, last] hhistory rfl, hfresh [first, between] last [] hhistory rfl⟩

/-- A stack that sets the last item of a list, which is held in a temporary, and then calls a
procedure. The procedure has the name that the temporary is made up from. -/
def Workspace.temporaryThenCall : Workspace where
  tops := [[Block.simple "lists_setIndex" [("MODE", "SET"), ("WHERE", "LAST")] [],
    Block.simple "procedures_callnoreturn" [("NAME", "tmp_list")] []]]

def Workspace.temporaryThenCallActions : List Action :=
  [.enter (Block.simple "lists_setIndex" [("MODE", "SET"), ("WHERE", "LAST")] []).data,
    .freshVariable "tmp_list",
    .enter (Block.simple "procedures_callnoreturn" [("NAME", "tmp_list")] []).data,
    .procedureName "tmp_list"]

/-- A procedure that is looked up after a temporary was made up may be given the name of the
temporary: the program below declares a list and calls it. -/
theorem Workspace.procedure_named_as_temporary :
    let g : Generator := {}
    (g.program temporaryThenCall g.setting (g.start temporaryThenCall)).2 =
      (g.start temporaryThenCall).after g.setting temporaryThenCallActions ∧
    g.history temporaryThenCall temporaryThenCallActions =
      [⟨.userVariable, none, "tmp_list"⟩, ⟨.procedure, some "tmp_list", "tmp_list"⟩] ∧
    (g.generate temporaryThenCall).toOption.map (·.code) = some
      "main() \x7b\n    List tmp_list = [];\n    tmp_list[tmp_list.length - 1] = null;\n    tmp_list();\n\x7d" := by
  decide +kernel

end BlockProgram
