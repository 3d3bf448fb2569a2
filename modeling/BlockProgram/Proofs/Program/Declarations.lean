import BlockProgram.Proofs.Program.Start
import BlockProgram.Workspace.Check

/-! # What a program declares

A program opens with one definition that declares its variables.  The words in it are fixed before
the first block is emitted, while the identifiers of variables are looked up throughout the run.
They agree at every point (`Generator.declared_at_every_point`): the definition stays, every name
that was given a word at the start keeps it, and every variable that a block refers to was given
one.  The words come in a fixed order: the variables of the developer, then the ids that blocks
mention, each where it is first mentioned.

Ids are told apart exactly, but words are given to names whatever their case and to each category by
itself, so the words may repeat.  `Generator.declared_nodup_iff` says when they do not.
-/
namespace BlockProgram

open List

/-! ### Variables in use -/

def Param.reference (p : Param) : String := if p.id = "" then p.name else p.id

/-- The ids of variables that a block mentions: those its fields refer to, and those of the
parameters it defines. -/
def BlockData.mentions (b : BlockData) : List String :=
  (b.fields.map (·.variableId)).filter (· ≠ "") ++
    if b.isProcedureDefinition then b.mutation.params.map Param.reference else []

theorem BlockData.mem_mentions {b : BlockData} {id : String} :
    id ∈ b.mentions ↔ (∃ f ∈ b.fields, f.variableId ≠ "" ∧ f.variableId = id) ∨
      b.isProcedureDefinition = true ∧ ∃ p ∈ b.mutation.params, p.reference = id := by
  unfold mentions
  rw [mem_append]
  refine or_congr ?_ ?_
  · simp only [mem_filter, mem_map, decide_eq_true_eq]
    grind
  · split <;> simp [*]

namespace Workspace

def mentions (w : Workspace) : List String := w.everyBlock.flatMap fun b => b.data.mentions

theorem id_lookup_getD (w : Workspace) (id name type : String) : ((w.lookup? id).getD ⟨id, name, type⟩).id = id := by
  cases hlookup : w.lookup? id with
  | none => rfl
  | some v =>
    simpa using List.find?_some hlookup

theorem map_id_mentioned (w : Workspace) (b : BlockData) : (w.mentioned b).map (·.id) = b.mentions := by
  unfold mentioned BlockData.mentions
  rw [map_append]
  congr 1
  · induction b.fields with
    | nil => rfl
    | cons f fields ih =>
      by_cases hempty : f.variableId = ""
      · simpa [filterMap_cons, hempty] using ih
      · simp only [filterMap_cons, hempty, if_false, map_cons, ne_eq, not_false_eq_true,
          decide_true, filter_cons_of_pos, id_lookup_getD, ih]
  · split
    · rw [map_map]
      refine map_congr_left fun p _ => ?_
      exact w.id_lookup_getD _ _ _
    · rfl

/-- Adding the variables that are new adds the ids that are new, each once. -/
theorem map_id_addNew (known vs : List Variable) : (addNew known vs).map (·.id) =
      known.map (·.id) ++ ((vs.map (·.id)).removeAll (known.map (·.id))).eraseDups := by
  induction vs generalizing known with
  | nil => simp [addNew]
  | cons v vs ih =>
    have hany : known.any (fun u => decide (u.id = v.id)) = true ↔ v.id ∈ known.map (·.id) := by
      simp [any_eq_true]
    unfold addNew
    by_cases hknown : v.id ∈ known.map (·.id)
    · rw [if_pos (hany.mpr hknown), ih known, map_cons, cons_removeAll]
      simp [hknown]
    · have hhead : ((v :: vs).map (·.id)).removeAll (known.map (·.id)) =
          v.id :: (vs.map (·.id)).removeAll (known.map (·.id)) := by
        rw [map_cons, cons_removeAll]
        simp [hknown]
      -- what is left of the rest is what is left of it once the new id is known as well
      have hrest : ((vs.map (·.id)).removeAll (known.map (·.id))).filter (fun id => !id == v.id) =
          (vs.map (·.id)).removeAll ((known ++ [v]).map (·.id)) := by
        unfold List.removeAll
        rw [filter_filter]
        refine filter_congr fun id _ => ?_
        by_cases hid : id = v.id <;> simp [hid]
      rw [if_neg (fun h => hknown (hany.mp h)), ih (known ++ [v]), hhead, eraseDups_cons, hrest]
      simp

/-- **The variables in use are those mentioned, each where it is first mentioned.** -/
theorem usedIds_eq (w : Workspace) : w.usedIds = w.mentions.eraseDups := by
  unfold usedIds usedVariables mentions
  rw [map_id_addNew, map_flatMap]
  simp [map_id_mentioned]

theorem mem_usedIds (w : Workspace) {id : String} : id ∈ w.usedIds ↔ ∃ b ∈ w.everyBlock, id ∈ b.data.mentions := by
  rw [usedIds_eq, mem_eraseDups]
  exact mem_flatMap

end Workspace

/-! ### Definitions stay -/

/-- Code under a key stays under it, whatever is stored afterwards. -/
theorem Definitions.get?_put_of_some {ds : Definitions} {key code : String}
    (h : ds.get? key = some code) (other otherCode : String) : (ds.put other otherCode).get? key = some code := by
  unfold put
  cases ds.get? other with
  | some _ => exact h
  | none =>
    obtain ⟨d, hfind, rfl⟩ := Option.map_eq_some_iff.mp h
    unfold get?
    rw [List.find?_append, hfind]
    rfl

namespace Run

variable {setting : Setting} {r : Run} {key code : String}

theorem get?_definitions_act (h : r.definitions.get? key = some code) (a : Action) :
    (r.act setting a).definitions.get? key = some code := by
  cases a with
  | variableName | procedureName | freshVariable | openPanel | enter => exact h
  | addHelper other lines =>
    dsimp only [act]
    rcases addHelper_cases setting other lines r with ⟨name, -, -, heq⟩ | ⟨-, slot, stored, heq⟩
    · rw [heq]
      exact h
    · rw [heq]
      exact Definitions.get?_put_of_some h slot stored
  | define other stored => exact Definitions.get?_put_of_some h other stored
  | addWidget name stored =>
    obtain ⟨panels, hpanels⟩ := addWidget_eq setting name stored r
    dsimp only [act]
    rw [hpanels]
    exact h
  | fail kind block detail =>
    dsimp only [act]
    rw [(fail_eq setting kind block detail r).2.2.2]
    exact h

/-- **A definition stays for the rest of the run.** -/
theorem get?_definitions_after (h : r.definitions.get? key = some code) (actions : List Action) :
    (r.after setting actions).definitions.get? key = some code := by
  induction actions generalizing r with
  | nil => exact h
  | cons a actions ih => exact ih (get?_definitions_act h a)

end Run

/-! ### Words that are declared -/

namespace Generator

section

variable {c : Category} {t t' : NameTable} {xs : List String}

/-- A lookup of a name that was given its word changes nothing. -/
theorem get_snd_of_mem (hc : c.Known) (h : t.Sound) (hlater : (nameAll c xs t).2.Grows t') {x : String}
    (hx : x ∈ xs) : (t'.get x c).2 = t' := by
  induction xs generalizing t with
  | nil => cases hx
  | cons y xs ih =>
    rcases mem_cons.mp hx with rfl | hx
    · have hgrows : (t.get x c).2.Grows t' := (grows_nameAll hc xs (h.get hc x)).trans hlater
      rw [NameTable.Grows.get_eq h hc hgrows]
    · exact ih (h.get hc y) hlater hx

/-- The words of several names are all different exactly when the names are, whatever their case. -/
theorem nodup_nameAll_iff (hc : c.Known) (h : t.Sound) (xs : List String) :
    (nameAll c xs t).1.Nodup ↔ (xs.map fun x => Text.lower (t.resolve x c)).Nodup := by
  have hgrows := grows_nameAll hc xs h
  have hlater := hgrows.sound.grows
  rw [nameAll_eq_map hc xs h hlater]
  unfold List.Nodup
  rw [pairwise_map, pairwise_map]
  refine List.Pairwise.iff_of_mem fun {x y} hx _ => not_congr ?_
  have hsame : ((nameAll c xs t).2.get x c).2.Grows (nameAll c xs t).2 := by
    rw [get_snd_of_mem hc h hlater hx]
    exact hlater
  rw [NameTable.Grows.get_eq_get_iff hgrows.sound hc hsame, hgrows.resolve, hgrows.resolve]

end

variable (g : Generator) (w : Workspace)

/-- **The words that are declared are those of the variables**, at any later point. -/
theorem declared_eq {t : NameTable} (h : (g.start w).names.Grows t) :
    g.declared w = w.developerVariables.map (fun x => (t.get x .developerVariable).1) ++
      w.usedIds.map fun id => (t.get id .userVariable).1 := by
  have hdeveloper := nameAll_eq_map (by decide) _ (g.sound_blank w) ((g.grows_start w).trans h)
  have huser := nameAll_eq_map (by decide) w.usedIds (g.sound_developed w) h
  unfold declared
  rw [hdeveloper, huser]

theorem get?_variables_start (h : g.declared w ≠ []) : (g.start w).definitions.get? "variables" =
      some ("var " ++ Text.join ", " (g.declared w) ++ ";") := by
  rw [start_definitions, if_neg (by simpa using h)]
  rfl

/-- What holds of the declared words at a point of a run. -/
structure DeclaredAt (r : Run) : Prop where
  /-- The words stand in the definition, which is there if there are any. -/
  stored : g.declared w ≠ [] →
    r.definitions.get? "variables" = some ("var " ++ Text.join ", " (g.declared w) ++ ";")
  /-- They are those of the variables of the developer, in order, and then those of the ids that blocks
  mention, in order of first mention. -/
  ordered : g.declared w =
    w.developerVariables.map (fun x => (r.names.get x .developerVariable).1) ++
      w.mentions.eraseDups.map fun id => (Emit.variableName id g.setting r).1
  /-- A variable that a block refers to is among them. -/
  complete : ∀ b ∈ w.everyBlock, ∀ f ∈ b.data.fields, f.variableId ≠ "" →
    (Emit.variableName f.variableId g.setting r).1 ∈ g.declared w
  /-- Each is that of a variable of the developer, or that of a variable that a block refers to or defines as
  a parameter. -/
  sources : ∀ word ∈ g.declared w,
    (∃ x ∈ w.developerVariables, (r.names.get x .developerVariable).1 = word) ∨
    ∃ b ∈ w.everyBlock,
      (∃ f ∈ b.data.fields, f.variableId ≠ "" ∧ (Emit.variableName f.variableId g.setting r).1 = word) ∨
      b.data.isProcedureDefinition = true ∧
        ∃ p ∈ b.data.mutation.params, (Emit.variableName p.reference g.setting r).1 = word

/-- **What a program declares are its variables, at every point of its run**, whatever has been
named and stored since the start. -/
theorem declared_at_every_point (actions : List Action) : g.DeclaredAt w ((g.start w).after g.setting actions) := by
  have hgrows : (g.start w).names.Grows ((g.start w).after g.setting actions).names :=
    Run.grows_after (g.sound_start w) actions
  have hdeclared := g.declared_eq w hgrows
  refine ⟨fun hsome => ?_, ?_, fun b hb f hf hne => ?_, fun word hword => ?_⟩
  · exact Run.get?_definitions_after (g.get?_variables_start w hsome) actions
  · rw [← w.usedIds_eq]
    exact hdeclared
  · have hmention : f.variableId ∈ b.data.mentions := BlockData.mem_mentions.mpr (.inl ⟨f, hf, hne, rfl⟩)
    rw [hdeclared]
    exact mem_append_right _ (mem_map_of_mem (w.mem_usedIds.mpr ⟨b, hb, hmention⟩))
  · rw [hdeclared] at hword
    rcases mem_append.mp hword with hword | hword
    · obtain ⟨x, hx, hxword⟩ := mem_map.mp hword
      exact .inl ⟨x, hx, hxword⟩
    · obtain ⟨id, hid, hidword⟩ := mem_map.mp hword
      obtain ⟨b, hb, hmention⟩ := w.mem_usedIds.mp hid
      refine .inr ⟨b, hb, ?_⟩
      rcases BlockData.mem_mentions.mp hmention with ⟨f, hf, hne, rfl⟩ | ⟨hdefinition, p, hp, rfl⟩
      · exact .inl ⟨f, hf, hne, hidword⟩
      · exact .inr ⟨hdefinition, p, hp, hidword⟩

/-- **When no word is declared twice.** The variables of the developer must differ in more than
case, and so must the names of the variables in use; and no variable of the developer may be given
the word of one in use. Variables in use with different ids may well have the same name. -/
theorem declared_nodup_iff : (g.declared w).Nodup ↔ (w.developerVariables.map Text.lower).Nodup ∧
      (w.usedIds.map fun id => Text.lower ((w.variableName? id).getD id)).Nodup ∧
      ∀ x ∈ w.developerVariables, ∀ id ∈ w.usedIds,
        ((g.start w).names.get x .developerVariable).1 ≠ ((g.start w).names.get id .userVariable).1 := by
  have hstart := (g.sound_start w).grows
  have hresolve (id : String) : (g.developed w).resolve id .userVariable = (w.variableName? id).getD id := by
    rw [← (g.grows_start w).resolve, g.resolve_eq w hstart]
  have hdeveloper : (nameAll .developerVariable w.developerVariables (g.blank w)).1.Nodup ↔
      (w.developerVariables.map Text.lower).Nodup :=
    nodup_nameAll_iff (by decide) (g.sound_blank w) w.developerVariables
  have huser := nodup_nameAll_iff (c := .userVariable) (by decide) (g.sound_developed w) w.usedIds
  simp only [hresolve] at huser
  have hdeveloperWords := nameAll_eq_map (by decide) _ (g.sound_blank w) (g.grows_start w)
  have huserWords := nameAll_eq_map (by decide) w.usedIds (g.sound_developed w) hstart
  unfold declared
  rw [nodup_append, hdeveloper, huser, hdeveloperWords, huserWords]
  simp only [forall_mem_map]

end Generator

/-- Two variables with one name, each set once. Their ids differ, so that nothing is wrong with
them. -/
def Workspace.twoVariablesOneName : Workspace where
  vars := [⟨"a", "x", ""⟩, ⟨"b", "x", ""⟩]
  tops := [[.mk { id := "1", type := "variables_set", fields := [⟨"VAR", "", "a"⟩] } [],
    .mk { id := "2", type := "variables_set", fields := [⟨"VAR", "", "b"⟩] } []]]

theorem Generator.declared_nodup_iff_twoVariablesOneName : Workspace.twoVariablesOneName.problems = [] ∧
    ¬ (({} : Generator).declared Workspace.twoVariablesOneName).Nodup ∧
    (({} : Generator).start Workspace.twoVariablesOneName).definitions = [⟨"variables", "var x, x;"⟩] := by
  refine ⟨by decide +kernel, fun hnodup => ?_, by decide +kernel⟩
  obtain ⟨-, hnames, -⟩ := (declared_nodup_iff {} Workspace.twoVariablesOneName).mp hnodup
  revert hnames
  decide +kernel

end BlockProgram
