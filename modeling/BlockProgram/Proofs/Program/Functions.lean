import BlockProgram.Proofs.Emission.Invariants
import BlockProgram.Proofs.Program.Declarations
import BlockProgram.Proofs.Program.Literals

/-! # Functions of a program

A procedure and the callback of a widget become functions of the program.  A function is stored
under its name, and the first one that is stored under a name stays; there is no word about the
others.  So no function gets lost as long as the names differ.  Procedures with names that differ in
more than case have functions with different names, and so have callbacks (`Names.disjoint`).  But a
procedure may have the name of the function that is made for a callback.  Unless that happens, every
definition in the workspace that is reached has a function of its own in the program
(`Generator.functions_kept`).
-/
namespace BlockProgram

open List Definitions

variable {name : String}

namespace Vocabulary

/-! ### Names of functions -/

/-- What the function of a definition with the identifier `word` may be called. -/
def Names (type word name : String) : Prop :=
  if isProcedure type then name = word
  else hasPath name.toList = false ∧ ∃ event ∈ ["show", "press"], name = callbackName word event

theorem replaceChars_of_not_hasPath {fuel : Nat} {cs : List Char}
    (h : hasPath (Text.replaceChars ['_', '_'] [':', ':'] fuel cs) = false) :
    Text.replaceChars ['_', '_'] [':', ':'] fuel cs = cs := by
  induction fuel generalizing cs with
  | zero => rfl
  | succ fuel ih =>
    cases cs with
    | nil => rfl
    | cons c cs =>
      unfold Text.replaceChars at h ⊢
      split at h
      · cases h
      · case isFalse hnot =>
        rw [if_neg hnot, ih ?_]
        unfold hasPath at h
        split at h
        · cases h
        · case h_2 heq => exact (List.cons.inj heq).2 ▸ h
        · case h_3 heq => cases heq

/-- A name without a path stands for itself. -/
theorem widgetName_of_not_hasPath (h : hasPath (widgetName name).toList = false) : widgetName name = name := by
  unfold widgetName Text.replaceAll at h ⊢
  rw [String.toList_ofList] at h
  have hsame : Text.replaceChars "__".toList "::".toList name.toList.length name.toList = name.toList :=
    replaceChars_of_not_hasPath h
  dsimp only
  rw [hsame, String.ofList_toList]

variable {setting : Setting} {s : Scene}

theorem delivers_callbackFunction (s : Scene) (word : String) :
    Delivers setting (callbackFunction s word) fun f => ∃ event ∈ ["show", "press"],
      hasPath (widgetName (callbackName word event)).toList = true ∧ f = none ∨
      hasPath (widgetName (callbackName word event)).toList = false ∧
        ∃ code, f = some (widgetName (callbackName word event), code) := by
  refine .bind fun o => .bind fun body => .bind fun value => ?_
  have hevent : (if value ≠ "" then "show" else "press") ∈ ["show", "press"] := by split <;> decide
  dsimp only
  generalize (if value ≠ "" then "show" else "press") = event at hevent ⊢
  by_cases hpath : hasPath (widgetName (callbackName word event)).toList = true
  · rw [if_pos hpath]
    exact .pure ⟨event, hevent, .inl ⟨hpath, rfl⟩⟩
  · rw [if_neg hpath]
    exact .bind fun params => .bind fun code => .pure ⟨event, hevent, .inr ⟨Bool.eq_false_iff.mpr hpath, code, rfl⟩⟩

def wordOf (r : Run) (d : BlockData) : String := (r.names.get (d.fieldValue "NAME") .procedure).1

theorem function?_apply (s : Scene) (r : Run) : function? s setting r =
    (if isProcedure s.data.type then procedureFunction s (wordOf r s.data) else callbackFunction s (wordOf r s.data))
      setting { r with names := (r.names.get (s.data.fieldValue "NAME") .procedure).2 } := rfl

/-- A definition without a function is a callback that the system has. -/
theorem function?_cases {r : Run} (hrunning : (function? s setting r).2.failure = none) :
    (∃ name code, (function? s setting r).1 = some (name, code) ∧ Names s.data.type (wordOf r s.data) name) ∨
      (function? s setting r).1 = none ∧ isProcedure s.data.type = false ∧
        ∃ event ∈ ["show", "press"], hasPath (widgetName (callbackName (wordOf r s.data) event)).toList = true := by
  rw [function?_apply] at hrunning ⊢
  unfold Names
  split
  · exact .inl ⟨_, _, rfl, rfl⟩
  · case isFalse hprocedure =>
    rw [if_neg hprocedure] at hrunning
    obtain ⟨event, hevent, ⟨hpath, hnone⟩ | ⟨hpath, code, hcode⟩⟩ := delivers_callbackFunction s _ _ hrunning
    · exact .inr ⟨hnone, Bool.eq_false_iff.mpr hprocedure, event, hevent, hpath⟩
    · exact .inl ⟨_, code, hcode, hpath, event, hevent, widgetName_of_not_hasPath hpath⟩

theorem callbackName_inj {word word' event event' : String} (hevent : event ∈ ["show", "press"])
    (hevent' : event' ∈ ["show", "press"]) (h : callbackName word event = callbackName word' event') : word = word' := by
  have hlast : (callbackName word event).toList.getLast? = (callbackName word' event').toList.getLast? := by rw [h]
  unfold callbackName at h hlast
  simp only [mem_cons, not_mem_nil, or_false] at hevent hevent'
  rcases hevent with rfl | rfl
  all_goals rcases hevent' with rfl | rfl
  · simpa [← String.toList_inj] using h
  · simp [String.toList_append, List.getLast?_cons, List.getLast?_append] at hlast
  · simp [String.toList_append, List.getLast?_cons, List.getLast?_append] at hlast
  · simpa [← String.toList_inj] using h

end Vocabulary

/-! ### Points of a run -/

/-- The run comes to the other one by some actions. -/
def Run.Reaches (setting : Setting) (r r' : Run) : Prop := ∃ actions, r' = r.after setting actions

variable {key code : String}

namespace Run.Reaches

variable {setting : Setting} {r r' r'' : Run}

theorem refl (r : Run) : r.Reaches setting r := ⟨[], rfl⟩

theorem trans (h : r.Reaches setting r') (h' : r'.Reaches setting r'') : r.Reaches setting r'' := by
  obtain ⟨first, rfl⟩ := h
  obtain ⟨second, rfl⟩ := h'
  exact ⟨first ++ second, (Run.after_append first second).symm⟩

theorem act (h : r.Reaches setting r') (a : Action) : r.Reaches setting (r'.act setting a) := h.trans ⟨[a], rfl⟩

theorem of_acts {α : Type} (x : Emit α) [hx : Acts setting x] (r : Run) : r.Reaches setting (x setting r).2 :=
  hx.exists_actions r

theorem grows (h : r.Reaches setting r') (hr : r.names.Sound) : r.names.Grows r'.names := by
  obtain ⟨actions, rfl⟩ := h
  exact Run.grows_after hr actions

theorem running (h : r.Reaches setting r') (hrunning : r'.failure = none) : r.failure = none := by
  obtain ⟨actions, rfl⟩ := h
  by_contra hfailed
  exact Run.failure_after hfailed actions hrunning

theorem get?_definitions (h : r.Reaches setting r') (hget : r.definitions.get? key = some code) :
    r'.definitions.get? key = some code := by
  obtain ⟨actions, rfl⟩ := h
  exact Run.get?_definitions_after hget actions

end Run.Reaches

namespace Vocabulary

variable {setting : Setting} {s : Scene} [hs : s.Open .standard setting]

/-- A definition keeps its identifier, from the point where its function is made on. -/
theorem wordOf_eq {r r' : Run} (hr : r.names.Sound) (h : (function? s setting r).2.Reaches setting r') :
    wordOf r' s.data = wordOf r s.data ∧ (r'.names.get (s.data.fieldValue "NAME") .procedure).2 = r'.names := by
  have hnamed : Run.Reaches setting { r with names := (r.names.get (s.data.fieldValue "NAME") .procedure).2 } r' := by
    refine .trans ?_ h
    exact .of_acts (if isProcedure s.data.type then procedureFunction s (wordOf r s.data)
      else callbackFunction s (wordOf r s.data)) _
  have hget := NameTable.Grows.get_eq hr (by decide) (hnamed.grows (hr.get (by decide) _))
  exact ⟨by unfold wordOf; rw [hget], congrArg Prod.snd hget⟩

end Vocabulary

variable {σ : Site} {d : Definition}

namespace Site

/-- The definition is the function of the block: it was made when the block had been entered, on the
way from `start` to `r`. -/
def Made (setting : Setting) (start : Run) (σ : Site) (d : Definition) (r : Run) : Prop :=
  ∃ r₀ name, start.Reaches setting r₀ ∧ r₀.dispatched.head? = some σ.block.data ∧
    (Vocabulary.function? σ.scene setting r₀).1 = some (name, d.code) ∧ d.key = "%" ++ name ∧
    (Vocabulary.function? σ.scene setting r₀).2.Reaches setting r

theorem Made.act {setting : Setting} {start r : Run} (h : σ.Made setting start d r)
    (a : Action) : σ.Made setting start d (r.act setting a) := by
  obtain ⟨r₀, name, hr₀, hentered, hfunction, hkey, hlater⟩ := h
  exact ⟨r₀, name, hr₀, hentered, hfunction, hkey, hlater.act a⟩

end Site

theorem Definitions.mem_put_cases {ds : Definitions} (h : d ∈ ds.put key code) :
    d ∈ ds ∨ key ∉ ds.map (·.key) ∧ d = ⟨key, code⟩ := by
  by_cases hkey : key ∈ ds.map (·.key)
  · rw [put_of_mem hkey] at h
    exact .inl h
  · rw [put_of_not_mem hkey, mem_append, mem_singleton] at h
    exact h.imp_right fun h => ⟨hkey, h⟩

/-- Once something is to be stored under a key, there is something under it. -/
theorem Definitions.exists_get?_put (ds : Definitions) (key code : String) :
    ∃ stored, (ds.put key code).get? key = some stored := by
  refine Option.isSome_iff_exists.mp (isSome_get?_iff.mpr ?_)
  rw [keys_put]
  split
  · assumption
  · exact mem_append_right _ mem_cons_self

/-- Neutral actions store no functions of blocks. -/
theorem Run.mem_definitions_of_act {setting : Setting} {r : Run} {a : Action} (ha : a.IsNeutral)
    (hd : d ∈ (r.act setting a).definitions) (hblock : d.isOfBlock = true) : d ∈ r.definitions := by
  have hput : ∀ key code, key.toList.head? ≠ some '%' → d ∈ r.definitions.put key code → d ∈ r.definitions := by
    intro key code hkey hd
    rcases mem_put_cases hd with hd | ⟨-, rfl⟩
    · exact hd
    · exact absurd (of_decide_eq_true hblock) hkey
  cases a with
  | variableName | procedureName | freshVariable | openPanel => exact hd
  | addHelper key lines =>
    dsimp only [act] at hd
    rw [addHelper_eq] at hd
    split at hd
    · exact hd
    · refine hput _ _ ?_ hd
      split
      · rw [Emit.divertedKey, String.toList_append]
        exact fun h => absurd (Option.some.inj h) (by decide)
      · exact ha
  | define key code => exact hput key code ha hd
  | addWidget name code =>
    obtain ⟨panels, heq⟩ := addWidget_eq setting name code r
    dsimp only [act] at hd
    rw [heq] at hd
    exact hd
  | enter | fail => exact ha.elim

/-- Every function of a block was made by a block at one of the sites. -/
def makers (setting : Setting) (start : Run) (At : Site → Prop) : Invariant setting where
  Holds r := start.Reaches setting r ∧ ∀ d ∈ r.definitions, d.isOfBlock = true →
    ∃ σ, At σ ∧ σ.IsDefiner ∧ σ.Made setting start d r
  act r a ha h := by
    refine ⟨h.1.act a, fun d hd hblock => ?_⟩
    obtain ⟨σ, hσ, hdefiner, hmade⟩ := h.2 d (Run.mem_definitions_of_act ha hd hblock) hblock
    exact ⟨σ, hσ, hdefiner, hmade.act a⟩

section

variable {setting : Setting} {start : Run} {At : Site → Prop}

theorem makers_enter {r : Run} (h : (makers setting start At).Holds r) :
    (makers setting start At).Holds { r with dispatched := σ.block.data :: r.dispatched } := by
  refine ⟨h.1.act (.enter σ.block.data), fun d hd hblock => ?_⟩
  obtain ⟨τ, hτ, hdefiner, hmade⟩ := h.2 d hd hblock
  exact ⟨τ, hτ, hdefiner, hmade.act (.enter σ.block.data)⟩

/-- A function that is stored was made by its block, or another one has its name already. -/
theorem makers_store (hσ : At σ) (hdefiner : σ.IsDefiner) {r₀ : Run} (hr₀ : start.Reaches setting r₀)
    (hentered : r₀.dispatched.head? = some σ.block.data)
    (h : (makers setting start At).Holds (Vocabulary.function? σ.scene setting r₀).2) :
    (makers setting start At).Holds (Vocabulary.storeFunction (Vocabulary.function? σ.scene setting r₀).1 setting
      (Vocabulary.function? σ.scene setting r₀).2).2 := by
  cases hfunction : (Vocabulary.function? σ.scene setting r₀).1 with
  | none => exact h
  | some f =>
    obtain ⟨name, code⟩ := f
    refine ⟨h.1.act (.define ("%" ++ name) code), fun d hd hblock => ?_⟩
    rcases mem_put_cases hd with hd | ⟨-, rfl⟩
    · obtain ⟨τ, hτ, hdefiner', hmade⟩ := h.2 d hd hblock
      exact ⟨τ, hτ, hdefiner', hmade.act (.define ("%" ++ name) code)⟩
    · exact ⟨σ, hσ, hdefiner, r₀, name, hr₀, hentered, hfunction, rfl, (Run.Reaches.refl _).act (.define ("%" ++ name) code)⟩

/-- **Functions are made by blocks at the sites.** -/
theorem admits_makers : Invariant.Admits (fun _ : Unit => makers setting start At) (fun _ _ i => i) At where
  enter _ _ _ _ h := makers_enter h
  store _ _ _ hσ hdefiner hr _ h := makers_store hσ hdefiner (makers_enter hr).1 rfl h
  leave _ _ _ _ _ _ _ _ h := h

end

/-! ### Stacks of the workspace -/

variable {w : Workspace}

namespace Generator

variable {g : Generator} (hg : g.vocabulary = .standard)
include hg

/-- The first block of a stack is emitted at some point. -/
theorem reaches_emitTops {setting : Setting} {tops : List Stack} {b : Block} {bs : Stack} (hmem : b :: bs ∈ tops) (r : Run)
    (hrunning : (g.emitTops tops setting r).2.failure = none) :
    ∃ r₀, r.Reaches setting r₀ ∧ (b.emit .standard {} setting r₀).2.Reaches setting (g.emitTops tops setting r).2 := by
  have hopen : g.vocabulary.Open setting := hg ▸ Vocabulary.open_vocabulary_standard
  have hacts : ∀ stack, Acts setting (g.emitTop stack) := fun stack => (traceable_emitTop hopen stack).acts
  induction tops generalizing r with
  | nil => cases hmem
  | cons stack tops ih =>
    have hrest : Acts setting (g.emitTops tops) := (traceable_emitTops hopen tops).acts
    rw [emitTops_cons] at hrunning ⊢
    dsimp only at hrunning ⊢
    cases hfailed : (g.emitTop stack setting r).2.failure with
    | some f =>
      rw [hfailed] at hrunning
      cases hfailed.symm.trans hrunning
    | none =>
      rw [hfailed] at hrunning
      rcases mem_cons.mp hmem with rfl | hmem
      · refine ⟨r, .refl r, Run.Reaches.trans ?_ (.of_acts (g.emitTops tops) _)⟩
        rw [emitTop_cons, hg]
        dsimp only
        split
        · exact .refl _
        · split
          · exact .refl _
          · exact .of_acts (Stack.emit .standard (({} : Place).after b.data) bs) _
      · obtain ⟨r₀, hr₀, hlater⟩ := ih hmem _ hrunning
        exact ⟨r₀, (Run.Reaches.of_acts (g.emitTop stack) r).trans hr₀, hlater⟩

omit hg in
theorem final_eq (w : Workspace) : g.final w = (g.emitTops w.inReadingOrder g.setting (g.start w)).2 := by
  unfold final
  rw [program_eq]

omit hg in
theorem isOfBlock_start (hd : d ∈ (g.start w).definitions) : d.isOfBlock = false := by
  rw [start_definitions] at hd
  split at hd
  · cases hd
  · rw [mem_singleton.mp hd]
    show decide ("variables".toList.head? = some '%') = false
    decide

/-- What holds at the start of a run and is kept up at all sites of the workspace holds in the
end. -/
theorem holds_final {ι : Type} {I : ι → Invariant g.setting} {inner : Site → Run → ι → ι}
    (hadmits : Invariant.Admits I inner (· ∈ w.sites)) (hrunning : (g.final w).failure = none) {i : ι}
    (hstart : (I i).Holds (g.start w)) : (I i).Holds (g.final w) := by
  have hsites : ∀ stack ∈ w.inReadingOrder, ∀ σ ∈ Stack.sites {} stack, σ ∈ w.sites := fun stack hstack σ hσ =>
    mem_flatMap.mpr ⟨stack, w.inReadingOrder_perm.mem_iff.mp hstack, hσ⟩
  rw [final_eq] at hrunning ⊢
  exact (((hadmits.uniform_emitTops hg hsites i).cases rfl hstart).resolve_left fun hfail => hfail hrunning).2

/-- In the end, every function of a block was made by a block of the workspace. -/
theorem makers_final (hrunning : (g.final w).failure = none) :
    (makers g.setting (g.start w) (· ∈ w.sites)).Holds (g.final w) :=
  holds_final hg admits_makers hrunning (i := ())
    ⟨.refl _, fun _ hd hblock => absurd ((isOfBlock_start hd).symm.trans hblock) Bool.false_ne_true⟩

end Generator

/-! ### Functions of their own -/

namespace Workspace

def definers (w : Workspace) : List Site := w.sites.filter (·.IsDefiner)

/-- Those of them that stand first in their stack. -/
def topDefiners (w : Workspace) : List Site :=
  (w.tops.filterMap fun stack => stack.head?.map fun b => ⟨b, {}, stack.tail⟩).filter (·.IsDefiner)

theorem mem_tops_of_mem_topDefiners (h : σ ∈ w.topDefiners) :
    σ.block :: σ.following ∈ w.tops ∧ σ.place = {} ∧ σ.IsDefiner := by
  obtain ⟨hmem, hdefiner⟩ := mem_filter.mp h
  obtain ⟨stack, hstack, hsite⟩ := mem_filterMap.mp hmem
  cases stack with
  | nil => cases hsite
  | cons b bs =>
    obtain rfl := Option.some.inj hsite
    exact ⟨hstack, rfl, of_decide_eq_true hdefiner⟩

theorem topDefiners_subset (w : Workspace) : w.topDefiners ⊆ w.definers := by
  intro σ h
  obtain ⟨hstack, hplace, hdefiner⟩ := mem_tops_of_mem_topDefiners h
  refine mem_filter.mpr ⟨mem_flatMap.mpr ⟨_, hstack, ?_⟩, decide_eq_true hdefiner⟩
  rw [Stack.sites_eq_cons, Block.sites_eq, ← hplace]
  exact mem_cons_self

end Workspace

open Vocabulary

theorem Site.Made.names {setting : Setting} {start r : Run} (hstart : start.names.Sound)
    (hrunning : r.failure = none) (h : σ.Made setting start d r) :
    (∃ name, Names σ.block.type (wordOf r σ.block.data) name ∧ d.key = "%" ++ name) ∧
      (r.names.get (σ.block.data.fieldValue "NAME") .procedure).2 = r.names := by
  obtain ⟨r₀, name, hr₀, -, hfunction, hkey, hlater⟩ := h
  obtain ⟨hword, hnamed⟩ := wordOf_eq (s := σ.scene) (hr₀.grows hstart).sound hlater
  rcases function?_cases (hlater.running hrunning) with ⟨name', code, hsome, hnames⟩ | ⟨hnone, -⟩
  · obtain ⟨rfl, -⟩ := Prod.mk.inj (Option.some.inj (hsome.symm.trans hfunction))
    exact ⟨⟨name', hword ▸ hnames, hkey⟩, hnamed⟩
  · cases hnone.symm.trans hfunction

theorem key_inj {name' : String} (h : "%" ++ name = "%" ++ name') : name = name' := by
  simpa [← String.toList_inj] using h

/-- What a block that stands first in its stack has defined in the end: unless it is a callback that
the system has, there is a function under the name that its own one was given. -/
theorem Generator.exists_function {g : Generator} (hg : g.vocabulary = .standard)
    (hrunning : (g.final w).failure = none) (hσ : σ ∈ w.topDefiners) :
    (isProcedure σ.block.type = false ∧ ∃ event ∈ ["show", "press"],
      hasPath (widgetName (callbackName (wordOf (g.final w) σ.block.data) event)).toList = true) ∨
    ∃ name, Names σ.block.type (wordOf (g.final w) σ.block.data) name ∧
      ((g.final w).names.get (σ.block.data.fieldValue "NAME") .procedure).2 = (g.final w).names ∧
      ∃ d ∈ (g.final w).definitions, d.key = "%" ++ name := by
  obtain ⟨hstack, hplace, hdefiner⟩ := Workspace.mem_tops_of_mem_topDefiners hσ
  rw [final_eq] at hrunning ⊢
  obtain ⟨r₀, hr₀, hlater⟩ := reaches_emitTops hg (w.inReadingOrder_perm.mem_iff.mpr hstack) (g.start w) hrunning
  generalize (g.emitTops w.inReadingOrder g.setting (g.start w)).2 = r at hrunning hlater ⊢
  have hrunning₀ : r₀.failure = none :=
    Run.Reaches.running ((Run.Reaches.of_acts (σ.block.emit .standard {}) r₀).trans hlater) hrunning
  rw [← hplace, Site.emit_of_isDefiner hdefiner hrunning₀, bind_apply] at hlater
  have hsound : r₀.names.Sound := (hr₀.grows (g.sound_start w)).sound
  generalize hr₁ : ({ r₀ with dispatched := σ.block.data :: r₀.dispatched } : Run) = r₁ at hlater
  have hword := @wordOf_eq g.setting σ.scene _ r₁ r (hr₁ ▸ hsound)
  have hmade := (Run.Reaches.of_acts (storeFunction _) _).trans hlater
  obtain ⟨hsame, hnamed⟩ := hword hmade
  rw [show wordOf r σ.block.data = _ from hsame]
  rcases function?_cases (hmade.running hrunning) with ⟨name, code, hfunction, hname⟩ | ⟨-, hsystem⟩
  · rw [hfunction] at hlater
    refine .inr ⟨name, hname, hnamed, ?_⟩
    obtain ⟨code', hcode'⟩ := exists_get?_put (function? σ.scene g.setting r₁).2.definitions ("%" ++ name) code
    have hstored := hlater.get?_definitions hcode'
    obtain ⟨d, hd, -⟩ := Option.map_eq_some_iff.mp hstored
    exact ⟨d, mem_of_find?_eq_some hd, by simpa using List.find?_some hd⟩
  · exact .inl hsystem

/-- Two definitions with one function name are the same. -/
theorem eq_of_names {r : Run} (hr : r.names.Sound) {definers : List Site}
    (hnames : (definers.map fun σ => Text.lower (σ.block.data.fieldValue "NAME")).Nodup)
    (hapart : ∀ σ ∈ definers, ∀ τ ∈ definers, isProcedure σ.block.type = true → isProcedure τ.block.type = false →
      ∀ event ∈ ["show", "press"], wordOf r σ.block.data ≠ callbackName (wordOf r τ.block.data) event)
    {τ : Site} (hσ : σ ∈ definers) (hτ : τ ∈ definers)
    (hnamed : (r.names.get (σ.block.data.fieldValue "NAME") .procedure).2 = r.names)
    (hname : Names σ.block.type (wordOf r σ.block.data) name) (hname' : Names τ.block.type (wordOf r τ.block.data) name) :
    σ = τ := by
  have hword : wordOf r σ.block.data = wordOf r τ.block.data := by
    unfold Names at hname hname'
    split at hname
    · case isTrue hprocedure =>
      split at hname'
      · exact hname.symm.trans hname'
      · case isFalse hnot =>
        obtain ⟨-, event, hevent, hcallback⟩ := hname'
        exact absurd (hname.symm.trans hcallback) (hapart σ hσ τ hτ hprocedure (Bool.eq_false_iff.mpr hnot) event hevent)
    · case isFalse hnot =>
      obtain ⟨-, event, hevent, hcallback⟩ := hname
      split at hname'
      · case isTrue hprocedure =>
        exact absurd (hname'.symm.trans hcallback) (hapart τ hτ σ hσ hprocedure (Bool.eq_false_iff.mpr hnot) event hevent)
      · obtain ⟨-, event', hevent', hcallback'⟩ := hname'
        exact callbackName_inj hevent hevent' (hcallback.symm.trans hcallback')
  have hlower := (NameTable.Grows.get_eq_get_iff hr (c := .procedure) (by decide) (hnamed.symm ▸ hr.grows)).mp hword
  exact inj_on_of_nodup_map hnames hσ hτ hlower

/-- **Functions do not get lost.**  Let all definitions of a workspace have names that differ in
more than case, and let no procedure have an identifier that is the name of the function for a
callback.  Then in the program of the workspace each definition that stands first in its stack has a
function of its own, with the text that was made for it, unless it is a callback that the system
has; and no two of these functions have the same name. -/
theorem Generator.functions_kept (g : Generator) (hvocabulary : g.vocabulary = .standard) (w : Workspace) {result : Result}
    (hresult : g.generate w = .ok result)
    (hnames : (w.definers.map fun σ => Text.lower (σ.block.data.fieldValue "NAME")).Nodup)
    (hapart : ∀ σ ∈ w.definers, ∀ τ ∈ w.definers, isProcedure σ.block.type = true → isProcedure τ.block.type = false →
      ∀ event ∈ ["show", "press"],
        wordOf (g.final w) σ.block.data ≠ callbackName (wordOf (g.final w) τ.block.data) event) :
    ∃ own : Site → Option Definition, ∀ σ ∈ w.topDefiners,
      (own σ = none → isProcedure σ.block.type = false ∧ ∃ event ∈ ["show", "press"],
        hasPath (widgetName (callbackName (wordOf (g.final w) σ.block.data) event)).toList = true) ∧
      ∀ d, own σ = some d → d ∈ result.definitions ∧ σ.Made g.setting (g.start w) d (g.final w) ∧
        (∃ name, Names σ.block.type (wordOf (g.final w) σ.block.data) name ∧ d.key = "%" ++ name) ∧
        ∀ τ ∈ w.topDefiners, τ ≠ σ → ∀ d', own τ = some d' → d'.key ≠ d.key := by
  obtain ⟨hfailure, rfl⟩ := generate_eq_ok_iff.mp hresult
  have hmakers := makers_final hvocabulary hfailure
  have hsound := (hmakers.1.grows (g.sound_start w)).sound
  have hown : ∀ σ, ∃ o : Option Definition, σ ∈ w.topDefiners →
      (o = none → isProcedure σ.block.type = false ∧ ∃ event ∈ ["show", "press"],
        hasPath (widgetName (callbackName (wordOf (g.final w) σ.block.data) event)).toList = true) ∧
      ∀ d, o = some d → d ∈ (g.final w).definitions ∧ σ.Made g.setting (g.start w) d (g.final w) := by
    intro σ
    by_cases hσ : σ ∈ w.topDefiners
    · rcases exists_function hvocabulary hfailure hσ with hsystem | ⟨name, hname, hnamed, d, hd, hkey⟩
      · exact ⟨none, fun _ => ⟨fun _ => hsystem, nofun⟩⟩
      · have hblock : d.isOfBlock = true := by
          unfold Definition.isOfBlock
          rw [hkey, String.toList_append]
          rfl
        obtain ⟨τ, hτ, hdefiner, hmade⟩ := hmakers.2 d hd hblock
        obtain ⟨⟨name', hname', hkey'⟩, -⟩ := hmade.names (g.sound_start w) hfailure
        obtain rfl := key_inj (hkey.symm.trans hkey')
        obtain rfl := eq_of_names hsound hnames hapart (w.topDefiners_subset hσ)
          (mem_filter.mpr ⟨hτ, decide_eq_true hdefiner⟩) hnamed hname hname'
        refine ⟨some d, fun _ => ⟨nofun, fun d' hd' => ?_⟩⟩
        obtain rfl := Option.some.inj hd'
        exact ⟨hd, hmade⟩
    · exact ⟨none, fun h => absurd h hσ⟩
  obtain ⟨own, hown⟩ := Classical.skolem.mp hown
  refine ⟨own, fun σ hσ => ⟨(hown σ hσ).1, fun d hd => ?_⟩⟩
  obtain ⟨hmem, hmade⟩ := (hown σ hσ).2 d hd
  obtain ⟨⟨name, hname, hkey⟩, hnamed⟩ := hmade.names (g.sound_start w) hfailure
  refine ⟨hmem, hmade, ⟨name, hname, hkey⟩, fun τ hτ hne d' hd' hsame => hne ?_⟩
  obtain ⟨-, hmade'⟩ := (hown τ hτ).2 d' hd'
  obtain ⟨⟨name', hname', hkey'⟩, -⟩ := hmade'.names (g.sound_start w) hfailure
  obtain rfl := key_inj (hkey.symm.trans (hsame.symm.trans hkey'))
  exact (eq_of_names hsound hnames hapart (w.topDefiners_subset hσ) (w.topDefiners_subset hτ) hnamed hname hname').symm

/-- A procedure, and the callback of a button. -/
def Workspace.procedureAndCallback : Workspace where
  tops := [
    [.mk { id := "p", type := "procedures_defnoreturn", fields := [⟨"NAME", "count", ""⟩] } []],
    [.mk { id := "c", type := "widgets_defnoreturn", fields := [⟨"NAME", "button", ""⟩] } []]]

theorem Generator.functions_kept_procedureAndCallback :
    (({} : Generator).final Workspace.procedureAndCallback).definitions.map (·.key) = ["%count", "%on_button_press"] ∧
    ∀ σ ∈ Workspace.procedureAndCallback.topDefiners, isProcedure σ.block.type = true →
      ∃ d ∈ (({} : Generator).final Workspace.procedureAndCallback).definitions,
        σ.Made ({} : Generator).setting (({} : Generator).start Workspace.procedureAndCallback) d
          (({} : Generator).final Workspace.procedureAndCallback) := by
  have hrunning : (({} : Generator).final Workspace.procedureAndCallback).failure = none := by decide +kernel
  have hkept := functions_kept {} rfl Workspace.procedureAndCallback (generate_eq_ok_iff.mpr ⟨hrunning, rfl⟩)
    (by decide +kernel) (by decide +kernel)
  obtain ⟨own, hown⟩ := hkept
  refine ⟨by decide +kernel, fun σ hσ hprocedure => ?_⟩
  obtain ⟨hsystem, hfunction⟩ := hown σ hσ
  cases hd : own σ with
  | none => exact absurd ((hsystem hd).1.symm.trans hprocedure) Bool.false_ne_true
  | some d => exact ⟨d, (hfunction d hd).1, (hfunction d hd).2.1⟩

end BlockProgram
