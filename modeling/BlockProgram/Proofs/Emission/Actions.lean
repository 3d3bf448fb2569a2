import BlockProgram.Proofs.Emission.Steps
import BlockProgram.Proofs.Names.History

/-! # What a run is made of

A handler changes a run by a few operations only: it looks up identifiers and makes some up, stores
definitions, declares widgets, enters blocks and fails.  These are the actions.  The run after a
list of actions (`Run.after`) is what all statements about every point of a run are about, whatever
handlers got it there.

Two facts are derived from the single action once and for all.  What was handed out stays handed out
(`Run.Orderly.extends_after`).  And what the name table hands out along a run is one history of the
table (`Run.recorded_after`), so that all that holds of histories holds of runs.

`Acts` says of a step that it does nothing but actions.  It is a class, so that it is found by
following the way the step is put together; here are the elementary steps and the ways to combine
them.
-/
namespace BlockProgram

open Emit

/-- Something a step can do to a run. -/
inductive Action where
  /-- Looks up the identifier of a variable, given by id or by name. -/
  | variableName (idOrName : String)
  | procedureName (name : String)
  | freshVariable (seed : String)
  | addHelper (key : String) (lines : List String)
  | define (key code : String)
  | openPanel
  | addWidget (name code : String)
  | enter (block : BlockData)
  | fail (kind : FailureKind) (block : Option BlockData) (detail : String)

namespace Run

def act (setting : Setting) (r : Run) : Action → Run
  | .variableName x => (variableName x setting r).2
  | .procedureName x => (procedureName x setting r).2
  | .freshVariable seed => (freshVariable seed setting r).2
  | .addHelper key lines => (addHelper key lines setting r).2
  | .define key code => (define key code setting r).2
  | .openPanel => (openPanel setting r).2
  | .addWidget name code => (addWidget name code setting r).2
  | .enter block => { r with dispatched := block :: r.dispatched }
  | .fail kind block detail => (fail kind block detail setting r).2

def after (setting : Setting) (r : Run) (actions : List Action) : Run :=
  actions.foldl (act setting) r

variable {setting : Setting} {r : Run}

theorem after_append (first then_ : List Action) :
    r.after setting (first ++ then_) = (r.after setting first).after setting then_ :=
  List.foldl_append

end Run

theorem fail_eq (setting : Setting) (kind : FailureKind) (block : Option BlockData) (detail : String) (r : Run) :
    (fail kind block detail setting r).2.failure ≠ none ∧ (fail kind block detail setting r).2.names = r.names ∧
      (fail kind block detail setting r).2.helpers = r.helpers ∧
      (fail kind block detail setting r).2.definitions = r.definitions := by
  obtain ⟨names, definitions, helpers, panels, dispatched, failure⟩ := r
  cases failure with
  | some f => exact ⟨Option.some_ne_none f, rfl, rfl, rfl⟩
  | none => exact ⟨Option.some_ne_none _, rfl, rfl, rfl⟩

theorem addWidget_eq (setting : Setting) (name code : String) (r : Run) :
    ∃ panels, (addWidget name code setting r).2 = { r with panels := panels } := by
  obtain ⟨names, definitions, helpers, panels, dispatched, failure⟩ := r
  cases panels with
  | nil | cons => exact ⟨_, rfl⟩

/-! ### What was handed out stays -/

theorem Run.Orderly.extends_act {setting : Setting} {r : Run} (h : r.Orderly) (a : Action) :
    r.Extends (r.act setting a) := by
  cases a with
  | variableName | procedureName => exact h.extends_get (by decide) _
  | freshVariable seed => exact h.extends_distinct seed _
  | addHelper key lines => exact h.extends_addHelper setting key lines
  | define | openPanel | enter => exact h.extends_of_eq rfl rfl id
  | addWidget name code =>
    obtain ⟨panels, hpanels⟩ := addWidget_eq setting name code r
    dsimp only [Run.act]
    rw [hpanels]
    exact h.extends_of_eq rfl rfl id
  | fail kind block detail =>
    obtain ⟨hfailure, hnames, hhelpers, -⟩ := fail_eq setting kind block detail r
    exact h.extends_of_eq hnames hhelpers fun hrunning => absurd hrunning hfailure

theorem Run.Orderly.extends_after {setting : Setting} {r : Run} (h : r.Orderly)
    (actions : List Action) : r.Extends (r.after setting actions) := by
  induction actions generalizing r with
  | nil => exact h.extends_self
  | cons a actions ih =>
    have hact : r.Extends (r.act setting a) := h.extends_act a
    exact hact.trans (ih hact.orderly)

/-! ### Names along a run -/

/-- What the name table hands out for an action: a lookup with the name it is resolved to, and a
name that is made up with none. A helper function that has its name already is given no other. -/
def Action.handed (setting : Setting) (r : Run) : Action → List NameTable.Handed
  | .variableName x =>
    [⟨.userVariable, some (r.names.resolve x .userVariable), (Emit.variableName x setting r).1⟩]
  | .procedureName x =>
    [⟨.procedure, some (r.names.resolve x .procedure), (Emit.procedureName x setting r).1⟩]
  | .freshVariable seed => [⟨.userVariable, none, (Emit.freshVariable seed setting r).1⟩]
  | .addHelper key lines =>
    if r.helper? key = none then [⟨.procedure, none, (Emit.addHelper key lines setting r).1⟩] else []
  | _ => []

namespace Run

open NameTable (Recorded Handed)

variable {setting : Setting} {r : Run} {reserved : List String} {history : List Handed}

/-- What the name table hands out for some actions, in order. -/
def handed (setting : Setting) (r : Run) : List Action → List Handed
  | [] => []
  | a :: actions => a.handed setting r ++ (r.act setting a).handed setting actions

/-- **What an action does to the names**: nothing, or a lookup, or it makes up a name. -/
theorem act_names_cases (setting : Setting) (r : Run) (a : Action) :
    ((r.act setting a).names = r.names ∧ a.handed setting r = []) ∨
    (∃ (x : String) (c : Category), c.Known ∧ (r.act setting a).names = (r.names.get x c).2 ∧
      a.handed setting r = [⟨c, some (r.names.resolve x c), (r.names.get x c).1⟩]) ∨
    (∃ (seed : String) (c : Category), c.Known ∧ (r.act setting a).names = (r.names.distinct seed c).2 ∧
      a.handed setting r = [⟨c, none, (r.names.distinct seed c).1⟩]) := by
  cases a with
  | variableName x => exact .inr (.inl ⟨x, .userVariable, by decide, rfl, rfl⟩)
  | procedureName x => exact .inr (.inl ⟨x, .procedure, by decide, rfl, rfl⟩)
  | freshVariable seed => exact .inr (.inr ⟨seed, .userVariable, by decide, rfl, rfl⟩)
  | addHelper key lines =>
    dsimp only [act, Action.handed]
    rcases addHelper_cases setting key lines r with ⟨name, hkey, -, heq⟩ | ⟨hnew, slot, code, heq⟩
    · exact .inl ⟨by rw [heq], by simp [hkey]⟩
    · exact .inr (.inr ⟨key, .procedure, by decide, by rw [heq], by rw [if_pos hnew, heq]⟩)
  | define | openPanel | enter => exact .inl ⟨rfl, rfl⟩
  | addWidget name code =>
    obtain ⟨panels, hpanels⟩ := addWidget_eq setting name code r
    exact .inl ⟨by dsimp only [act]; rw [hpanels], rfl⟩
  | fail kind block detail => exact .inl ⟨(fail_eq setting kind block detail r).2.1, rfl⟩

theorem grows_act (h : r.names.Sound) (a : Action) : r.names.Grows (r.act setting a).names := by
  rcases act_names_cases setting r a with ⟨hnames, -⟩ | ⟨x, c, hc, hnames, -⟩ | ⟨seed, c, -, hnames, -⟩
  · rw [hnames]
    exact h.grows
  · rw [hnames]
    exact h.grows_get hc x
  · rw [hnames]
    exact h.grows_distinct seed c

/-- **Names only grow along a run.** -/
theorem grows_after (h : r.names.Sound) (actions : List Action) : r.names.Grows (r.after setting actions).names := by
  induction actions generalizing r with
  | nil => exact h.grows
  | cons a actions ih =>
    have hact : r.names.Grows (r.act setting a).names := grows_act h a
    exact hact.trans (ih hact.sound)

theorem recorded_act (h : Recorded reserved ⟨r.names, history⟩) (a : Action) :
    Recorded reserved ⟨(r.act setting a).names, history ++ a.handed setting r⟩ := by
  rcases act_names_cases setting r a with
    ⟨hnames, hhanded⟩ | ⟨x, c, hc, hnames, hhanded⟩ | ⟨seed, c, hc, hnames, hhanded⟩
  · rw [hnames, hhanded, List.append_nil]
    exact h
  · have hknown : (NameTable.Call.get x c).Known := by rintro _ ⟨⟩; exact hc
    rw [hnames, hhanded]
    exact NameTable.recorded_step h hknown
  · have hknown : (NameTable.Call.distinct seed c).Known := by rintro _ ⟨⟩; exact hc
    rw [hnames, hhanded]
    exact NameTable.recorded_step h hknown

/-- **What a run hands out is a history of its names.** -/
theorem recorded_after (h : Recorded reserved ⟨r.names, history⟩) (actions : List Action) :
    Recorded reserved ⟨(r.after setting actions).names, history ++ r.handed setting actions⟩ := by
  induction actions generalizing r history with
  | nil =>
    unfold handed
    rw [List.append_nil]
    exact h
  | cons a actions ih =>
    unfold handed
    rw [← List.append_assoc]
    exact ih (recorded_act h a)

end Run

/-! ### Steps that do nothing but actions -/

/-- The step does nothing to a run but actions. -/
class Acts (setting : Setting) {α : Type} (x : Emit α) : Prop where
  exists_actions : ∀ r : Run, ∃ actions, (x setting r).2 = r.after setting actions

namespace Acts

variable {setting : Setting} {α β : Type}

theorem bind {x : Emit α} {g : α → Emit β} (hx : Acts setting x) (hg : ∀ a, Acts setting (g a)) :
    Acts setting (x >>= g) := by
  refine ⟨fun r => ?_⟩
  obtain ⟨first, hfirst⟩ := hx.exists_actions r
  obtain ⟨second, hsecond⟩ := (hg (x setting r).1).exists_actions (x setting r).2
  refine ⟨first ++ second, ?_⟩
  rw [Run.after_append, ← hfirst]
  exact hsecond

theorem extends_run {x : Emit α} (h : Acts setting x) {r : Run} (hr : r.Orderly) : r.Extends (x setting r).2 := by
  obtain ⟨actions, hactions⟩ := h.exists_actions r
  rw [hactions]
  exact hr.extends_after actions

end Acts

section

variable {setting : Setting} {α β : Type}

instance {x : Emit α} {g : α → Emit β} [hx : Acts setting x] [hg : ∀ a, Acts setting (g a)] : Acts setting (x >>= g) :=
  hx.bind hg

end

end BlockProgram
