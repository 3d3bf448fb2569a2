import BlockProgram.Proofs.Emission.Handlers

/-! # The start of a run

Before the first block is emitted, the variables of the developer are looked up, then those in use,
and the words they are given are declared together.  This module names the parts of that start: the
tables it goes through, the words that are declared (`Generator.declared`) and the history of its
lookups (`Generator.opening`), which is that of the name table at the start
(`Generator.recorded_start`).
-/
namespace BlockProgram

open List

namespace NameTable

variable {t : NameTable} {c : Category}

def Covers (history : List Handed) (t : NameTable) : Prop :=
  ∀ p ∈ t.taken, ∃ x ∈ history, (x.category, x.text) = p

variable {history : List Handed}

theorem Covers.mono (h : Covers history t) (more : List Handed) : Covers (history ++ more) t := by
  intro p hp
  obtain ⟨x, hx, hp⟩ := h p hp
  exact ⟨x, mem_append_left _ hx, hp⟩

/-- A table that has at most one word more is covered by a history that has one line more. -/
theorem Covers.snoc (h : Covers history t) {t' : NameTable} {x : Handed}
    (htaken : t'.taken = t.taken ∨ t'.taken = t.taken ++ [(x.category, x.text)]) : Covers (history ++ [x]) t' := by
  intro p hp
  rcases htaken with heq | heq
  · rw [heq] at hp
    exact h.mono [x] p hp
  · rw [heq] at hp
    rcases mem_append.mp hp with hp | hp
    · exact h.mono [x] p hp
    · exact ⟨x, mem_append_right _ mem_cons_self, (mem_singleton.mp hp).symm⟩

theorem Covers.get (h : Covers history t) (ht : t.Sound) (hc : c.Known) (name : String) :
    Covers (history ++ [⟨c, some (t.resolve name c), (t.get name c).1⟩]) (t.get name c).2 := by
  refine h.snoc ?_
  rcases get_cases ht hc name with ⟨e, -, -, -, hget⟩ | ⟨-, hget⟩
  · rw [hget]
    exact .inl rfl
  · rw [hget]
    exact .inr rfl

theorem Covers.distinct (h : Covers history t) (seed : String) (c : Category) :
    Covers (history ++ [⟨c, none, (t.distinct seed c).1⟩]) (t.distinct seed c).2 :=
  h.snoc (.inr rfl)

end NameTable

open NameTable (Handed Recorded Covers)

/-! ### Words in use along a run -/

namespace Run

variable {setting : Setting} {r : Run} {history : List Handed}

theorem covers_act (h : Covers history r.names) (hr : r.names.Sound) (a : Action) :
    Covers (history ++ a.handed setting r) (r.act setting a).names := by
  rcases act_names_cases setting r a with
    ⟨hnames, hhanded⟩ | ⟨x, c, hc, hnames, hhanded⟩ | ⟨seed, c, hc, hnames, hhanded⟩
  · rw [hnames]
    exact h.mono _
  · rw [hnames, hhanded]
    exact h.get hr hc x
  · rw [hnames, hhanded]
    exact h.distinct seed c

/-- **Every word in use along a run was handed out.** -/
theorem covers_after (h : Covers history r.names) (hr : r.names.Sound) (actions : List Action) :
    Covers (history ++ r.handed setting actions) (r.after setting actions).names := by
  induction actions generalizing r history with
  | nil => exact h.mono _
  | cons a actions ih =>
    unfold handed
    rw [← append_assoc]
    exact ih (covers_act h hr a) (grows_act hr a).sound

end Run

/-! ### The tables of the start -/

def Workspace.usedIds (w : Workspace) : List String := w.usedVariables.map (·.id)

namespace Generator

def handedAll (c : Category) : List String → NameTable → List Handed
  | [], _ => []
  | x :: xs, t => ⟨c, some (t.resolve x c), (t.get x c).1⟩ :: handedAll c xs (t.get x c).2

section

variable {c : Category} {t : NameTable} {reserved : List String} {history : List Handed}

theorem recorded_nameAll (hc : c.Known) (xs : List String) (h : Recorded reserved ⟨t, history⟩) :
    Recorded reserved ⟨(nameAll c xs t).2, history ++ handedAll c xs t⟩ := by
  induction xs generalizing t history with
  | nil =>
    unfold handedAll
    rw [append_nil]
    exact h
  | cons x xs ih =>
    have hknown : (NameTable.Call.get x c).Known := by rintro _ ⟨⟩; exact hc
    have hstep : Recorded reserved
        ⟨(t.get x c).2, history ++ [⟨c, some (t.resolve x c), (t.get x c).1⟩]⟩ :=
      NameTable.recorded_step h hknown
    have hrest := ih hstep
    rw [append_assoc] at hrest
    exact hrest

theorem covers_nameAll (hc : c.Known) (xs : List String) (h : Covers history t) (ht : t.Sound) :
    Covers (history ++ handedAll c xs t) (nameAll c xs t).2 := by
  induction xs generalizing t history with
  | nil => exact h.mono _
  | cons x xs ih =>
    have hrest := ih (h.get ht hc x) (ht.get hc x)
    rw [append_assoc] at hrest
    exact hrest

theorem grows_nameAll (hc : c.Known) (xs : List String) (h : t.Sound) : t.Grows (nameAll c xs t).2 := by
  induction xs generalizing t with
  | nil => exact h.grows
  | cons x xs ih => exact (h.grows_get hc x).trans (ih (h.get hc x))

/-- **Several names keep their identifiers.** The words several names are given are those any later
lookup gives. -/
theorem nameAll_eq_map (hc : c.Known) (xs : List String) (h : t.Sound) {t' : NameTable}
    (hlater : (nameAll c xs t).2.Grows t') :
    (nameAll c xs t).1 = xs.map fun x => (t'.get x c).1 := by
  induction xs generalizing t with
  | nil => rfl
  | cons x xs ih =>
    have hx : (t.get x c).2.Grows t' := (grows_nameAll hc xs (h.get hc x)).trans hlater
    have hword : (t'.get x c).1 = (t.get x c).1 := by rw [NameTable.Grows.get_eq h hc hx]
    rw [map_cons, hword, ← ih (h.get hc x) hlater]
    rfl

end

variable (g : Generator) (w : Workspace)

def blank : NameTable := { reserved := g.reserved, vars := w.vars.map fun v => (v.id, v.name) }

/-- The names once the variables of the developer have theirs. -/
def developed : NameTable := (nameAll .developerVariable w.developerVariables (g.blank w)).2

/-- The words that are declared at the start: those of the developer, then those of the variables in
use. -/
def declared : List String :=
  (nameAll .developerVariable w.developerVariables (g.blank w)).1 ++
    (nameAll .userVariable w.usedIds (g.developed w)).1

def opening : List Handed :=
  handedAll .developerVariable w.developerVariables (g.blank w) ++
    handedAll .userVariable w.usedIds (g.developed w)

theorem start_definitions : (g.start w).definitions =
    if (g.declared w).isEmpty then []
    else [⟨"variables", "var " ++ Text.join ", " (g.declared w) ++ ";"⟩] := rfl

theorem sound_blank : (g.blank w).Sound :=
  (NameTable.sound_empty g.reserved).withVars (w.vars.map fun v : Variable => (v.id, v.name))

theorem grows_developed : (g.blank w).Grows (g.developed w) :=
  grows_nameAll (by decide) _ (g.sound_blank w)

theorem sound_developed : (g.developed w).Sound := (g.grows_developed w).sound

theorem grows_start : (g.developed w).Grows (g.start w).names :=
  grows_nameAll (by decide) _ (g.sound_developed w)

theorem sound_start : (g.start w).names.Sound := (g.grows_start w).sound

/-- What a name is resolved to at any point of a run. -/
theorem resolve_eq {t : NameTable} (h : (g.start w).names.Grows t) (x : String) :
    t.resolve x .userVariable = (w.variableName? x).getD x := by
  have hgrows := ((g.grows_developed w).trans (g.grows_start w)).trans h
  rw [hgrows.resolve]
  unfold NameTable.resolve blank Workspace.variableName? Workspace.lookup?
  rw [if_pos rfl, List.find?_map]
  cases hfind : w.vars.find? ((fun p : String × String => decide (p.1 = x)) ∘ fun v => (v.id, v.name)) with
  | none =>
    have hnone : w.vars.find? (fun v => decide (v.id = x)) = none := hfind
    rw [hnone]
    rfl
  | some v =>
    have hsome : w.vars.find? (fun v => decide (v.id = x)) = some v := hfind
    rw [hsome]
    rfl

/-- **What is handed out at the start is the history of its names.** -/
theorem recorded_start : Recorded g.reserved ⟨(g.start w).names, g.opening w⟩ := by
  have hempty := NameTable.recorded_empty g.reserved
  have hknown : (NameTable.Call.declare (w.vars.map fun v => (v.id, v.name))).Known := nofun
  have hblank : Recorded g.reserved ⟨g.blank w, []⟩ := NameTable.recorded_step hempty hknown
  have hdeveloped := recorded_nameAll (c := .developerVariable) (by decide) w.developerVariables hblank
  exact recorded_nameAll (by decide) w.usedIds hdeveloped

theorem covers_start : Covers (g.opening w) (g.start w).names := by
  have hblank : Covers [] (g.blank w) := nofun
  have hdeveloped := covers_nameAll (c := .developerVariable) (by decide) w.developerVariables hblank
    (g.sound_blank w)
  exact covers_nameAll (by decide) w.usedIds hdeveloped (g.sound_developed w)

end Generator

end BlockProgram
