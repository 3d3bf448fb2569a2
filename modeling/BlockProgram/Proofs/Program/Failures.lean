import BlockProgram.Proofs.Emission.Handlers

/-! # The first failure of a run

Emission goes on after a failure: the handlers under way finish, with whatever they are given.  What
keeps them from adding to a broken program is that every step by which code is handed on looks at
the failure itself.  So the events of a trace are of two sorts.  Up to the first failure all blocks
are where they belong (`Event.Fine`), from it on nothing is given back any more (`Event.Blank`); and
the failure the run ends with is the one in between. `Course` says this of a step from any run, so
that the courses of steps in sequence can be put together.

The vocabulary may hold handlers of one's own, as long as they are open.
-/
namespace BlockProgram

open List

namespace Event

def failure? : Event → Option Failure
  | .failed f => some f
  | _ => none

/-- Nothing is given back. -/
def Blank : Event → Prop
  | .failed _ => True
  | .emitted _ code => code = .empty
  | .read _ _ _ text => text = ""
  | .stacked _ _ text => text = ""
  | .enclosed _ _ text => text = ""

/-- No failure: a block that is emitted has a handler unless it is disabled, a value that is read is
an expression or has no code, and what stands in a stack of statements is no expression. -/
def Fine (v : Vocabulary) : Event → Prop
  | .failed _ => False
  | .emitted b _ => b.disabled = false → (v.get? b.type).isSome
  | .read _ _ plugged _ => ∀ p ∈ plugged, (∃ text precedence, p.2 = .expression text precedence) ∨ p.2 = .empty
  | .stacked _ code _ => ∀ text precedence, code ≠ .expression text precedence
  | .enclosed _ _ _ => True

theorem Fine.failure?_eq_none {v : Vocabulary} {e : Event} (h : e.Fine v) : e.failure? = none := by
  cases e with
  | failed f => exact h.elim
  | emitted | read | stacked | enclosed => rfl

end Event

def firstFailure (es : List Event) : Option Failure := es.findSome? Event.failure?

/-- How the failure of a run, before a step and after it, goes with the events of the step. -/
inductive Course (v : Vocabulary) : Option Failure → List Event → Option Failure → Prop
  | running {es : List Event} (h : ∀ e ∈ es, e.Fine v) : Course v none es none
  | fails {before after : List Event} {f : Failure} (hbefore : ∀ e ∈ before, e.Fine v)
      (hafter : ∀ e ∈ after, e.Blank) : Course v none (before ++ .failed f :: after) (some f)
  | failed {es : List Event} {f : Failure} (h : ∀ e ∈ es, e.Blank) : Course v (some f) es (some f)

namespace Course

variable {v : Vocabulary} {a b c : Option Failure} {es es' : List Event}

theorem refl (a : Option Failure) : Course v a [] a := by
  cases a with
  | none => exact .running (forall_mem_nil _)
  | some f => exact .failed (forall_mem_nil _)

theorem append (h : Course v a es b) (h' : Course v b es' c) : Course v a (es ++ es') c := by
  cases h with
  | running hes =>
    cases h' with
    | running hes' => exact .running (forall_mem_append.mpr ⟨hes, hes'⟩)
    | fails hbefore hafter =>
      rw [← append_assoc]
      exact .fails (forall_mem_append.mpr ⟨hes, hbefore⟩) hafter
  | fails hbefore hafter =>
    cases h' with
    | failed hes' =>
      rw [append_assoc, cons_append]
      exact .fails hbefore (forall_mem_append.mpr ⟨hafter, hes'⟩)
  | failed hes =>
    cases h' with
    | failed hes' => exact .failed (forall_mem_append.mpr ⟨hes, hes'⟩)

theorem report {f : Failure} (h : ∀ e ∈ es, e.Blank) : Course v none (.failed f :: es) (some f) := by
  exact .fails (forall_mem_nil _) h

theorem single {e : Event} (hfine : a = none → e.Fine v) (hblank : a.isSome → e.Blank) : Course v a [e] a := by
  cases a with
  | none => exact .running (forall_mem_singleton.mpr (hfine rfl))
  | some f => exact .failed (forall_mem_singleton.mpr (hblank rfl))

theorem firstFailure_eq (h : Course v none es b) : firstFailure es = b := by
  cases h with
  | running hes => exact List.findSome?_eq_none_iff.mpr fun e he => (hes e he).failure?_eq_none
  | fails hbefore hafter =>
    have hnone := List.findSome?_eq_none_iff.mpr fun e he => (hbefore e he).failure?_eq_none
    rw [firstFailure, List.findSome?_append, hnone]
    rfl

/-- Whatever comes later than a failure is blank. -/
theorem pairwise_blank (h : Course v a es b) : es.Pairwise fun e e' => e.failure?.isSome → e'.Blank := by
  have of_fine : ∀ {es : List Event}, (∀ e ∈ es, e.Fine v) →
      ∀ e ∈ es, ∀ e' : Event, e.failure?.isSome → e'.Blank := fun hes e he _ hfailed => by
    rw [(hes e he).failure?_eq_none] at hfailed
    cases hfailed
  have of_blank : ∀ {es : List Event}, (∀ e ∈ es, e.Blank) →
      es.Pairwise fun e e' => e.failure?.isSome → e'.Blank := fun hes =>
    pairwise_of_forall_mem_list fun _ _ e' he' _ => hes e' he'
  cases h with
  | running hes => exact pairwise_of_forall_mem_list fun e he e' _ => of_fine hes e he e'
  | fails hbefore hafter =>
    refine pairwise_append.mpr ⟨?_, pairwise_cons.mpr ⟨?_, of_blank hafter⟩, ?_⟩
    · exact pairwise_of_forall_mem_list fun e he e' _ => of_fine hbefore e he e'
    · exact fun e' he' _ => hafter e' he'
    · exact fun e he e' _ => of_fine hbefore e he e'
  | failed hes => exact of_blank hes

end Course

/-! ### Every step takes its course -/

section

variable {v : Vocabulary} {setting : Setting} {r : Run}

theorem dispatch_ne_handled (s : Scene) : (Emit.dispatch v s setting r).1 ≠ .handled := by
  by_cases hidle : r.failure.isSome ∨ s.data.disabled = true
  · rw [dispatch_of_idle hidle]
    nofun
  · rw [not_or, Bool.not_eq_true, Option.isSome_eq_false_iff, Option.isNone_iff_eq_none, Bool.not_eq_true] at hidle
    cases hget : v.get? s.data.type with
    | none =>
      rw [dispatch_of_unknown hidle.1 hidle.2 hget]
      nofun
    | some h =>
      rw [dispatch_of_handled hidle.1 hidle.2 hget]
      dsimp only
      split
      · nofun
      · generalize (h.emit s setting _).1 = code
        cases code <;> nofun

/-- A value that is read: nothing is given back after a failure, and without one there was an
expression or nothing. -/
theorem settle_spec (s : Scene) (name : String) (outer : Precedence) (first : Block) (code : Fragment) :
    ((Emit.settle s name outer first code setting r).2.failure.isSome →
      (Emit.settle s name outer first code setting r).1 = "") ∧
    ((Emit.settle s name outer first code setting r).2.failure = none →
      (∃ text precedence, code = .expression text precedence) ∨ code.text = "") := by
  generalize hout : Emit.settle s name outer first code setting r = out
  rw [settle_apply] at hout
  split at hout
  · case isTrue hfailed =>
    subst hout
    exact ⟨fun _ => rfl, fun hnone => absurd hnone (Option.isSome_iff_ne_none.mp hfailed)⟩
  · case isFalse hrunning =>
    split at hout
    · subst hout
      exact ⟨fun hfailed => absurd hfailed hrunning, fun _ => .inl ⟨_, _, rfl⟩⟩
    · split at hout
      · case isTrue hempty =>
        subst hout
        exact ⟨fun _ => rfl, fun _ => .inr hempty⟩
      · subst hout
        exact ⟨fun _ => rfl, fun hnone => absurd hnone (fail_eq setting ..).1⟩

/-- A stack of statements: nothing is given back after a failure, and without one it starts with no
expression. -/
theorem proceed_spec (b : BlockData) (rest : Emit String) (code : Fragment) :
    ((Emit.proceed b rest code setting r).2.failure.isSome → (Emit.proceed b rest code setting r).1 = "") ∧
    ((Emit.proceed b rest code setting r).2.failure = none →
      ∀ text precedence, code ≠ .expression text precedence) := by
  generalize hout : Emit.proceed b rest code setting r = out
  rw [proceed_apply] at hout
  split at hout
  · case isTrue hfailed =>
    subst hout
    exact ⟨fun _ => rfl, fun hnone => absurd hnone (Option.isSome_iff_ne_none.mp hfailed)⟩
  · split at hout
    · subst hout
      exact ⟨fun _ => rfl, fun hnone => absurd hnone (fail_eq setting ..).1⟩
    · case h_2 hcode =>
      subst hout
      exact ⟨fun hfailed => if_pos hfailed, fun _ => hcode⟩

theorem IsChain.text_eq_empty {chain : Emit String} (h : IsChain v chain)
    (hfailed : (chain setting r).2.failure.isSome) : (chain setting r).1 = "" := by
  cases h with
  | nil => rfl
  | cons below hrest =>
    exact (proceed_spec ..).1 hfailed

theorem failure_addHelper (key : String) (lines : List String) :
    (Emit.addHelper key lines setting r).2.failure = r.failure := by
  rcases addHelper_cases setting key lines r with ⟨name, -, -, heq⟩ | ⟨-, slot, code, heq⟩
  all_goals rw [heq]

theorem failure_addWidget (name code : String) : (Emit.addWidget name code setting r).2.failure = r.failure := by
  obtain ⟨panels, heq⟩ := addWidget_eq setting name code r
  rw [heq]

/-- **A step takes its course.** -/
theorem course_of_traced {α : Type} {x : Emit α} {es : List Event} (h : Traced v setting x r es) :
    Course v r.failure es (x setting r).2.failure := by
  induction h with
  | pure | setting | run | variableName | procedureName | freshVariable | define | openPanel => exact .refl _
  | bind _ _ ihx ihg => exact ihx.append ihg
  | addHelper key lines r =>
    rw [failure_addHelper]
    exact .refl _
  | addWidget name code r =>
    rw [failure_addWidget]
    exact .refl _
  | fail kind block detail r =>
    rw [failure_fail]
    cases r.failure with
    | none => exact .report (forall_mem_nil _)
    | some f => exact .failed (forall_mem_singleton.mpr trivial)
  | @idle s r h =>
    rw [dispatch_of_idle h]
    refine .single (fun hnone henabled => ?_) fun _ => rfl
    rw [hnone, henabled] at h
    simp at h
  | unknown hrunning henabled hget =>
    rw [dispatch_of_unknown hrunning henabled hget, failure_fail, hrunning]
    exact .report (forall_mem_singleton.mpr rfl)
  | @handled s r h es hrunning henabled hget _ ih =>
    rw [dispatch_of_handled hrunning henabled hget]
    refine ih.append (.single (fun _ _ => ?_) fun hfailed => ?_)
    · rw [hget]
      rfl
    · exact if_pos hfailed
  | unread h =>
    rw [value_of_unread h]
    exact .single (fun _ p hp => absurd hp (Option.not_mem_none p)) fun _ => rfl
  | @read s below name outer r slot first rest es es' hslot htarget _ hcode hrunning _ _ ihemit ihsettle =>
    rw [value_of_read hslot htarget hrunning, hcode]
    refine (ihemit.append ihsettle).append (.single (fun hnone p hp => ?_) (settle_spec ..).1)
    obtain rfl := Option.mem_some_iff.mp hp
    have hcode := (settle_spec ..).2 hnone
    cases hdispatch : (Emit.dispatch v below setting r).1 with
    | expression text precedence => exact .inl ⟨text, precedence, rfl⟩
    | statement text =>
      rw [hdispatch] at hcode
      exact .inr (congrArg Fragment.statement (hcode.resolve_left nofun))
    | handled => exact absurd hdispatch (dispatch_ne_handled below)
  | link _ _ ihemit ihproceed =>
    exact (ihemit.append ihproceed).append (.single (proceed_spec ..).2 (proceed_spec ..).1)
  | unenclosed hslot =>
    rw [statements_of_none hslot]
    exact .single (fun _ => trivial) fun _ => rfl
  | enclosed hslot hchain _ ih =>
    rw [statements_of_slot hslot]
    refine ih.append (.single (fun _ => trivial) fun hfailed => ?_)
    exact if_pos (hchain.text_eq_empty hfailed)

end

/-! ### Vocabularies with handlers of one's own -/

namespace Vocabulary

/-- The handlers for the blocks of the editor, and more of them, which may take the place of
those. -/
def extended (extra : List (String × BlockHandler)) : Vocabulary :=
  extra.foldl (fun v e => v.register e.1 e.2) .standard

theorem get?_register {v : Vocabulary} {type type' : String} {h h' : BlockHandler}
    (hget : (v.register type h).get? type' = some h') : h' = h ∨ v.get? type' = some h' := by
  obtain ⟨e, hfind, rfl⟩ := Option.map_eq_some_iff.mp hget
  unfold register at hfind
  split at hfind
  · rw [List.find?_map] at hfind
    obtain ⟨old, hold, rfl⟩ := Option.map_eq_some_iff.mp hfind
    by_cases htype : old.1 = type
    · rw [if_pos htype]
      exact .inl rfl
    · -- Putting the handler in does not change the types.
      have hkeys : ((fun e : String × BlockHandler => decide (e.1 = type')) ∘
          fun e => if e.1 = type then (type, h) else e) = fun e => decide (e.1 = type') := by
        funext e
        by_cases he : e.1 = type <;> simp [he]
      rw [hkeys] at hold
      rw [if_neg htype]
      exact .inr (Option.map_eq_some_iff.mpr ⟨old, hold, rfl⟩)
  · rw [List.find?_append, Option.or_eq_some_iff] at hfind
    rcases hfind with hold | ⟨-, hnew⟩
    · exact .inr (Option.map_eq_some_iff.mpr ⟨e, hold, rfl⟩)
    · rw [mem_singleton.mp (mem_of_find?_eq_some hnew)]
      exact .inl rfl

/-- A handler is one of the editor's or one of those that were added. -/
theorem get?_extended {extra : List (String × BlockHandler)} {type : String} {h : BlockHandler}
    (hget : (extended extra).get? type = some h) : standard.get? type = some h ∨ ∃ e ∈ extra, e.2 = h := by
  unfold extended at hget
  generalize standard = v at hget ⊢
  induction extra generalizing v with
  | nil => exact .inl hget
  | cons e extra ih =>
    rcases ih _ hget with hregister | ⟨e', he', rfl⟩
    · rcases get?_register hregister with rfl | hv
      · exact .inr ⟨e, mem_cons_self, rfl⟩
      · exact .inl hv
    · exact .inr ⟨e', mem_cons_of_mem e he', rfl⟩

end Vocabulary

namespace Generator

theorem generate_eq (g : Generator) (w : Workspace) :
    g.generate w = match (g.program w g.setting (g.start w)).2.failure with
      | some f => .error f
      | none => .ok ⟨(g.program w g.setting (g.start w)).1, (g.program w g.setting (g.start w)).2.names.entries,
          (g.program w g.setting (g.start w)).2.definitions⟩ := rfl

/-- **The first failure wins, and nothing partial is given back.**  Let the vocabulary be the
editor's with any open handlers added to it.  Once a run has failed, no step changes the failure,
and nothing is given back by any event.  A run of the generator has a trace; in every trace of it
all that comes later than a failure is blank, the generator gives exactly the failure reported
first, and if it gives a program all events were fine. -/
theorem first_failure_wins (g : Generator) (extra : List (String × BlockHandler))
    (hg : g.vocabulary = .extended extra) (hextra : ∀ e ∈ extra, e.2.Open g.vocabulary g.setting)
    (w : Workspace) :
    (∀ {α : Type} (x : Emit α) (r : Run) (es : List Event) (f : Failure),
      Traced g.vocabulary g.setting x r es → r.failure = some f →
        (x g.setting r).2.failure = some f ∧ ∀ e ∈ es, e.Blank) ∧
    (∃ es, Traced g.vocabulary g.setting (g.program w) (g.start w) es) ∧
    ∀ es, Traced g.vocabulary g.setting (g.program w) (g.start w) es →
      (es.Pairwise fun e e' => e.failure?.isSome → e'.Blank) ∧
      (∀ f, g.generate w = .error f ↔ firstFailure es = some f) ∧
      ((∃ result, g.generate w = .ok result) → ∀ e ∈ es, e.Fine g.vocabulary) := by
  have hopen : g.vocabulary.Open g.setting := by
    intro type h hget
    rw [hg] at hget
    rcases Vocabulary.get?_extended hget with hstandard | ⟨e, he, rfl⟩
    · exact Vocabulary.open_standard hstandard
    · exact hextra e he
  refine ⟨fun x r es f htraced hf => ?_, (traceable_program hopen w).exists_trace _, fun es htraced => ?_⟩
  · have hcourse := course_of_traced htraced
    rw [hf] at hcourse
    generalize (x g.setting r).2.failure = b at hcourse ⊢
    cases hcourse with
    | failed hes => exact ⟨rfl, hes⟩
  · have hcourse := course_of_traced htraced
    have hstart : (g.start w).failure = none := rfl
    rw [hstart] at hcourse
    rw [generate_eq, hcourse.firstFailure_eq]
    refine ⟨hcourse.pairwise_blank, ?_⟩
    generalize (g.program w g.setting (g.start w)).2.failure = b at hcourse ⊢
    cases hcourse with
    | running hes => exact ⟨fun f => ⟨nofun, nofun⟩, fun _ => hes⟩
    | fails _ _ =>
      refine ⟨fun f => ⟨fun h => ?_, fun h => ?_⟩, ?_⟩
      · exact congrArg some (Except.error.inj h)
      · exact congrArg Except.error (Option.some.inj h)
      · rintro ⟨result, hresult⟩
        cases hresult

/-- A handler that goes on after its value has failed, and fails once more. -/
def probe : BlockHandler where
  emit s := do
    let value ← Emit.value s "A" .loosest
    Emit.fail .option s.data ("cannot use " ++ value)

theorem open_probe (v : Vocabulary) (setting : Setting) : probe.Open v setting := by
  intro s hs
  unfold probe
  infer_instance

def prober : Generator where
  vocabulary := .extended [("probe", probe)]

/-- A probe of a block without a handler, and another block without one behind it. -/
def probed : Workspace where
  tops := [[
    .mk { id := "p", type := "probe" }
      [.mk "A" .value [.mk { id := "m", type := "mystery" } []] []],
    .mk { id := "n", type := "enigma" } []]]

theorem first_failure_wins_probe : probe.Open prober.vocabulary prober.setting ∧
    ∃ es, Traced prober.vocabulary prober.setting (prober.program probed) (prober.start probed) es ∧
      firstFailure es = some ⟨.dispatch, "m", "mystery", "no generator for block type \"mystery\""⟩ ∧
      es.Pairwise fun e e' => e.failure?.isSome → e'.Blank := by
  have hopen := open_probe prober.vocabulary prober.setting
  obtain ⟨-, ⟨es, hes⟩, hall⟩ :=
    first_failure_wins prober [("probe", probe)] rfl (forall_mem_singleton.mpr hopen) probed
  obtain ⟨hblank, herror, -⟩ := hall es hes
  refine ⟨hopen, es, hes, (herror _).mp ?_, hblank⟩
  have hfailure : (prober.program probed prober.setting (prober.start probed)).2.failure =
      some ⟨.dispatch, "m", "mystery", "no generator for block type \"mystery\""⟩ := by
    decide +kernel
  rw [generate_eq, hfailure]

end Generator

end BlockProgram
