import BlockProgram.Proofs.Emission.Carrying

/-! # Runs side by side

Some statements compare runs of the generator: with other hooks, or with other comments.  Here is a
run for every `k`, and they are in step (`Parallel.InStep`): none has failed, and they agree on all
but the code that is stored and the blocks that were entered.  Whatever else is to hold of the runs
together is a parameter, `Kept`.

Steps march (`Parallel.Marches`) if they lead runs that are in step to runs that are in step again,
or let all of them fail.  They are uniform (`Parallel.Uniform`) if their results are the same
besides.  That is a law, so that handlers which read nothing but values are uniform.
-/
namespace BlockProgram

/-! ### Runs that agree -/

namespace Definitions

variable {ds ds' : Definitions} {key : String}

theorem isSome_get?_iff : (ds.get? key).isSome ↔ key ∈ ds.map (·.key) := by
  unfold get?
  rw [Option.isSome_map, List.find?_isSome, List.mem_map]
  simp only [decide_eq_true_eq]

theorem put_of_mem (h : key ∈ ds.map (·.key)) (code : String) : ds.put key code = ds := by
  obtain ⟨old, hold⟩ := Option.isSome_iff_exists.mp (isSome_get?_iff.mpr h)
  unfold put
  rw [hold]

theorem put_of_not_mem (h : key ∉ ds.map (·.key)) (code : String) : ds.put key code = ds ++ [⟨key, code⟩] := by
  have hnone : ds.get? key = none := by
    rw [← Option.not_isSome_iff_eq_none]
    exact fun hsome => h (isSome_get?_iff.mp hsome)
  unfold put
  rw [hnone]

theorem keys_put (key code : String) :
    (ds.put key code).map (·.key) = if key ∈ ds.map (·.key) then ds.map (·.key) else ds.map (·.key) ++ [key] := by
  by_cases h : key ∈ ds.map (·.key)
  · rw [put_of_mem h, if_pos h]
  · rw [put_of_not_mem h, if_neg h, List.map_append]
    rfl

end Definitions

/-- The runs agree on all but the code that is stored and the blocks that were entered. -/
structure Run.Agrees (r r' : Run) : Prop where
  names : r.names = r'.names
  helpers : r.helpers = r'.helpers
  panels : r.panels = r'.panels
  keys : r.definitions.map (·.key) = r'.definitions.map (·.key)

variable {setting : Setting}

theorem Run.failure_act {r : Run} (h : r.failure ≠ none) (a : Action) : (r.act setting a).failure ≠ none := by
  cases a with
  | variableName | procedureName | freshVariable | define | openPanel | enter => exact h
  | addHelper key lines =>
    rcases addHelper_cases setting key lines r with ⟨name, -, -, heq⟩ | ⟨-, slot, code, heq⟩
    all_goals
      dsimp only [act]
      rw [heq]
      exact h
  | addWidget name code =>
    obtain ⟨panels, heq⟩ := addWidget_eq setting name code r
    dsimp only [act]
    rw [heq]
    exact h
  | fail kind block detail => exact (fail_eq setting kind block detail r).1

theorem Run.failure_after {r : Run} (h : r.failure ≠ none) (actions : List Action) :
    (r.after setting actions).failure ≠ none := by
  induction actions generalizing r with
  | nil => exact h
  | cons a actions ih => exact ih (failure_act h a)

theorem Acts.failure_ne_none {α : Type} {x : Emit α} (hx : Acts setting x) {r : Run}
    (h : r.failure ≠ none) : (x setting r).2.failure ≠ none := by
  obtain ⟨actions, heq⟩ := hx.exists_actions r
  rw [heq]
  exact Run.failure_after h actions

namespace Run.Agrees

variable {setting setting' : Setting} {r r' : Run}

theorem put (h : r.Agrees r') (key code code' : String) : Agrees { r with definitions := r.definitions.put key code }
      { r' with definitions := r'.definitions.put key code' } := by
  refine ⟨h.names, h.helpers, h.panels, ?_⟩
  rw [Definitions.keys_put, Definitions.keys_put, h.keys]

/-- Runs that agree are given the same name for a helper function, and agree again. -/
theorem addHelper (h : r.Agrees r') (hindent : setting.options.indent = setting'.options.indent) (key : String)
    (lines : List String) : (Emit.addHelper key lines setting r).1 = (Emit.addHelper key lines setting' r').1 ∧
      (Emit.addHelper key lines setting r).2.Agrees (Emit.addHelper key lines setting' r').2 := by
  have hslot : (r.definitions.get? key).isSome = (r'.definitions.get? key).isSome := by
    rw [Bool.eq_iff_iff, Definitions.isSome_get?_iff, Definitions.isSome_get?_iff, h.keys]
  have hhelper : r.helper? key = r'.helper? key := by
    unfold Run.helper?
    rw [h.helpers]
  rw [addHelper_eq, addHelper_eq, hhelper]
  cases r'.helper? key with
  | some name => exact ⟨rfl, h⟩
  | none =>
    unfold Emit.storeHelper Emit.helperText
    rw [h.helpers, h.names, hslot, hindent]
    exact ⟨rfl, ⟨rfl, rfl, h.panels, (h.put _ _ _).keys⟩⟩

theorem addWidget (h : r.Agrees r') (name code : String) :
    (Emit.addWidget name code setting r).2.Agrees (Emit.addWidget name code setting' r').2 := by
  obtain ⟨names, definitions, helpers, panels, dispatched, failure⟩ := r
  obtain ⟨names', definitions', helpers', panels', dispatched', failure'⟩ := r'
  obtain ⟨hnames, hhelpers, hpanels, hkeys⟩ := h
  cases hpanels
  cases panels with
  | nil | cons => exact ⟨hnames, hhelpers, rfl, hkeys⟩

end Run.Agrees

/-! ### Steps that march -/

/-- Runs of the generator side by side, one for each `k`. -/
structure Parallel (K : Type) where
  setting : K → Setting
  indent : String
  oneBased : Bool
  indent_eq : ∀ k, (setting k).options.indent = indent
  oneBased_eq : ∀ k, (setting k).options.oneBasedIndex = oneBased
  /-- What is to hold of the runs besides. -/
  Kept : (K → Run) → Prop
  kept_act : ∀ (r : K → Run) (a : Action), a.IsNeutral → (∀ k k', (r k).Agrees (r k')) → Kept r →
    Kept fun k => (r k).act (setting k) a

namespace Parallel

variable {K : Type} (S : Parallel K) {α β : Type}

/-- None of the runs has failed, and they agree. -/
structure InStep (r : K → Run) : Prop where
  running : ∀ k, (r k).failure = none
  agrees : ∀ k k', (r k).Agrees (r k')
  kept : S.Kept r

/-- From runs in step the steps lead to runs in step, with results that have the property `P`, or
all of them fail. -/
def Marches (x : K → Emit α) (P : (K → α) → Prop) : Prop :=
  ∀ r, S.InStep r → (∀ k, (x k (S.setting k) (r k)).2.failure ≠ none) ∨
    (P fun k => (x k (S.setting k) (r k)).1) ∧ S.InStep fun k => (x k (S.setting k) (r k)).2

/-- The steps march, with the same result for all `k`; and what has failed stays so. -/
structure MarchesAlike (x : K → Emit α) : Prop where
  failed : ∀ k r, r.failure ≠ none → (x k (S.setting k) r).2.failure ≠ none
  marches : S.Marches x fun a => ∃ c, a = fun _ => c

variable {S}

namespace Marches

variable {P Q : (K → α) → Prop} {x : K → Emit α}

theorem mono (h : S.Marches x P) (hPQ : ∀ a, P a → Q a) : S.Marches x Q :=
  fun r hr => (h r hr).imp_right fun h => ⟨hPQ _ h.1, h.2⟩

theorem pure {a : K → α} (h : P a) : S.Marches (fun k => Pure.pure (a k)) P := fun _ hr => .inr ⟨h, hr⟩

variable {g : K → α → Emit β} {R : (K → β) → Prop}

theorem bind_of_failed (hx : S.Marches x P)
    (hfailed : ∀ k a r, r.failure ≠ none → (g k a (S.setting k) r).2.failure ≠ none)
    (hg : ∀ a, P a → S.Marches (fun k => g k (a k)) R) : S.Marches (fun k => x k >>= g k) R := by
  intro r hr
  rcases hx r hr with hfail | ⟨hP, hr'⟩
  · exact .inl fun k => hfailed k _ _ (hfail k)
  · exact hg _ hP _ hr'

theorem bind (hx : S.Marches x P)
    [hacts : ∀ k a, Acts (S.setting k) (g k a)] (hg : ∀ a, P a → S.Marches (fun k => g k (a k)) R) :
    S.Marches (fun k => x k >>= g k) R :=
  hx.bind_of_failed (fun k a _ => (hacts k a).failure_ne_none) hg

/-- Steps that only look at the runs, or at what stays the same during them. -/
theorem look {a : K → α} (hlook : ∀ k r, r.failure = none → x k (S.setting k) r = (a k, r))
    (hg : S.Marches (fun k => g k (a k)) R) : S.Marches (fun k => x k >>= g k) R := by
  intro r hr
  have heq : ∀ k, (x k >>= g k) (S.setting k) (r k) = g k (a k) (S.setting k) (r k) := by
    intro k
    rw [bind_apply, hlook k (r k) (hr.running k)]
  simp only [heq]
  exact hg r hr

theorem fail (kind : K → FailureKind) (block : K → Option BlockData) (detail : K → String)
    {R : (K → Fragment) → Prop} : S.Marches (fun k => Emit.fail (kind k) (block k) (detail k)) R :=
  fun r _ => .inl fun k => (fail_eq (S.setting k) (kind k) (block k) (detail k) (r k)).1

end Marches

theorem InStep.act {r : K → Run} (h : S.InStep r) {a : Action} (ha : a.IsNeutral) :
    S.InStep fun k => (r k).act (S.setting k) a := by
  refine ⟨fun k => ?_, fun k k' => ?_, S.kept_act r a ha h.agrees h.kept⟩
  · have hrunning := h.running k
    cases a with
    | variableName | procedureName | freshVariable | define | openPanel => exact hrunning
    | addHelper key lines =>
      dsimp only [Run.act]
      rcases addHelper_cases (S.setting k) key lines (r k) with ⟨name, -, -, heq⟩ | ⟨-, slot, code, heq⟩
      all_goals
        rw [heq]
        exact hrunning
    | addWidget name code =>
      obtain ⟨panels, heq⟩ := addWidget_eq (S.setting k) name code (r k)
      dsimp only [Run.act]
      rw [heq]
      exact hrunning
    | enter | fail => exact ha.elim
  · have hagrees := h.agrees k k'
    obtain ⟨hnames, hhelpers, hpanels, hkeys⟩ := h.agrees k k'
    cases a with
    | variableName x => exact ⟨congrArg (fun t => (t.get x .userVariable).2) hnames, hhelpers, hpanels, hkeys⟩
    | procedureName x => exact ⟨congrArg (fun t => (t.get x .procedure).2) hnames, hhelpers, hpanels, hkeys⟩
    | freshVariable seed =>
      exact ⟨congrArg (fun t => (t.distinct seed .userVariable).2) hnames, hhelpers, hpanels, hkeys⟩
    | addHelper key lines =>
      exact (hagrees.addHelper ((S.indent_eq k).trans (S.indent_eq k').symm) key lines).2
    | define key code => exact hagrees.put key code code
    | openPanel => exact ⟨hnames, hhelpers, congrArg (· ++ [[]]) hpanels, hkeys⟩
    | addWidget name code => exact hagrees.addWidget name code
    | enter | fail => exact ha.elim

namespace MarchesAlike

theorem of_act [Inhabited K] {x : K → Emit α} (a : Action) (ha : a.IsNeutral)
    (hrun : ∀ k r, (x k (S.setting k) r).2 = r.act (S.setting k) a)
    (hresult : ∀ k k' r r', r.Agrees r' → (x k (S.setting k) r).1 = (x k' (S.setting k') r').1) : S.MarchesAlike x := by
  refine ⟨fun k r h => ?_, fun r hr => .inr ⟨⟨(x default (S.setting default) (r default)).1, ?_⟩, ?_⟩⟩
  · rw [hrun]
    exact Run.failure_act h a
  · funext k
    exact hresult k default _ _ (hr.agrees k default)
  · simp only [hrun]
    exact hr.act ha

theorem of_look {x : K → Emit α} (hrun : ∀ k r, (x k (S.setting k) r).2 = r)
    (hresult : ∀ r, S.InStep r → ∃ c, ∀ k, (x k (S.setting k) (r k)).1 = c) : S.MarchesAlike x := by
  refine ⟨fun k r h => ?_, fun r hr => .inr ⟨?_, ?_⟩⟩
  · rw [hrun]
    exact h
  · obtain ⟨c, hc⟩ := hresult r hr
    exact ⟨c, funext hc⟩
  · simp only [hrun]
    exact hr

end MarchesAlike

/-- **Marching alike is a law.** -/
def law [Inhabited K] (S : Parallel K) : Law K where
  setting := S.setting
  indent := S.indent
  oneBased := S.oneBased
  indent_eq := S.indent_eq
  oneBased_eq := S.oneBased_eq
  Obeys := S.MarchesAlike
  pure a := ⟨fun _ _ h => h, .pure ⟨a, rfl⟩⟩
  bind hx hg := by
    refine ⟨fun k r h => (hg _).failed k _ (hx.failed k r h), ?_⟩
    refine hx.marches.bind_of_failed (fun k a => (hg a).failed k) fun a ha => ?_
    obtain ⟨c, rfl⟩ := ha
    exact (hg c).marches
  read hg := ⟨hg.failed, .look (fun _ _ _ => rfl) hg.marches⟩
  failed := by
    refine .of_look (fun _ _ => rfl) fun r hr => ⟨false, fun k => ?_⟩
    exact congrArg Option.isSome (hr.running k)
  fail kind block detail := ⟨fun k r _ => (fail_eq (S.setting k) kind block detail r).1, .fail _ _ _⟩
  variableName x := .of_act (.variableName x) trivial (fun _ _ => rfl)
    fun _ _ _ _ h => congrArg (fun t => (t.get x .userVariable).1) h.names
  procedureName x := .of_act (.procedureName x) trivial (fun _ _ => rfl)
    fun _ _ _ _ h => congrArg (fun t => (t.get x .procedure).1) h.names
  freshVariable seed := .of_act (.freshVariable seed) trivial (fun _ _ => rfl)
    fun _ _ _ _ h => congrArg (fun t => (t.distinct seed .userVariable).1) h.names
  addHelper key lines hkey := .of_act (.addHelper key lines) hkey (fun _ _ => rfl)
    fun k k' _ _ h => (h.addHelper ((S.indent_eq k).trans (S.indent_eq k').symm) key lines).1
  define key code hkey := .of_act (.define key code) hkey (fun _ _ => rfl) fun _ _ _ _ _ => rfl
  openPanel := .of_act .openPanel trivial (fun _ _ => rfl) fun _ _ _ _ h => congrArg List.length h.panels
  addWidget name code := .of_act (.addWidget name code) trivial (fun _ _ => rfl) fun _ _ _ _ _ => rfl
  panel number := by
    refine .of_look (fun _ _ => rfl) fun r hr => ⟨(r default).panels.getD number [], fun k => ?_⟩
    exact congrArg (List.getD · number []) (hr.agrees k default).panels

variable [Inhabited K]

/-- The steps march alike. -/
abbrev Uniform (S : Parallel K) (x : K → Emit α) : Prop := S.law.Holds x

/-- Scenes of blocks that differ in nothing but their comments, with the same values in their
sockets. -/
abbrev Scenes (S : Parallel K) (s : K → Scene) (d : BlockData) : Prop := S.law.Scenes s d

theorem Uniform.marches {x : K → Emit α} (h : S.Uniform x) : S.Marches x fun a => ∃ c, a = fun _ => c :=
  (show S.MarchesAlike x from h.obeys).marches

/-- After a step with the same result for all `k`. -/
theorem Marches.uniform_bind {x : K → Emit α} {g : K → α → Emit β} {R : (K → β) → Prop} [hx : S.Uniform x]
    [∀ k a, Acts (S.setting k) (g k a)] (hg : ∀ c, S.Marches (fun k => g k c) R) :
    S.Marches (fun k => x k >>= g k) R := by
  refine hx.marches.bind fun a ha => ?_
  obtain ⟨c, rfl⟩ := ha
  exact hg c

end Parallel

end BlockProgram
