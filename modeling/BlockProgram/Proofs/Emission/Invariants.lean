import BlockProgram.Proofs.Emission.Definers
import BlockProgram.Proofs.Emission.Parallel

/-! # Invariants of runs

A property of runs that neutral actions keep up is kept up by almost all handlers: a single run is a
family of runs in step (`Invariant.alone`), and to keep it up is a law.  What is left is what the
blocks that define something store.  If this keeps up the property, then so does the emission of
every block and every stack (`Invariant.Admits.uniform_emit`).
-/
namespace BlockProgram

/-! ### Sites -/

theorem Stack.sites_eq_cons (place : Place) (b : Block) (bs : Stack) :
    Stack.sites place (b :: bs) = b.sites place bs ++ Stack.sites (place.after b.data) bs := by
  rw [Stack.sites]

theorem Socket.sites_eq (place : Place) (owner : BlockData) (s : Socket) :
    s.sites place owner = Stack.sites (place.inside owner (s.kind = .value)) s.target := by
  obtain ⟨name, kind, plugged, shadow⟩ := s
  cases plugged with
  | nil => rfl
  | cons b bs =>
    rfl

theorem Socket.listSites_eq_flatMap (place : Place) (owner : BlockData) (ss : List Socket) :
    Socket.listSites place owner ss =
      ss.flatMap fun s => Stack.sites (place.inside owner (s.kind = .value)) s.target := by
  induction ss with
  | nil => rfl
  | cons s ss ih => unfold Socket.listSites; rw [ih, List.flatMap_cons, Socket.sites_eq]

theorem Block.sites_eq (place : Place) (following : Stack) (b : Block) :
    b.sites place following = ⟨b, place, following⟩ ::
      b.sockets.flatMap fun s => Stack.sites (place.inside b.data (s.kind = .value)) s.target := by
  obtain ⟨d, ss⟩ := b
  unfold Block.sites
  rw [Socket.listSites_eq_flatMap]
  rfl

/-! ### A run by itself -/

/-- A property of runs that neutral actions keep up. -/
structure Invariant (setting : Setting) where
  Holds : Run → Prop
  act : ∀ (r : Run) (a : Action), a.IsNeutral → Holds r → Holds (r.act setting a)

namespace Invariant

variable {setting : Setting}

/-- The family of a single run. -/
def alone (I : Invariant setting) : Parallel Unit where
  setting _ := setting
  indent := setting.options.indent
  oneBased := setting.options.oneBasedIndex
  indent_eq _ := rfl
  oneBased_eq _ := rfl
  Kept r := I.Holds (r ())
  kept_act r a ha _ := I.act (r ()) a ha

/-- The step keeps up the invariant, unless it fails. -/
abbrev Uniform (I : Invariant setting) {α : Type} (x : Emit α) : Prop := I.alone.Uniform fun _ => x

variable {I : Invariant setting} {α β : Type}

theorem inStep_iff {r : Run} : (I.alone.InStep fun _ => r) ↔ r.failure = none ∧ I.Holds r :=
  ⟨fun h => ⟨h.running (), h.kept⟩, fun h => ⟨fun _ => h.1, fun _ _ => ⟨rfl, rfl, rfl, rfl⟩, h.2⟩⟩

theorem Uniform.cases {x : Emit α} (h : I.Uniform x) {r : Run} (hrunning : r.failure = none) (hr : I.Holds r) :
    (x setting r).2.failure ≠ none ∨ (x setting r).2.failure = none ∧ I.Holds (x setting r).2 := by
  rcases h.marches _ (inStep_iff.mpr ⟨hrunning, hr⟩) with hfail | ⟨-, hr'⟩
  · exact .inl (hfail ())
  · exact .inr (inStep_iff.mp hr')

theorem uniform_of_cases {x : Emit α} (hfailed : ∀ r : Run, r.failure ≠ none → (x setting r).2.failure ≠ none)
    (h : ∀ r : Run, r.failure = none → I.Holds r →
    (x setting r).2.failure ≠ none ∨ (x setting r).2.failure = none ∧ I.Holds (x setting r).2) : I.Uniform x := by
  refine ⟨⟨fun _ => hfailed, fun r hr => ?_⟩⟩
  rcases h (r ()) (hr.running ()) hr.kept with hfail | hholds
  · exact .inl fun _ => hfail
  · exact .inr ⟨⟨(x setting (r ())).1, rfl⟩, inStep_iff.mpr hholds⟩

/-- What is plugged into the block of the scene keeps up the invariant. -/
abbrev Scenes (I : Invariant setting) (s : Scene) : Prop := I.alone.law.Bodies (fun _ => s) s

/-! ### Blocks and stacks -/

theorem uniform_link {b : BlockData} {first : Emit Fragment} {rest : Emit String} (hfirst : I.Uniform first)
    (hrest : I.Uniform rest) : I.Uniform (Emit.link b first rest) := by
  refine hfirst.bind fun code => Law.Holds.bind inferInstance fun failed => ?_
  split
  · infer_instance
  · cases code <;> infer_instance

theorem uniform_stack {At : Site → Prop} {bs : Stack} {place : Place} (hbs : ∀ σ ∈ Stack.sites place bs, At σ)
    (h : ∀ b ∈ bs, ∀ place following, (∀ σ ∈ b.sites place following, At σ) → I.Uniform (b.emit .standard place)) :
    I.Uniform (Stack.emitFirst .standard place bs) ∧ I.Uniform (Stack.emit .standard place bs) := by
  induction bs generalizing place with
  | nil =>
    unfold Stack.emitFirst Stack.emit
    exact ⟨inferInstance, inferInstance⟩
  | cons b bs ih =>
    rw [Stack.sites_eq_cons, List.forall_mem_append] at hbs
    have hb := h b List.mem_cons_self place bs hbs.1
    have hrest := (ih hbs.2 fun b' hb' => h b' (List.mem_cons_of_mem b hb')).2
    exact ⟨hb, uniform_link hb hrest⟩

theorem scenes_of_stacks {b : Block} {place : Place}
    (h : ∀ s ∈ b.sockets, I.Uniform (Stack.emitFirst .standard (place.inside b.data (s.kind = .value)) s.target) ∧
      I.Uniform (Stack.emit .standard (place.inside b.data (s.kind = .value)) s.target)) :
    I.Scenes (b.scene .standard place) := by
  have hslot : ∀ name slot, (b.scene .standard place).slot? name = some slot →
      I.Uniform slot.code ∧ I.Uniform slot.chain := by
    intro name slot hslot
    rw [Block.slot?_scene] at hslot
    obtain ⟨s, hs, rfl⟩ := Option.map_eq_some_iff.mp hslot
    rw [Socket.slot_eq]
    exact h s (List.mem_of_find?_eq_some hs)
  refine { value := fun name outer => ?_, statements := fun name => ?_ }
  · unfold Emit.value
    split
    · infer_instance
    · case h_2 slot hsome =>
      have hcode := (hslot name slot hsome).1
      split
      · infer_instance
      · refine Law.Holds.bind inferInstance fun failed => ?_
        split
        · infer_instance
        · refine hcode.bind fun code => Law.Holds.bind inferInstance fun failed => ?_
          split
          · infer_instance
          · cases code <;> infer_instance
  · unfold Emit.statements
    split
    · infer_instance
    · case h_2 slot hsome =>
      have hchain := (hslot name slot hsome).2
      infer_instance

/-- A family of invariants that blocks at some sites keep up.  What holds inside of a block that is
entered from some run is given by `inner`: it is to hold once the block has been entered, and once
its code is done what held before is to hold again.  A block that defines something may store its
function. -/
structure Admits {ι : Type} (I : ι → Invariant setting) (inner : Site → Run → ι → ι) (At : Site → Prop) : Prop where
  enter : ∀ (i : ι) (σ : Site) (r : Run), At σ → (I i).Holds r →
    (I (inner σ r i)).Holds { r with dispatched := σ.block.data :: r.dispatched }
  store : ∀ (i : ι) (σ : Site) (r : Run), At σ → σ.IsDefiner →
    let f := Vocabulary.function? σ.scene setting { r with dispatched := σ.block.data :: r.dispatched }
    (I i).Holds r → f.2.failure = none → (I (inner σ r i)).Holds f.2 →
      (I (inner σ r i)).Holds (Vocabulary.storeFunction f.1 setting f.2).2
  leave : ∀ (i : ι) (σ : Site) (r : Run), At σ → r.failure = none → σ.block.data.disabled = false →
    let out := σ.emit setting r
    (I i).Holds r → out.2.failure = none → (I (inner σ r i)).Holds out.2 → (I i).Holds out.2

namespace Admits

variable {ι : Type} {I : ι → Invariant setting} {inner : Site → Run → ι → ι} {At : Site → Prop}
  (hadmits : Admits I inner At)
include hadmits

theorem handler_cases {σ : Site} (hσ : At σ) (i : ι) {r : Run} [hs : (I (inner σ r i)).Scenes σ.scene] {h : BlockHandler}
    (hget : Vocabulary.standard.get? σ.block.type = some h) (hdisabled : σ.block.data.disabled = false)
    (hrunning : r.failure = none) (hr : (I i).Holds r) :
    let out := h.emit σ.scene setting { r with dispatched := σ.block.data :: r.dispatched }
    out.2.failure ≠ none ∨ out.2.failure = none ∧ (I (inner σ r i)).Holds out.2 := by
  have hentered := hadmits.enter i σ r hσ hr
  have hstore := hadmits.store i σ r hσ
  have hdefines := Vocabulary.isProcedureDefinition_eq (d := σ.block.data) hget
  generalize hr₁ : ({ r with dispatched := σ.block.data :: r.dispatched } : Run) = r₁ at hentered hstore ⊢
  have hrunning₁ : r₁.failure = none := hr₁ ▸ hrunning
  cases hflags : h.flags.definesProcedure with
  | false =>
    have huniform : (I (inner σ r i)).Uniform (h.emit σ.scene) := Law.holds_handler hget hflags
    exact huniform.cases hrunning₁ hentered
  | true =>
    rw [Vocabulary.emit_eq_function? (s := σ.scene) hget (hdefines.trans hflags)]
    dsimp only
    rw [bind_apply]
    have hstored : ∀ f r', (Vocabulary.storeFunction f setting r').2.failure = r'.failure := by
      intro f r'
      cases f <;> rfl
    rw [hstored]
    have huniform : (I (inner σ r i)).Uniform (Vocabulary.function? σ.scene) := inferInstance
    refine (huniform.cases hrunning₁ hentered).imp_right fun ⟨hrunning', hr'⟩ => ⟨hrunning', ?_⟩
    exact hstore ⟨hdefines.trans hflags, hdisabled⟩ hr hrunning' hr'

theorem uniform_dispatch {σ : Site} (hσ : At σ) (i : ι) (hscenes : ∀ r, (I (inner σ r i)).Scenes σ.scene) :
    (I i).Uniform (σ.emit) := by
  have hemit : σ.emit = Emit.dispatch .standard σ.scene :=
    Block.emit_eq .standard σ.place σ.block
  refine uniform_of_cases (fun r hfailed => ?_) fun r hrunning hr => ?_
  · rw [hemit, dispatch_of_idle (.inl (Option.isSome_iff_ne_none.mpr hfailed))]
    exact hfailed
  · cases hdisabled : σ.block.data.disabled with
    | true =>
      rw [hemit, dispatch_of_idle (s := σ.scene) (.inr hdisabled)]
      exact .inr ⟨hrunning, hr⟩
    | false =>
      cases hget : Vocabulary.standard.get? σ.block.type with
      | none =>
        rw [hemit, dispatch_of_unknown (s := σ.scene) hrunning hdisabled hget]
        exact .inl (fail_eq setting ..).1
      | some h =>
        have hleave := hadmits.leave i σ r hσ hrunning hdisabled
        rw [hemit, dispatch_of_handled (s := σ.scene) hrunning hdisabled hget] at hleave ⊢
        rcases hadmits.handler_cases hσ i hget hdisabled hrunning hr with hfail | ⟨hrunning', hr'⟩
        · exact .inl hfail
        · exact .inr ⟨hrunning', hleave hr hrunning' hr'⟩

/-- **All blocks keep up the invariants.** -/
theorem uniform_emit (b : Block) (place : Place) (following : Stack) (hb : ∀ σ ∈ b.sites place following, At σ) (i : ι) :
    (I i).Uniform (b.emit .standard place) := by
  induction b using Block.induct generalizing place following i with
  | h b ih =>
    rw [Block.sites_eq, List.forall_mem_cons] at hb
    refine hadmits.uniform_dispatch (σ := ⟨b, place, following⟩) hb.1 i fun r => ?_
    exact scenes_of_stacks fun s hs => uniform_stack (fun σ hσ => hb.2 σ (List.mem_flatMap.mpr ⟨s, hs, hσ⟩))
      fun b' hb' place' following' hsites => ih s hs b' hb' place' following' hsites _

variable {g : Generator} (hg : g.vocabulary = .standard)
include hg

/-- **The stacks of a workspace keep up the invariant.** -/
theorem uniform_emitTops {tops : List Stack} (htops : ∀ stack ∈ tops, ∀ σ ∈ Stack.sites {} stack, At σ)
    (i : ι) : (I i).Uniform (g.emitTops tops) := by
  refine Law.holds_emitTops fun stack hstack => Law.holds_emitTop fun b bs heq => ?_
  have hsites := htops stack hstack
  rw [heq, Stack.sites_eq_cons, List.forall_mem_append] at hsites
  rw [hg]
  refine ⟨hadmits.uniform_emit b {} bs hsites.1 i, ?_⟩
  exact (uniform_stack hsites.2 fun b' _ place following hb' => hadmits.uniform_emit b' place following hb' i).2

end Admits

end Invariant

end BlockProgram
