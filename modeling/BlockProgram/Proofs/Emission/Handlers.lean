import BlockProgram.Proofs.Emission.Traces
import BlockProgram.Proofs.Emission.Trees

/-! # Every block has a trace

A handler may emit whatever is plugged into its block, so a statement for all blocks goes by
recursion along them (`EmitRule`).  Every handler of the vocabulary asks nothing of a run but what
there are rules for (`Vocabulary.open_standard`).  So a whole run of the generator has a trace
(`Generator.traceable_program`), and does nothing but actions.
-/
namespace BlockProgram

variable {v : Vocabulary} {setting : Setting} {α β : Type}

/-! ### Scenes -/

theorem Scene.mem_of_slot? {s : Scene} {name : String} {slot : Slot} (h : s.slot? name = some slot) : slot ∈ s.slots :=
  List.mem_of_find?_eq_some h

/-- There is nothing to read, or a block to emit. -/
theorem Scene.Over.value_cases {Code : Emit Fragment → Prop} {Chain : Emit String → Prop} {s : Scene}
    (hs : s.Over v Code Chain) (name : String) (r : Run) :
    ((∀ slot, s.slot? name = some slot → slot.target = []) ∨ r.failure.isSome) ∨
    ∃ slot first rest below, s.slot? name = some slot ∧ slot.target = first :: rest ∧
    below.data = first.data ∧ slot.code = Emit.dispatch v below ∧ r.failure = none ∧ Code (Emit.dispatch v below) := by
  by_cases hunread : (∀ slot, s.slot? name = some slot → slot.target = []) ∨ r.failure.isSome
  · exact .inl hunread
  · rw [not_or, Bool.not_eq_true, Option.isSome_eq_false_iff, Option.isNone_iff_eq_none] at hunread
    obtain ⟨hplugged, hrunning⟩ := hunread
    simp only [not_forall] at hplugged
    obtain ⟨slot, hslot, htarget⟩ := hplugged
    obtain ⟨first, rest, htarget⟩ := List.exists_cons_of_ne_nil htarget
    obtain ⟨below, hbelow, hcode, h⟩ := hs.code slot (Scene.mem_of_slot? hslot) first rest htarget
    exact .inr ⟨slot, first, rest, below, hslot, htarget, hbelow, hcode, hrunning, h⟩

instance (s : Scene) (name : String) (outer : Precedence) (first : Block) (code : Fragment) :
    Traceable v setting (Emit.settle s name outer first code) := by
  refine Law.Holds.bind inferInstance fun failed => ?_
  split
  · infer_instance
  · cases code <;> infer_instance

instance {s : Scene} [hs : s.Open v setting] : (tracing v setting).Bodies (fun _ => s) s where
  value name outer := by
    refine ⟨fun r => ?_⟩
    rcases hs.value_cases name r with
      hunread | ⟨slot, first, rest, below, hslot, htarget, hbelow, hcode, hrunning, htraceable⟩
    · exact ⟨_, .unread hunread⟩
    · obtain ⟨es, hes⟩ := htraceable.exists_trace r
      obtain ⟨es', hes'⟩ := (inferInstance : Traceable v setting (Emit.settle s name outer first
        (Emit.dispatch v below setting r).1)).exists_trace (Emit.dispatch v below setting r).2
      exact ⟨_, .read hslot htarget hbelow hcode hrunning hes hes'⟩
  statements name := by
    refine ⟨fun r => ?_⟩
    cases hslot : s.slot? name with
    | none => exact ⟨_, .unenclosed hslot⟩
    | some slot =>
      obtain ⟨hchain, htraceable⟩ := hs.chain slot (Scene.mem_of_slot? hslot)
      obtain ⟨es, hes⟩ := htraceable.exists_trace r
      exact ⟨_, .enclosed hslot hchain hes⟩

/-! ### Handlers -/

namespace Vocabulary

instance (f : Option (String × String)) : Traceable v setting (storeFunction f) := by
  cases f <;> unfold storeFunction <;> infer_instance

/-- **The handlers of the editor are open.** -/
theorem open_standard {type : String} {h : BlockHandler} (hh : standard.get? type = some h) : h.Open v setting := by
  intro s hs
  cases hdefines : h.flags.definesProcedure with
  | false => exact Law.holds_handler hh hdefines
  | true =>
    rcases emit_of_definesProcedure hh hdefines with hemit | hemit
    · rw [hemit, procedureDefinition]
      infer_instance
    · rw [hemit, widgetCallback]
      infer_instance

def Open (setting : Setting) (v : Vocabulary) : Prop :=
  ∀ type h, v.get? type = some h → h.Open v setting

end Vocabulary

/-! ### Blocks -/

theorem traceable_dispatch (hv : v.Open setting) (s : Scene) (hs : s.Open v setting) :
    Traceable v setting (Emit.dispatch v s) := by
  refine ⟨fun r => ?_⟩
  by_cases hidle : r.failure.isSome ∨ s.data.disabled = true
  · exact ⟨_, .idle hidle⟩
  · rw [not_or, Bool.not_eq_true, Option.isSome_eq_false_iff, Option.isNone_iff_eq_none, Bool.not_eq_true] at hidle
    obtain ⟨hrunning, henabled⟩ := hidle
    cases hget : v.get? s.data.type with
    | none => exact ⟨_, .unknown hrunning henabled hget⟩
    | some h =>
      obtain ⟨es, hes⟩ := (hv _ h hget s hs).exists_trace { r with dispatched := s.data :: r.dispatched }
      exact ⟨_, .handled hrunning henabled hget hes⟩

theorem traceable_link (below : Scene) (rest : Emit String) [hbelow : Traceable v setting (Emit.dispatch v below)]
    [hrest : Traceable v setting rest] : Traceable v setting (Emit.link below.data (Emit.dispatch v below) rest) := by
  refine ⟨fun r => ?_⟩
  have hproceed : ∀ code, Traceable v setting (Emit.proceed below.data rest code) := by
    intro code
    refine Law.Holds.bind inferInstance fun failed => ?_
    split
    · infer_instance
    · cases code <;> infer_instance
  obtain ⟨es, hes⟩ := hbelow.exists_trace r
  obtain ⟨es', hes'⟩ := (hproceed (Emit.dispatch v below setting r).1).exists_trace
    (Emit.dispatch v below setting r).2
  exact ⟨_, .link hes hes'⟩

/-- **What holds of all blocks**, by recursion along them: of a block if it holds of all that is
plugged into it, and of a stack if it holds of its first block and of the rest. The scenes of the
blocks that count are known to be `Usual`. -/
structure EmitRule (v : Vocabulary) (Usual : Scene → Prop) (Code : Emit Fragment → Prop)
    (Chain : Emit String → Prop) : Prop where
  dispatch : ∀ s : Scene, Usual s → s.Over v Code Chain → Code (Emit.dispatch v s)
  nil : Chain (pure "")
  link : ∀ (below : Scene) (rest : Emit String), Code (Emit.dispatch v below) → Chain rest →
    Chain (Emit.link below.data (Emit.dispatch v below) rest)

section

variable {Usual : Scene → Prop} {Code : Emit Fragment → Prop} {Chain : Emit String → Prop}
  (rule : EmitRule v Usual Code Chain)
include rule

theorem Stack.emit_rule {bs : Stack} (h : ∀ b ∈ bs, ∀ place, Code (b.emit v place)) (place : Place) :
    IsChain v (Stack.emit v place bs) ∧ Chain (Stack.emit v place bs) := by
  induction bs generalizing place with
  | nil =>
    exact ⟨.nil, rule.nil⟩
  | cons b bs ih =>
    obtain ⟨hb, hbs⟩ := List.forall_mem_cons.mp h
    have hrest := ih hbs (place.after b.data)
    have hfirst := hb place
    unfold Stack.emit
    rw [Block.emit_eq] at hfirst ⊢
    exact ⟨.cons _ hrest.1, rule.link _ _ hfirst hrest.2⟩

theorem Block.over_scene {b : Block} (h : ∀ s ∈ b.sockets, ∀ b' ∈ s.target, ∀ place, Code (b'.emit v place))
    (place : Place) : (b.scene v place).Over v Code Chain := by
  have hslot : ∀ slot ∈ (b.scene v place).slots, ∃ s ∈ b.sockets, s.slot v place b.data = slot := by
    intro slot hslot
    unfold Block.scene at hslot
    rw [Socket.listSlots_eq_map] at hslot
    exact List.mem_map.mp hslot
  refine ⟨fun slot hmem first rest htarget => ?_, fun slot hmem => ?_⟩
  all_goals
    obtain ⟨s, hs, rfl⟩ := hslot slot hmem
    rw [Socket.slot_eq] at *
  · dsimp only at htarget ⊢
    have hfirst := h s hs first (htarget ▸ List.mem_cons_self) (place.inside b.data (s.kind = .value))
    rw [htarget]
    unfold Stack.emitFirst
    rw [Block.emit_eq] at hfirst ⊢
    exact ⟨_, rfl, rfl, hfirst⟩
  · exact Stack.emit_rule rule (h s hs) _

theorem Block.emit_rule (b : Block) (husual : ∀ b' ∈ b.descendants, ∀ place, Usual (b'.scene v place)) (place : Place) :
    Code (b.emit v place) := by
  induction b using Block.induct generalizing place with
  | h b ih =>
    rw [Block.emit_eq]
    refine rule.dispatch _ (husual b b.mem_descendants_self place) (Block.over_scene rule (fun s hs b' hb' => ?_) place)
    exact ih s hs b' hb' fun c hc => husual c (Block.descendants_subset hs hb' hc)

end

theorem Vocabulary.Open.rule (hv : v.Open setting) :
    EmitRule v (fun _ => True) (Traceable v setting) (Traceable v setting) where
  dispatch s _ hs := traceable_dispatch hv s ⟨hs⟩
  nil := inferInstance
  link below rest _ _ := traceable_link below rest

/-! ### Programs -/

namespace Generator

variable {g : Generator} (hg : g.vocabulary.Open setting)
include hg

theorem traceable_emitTop (stack : Stack) : Traceable g.vocabulary setting (g.emitTop stack) :=
  Law.holds_emitTop fun b _ _ => ⟨Block.emit_rule hg.rule b (fun _ _ _ => trivial) {},
    (Stack.emit_rule hg.rule (fun b' _ => Block.emit_rule hg.rule b' fun _ _ _ => trivial) _).2⟩

theorem traceable_emitTops (tops : List Stack) : Traceable g.vocabulary setting (g.emitTops tops) :=
  Law.holds_emitTops fun stack _ => traceable_emitTop hg stack

/-- **A run of the generator has a trace.** -/
theorem traceable_program (w : Workspace) : Traceable g.vocabulary setting (g.program w) := by
  have htops := traceable_emitTops hg w.inReadingOrder
  unfold program
  infer_instance

end Generator

/-! ### Standard handlers -/

theorem Vocabulary.open_vocabulary_standard : Vocabulary.standard.Open setting :=
  fun _ _ hh => Vocabulary.open_standard hh

instance (place : Place) (b : Block) : Traceable .standard setting (b.emit .standard place) :=
  Block.emit_rule Vocabulary.open_vocabulary_standard.rule b (fun _ _ _ => trivial) place

instance (place : Place) (b : Block) : (b.scene .standard place).Open .standard setting :=
  ⟨Block.over_scene Vocabulary.open_vocabulary_standard.rule (fun _ _ _ _ _ => inferInstance) place⟩

instance (place : Place) (bs : Stack) : Traceable .standard setting (Stack.emit .standard place bs) :=
  (Stack.emit_rule Vocabulary.open_vocabulary_standard.rule (fun _ _ _ => inferInstance) place).2

/-- What the handlers of the editor do is nothing but actions. -/
instance {x : Emit α} [hx : Traceable .standard setting x] : Acts setting x := hx.acts

/-- **A run of the generator is nothing but actions.** -/
theorem Generator.acts_program {g : Generator} (hg : g.vocabulary = .standard) (w : Workspace) :
    Acts setting (g.program w) := by
  have hopen : g.vocabulary.Open setting := hg ▸ Vocabulary.open_vocabulary_standard
  exact (traceable_program hopen w).acts

end BlockProgram
