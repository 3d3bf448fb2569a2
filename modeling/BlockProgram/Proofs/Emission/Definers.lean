import BlockProgram.Proofs.Emission.Carrying

/-! # Blocks that define functions

A procedure and the callback of a widget become functions of the program: emitting such a block
makes its function and stores it (`Site.emit_of_isDefiner`).
-/
namespace BlockProgram

namespace Site

/-- The block of a site, as its handler sees it. -/
def scene (σ : Site) : Scene := σ.block.scene .standard σ.place

/-- The step that emits the block of a site. -/
abbrev emit (σ : Site) : Emit Fragment := σ.block.emit .standard σ.place

def IsDefiner (σ : Site) : Prop := σ.block.data.isProcedureDefinition = true ∧ σ.block.data.disabled = false

instance (σ : Site) : Decidable σ.IsDefiner := inferInstanceAs (Decidable (_ ∧ _))

instance (σ : Site) {setting : Setting} : σ.scene.Open .standard setting :=
  inferInstanceAs ((σ.block.scene .standard σ.place).Open .standard setting)

end Site

/-- What emitting a definition does: its function is made and stored. -/
theorem Site.emit_of_isDefiner {setting : Setting} {σ : Site} (hdefiner : σ.IsDefiner) {r : Run} (hrunning : r.failure = none) :
    (σ.emit setting r).2 = ((Vocabulary.function? σ.scene >>= Vocabulary.storeFunction) setting
      { r with dispatched := σ.block.data :: r.dispatched }).2 := by
  obtain ⟨h, hget⟩ := BlockData.exists_handler_of_isProcedureDefinition hdefiner.1
  have hemit : σ.emit = Emit.dispatch .standard σ.scene := Block.emit_eq .standard σ.place σ.block
  rw [hemit, dispatch_of_handled (s := σ.scene) hrunning hdefiner.2 hget,
    Vocabulary.emit_eq_function? (s := σ.scene) hget hdefiner.1]
  rfl

end BlockProgram
