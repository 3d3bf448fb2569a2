import BlockProgram.Proofs.Emission.Grouping
import BlockProgram.Proofs.Value.Regrouping

/-! # Emitted expressions have the value of their blocks

A run gives every variable an identifier of its own, so that values for the variables are values for
the identifiers (`Run.environment`).  With these the text of an expression has the value of the
blocks (`Block.value_evaluates`), with one exception: where a product has a remainder as its right
operand the text is read as the remainder of a product.
-/
namespace BlockProgram

open Expression

open Grammar (Operator)

namespace Run

variable {r : Run}

/-- Values for variables, by the names that tell them apart. -/
def valuation (r : Run) (ρ : String → Value) : Valuation where
  ofVariable x := ρ (r.variableKey x)
  lengthOf _ := .mistyped

/-- Values for the identifiers of the variables. -/
def environment (r : Run) (ρ : String → Value) : Environment where
  ofName w :=
    match r.names.entries.find? fun e => e.category = .userVariable ∧ e.text = w with
    | some e => ρ (Text.lower e.logical)
    | none => .null
  lengthOf _ := .mistyped

theorem Settled.name_environment (hr : r.Good) {x : String} (hx : r.Settled x) (ρ : String → Value) :
    (r.environment ρ).name (r.naming.ofVariable x).text = ρ (r.variableKey x) := by
  obtain ⟨e, he⟩ := hx
  have hfree (w : String) (hw : w ∈ reservedWords) : e.text ≠ w := by
    rintro rfl
    exact (hr.names.text_free he.1).2 (hr.reserved hw)
  rw [he.text_ofVariable hr]
  unfold Environment.name
  rw [if_neg (hfree _ (by decide)), if_neg (hfree _ (by decide)), if_neg (hfree _ (by decide))]
  unfold environment
  dsimp only
  cases hfind : r.names.entries.find? fun e' => e'.category = .userVariable ∧ e'.text = e.text with
  | none =>
    have hnone := List.find?_eq_none.mp hfind e he.1
    simp [he.2.1] at hnone
  | some e' =>
    have hspec := List.find?_some hfind
    simp only [decide_eq_true_eq] at hspec
    have heq := hr.names.eq_of_word (List.mem_of_find?_eq_some hfind) he.1
      (hspec.1.trans he.2.1.symm) hspec.2
    rw [heq]
    exact congrArg ρ he.2.2

end Run

/-- The text and the blocks give the same values to the variables of an expression. -/
theorem Expression.eval_environment {r r' : Run} {e : Expression} (h : r.Follows r')
    (hvars : ∀ x ∈ e.variables, r'.Settled x) (ρ : String → Value) :
    e.eval ((r'.environment ρ).valuation r'.naming) = e.eval (r.valuation ρ) := by
  refine eval_congr (fun x hx => ?_) rfl
  show (r'.environment ρ).name (r'.naming.ofVariable x).text = ρ (r.variableKey x)
  rw [(hvars x hx).name_environment h.good]
  unfold Run.variableKey
  rw [h.resolve]

/-- **The text of a value evaluates to the value of its blocks**, for all values of the variables,
if no product has a remainder among the factors of its right operand. In every case it evaluates to
the value of the tree it is read as. In particular the text of a product of `a` with the remainder
of `b` by `c` evaluates to the remainder of `a * b` by `c`; of all operations that may stand in a
right operand without parentheses, a remainder in a product is the only one for which this makes a
difference. The value of an expression with a type is of that type, or does not exist because of a
division by zero. -/
theorem Block.value_evaluates (setting : Setting) (owner : Block) (place : Place) (name : String)
    (outer : Precedence) (e : Expression) (he : owner.operand name = .filled e) (r : Run) (hr : r.Good)
    (ρ : String → Value) :
    ∃ text r',
      Emit.value (owner.stage place) name outer setting r = (text, r') ∧ r.Follows r' ∧
      Grammar.readText text = some (e.tree r'.naming) ∧
      (e.multipliesRemainder = false → (e.tree r'.naming).eval (r'.environment ρ) = e.eval (r.valuation ρ)) ∧
      (∀ a b c, e = .binary .multiply a (.binary .remainder b c) → a.multipliesRemainder = false →
        b.multipliesRemainder = false → c.multipliesRemainder = false → b.hasRemainder = false →
        (e.tree r'.naming).eval (r'.environment ρ) = Operator.remainder.apply
          (Operator.times.apply (a.eval (r.valuation ρ)) (b.eval (r.valuation ρ))) (c.eval (r.valuation ρ))) ∧
      (∀ op o : Operation, op.regroups = true → o.precedence = op.precedence →
        ((∀ x y z, op.operator.apply x (o.operator.apply y z) =
          o.operator.apply (op.operator.apply x y) z) ↔ ¬ (op = .multiply ∧ o = .remainder))) ∧
      (∀ Γ τ, e.type? Γ = some τ → (∀ x ∈ e.variables, (ρ (r.variableKey x)).type? = some (Γ x)) →
        (e.eval (r.valuation ρ)).HasType τ) := by
  obtain ⟨r', hemit, hfollows, hsettled⟩ := owner.value_eq place outer he hr
  refine ⟨_, r', hemit, hfollows, e.readText_printAt outer _, ?_, ?_, ?_, ?_⟩
  · intro h
    rw [eval_tree h, eval_environment hfollows hsettled]
  · rintro a b c rfl ha hb hc hfactors
    have hvars (x : String) (hx : x ∈ a.variables ++ (b.variables ++ c.variables)) : r'.Settled x :=
      hsettled x hx
    rw [eval_tree_remainder ha hb hc hfactors,
      eval_environment hfollows fun x hx => hvars x (by simp [hx]),
      eval_environment hfollows fun x hx => hvars x (by simp [hx]),
      eval_environment hfollows fun x hx => hvars x (by simp [hx])]
  · exact fun op o hop ho => Operation.associate_iff hop ho
  · exact fun Γ τ hτ hΓ => hasType_eval hΓ hτ

/-- The blocks of two times the remainder of three by two, in a statement that prints it. -/
def Block.productOfRemainder : Block :=
  simple "text_print" [] [("TEXT", simple "math_arithmetic" [("OP", "MULTIPLY")]
    [("A", simple "math_number" [("NUM", "2")] []),
      ("B", simple "math_modulo" []
        [("DIVIDEND", simple "math_number" [("NUM", "3")] []),
          ("DIVISOR", simple "math_number" [("NUM", "2")] [])])])]

def Expression.productOfRemainder : Expression :=
  .binary .multiply (.number .two) (.binary .remainder
    (.number { negative := false, mantissa := 3 * 2 ^ 51, exponent := -51 }) (.number .two))

/-- The text evaluates to zero, and the blocks to two. -/
theorem Block.value_evaluates_productOfRemainder : ∃ text t r',
      Emit.value (productOfRemainder.stage {}) "TEXT" .loosest ({} : Generator).setting
        (({} : Generator).start {}) = (text, r') ∧
      Grammar.readText text = some t ∧ t.eval (r'.environment fun _ => .null) = .ok (.number 0) ∧
      Expression.productOfRemainder.eval ((({} : Generator).start {}).valuation fun _ => .null) = .ok (.number 2) := by
  obtain ⟨text, r', hemit, -, hread, -, hvalue, -⟩ := value_evaluates ({} : Generator).setting
    productOfRemainder {} "TEXT" .loosest .productOfRemainder rfl _
    (Generator.good_start {} (List.Subset.refl _) {}) fun _ => .null
  refine ⟨text, _, r', hemit, hread, ?_, by decide +kernel⟩
  rw [hvalue _ _ _ rfl rfl rfl rfl rfl]
  decide +kernel

end BlockProgram
