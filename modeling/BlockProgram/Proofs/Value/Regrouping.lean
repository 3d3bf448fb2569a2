import BlockProgram.Proofs.Value.Basic

/-! # The value of a regrouped tree

In the tree of an expression the right operand of a sum, a product, a conjunction or a disjunction
may have been taken apart (`Tree.graft`).  This leaves the value as it is when the two operators
associate: a sum with sums and differences, a product with products and quotients, a conjunction or
a disjunction with its like (`Operator.apply_regroup`).  It does not for a product with a remainder,
so that an expression has the value of its tree if none of its products has a remainder among the
factors of its right operand (`Expression.eval_tree`).
-/
namespace BlockProgram

open Constant Outcome

open Grammar (Tree Operator)

namespace Outcome

variable {f g : ℚ → ℚ → ℚ}

theorem combine_combine (h : ∀ a b c, f a (g b c) = g (f a b) c) (x y z : Outcome ℚ) :
    combine f x (combine g y z) = combine g (combine f x y) z := by
  cases x <;> cases y <;> cases z <;> simp [combine, both, h]

theorem combine_divide (h : ∀ a b c, f a (g b c) = g (f a b) c) (x y z : Outcome ℚ) :
    combine f x (divide g y z) = divide g (combine f x y) z := by
  cases z with
  | ok c =>
    by_cases hc : c = 0 <;> cases x <;> cases y <;> simp [combine, divide, both, h, hc]
  | undefined | mistyped => cases x <;> cases y <;> simp [combine, divide, both]

theorem choose_choose (d : Bool) (x y z : Outcome Bool) : choose d x (choose d y z) = choose d (choose d x y) z := by
  cases x with
  | ok a => by_cases ha : a = d <;> simp [choose, bind, ha]
  | undefined | mistyped => rfl

end Outcome

namespace Grammar

/-- The operators that associate: `op x (o y z)` is `o (op x y) z`. -/
def Operator.associates : Operator → Operator → Bool
  | .plus, .plus | .plus, .minus | .times, .times | .times, .over | .and, .and | .or, .or => true
  | _, _ => false

theorem Operator.apply_regroup {op o : Operator} (h : op.associates o = true) (x y z : Outcome Value) :
    op.apply x (o.apply y z) = o.apply (op.apply x y) z := by
  unfold associates at h
  split at h
  · simp [apply, combine_combine (fun a b c : ℚ => (add_assoc a b c).symm)]
  · simp [apply, combine_combine (fun a b c : ℚ => (add_sub_assoc a b c).symm)]
  · simp [apply, combine_combine (fun a b c : ℚ => (mul_assoc a b c).symm)]
  · simp [apply, combine_divide (fun a b c : ℚ => (mul_div_assoc a b c).symm)]
  · simp [apply, choose_choose]
  · simp [apply, choose_choose]
  · cases h

namespace Tree

/-- The operators that `graft op` passes on its way down a tree associate with `op`. -/
def Associates (op : Operator) : Tree → Prop
  | .binary o a _ => o.precedence = op.precedence → op.associates o = true ∧ a.Associates op
  | _ => True

/-- Grafting keeps the value if the operators on the way associate. -/
theorem eval_graft {op : Operator} {t : Tree} (h : t.Associates op) (l : Tree) (E : Environment) :
    (graft op l t).eval E = op.apply (l.eval E) (t.eval E) := by
  induction t with
  | binary o a b iha =>
    by_cases ho : o.precedence = op.precedence
    · obtain ⟨hassociates, ha⟩ := h ho
      rw [graft_same ho]
      show o.apply ((graft op l a).eval E) (b.eval E) = op.apply (l.eval E) (o.apply _ _)
      rw [iha ha, Operator.apply_regroup hassociates]
    · rw [graft_other ho]
      rfl
  | _ => rfl

/-- Sums, conjunctions and disjunctions associate with all operators of their level. -/
theorem associates_of_all {op : Operator}
    (h : ∀ o : Operator, o.precedence = op.precedence → op.associates o = true) (t : Tree) : t.Associates op := by
  induction t with
  | binary o a b iha => exact fun ho => ⟨h o ho, iha⟩
  | _ => trivial

theorem associates_graft {op o : Operator} {l t : Tree} (hl : l.Associates op) (ht : t.Associates op)
    (ho : o.precedence = op.precedence → op.associates o = true) : (graft o l t).Associates op := by
  induction t with
  | binary o' a b iha =>
    by_cases h : o'.precedence = o.precedence
    · rw [graft_same h]
      exact fun h' => ⟨(ht h').1, iha (ht h').2⟩
    · rw [graft_other h]
      exact fun h' => ⟨ho h', hl⟩
  | _ => exact fun h' => ⟨ho h', hl⟩

end Tree

end Grammar

/-- Of an operation that regroups and one of the same precedence, only a product and a remainder do
not associate. -/
theorem Operation.associate_iff {op o : Operation} (hop : op.regroups = true) (ho : o.precedence = op.precedence) :
    (∀ x y z, op.operator.apply x (o.operator.apply y z) =
      o.operator.apply (op.operator.apply x y) z) ↔ ¬ (op = .multiply ∧ o = .remainder) := by
  constructor
  · rintro h ⟨rfl, rfl⟩
    -- two times the remainder of three by two, and the remainder of six by two
    have h := h (.ok (.number 2)) (.ok (.number 3)) (.ok (.number 2))
    revert h
    decide +kernel
  · intro hne x y z
    refine Grammar.Operator.apply_regroup ?_ x y z
    cases op <;> first | exact absurd hop (by decide) | skip
    all_goals
      cases o <;> first | exact absurd ho (by decide) | rfl | exact absurd ⟨rfl, rfl⟩ hne

/-! ### Expressions without remainders as factors -/

namespace Expression

def hasRemainder : Expression → Bool
  | binary .remainder _ _ => true
  | binary .multiply a b => a.hasRemainder || b.hasRemainder
  | binary .divide a _ => a.hasRemainder
  | _ => false

/-- Somewhere in the expression there is a product whose right operand has a remainder among its
factors. -/
def multipliesRemainder : Expression → Bool
  | binary op a b =>
    (op = .multiply && b.hasRemainder) || a.multipliesRemainder || b.multipliesRemainder
  | negate a | function _ a | property _ a | prime a | not a | length a => a.multipliesRemainder
  | power a b | divisible a b => a.multipliesRemainder || b.multipliesRemainder
  | constrain a b c | conditional a b c =>
    a.multipliesRemainder || b.multipliesRemainder || c.multipliesRemainder
  | _ => false

/-- The factors of an expression without remainders associate with a product in front of them. -/
theorem associates_tree {e : Expression} (h : e.hasRemainder = false) (ν : Naming) : (e.tree ν).Associates .times := by
  induction e with
  | number c =>
    unfold tree Constant.tree
    split <;> trivial
  | binary op a b iha ihb =>
    by_cases hlevel : op.operator.precedence = Operator.times.precedence
    · have hop : op = .multiply ∨ op = .divide := by
        cases op <;> first | exact absurd hlevel (by decide) | decide | cases h
      rcases hop with rfl | rfl
      · have hab := Bool.or_eq_false_iff.mp h
        unfold tree Operation.tree
        split
        · exact Tree.associates_graft (iha hab.1) (ihb hab.2) fun _ => rfl
        · exact fun _ => ⟨rfl, iha hab.1⟩
      · exact fun _ => ⟨rfl, iha h⟩
    · obtain ⟨o, x, y, htree, ho⟩ := op.exists_tree (a.tree ν) (b.tree ν) b.precedence
      unfold tree
      rw [htree]
      exact fun h' => absurd (ho.symm.trans h') hlevel
  | function f a =>
    cases f with
    | commonLogarithm => exact fun _ => ⟨rfl, trivial⟩
    | arcsine | arccosine | arctangent => exact fun _ => ⟨rfl, fun _ => ⟨rfl, trivial⟩⟩
    | _ => trivial
  | property p a => cases p <;> exact fun h' => absurd h' (by decide)
  | divisible a b => exact fun h' => absurd h' (by decide)
  | _ => trivial

/-- The value of an operation whose right operand may regroup. -/
theorem eval_operation {op : Operation} {b : Expression} (h : op = .multiply → b.hasRemainder = false)
    (l : Tree) (ν : Naming) (E : Environment) :
    (op.tree l (b.tree ν) b.precedence).eval E = op.operator.apply (l.eval E) ((b.tree ν).eval E) := by
  unfold Operation.tree
  split
  · rename_i hregroups
    refine Tree.eval_graft ?_ l E
    cases op with
    | add | and | or =>
      refine Tree.associates_of_all (fun o ho => ?_) _
      cases o <;> first | exact absurd ho (by decide) | rfl
    | multiply => exact associates_tree (h rfl) ν
    | _ => exact absurd hregroups.1 (by decide)
  · rfl

end Expression

/-! ### The value of the tree of an expression -/

theorem Constant.eval_tree (c : Constant) (E : Environment) : c.tree.eval E = .ok (.number c.value.toRat) := by
  unfold tree isNegative value magnitude
  cases c.negative with
  | false => rfl
  | true =>
    by_cases hm : c.mantissa = 0
    · simp [hm, Tree.eval, Number.Floating.toRat]
    · simp only [bne_iff_ne.mpr hm, Bool.and_self, if_true]
      rfl

theorem Constant.toRat_zero : zero.value.toRat = 0 := by
  norm_num [zero, value, Number.Floating.toRat]

theorem Constant.toRat_one : one.value.toRat = 1 := by
  norm_num [one, value, Number.Floating.toRat]

theorem Constant.toRat_two : two.value.toRat = 2 := by
  norm_num [two, value, Number.Floating.toRat]

theorem equal_remainder (x y : Outcome Value) (z : ℚ) :
    Operator.equal.apply (Operator.remainder.apply x y) (.ok (.number z)) =
      (both (fun a b => if b = 0 then .undefined else .ok (decide (euclidean a b = z)))
        x.toNumber y.toNumber).ofBoolean := by
  unfold Operator.apply
  generalize x.toNumber = x
  generalize y.toNumber = y
  unfold divide
  cases x with
  | ok a =>
    cases y with
    | ok b =>
      unfold both
      dsimp only
      split
      · rfl
      · simp [Outcome.ofNumber, Outcome.bind, Outcome.same, Outcome.both]
    | undefined | mistyped => rfl
  | undefined | mistyped => cases y <;> rfl

theorem both_ok {α β γ : Type} (f : α → β → Outcome γ) (x : Outcome α) (b : β) :
    both f x (.ok b) = x.bind fun a => f a b := by
  cases x <;> rfl

/-- The variables of blocks in an environment of the text. -/
def Environment.valuation (E : Environment) (ν : Naming) : Valuation where
  ofVariable x := E.name (ν.ofVariable x).text
  lengthOf a := E.lengthOf (a.tree ν)

theorem Constant.toRat_ten : ten.value.toRat = 10 := by
  norm_num [value, ten, Number.Floating.toRat]

theorem eval_power (a b : Tree) (E : Environment) :
    (Tree.callTwo (.math "pow") a b).eval E = .power (a.eval E) (b.eval E) :=
  rfl

theorem eval_call {f : Tree} (hf : f.isPower = false) (a : Tree) (E : Environment) :
    (Tree.call f a).eval E = .mistyped := by
  unfold Tree.eval
  rw [if_neg (by simp [hf])]

theorem MathFunction.eval_tree (f : MathFunction) (a : Tree) (E : Environment) :
    (f.tree a).eval E = f.apply (a.eval E) := by
  cases f with
  | powerOfTen =>
    show (Tree.callTwo (.math "pow") ten.tree a).eval E = _
    rw [eval_power, Constant.eval_tree, Constant.toRat_ten]
    rfl
  | root | logarithm | exponential => exact eval_call rfl a E
  | commonLogarithm =>
    show Operator.over.apply ((Tree.call _ a).eval E) _ = _
    rw [eval_call rfl]
    rfl
  | arcsine | arccosine | arctangent =>
    show Operator.times.apply (Operator.over.apply ((Tree.call _ a).eval E) _) _ = _
    rw [eval_call rfl]
    rfl
  | _ => rfl

theorem NumberProperty.eval_tree (p : NumberProperty) (a : Tree) (E : Environment) :
    (p.tree a).eval E = (a.eval E).toNumber.bind fun q => .ok (.boolean (p.holds q)) := by
  -- the comparison of the remainder by `c` with `d`, where `c` is not zero
  have hremainder (c d : Constant) {y z : ℚ} (hc : c.value.toRat = y) (hd : d.value.toRat = z) (hy : y ≠ 0) :
      Operator.equal.apply (Operator.remainder.apply (a.eval E) (c.tree.eval E)) (d.tree.eval E) =
      (a.eval E).toNumber.bind fun q => .ok (.boolean (decide (euclidean q y = z))) := by
    rw [c.eval_tree, d.eval_tree, hc, hd, equal_remainder]
    show (both _ _ (.ok y)).ofBoolean = _
    rw [both_ok]
    cases (a.eval E).toNumber <;> simp [Outcome.bind, Outcome.ofBoolean, hy]
  have horder (f : ℚ → ℚ → Bool) : (order f (a.eval E).toNumber (.ok 0)).ofBoolean =
      (a.eval E).toNumber.bind fun q => .ok (.boolean (f q 0)) := by
    unfold order
    cases (a.eval E).toNumber <;> rfl
  cases p with
  | even =>
    refine (hremainder two zero Constant.toRat_two Constant.toRat_zero (by norm_num)).trans ?_
    simp only [euclidean_eq_zero_iff]
    rfl
  | odd =>
    refine (hremainder two one Constant.toRat_two Constant.toRat_one (by norm_num)).trans ?_
    simp only [euclidean_two_eq_one_iff]
    rfl
  | whole =>
    refine (hremainder one zero Constant.toRat_one Constant.toRat_zero (by norm_num)).trans ?_
    simp only [euclidean_eq_zero_iff]
    rfl
  | positive =>
    show Operator.greater.apply _ (zero.tree.eval E) = _
    rw [Constant.eval_tree, Constant.toRat_zero]
    exact horder fun a b => a > b
  | negative =>
    show Operator.less.apply _ (zero.tree.eval E) = _
    rw [Constant.eval_tree, Constant.toRat_zero]
    exact horder fun a b => a < b

namespace Expression

/-- **An expression has the value of its tree**, if no product has a remainder among the factors of
its right operand. -/
theorem eval_tree {e : Expression} (h : e.multipliesRemainder = false) (ν : Naming) (E : Environment) :
    (e.tree ν).eval E = e.eval (E.valuation ν) := by
  induction e with
  | number c => exact c.eval_tree E
  | boolean b => cases b <;> rfl
  | binary op a b iha ihb =>
    simp only [multipliesRemainder, Bool.or_eq_false_iff, Bool.and_eq_false_iff, decide_eq_false_iff_not] at h
    obtain ⟨⟨hop, ha⟩, hb⟩ := h
    unfold tree eval
    rw [eval_operation (fun hm => hop.resolve_left (fun hne => hne hm)), iha ha, ihb hb]
  | power a b iha ihb =>
    simp only [multipliesRemainder, Bool.or_eq_false_iff] at h
    unfold tree eval
    rw [eval_power, iha h.1, ihb h.2]
  | negate a ih | not a ih =>
    unfold tree eval Tree.eval
    rw [ih h]
  | function f a ih =>
    unfold tree eval
    rw [f.eval_tree, ih h]
  | property p a ih =>
    unfold tree eval
    rw [p.eval_tree, ih h]
  | divisible a b iha ihb =>
    simp only [multipliesRemainder, Bool.or_eq_false_iff] at h
    show Operator.equal.apply (Operator.remainder.apply _ _) (zero.tree.eval E) = _
    rw [Constant.eval_tree, Constant.toRat_zero, equal_remainder, iha h.1, ihb h.2]
    simp only [euclidean_eq_zero_iff]
    rfl
  | prime a => exact eval_call rfl _ E
  | conditional c y n ihc ihy ihn =>
    simp only [multipliesRemainder, Bool.or_eq_false_iff] at h
    unfold tree eval Tree.eval
    rw [ihc h.1.1, ihy h.1.2, ihn h.2]
  | _ => rfl

/-- A product with a remainder as its right operand is read as the remainder of a product. -/
theorem eval_tree_remainder {a b c : Expression} (ha : a.multipliesRemainder = false)
    (hb : b.multipliesRemainder = false) (hc : c.multipliesRemainder = false)
    (hfactors : b.hasRemainder = false) (ν : Naming) (E : Environment) :
    ((binary .multiply a (binary .remainder b c)).tree ν).eval E =
      Operator.remainder.apply (Operator.times.apply (a.eval (E.valuation ν)) (b.eval (E.valuation ν)))
        (c.eval (E.valuation ν)) := by
  have htree : (binary .multiply a (binary .remainder b c)).tree ν =
      .binary .remainder (Tree.graft .times (a.tree ν) (b.tree ν)) (c.tree ν) := rfl
  rw [htree]
  unfold Tree.eval
  rw [Tree.eval_graft (associates_tree hfactors ν), eval_tree ha, eval_tree hb, eval_tree hc]

theorem eval_congr {e : Expression} {V W : Valuation}
    (hvars : ∀ x ∈ e.variables, V.ofVariable x = W.ofVariable x) (hlength : V.lengthOf = W.lengthOf) :
    e.eval V = e.eval W := by
  induction e with
  | reference x => exact congrArg ok (hvars x List.mem_cons_self)
  | length a => exact congrFun hlength a
  | binary op a b iha ihb | power a b iha ihb | divisible a b iha ihb =>
    unfold eval
    rw [iha fun x hx => hvars x (List.mem_append_left _ hx), ihb fun x hx => hvars x (List.mem_append_right _ hx)]
  | function f a ih | negate a ih | not a ih | property p a ih =>
    unfold eval
    rw [ih hvars]
  | conditional c y n ihc ihy ihn =>
    unfold eval
    rw [ihc fun x hx => hvars x (by simp [Expression.variables, hx]),
      ihy fun x hx => hvars x (by simp [Expression.variables, hx]),
      ihn fun x hx => hvars x (by simp [Expression.variables, hx])]
  | _ => rfl

end Expression

end BlockProgram
