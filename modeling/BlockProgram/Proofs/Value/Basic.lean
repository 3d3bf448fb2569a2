import BlockProgram.Proofs.Expression.Basic
import Mathlib.Algebra.Order.Floor.Ring
import Mathlib.Data.Rat.Floor

/-! # Values of expressions

The value of an expression of blocks (`Expression.eval`) and of the tree of a text (`Tree.eval`),
over exact rational numbers and truth values.  A division by zero has no value (`undefined`), and
neither has an operator with an operand it is not made for (`mistyped`); the second is reported
before the first, wherever it happens.  `And` and `or` do not look at their right operand if the
left one decides.

An expression with a type is never mistyped (`Expression.hasType_eval`).
-/
namespace BlockProgram

open Grammar (Tree Operator)

inductive Value where
  | number (q : ℚ)
  | boolean (b : Bool)
  | null
deriving DecidableEq

inductive Outcome (α : Type) where
  | ok (a : α)
  | undefined
  | mistyped
deriving DecidableEq

namespace Outcome

variable {α β γ : Type}

def bind (x : Outcome α) (f : α → Outcome β) : Outcome β :=
  match x with
  | ok a => f a
  | undefined => undefined
  | mistyped => mistyped

/-- Goes on with two values, neither of which comes first. -/
def both (f : α → β → Outcome γ) : Outcome α → Outcome β → Outcome γ
  | ok a, ok b => f a b
  | mistyped, _ => mistyped
  | _, mistyped => mistyped
  | _, _ => undefined

def toNumber (x : Outcome Value) : Outcome ℚ :=
  x.bind fun
    | .number q => ok q
    | _ => mistyped

def toBoolean (x : Outcome Value) : Outcome Bool :=
  x.bind fun
    | .boolean b => ok b
    | _ => mistyped

def ofNumber (x : Outcome ℚ) : Outcome Value := x.bind fun q => ok (.number q)

def ofBoolean (x : Outcome Bool) : Outcome Value := x.bind fun b => ok (.boolean b)

@[simp] theorem toNumber_ofNumber (x : Outcome ℚ) : x.ofNumber.toNumber = x := by cases x <;> rfl

@[simp] theorem toBoolean_ofBoolean (x : Outcome Bool) : x.ofBoolean.toBoolean = x := by
  cases x <;> rfl

end Outcome

/-! ### Arithmetic -/

/-- The remainder that is not negative. -/
def euclidean (x y : ℚ) : ℚ := x - |y| * ⌊x / |y|⌋

def IsMultiple (x y : ℚ) : Prop := ∃ k : ℤ, x = k * y

theorem isMultiple_iff_floor {x y : ℚ} : IsMultiple x y ↔ x = ⌊x / y⌋ * y := by
  refine ⟨?_, fun h => ⟨_, h⟩⟩
  rintro ⟨k, rfl⟩
  by_cases hy : y = 0
  · rw [hy, mul_zero, mul_zero]
  · rw [mul_div_cancel_right₀ _ hy, Int.floor_intCast]

instance (x y : ℚ) : Decidable (IsMultiple x y) := decidable_of_iff _ isMultiple_iff_floor.symm

theorem isMultiple_abs {x y : ℚ} : IsMultiple x |y| ↔ IsMultiple x y := by
  rcases abs_choice y with h | h
  · rw [h]
  · rw [h]
    constructor
    · rintro ⟨k, rfl⟩
      exact ⟨-k, by push_cast; ring⟩
    · rintro ⟨k, rfl⟩
      exact ⟨-k, by push_cast; ring⟩

theorem euclidean_eq_zero_iff {x y : ℚ} : euclidean x y = 0 ↔ IsMultiple x y := by
  rw [← isMultiple_abs, isMultiple_iff_floor, euclidean, sub_eq_zero, mul_comm]

theorem euclidean_two_eq_one_iff {x : ℚ} : euclidean x 2 = 1 ↔ IsMultiple (x - 1) 2 := by
  have habs : |(2 : ℚ)| = 2 := abs_of_pos (by norm_num)
  unfold euclidean
  rw [habs]
  constructor
  · intro h
    exact ⟨⌊x / 2⌋, by linarith⟩
  · rintro ⟨k, hk⟩
    have hfloor : ⌊x / 2⌋ = k := by
      rw [Int.floor_eq_iff]
      constructor <;> linarith
    rw [hfloor]
    linarith

namespace Outcome

def combine (f : ℚ → ℚ → ℚ) : Outcome ℚ → Outcome ℚ → Outcome ℚ := both fun a b => ok (f a b)

/-- Quotients and remainders, which have no value for zero. -/
def divide (f : ℚ → ℚ → ℚ) : Outcome ℚ → Outcome ℚ → Outcome ℚ :=
  both fun a b => if b = 0 then undefined else ok (f a b)

def order (f : ℚ → ℚ → Bool) : Outcome ℚ → Outcome ℚ → Outcome Bool := both fun a b => ok (f a b)

def same (f : Value → Value → Bool) : Outcome Value → Outcome Value → Outcome Bool :=
  both fun a b => ok (f a b)

/-- A left operand that decides or leaves it to the right one. -/
def choose (decides : Bool) (x y : Outcome Bool) : Outcome Bool :=
  x.bind fun a => if a = decides then ok a else y

end Outcome

/-- The value of an operator. Those that no handler writes have none. -/
def Grammar.Operator.apply (op : Operator) (x y : Outcome Value) : Outcome Value :=
  match op with
  | .plus => (Outcome.combine (· + ·) x.toNumber y.toNumber).ofNumber
  | .minus => (Outcome.combine (· - ·) x.toNumber y.toNumber).ofNumber
  | .times => (Outcome.combine (· * ·) x.toNumber y.toNumber).ofNumber
  | .over => (Outcome.divide (· / ·) x.toNumber y.toNumber).ofNumber
  | .remainder => (Outcome.divide euclidean x.toNumber y.toNumber).ofNumber
  | .less => (Outcome.order (fun a b => a < b) x.toNumber y.toNumber).ofBoolean
  | .lessEqual => (Outcome.order (fun a b => a ≤ b) x.toNumber y.toNumber).ofBoolean
  | .greater => (Outcome.order (fun a b => a > b) x.toNumber y.toNumber).ofBoolean
  | .greaterEqual => (Outcome.order (fun a b => a ≥ b) x.toNumber y.toNumber).ofBoolean
  | .equal => (Outcome.same (fun a b => a = b) x y).ofBoolean
  | .unequal => (Outcome.same (fun a b => a ≠ b) x y).ofBoolean
  | .and => (Outcome.choose false x.toBoolean y.toBoolean).ofBoolean
  | .or => (Outcome.choose true x.toBoolean y.toBoolean).ofBoolean
  | _ => .mistyped

def Grammar.Sign.apply (sign : Grammar.Sign) (x : Outcome Value) : Outcome Value :=
  match sign with
  | .minus => x.toNumber.bind fun q => .ok (.number (-q))
  | .bang => x.toBoolean.bind fun b => .ok (.boolean !b)

/-- A power. It has a value where it is a rational for sure: for a whole exponent, unless zero is
inverted. -/
def power (x y : ℚ) : Outcome ℚ :=
  if y.den = 1 ∧ (x ≠ 0 ∨ 0 ≤ y) then .ok (x ^ y.num) else .undefined

def Outcome.power (x y : Outcome Value) : Outcome Value :=
  (both BlockProgram.power x.toNumber y.toNumber).ofNumber

def Outcome.select (c y n : Outcome Value) : Outcome Value := c.toBoolean.bind fun b => if b then y else n

/-! ### The value of a text -/

/-- What the names of a text stand for, and the lengths of objects. -/
structure Environment where
  ofName : String → Value
  lengthOf : Tree → Outcome Value

def Environment.name (E : Environment) (w : String) : Value :=
  if w = "true" then .boolean true
  else if w = "false" then .boolean false
  else if w = "null" then .null
  else E.ofName w

/-- Whether the function called is that of powers. -/
def Grammar.Tree.isPower : Tree → Bool
  | .member (.name l) w => l = "Math" && w = "pow"
  | _ => false

def Grammar.Tree.eval (E : Environment) : Tree → Outcome Value
  | .number x => .ok (.number x.toRat)
  | .name w => .ok (E.name w)
  | .member t w => if w = "length" then E.lengthOf t else .mistyped
  | .signed sign t => sign.apply (t.eval E)
  | .call f arguments =>
    if f.isPower then
      match arguments with
      | .binary .comma a b => .power (a.eval E) (b.eval E)
      | _ => .mistyped
    else .mistyped
  | .binary op l r => op.apply (l.eval E) (r.eval E)
  | .conditional c y n => .select (c.eval E) (y.eval E) (n.eval E)
  | _ => .mistyped

/-! ### The value of blocks -/

/-- What variables stand for, and the lengths of the values of expressions. -/
structure Valuation where
  ofVariable : String → Value
  lengthOf : Expression → Outcome Value

def NumberProperty.holds : NumberProperty → ℚ → Bool
  | even, q => IsMultiple q 2
  | odd, q => IsMultiple (q - 1) 2
  | whole, q => IsMultiple q 1
  | positive, q => 0 < q
  | negative, q => q < 0

def divisible (x y : ℚ) : Outcome Bool := if y = 0 then .undefined else .ok (IsMultiple x y)

/-- The value of a function of one number. Only powers have one here. -/
def MathFunction.apply : MathFunction → Outcome Value → Outcome Value
  | powerOfTen, x => .power (.ok (.number 10)) x
  | _, _ => .mistyped

def Expression.eval (V : Valuation) : Expression → Outcome Value
  | number c => .ok (.number c.value.toRat)
  | boolean b => .ok (.boolean b)
  | null => .ok .null
  | reference x => .ok (V.ofVariable x)
  | binary op a b => op.operator.apply (a.eval V) (b.eval V)
  | power a b => .power (a.eval V) (b.eval V)
  | function f a => f.apply (a.eval V)
  | negate a => Grammar.Sign.minus.apply (a.eval V)
  | not a => Grammar.Sign.bang.apply (a.eval V)
  | property p a => (a.eval V).toNumber.bind fun q => .ok (.boolean (p.holds q))
  | divisible a b =>
    (Outcome.both BlockProgram.divisible (a.eval V).toNumber (b.eval V).toNumber).ofBoolean
  | conditional c y n => .select (c.eval V) (y.eval V) (n.eval V)
  | length a => V.lengthOf a
  | _ => .mistyped

/-! ### Types -/

inductive ValueType where
  | number
  | boolean
deriving DecidableEq

/-- The type of a value. The missing value has none. -/
def Value.type? : Value → Option ValueType
  | .number _ => some .number
  | .boolean _ => some .boolean
  | .null => none

/-- A value of this type, or none because of a division by zero. -/
def Outcome.HasType (x : Outcome Value) (τ : ValueType) : Prop :=
  match x with
  | .ok v => v.type? = some τ
  | .undefined => True
  | .mistyped => False

def Operation.type? : Operation → ValueType → ValueType → Option ValueType
  | add, .number, .number | subtract, .number, .number | multiply, .number, .number
  | divide, .number, .number | remainder, .number, .number => some .number
  | less, .number, .number | lessEqual, .number, .number | greater, .number, .number
  | greaterEqual, .number, .number | positive, .number, .number | negative, .number, .number
  | and, .boolean, .boolean | or, .boolean, .boolean => some .boolean
  | equal, σ, τ | unequal, σ, τ => if σ = τ then some .boolean else none
  | _, _, _ => none

/-- The type of an expression whose variables have the types `Γ`. -/
def Expression.type? (Γ : String → ValueType) : Expression → Option ValueType
  | number _ => some .number
  | boolean _ => some .boolean
  | reference x => some (Γ x)
  | binary op a b => do op.type? (← a.type? Γ) (← b.type? Γ)
  | power a b =>
    if a.type? Γ = some .number ∧ b.type? Γ = some .number then some .number else none
  | negate a => if a.type? Γ = some .number then some .number else none
  | not a => if a.type? Γ = some .boolean then some .boolean else none
  | property _ a => if a.type? Γ = some .number then some .boolean else none
  | divisible a b =>
    if a.type? Γ = some .number ∧ b.type? Γ = some .number then some .boolean else none
  | conditional c y n =>
    if c.type? Γ = some .boolean ∧ y.type? Γ = n.type? Γ then y.type? Γ else none
  | _ => none

namespace Outcome

variable {x y : Outcome Value}

theorem HasType.toNumber (h : x.HasType .number) : x.toNumber = .undefined ∨ ∃ q, x.toNumber = .ok q := by
  match x with
  | .ok (.number q) => exact .inr ⟨q, rfl⟩
  | .undefined => exact .inl rfl
  | .ok (.boolean _) | .ok .null => cases h
  | .mistyped => exact h.elim

theorem HasType.toBoolean (h : x.HasType .boolean) : x.toBoolean = .undefined ∨ ∃ b, x.toBoolean = .ok b := by
  match x with
  | .ok (.boolean b) => exact .inr ⟨b, rfl⟩
  | .undefined => exact .inl rfl
  | .ok (.number _) | .ok .null => cases h
  | .mistyped => exact h.elim

theorem hasType_ofNumber {x : Outcome ℚ} (h : x ≠ .mistyped) : x.ofNumber.HasType .number := by
  cases x with
  | ok q => rfl
  | undefined => trivial
  | mistyped => exact h rfl

theorem hasType_ofBoolean {x : Outcome Bool} (h : x ≠ .mistyped) : x.ofBoolean.HasType .boolean := by
  cases x with
  | ok q => rfl
  | undefined => trivial
  | mistyped => exact h rfl

/-- Two operands that are not mistyped. -/
theorem both_ne_mistyped {α β γ : Type} {f : α → β → Outcome γ} {x : Outcome α} {y : Outcome β}
    (hf : ∀ a b, f a b ≠ .mistyped) (hx : x = .undefined ∨ ∃ a, x = .ok a)
    (hy : y = .undefined ∨ ∃ b, y = .ok b) : both f x y ≠ .mistyped := by
  rcases hx with rfl | ⟨a, rfl⟩ <;> rcases hy with rfl | ⟨b, rfl⟩
  · nofun
  · nofun
  · nofun
  · exact hf a b

theorem choose_ne_mistyped {x y : Outcome Bool} (decides : Bool)
    (hx : x = .undefined ∨ ∃ b, x = .ok b) (hy : y = .undefined ∨ ∃ b, y = .ok b) : choose decides x y ≠ .mistyped := by
  rcases hx with rfl | ⟨a, rfl⟩
  · nofun
  · unfold choose bind
    dsimp only
    split
    · nofun
    · rcases hy with rfl | ⟨b, rfl⟩ <;> nofun

theorem HasType.cases {τ : ValueType} (h : x.HasType τ) : x = .undefined ∨ ∃ v, x = .ok v := by
  cases x with
  | ok v => exact .inr ⟨v, rfl⟩
  | undefined => exact .inl rfl
  | mistyped => exact h.elim

end Outcome

/-- An operation with operands of the right types has a value of its type. -/
theorem Operation.hasType_apply {op : Operation} {σ τ υ : ValueType} {x y : Outcome Value}
    (h : op.type? σ τ = some υ) (hx : x.HasType σ) (hy : y.HasType τ) : (op.operator.apply x y).HasType υ := by
  have hdivide (f : ℚ → ℚ → ℚ) (a b : ℚ) : (if b = 0 then .undefined else .ok (f a b) : Outcome ℚ) ≠ .mistyped := by
    split <;> nofun
  cases op with
  | add | subtract | multiply =>
    cases σ <;> cases τ <;> cases h
    exact Outcome.hasType_ofNumber (Outcome.both_ne_mistyped nofun hx.toNumber hy.toNumber)
  | divide | remainder =>
    cases σ <;> cases τ <;> cases h
    exact Outcome.hasType_ofNumber (Outcome.both_ne_mistyped (hdivide _) hx.toNumber hy.toNumber)
  | less | lessEqual | greater | greaterEqual | positive | negative =>
    cases σ <;> cases τ <;> cases h
    exact Outcome.hasType_ofBoolean (Outcome.both_ne_mistyped nofun hx.toNumber hy.toNumber)
  | equal | unequal =>
    cases σ <;> cases τ <;> cases h
    all_goals exact Outcome.hasType_ofBoolean (Outcome.both_ne_mistyped nofun hx.cases hy.cases)
  | and | or =>
    cases σ <;> cases τ <;> cases h
    exact Outcome.hasType_ofBoolean (Outcome.choose_ne_mistyped _ hx.toBoolean hy.toBoolean)

/-- **An expression with a type has a value of that type**, unless it divides by zero. -/
theorem Expression.hasType_eval {Γ : String → ValueType} {V : Valuation} {e : Expression}
    (hV : ∀ x ∈ e.variables, (V.ofVariable x).type? = some (Γ x)) {τ : ValueType}
    (h : e.type? Γ = some τ) : (e.eval V).HasType τ := by
  induction e generalizing τ with
  | number c | boolean b => exact h
  | reference x =>
    cases h
    exact hV x List.mem_cons_self
  | binary op a b iha ihb =>
    simp only [type?, Option.bind_eq_bind, Option.bind_eq_some_iff] at h
    obtain ⟨σ, ha, τ', hb, hop⟩ := h
    exact Operation.hasType_apply hop (iha (fun x hx => hV x (List.mem_append_left _ hx)) ha)
      (ihb (fun x hx => hV x (List.mem_append_right _ hx)) hb)
  | power a b iha ihb =>
    obtain ⟨hab, ⟨⟩⟩ := Option.ite_none_right_eq_some.mp h
    refine Outcome.hasType_ofNumber (Outcome.both_ne_mistyped (fun p q => ?_)
      (iha (fun x hx => hV x (List.mem_append_left _ hx)) hab.1).toNumber
      (ihb (fun x hx => hV x (List.mem_append_right _ hx)) hab.2).toNumber)
    unfold BlockProgram.power
    split <;> nofun
  | negate a ih =>
    obtain ⟨ha, ⟨⟩⟩ := Option.ite_none_right_eq_some.mp h
    rcases (ih hV ha).toNumber with hx | ⟨q, hx⟩ <;>
      (unfold eval Grammar.Sign.apply; rw [hx]) <;> trivial
  | not a ih =>
    obtain ⟨ha, ⟨⟩⟩ := Option.ite_none_right_eq_some.mp h
    rcases (ih hV ha).toBoolean with hx | ⟨q, hx⟩ <;>
      (unfold eval Grammar.Sign.apply; rw [hx]) <;> trivial
  | property p a ih =>
    obtain ⟨ha, ⟨⟩⟩ := Option.ite_none_right_eq_some.mp h
    rcases (ih hV ha).toNumber with hx | ⟨q, hx⟩ <;> (unfold eval; rw [hx]) <;> trivial
  | divisible a b iha ihb =>
    obtain ⟨hab, ⟨⟩⟩ := Option.ite_none_right_eq_some.mp h
    refine Outcome.hasType_ofBoolean (Outcome.both_ne_mistyped (fun p q => ?_)
      (iha (fun x hx => hV x (List.mem_append_left _ hx)) hab.1).toNumber
      (ihb (fun x hx => hV x (List.mem_append_right _ hx)) hab.2).toNumber)
    unfold BlockProgram.divisible
    split <;> nofun
  | conditional c y n ihc ihy ihn =>
    obtain ⟨hc, hy⟩ := Option.ite_none_right_eq_some.mp h
    have hn : n.type? Γ = some τ := hc.2.symm.trans hy
    have hC := ihc (fun x hx => hV x (by simp [Expression.variables, hx])) hc.1
    have hY := ihy (fun x hx => hV x (by simp [Expression.variables, hx])) hy
    have hN := ihn (fun x hx => hV x (by simp [Expression.variables, hx])) hn
    unfold eval Outcome.select
    rcases hC.toBoolean with hx | ⟨b, hx⟩
    · rw [hx]
      trivial
    · rw [hx]
      cases b
      · exact hN
      · exact hY
  | _ => cases h

end BlockProgram
