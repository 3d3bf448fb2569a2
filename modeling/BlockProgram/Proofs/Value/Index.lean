import BlockProgram.Proofs.Value.Regrouping

/-! # Index expressions

Positions are given by arithmetic over variables and whole numbers (`Expression.IsIndex`).  Their
value depends on the variables alone.  Where such an expression stands behind a minus sign without
parentheses, the sign belongs to its first term only: all terms but this one count as they did
(`eval_graft_minus`).
-/
namespace BlockProgram

open Grammar (Tree Operator)

def Operation.isArithmetic : Operation → Bool
  | add | subtract | multiply | divide | remainder => true
  | _ => false

variable {e : Expression}

namespace Expression

/-- Arithmetic over variables and whole numbers below `2 ^ 53`. -/
inductive IsIndex : Expression → Prop
  | number {c : Constant} {i : Int} (hc : c.value.toRat = i) (hi : i.natAbs < 2 ^ 53) :
    IsIndex (number c)
  | reference (x : String) : IsIndex (reference x)
  | binary {op : Operation} {a b : Expression} (hop : op.isArithmetic = true) (ha : IsIndex a)
    (hb : IsIndex b) : IsIndex (binary op a b)
  | power {a b : Expression} (ha : IsIndex a) (hb : IsIndex b) : IsIndex (power a b)
  | negate {a : Expression} (ha : IsIndex a) : IsIndex (negate a)

/-- The value of an index depends on its variables only. -/
theorem IsIndex.eval_congr (h : e.IsIndex) {V W : Valuation}
    (hvars : ∀ x ∈ e.variables, V.ofVariable x = W.ofVariable x) : e.eval V = e.eval W := by
  induction h with
  | number => rfl
  | reference x => exact congrArg Outcome.ok (hvars x List.mem_cons_self)
  | binary _ _ _ iha ihb | power _ _ iha ihb =>
    unfold eval
    rw [iha fun x hx => hvars x (List.mem_append_left _ hx), ihb fun x hx => hvars x (List.mem_append_right _ hx)]
  | negate _ ih =>
    unfold eval
    rw [ih hvars]

/-- The first term of a sum or difference, and every other expression itself. -/
def lead : Expression → Expression
  | binary .add a _ => a.lead
  | binary .subtract a _ => a.lead
  | e => e

theorem IsIndex.lead (h : e.IsIndex) : e.lead.IsIndex := by
  induction h with
  | number hc hi => exact .number hc hi
  | reference x => exact .reference x
  | @binary op a b hop ha hb iha ihb =>
    unfold Expression.lead
    split
    · rename_i heq; cases heq; exact iha
    · rename_i heq; cases heq; exact iha
    · exact .binary hop ha hb
  | power ha hb => exact .power ha hb
  | negate ha => exact .negate ha

theorem variables_lead (e : Expression) : e.lead.variables ⊆ e.variables := by
  fun_induction lead e with
  | case1 a b ih | case2 a b ih => exact List.Subset.trans ih (List.subset_append_left _ _)
  | case3 => exact List.Subset.refl _

end Expression

/-! ### Sums behind a minus sign -/

variable {q : ℚ}

theorem Outcome.combine_eq_number {f : ℚ → ℚ → ℚ} {x y : Outcome Value} :
    (combine f x.toNumber y.toNumber).ofNumber = .ok (.number q) ↔
      ∃ a b, x = .ok (.number a) ∧ y = .ok (.number b) ∧ q = f a b := by
  constructor
  · intro h
    rcases x with (a | _ | _) | _ | _ <;> rcases y with (b | _ | _) | _ | _
    · have hq : f a b = q := by simpa [combine, both, toNumber, ofNumber, bind] using h
      exact ⟨a, b, rfl, rfl, hq.symm⟩
    all_goals cases h
  · rintro ⟨a, b, rfl, rfl, rfl⟩
    rfl

namespace Expression

/-- Sums and differences are the expressions of their level. -/
theorem eq_of_precedence_additive (h : e.precedence = .additive) :
    ∃ a b, e = binary .add a b ∨ e = binary .subtract a b := by
  cases e with
  | binary op a b =>
    cases op with
    | add => exact ⟨a, b, .inl rfl⟩
    | subtract => exact ⟨a, b, .inr rfl⟩
    | _ => cases h
  | number c =>
    simp only [precedence] at h
    split at h <;> cases h
  | function f a => cases f <;> cases h
  | _ => cases h

/-- **A sum or difference behind a minus sign without parentheses**: its first term is taken away,
and all others count as they did. -/
theorem eval_graft_minus (h : e.multipliesRemainder = false) {ν : Naming}
    {E : Environment} {s : Tree} {L : ℚ} (hs : s.eval E = .ok (.number L))
    (he : e.eval (E.valuation ν) = .ok (.number q)) : ∃ l, e.lead.eval (E.valuation ν) = .ok (.number l) ∧
      (Tree.graft .minus s (e.tree ν)).eval E = .ok (.number (L + q - 2 * l)) := by
  -- the induction is on the first operand of the chain, which is where the sign arrives
  fun_induction lead e generalizing q with
  | case1 a b ih | case2 a b ih =>
    simp only [multipliesRemainder, Bool.or_eq_false_iff] at h
    obtain ⟨x, y, hx, hy, rfl⟩ := Outcome.combine_eq_number.mp he
    obtain ⟨l, hl, hgraft⟩ := ih h.1.2 hx
    refine ⟨l, hl, ?_⟩
    unfold tree
    rw [Operation.graft_tree (by decide), eval_operation (by rintro ⟨⟩), hgraft, eval_tree h.2, hy]
    exact Outcome.combine_eq_number.mpr ⟨_, _, rfl, rfl, by ring⟩
  | case3 e hadd hsubtract =>
    have hlevel : e.precedence ≠ .additive := by
      intro heq
      obtain ⟨a, b, rfl | rfl⟩ := eq_of_precedence_additive heq
      · exact hadd a b rfl
      · exact hsubtract a b rfl
    refine ⟨q, he, ?_⟩
    rw [← e.code_tree, Code.graft_tree_of_ne (by unfold Grammar.Chains; decide)
      (by rw [e.code_precedence]; exact hlevel), e.code_tree]
    unfold Tree.eval
    rw [hs, eval_tree h, he]
    exact Outcome.combine_eq_number.mpr ⟨L, q, rfl, rfl, by ring⟩

end Expression

end BlockProgram
