import BlockProgram.Number.Floating
import Mathlib.Algebra.Order.Field.Basic
import Mathlib.Algebra.Order.Field.Power
import Mathlib.Data.Rat.Cast.Order
import Mathlib.Tactic.FieldSimp
import Mathlib.Tactic.Linarith
import Mathlib.Tactic.NormNum
import Mathlib.Tactic.Ring

/-! # Rounding to double precision

A number of the format is `m * 2 ^ e` with the mantissa in its range (`IsDouble`).  `Format.Near`
says that the rational `x` is at most half a step away from it, ties going to even mantissas.  The
main statement, `roundAt_eq_of_near`, is that rounding such an `x` gives exactly `m * 2 ^ e`; it has
two cases, because just below a power of two the rounding works with the finer step and carries.
-/
namespace BlockProgram.Number

/-- The mantissa and exponent of a positive double: `2 ^ 52` and more, or the least exponent. -/
structure IsDouble (m : Nat) (e : Int) : Prop where
  pos : 0 < m
  lt : m < 2 ^ 53
  least_le : -1074 ≤ e
  le_greatest : e ≤ 971
  normal : 2 ^ 52 ≤ m ∨ e = -1074

instance (m : Nat) (e : Int) : Decidable (IsDouble m e) :=
  decidable_of_iff (0 < m ∧ m < 2 ^ 53 ∧ -1074 ≤ e ∧ e ≤ 971 ∧ (2 ^ 52 ≤ m ∨ e = -1074))
    ⟨fun h => ⟨h.1, h.2.1, h.2.2.1, h.2.2.2.1, h.2.2.2.2⟩, fun h => ⟨h.pos, h.lt, h.least_le, h.le_greatest, h.normal⟩⟩

/-- How far below `m * 2 ^ e`, in steps of `2 ^ e`, the numbers go that a format takes for it. Below
a power of two the numbers of a graded format lie twice as dense. -/
def Format.stepBelow (f : Format) (m : Nat) (e : Int) : ℚ :=
  if (f.graded && m = Nat.pow 2 (f.precision - 1) && f.least < e) = true then 1 / 4 else 1 / 2

/-- The rationals that a format takes for `m * 2 ^ e`. -/
def Format.Near (f : Format) (m : Nat) (e : Int) (x : ℚ) : Prop :=
  (m - f.stepBelow m e) * 2 ^ e ≤ x ∧ x ≤ (m + 1 / 2) * 2 ^ e ∧
    (x = (m - f.stepBelow m e) * 2 ^ e ∨ x = (m + 1 / 2) * 2 ^ e → m % 2 = 0)

theorem two_zpow_pos (e : Int) : (0 : ℚ) < 2 ^ e := zpow_pos (by norm_num) e

theorem two_zpow_add (a b : Int) : (2 : ℚ) ^ (a + b) = 2 ^ a * 2 ^ b := zpow_add₀ (by norm_num) a b

theorem two_zpow_natCast (n : Nat) : (2 : ℚ) ^ (n : Int) = ((2 ^ n : Nat) : ℚ) := by
  rw [zpow_natCast]; push_cast; rfl

theorem Format.stepBelow_bounds (f : Format) (m : Nat) (e : Int) :
    1 / 4 ≤ f.stepBelow m e ∧ f.stepBelow m e ≤ 1 / 2 := by
  unfold Format.stepBelow
  split <;> norm_num

theorem Format.near_self (f : Format) (m : Nat) (e : Int) : f.Near m e (m * 2 ^ e) := by
  have he := two_zpow_pos e
  obtain ⟨hlow, -⟩ := f.stepBelow_bounds m e
  refine ⟨by nlinarith, by nlinarith, ?_⟩
  rintro (h | h) <;> exact absurd h (by nlinarith)

/-! ### The parts of the rounding -/

variable {d : Nat}

theorem scaleDown_spec (n : Nat) (hd : 0 < d) (e : Int) : 0 < (scaleDown n d e).2 ∧
      ((scaleDown n d e).1 : ℚ) / (scaleDown n d e).2 = (n : ℚ) / d / 2 ^ e := by
  unfold scaleDown
  split
  · rename_i he
    obtain ⟨k, rfl⟩ := Int.eq_ofNat_of_zero_le he
    refine ⟨Nat.mul_pos hd (Nat.pow_pos (by decide)), ?_⟩
    simp only [Int.toNat_natCast, Nat.pow_eq, Nat.cast_mul, Nat.cast_pow, Nat.cast_ofNat, zpow_natCast]
    field_simp
  · rename_i he
    obtain ⟨k, hk⟩ := Int.eq_ofNat_of_zero_le (show 0 ≤ -e by omega)
    refine ⟨hd, ?_⟩
    rw [show e = -(k : Int) by omega]
    simp only [neg_neg, Int.toNat_natCast, Nat.pow_eq, Nat.cast_mul, Nat.cast_pow, Nat.cast_ofNat,
      zpow_neg, zpow_natCast]
    field_simp

variable {n : Nat}

theorem two_zpow_log2_le (hn : 0 < n) : (2 : ℚ) ^ (n.log2 : Int) ≤ n := by
  exact_mod_cast Nat.log2_self_le hn.ne'

theorem lt_two_zpow_log2 (n : Nat) : (n : ℚ) < 2 ^ ((n.log2 : Int) + 1) := by
  exact_mod_cast Nat.lt_log2_self

/-- `floorLog2` is the exponent of the highest power of two below a quotient. -/
theorem floorLog2_spec (hn : 0 < n) (hd : 0 < d) :
    (2 : ℚ) ^ floorLog2 n d ≤ (n : ℚ) / d ∧ (n : ℚ) / d < 2 ^ (floorLog2 n d + 1) := by
  have hd' : (0 : ℚ) < d := by exact_mod_cast hd
  obtain ⟨hb, hab⟩ := scaleDown_spec n hd ((n.log2 : Int) - d.log2)
  have hb' : (0 : ℚ) < (scaleDown n d ((n.log2 : Int) - d.log2)).2 := by exact_mod_cast hb
  -- the guess is right or one too high
  have upper : (n : ℚ) / d < 2 ^ ((n.log2 : Int) - d.log2 + 1) := by
    rw [div_lt_iff₀ hd']
    calc (n : ℚ) < 2 ^ ((n.log2 : Int) + 1) := lt_two_zpow_log2 n
      _ = 2 ^ ((n.log2 : Int) - d.log2 + 1) * 2 ^ (d.log2 : Int) := by
        rw [← two_zpow_add]; congr 1; omega
      _ ≤ 2 ^ ((n.log2 : Int) - d.log2 + 1) * d :=
        mul_le_mul_of_nonneg_left (two_zpow_log2_le hd) (two_zpow_pos _).le
  have lower : (2 : ℚ) ^ ((n.log2 : Int) - d.log2 - 1) ≤ (n : ℚ) / d := by
    rw [le_div_iff₀ hd']
    calc (2 : ℚ) ^ ((n.log2 : Int) - d.log2 - 1) * d
        ≤ 2 ^ ((n.log2 : Int) - d.log2 - 1) * 2 ^ ((d.log2 : Int) + 1) :=
          mul_le_mul_of_nonneg_left (lt_two_zpow_log2 d).le (two_zpow_pos _).le
      _ = 2 ^ (n.log2 : Int) := by rw [← two_zpow_add]; congr 1; omega
      _ ≤ n := two_zpow_log2_le hn
  have test : (scaleDown n d ((n.log2 : Int) - d.log2)).1 < (scaleDown n d ((n.log2 : Int) - d.log2)).2 ↔
        (n : ℚ) / d < 2 ^ ((n.log2 : Int) - d.log2) := by
    rw [← Nat.cast_lt (α := ℚ), ← div_lt_one hb', hab, div_lt_one (two_zpow_pos _)]
  unfold floorLog2
  dsimp only
  split
  · rename_i hlt
    refine ⟨lower, ?_⟩
    rw [sub_add_cancel]
    exact test.mp hlt
  · rename_i hge
    exact ⟨not_lt.mp (fun h => hge (test.mpr h)), upper⟩

variable {a b m : Nat}

/-- Rounding a quotient gives the natural number it is within a half of, an even one in a tie. -/
theorem roundHalfEven_eq (hb : 0 < b) (hlo : (m : ℚ) - 1 / 2 ≤ (a : ℚ) / b)
    (hhi : (a : ℚ) / b ≤ m + 1 / 2) (htie : (a : ℚ) / b = m - 1 / 2 ∨ (a : ℚ) / b = m + 1 / 2 → m % 2 = 0) :
    roundHalfEven a b = m := by
  have hb' : (0 : ℚ) < b := by exact_mod_cast hb
  have lo : 2 * (m * b) ≤ 2 * a + b := by
    rw [le_div_iff₀ hb'] at hlo
    have : (2 * (m * b) : ℚ) ≤ 2 * a + b := by linarith
    exact_mod_cast this
  have hi : 2 * a ≤ 2 * (m * b) + b := by
    rw [div_le_iff₀ hb'] at hhi
    have : (2 * a : ℚ) ≤ 2 * (m * b) + b := by linarith
    exact_mod_cast this
  have tie : 2 * (m * b) = 2 * a + b ∨ 2 * a = 2 * (m * b) + b → m % 2 = 0 := by
    intro h
    refine htie ?_
    rw [div_eq_iff hb'.ne', div_eq_iff hb'.ne']
    rcases h with h | h
    · left
      have : (2 * (m * b) : ℚ) = 2 * a + b := by exact_mod_cast h
      linarith
    · right
      have : (2 * a : ℚ) = 2 * (m * b) + b := by exact_mod_cast h
      linarith
  have hdiv := Nat.div_add_mod a b
  have hmod := Nat.mod_lt a hb
  -- the quotient is `m`, or one below it when the fraction is at least a half
  have hq : a / b = m ∨ a / b + 1 = m := by
    have h1 : a / b ≤ m := by
      by_contra h
      have : b * (m + 1) ≤ b * (a / b) := Nat.mul_le_mul_left b (by omega)
      rw [Nat.mul_add, Nat.mul_comm b m] at this
      omega
    have h2 : m ≤ a / b + 1 := by
      by_contra h
      have : b * (a / b + 2) ≤ b * m := Nat.mul_le_mul_left b (by omega)
      rw [Nat.mul_add, Nat.mul_comm b m] at this
      omega
    omega
  unfold roundHalfEven
  simp only [Bool.or_eq_true, decide_eq_true_eq, Bool.and_eq_true, beq_iff_eq]
  rcases hq with hq | hq
  · rw [hq, Nat.mul_comm] at hdiv
    rw [hq, if_neg]
    rintro (h | ⟨h, hodd⟩)
    · omega
    · have := tie (Or.inr (by omega)); omega
  · have hmb : m * b = b * (a / b) + b := by rw [← hq, Nat.add_mul, Nat.mul_comm, Nat.one_mul]
    rw [if_pos, hq]
    by_cases h : 2 * (a % b) > b
    · exact Or.inl h
    · have := tie (Or.inl (by omega))
      exact Or.inr ⟨by omega, by omega⟩

theorem le_roundHalfEven (hb : 0 < b) (h : (m : ℚ) ≤ (a : ℚ) / b) : m ≤ roundHalfEven a b := by
  have hb' : (0 : ℚ) < b := by exact_mod_cast hb
  rw [le_div_iff₀ hb'] at h
  have hm : m ≤ a / b := (Nat.le_div_iff_mul_le hb).mpr (by exact_mod_cast h)
  unfold roundHalfEven
  dsimp only
  split <;> omega

theorem roundHalfEven_le (hb : 0 < b) (h : (a : ℚ) / b ≤ m) : roundHalfEven a b ≤ m := by
  have hb' : (0 : ℚ) < b := by exact_mod_cast hb
  rw [div_le_iff₀ hb'] at h
  have ha : a ≤ m * b := by exact_mod_cast h
  have hdiv := Nat.div_add_mod a b
  have hq : a / b ≤ m := Nat.div_le_of_le_mul (by rwa [Nat.mul_comm])
  unfold roundHalfEven
  simp only [Bool.or_eq_true, decide_eq_true_eq, Bool.and_eq_true, beq_iff_eq]
  split
  · -- rounding up needs a fraction, so the quotient itself is below `m`
    have : a / b ≠ m := by
      rintro rfl
      rw [Nat.mul_comm] at hdiv
      omega
    omega
  · exact hq

/-! ### Rounding -/

/-- What `roundAt` comes to for a positive number: the mantissa and exponent before the range is
checked. -/
def rounded (n d : Nat) (k : Int) : Nat × Int :=
  let e := max (floorLog2 n d + k - 52) (-1074)
  let m := roundHalfEven (scaleDown n d (e - k)).1 (scaleDown n d (e - k)).2
  if m = 2 ^ 53 then (2 ^ 52, e + 1) else (m, e)

theorem roundAt_eq (s : Bool) (hn : 0 < n) (d : Nat) (k : Int) : binary64.roundAt s n d k =
      if (rounded n d k).1 = 0 then .finite s 0 0
      else if 971 < (rounded n d k).2 then .infinity s
      else .finite s (rounded n d k).1 (rounded n d k).2 := by
  have h53 : Nat.pow 2 binary64.precision = 2 ^ 53 := rfl
  have h52 : ((binary64.precision : Int) - 1) = 52 := rfl
  unfold Format.roundAt rounded
  rw [if_neg hn.ne', h53, h52]
  simp only [binary64, Bool.not_true, Bool.false_and, Bool.false_eq_true, if_false]
  by_cases h : roundHalfEven (scaleDown n d (max (floorLog2 n d + k - 52) (-1074) - k)).1
      (scaleDown n d (max (floorLog2 n d + k - 52) (-1074) - k)).2 = 2 ^ 53
  · simp only [h, if_true]
    rfl
  · simp only [h, if_false]

theorem scaled_eq (n : Nat) (hd : 0 < d) (k e : Int) : 0 < (scaleDown n d (e - k)).2 ∧
      ((scaleDown n d (e - k)).1 : ℚ) / (scaleDown n d (e - k)).2 = (n : ℚ) / d * 2 ^ k / 2 ^ e := by
  obtain ⟨hb, hq⟩ := scaleDown_spec n hd (e - k)
  refine ⟨hb, ?_⟩
  rw [hq, zpow_sub₀ (by norm_num)]
  field_simp

variable {k e : Int}

/-- **Rounding is right.** A rational at most half a step away from a double, ties on the even side,
rounds to that double. -/
theorem roundAt_of_near (s : Bool) (hn : 0 < n) (hd : 0 < d)
    (hm : IsDouble m e) (hnear : binary64.Near m e ((n : ℚ) / d * 2 ^ k)) :
    binary64.roundAt s n d k = .finite s m e := by
  suffices h : rounded n d k = (m, e) by
    rw [roundAt_eq s hn, h, if_neg hm.pos.ne', if_neg (by have := hm.le_greatest; omega)]
  obtain ⟨hL1, hL2⟩ := floorLog2_spec hn hd
  obtain ⟨hlo, hhi, htie⟩ := hnear
  generalize hx : (n : ℚ) / d * 2 ^ k = x at *
  have lower : (2 : ℚ) ^ (floorLog2 n d + k) ≤ x := by
    rw [two_zpow_add, ← hx]; exact mul_le_mul_of_nonneg_right hL1 (two_zpow_pos k).le
  have upper : x < 2 ^ (floorLog2 n d + k + 1) := by
    rw [show floorLog2 n d + k + 1 = floorLog2 n d + 1 + k by ring, two_zpow_add, ← hx]
    exact mul_lt_mul_of_pos_right hL2 (two_zpow_pos k)
  generalize hL : floorLog2 n d + k = L at *
  have he := two_zpow_pos e
  have hmq : (m : ℚ) + 1 ≤ 2 ^ (53 : Int) := by exact_mod_cast hm.lt
  have hL53 : L < e + 53 := by
    have : (2 : ℚ) ^ L < 2 ^ (e + 53) := by
      rw [two_zpow_add]
      nlinarith
    exact (zpow_lt_zpow_iff_right₀ (by norm_num)).mp this
  have step {E : Int} (hE : max (L - 52) (-1074) = E) :
      rounded n d k = (let m := roundHalfEven (scaleDown n d (E - k)).1 (scaleDown n d (E - k)).2
        if m = 2 ^ 53 then (2 ^ 52, E + 1) else (m, E)) := by
    subst hE
    rw [← hL]
    rfl
  have hbelow := (binary64.stepBelow_bounds m e).2
  by_cases hcarry : -1074 < e ∧ x < 2 ^ (e + 52)
  · -- just below a power of two: the step of the quotient is finer, and it rounds up to `2 ^ 53`
    obtain ⟨hleast, hlt⟩ := hcarry
    have hm52 : m = 2 ^ 52 := by
      by_contra hne
      have hgt : (2 ^ 52 : ℚ) + 1 ≤ m := by
        have := hm.normal.resolve_right (by omega)
        exact_mod_cast (show 2 ^ 52 + 1 ≤ m by omega)
      rw [two_zpow_add] at hlt
      nlinarith
    have hquarter : binary64.stepBelow m e = 1 / 4 := by
      rw [hm52]
      exact if_pos (by simp [binary64, hleast])
    rw [hquarter, hm52] at hlo
    have hL51 : L = e + 51 := by
      have h1 : (2 : ℚ) ^ L < 2 ^ (e + 52) := lower.trans_lt hlt
      have h2 : (2 : ℚ) ^ (e + 51) < 2 ^ (L + 1) := by
        refine lt_of_lt_of_le ?_ (hlo.trans upper.le)
        rw [two_zpow_add]
        nlinarith
      have := (zpow_lt_zpow_iff_right₀ (by norm_num)).mp h1
      have := (zpow_lt_zpow_iff_right₀ (by norm_num)).mp h2
      omega
    rw [step (E := e - 1) (by omega)]
    obtain ⟨hb, hq⟩ := scaled_eq n hd k (e - 1)
    rw [hx, zpow_sub_one₀ (by norm_num), ← div_eq_mul_inv, div_div_eq_mul_div, mul_comm] at hq
    rw [two_zpow_add] at hlt
    have hround : roundHalfEven (scaleDown n d (e - 1 - k)).1 (scaleDown n d (e - 1 - k)).2 = 2 ^ 53 := by
      refine roundHalfEven_eq hb ?_ ?_ (fun _ => by norm_num)
      · rw [hq, le_div_iff₀ he]
        linarith
      · rw [hq, div_le_iff₀ he]
        nlinarith
    simp only [hround, if_true, hm52, sub_add_cancel]
  · -- the step of the quotient is the one of the result
    have hE : max (L - 52) (-1074) = e := by
      have := hm.least_le
      rcases Classical.not_and_iff_not_or_not.mp hcarry with h | h
      · omega
      · have : (2 : ℚ) ^ (e + 52) < 2 ^ (L + 1) := (not_lt.mp h).trans_lt upper
        have := (zpow_lt_zpow_iff_right₀ (by norm_num)).mp this
        omega
    rw [step hE]
    obtain ⟨hb, hq⟩ := scaled_eq n hd k e
    rw [hx] at hq
    have hround : roundHalfEven (scaleDown n d (e - k)).1 (scaleDown n d (e - k)).2 = m := by
      refine roundHalfEven_eq hb ?_ ?_ ?_
      · rw [hq, le_div_iff₀ he]
        nlinarith
      · rwa [hq, div_le_iff₀ he]
      · rw [hq, div_eq_iff he.ne', div_eq_iff he.ne']
        rintro (h | h)
        · refine htie (Or.inl (le_antisymm ?_ hlo))
          nlinarith
        · exact htie (Or.inr h)
    have := hm.lt
    simp only [hround, if_neg this.ne]

/-- A mantissa that was rounded, and its exponent, are those of a double as far as the range
goes. -/
theorem rounded_bounds (hn : 0 < n) (hd : 0 < d) (k : Int) : (rounded n d k).1 < 2 ^ 53 ∧ -1074 ≤ (rounded n d k).2 ∧
      (2 ^ 52 ≤ (rounded n d k).1 ∨ (rounded n d k).2 = -1074) := by
  obtain ⟨hL1, hL2⟩ := floorLog2_spec hn hd
  generalize hE : max (floorLog2 n d + k - 52) (-1074) = E
  obtain ⟨hb, hq⟩ := scaled_eq n hd k E
  have hpos := two_zpow_pos E
  have le53 : roundHalfEven (scaleDown n d (E - k)).1 (scaleDown n d (E - k)).2 ≤ 2 ^ 53 := by
    refine roundHalfEven_le hb ?_
    rw [hq, div_le_iff₀ hpos]
    calc (n : ℚ) / d * 2 ^ k ≤ 2 ^ (floorLog2 n d + 1) * 2 ^ k :=
          mul_le_mul_of_nonneg_right hL2.le (two_zpow_pos k).le
      _ = 2 ^ (floorLog2 n d + 1 + k) := (two_zpow_add _ _).symm
      _ ≤ 2 ^ (53 + E) := zpow_le_zpow_right₀ (by norm_num) (by omega)
      _ = _ := by rw [two_zpow_add]; norm_num
  have ge52 (h : E = floorLog2 n d + k - 52) :
      2 ^ 52 ≤ roundHalfEven (scaleDown n d (E - k)).1 (scaleDown n d (E - k)).2 := by
    refine le_roundHalfEven hb ?_
    rw [hq, le_div_iff₀ hpos]
    calc ((2 ^ 52 : Nat) : ℚ) * 2 ^ E = 2 ^ (52 + E) := by rw [two_zpow_add]; norm_num
      _ = 2 ^ floorLog2 n d * 2 ^ k := by rw [← two_zpow_add]; congr 1; omega
      _ ≤ (n : ℚ) / d * 2 ^ k := mul_le_mul_of_nonneg_right hL1 (two_zpow_pos k).le
  unfold rounded
  simp only [hE]
  split
  · exact ⟨by norm_num, by show -1074 ≤ E + 1; omega, Or.inl le_rfl⟩
  · rename_i hne
    refine ⟨lt_of_le_of_ne le53 hne, by show -1074 ≤ E; omega, ?_⟩
    by_cases h : E = floorLog2 n d + k - 52
    · exact Or.inl (ge52 h)
    · exact Or.inr (by show E = -1074; omega)

/-- A number that is zero, without an exponent, or a double; infinities and what is no number are
left alone. -/
def Floating.IsCanonical : Floating → Prop
  | .finite _ m e => (m = 0 ∧ e = 0) ∨ IsDouble m e
  | _ => True

instance (x : Floating) : Decidable x.IsCanonical :=
  match x with
  | .nan => isTrue trivial
  | .infinity _ => isTrue trivial
  | .finite _ m e => inferInstanceAs (Decidable ((m = 0 ∧ e = 0) ∨ IsDouble m e))

theorem isCanonical_zero (s : Bool) : (Floating.finite s 0 0).IsCanonical := Or.inl ⟨rfl, rfl⟩

theorem isCanonical_roundAt (s : Bool) (n : Nat) (hd : 0 < d) (k : Int) : (binary64.roundAt s n d k).IsCanonical := by
  rcases Nat.eq_zero_or_pos n with rfl | hn
  · exact isCanonical_zero s
  · obtain ⟨hlt, hleast, hnormal⟩ := rounded_bounds hn hd k
    rw [roundAt_eq s hn]
    split
    · exact isCanonical_zero s
    · rename_i hne
      split
      · trivial
      · exact Or.inr ⟨Nat.pos_of_ne_zero hne, hlt, hleast, by omega, hnormal⟩

/-! ### Values -/

/-- The rational a finite number stands for; zero for all others. -/
def Floating.toRat : Floating → ℚ
  | .finite s m e => if s then -(m * 2 ^ e) else m * 2 ^ e
  | _ => 0

/-- A double that is computed exactly stays as it is. -/
theorem roundAt_of_eq (s : Bool) (hd : 0 < d)
    (hm : IsDouble m e) (h : (n : ℚ) / d * 2 ^ k = m * 2 ^ e) : binary64.roundAt s n d k = .finite s m e := by
  refine roundAt_of_near s ?_ hd hm (h ▸ binary64.near_self m e)
  rcases Nat.eq_zero_or_pos n with rfl | hn
  · have : (0 : ℚ) < m * 2 ^ e := mul_pos (by exact_mod_cast hm.pos) (two_zpow_pos e)
    rw [← h] at this
    simp at this
  · exact hn

/-- A natural number of at most fifty-three bits is a double. -/
theorem exists_isDouble_of_lt (hn : 0 < n) (hlt : n < 2 ^ 53) : ∃ m e, IsDouble m e ∧ (n : ℚ) = m * 2 ^ e := by
  have hlog : n.log2 < 53 := (Nat.log2_lt hn.ne').mpr hlt
  have h1 := Nat.log2_self_le hn.ne'
  have h2 := @Nat.lt_log2_self n
  obtain ⟨j, hj⟩ : ∃ j, n.log2 + j = 52 := ⟨52 - n.log2, by omega⟩
  refine ⟨n * 2 ^ j, -j, ⟨?_, ?_, by omega, by omega, Or.inl ?_⟩, ?_⟩
  · positivity
  · calc n * 2 ^ j < 2 ^ (n.log2 + 1) * 2 ^ j := Nat.mul_lt_mul_of_pos_right h2 (by positivity)
      _ = 2 ^ 53 := by rw [← pow_add]; congr 1; omega
  · calc 2 ^ 52 = 2 ^ n.log2 * 2 ^ j := by rw [← pow_add, hj]
      _ ≤ n * 2 ^ j := Nat.mul_le_mul_right _ h1
  · push_cast
    rw [zpow_neg, zpow_natCast]
    field_simp

end BlockProgram.Number
