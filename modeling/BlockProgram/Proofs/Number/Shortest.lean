import BlockProgram.Number.Decimal
import BlockProgram.Proofs.Number.Rounding
import Mathlib.Data.Rat.Floor

/-! # The shortest decimal of a number

`Format.shortest` looks through ever finer decimal grids for a number that rounds to a given one.
Read over the rationals, its interval is `Format.Near` (`holds_iff_near`), a hit on a grid lies in
it (`onGrid_near`), and the last grid always has one, so that the search ends with a decimal that
rounds back (`shortest_near`).  For a natural number the decimal is the number itself
(`shortest_natural`): no other integer is as near.

Counting digits by a logarithm needs a bound on the exponents, which go up to `2 ^ 31`.  The count
may be off by some digits as far as the bounds below tell, but the search for the shortest decimal
goes through more.
-/
namespace BlockProgram.Number

open Number.Interval

theorem ten_zpow_pos (k : Int) : (0 : ℚ) < 10 ^ k := zpow_pos (by norm_num) k

theorem ten_zpow_add (a b : Int) : (10 : ℚ) ^ (a + b) = 10 ^ a * 10 ^ b :=
  zpow_add₀ (by norm_num) a b

def Decimal.toRat (d : Decimal) : ℚ := d.digits * 10 ^ d.exponent

/-! ### The interval -/

variable {m : Nat}

/-- The interval of a number in units: its ends and its value are those of `Format.Near`. -/
theorem Format.interval_spec (f : Format) (hm : 0 < m) (e : Int) : 0 < (f.interval m e).unit ∧
      ((f.interval m e).low : ℚ) = (m - f.stepBelow m e) * 2 ^ e * (f.interval m e).unit ∧
      ((f.interval m e).value : ℚ) = m * 2 ^ e * (f.interval m e).unit ∧
      ((f.interval m e).high : ℚ) = (m + 1 / 2) * 2 ^ e * (f.interval m e).unit := by
  -- a quarter of a step is the factor, in units
  obtain ⟨factor, hfactor, hunit⟩ : ∃ factor : Nat,
      (if 0 ≤ e - 2 then Nat.pow 2 (e - 2).toNat else 1) = factor ∧
        ((factor : ℚ) = 2 ^ e / 4 * (f.interval m e).unit ∧ 0 < (f.interval m e).unit) := by
    refine ⟨_, rfl, ?_⟩
    have hquarter : (2 : ℚ) ^ e / 4 = 2 ^ (e - 2) := by rw [zpow_sub₀ (by norm_num)]; norm_num
    rw [hquarter]
    dsimp only [Format.interval]
    split
    · rename_i h
      obtain ⟨j, hj⟩ := Int.eq_ofNat_of_zero_le h
      rw [hj]
      simp
    · rename_i h
      obtain ⟨j, hj⟩ := Int.eq_ofNat_of_zero_le (show 0 ≤ -(e - 2) by omega)
      rw [hj, show e - 2 = -(j : Int) by omega]
      simp
  obtain ⟨hunit, hpos⟩ := hunit
  refine ⟨hpos, ?_, ?_, ?_⟩
  · have hlow : (f.interval m e).low = (4 * m - if (f.graded && m = Nat.pow 2 (f.precision - 1) &&
        f.least < e) = true then 1 else 2) * factor := by rw [← hfactor]; rfl
    rw [hlow, Nat.cast_mul, hunit, Nat.cast_sub (by split <;> omega)]
    unfold Format.stepBelow
    split <;> push_cast <;> ring
  · have hvalue : (f.interval m e).value = 4 * m * factor := by rw [← hfactor]; rfl
    rw [hvalue]
    push_cast
    rw [hunit]
    ring
  · have hhigh : (f.interval m e).high = (4 * m + 2) * factor := by rw [← hfactor]; rfl
    rw [hhigh]
    push_cast
    rw [hunit]
    ring

theorem Format.interval_value (f : Format) (hm : 0 < m) (e : Int) :
    ((f.interval m e).value : ℚ) / (f.interval m e).unit = m * 2 ^ e := by
  obtain ⟨hunit, -, hvalue, -⟩ := f.interval_spec hm e
  have hunit' : (0 : ℚ) < (f.interval m e).unit := by exact_mod_cast hunit
  rw [hvalue, mul_div_assoc, div_self hunit'.ne', mul_one]

/-- The interval of a number holds exactly the rationals near it. -/
theorem Format.holds_iff_near (f : Format) (hm : 0 < m) (e : Int) (n : Nat) {d : Nat}
    (hd : 0 < d) : (f.interval m e).holds n d = true ↔ f.Near m e ((n : ℚ) / d) := by
  obtain ⟨hunit, hlow, -, hhigh⟩ := f.interval_spec hm e
  have hd' : (0 : ℚ) < d := by exact_mod_cast hd
  have hunit' : (0 : ℚ) < (f.interval m e).unit := by exact_mod_cast hunit
  have hscale : (0 : ℚ) < (f.interval m e).unit * d := mul_pos hunit' hd'
  have hmiddle : ((n * (f.interval m e).unit : Nat) : ℚ) = n / d * ((f.interval m e).unit * d) := by
    push_cast
    field_simp
  have hlow' : (((f.interval m e).low * d : Nat) : ℚ) = (m - f.stepBelow m e) * 2 ^ e * ((f.interval m e).unit * d) := by
    rw [Nat.cast_mul, hlow, mul_assoc]
  have hhigh' : (((f.interval m e).high * d : Nat) : ℚ) = (m + 1 / 2) * 2 ^ e * ((f.interval m e).unit * d) := by
    rw [Nat.cast_mul, hhigh, mul_assoc]
  have hclosed : (f.interval m e).closed = (m % 2 == 0) := rfl
  unfold holds Format.Near
  rw [hclosed]
  simp only [← Nat.cast_le (α := ℚ), ← Nat.cast_lt (α := ℚ), hmiddle, hlow', hhigh', mul_le_mul_iff_left₀ hscale,
    mul_lt_mul_iff_left₀ hscale]
  by_cases heven : m % 2 = 0
  · simp only [heven, beq_self_eq_true, if_true, Bool.and_eq_true, decide_eq_true_eq, implies_true, and_true]
  · rw [if_neg (by simpa using heven)]
    simp only [Bool.and_eq_true, decide_eq_true_eq, heven, imp_false, not_or]
    constructor
    · rintro ⟨h1, h2⟩
      exact ⟨h1.le, h2.le, h1.ne', h2.ne⟩
    · rintro ⟨h1, h2, h3, h4⟩
      exact ⟨lt_of_le_of_ne h1 (Ne.symm h3), lt_of_le_of_ne h2 h4⟩

/-! ### Grids -/

theorem atScale_spec (n : Nat) (k : Int) : 0 < (atScale n k).2 ∧
      ((atScale n k).1 : ℚ) / (atScale n k).2 = n * 10 ^ k := by
  unfold atScale
  split
  · rename_i hk
    obtain ⟨j, rfl⟩ := Int.eq_ofNat_of_zero_le hk
    simp
  · rename_i hk
    obtain ⟨j, hj⟩ := Int.eq_ofNat_of_zero_le (show 0 ≤ -k by omega)
    rw [hj, show k = -(j : Int) by omega]
    refine ⟨Nat.pow_pos (by decide), ?_⟩
    simp [div_eq_mul_inv]

/-- A point of a grid lies in the interval if it is near the number. -/
theorem Format.holds_atScale_iff (f : Format) (hm : 0 < m) (e : Int) (n : Nat) (k : Int) :
    (f.interval m e).holds (atScale n k).1 (atScale n k).2 = true ↔ f.Near m e (n * 10 ^ k) := by
  obtain ⟨hb, hq⟩ := atScale_spec n k
  rw [f.holds_iff_near hm e _ hb, hq]

variable {i : Interval}

/-- The value of an interval in steps of a grid. -/
theorem gridQuotient_spec (hi : 0 < i.unit) (k : Int) :
    let pq := if 0 ≤ k then (i.value, i.unit * Nat.pow 10 k.toNat) else (i.value * Nat.pow 10 (-k).toNat, i.unit)
    0 < pq.2 ∧ (pq.1 : ℚ) / pq.2 = (i.value : ℚ) / i.unit / 10 ^ k := by
  dsimp only
  split
  · rename_i hk
    obtain ⟨j, rfl⟩ := Int.eq_ofNat_of_zero_le hk
    refine ⟨Nat.mul_pos hi (Nat.pow_pos (by decide)), ?_⟩
    simp only [Int.toNat_natCast, Nat.pow_eq, Nat.cast_mul, Nat.cast_pow, Nat.cast_ofNat, zpow_natCast]
    field_simp
  · rename_i hk
    obtain ⟨j, hj⟩ := Int.eq_ofNat_of_zero_le (show 0 ≤ -k by omega)
    rw [hj, show k = -(j : Int) by omega]
    refine ⟨hi, ?_⟩
    simp only [Int.toNat_natCast, Nat.pow_eq, Nat.cast_mul, Nat.cast_pow, Nat.cast_ofNat, zpow_neg, zpow_natCast]
    field_simp

variable {e : Int} {k : Int}

/-- A hit on a grid is a decimal of that grid that rounds to the number. -/
theorem Format.onGrid_near (f : Format) (hm : 0 < m) {d : Decimal}
    (h : (f.interval m e).onGrid k = some d) : d.exponent = k ∧ f.Near m e d.toRat := by
  unfold onGrid at h
  dsimp only at h
  generalize (if 0 ≤ k then _ else _ : Nat × Nat) = pq at h
  split at h
  · -- both neighbours lie in the interval, and the nearer one is one of the two
    rename_i hboth
    rw [Bool.and_eq_true] at hboth
    cases h
    refine ⟨rfl, ?_⟩
    unfold roundHalfEven
    dsimp only
    split
    · exact (f.holds_atScale_iff hm e _ k).mp hboth.2
    · exact (f.holds_atScale_iff hm e _ k).mp hboth.1
  · split at h
    · rename_i hfits
      cases h
      exact ⟨rfl, (f.holds_atScale_iff hm e _ k).mp hfits⟩
    · split at h
      · rename_i hfits
        cases h
        exact ⟨rfl, (f.holds_atScale_iff hm e _ k).mp hfits⟩
      · cases h

variable {n : Nat}

/-- A grid has a hit if the neighbour below the value rounds to the number. -/
theorem Format.onGrid_isSome_of_near (f : Format) (hm : 0 < m)
    (hbelow : (n : ℚ) * 10 ^ k ≤ m * 2 ^ e) (habove : (m : ℚ) * 2 ^ e < (n + 1) * 10 ^ k)
    (hnear : f.Near m e (n * 10 ^ k)) : ((f.interval m e).onGrid k).isSome := by
  obtain ⟨hunit, -⟩ := f.interval_spec hm e
  obtain ⟨hq, hpq⟩ := gridQuotient_spec hunit k
  rw [f.interval_value hm e] at hpq
  unfold onGrid
  dsimp only
  generalize (if 0 ≤ k then _ else _ : Nat × Nat) = pq at hq hpq ⊢
  have hq' : (0 : ℚ) < pq.2 := by exact_mod_cast hq
  have hn : pq.1 / pq.2 = n := by
    rw [← le_div_iff₀ (ten_zpow_pos k), ← hpq, le_div_iff₀ hq'] at hbelow
    rw [← div_lt_iff₀ (ten_zpow_pos k), ← hpq, div_lt_iff₀ hq'] at habove
    exact Nat.div_eq_of_lt_le (by exact_mod_cast hbelow) (by exact_mod_cast habove)
  have fits := (f.holds_atScale_iff hm e n k).mpr hnear
  rw [hn]
  split <;> rfl

/-- A grid on which the number itself lies has it as its hit. -/
theorem Format.onGrid_of_eq (f : Format) (hm : 0 < m)
    (hn : (n : ℚ) * 10 ^ k = m * 2 ^ e) : (f.interval m e).onGrid k = some ⟨n, k⟩ := by
  obtain ⟨hunit, -⟩ := f.interval_spec hm e
  obtain ⟨hq, hpq⟩ := gridQuotient_spec hunit k
  rw [f.interval_value hm e, ← hn, mul_div_assoc, div_self (ten_zpow_pos k).ne', mul_one] at hpq
  unfold onGrid
  dsimp only
  generalize (if 0 ≤ k then _ else _ : Nat × Nat) = pq at hq hpq ⊢
  have hq' : (0 : ℚ) < pq.2 := by exact_mod_cast hq
  have hp : pq.1 = n * pq.2 := by
    rw [div_eq_iff hq'.ne'] at hpq
    exact_mod_cast hpq
  have hbelow : pq.1 / pq.2 = n := by rw [hp, Nat.mul_div_cancel n hq]
  have hnearer : roundHalfEven pq.1 pq.2 = n := by
    refine roundHalfEven_eq hq ?_ ?_ ?_
    · rw [hpq]; linarith
    · rw [hpq]; linarith
    · rw [hpq]
      rintro (h | h) <;> linarith
  have fits := (f.holds_atScale_iff hm e n k).mpr (hn ▸ f.near_self m e)
  rw [hbelow, hnearer]
  simp only [fits, Bool.true_and, if_true, ite_self]

/-- A grid whose step is at most a quarter of the step of the numbers has a hit. -/
theorem Format.onGrid_isSome (f : Format) (hm : 0 < m)
    (hk : (10 : ℚ) ^ k ≤ 2 ^ e / 4) : ((f.interval m e).onGrid k).isSome := by
  have hten := ten_zpow_pos k
  have hbelow := Nat.floor_le (show (0 : ℚ) ≤ m * 2 ^ e / 10 ^ k by positivity)
  have habove := Nat.lt_floor_add_one ((m : ℚ) * 2 ^ e / 10 ^ k)
  rw [le_div_iff₀ hten] at hbelow
  rw [div_lt_iff₀ hten] at habove
  refine f.onGrid_isSome_of_near hm hbelow habove ?_
  rw [add_mul, one_mul] at habove
  generalize (⌊(m : ℚ) * 2 ^ e / 10 ^ k⌋₊ : ℚ) * 10 ^ k = x at *
  obtain ⟨hstep, -⟩ := f.stepBelow_bounds m e
  have hlow : (m - f.stepBelow m e) * 2 ^ e < x := by nlinarith
  have hhigh : x < (m + 1 / 2) * 2 ^ e := by nlinarith
  exact ⟨hlow.le, hhigh.le, fun h => absurd h (not_or.mpr ⟨hlow.ne', hhigh.ne⟩)⟩

/-! ### The search -/

variable {scale : Int} {fuel : Nat}

/-- What the search finds is the hit on the first grid that has one. -/
theorem search_eq_some {d : Decimal} (h : i.search scale fuel n = some d) :
    ∃ j, n ≤ j ∧ i.onGrid (scale - j) = some d ∧ ∀ l, n ≤ l → l < j → i.onGrid (scale - l) = none := by
  induction fuel generalizing n with
  | zero => cases h
  | succ fuel ih =>
    unfold search at h
    split at h
    · rename_i hgrid
      exact ⟨n, le_rfl, hgrid.trans h, fun l hl hl' => absurd hl (by omega)⟩
    · rename_i hgrid
      obtain ⟨j, hj, hd, hnone⟩ := ih h
      refine ⟨j, by omega, hd, fun l hl hl' => ?_⟩
      rcases Nat.eq_or_lt_of_le hl with rfl | hlt
      · exact hgrid
      · exact hnone l hlt hl'

theorem search_isSome {j : Nat} (hn : n ≤ j) (hj : j < n + fuel)
    (h : (i.onGrid (scale - j)).isSome) : (i.search scale fuel n).isSome := by
  induction fuel generalizing n with
  | zero => omega
  | succ fuel ih =>
    unfold search
    split
    · rfl
    · rename_i hgrid
      rcases Nat.eq_or_lt_of_le hn with rfl | hlt
      · rw [hgrid] at h
        cases h
      · exact ih hlt (by omega)

/-- Moving zeros into the exponent changes neither the value nor that there are digits, and never
lowers the exponent. -/
theorem strip_spec (fuel : Nat) (d : Decimal) :
    (d.strip fuel).toRat = d.toRat ∧ (0 < d.digits → 0 < (d.strip fuel).digits) ∧
      d.exponent ≤ (d.strip fuel).exponent := by
  induction fuel generalizing d with
  | zero => exact ⟨rfl, id, le_rfl⟩
  | succ fuel ih =>
    unfold Decimal.strip
    split
    · rename_i h
      rw [Bool.and_eq_true, decide_eq_true_eq, decide_eq_true_eq] at h
      obtain ⟨hvalue, hpos, hexp⟩ := ih ⟨d.digits / 10, d.exponent + 1⟩
      refine ⟨hvalue.trans ?_, fun hd => hpos ?_, ?_⟩
      · have hten : (d.digits : ℚ) = (d.digits / 10 : Nat) * 10 := by
          exact_mod_cast (show d.digits = d.digits / 10 * 10 by omega)
        unfold Decimal.toRat
        rw [hten, ten_zpow_add]
        ring
      · show 0 < d.digits / 10
        omega
      · exact le_trans (by show d.exponent ≤ d.exponent + 1; omega) hexp
    · exact ⟨rfl, id, le_rfl⟩

/-! ### The scale -/

theorem pow_split_le {a b p q x y : Nat} (h : a ^ p ≤ b ^ q) (hx : a ^ x ≤ b ^ y) (t : Nat) :
    a ^ (p * t + x) ≤ b ^ (q * t + y) := by
  rw [pow_add, pow_mul, pow_add, pow_mul]
  exact Nat.mul_le_mul (Nat.pow_le_pow_left h t) hx

variable {l : Nat}

/-- The count of the digits of a power of two is not far too high. -/
theorem ten_pow_guess_le (hl : l < 2147490000) :
    10 ^ (l * 30102999566398119521 / 100000000000000000000) ≤ 10 ^ 5 * 2 ^ l := by
  have hlarge : 10 ^ 8651 ≤ 2 ^ 28738 := by decide +kernel
  have hmiddle : 10 ^ 59 ≤ 2 ^ 196 := by decide +kernel
  have hsmall : 10 ^ 3 ≤ 2 ^ 10 := by decide
  have hdiv := pow_split_le hlarge (pow_split_le hmiddle (pow_split_le hsmall
    (show 10 ^ 0 ≤ 2 ^ (l % 28738 % 196 % 10) from Nat.one_le_two_pow) (l % 28738 % 196 / 10))
    (l % 28738 / 196)) (l / 28738)
  rw [Nat.div_add_mod, Nat.div_add_mod, Nat.div_add_mod] at hdiv
  refine le_trans ?_ (Nat.mul_le_mul_left _ hdiv)
  rw [← pow_add]
  exact Nat.pow_le_pow_right (by decide) (by omega)

/-- Nor is it far too low. -/
theorem two_pow_le_ten_pow_guess (hl : l < 2147490000) :
    2 ^ (l + 1) ≤ 10 ^ (l * 30102999566398119521 / 100000000000000000000 + 9) := by
  have hlarge : 2 ^ 42039 ≤ 10 ^ 12655 := by decide +kernel
  have hmiddle : 2 ^ 93 ≤ 10 ^ 28 := by decide +kernel
  have hsmall : 2 ^ 3 ≤ 10 ^ 1 := by decide
  have hlast : 2 ^ (l % 42039 % 93 % 3 + 1) ≤ 10 ^ 1 :=
    (Nat.pow_le_pow_right (by decide) (show _ ≤ 3 by omega)).trans hsmall
  have hdiv := pow_split_le hlarge (pow_split_le hmiddle (pow_split_le hsmall hlast (l % 42039 % 93 / 3))
    (l % 42039 / 93)) (l / 42039)
  calc 2 ^ (l + 1) ≤ _ := Nat.pow_le_pow_right (by decide) (by omega)
    _ ≤ _ := hdiv
    _ ≤ _ := Nat.pow_le_pow_right (by decide) (by omega)

theorem one_le_digitCount (n : Nat) : 1 ≤ digitCount n := by
  unfold digitCount
  dsimp only
  split <;> omega

theorem digitCount_bounds (hn : 0 < n) (hlog : n.log2 < 2147490000) :
    10 ^ digitCount n ≤ 10 ^ 7 * n ∧ n < 10 ^ (digitCount n + 8) := by
  have hlow := Nat.log2_self_le hn.ne'
  have hhigh := @Nat.lt_log2_self n
  have hover := ten_pow_guess_le hlog
  have hunder := two_pow_le_ten_pow_guess hlog
  have hcount : digitCount n = n.log2 * 30102999566398119521 / 100000000000000000000 + 1 ∨
      digitCount n = n.log2 * 30102999566398119521 / 100000000000000000000 + 2 := ite_eq_or_eq _ _ _
  generalize n.log2 * 30102999566398119521 / 100000000000000000000 = g at *
  constructor
  · calc 10 ^ digitCount n ≤ 10 ^ (2 + g) := Nat.pow_le_pow_right (by decide) (by omega)
      _ = 10 ^ 2 * 10 ^ g := pow_add 10 2 g
      _ ≤ 10 ^ 2 * (10 ^ 5 * 2 ^ n.log2) := Nat.mul_le_mul_left _ hover
      _ ≤ 10 ^ 7 * n := by omega
  · exact (hhigh.trans_le hunder).trans_le (Nat.pow_le_pow_right (by decide) (by omega))

theorem log2_div_le (n : Nat) {d : Nat} (hd : 0 < d) (hle : d ≤ n) : (n / d).log2 ≤ n.log2 := by
  refine Nat.le_of_lt_succ ((Nat.log2_lt (Nat.div_pos hle hd).ne').mpr ?_)
  exact (Nat.div_le_self n d).trans_lt Nat.lt_log2_self

/-- The scale of a positive quotient is not far above it. -/
theorem decimalScale_le {v d : Nat} (hv : 0 < v) (hd : 0 < d) (h1 : v.log2 < 2147490000)
    (h2 : d.log2 < 2147490000) : (10 : ℚ) ^ (decimalScale v d - 10) ≤ (v : ℚ) / d := by
  have hd' : (0 : ℚ) < d := by exact_mod_cast hd
  unfold decimalScale
  split
  · rename_i hle
    obtain ⟨hlow, -⟩ := digitCount_bounds (Nat.div_pos hle hd) ((log2_div_le v hd hle).trans_lt h1)
    generalize digitCount (v / d) = c at *
    have hlow' : (10 : ℚ) ^ c ≤ 10 ^ 7 * (v / d : Nat) := by exact_mod_cast hlow
    have hquotient : ((v / d : Nat) : ℚ) ≤ v / d := by
      rw [le_div_iff₀ hd']
      exact_mod_cast Nat.div_mul_le_self v d
    rw [zpow_sub₀ (by norm_num), zpow_natCast, div_le_iff₀ (by norm_num)]
    linarith
  · rename_i hlt
    obtain ⟨-, hhigh⟩ := digitCount_bounds (Nat.div_pos (show v ≤ d by omega) hv)
      ((log2_div_le d hv (by omega)).trans_lt h2)
    generalize digitCount (d / v) = w at *
    have hgt : d < 10 ^ (w + 8) * v := (Nat.div_lt_iff_lt_mul hv).mp hhigh
    have hgt' : (d : ℚ) < 10 ^ (w + 8) * v := by exact_mod_cast hgt
    have hscale : (if v * Nat.pow 10 (w - 1) = d then 2 - (w : Int) else 1 - (w : Int)) - 10 ≤
        -((w + 8 : Nat) : Int) := by
      split <;> omega
    calc (10 : ℚ) ^ ((if v * Nat.pow 10 (w - 1) = d then 2 - (w : Int) else 1 - (w : Int)) - 10)
        ≤ 10 ^ (-((w + 8 : Nat) : Int)) := zpow_le_zpow_right₀ (by norm_num) hscale
      _ ≤ (v : ℚ) / d := by
        rw [zpow_neg, zpow_natCast, le_div_iff₀ hd', inv_mul_le_iff₀ (by positivity)]
        exact hgt'.le

/-! ### The result -/

/-- The mantissa and exponent of a number for which a format finds a decimal: its mantissa has few
enough bits for the digits that are tried, and its exponent is one for which digits are counted
well. -/
structure Format.Reaches (f : Format) (m : Nat) (e : Int) : Prop where
  pos : 0 < m
  lt : m < 2 ^ f.precision
  bits : f.precision ≤ 512
  room : 2 ^ f.precision * 4 ≤ 10 ^ (f.precision - 8)
  least_le : -2147484160 ≤ e
  le_greatest : e ≤ 2147483135

namespace Format.Reaches
variable {f : Format} {m : Nat} {e : Int}

/-- The value and the unit of the interval are small enough for the digits to be counted. -/
theorem scale_le (h : f.Reaches m e) :
    (10 : ℚ) ^ (decimalScale (f.interval m e).value (f.interval m e).unit - 10) ≤ m * 2 ^ e := by
  obtain ⟨hunit, -, hvalue, -⟩ := f.interval_spec h.pos e
  have hunit' : (0 : ℚ) < (f.interval m e).unit := by exact_mod_cast hunit
  have hm : (0 : ℚ) < m := by exact_mod_cast h.pos
  have hpos : 0 < (f.interval m e).value := by
    have : (0 : ℚ) < (f.interval m e).value := by
      rw [hvalue]; exact mul_pos (mul_pos hm (two_zpow_pos e)) hunit'
    exact_mod_cast this
  have hbits := h.bits
  have hleast := h.least_le
  have hgreatest := h.le_greatest
  rw [← f.interval_value h.pos e]
  refine decimalScale_le hpos hunit ?_ ?_
  · have : (f.interval m e).value < 2 ^ (f.precision + 2 + (e - 2).toNat) := by
      show 4 * m * (if 0 ≤ e - 2 then Nat.pow 2 (e - 2).toNat else 1) < _
      rw [pow_add, pow_add]
      refine Nat.mul_lt_mul_of_lt_of_le (by have := h.lt; omega) ?_ (by positivity)
      split
      · exact le_rfl
      · exact Nat.one_le_two_pow
    have := (Nat.log2_lt hpos.ne').mpr this
    omega
  · have : (f.interval m e).unit < 2 ^ ((2 - e).toNat + 1) := by
      show (if 0 ≤ e - 2 then 1 else Nat.pow 2 (-(e - 2)).toNat) < _
      split
      · exact Nat.one_lt_two_pow (by omega)
      · exact Nat.pow_lt_pow_right (by decide) (by omega)
    have := (Nat.log2_lt hunit.ne').mpr this
    omega

/-- Some decimal that the search goes through rounds to the number. -/
theorem exists_search (h : f.Reaches m e) :
    ∃ d, (f.interval m e).search (decimalScale (f.interval m e).value (f.interval m e).unit) (f.precision + 2) 1 =
      some d := by
  have hscale := h.scale_le
  rw [← Option.isSome_iff_exists]
  refine search_isSome (j := f.precision + 2) (by omega) (by omega) (f.onGrid_isSome h.pos ?_)
  generalize decimalScale (f.interval m e).value (f.interval m e).unit = scale at *
  have he := two_zpow_pos e
  have hm : (m : ℚ) ≤ 2 ^ f.precision := by exact_mod_cast h.lt.le
  have hroom : (2 : ℚ) ^ f.precision * 4 ≤ 10 ^ (f.precision - 8) := by exact_mod_cast h.room
  have hdigits : 8 ≤ f.precision := by
    by_contra hfew
    have := h.room
    rw [show f.precision - 8 = 0 by omega] at this
    have := @Nat.one_le_two_pow f.precision
    omega
  rw [show scale - ((f.precision + 2 : Nat) : Int) = scale - 10 + -((f.precision - 8 : Nat) : Int) by omega, ten_zpow_add]
  calc (10 : ℚ) ^ (scale - 10) * 10 ^ (-((f.precision - 8 : Nat) : Int))
      ≤ 2 ^ f.precision * 2 ^ e * 10 ^ (-((f.precision - 8 : Nat) : Int)) :=
        mul_le_mul_of_nonneg_right (hscale.trans (mul_le_mul_of_nonneg_right hm he.le)) (ten_zpow_pos _).le
    _ ≤ 2 ^ e / 4 := by
      rw [zpow_neg, ← div_eq_mul_inv, div_le_iff₀ (by positivity), zpow_natCast]
      nlinarith

/-- The decimal is found on a grid before which no other has one. -/
theorem shortest_eq (h : f.Reaches m e) :
    ∃ d k, f.shortest m e = d.strip (f.precision + 2) ∧ (f.interval m e).onGrid k = some d ∧
      ((1 : ℚ) ≤ m * 2 ^ e → (f.interval m e).onGrid 0 ≠ none → 0 ≤ k) := by
  obtain ⟨d, hd⟩ := h.exists_search
  obtain ⟨j, -, hgrid, hnone⟩ := search_eq_some hd
  refine ⟨d, _, ?_, hgrid, fun hone hzero => ?_⟩
  · unfold Format.shortest
    dsimp only
    rw [hd]
  · -- the grid of the integers comes after the first one
    obtain ⟨hunit, -⟩ := f.interval_spec h.pos e
    have hunit' : (0 : ℚ) < (f.interval m e).unit := by exact_mod_cast hunit
    have hle : (f.interval m e).unit ≤ (f.interval m e).value := by
      rw [← f.interval_value h.pos e, le_div_iff₀ hunit', one_mul] at hone
      exact_mod_cast hone
    have hscale : 1 ≤ decimalScale (f.interval m e).value (f.interval m e).unit := by
      rw [decimalScale, if_pos hle]
      exact_mod_cast one_le_digitCount _
    generalize decimalScale (f.interval m e).value (f.interval m e).unit = scale at *
    by_contra hneg
    have hhit := hnone scale.toNat (by omega) (by omega)
    rw [show scale - (scale.toNat : Int) = 0 by omega] at hhit
    exact hzero hhit

/-- **The shortest decimal rounds back.** -/
theorem shortest_near (h : f.Reaches m e) : 0 < (f.shortest m e).digits ∧ f.Near m e (f.shortest m e).toRat := by
  obtain ⟨d, k, hshortest, hgrid, -⟩ := h.shortest_eq
  obtain ⟨-, hnear⟩ := f.onGrid_near h.pos hgrid
  obtain ⟨hvalue, hpos, -⟩ := strip_spec (f.precision + 2) d
  rw [hshortest, hvalue]
  refine ⟨hpos (Nat.pos_of_ne_zero fun hzero => ?_), hnear⟩
  -- zero is not near
  have hlow := hnear.1
  have hm : (1 : ℚ) ≤ m := by exact_mod_cast h.pos
  have he := two_zpow_pos e
  obtain ⟨-, hstep⟩ := f.stepBelow_bounds m e
  rw [Decimal.toRat, hzero, Nat.cast_zero, zero_mul] at hlow
  nlinarith

/-- **The decimal of a natural number is the number itself**, written without a fraction, where
steps of two are the longest: on a grid of tens all integers are even. -/
theorem shortest_natural (h : f.Reaches m e) {n : Nat} (hn : (n : ℚ) = m * 2 ^ e) (hle : e ≤ 1) :
    (f.shortest m e).toRat = n ∧ 0 ≤ (f.shortest m e).exponent := by
  obtain ⟨d, k, hshortest, hgrid, hinteger⟩ := h.shortest_eq
  obtain ⟨hexp, hlow, hhigh, -⟩ := f.onGrid_near h.pos hgrid
  obtain ⟨hvalue, -, hstrip⟩ := strip_spec (f.precision + 2) d
  have he := two_zpow_pos e
  have hone : (1 : ℚ) ≤ n := by
    have : (0 : ℚ) < n := by rw [hn]; exact mul_pos (by exact_mod_cast h.pos) he
    exact_mod_cast this
  have hunits : (f.interval m e).onGrid 0 = some ⟨n, 0⟩ := f.onGrid_of_eq h.pos (by rw [zpow_zero, mul_one, hn])
  have hk : 0 ≤ k := hinteger (hn ▸ hone) (by rw [hunits]; exact Option.some_ne_none _)
  rw [hshortest, hvalue]
  refine ⟨?_, (hexp ▸ hk).trans hstrip⟩
  rcases hk.eq_or_lt with rfl | hpos
  · obtain rfl := Option.some.inj (hunits.symm.trans hgrid)
    rw [Decimal.toRat, zpow_zero, mul_one]
  · obtain ⟨j, hj⟩ := Int.eq_ofNat_of_zero_le (show 0 ≤ d.exponent - 1 by omega)
    have heven : d.toRat = ((2 * (d.digits * 10 ^ j * 5) : Nat) : ℚ) := by
      rw [Decimal.toRat, show d.exponent = ((j + 1 : Nat) : Int) by push_cast; omega, zpow_natCast]
      push_cast
      ring
    obtain ⟨-, hstep⟩ := f.stepBelow_bounds m e
    have hlow' : (m - 1 / 2) * 2 ^ e ≤ d.toRat := le_trans (by nlinarith) hlow
    rw [heven] at hlow' hhigh ⊢
    generalize d.digits * 10 ^ j * 5 = half at hlow' hhigh ⊢
    rcases (show e ≤ 0 ∨ e = 1 by omega) with he0 | rfl
    · have hstep : (2 : ℚ) ^ e ≤ 1 := zpow_le_one_of_nonpos₀ (by norm_num) he0
      have h1 : (n : ℚ) < ((2 * half : Nat) : ℚ) + 1 := by nlinarith
      have h2 : ((2 * half : Nat) : ℚ) < n + 1 := by nlinarith
      have h1 : n < 2 * half + 1 := by exact_mod_cast h1
      have h2 : 2 * half < n + 1 := by exact_mod_cast h2
      exact_mod_cast (show 2 * half = n by omega)
    · rw [zpow_one] at hn hlow' hhigh
      have hnm : n = 2 * m := by
        have : (n : ℚ) = 2 * m := by rw [hn]; ring
        exact_mod_cast this
      have h1 : ((2 * m : Nat) : ℚ) ≤ ((2 * half : Nat) : ℚ) + 1 := by push_cast at hlow' ⊢; linarith
      have h2 : ((2 * half : Nat) : ℚ) ≤ ((2 * m : Nat) : ℚ) + 1 := by push_cast at hhigh ⊢; linarith
      have h1 : 2 * m ≤ 2 * half + 1 := by exact_mod_cast h1
      have h2 : 2 * half ≤ 2 * m + 1 := by exact_mod_cast h2
      exact_mod_cast (show 2 * half = n by omega)

end Format.Reaches

/-- The steps of a natural number with few bits more than its mantissa are short. -/
theorem exponent_le_one {high : Nat} (hm : 2 ^ high ≤ m) (hn : (n : ℚ) = m * 2 ^ e)
    (hlt : n < 2 ^ (high + 2)) : e ≤ 1 := by
  by_contra hgt
  have h4 : (2 : ℚ) ^ ((2 : Nat) : Int) ≤ 2 ^ e := zpow_le_zpow_right₀ (by norm_num) (by omega)
  have hm' : (2 : ℚ) ^ high ≤ m := by exact_mod_cast hm
  have hlt' : (n : ℚ) < 2 ^ (high + 2) := by exact_mod_cast hlt
  rw [hn, pow_add] at hlt'
  exact absurd hlt' (not_lt.mpr (mul_le_mul hm' h4 (by norm_num) m.cast_nonneg))

theorem IsDouble.reaches (hm : IsDouble m e) : binary64.Reaches m e where
  pos := hm.pos
  lt := hm.lt
  bits := by decide
  room := by decide +kernel
  least_le := by have := hm.least_le; omega
  le_greatest := by have := hm.le_greatest; omega

/-- A natural number of at most fifty-three bits is a double whose steps are short. -/
theorem IsDouble.exponent_le_one (hm : IsDouble m e) (hn : (n : ℚ) = m * 2 ^ e) (hlt : n < 2 ^ 53) : e ≤ 1 := by
  rcases hm.normal with hhigh | rfl
  · exact Number.exponent_le_one hhigh hn (by omega)
  · decide

end BlockProgram.Number
