import BlockProgram.Proofs.Number.Numeral
import Mathlib.Data.List.TakeWhile

/-! # Whole numbers of double precision

Whole numbers below `2 ^ 53` are doubles, and so are their neighbours.  Adding one to such a number,
or taking one away, is exact (`add_unit`); a text of digits, with or without a sign, is read as the
number it spells (`wholePart_signed`).  What is no number for sure: texts with other characters, and
texts with a blank inside (`mem_of_isLiteral`, `not_isLiteral_of_blank`).  Numbers compare like the
rationals they stand for (`Floating.compare?_finite`).
-/
namespace BlockProgram.Number

open List Floating

/-! ### Adding exactly -/

theorem exists_isDouble_of_le {n : Nat} (hn : 0 < n) (hle : n ≤ 2 ^ 53) :
    ∃ m e, IsDouble m e ∧ (n : ℚ) = m * 2 ^ e := by
  rcases Nat.lt_or_eq_of_le hle with hlt | rfl
  · exact exists_isDouble_of_lt hn hlt
  · exact ⟨2 ^ 52, 1, by decide, by norm_num⟩

variable {e : Int}

/-- The integer that stands for a number on a finer grid. -/
theorem scaled_toRat (s : Bool) (m : Nat) {base : Int} (h : base ≤ e) :
    (scaled s m e base : ℚ) * 2 ^ base = (finite s m e).toRat := by
  obtain ⟨k, hk⟩ := Int.eq_ofNat_of_zero_le (show 0 ≤ e - base by omega)
  have hpow : (2 : ℚ) ^ e = 2 ^ k * 2 ^ base := by
    rw [show e = k + base by omega, two_zpow_add, zpow_natCast]
  unfold scaled toRat
  rw [hk]
  cases s <;> simp [hpow, mul_assoc]

variable {m : Nat}

/-- Where a positive number stands between powers of two. -/
theorem log2_bounds (hm : 0 < m) (e : Int) {k : Nat} (hk : (m : ℚ) * 2 ^ e = k)
    (hlt : k < 2 ^ 53) : 0 ≤ (m.log2 : Int) + e ∧ (m.log2 : Int) + e < 53 := by
  have hpos := two_zpow_pos e
  have hm' : (0 : ℚ) < m := by exact_mod_cast hm
  have hkpos : (1 : ℚ) ≤ k := by
    have : (0 : ℚ) < k := hk ▸ mul_pos hm' hpos
    exact_mod_cast this
  constructor
  · have h : (2 : ℚ) ^ (0 : Int) < 2 ^ ((m.log2 : Int) + 1 + e) := by
      rw [two_zpow_add, zpow_zero]
      calc (1 : ℚ) ≤ m * 2 ^ e := hk ▸ hkpos
        _ < _ := mul_lt_mul_of_pos_right (lt_two_zpow_log2 m) hpos
    have := (zpow_lt_zpow_iff_right₀ (by norm_num : (1 : ℚ) < 2)).mp h
    omega
  · have h : (2 : ℚ) ^ ((m.log2 : Int) + e) < 2 ^ (53 : Int) := by
      rw [two_zpow_add]
      calc (2 : ℚ) ^ (m.log2 : Int) * 2 ^ e ≤ m * 2 ^ e :=
          mul_le_mul_of_nonneg_right (two_zpow_log2_le hm) hpos.le
        _ = k := hk
        _ < ((2 ^ 53 : Nat) : ℚ) := by exact_mod_cast hlt
        _ = _ := by norm_num
    exact (zpow_lt_zpow_iff_right₀ (by norm_num : (1 : ℚ) < 2)).mp h

/-- Rounding a whole number of at most fifty-three bits keeps it. -/
theorem roundAt_whole {total base i : Int} (hi : (total : ℚ) * 2 ^ base = i) (hle : i.natAbs ≤ 2 ^ 53) :
    ∃ s m e, binary64.roundAt (total < 0) total.natAbs 1 base = .finite s m e ∧
      (finite s m e).IsCanonical ∧ (finite s m e).toRat = i := by
  have hpos := two_zpow_pos base
  rcases eq_or_ne total 0 with rfl | hne
  · refine ⟨false, 0, 0, rfl, isCanonical_zero false, ?_⟩
    rw [← hi]
    simp [toRat]
  · have hmagnitude : (total.natAbs : ℚ) * 2 ^ base = (i.natAbs : ℚ) := by
      rw [Nat.cast_natAbs, Nat.cast_natAbs]
      push_cast
      rw [← hi, abs_mul, abs_of_pos hpos]
    have hine : i ≠ 0 := by
      rintro rfl
      rcases mul_eq_zero.mp hi with h | h
      · exact hne (by exact_mod_cast h)
      · exact hpos.ne' h
    have hsign : (total < 0) = (i < 0) := by
      have : ((total : ℚ) < 0) ↔ ((i : ℚ) < 0) := by
        rw [← hi, mul_neg_iff]
        constructor
        · exact fun h => .inr ⟨h, hpos⟩
        · rintro (⟨-, h⟩ | ⟨h, -⟩)
          · exact absurd h hpos.not_gt
          · exact h
      exact propext (by exact_mod_cast this)
    obtain ⟨m, e, hm, heq⟩ :=
      exists_isDouble_of_le (Int.natAbs_pos.mpr hine) hle
    refine ⟨decide (total < 0), m, e, ?_, Or.inr hm, ?_⟩
    · exact roundAt_of_eq _ one_pos hm (by rw [Nat.cast_one, div_one, hmagnitude, heq])
    · unfold toRat
      simp only [hsign, decide_eq_true_eq]
      rw [← heq, Nat.cast_natAbs]
      split_ifs with hneg
      · rw [abs_of_neg hneg]; push_cast; ring
      · rw [abs_of_nonneg (not_lt.mp hneg)]

/-- Neither of two numbers near to each other is lost in their sum. -/
theorem faint_eq {n : Nat} {k : Int} (hm : 0 ≤ (m.log2 : Int) + e) (hm' : (m.log2 : Int) + e < 53)
    (hn : 0 ≤ (n.log2 : Int) + k) : faint binary64 m e n k = (n, k) := by
  unfold faint
  have hprecision : (binary64.precision : Int) = 53 := rfl
  rw [hprecision, if_neg (by omega)]

/-- The sum of two numbers neither of which is lost. -/
theorem add_eq_roundAt (s t : Bool) {n : Nat} {k : Int} (hm : m ≠ 0) (hn : n ≠ 0)
    (hx : faint binary64 n k m e = (m, e)) (hy : faint binary64 m e n k = (n, k)) :
    (finite s m e).add binary64 (.finite t n k) = binary64.roundAt
        (scaled s m e (min e k) + scaled t n k (min e k) < 0)
        (scaled s m e (min e k) + scaled t n k (min e k)).natAbs 1 (min e k) := by
  simp only [add, hm, hn, decide_false, Bool.false_and, Bool.false_eq_true, if_false, hx, hy]

theorem ofInt_unit {d : Int} (hd : d.natAbs = 1) : binary64.ofInt d = .finite (d < 0) (2 ^ 52) (-52) ∧
      (finite (d < 0) (2 ^ 52) (-52)).toRat = d := by
  rcases Int.natAbs_eq_iff.mp hd with rfl | rfl <;> exact ⟨by decide +kernel, by norm_num [toRat]⟩

/-- **The neighbours of a whole number below `2 ^ 53` are found exactly.** -/
theorem add_unit {s : Bool} (hc : (finite s m e).IsCanonical) {i d : Int}
    (hi : (finite s m e).toRat = i) (hlt : i.natAbs < 2 ^ 53) (hd : d.natAbs ≤ 1) :
    ∃ s' m' e', (finite s m e).add binary64 (binary64.ofInt d) = .finite s' m' e' ∧
      (finite s' m' e').IsCanonical ∧ (finite s' m' e').toRat = i + d := by
  rcases Nat.lt_or_eq_of_le hd with hzero | hunit
  · -- nothing to add
    obtain rfl : d = 0 := by omega
    rcases hc with ⟨rfl, rfl⟩ | hm
    · refine ⟨false, 0, 0, ?_, isCanonical_zero false, ?_⟩
      · cases s <;> rfl
      · rw [← hi]
        cases s <;> simp [toRat]
    · refine ⟨s, m, e, ?_, Or.inr hm, by simpa using hi⟩
      show (if (m = 0 && true) = true then _ else if m = 0 then _ else _) = _
      rw [if_neg (by simp [hm.pos.ne']), if_neg hm.pos.ne', if_pos rfl]
      exact roundAt_of_eq s one_pos hm (by simp)
  · obtain ⟨hofInt, hvalue⟩ := ofInt_unit hunit
    rw [hofInt]
    rcases hc with ⟨rfl, rfl⟩ | hm
    · -- a unit alone
      have hi0 : (i : ℚ) = 0 := by
        rw [← hi]
        cases s <;> simp [toRat]
      refine ⟨d < 0, 2 ^ 52, -52, ?_, Or.inr (by decide), by rw [hvalue, hi0, zero_add]⟩
      show binary64.roundAt _ (2 ^ 52) 1 (-52) = _
      exact roundAt_of_eq _ one_pos (by decide) (by norm_num)
    · have hmagnitude : (m : ℚ) * 2 ^ e = (i.natAbs : ℚ) := by
        have h0 : (0 : ℚ) ≤ m * 2 ^ e := by positivity
        rw [Nat.cast_natAbs, Int.cast_abs, ← hi]
        unfold toRat
        cases s <;> simp [abs_of_nonneg h0]
      obtain ⟨hlower, hupper⟩ := log2_bounds hm.pos e hmagnitude hlt
      have hlog : ((2 ^ 52 : Nat).log2 : Int) + -52 = 0 := by decide
      have hx : faint binary64 (2 ^ 52) (-52) m e = (m, e) :=
        faint_eq (by omega) (by omega) hlower
      have hy : faint binary64 m e (2 ^ 52) (-52) = (2 ^ 52, -52) :=
        faint_eq hlower hupper (by omega)
      rw [add_eq_roundAt s _ hm.pos.ne' (by decide) hx hy, ← Int.cast_add]
      refine roundAt_whole ?_ (by omega)
      rw [Int.cast_add, Int.cast_add, add_mul, scaled_toRat s m (min_le_left _ _),
        scaled_toRat _ _ (min_le_right _ _), hi, hvalue]

/-! ### Reading whole numbers -/

/-- The characters of a number with a sign in front, or none. -/
def signed (negative : Bool) (ds : List Char) : List Char := if negative then '-' :: ds else ds

theorem roundAt_sign (s : Bool) (n d : Nat) (k : Int) :
    binary64.roundAt s n d k = if s then (binary64.roundAt false n d k).neg
      else binary64.roundAt false n d k := by
  cases s
  · rfl
  · unfold Format.roundAt
    simp only [if_true]
    split_ifs <;> rfl

theorem ofDecimal_sign (s : Bool) (n : Nat) (k : Int) :
    binary64.ofDecimal s n k = if s then (binary64.ofDecimal false n k).neg
      else binary64.ofDecimal false n k := by
  cases s
  · rw [if_neg Bool.false_ne_true]
  · unfold Format.ofDecimal Format.round
    simp only [if_true]
    split_ifs <;> first | rfl | rw [roundAt_sign true, if_pos rfl]

variable {c : Char} {cs : List Char}

theorem readDouble?_signed (negative : Bool) (hc : c.isDigit = true) (h : readDouble? (c :: cs) = some (.finite false m e)) :
    readDouble? (signed negative (c :: cs)) = some (.finite negative m e) := by
  cases negative with
  | false => exact h
  | true =>
    have hsigned : readDecimal? (signed true (c :: cs)) = (readUnsigned? (c :: cs)).map (true, ·) := rfl
    unfold readDouble? at h ⊢
    rw [readDecimal?_of_isDigit hc] at h
    rw [hsigned]
    cases hu : readUnsigned? (c :: cs) with
    | none => rw [hu] at h; cases h
    | some d =>
      rw [hu] at h
      simp only [Option.map_some] at h ⊢
      rw [ofDecimal_sign, if_pos rfl]
      cases hd : binary64.ofDecimal false d.digits d.exponent with
      | nan | infinity => rw [hd] at h; cases h
      | finite s' m' e' =>
        rw [hd] at h
        obtain ⟨rfl, rfl, rfl⟩ : s' = false ∧ m' = m ∧ e' = e := by simpa using h
        rfl

theorem trimChars_of_all (h : ∀ c ∈ cs, Text.isBlank c = false) : Text.trimChars cs = cs := by
  have hself {xs : List Char} (hxs : ∀ c ∈ xs, Text.isBlank c = false) : xs.dropWhile Text.isBlank = xs :=
    dropWhile_eq_self_iff.mpr fun hl => by simp [hxs _ (getElem_mem hl)]
  unfold Text.trimChars Text.dropEndWhile
  rw [hself h, hself (by simpa using h), reverse_reverse]

theorem not_isBlank_of_isDigit (h : c.isDigit = true) : Text.isBlank c = false := by
  have hbounds : 48 ≤ c.toNat ∧ c.toNat ≤ 57 := by
    simpa [Char.isDigit, UInt32.le_iff_toNat_le] using h
  unfold Text.isBlank
  simp only [Bool.or_eq_false_iff, Bool.and_eq_false_iff, decide_eq_false_iff_not, beq_eq_false_iff_ne]
  omega

theorem announcedBase?_eq_none (h : ∀ c ∈ cs, c = '-' ∨ c = '.' ∨ c.isDigit = true) : announcedBase? cs = none := by
  unfold announcedBase?
  split
  · rename_i c d r
    have hletter : ∀ x ∈ ['x', 'X', 'o', 'O', 'b', 'B'], ¬ (x = '-' ∨ x = '.' ∨ x.isDigit = true) := by simp
    have hc (x : Char) (hx : x ∈ ['x', 'X', 'o', 'O', 'b', 'B']) : c ≠ x :=
      fun heq => hletter x hx (heq ▸ h c (by simp))
    simp [hc 'x', hc 'X', hc 'o', hc 'O', hc 'b', hc 'B']
  · rfl

section

variable {negative : Bool} {ds : List Char} {m : Nat} {e : Int}

theorem not_isBlank_signed (negative : Bool) (hds : ∀ c ∈ ds, c = '.' ∨ c.isDigit = true) :
    ∀ c ∈ signed negative ds, (c = '-' ∨ c = '.' ∨ c.isDigit = true) ∧ Text.isBlank c = false := by
  intro c hc
  have hchar : c = '-' ∨ c = '.' ∨ c.isDigit = true := by
    cases negative with
    | false => exact .inr (hds c hc)
    | true => exact (mem_cons.mp hc).imp id (hds c)
  refine ⟨hchar, ?_⟩
  rcases hchar with rfl | rfl | hdigit
  · decide
  · decide
  · exact not_isBlank_of_isDigit hdigit

/-- Digits with a point, behind a sign or not, are read as the number they spell. -/
theorem parseChars_signed (hfirst : ∀ c ∈ ds.head?, c.isDigit = true)
    (hds : ∀ c ∈ ds, c = '.' ∨ c.isDigit = true) (h : readDouble? ds = some (.finite false m e)) :
    parseChars (signed negative ds) = .finite negative m e := by
  have hchars := not_isBlank_signed negative hds
  have hcapital : 'I' ∉ signed negative ds := by
    intro hmem
    rcases (hchars _ hmem).1 with hc | hc | hc <;> exact absurd hc (by decide)
  obtain ⟨c, cs, rfl⟩ : ∃ c cs, ds = c :: cs := by
    cases ds with
    | nil => cases h
    | cons c cs => exact ⟨c, cs, rfl⟩
  unfold parseChars
  rw [trimChars_of_all fun c hc => (hchars c hc).2]
  rw [if_neg, if_neg, if_neg, announcedBase?_eq_none fun c hc => (hchars c hc).1,
    readDouble?_signed negative (hfirst c rfl) h]
  · rfl
  · intro heq
    exact hcapital (heq ▸ by decide)
  · simp only [Bool.or_eq_true, decide_eq_true_eq]
    rintro (heq | heq) <;> exact hcapital (heq ▸ by decide)
  · cases negative <;> exact cons_ne_nil _ _

/-- A text of digits is read as the whole number it spells. -/
theorem wholePart_signed {text : String} (htext : text.toList = signed negative ds)
    (hds : ∀ c ∈ ds, c.isDigit = true) (h : readDouble? ds = some (.finite false m e)) :
    wholePart text = .finite negative m e := by
  have hchars := not_isBlank_signed negative fun c hc => .inr (hds c hc)
  have hwhole : (signed negative ds).takeWhile (· ≠ '.') = signed negative ds := by
    refine takeWhile_eq_self_iff.mpr fun c hc => decide_eq_true ?_
    rintro rfl
    cases negative with
    | false => exact absurd (hds _ hc) (by decide)
    | true => exact absurd (hds _ ((mem_cons.mp hc).resolve_left (by decide))) (by decide)
  unfold wholePart
  rw [htext, trimChars_of_all fun c hc => (hchars c hc).2, hwhole]
  exact parseChars_signed (fun c hc => hds c (mem_of_head? hc)) (fun c hc => .inr (hds c hc)) h

end

/-! ### Comparing -/

namespace Floating

theorem toRat_finite_neg (m : Nat) (e : Int) : (finite true m e).toRat = -(finite false m e).toRat := rfl

variable {m n : Nat}

theorem toRat_lt_of_heights {e k : Int} (hn : n ≠ 0)
    (h : (m.log2 : Int) + e < n.log2 + k) : (finite false m e).toRat < (finite false n k).toRat := by
  calc (m : ℚ) * 2 ^ e < 2 ^ ((m.log2 : Int) + 1) * 2 ^ e :=
      mul_lt_mul_of_pos_right (lt_two_zpow_log2 m) (two_zpow_pos e)
    _ = 2 ^ ((m.log2 : Int) + e + 1) := by rw [← two_zpow_add]; congr 1; omega
    _ ≤ 2 ^ ((n.log2 : Int) + k) := zpow_le_zpow_right₀ (by norm_num) (by omega)
    _ = 2 ^ (n.log2 : Int) * 2 ^ k := two_zpow_add _ _
    _ ≤ n * 2 ^ k := mul_le_mul_of_nonneg_right (two_zpow_log2_le (Nat.pos_of_ne_zero hn)) (two_zpow_pos k).le

theorem compare_scaled {s t : Bool} {e k : Int} : compare (scaled s m e (min e k)) (scaled t n k (min e k)) =
      compare (finite s m e).toRat (finite t n k).toRat := by
  have hpos := two_zpow_pos (min e k)
  rw [← scaled_toRat s m (min_le_left e k), ← scaled_toRat t n (min_le_right e k)]
  rcases lt_trichotomy (scaled s m e (min e k)) (scaled t n k (min e k)) with h | h | h
  · rw [compare_lt_iff_lt.mpr h, compare_lt_iff_lt.mpr (mul_lt_mul_of_pos_right (by exact_mod_cast h) hpos)]
  · rw [h, compare_eq_iff_eq.mpr rfl, compare_eq_iff_eq.mpr rfl]
  · rw [compare_gt_iff_gt.mpr h, compare_gt_iff_gt.mpr (mul_lt_mul_of_pos_right (by exact_mod_cast h) hpos)]

theorem toRat_finite_pos (hm : m ≠ 0) (e : Int) : 0 < (finite false m e).toRat :=
  mul_pos (by exact_mod_cast Nat.pos_of_ne_zero hm) (two_zpow_pos e)

theorem toRat_finite_zero (s : Bool) (e : Int) : (finite s 0 e).toRat = 0 := by
  cases s <;> simp [toRat]

theorem toRat_lt_of_sign_lt {s t : Bool} (e k : Int) (h : sign s m < sign t n) :
    (finite s m e).toRat < (finite t n k).toRat := by
  have hm (h : m ≠ 0) := toRat_finite_pos h e
  have hn (h : n ≠ 0) := toRat_finite_pos h k
  by_cases hm0 : m = 0 <;> by_cases hn0 : n = 0 <;> cases s <;> cases t <;>
    simp_all [sign, toRat_finite_zero, toRat_finite_neg]
  linarith

theorem eq_of_sign_eq {s t : Bool} (h : sign s m = sign t n) : m = 0 ∧ n = 0 ∨ m ≠ 0 ∧ n ≠ 0 ∧ s = t := by
  unfold sign at h
  cases s <;> cases t <;> grind

/-- Finite numbers compare like the rationals they stand for. -/
theorem compare?_finite (s t : Bool) (m n : Nat) (e k : Int) :
    compare? (finite s m e) (finite t n k) = some (compare (finite s m e).toRat (finite t n k).toRat) := by
  unfold compare?
  dsimp only
  rcases lt_trichotomy (sign s m) (sign t n) with h | h | h
  · rw [compare_lt_iff_lt.mpr h, compare_lt_iff_lt.mpr (toRat_lt_of_sign_lt e k h)]
    rfl
  · rw [compare_eq_iff_eq.mpr h, if_neg (by simp)]
    rcases eq_of_sign_eq h with ⟨rfl, rfl⟩ | ⟨hm, hn, rfl⟩
    · rw [if_pos rfl, toRat_finite_zero, toRat_finite_zero, compare_eq_iff_eq.mpr rfl]
    · rw [if_neg hm]
      rcases lt_trichotomy ((m.log2 : Int) + e) (n.log2 + k) with hheight | hheight | hheight
      · rw [compare_lt_iff_lt.mpr hheight]
        have hlt := toRat_lt_of_heights hn hheight
        cases s
        · rw [compare_lt_iff_lt.mpr hlt]
          rfl
        · rw [toRat_finite_neg, toRat_finite_neg, compare_gt_iff_gt.mpr (neg_lt_neg hlt)]
          rfl
      · rw [compare_eq_iff_eq.mpr hheight, if_neg (by simp), compare_scaled]
      · rw [compare_gt_iff_gt.mpr hheight]
        have hlt := toRat_lt_of_heights hm hheight
        cases s
        · rw [compare_gt_iff_gt.mpr hlt]
          rfl
        · rw [toRat_finite_neg, toRat_finite_neg, compare_lt_iff_lt.mpr (neg_lt_neg hlt)]
          rfl
  · rw [compare_gt_iff_gt.mpr h, compare_gt_iff_gt.mpr (toRat_lt_of_sign_lt k e h)]
    rfl

theorem le_finite (s t : Bool) (m n : Nat) (e k : Int) :
    (finite s m e).le (finite t n k) = decide ((finite s m e).toRat ≤ (finite t n k).toRat) := by
  unfold le
  rw [compare?_finite, Bool.eq_iff_iff, decide_eq_true_eq, ← compare_le_iff_le]
  cases compare (finite s m e).toRat (finite t n k).toRat <;> simp

theorem same_finite (s t : Bool) (m n : Nat) (e k : Int) :
    (finite s m e).same (finite t n k) = decide ((finite s m e).toRat = (finite t n k).toRat) := by
  unfold same
  rw [compare?_finite, Bool.eq_iff_iff]
  simp

end Floating

/-! ### Plain numbers -/

theorem mem_of_isPlain (h : isPlain cs = true) : ∀ c ∈ cs, c = '-' ∨ c = '.' ∨ c.isDigit = true := by
  unfold isPlain at h
  extract_lets unsigned whole rest at h
  have hsign : ∀ c ∈ cs, c = '-' ∨ c ∈ unsigned := by
    intro c hc
    dsimp only [unsigned]
    split
    · exact mem_cons.mp hc
    · exact .inr hc
  intro c hc
  rcases hsign c hc with rfl | hc
  · exact .inl rfl
  -- behind the sign stand digits, and a point with digits behind it
  rw [← takeWhile_append_dropWhile (p := Char.isDigit) (l := unsigned)] at hc
  rcases mem_append.mp hc with hc | (hc : c ∈ rest)
  · exact .inr (.inr (mem_takeWhile_imp hc))
  · obtain ⟨-, hrest⟩ := Bool.and_eq_true_iff.mp h
    clear_value rest
    split at hrest
    · cases hc
    · rcases mem_cons.mp hc with rfl | hc
      · exact .inr (.inl rfl)
      · simp only [Bool.and_eq_true, all_eq_true] at hrest
        exact .inr (.inr (hrest.2 c hc))
    · cases hrest

theorem mem_dropWhile {p : Char → Bool} (hc : c ∈ cs) (hp : p c = false) : c ∈ cs.dropWhile p := by
  rw [← takeWhile_append_dropWhile (p := p) (l := cs)] at hc
  rcases mem_append.mp hc with hc | hc
  · rw [mem_takeWhile_imp hc] at hp
    cases hp
  · exact hc

theorem mem_of_isLiteral {s : String} (h : isLiteral s = true) (hc : c ∈ s.toList)
    (hblank : Text.isPatternBlank c = false) : c = '-' ∨ c = '.' ∨ c.isDigit = true := by
  refine mem_of_isPlain h c ?_
  unfold Text.dropEndWhile
  rw [mem_reverse]
  refine mem_dropWhile ?_ hblank
  rw [mem_reverse]
  exact mem_dropWhile hc hblank

/-- There is no blank inside a plain number. -/
theorem not_isLiteral_of_blank {s : String} {xs ys : List Char} (hs : s.toList = xs ++ ' ' :: ys)
    {x y : Char} (hx : x ∈ xs) (hy : y ∈ ys) (hx' : Text.isPatternBlank x = false)
    (hy' : Text.isPatternBlank y = false) : isLiteral s = false := by
  -- neither end is reached by what is dropped from the other
  have hdrop {as bs : List Char} {a : Char} (ha : a ∈ as) (ha' : Text.isPatternBlank a = false) :
      (as ++ bs).dropWhile Text.isPatternBlank = as.dropWhile Text.isPatternBlank ++ bs := by
    rw [dropWhile_append]
    split
    · rename_i hempty
      have := mem_dropWhile ha ha'
      rw [isEmpty_iff.mp hempty] at this
      cases this
    · rfl
  by_contra hliteral
  rw [Bool.not_eq_false] at hliteral
  unfold isLiteral Text.dropEndWhile at hliteral
  rw [hs, hdrop hx hx', reverse_append, reverse_cons, append_assoc, hdrop (mem_reverse.mpr hy) hy'] at hliteral
  have := mem_of_isPlain hliteral ' ' (by simp)
  exact absurd this (by decide)

end BlockProgram.Number
