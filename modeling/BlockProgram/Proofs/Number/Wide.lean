import BlockProgram.Number.Wide
import BlockProgram.Proofs.Json.Numerals

/-! # The text of the numbers of configuration documents

A number that a configuration document spells is kept to 512 bits, and its text is the shortest
decimal that these bits tell from others (`IsWide.shortest_near`).  Such a text has no fraction
exactly if the number is whole, as far as words go (`readInteger?_text`), and an integer of up to
513 bits is written as it is (`text_integer`).
-/
namespace BlockProgram.Number

/-! ### The shortest decimal -/

/-- A number with all the bits of a format stays as it is. -/
theorem convert_wideFormat {bits high m : Nat} {e : Int} (hbits : bits = high + 1) (hle : 2 ^ high ≤ m)
    (hlt : m < 2 ^ bits) (hleast : (wideFormat bits).least ≤ e) (hgreatest : e ≤ (wideFormat bits).greatest)
    (s : Bool) : (Floating.finite s m e).convert (wideFormat bits) = .finite s m e := by
  have hm : 0 < m := (show 0 < 2 ^ high by positivity).trans_le hle
  have hlog : floorLog2 m 1 = high := by
    obtain ⟨hlow, hhigh⟩ := floorLog2_spec hm one_pos
    rw [Nat.cast_one, div_one] at hlow hhigh
    have hle' : (2 : ℚ) ^ (high : Int) ≤ m := by rw [two_zpow_natCast]; exact_mod_cast hle
    have hlt' : (m : ℚ) < 2 ^ (bits : Int) := by rw [two_zpow_natCast]; exact_mod_cast hlt
    have h1 := (zpow_lt_zpow_iff_right₀ (show (1 : ℚ) < 2 by norm_num)).mp (hle'.trans_lt hhigh)
    have h2 := (zpow_lt_zpow_iff_right₀ (show (1 : ℚ) < 2 by norm_num)).mp (hlow.trans_lt hlt')
    omega
  have hround : roundHalfEven m 1 = m := by
    unfold roundHalfEven
    simp [Nat.mod_one]
  have hwanted : (high : Int) + e - ((bits : Int) - 1) = e := by omega
  have hscale : scaleDown m 1 0 = (m, 1) := rfl
  have hprecision : (wideFormat bits).precision = bits := rfl
  show (wideFormat bits).roundAt s m 1 e = _
  unfold Format.roundAt
  simp only [hlog, hprecision, hwanted, hm.ne', if_false]
  rw [if_neg (by simp [hleast]), max_eq_left hleast, sub_self]
  simp only [hscale, hround, Nat.pow_eq, hlt.ne, hm.ne', if_false]
  rw [if_neg hgreatest.not_gt]

/-- The mantissa and exponent of a positive number of 512 bits. -/
structure IsWide (m : Nat) (e : Int) : Prop where
  le : 2 ^ 511 ≤ m
  lt : m < 2 ^ 512
  least_le : -2147484160 ≤ e
  le_greatest : e ≤ 2147483135

namespace IsWide

variable {m : Nat} {e : Int}

theorem pos (h : IsWide m e) : 0 < m := (show 0 < 2 ^ 511 by positivity).trans_le h.le

theorem convert_eq (h : IsWide m e) (s : Bool) : (Floating.finite s m e).convert (wideFormat 512) = .finite s m e :=
  @convert_wideFormat 512 511 m e rfl h.le h.lt h.least_le h.le_greatest s

theorem reaches (h : IsWide m e) : (wideFormat 512).Reaches m e where
  pos := h.pos
  lt := h.lt
  bits := le_rfl
  room := by decide +kernel
  least_le := h.least_le
  le_greatest := h.le_greatest

/-- The shortest decimal of a number is at most half a step away from it. -/
theorem shortest_near (h : IsWide m e) : 0 < ((wideFormat 512).shortest m e).digits ∧
      ((m : ℚ) - 1 / 2) * 2 ^ e ≤ ((wideFormat 512).shortest m e).toRat ∧
      ((wideFormat 512).shortest m e).toRat ≤ (m + 1 / 2) * 2 ^ e := by
  obtain ⟨hpos, hlow, hhigh, -⟩ := h.reaches.shortest_near
  exact ⟨hpos, hlow, hhigh⟩

/-- An integer that is not far larger than the bits allow, and no more than half a step away, is the
number. -/
theorem eq_of_near (h : IsWide m e) {k : Nat} (hk : k < 2 ^ 511) (hlow : ((m : ℚ) - 1 / 2) * 2 ^ e ≤ k)
    (hhigh : (k : ℚ) ≤ (m + 1 / 2) * 2 ^ e) : (k : ℚ) = m * 2 ^ e := by
  have hm : (2 : ℚ) ^ 511 ≤ m := by exact_mod_cast h.le
  have hk' : (k : ℚ) + 1 ≤ 2 ^ 511 := by exact_mod_cast hk
  generalize (2 : ℚ) ^ 511 = bound at hm hk'
  clear hk h
  rcases le_or_gt e 0 with hle | hgt
  · -- in steps of the number, both are integers
    obtain ⟨j, hj⟩ := Int.eq_ofNat_of_zero_le (show 0 ≤ -e by omega)
    have hstep : (2 : ℚ) ^ e * ((2 ^ j : Nat) : ℚ) = 1 := by
      rw [← two_zpow_natCast, ← two_zpow_add, show e + (j : Int) = 0 by omega, zpow_zero]
    generalize 2 ^ j = steps at hstep
    have hlow' : (m : ℚ) < ((k * steps : Nat) : ℚ) + 1 := by push_cast; nlinarith
    have hhigh' : ((k * steps : Nat) : ℚ) < m + 1 := by push_cast; nlinarith
    have h1 : m < k * steps + 1 := by exact_mod_cast hlow'
    have h2 : k * steps < m + 1 := by exact_mod_cast hhigh'
    rw [show m = k * steps by omega]
    push_cast
    rw [mul_assoc, mul_comm (steps : ℚ), hstep, mul_one]
  · have hstep : (2 : ℚ) ^ (1 : Int) ≤ 2 ^ e := zpow_le_zpow_right₀ (by norm_num) (by omega)
    nlinarith

end IsWide

/-! ### Texts -/

theorem toDigits_mul_ten_pow {a : Nat} (ha : 0 < a) (k : Nat) :
    Nat.toDigits 10 (a * 10 ^ k) = Nat.toDigits 10 a ++ List.replicate k '0' := by
  induction k with
  | zero => simp
  | succ k ih =>
    have happend := @Nat.toDigits_append_toDigits 10 (a * 10 ^ k) 0 (by decide) (by positivity) (by decide)
    rw [pow_succ, show a * (10 ^ k * 10) = 10 * (a * 10 ^ k) + 0 by ring, ← happend, ih,
      List.replicate_succ', List.append_assoc]
    rfl

theorem positional_natural {d : Decimal} (hd : 0 < d.digits) (hexp : 0 ≤ d.exponent) {n : Nat}
    (hn : d.toRat = n) : positional d = Nat.toDigits 10 n := by
  obtain ⟨k, hk⟩ := Int.eq_ofNat_of_zero_le hexp
  have hvalue : n = d.digits * 10 ^ k := by
    rw [Decimal.toRat, hk, zpow_natCast] at hn
    exact_mod_cast hn.symm
  rw [hvalue, toDigits_mul_ten_pow hd, positional, if_pos hexp, hk, Int.toNat_natCast]

/-- What a numeral says as an integer of 64 bits. -/
theorem readInteger?_chars {n : Numeral} (hexp : n.exponent = none) (negative : Bool) (i : Int) :
    readInteger? ((if negative then ['-'] else []) ++ n.chars) = some i ↔ n.fraction = [] ∧ fitsInteger i = true ∧
        (if negative then -(digitsValue n.whole : Int) else digitsValue n.whole) = i := by
  have hsplit : readInteger? ((if negative then ['-'] else []) ++ n.chars) =
      if n.chars ≠ [] && n.chars.all Char.isDigit then
        let i := if negative then -(digitsValue n.chars : Int) else digitsValue n.chars
        if fitsInteger i then some i else none
      else none := by
    obtain ⟨d, ds, hchars, hd⟩ := n.exists_head
    have hminus : d ≠ '-' := fun h => absurd hd (by rw [h]; decide)
    have hplus : d ≠ '+' := fun h => absurd hd (by rw [h]; decide)
    cases negative with
    | true => rfl
    | false => simp [readInteger?, hchars, hminus, hplus]
  rw [hsplit]
  by_cases hfraction : n.fraction = []
  · have hchars : n.chars = n.whole := by
      simp [Numeral.chars, Numeral.fractionChars, Numeral.exponentChars, hexp, hfraction]
    have hdigits : (n.whole ≠ [] && n.whole.all Char.isDigit) = true := by
      simpa [n.whole_ne] using n.whole_digits
    rw [hchars, if_pos hdigits]
    constructor
    · intro h
      obtain ⟨hfits, hi⟩ := Option.ite_none_right_eq_some.mp h
      obtain rfl := Option.some.inj hi
      exact ⟨hfraction, hfits, rfl⟩
    · rintro ⟨-, hfits, rfl⟩
      rw [if_pos hfits]
  · have hpoint : '.' ∈ n.chars := by simp [Numeral.chars, Numeral.fractionChars, hfraction]
    have hdigits : ¬ (n.chars ≠ [] && n.chars.all Char.isDigit) = true := by
      intro h
      rw [Bool.and_eq_true, List.all_eq_true] at h
      exact absurd (h.2 '.' hpoint) (by decide)
    rw [if_neg hdigits]
    exact ⟨fun h => absurd h.symm (Option.some_ne_none i), fun h => absurd h.1 hfraction⟩

/-- A number is `q` with a sign, exactly. -/
def Floating.Is (x : Floating) (negative : Bool) (q : ℚ) : Prop :=
  ∃ m e, x = .finite negative m e ∧ (m : ℚ) * 2 ^ e = q

namespace Floating.Is

variable {x : Floating} {negative : Bool} {q : ℚ}

theorem toRat_eq (h : x.Is negative q) : x.toRat = if negative then -q else q := by
  obtain ⟨m, e, rfl, rfl⟩ := h
  rfl

theorem nonneg (h : x.Is negative q) : 0 ≤ q := by
  obtain ⟨m, e, -, rfl⟩ := h
  exact mul_nonneg m.cast_nonneg (two_zpow_pos e).le

theorem unique (h : x.Is negative q) {negative' : Bool} {q' : ℚ} (h' : x.Is negative' q') :
    negative = negative' ∧ q = q' := by
  obtain ⟨m, e, rfl, rfl⟩ := h
  obtain ⟨m', e', heq, rfl⟩ := h'
  obtain ⟨rfl, rfl, rfl⟩ := Floating.finite.inj heq
  exact ⟨rfl, rfl⟩

/-- A double that is given exactly is converted to itself. -/
theorem convert_binary64 (h : x.Is negative q) {m : Nat} {e : Int} (hm : m = 0 ∧ e = 0 ∨ IsDouble m e)
    (hq : (m : ℚ) * 2 ^ e = q) : x.convert binary64 = .finite negative m e := by
  obtain ⟨m', e', rfl, rfl⟩ := h
  rcases hm with ⟨rfl, rfl⟩ | hm
  · have hzero : m' = 0 := by
      rw [Nat.cast_zero, zero_mul, eq_comm, mul_eq_zero] at hq
      exact_mod_cast hq.resolve_right (two_zpow_pos e').ne'
    rw [hzero]
    rfl
  · refine roundAt_of_eq negative one_pos hm ?_
    rw [Nat.cast_one, div_one, hq]

end Floating.Is

theorem natAbs_le_of_fitsInteger {i : Int} (h : fitsInteger i = true) : i.natAbs ≤ 2 ^ 63 := by
  rw [fitsInteger, Bool.and_eq_true, decide_eq_true_iff, decide_eq_true_iff, leastInteger, greatestInteger] at h
  omega

namespace Wide

/-- A number as a document spells it: zero, or one of 512 bits. -/
def IsSpelled (x : Wide) : Prop :=
  x.bits = spelledBits ∧ ∃ negative m e, x.value = .finite negative m e ∧ (m = 0 ∧ e = 0 ∨ IsWide m e)

/-- The text of a number is a sign and a numeral.  It has no fraction if the number is an integer,
and as far as 64 bits go only then. -/
theorem exists_text {x : Wide} (hx : x.IsSpelled) :
    ∃ negative q, x.value.Is negative q ∧ ∃ n : Numeral, n.exponent = none ∧ Json.Trim n ∧
      x.text = String.ofList ((if negative then ['-'] else []) ++ n.chars) ∧
      (∀ k : Nat, k < 2 ^ 513 → q = k → n.chars = Nat.toDigits 10 k) ∧
      (n.fraction = [] → digitsValue n.whole < 2 ^ 511 → q = digitsValue n.whole) := by
  obtain ⟨value, bits⟩ := x
  obtain ⟨rfl, s, m, e, rfl, hm⟩ := hx
  refine ⟨s, m * 2 ^ e, ⟨m, e, rfl, rfl⟩, ?_⟩
  rcases hm with ⟨rfl, rfl⟩ | hm
  · refine ⟨Json.digitsOf 0, rfl, .inl rfl, ?_, fun k _ hk => ?_, fun _ _ => ?_⟩
    · cases s <;> rfl
    · have : k = 0 := by
        exact_mod_cast hk.symm
      rw [this, Json.chars_digitsOf]
    · rw [Nat.cast_zero, zero_mul]
      rfl
  · obtain ⟨hdigits, hlow, hhigh⟩ := hm.shortest_near
    obtain ⟨n, hchars, hvalue, hexp, -⟩ := exists_numeral_positional ((wideFormat 512).shortest m e)
    have htext : (Wide.mk (.finite s m e) spelledBits).text = String.ofList ((if s then ['-'] else []) ++ n.chars) := by
      have hconvert : (Floating.finite s m e).convert (wideFormat spelledBits) = .finite s m e := hm.convert_eq s
      unfold Wide.text
      simp only [hconvert, Format.write, hm.pos.ne', if_false]
      rw [← hchars]
      cases s <;> rfl
    refine ⟨n, hexp, Json.trim_of_positional hdigits hchars, htext, fun k hk hq => ?_, fun hfraction hlt => ?_⟩
    · obtain ⟨hnatural, hpos⟩ := hm.reaches.shortest_natural hq.symm (exponent_le_one hm.le hq.symm hk)
      rw [← hchars, positional_natural hdigits hpos hnatural]
    · have hdecimal : n.decimal.toRat = digitsValue n.whole := by
        simp [Numeral.decimal, Numeral.exponentValue, Decimal.toRat, hfraction, hexp]
      rw [← hvalue, hdecimal] at hlow hhigh
      exact (hm.eq_of_near hlt hlow hhigh).symm

/-- **The text of a number is a number of JSON.** -/
theorem isNumeral_text {x : Wide} (hx : x.IsSpelled) : Json.IsNumeral x.text := by
  obtain ⟨negative, q, -, n, hexp, htrim, htext, -⟩ := exists_text hx
  rw [htext]
  exact Json.isNumeral_chars hexp htrim negative

/-- **The text of a number is that of an integer of 64 bits exactly if the number is one.** -/
theorem readInteger?_text {x : Wide} (hx : x.IsSpelled) (i : Int) :
    readInteger? x.text.toList = some i ↔ x.value.toRat = i ∧ fitsInteger i = true := by
  obtain ⟨negative, q, hq, n, hexp, -, htext, hnatural, hinteger⟩ := exists_text hx
  rw [htext, String.toList_ofList, readInteger?_chars hexp, hq.toRat_eq]
  have hroom {k : Nat} (hk : k ≤ 2 ^ 63) {b : Nat} (hb : 63 < b) : k < 2 ^ b :=
    hk.trans_lt (Nat.pow_lt_pow_right (by decide) hb)
  constructor
  · rintro ⟨hfraction, hfits, hi⟩
    have hword : digitsValue n.whole ≤ 2 ^ 63 := by
      have := natAbs_le_of_fitsInteger hfits
      split at hi <;> omega
    rw [hinteger hfraction (hroom hword (by decide)), ← hi]
    refine ⟨?_, hi ▸ hfits⟩
    cases negative <;> simp
  · rintro ⟨hi, hfits⟩
    have habs : q = i.natAbs := by
      rw [Nat.cast_natAbs, Int.cast_abs, ← hi]
      cases negative <;> simp [abs_of_nonneg hq.nonneg]
    have hchars := hnatural i.natAbs (hroom (natAbs_le_of_fitsInteger hfits) (by decide)) habs
    have hfraction : n.fraction = [] := by
      by_contra hne
      have hpoint : '.' ∈ n.chars := by simp [Numeral.chars, Numeral.fractionChars, hne]
      rw [hchars] at hpoint
      exact absurd (isDigit_of_mem_digits hpoint) (by decide)
    have hwhole : n.whole = Nat.toDigits 10 i.natAbs := by
      rw [← hchars]
      simp [Numeral.chars, Numeral.fractionChars, Numeral.exponentChars, hexp, hfraction]
    refine ⟨hfraction, hfits, ?_⟩
    rw [habs, ← Int.cast_natCast] at hi
    rw [hwhole, digitsValue_toDigits]
    refine Int.cast_injective (α := ℚ) (Eq.trans ?_ hi)
    cases negative with
    | true => exact Int.cast_neg _
    | false => rfl

/-- **The text of an integer of up to 513 bits is the integer.** -/
theorem text_integer {x : Wide} (hx : x.IsSpelled) {i : Int} (hi : x.value.Is (decide (i < 0)) i.natAbs)
    (hlt : i.natAbs < 2 ^ 513) : x.text = toString i := by
  obtain ⟨negative, q, hq, n, -, -, htext, hnatural, -⟩ := exists_text hx
  obtain ⟨rfl, rfl⟩ := hq.unique hi
  rw [htext, hnatural i.natAbs hlt rfl, ← String.toList_inj, String.toList_ofList, Json.toList_toString]

end Wide

end BlockProgram.Number
