import BlockProgram.Number.Literal
import BlockProgram.Proofs.Number.Shortest

/-! # Numerals

A numeral is a spelled decimal: digits, a fraction and an exponent, the last two optional.  Every
notation writes decimals as numerals (`exists_numeral_write`), reading a numeral gives back its
decimal (`readUnsigned?_chars`), and so the text of a double reads as that double
(`exists_numeral_format`).
-/
namespace BlockProgram.Number

open List

/-! ### Reading decimals -/

variable {n : Nat}

theorem digits_bounds (hn : 0 < n) :
    10 ^ ((Nat.toDigits 10 n).length - 1) ≤ n ∧ n < 10 ^ (Nat.toDigits 10 n).length := by
  have hpos := @Nat.length_toDigits_pos 10 n
  refine ⟨?_, (Nat.length_toDigits_le_iff (by decide) hpos).mp le_rfl⟩
  rcases Nat.eq_zero_or_pos ((Nat.toDigits 10 n).length - 1) with h | h
  · rw [h]
    exact hn
  · by_contra hlt
    have := (Nat.length_toDigits_le_iff (b := 10) (by decide) h).mpr (not_le.mp hlt)
    omega

variable {j : Int}

theorem two_zpow_le_ten (hj : 0 ≤ j) : (2 : ℚ) ^ j ≤ 10 ^ j :=
  zpow_le_zpow_left₀ hj (by norm_num) (by norm_num)

theorem ten_zpow_lt_two (hj : j ≤ -1) : (10 : ℚ) ^ j < 2 ^ (j - 1) := by
  have h5 : (5 : ℚ) ^ j ≤ 5 ^ (-1 : Int) := zpow_le_zpow_right₀ (by norm_num) hj
  rw [show (10 : ℚ) = 2 * 5 by norm_num, mul_zpow, zpow_sub_one₀ (by norm_num)]
  refine mul_lt_mul_of_pos_left (h5.trans_lt ?_) (two_zpow_pos j)
  norm_num

variable {d : Decimal} {m : Nat} {e : Int}

/-- A decimal that is near a double is read as that double: its magnitude is never out of range. -/
theorem ofDecimal_of_near (s : Bool) (hd : 0 < d.digits) (hm : IsDouble m e) (hnear : binary64.Near m e d.toRat) :
    binary64.ofDecimal s d.digits d.exponent = .finite s m e := by
  obtain ⟨hlow, hhigh⟩ := digits_bounds hd
  have hpos := @Nat.length_toDigits_pos 10 d.digits
  have he := two_zpow_pos e
  have hmq : (m : ℚ) + 1 ≤ 2 ^ (53 : Int) := by exact_mod_cast hm.lt
  have hm1 : (1 : ℚ) ≤ m := by exact_mod_cast hm.pos
  have hstep := (binary64.stepBelow_bounds m e).2
  unfold Format.ofDecimal
  rw [if_neg hd.ne']
  generalize hlen : (Nat.toDigits 10 d.digits).length = len at *
  have hle : (10 : ℚ) ^ ((len : Int) + d.exponent - 1) ≤ d.toRat := by
    rw [show (len : Int) + d.exponent - 1 = ((len - 1 : Nat) : Int) + d.exponent by omega,
      ten_zpow_add, zpow_natCast, Decimal.toRat]
    gcongr
    exact_mod_cast hlow
  have hlt : d.toRat < 10 ^ ((len : Int) + d.exponent) := by
    rw [ten_zpow_add, zpow_natCast, Decimal.toRat]
    gcongr
    exact_mod_cast hhigh
  have hbig : ¬ binary64.greatest + binary64.precision < (len : Int) + d.exponent := by
    intro h
    have h1024 : (1024 : Int) < len + d.exponent := h
    have h1 : (2 : ℚ) ^ (e + 53) ≤ 10 ^ ((len : Int) + d.exponent - 1) := by
      have := hm.le_greatest
      calc (2 : ℚ) ^ (e + 53) ≤ 2 ^ ((len : Int) + d.exponent - 1) :=
            zpow_le_zpow_right₀ (by norm_num) (by omega)
        _ ≤ _ := two_zpow_le_ten (by omega)
    have h2 := hnear.2.1
    rw [two_zpow_add] at h1
    nlinarith
  have hsmall : ¬ (len : Int) + d.exponent < binary64.least := by
    intro h
    have h1074 : (len : Int) + d.exponent < -1074 := h
    have h1 : d.toRat < 2 ^ (e - 1) := by
      have := hm.least_le
      calc d.toRat < 10 ^ ((len : Int) + d.exponent) := hlt
        _ < 2 ^ ((len : Int) + d.exponent - 1) := ten_zpow_lt_two (by omega)
        _ ≤ 2 ^ (e - 1) := zpow_le_zpow_right₀ (by norm_num) (by omega)
    have h2 := hnear.1
    rw [zpow_sub_one₀ (by norm_num)] at h1
    nlinarith
  rw [if_neg hbig, if_neg hsmall]
  split
  · rename_i hexp
    obtain ⟨k, hk⟩ := Int.eq_ofNat_of_zero_le hexp
    refine roundAt_of_near s (Nat.mul_pos hd (Nat.pow_pos (by decide))) one_pos hm ?_
    rw [Decimal.toRat, hk, zpow_natCast] at hnear
    rw [hk]
    simpa using hnear
  · rename_i hexp
    obtain ⟨k, hk⟩ := Int.eq_ofNat_of_zero_le (show 0 ≤ -d.exponent by omega)
    refine roundAt_of_near s hd (Nat.pow_pos (by decide)) hm ?_
    rw [Decimal.toRat, show d.exponent = -(k : Int) by omega, zpow_neg, zpow_natCast] at hnear
    rw [hk]
    simpa [div_eq_mul_inv] using hnear

theorem isCanonical_ofDecimal (s : Bool) (n : Nat) (k : Int) : (binary64.ofDecimal s n k).IsCanonical := by
  unfold Format.ofDecimal
  dsimp only
  split
  · exact isCanonical_zero s
  · split
    · trivial
    · split
      · exact isCanonical_zero s
      · split
        · exact isCanonical_roundAt s _ one_pos 0
        · exact isCanonical_roundAt s _ (Nat.pow_pos (by decide)) 0

theorem isCanonical_readDouble? {cs : List Char} {x : Floating} (h : readDouble? cs = some x) : x.IsCanonical := by
  unfold readDouble? at h
  split at h
  · cases h
  · rename_i negative d _
    have hcanonical := isCanonical_ofDecimal negative d.digits d.exponent
    split at h
    · rename_i heq
      cases h
      rwa [heq] at hcanonical
    · cases h

theorem isCanonical_parse (text : String) : (parse text).IsCanonical := by
  unfold parse parseChars
  dsimp only
  split
  · exact isCanonical_zero false
  · split
    · trivial
    · split
      · trivial
      · split
        · split
          · exact isCanonical_roundAt false _ one_pos 0
          · trivial
        · cases h : readDouble? (Text.trimChars text.toList) with
          | none => trivial
          | some x => exact isCanonical_readDouble? h

/-! ### Spelling decimals -/

/-- A spelled decimal: digits, then digits behind a point, then the digits of an exponent with its
sign, which is true for a negative one. -/
structure Numeral where
  whole : List Char
  fraction : List Char := []
  exponent : Option (Bool × List Char) := none
  whole_ne : whole ≠ []
  whole_digits : ∀ c ∈ whole, c.isDigit
  fraction_digits : ∀ c ∈ fraction, c.isDigit := by simp
  exponent_digits : ∀ p ∈ exponent, p.2 ≠ [] ∧ ∀ c ∈ p.2, c.isDigit := by simp

namespace Numeral

def fractionChars (n : Numeral) : List Char := if n.fraction = [] then [] else '.' :: n.fraction

def exponentChars (n : Numeral) : List Char :=
  match n.exponent with
  | none => []
  | some (negative, ds) => 'e' :: (if negative then '-' else '+') :: ds

def chars (n : Numeral) : List Char := n.whole ++ (n.fractionChars ++ n.exponentChars)

/-- A numeral starts with a digit. -/
theorem exists_head (n : Numeral) : ∃ d ds, n.chars = d :: ds ∧ d.isDigit = true := by
  obtain ⟨d, ds, hds⟩ := exists_cons_of_ne_nil n.whole_ne
  exact ⟨d, _, by rw [chars, hds]; rfl, n.whole_digits d (by rw [hds]; exact mem_cons_self)⟩

def exponentValue (n : Numeral) : Int :=
  match n.exponent with
  | none => 0
  | some (negative, ds) => if negative then -(digitsValue ds : Int) else digitsValue ds

def decimal (n : Numeral) : Decimal :=
  ⟨digitsValue (n.whole ++ n.fraction), -(n.fraction.length : Int) + n.exponentValue⟩

end Numeral

variable {ds : List Char}

theorem takeWhile_digits (rest : List Char) (hds : ∀ c ∈ ds, c.isDigit) (hrest : ∀ c ∈ rest.head?, c.isDigit = false) :
    (ds ++ rest).takeWhile Char.isDigit = ds ∧ (ds ++ rest).dropWhile Char.isDigit = rest := by
  rw [takeWhile_append_of_pos hds, dropWhile_append_of_pos hds]
  cases rest with
  | nil => simp
  | cons c rest =>
    have hc : c.isDigit = false := hrest c rfl
    simp [hc]

theorem readExponent?_signed {negative : Bool} (hne : ds ≠ []) (hds : ∀ c ∈ ds, c.isDigit) :
    readExponent? ((if negative then '-' else '+') :: ds) =
      some (if negative then -(digitsValue ds : Int) else digitsValue ds) := by
  have hall : ds.all Char.isDigit = true := all_eq_true.mpr hds
  cases negative <;> simp [readExponent?, hne, hall]

namespace Numeral

theorem head?_exponentChars (n : Numeral) : ∀ c ∈ n.exponentChars.head?, c = 'e' := by
  unfold exponentChars
  split <;> simp

theorem head?_fractionChars (n : Numeral) : ∀ c ∈ (n.fractionChars ++ n.exponentChars).head?, c = '.' ∨ c = 'e' := by
  unfold fractionChars
  split
  · intro c hc
    exact Or.inr (n.head?_exponentChars c hc)
  · simp

theorem readUnsigned?_chars (n : Numeral) : readUnsigned? n.chars = some n.decimal := by
  obtain ⟨htake, hdrop⟩ := takeWhile_digits (n.fractionChars ++ n.exponentChars)
    n.whole_digits (by
      intro c hc
      rcases n.head?_fractionChars c hc with rfl | rfl <;> decide)
  have hwhole : decide (n.whole = []) = false := decide_eq_false n.whole_ne
  unfold readUnsigned? chars decimal exponentValue
  simp only [htake, hdrop, hwhole, Bool.false_and, Bool.false_eq_true, if_false]
  unfold fractionChars
  by_cases hf : n.fraction = []
  · rw [if_pos hf, hf]
    unfold exponentChars
    cases he : n.exponent with
    | none => simp
    | some p =>
      obtain ⟨hne, hds⟩ := n.exponent_digits p he
      simp [readExponent?_signed hne hds]
  · obtain ⟨ht, hd⟩ := takeWhile_digits n.exponentChars n.fraction_digits (by
      intro c hc
      rw [n.head?_exponentChars c hc]
      decide)
    rw [if_neg hf]
    simp only [cons_append, ht, hd]
    unfold exponentChars
    cases he : n.exponent with
    | none => simp
    | some p =>
      obtain ⟨hne, hds⟩ := n.exponent_digits p he
      simp [readExponent?_signed hne hds]

end Numeral

open Numeral

theorem digitsValue_eq (ds : List Char) : digitsValue ds = Nat.ofDigitChars 10 ds 0 := by
  unfold digitsValue
  congr 1
  funext n c
  rw [Nat.mul_comm]
  rfl

@[simp] theorem digitsValue_toDigits (n : Nat) : digitsValue (Nat.toDigits 10 n) = n := by
  rw [digitsValue_eq, Nat.ofDigitChars_ten_toDigits]

@[simp] theorem digitsValue_append_zeros (ds : List Char) (k : Nat) :
    digitsValue (ds ++ List.replicate k '0') = digitsValue ds * 10 ^ k := by
  rw [digitsValue_eq, digitsValue_eq, Nat.ofDigitChars_append, Nat.ofDigitChars_replicate_zero, Nat.mul_comm]

@[simp] theorem digitsValue_zeros_append (k : Nat) (ds : List Char) :
    digitsValue (List.replicate k '0' ++ ds) = digitsValue ds := by
  rw [digitsValue_eq, digitsValue_eq, Nat.ofDigitChars_append, Nat.ofDigitChars_replicate_zero, Nat.mul_zero]

variable {c : Char}

theorem isDigit_of_mem_digits (h : c ∈ Nat.toDigits 10 n) : c.isDigit :=
  Nat.isDigit_of_mem_toDigits (by decide) (by decide) h

/-- Without an exponent a decimal is a numeral of the same value; it has a fraction only where the
decimal has one. -/
theorem exists_numeral_positional (d : Decimal) :
    ∃ n : Numeral, positional d = n.chars ∧ n.decimal.toRat = d.toRat ∧ n.exponent = none ∧
      (0 ≤ d.exponent → n.fraction = []) := by
  have hdigits : ∀ c ∈ Nat.toDigits 10 d.digits, c.isDigit := fun c => isDigit_of_mem_digits
  unfold positional
  dsimp only
  split
  · rename_i hexp
    obtain ⟨k, hk⟩ := Int.eq_ofNat_of_zero_le hexp
    let n : Numeral :=
      { whole := Nat.toDigits 10 d.digits ++ List.replicate d.exponent.toNat '0'
        whole_ne := by simp [Nat.toDigits_ne_nil]
        whole_digits := by
          intro c hc
          rcases mem_append.mp hc with hc | hc
          · exact hdigits c hc
          · rw [eq_of_mem_replicate hc]; decide }
    refine ⟨n, by simp [n, chars, fractionChars, exponentChars], ?_, rfl,
      fun _ => rfl⟩
    simp [n, decimal, exponentValue, Decimal.toRat, hk]
  · rename_i hexp
    obtain ⟨k, hk⟩ := Int.eq_ofNat_of_zero_le (show 0 ≤ -d.exponent by omega)
    rw [hk, Int.toNat_natCast]
    have hexp' : d.exponent = -(k : Int) := by omega
    generalize hds : Nat.toDigits 10 d.digits = ds at *
    have hvalue : digitsValue ds = d.digits := by rw [← hds, digitsValue_toDigits]
    split
    · rename_i hlt
      let n : Numeral :=
        { whole := ds.take (ds.length - k)
          fraction := ds.drop (ds.length - k)
          whole_ne := by
            intro h
            have := congrArg List.length h
            simp only [length_take, length_nil] at this
            omega
          whole_digits := fun c hc => hdigits c (mem_of_mem_take hc)
          fraction_digits := fun c hc => hdigits c (mem_of_mem_drop hc) }
      have hne : n.fraction ≠ [] := by
        intro h
        have := congrArg List.length h
        simp only [n, length_drop, length_nil] at this
        omega
      refine ⟨n, ?_, ?_, rfl, fun h => absurd h hexp⟩
      · simp [chars, fractionChars, exponentChars, hne, n]
      · have hlen : ds.length - (ds.length - k) = k := by omega
        simp [n, decimal, exponentValue, Decimal.toRat, take_append_drop, hvalue, hexp', hlen]
    · rename_i hge
      let n : Numeral :=
        { whole := ['0']
          fraction := List.replicate (k - ds.length) '0' ++ ds
          whole_ne := by simp
          whole_digits := by simp
          fraction_digits := by
            intro c hc
            rcases mem_append.mp hc with hc | hc
            · rw [eq_of_mem_replicate hc]; decide
            · exact hdigits c hc }
      have hne : n.fraction ≠ [] := by
        have hpos := @Nat.length_toDigits_pos 10 d.digits
        rw [hds] at hpos
        intro h
        have := congrArg List.length h
        simp only [n, length_append, length_nil] at this
        omega
      refine ⟨n, ?_, ?_, rfl, fun h => absurd h hexp⟩
      · simp [chars, fractionChars, exponentChars, hne, n]
      · have hlen : (((k - ds.length : Nat) : Int) + ds.length) = k := by omega
        have hzero : digitsValue ('0' :: (List.replicate (k - ds.length) '0' ++ ds)) = d.digits := by
          rw [← hvalue]
          exact digitsValue_zeros_append (k - ds.length + 1) ds
        simp only [n, decimal, exponentValue, Decimal.toRat, cons_append,
          nil_append, hzero, hexp', length_append, length_replicate, add_zero]
        push_cast
        rw [hlen]

/-- With an exponent a decimal is a numeral, too. -/
theorem exists_numeral_scientific (width : Nat) (d : Decimal) :
    ∃ n : Numeral, scientific width d = n.chars ∧ n.decimal = d := by
  have hdigits : ∀ c ∈ Nat.toDigits 10 d.digits, c.isDigit := fun c => isDigit_of_mem_digits
  obtain ⟨c, cs, hds⟩ := exists_cons_of_ne_nil (@Nat.toDigits_ne_nil d.digits 10)
  have hvalue : digitsValue (c :: cs) = d.digits := by rw [← hds, digitsValue_toDigits]
  rw [hds] at hdigits
  generalize he : d.exponent + ((c :: cs).length : Int) - 1 = e
  let n : Numeral :=
    { whole := [c]
      fraction := cs
      exponent := some (decide (e < 0), padded width e.natAbs)
      whole_ne := by simp
      whole_digits := fun x hx => hdigits x (mem_cons.mpr (Or.inl (mem_singleton.mp hx)))
      fraction_digits := fun x hx => hdigits x (mem_cons_of_mem _ hx)
      exponent_digits := by
        rintro p ⟨⟩
        refine ⟨by simp [padded, Nat.toDigits_ne_nil], fun x hx => ?_⟩
        rcases mem_append.mp hx with hx | hx
        · rw [eq_of_mem_replicate hx]; decide
        · exact isDigit_of_mem_digits hx }
  refine ⟨n, ?_, ?_⟩
  · unfold scientific
    simp only [hds, he]
    cases cs <;> simp [n, chars, fractionChars, exponentChars]
  · have hpadded : digitsValue (padded width e.natAbs) = e.natAbs := by simp [padded]
    have hexp : -(cs.length : Int) + (if decide (e < 0) = true then -(e.natAbs : Int) else e.natAbs) = d.exponent := by
      rw [length_cons] at he
      rcases lt_or_ge e 0 with h | h
      · rw [decide_eq_true h, if_pos rfl]
        omega
      · rw [decide_eq_false (not_lt.mpr h), if_neg (by decide)]
        omega
    simp only [n, decimal, exponentValue, hpadded, hexp, cons_append, nil_append, hvalue]

theorem exists_numeral_write (t : Notation) (d : Decimal) :
    ∃ n : Numeral, t.write d = n.chars ∧ n.decimal.toRat = d.toRat := by
  have hwrite : t.write d = scientific t.width d ∨ t.write d = positional d := ite_eq_or_eq _ _ _
  rcases hwrite with h | h
  · obtain ⟨n, hchars, hvalue⟩ := exists_numeral_scientific t.width d
    exact ⟨n, h.trans hchars, congrArg Decimal.toRat hvalue⟩
  · obtain ⟨n, hchars, hvalue, -, -⟩ := exists_numeral_positional d
    exact ⟨n, h.trans hchars, hvalue⟩

/-! ### The text of a number -/

/-- A natural number of at most fifty-three bits is written in program text without an exponent. -/
theorem write_natural (hd : 0 < d.digits) (hexp : 0 ≤ d.exponent) {k : Nat}
    (hk : d.toRat = k) (hlt : k < 2 ^ 53) : programNotation.write d = positional d := by
  obtain ⟨hlow, -⟩ := digits_bounds hd
  obtain ⟨j, hj⟩ := Int.eq_ofNat_of_zero_le hexp
  generalize hlen : (Nat.toDigits 10 d.digits).length = len at *
  have hvalue : d.digits * 10 ^ j = k := by
    rw [Decimal.toRat, hj, zpow_natCast] at hk
    exact_mod_cast hk
  have hsmall : len - 1 + j < 16 := by
    have : 10 ^ (len - 1 + j) < 10 ^ 16 := by
      calc 10 ^ (len - 1 + j) = 10 ^ (len - 1) * 10 ^ j := pow_add _ _ _
        _ ≤ d.digits * 10 ^ j := Nat.mul_le_mul_right _ hlow
        _ < 2 ^ 53 := by rw [hvalue]; exact hlt
        _ < 10 ^ 16 := by norm_num
    exact (Nat.pow_lt_pow_iff_right (by decide)).mp this
  unfold Notation.write programNotation
  rw [if_neg]
  simp only [Bool.or_eq_true, decide_eq_true_eq]
  omega

theorem readDecimal?_of_isDigit (hc : c.isDigit = true) (cs : List Char) :
    readDecimal? (c :: cs) = (readUnsigned? (c :: cs)).map (false, ·) := by
  unfold readDecimal?
  split
  · rename_i heq
    cases (List.cons.inj heq).1
    cases hc
  · rename_i heq
    cases (List.cons.inj heq).1
    cases hc
  · rfl

theorem readDouble?_chars (n : Numeral) : readDouble? n.chars =
    match binary64.ofDecimal false n.decimal.digits n.decimal.exponent with
    | .finite s m e => some (.finite s m e)
    | _ => none := by
  obtain ⟨c, cs, hchars, hc⟩ := n.exists_head
  unfold readDouble?
  rw [hchars, readDecimal?_of_isDigit hc, ← hchars, n.readUnsigned?_chars]
  rfl

/-- **A number in program text reads back.** The text of a finite number that is not negative is a
numeral, and reading it gives the number. A natural number of at most fifty-three bits has neither a
fraction nor an exponent. -/
theorem exists_numeral_format (h : (Floating.finite false m e).IsCanonical) :
    ∃ n : Numeral, (format (.finite false m e)).toList = n.chars ∧ readDouble? n.chars = some (.finite false m e) ∧
    (∀ k : Nat, (Floating.finite false m e).toRat = k → k < 2 ^ 53 → n.fraction = [] ∧ n.exponent = none) := by
  rcases h with ⟨rfl, rfl⟩ | hm
  · exact ⟨{ whole := ['0'], whole_ne := by simp, whole_digits := by simp }, rfl, by decide,
      fun k _ _ => ⟨rfl, rfl⟩⟩
  · obtain ⟨hdigits, hnear⟩ := hm.reaches.shortest_near
    have hformat : (format (.finite false m e)).toList = programNotation.write (binary64.shortest m e) := by
      simp [format, Format.write, hm.pos.ne']
    -- a numeral of the same value as the shortest decimal is read as the number
    have hread (n : Numeral) (hn : n.decimal.toRat = (binary64.shortest m e).toRat) :
        readDouble? n.chars = some (.finite false m e) := by
      rw [← hn] at hnear
      have hpos : 0 < n.decimal.digits := by
        have hvalue : (0 : ℚ) < n.decimal.toRat := by
          rw [hn]
          exact mul_pos (by exact_mod_cast hdigits) (ten_zpow_pos _)
        rcases Nat.eq_zero_or_pos n.decimal.digits with h | h
        · simp [Decimal.toRat, h] at hvalue
        · exact h
      rw [readDouble?_chars, ofDecimal_of_near false hpos hm hnear]
    rw [hformat]
    by_cases hnat : ∃ k : Nat, (Floating.finite false m e).toRat = k ∧ k < 2 ^ 53
    · obtain ⟨k, hk, hlt⟩ := hnat
      obtain ⟨hvalue, hexp⟩ := hm.reaches.shortest_natural hk.symm (hm.exponent_le_one hk.symm hlt)
      obtain ⟨n, hchars, hn, hexponent, hfraction⟩ :=
        exists_numeral_positional (binary64.shortest m e)
      exact ⟨n, (write_natural hdigits hexp hvalue hlt).trans hchars, hread n hn,
        fun _ _ _ => ⟨hfraction hexp, hexponent⟩⟩
    · obtain ⟨n, hchars, hn⟩ := exists_numeral_write programNotation (binary64.shortest m e)
      exact ⟨n, hchars, hread n hn, fun k hk hlt => absurd ⟨k, hk, hlt⟩ hnat⟩

theorem format_negative (hm : m ≠ 0) (e : Int) : format (.finite true m e) = "-" ++ format (.finite false m e) := by
  simp [format, Format.write, hm]

end BlockProgram.Number
