import BlockProgram.Proofs.Json.RoundTrip
import BlockProgram.Proofs.Number.Numeral

/-! # Numbers in JSON texts

A numeral without an exponent is a number of JSON if it has no leading zeros (`isNumeral_chars`).
Decimals that are written out have none (`trim_of_positional`), and integers are the case without a
fraction (`isNumeral_toString`).
-/
namespace BlockProgram.Json

open List

open Number (Numeral Decimal)

/-! ### Leading zeros -/

/-- A decimal number starts with a zero only if it is zero. -/
theorem toDigits_head (n : Nat) : Nat.toDigits 10 n = ['0'] ∨ ∃ d ds, Nat.toDigits 10 n = d :: ds ∧ d ≠ '0' := by
  -- the first digit of a longer number is that of its tenth
  induction n using Nat.strongRecOn with
  | _ n ih =>
    rcases Nat.lt_or_ge n 10 with hlt | hge
    · rw [Nat.toDigits_of_lt_base hlt]
      have hdigit : ∀ k < 10, [Nat.digitChar k] = ['0'] ∨ Nat.digitChar k ≠ '0' := by decide
      exact (hdigit n hlt).imp_right fun hne => ⟨_, [], rfl, hne⟩
    · rw [Nat.toDigits_of_base_le (by decide) hge]
      rcases ih (n / 10) (by omega) with hzero | ⟨d, ds, hds, hne⟩
      · have hvalue : Nat.ofDigitChars 10 (Nat.toDigits 10 (n / 10)) 0 = n / 10 := Nat.ofDigitChars_ten_toDigits
        rw [hzero] at hvalue
        have : (0 : Nat) = n / 10 := hvalue
        omega
      · exact .inr ⟨d, ds ++ [Nat.digitChar (n % 10)], by rw [hds]; rfl, hne⟩

theorem toDigits_head_of_pos {n : Nat} (hn : 0 < n) : ∃ d ds, Nat.toDigits 10 n = d :: ds ∧ d ≠ '0' := by
  rcases toDigits_head n with hzero | hhead
  · have hvalue := Number.digitsValue_toDigits n
    rw [hzero] at hvalue
    exact absurd hvalue.symm (by show n ≠ 0; omega)
  · exact hhead

/-- No zero stands before other digits of the whole part. -/
def Trim (n : Numeral) : Prop := n.whole = ['0'] ∨ ∃ d ds, n.whole = d :: ds ∧ d ≠ '0'

theorem trim_of_positional {d : Decimal} (hd : 0 < d.digits) {n : Numeral} (h : Number.positional d = n.chars) :
    Trim n := by
  obtain ⟨c, ds, hds, hc⟩ := toDigits_head_of_pos hd
  obtain ⟨w, ws, hwhole⟩ := exists_cons_of_ne_nil n.whole_ne
  have hchars : Number.positional d = w :: (ws ++ (n.fractionChars ++ n.exponentChars)) := by
    rw [h, Numeral.chars, hwhole, cons_append]
  unfold Number.positional at hchars
  simp only [hds] at hchars
  split at hchars
  · obtain ⟨rfl, -⟩ := List.cons.inj hchars
    exact .inr ⟨c, ws, hwhole, hc⟩
  · split at hchars
    · rename_i hlt
      obtain ⟨k, hk⟩ : ∃ k, (c :: ds).length - (-d.exponent).toNat = k + 1 :=
        ⟨_, (Nat.sub_one_add_one (by omega)).symm⟩
      rw [hk, take_succ_cons, cons_append] at hchars
      obtain ⟨rfl, -⟩ := List.cons.inj hchars
      exact .inr ⟨c, ws, hwhole, hc⟩
    · -- the point stands behind the first zero, so that this zero is the whole part
      obtain ⟨rfl, hrest⟩ := List.cons.inj hchars
      cases ws with
      | nil => exact .inl hwhole
      | cons w' ws =>
        obtain ⟨rfl, -⟩ := List.cons.inj hrest
        exact absurd (n.whole_digits '.' (by simp [hwhole])) (by decide)

/-! ### Reading -/

theorem Stops.not_digit {rest : List Char} (h : Stops rest) : ∀ c ∈ rest.head?, c.isDigit = false := by
  intro c hc
  rcases h c hc with rfl | rfl | rfl <;> decide

theorem someDigits_append {ds rest : List Char} (hds : ∀ c ∈ ds, c.isDigit = true) (hne : ds ≠ [])
    (hrest : ∀ c ∈ rest.head?, c.isDigit = false) : someDigits (ds ++ rest) = .ok (ds, rest) := by
  obtain ⟨htake, hdrop⟩ := Number.takeWhile_digits rest hds hrest
  simp [someDigits, htake, hdrop, hne]

/-- A numeral after a sign, if there is one, and before a comma or bracket is read as a number. -/
theorem readNumber_chars {n : Numeral} (hexp : n.exponent = none) (htrim : Trim n) {sign rest : List Char}
    (hsign : sign = [] ∨ sign = ['-']) (hrest : Stops rest) :
    readNumber (sign ++ (n.chars ++ rest)) = .ok (String.ofList (sign ++ n.chars), rest) := by
  have hchars : n.chars = n.whole ++ n.fractionChars := by
    simp [Numeral.chars, Numeral.exponentChars, hexp]
  have htail : ∀ c ∈ (n.fractionChars ++ rest).head?, c.isDigit = false := by
    unfold Numeral.fractionChars
    split
    · exact hrest.not_digit
    · intro c hc
      rw [← Option.some.inj hc]
      decide
  have hminus : readSign (sign ++ (n.whole ++ (n.fractionChars ++ rest))) =
      (sign, n.whole ++ (n.fractionChars ++ rest)) := by
    rcases hsign with rfl | rfl
    · obtain ⟨d, ds, hwhole⟩ := exists_cons_of_ne_nil n.whole_ne
      have hd : d ≠ '-' := fun h => absurd (n.whole_digits d (by simp [hwhole])) (by rw [h]; decide)
      simp [readSign, hwhole, hd]
    · rfl
  have hwhole : readWhole (n.whole ++ (n.fractionChars ++ rest)) = .ok (n.whole, n.fractionChars ++ rest) := by
    have hdigits := someDigits_append n.whole_digits n.whole_ne htail
    rcases htrim with hzero | ⟨d, ds, hds, hne⟩
    · rw [hzero]
      rfl
    · rw [hds] at hdigits ⊢
      rw [← hdigits]
      simp [readWhole, hne]
  have hfraction : readFraction (n.fractionChars ++ rest) = .ok (n.fractionChars, rest) := by
    unfold Numeral.fractionChars
    split
    · cases rest with
      | nil => rfl
      | cons c cs => rcases hrest c rfl with rfl | rfl | rfl <;> rfl
    · rename_i hne
      simp [readFraction, someDigits_append n.fraction_digits hne hrest.not_digit, Except.map]
  have hbehind : readExponent rest = .ok ([], rest) := by
    cases rest with
    | nil => rfl
    | cons c cs => rcases hrest c rfl with rfl | rfl | rfl <;> rfl
  rw [hchars, append_assoc]
  simp [readNumber, hminus, hwhole, hfraction, hbehind, bind, Except.bind]

/-- **A trim numeral, with a sign or without, is a number of JSON.** -/
theorem isNumeral_chars {n : Numeral} (hexp : n.exponent = none) (htrim : Trim n) (negative : Bool) :
    IsNumeral (String.ofList ((if negative then ['-'] else []) ++ n.chars)) := by
  obtain ⟨d, ds, hchars, hdigit⟩ := n.exists_head
  have hhead : n.chars.head? = some d := by rw [hchars]; rfl
  refine ⟨fun c hc => ?_, fun hempty => ?_, fun rest hrest => ?_⟩
  · rw [String.toList_ofList] at hc
    cases negative with
    | true => exact .inl (Option.some.inj hc).symm
    | false =>
      obtain rfl : d = c := Option.some.inj (hhead.symm.trans hc)
      exact .inr hdigit
  · have hnil := congrArg String.toList hempty
    rw [String.toList_ofList] at hnil
    rw [(append_eq_nil_iff.mp hnil).2] at hhead
    cases hhead
  · have hsign : (if negative then ['-'] else []) = [] ∨ (if negative then ['-'] else []) = ['-'] := by
      cases negative <;> simp
    rw [String.toList_ofList, append_assoc, readNumber_chars hexp htrim hsign hrest]

/-! ### Integers -/

theorem toList_toString (i : Int) :
    (toString i).toList = (if decide (i < 0) then ['-'] else []) ++ Nat.toDigits 10 i.natAbs := by
  rw [Int.toString_eq_repr, Int.repr_eq_if]
  by_cases hi : i < 0
  · have habs : (-i).toNat = i.natAbs := by omega
    simp [hi, habs, not_le.mpr hi]
  · have habs : i.toNat = i.natAbs := by omega
    simp [hi, habs, not_lt.mp hi]

theorem mem_toString {i : Int} {c : Char} (hc : c ∈ (toString i).toList) : c = '-' ∨ c.isDigit = true := by
  rw [toList_toString, mem_append] at hc
  refine hc.imp (fun hsign => ?_) Number.isDigit_of_mem_digits
  split at hsign
  · exact mem_singleton.mp hsign
  · cases hsign

def digitsOf (n : Nat) : Numeral where
  whole := Nat.toDigits 10 n
  whole_ne := Nat.toDigits_ne_nil
  whole_digits := fun _ hc => Number.isDigit_of_mem_digits hc

theorem chars_digitsOf (n : Nat) : (digitsOf n).chars = Nat.toDigits 10 n := by
  simp [digitsOf, Numeral.chars, Numeral.fractionChars, Numeral.exponentChars]

theorem isNumeral_toString (i : Int) : IsNumeral (toString i) := by
  have hnumeral := isNumeral_chars (n := digitsOf i.natAbs) rfl (toDigits_head i.natAbs) (decide (i < 0))
  rwa [chars_digitsOf, ← toList_toString, String.ofList_toList] at hnumeral

theorem toString_inj {i j : Int} (h : toString i = toString j) : i = j := by
  have hdigits : ∀ {m n : Nat}, Nat.toDigits 10 m = Nat.toDigits 10 n → m = n := by
    intro m n hmn
    have hm : Nat.ofDigitChars 10 (Nat.toDigits 10 m) 0 = m := Nat.ofDigitChars_ten_toDigits
    rwa [hmn, Nat.ofDigitChars_ten_toDigits, eq_comm] at hm
  have hminus : ∀ {n : Nat} {cs : List Char}, Nat.toDigits 10 n ≠ '-' :: cs := by
    intro n cs hn
    have hmem : '-' ∈ Nat.toDigits 10 n := hn ▸ mem_cons_self
    exact absurd (Nat.isDigit_of_mem_toDigits (by decide) (by decide) hmem) (by decide)
  have hlist := congrArg String.toList h
  rw [toList_toString, toList_toString] at hlist
  split at hlist <;> split at hlist
  all_goals simp only [decide_eq_true_eq] at *
  · have := hdigits (List.cons.inj hlist).2
    omega
  · exact absurd hlist.symm hminus
  · exact absurd hlist hminus
  · have := hdigits hlist
    omega

end BlockProgram.Json
