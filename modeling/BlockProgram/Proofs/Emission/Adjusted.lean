import BlockProgram.Proofs.Emission.Expressions
import BlockProgram.Proofs.Value.Index
import BlockProgram.Proofs.Value.Plain

/-! # Positions that are moved by one

The handlers for lists and texts bring positions to the counting of the target language.  A plain
number is moved while the code is written, everything else by code around it.  Either way the text
of the moved position is that of an expression whose value is the position moved
(`exists_adjusted`).
-/
namespace BlockProgram

open Number Precedence

open Grammar (Tree)

variable {setting : Setting} {e : Expression} {ν : Naming} {outer : Precedence}

namespace Expression

/-! ### Positions that are plain numbers -/

/-- No index is looser than a sum. -/
theorem IsIndex.rank_le (h : e.IsIndex) : e.precedence.rank ≤ 4 := by
  cases h with
  | @number c =>
    simp only [precedence]
    split <;> decide
  | @binary op a b hop =>
    show op.precedence.rank ≤ 4
    cases op <;> first | exact absurd hop (by decide) | decide
  | reference | power | negate =>
    simp [precedence, atomic, unaryPostfix, unaryPrefix]

theorem IsIndex.printAt_eq (h : e.IsIndex) (houter : 4 ≤ outer.rank) : e.printAt outer ν = e.print ν := by
  have := h.rank_le
  exact if_neg (by omega)

/-- **Numbers are the only positions that are computed while the code is written**: a literal, or
the negation of one that has no sign itself. -/
theorem IsIndex.exists_signed (h : e.IsIndex) (hliteral : isLiteral (e.print ν) = true) :
    ∃ (c : Constant) (i j : Int) (negative : Bool), c.value.toRat = i ∧ i.natAbs < 2 ^ 53 ∧
      (e.print ν).toList = signed negative (format c.magnitude).toList ∧
      (Floating.finite negative c.mantissa c.exponent).toRat = j ∧
      (∀ V, e.eval V = .ok (.number j)) ∧ e.lead = e := by
  obtain ⟨c, hcode⟩ := Code.exists_constant_of_isLiteral (a := e.code ν) hliteral
  cases h with
  | @number c i hc hi =>
    exact ⟨c, i, i, _, hc, hi, c.print_number, c.toRat_isNegative.trans hc, fun V => by rw [← hc]; rfl, rfl⟩
  | @negate a ha =>
    rcases hcode with hcode | ⟨hcode, hsign⟩
    · cases hcode
    · have hnumber : a.code ν = .number c := Code.minus.inj hcode
      cases ha with
      | @number c i hc hi =>
        cases hnumber
        refine ⟨c, i, -i, true, hc, hi, Constant.print_minus hsign, ?_, fun V => ?_, rfl⟩
        · rw [Int.cast_neg, ← hc, ← c.toRat_isNegative, hsign]
          rfl
        · rw [Int.cast_neg, ← hc]
          rfl
      | _ => cases hnumber
  | _ => rcases hcode with hcode | ⟨hcode, -⟩ <;> cases hcode

end Expression

variable {c : Constant} {i : Int}

/-- A whole constant is written with digits, behind its sign. -/
theorem Constant.exists_digits (hc : c.value.toRat = i) (hi : i.natAbs < 2 ^ 53) :
    ∃ ds, (format c.magnitude).toList = ds ∧ (∀ d ∈ ds, d.isDigit = true) ∧ readDouble? ds = some c.magnitude := by
  obtain ⟨n, hn, hread, hwhole⟩ := exists_numeral_format (m := c.mantissa) (e := c.exponent)
    c.canonical
  have hmagnitude : c.magnitude.toRat = (i.natAbs : ℚ) := by
    have hnonneg : (0 : ℚ) ≤ c.mantissa * 2 ^ c.exponent := by positivity
    rw [Nat.cast_natAbs, Int.cast_abs, ← hc]
    unfold magnitude value Floating.toRat
    cases c.negative <;> simp [abs_of_nonneg hnonneg]
  obtain ⟨hfraction, hexponent⟩ := hwhole i.natAbs hmagnitude hi
  have hchars : n.chars = n.whole := by
    simp [Numeral.chars, Numeral.fractionChars, Numeral.exponentChars, hfraction, hexponent]
  rw [hchars] at hn hread
  exact ⟨n.whole, hn, n.whole_digits, hread⟩

variable {d : Int}

/-- A whole number as it stands in the code, and the constant it is moved to. -/
theorem exists_moved {text : String} {negative : Bool} {j : Int} (hc : c.value.toRat = i) (hi : i.natAbs < 2 ^ 53)
    (htext : text.toList = signed negative (format c.magnitude).toList)
    (hj : (Floating.finite negative c.mantissa c.exponent).toRat = j) (hd : d.natAbs ≤ 1) : ∃ c' : Constant,
    (wholePart text).add binary64 (binary64.ofInt d) = c'.value ∧ c'.value.toRat = j + d := by
  obtain ⟨ds, hds, hdigits, hread⟩ := Constant.exists_digits hc hi
  rw [hds] at htext
  rw [wholePart_signed htext hdigits hread]
  have hcanonical : (Floating.finite negative c.mantissa c.exponent).IsCanonical := c.canonical
  have hij : j.natAbs = i.natAbs := by
    have habs : |(j : ℚ)| = |(i : ℚ)| := by
      rw [← hj, ← hc]
      unfold Constant.value Floating.toRat
      cases negative <;> cases c.negative <;> simp
    have habs' : |j| = |i| := by exact_mod_cast habs
    exact Int.natAbs_eq_natAbs_iff.mpr (abs_eq_abs.mp habs')
  obtain ⟨s, m, e, hadd, hcanonical', hvalue⟩ := add_unit hcanonical hj (hij ▸ hi) hd
  exact ⟨⟨s, m, e, hcanonical'⟩, hadd, hvalue⟩

namespace Expression

theorem IsIndex.exists_moved_constant (h : e.IsIndex) (hliteral : isLiteral (e.print ν) = true)
    (hd : d.natAbs ≤ 1) : ∃ c : Constant, (wholePart (e.print ν)).add binary64 (binary64.ofInt d) = c.value ∧
      (∀ V, e.eval V = .ok (.number (c.value.toRat - d))) ∧ e.lead = e := by
  obtain ⟨c, i, j, negative, hc, hi, htext, hj, heval, hlead⟩ := h.exists_signed hliteral
  obtain ⟨c', hmoved, hc'⟩ := exists_moved hc hi htext hj hd
  refine ⟨c', hmoved, fun V => ?_, hlead⟩
  rw [hc', add_sub_cancel_right]
  exact heval V

end Expression

/-! ### The text of a moved position -/

/-- How far a position is moved that a handler wants moved by `delta`. -/
def Setting.shift (setting : Setting) (delta : Int) : Int :=
  if setting.options.oneBasedIndex then delta - 1 else delta

/-- The position that counts for an empty socket. -/
def Setting.firstIndex (setting : Setting) : Expression :=
  .number (if setting.options.oneBasedIndex then .one else .zero)

/-- Where the position itself is written. -/
def adjustedLevel (d : Int) (outer : Precedence) : Precedence := if d ≠ 0 then .additive else outer

/-- The text of a position with this text, moved by `d`. -/
def adjustedText (d : Int) (outer : Precedence) (text : String) : String :=
  if isLiteral text then
    format ((wholePart text).add binary64 (binary64.ofInt d))
  else
    let moved :=
      if 0 < d then text ++ " + " ++ toString d
      else if d < 0 then text ++ " - " ++ toString (-d)
      else text
    if d ≠ 0 ∧ additive.rank ≤ outer.rank then "(" ++ moved ++ ")" else moved

theorem gives_adjusted {s : Scene} {operand : String → Operand} (h : s.Holds setting operand)
    {name : String} (hname : (operand name).orElse? setting.firstIndex = some e) (delta : Int)
    (houter : 4 ≤ outer.rank) : Gives setting (Emit.adjusted s name delta false outer) e.variables fun ν =>
      adjustedText (setting.shift delta) outer (e.printAt (adjustedLevel (setting.shift delta) outer) ν) := by
  have hlevel : 0 ≤ (adjustedLevel (setting.shift delta) outer).rank := by
    unfold adjustedLevel
    split
    · decide
    · omega
  have hfirst (ν : Naming) : setting.firstIndex.printAt (adjustedLevel (setting.shift delta) outer) ν =
      if setting.options.oneBasedIndex then "1" else "0" := by
    have hbare : setting.firstIndex.printAt (adjustedLevel (setting.shift delta) outer) ν =
        setting.firstIndex.print ν := by
      refine if_neg ?_
      unfold Setting.firstIndex
      split <;> exact not_lt.mpr hlevel
    rw [hbare]
    unfold Setting.firstIndex
    split <;> rfl
  refine .bind_const gives_options ?_
  refine .bind_pure (adjustedText (setting.shift delta) outer)
    (h.gives_valueOrElse hname (by unfold Setting.firstIndex; split <;> rfl) hfirst) fun ν => ?_
  generalize e.printAt (adjustedLevel (setting.shift delta) outer) ν = text
  unfold adjustedText
  split
  · exact .pure _
  · refine .congr (.pure _) fun _ => ?_
    have hne : additive ≠ atomic := by decide
    by_cases hd : setting.shift delta = 0 <;> unfold Setting.shift at hd ⊢
    · simp [hd]
    · simp [hd, hne]

/-- **The text of a moved position** is the text of an expression whose value is moved. It is the
position itself that is written only if it need not be moved, and a sum in parentheses if it is no
number. -/
theorem Expression.exists_adjusted (h : e.IsIndex) (hfactors : e.multipliesRemainder = false)
    (hd : d.natAbs ≤ 1) (houter : 4 ≤ outer.rank) (ν : Naming) :
    ∃ (e' : Expression) (q : Precedence), adjustedText d outer (e.printAt (adjustedLevel d outer) ν) = e'.printAt q ν ∧
    e'.multipliesRemainder = false ∧ (∀ V x, e.eval V = .ok (.number x) → e'.eval V = .ok (.number (x + d))) ∧
    (q = outer ∧ (e'.lead = e' ∧ e.lead = e ∨ d = 0 ∧ e' = e) ∨ q = additive.tighter ∧ d ≠ 0) := by
  have hlevel : 4 ≤ (adjustedLevel d outer).rank := by
    unfold adjustedLevel
    split
    · decide
    · exact houter
  rw [h.printAt_eq hlevel]
  unfold adjustedText
  split
  · rename_i hliteral
    obtain ⟨c, hmoved, hvalue, hlead⟩ := h.exists_moved_constant hliteral hd
    refine ⟨number c, outer, ?_, rfl, fun V x hx => ?_, .inl ⟨rfl, .inl ⟨rfl, hlead⟩⟩⟩
    · rw [hmoved]
      refine (if_neg ?_).symm
      simp only [precedence]
      split <;> simp [unaryPrefix, atomic] <;> omega
    · rw [hvalue V] at hx
      cases hx
      rw [sub_add_cancel]
      rfl
  · rename_i hliteral
    have hprint (op : Operation) (hop : op = .add ∨ op = .subtract) :
        (binary op e (number .one)).printAt additive.tighter ν = "(" ++ (e.print ν ++ op.spelling ++ "1") ++ ")" := by
      rcases hop with rfl | rfl <;>
        exact congrArg ("(" ++ · ++ ")") (by rw [print_binary, h.printAt_eq (by decide)]; rfl)
    obtain rfl | rfl | rfl : d = 0 ∨ d = 1 ∨ d = -1 := by omega
    · refine ⟨e, outer, ?_, hfactors, fun V x hx => ?_, .inl ⟨rfl, .inr ⟨rfl, rfl⟩⟩⟩
      · rw [h.printAt_eq houter]
        rfl
      · rw [hx, Int.cast_zero, add_zero]
    · refine ⟨binary .add e (number .one), additive.tighter, ?_,
        by simp [multipliesRemainder, hfactors], fun V x hx => ?_, .inr ⟨rfl, by decide⟩⟩
      · rw [hprint .add (.inl rfl), if_pos ⟨by decide, houter⟩]
        rfl
      · exact Outcome.combine_eq_number.mpr ⟨x, _, hx, rfl, by rw [Constant.toRat_one]; norm_num⟩
    · refine ⟨binary .subtract e (number .one), additive.tighter, ?_,
        by simp [multipliesRemainder, hfactors], fun V x hx => ?_, .inr ⟨rfl, by decide⟩⟩
      · rw [hprint .subtract (.inr rfl), if_pos ⟨by decide, houter⟩]
        rfl
      · exact Outcome.combine_eq_number.mpr ⟨x, _, hx, rfl, by rw [Constant.toRat_one]; norm_num; ring⟩

end BlockProgram
