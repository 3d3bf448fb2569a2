import BlockProgram.Proofs.Number.Whole
import BlockProgram.Proofs.Value.Regrouping

/-! # Code that is written like a number

The handlers look at the text of an operand to see whether it is a plain number.  Such code is a
constant or the negation of one (`Code.exists_constant_of_isLiteral`), and the number that is read
off its text is its value (`Code.parse_of_isLiteral`).
-/
namespace BlockProgram

open List Number Precedence

open Grammar (Tree)

namespace Code

/-! ### The characters of code -/

theorem exists_mem_enclose (a : Code) (outer : Precedence) :
    ∃ c ∈ (enclose a.print a.precedence outer).toList, Text.isPatternBlank c = false := by
  obtain ⟨c, cs, hcs, -, hblank⟩ := opens_enclose a.opens a.precedence outer
  exact ⟨c, hcs ▸ mem_cons_self, hblank⟩

variable {s : String} {c : Char}

theorem mem_withMinus (h : c ∈ s.toList) : c ∈ (withMinus s).toList := by
  unfold withMinus
  split <;> simp [h]

theorem mem_enclose (h : c ∈ s.toList) (inner outer : Precedence) : c ∈ (enclose s inner outer).toList := by
  unfold enclose
  split <;> simp [h]

/-- Characters of neither words nor numbers. -/
def marks : List Char := ['\'', '[', '(', '!', '?']

/-- All other code has such a character. -/
theorem exists_mark (a : Code) :
    (∃ c, a = number c) ∨ (∃ w, a = name w) ∨ (∃ b w, a = member b w) ∨ (∃ b, a = minus b) ∨
      (∃ op b c, a = binary op b c) ∨ ∃ c ∈ marks, c ∈ a.print.toList := by
  cases a with
  | number c => exact .inl ⟨c, rfl⟩
  | name w => exact .inr (.inl ⟨w, rfl⟩)
  | member b w => exact .inr (.inr (.inl ⟨b, w, rfl⟩))
  | minus b => exact .inr (.inr (.inr (.inl ⟨b, rfl⟩)))
  | binary op b c => exact .inr (.inr (.inr (.inr (.inl ⟨op, b, c, rfl⟩))))
  | _ => simp [print, marks, Literal.quote, Literal.quoteChars, Literal.emptyList]

/-! ### What is no plain number -/

/-- A text with a character of neither a number nor a blank is no number. -/
theorem not_isLiteral_of_mem (hc : c ∈ s.toList)
    (hother : Text.isPatternBlank c = false ∧ ¬ (c = '-' ∨ c = '.' ∨ c.isDigit = true)) :
    isLiteral s = false := by
  by_contra h
  rw [Bool.not_eq_false] at h
  exact hother.2 (mem_of_isLiteral h hc hother.1)

theorem not_isLiteral_of_mark (hmark : c ∈ marks) (hc : c ∈ s.toList) : isLiteral s = false := by
  refine not_isLiteral_of_mem hc ?_
  simp only [marks, mem_cons, not_mem_nil, or_false] at hmark
  rcases hmark with rfl | rfl | rfl | rfl | rfl <;> decide

theorem not_isLiteral_of_word (w : Word) (hs : ∀ c ∈ w.text.toList, c ∈ s.toList) : isLiteral s = false := by
  obtain ⟨c, cs, hcs, hc, -⟩ := NameTable.isIdentifier_iff.mp w.isIdentifier
  refine not_isLiteral_of_mem (hs c (by rw [hcs]; exact mem_cons_self)) ⟨?_, ?_⟩
  · exact Grammar.not_isBlank_of_isWordChar (NameTable.isWordChar_of_isInitial hc)
  · rintro (rfl | rfl | hdigit)
    · exact absurd hc (by decide)
    · exact absurd hc (by decide)
    · rw [Grammar.not_isDigit_of_isInitial hc] at hdigit
      cases hdigit

/-- An operation is no number: it has a blank inside. -/
theorem not_isLiteral_binary (op : Operation) (a b : Code) : isLiteral (binary op a b).print = false := by
  obtain ⟨x, hx, hx'⟩ := a.exists_mem_enclose op.left
  obtain ⟨y, hy, hy'⟩ := b.exists_mem_enclose op.right
  obtain ⟨sym, hsym⟩ : ∃ sym, op.spelling.toList = ' ' :: sym := by
    cases op <;> exact ⟨_, rfl⟩
  have htext : (binary op a b).print.toList = (enclose a.print a.precedence op.left).toList ++
        ' ' :: (sym ++ (enclose b.print b.precedence op.right).toList) := by
    rw [print, String.toList_append, String.toList_append, hsym, append_assoc]
    rfl
  exact not_isLiteral_of_blank htext hx (mem_append_right sym hy) hx' hy'

/-- Two signs are no number: there is a blank between them. -/
theorem not_isLiteral_withMinus {cs : List Char} (hs : s.toList = '-' :: cs) : isLiteral (withMinus s) = false := by
  have htext : (withMinus s).toList = ['-'] ++ ' ' :: ('-' :: cs) := by
    unfold withMinus
    rw [if_pos (by rw [hs]; rfl), String.toList_append, String.toList_append, hs]
    rfl
  exact not_isLiteral_of_blank htext mem_cons_self mem_cons_self (by decide)
    (by decide)

/-- A negation is no number, unless of a number without a sign. -/
theorem not_isLiteral_minus {a : Code} (hnumber : ∀ c, a = number c → c.isNegative = true) :
    isLiteral (minus a).print = false := by
  have hmem {c : Char} (hc : c ∈ a.print.toList) : c ∈ (minus a).print.toList :=
    mem_withMinus (mem_enclose hc _ _)
  rcases a.exists_mark with ⟨c, rfl⟩ | ⟨w, rfl⟩ | ⟨b, w, rfl⟩ | ⟨b, rfl⟩ | ⟨op, b, c, rfl⟩ | ⟨c, hmark, hc⟩
  · have hbare : enclose (number c).print (number c).precedence .unaryPrefix = format c.value :=
      if_neg (by simp only [precedence]; split <;> decide)
    have htext : (format c.value).toList = '-' :: (format c.magnitude).toList := by
      rw [c.format_eq, if_pos (hnumber c rfl), String.toList_append]
      rfl
    exact not_isLiteral_withMinus (hbare ▸ htext)
  · exact not_isLiteral_of_word w fun _ => hmem
  · exact not_isLiteral_of_word w fun _ hc => hmem (by simp [print, hc])
  · exact not_isLiteral_withMinus (String.toList_append.trans rfl)
  · have henclosed : enclose (binary op b c).print op.precedence .unaryPrefix =
        "(" ++ (binary op b c).print ++ ")" := if_pos op.rank_bounds.1
    refine not_isLiteral_of_mark (c := '(') (by decide) (mem_withMinus ?_)
    show _ ∈ (enclose _ op.precedence _).toList
    rw [henclosed]
    simp
  · exact not_isLiteral_of_mark hmark (hmem hc)

/-! ### Plain numbers -/

/-- **Only numbers are written like plain numbers**: a constant, or the negation of one that has no
sign itself. -/
theorem exists_constant_of_isLiteral {a : Code} (h : isLiteral a.print = true) :
    ∃ c, a = number c ∨ a = minus (number c) ∧ c.isNegative = false := by
  rw [← Bool.not_eq_false] at h
  rcases a.exists_mark with ⟨c, rfl⟩ | ⟨w, rfl⟩ | ⟨b, w, rfl⟩ | ⟨b, rfl⟩ | ⟨op, b, c, rfl⟩ | ⟨c, hmark, hc⟩
  · exact ⟨c, .inl rfl⟩
  · exact absurd (not_isLiteral_of_word w fun _ => id) h
  · exact absurd (not_isLiteral_of_word w fun _ hc => by simp [print, hc]) h
  · by_cases hnumber : ∃ c, b = number c ∧ c.isNegative = false
    · obtain ⟨c, rfl, hc⟩ := hnumber
      exact ⟨c, .inr ⟨rfl, hc⟩⟩
    · refine absurd (not_isLiteral_minus fun c heq => ?_) h
      rw [← Bool.not_eq_false]
      exact fun hc => hnumber ⟨c, heq, hc⟩
  · exact absurd (not_isLiteral_binary op b c) h
  · exact absurd (not_isLiteral_of_mark hmark hc) h

end Code

namespace Constant

/-- A zero has no sign that counts. -/
theorem toRat_isNegative (c : Constant) :
    (Floating.finite c.isNegative c.mantissa c.exponent).toRat = c.value.toRat := by
  unfold isNegative value Floating.toRat
  by_cases hm : c.mantissa = 0
  · simp [hm]
  · simp [hm]

theorem print_number (c : Constant) :
    (Code.number c).print.toList = signed c.isNegative (format c.magnitude).toList := by
  show (format c.value).toList = _
  rw [c.format_eq]
  unfold signed
  split
  · rw [String.toList_append]
    rfl
  · rfl

theorem print_minus {c : Constant} (hsign : c.isNegative = false) :
    (Code.minus (.number c)).print.toList = signed true (format c.magnitude).toList := by
  have hformat : format c.value = format c.magnitude := by
    rw [c.format_eq, hsign]
    rfl
  have hbare : enclose (format c.value) (Code.number c).precedence .unaryPrefix = format c.magnitude :=
    (if_neg (by simp [Code.precedence, hsign, unaryPrefix, atomic])).trans hformat
  obtain ⟨n, hn, -⟩ := c.exists_numeral
  have hhead : (format c.magnitude).toList.head? ≠ some '-' := by
    obtain ⟨d, ds, hchars, hd⟩ := n.exists_head
    rw [hn, hchars]
    rintro ⟨⟩
    exact absurd hd (by decide)
  show (Code.withMinus (enclose (format c.value) _ _)).toList = _
  rw [hbare]
  unfold Code.withMinus
  rw [if_neg hhead, String.toList_append]
  rfl

/-- The text of a plain number is read as the number. -/
theorem parse_signed {c : Constant} {negative : Bool} {text : String}
    (htext : text.toList = signed negative (format c.magnitude).toList)
    (h : isLiteral text = true) : parse text = .finite negative c.mantissa c.exponent := by
  obtain ⟨n, hn, hread⟩ := c.exists_numeral
  have hexponent : n.exponent = none := by
    cases hexponent : n.exponent with
    | none => rfl
    | some p =>
      have hmem : 'e' ∈ text.toList := by
        rw [htext, hn]
        unfold signed
        split <;> simp [Numeral.chars, Numeral.exponentChars, hexponent]
      exact absurd (mem_of_isLiteral h hmem (by decide)) (by decide)
  have hchars : ∀ d ∈ n.chars, d = '.' ∨ d.isDigit = true := by
    intro d hd
    simp only [Numeral.chars, Numeral.exponentChars, hexponent, append_nil] at hd
    rcases mem_append.mp hd with hd | hd
    · exact .inr (n.whole_digits d hd)
    · unfold Numeral.fractionChars at hd
      split at hd
      · cases hd
      · exact (mem_cons.mp hd).imp id (n.fraction_digits d)
  unfold parse
  rw [htext, hn]
  refine parseChars_signed (fun d hd => ?_) hchars hread
  obtain ⟨x, xs, hx, hdigit⟩ := n.exists_head
  rw [hx] at hd
  cases hd
  exact hdigit

end Constant

/-- **The number that is read off a plain number is its value.** -/
theorem Code.parse_of_isLiteral {a : Code} (h : isLiteral a.print = true) :
    ∃ c : Constant, parse a.print = c.value ∧ ∀ E, a.tree.eval E = .ok (.number c.value.toRat) := by
  obtain ⟨c, rfl | ⟨rfl, hsign⟩⟩ := exists_constant_of_isLiteral h
  · refine ⟨⟨c.isNegative, c.mantissa, c.exponent, c.canonical⟩, Constant.parse_signed c.print_number h, fun E => ?_⟩
    rw [show (Code.number c).tree = c.tree from rfl, c.eval_tree E, ← c.toRat_isNegative]
    rfl
  · refine ⟨⟨true, c.mantissa, c.exponent, c.canonical⟩, Constant.parse_signed (Constant.print_minus hsign) h,
      fun E => ?_⟩
    show Grammar.Sign.minus.apply (c.tree.eval E) = _
    rw [c.eval_tree E, ← c.toRat_isNegative, hsign]
    rfl

end BlockProgram
