import BlockProgram.Program.Literal
import BlockProgram.Program.Precedence
import BlockProgram.Proofs.Names.Words
import BlockProgram.Proofs.Number.Numeral

/-! # Tokens of program text

`scan` splits a piece of program text into tokens, the longest match first: a minus sign directly
behind another is a decrement, a point between digits belongs to the numeral.  Scanning is
compositional only where a token cannot run on into what follows it, so `Scans cs ts rest` speaks of
the characters `cs` in front of the actual rest, and the leaves ask that the rest starts with a
`Boundary`.
-/
namespace BlockProgram.Grammar

open List Text NameTable

inductive Operator where
  | times | over | remainder | quotient
  | plus | minus
  | shiftLeft | shiftRight
  | bitAnd | bitXor | bitOr
  | less | lessEqual | greater | greaterEqual
  | equal | unequal
  | and | or
  | ifNull
  | comma
deriving DecidableEq

inductive Token where
  | number (value : Number.Floating)
  | text (value : String)
  | word (name : String)
  | operator (op : Operator)
  | bang
  | question
  | colon
  | point
  | openParen
  | closeParen
  | openBracket
  | closeBracket
  | increment
  | decrement
deriving DecidableEq

/-! ### The scanner -/

def splitFraction : List Char → List Char × List Char
  | '.' :: c :: r =>
    if c.isDigit then ('.' :: (c :: r).takeWhile Char.isDigit, (c :: r).dropWhile Char.isDigit)
    else ([], '.' :: c :: r)
  | r => ([], r)

def splitSign : List Char → List Char × List Char
  | '+' :: r => (['+'], r)
  | '-' :: r => (['-'], r)
  | r => ([], r)

def splitExponent : List Char → List Char × List Char
  | [] => ([], [])
  | c :: r =>
    if c = 'e' || c = 'E' then
      let (sign, ds) := splitSign r
      if ds.takeWhile Char.isDigit = [] then ([], c :: r)
      else (c :: sign ++ ds.takeWhile Char.isDigit, ds.dropWhile Char.isDigit)
    else ([], c :: r)

def splitNumeral (cs : List Char) : List Char × List Char :=
  let (fraction, rest) := splitFraction (cs.dropWhile Char.isDigit)
  let (exponent, rest) := splitExponent rest
  (cs.takeWhile Char.isDigit ++ (fraction ++ exponent), rest)

/-- The characters up to the closing quote. Behind a backslash stands one of the characters that
need it; a dollar sign or a line break without one is no part of a text. -/
def unquote : List Char → Option (List Char × List Char)
  | [] => none
  | '\'' :: r => some ([], r)
  | '\\' :: c :: r =>
    if c = '\\' || c = '\n' || c = '$' || c = '\'' then
      (unquote r).map fun (cs, rest) => (c :: cs, rest)
    else none
  | c :: r =>
    if c = '\\' || c = '\n' || c = '$' then none
    else (unquote r).map fun (cs, rest) => (c :: cs, rest)

/-- A token that is neither a number, a word nor a text. -/
def symbol? : List Char → Option (Token × List Char)
  | '=' :: '=' :: r => some (.operator .equal, r)
  | '!' :: '=' :: r => some (.operator .unequal, r)
  | '<' :: '=' :: r => some (.operator .lessEqual, r)
  | '>' :: '=' :: r => some (.operator .greaterEqual, r)
  | '<' :: '<' :: r => some (.operator .shiftLeft, r)
  | '>' :: '>' :: r => some (.operator .shiftRight, r)
  | '&' :: '&' :: r => some (.operator .and, r)
  | '|' :: '|' :: r => some (.operator .or, r)
  | '?' :: '?' :: r => some (.operator .ifNull, r)
  | '~' :: '/' :: r => some (.operator .quotient, r)
  | '+' :: '+' :: r => some (.increment, r)
  | '-' :: '-' :: r => some (.decrement, r)
  | '*' :: r => some (.operator .times, r)
  | '/' :: r => some (.operator .over, r)
  | '%' :: r => some (.operator .remainder, r)
  | '+' :: r => some (.operator .plus, r)
  | '-' :: r => some (.operator .minus, r)
  | '&' :: r => some (.operator .bitAnd, r)
  | '^' :: r => some (.operator .bitXor, r)
  | '|' :: r => some (.operator .bitOr, r)
  | '<' :: r => some (.operator .less, r)
  | '>' :: r => some (.operator .greater, r)
  | ',' :: r => some (.operator .comma, r)
  | '!' :: r => some (.bang, r)
  | '?' :: r => some (.question, r)
  | ':' :: r => some (.colon, r)
  | '.' :: r => some (.point, r)
  | '(' :: r => some (.openParen, r)
  | ')' :: r => some (.closeParen, r)
  | '[' :: r => some (.openBracket, r)
  | ']' :: r => some (.closeBracket, r)
  | _ => none

/-- The first token of a text that does not start with a blank. -/
def next? : List Char → Option (Token × List Char)
  | [] => none
  | c :: r =>
    if c = '\'' then (unquote r).map fun (cs, rest) => (.text (String.ofList cs), rest)
    else if c.isDigit then
      (Number.readDouble? (splitNumeral (c :: r)).1).map fun x => (.number x, (splitNumeral (c :: r)).2)
    else if isInitial c then
      some (.word (String.ofList ((c :: r).takeWhile isWordChar)),
        (c :: r).dropWhile isWordChar)
    else symbol? (c :: r)

def scan : List Char → Option (List Token)
  | [] => some []
  | c :: r =>
    if isPatternBlank c then scan r
    else
      match next? (c :: r) with
      | none => none
      | some (t, rest) =>
        if rest.length < (c :: r).length then (scan rest).map (t :: ·) else none
termination_by cs => cs.length
decreasing_by
  · simp
  · assumption

/-! ### Scanning piece by piece -/

/-- Whether a word or a numeral ends in front of these characters: no character of a word follows,
and no point with a digit behind it. -/
def Boundary : List Char → Prop
  | [] => True
  | c :: r => isWordChar c = false ∧ (c = '.' → ∀ d ∈ r.head?, d.isDigit = false)

/-- The characters `cs`, in front of `rest`, are the tokens `ts`. -/
def Scans (cs : List Char) (ts : List Token) (rest : List Char) : Prop :=
  scan (cs ++ rest) = (scan rest).map (ts ++ ·)

variable {rest cs : List Char}

theorem Scans.append {ds : List Char} {ts us : List Token} (h : Scans cs ts (ds ++ rest))
    (h' : Scans ds us rest) : Scans (cs ++ ds) (ts ++ us) rest := by
  unfold Scans at *
  rw [append_assoc, h, h', Option.map_map]
  congr 1
  funext vs
  simp

theorem Scans.blank (rest : List Char) : Scans [' '] [] rest := by
  have hblank : isPatternBlank ' ' = true := rfl
  unfold Scans
  rw [cons_append, scan, if_pos hblank, nil_append]
  simp

variable {c : Char} {t : Token}

theorem Scans.of_next (hc : isPatternBlank c = false) (h : next? (c :: (cs ++ rest)) = some (t, rest)) :
    Scans (c :: cs) [t] rest := by
  unfold Scans
  rw [cons_append, scan, if_neg (by simp [hc]), h]
  dsimp only
  have hshorter : rest.length < (c :: (cs ++ rest)).length := by
    simp only [length_cons, length_append]
    omega
  rw [if_pos hshorter]
  rfl

/-! ### Words, texts and numbers -/

theorem not_isDigit_of_isInitial (h : isInitial c = true) : c.isDigit = false := by
  have above {b : UInt32} (hb : 58 ≤ b.toNat) (hc : b ≤ c.val) : c.isDigit = false := by
    have hle : b.toNat ≤ c.val.toNat := UInt32.le_iff_toNat_le.mp hc
    simp only [Char.isDigit, ge_iff_le, Bool.and_eq_false_iff, decide_eq_false_iff_not, UInt32.le_iff_toNat_le]
    right
    show ¬ c.val.toNat ≤ 57
    omega
  change (decide ('A'.val ≤ c.val ∧ c.val ≤ 'Z'.val) ||
    (decide ('a'.val ≤ c.val) && decide (c.val ≤ 'z'.val)) || c == '_') = true at h
  simp only [Bool.or_eq_true, Bool.and_eq_true, decide_eq_true_eq, beq_iff_eq] at h
  rcases h with (h | h) | rfl
  · exact above (by decide) h.1
  · exact above (by decide) h.1
  · rfl

theorem not_isBlank_of_isWordChar (h : isWordChar c = true) : isPatternBlank c = false := by
  by_contra hb
  simp only [isPatternBlank, Bool.not_eq_false, Bool.or_eq_true, beq_iff_eq] at hb
  rcases hb with (((rfl | rfl) | rfl) | rfl) | rfl <;> exact absurd h (by decide)

theorem ne_quote_of_isWordChar (h : isWordChar c = true) : c ≠ '\'' := by
  rintro rfl
  exact absurd h (by decide)

theorem Boundary.not_word (h : Boundary rest) : ∀ c ∈ rest.head?, isWordChar c = false := by
  cases rest with
  | nil => simp
  | cons c r =>
    rintro _ ⟨⟩
    exact h.1

theorem Boundary.not_digit (h : Boundary rest) : ∀ c ∈ rest.head?, c.isDigit = false := by
  intro c hc
  have := h.not_word c hc
  cases hd : c.isDigit with
  | false => rfl
  | true => rw [isWordChar_of_isDigit hd] at this; cases this

theorem Scans.word {w : String} (hw : isIdentifier w = true)
    (hrest : Boundary rest) : Scans w.toList [.word w] rest := by
  obtain ⟨c, cs, hcs, hc, hall⟩ := isIdentifier_iff.mp hw
  have hword := isWordChar_of_isInitial hc
  have hchars : ∀ x ∈ c :: cs, isWordChar x = true := by
    intro x hx
    rcases mem_cons.mp hx with rfl | hx
    · exact hword
    · exact all_eq_true.mp hall x hx
  have hend : rest.takeWhile isWordChar = [] ∧ rest.dropWhile isWordChar = rest := by
    cases rest with
    | nil => exact ⟨rfl, rfl⟩
    | cons d r =>
      have hd : isWordChar d = false := hrest.1
      simp [hd]
  rw [hcs]
  refine Scans.of_next (not_isBlank_of_isWordChar hword) ?_
  rw [next?, if_neg (ne_quote_of_isWordChar hword), if_neg (by simp [not_isDigit_of_isInitial hc]), if_pos hc,
    ← cons_append, takeWhile_append_of_pos hchars, dropWhile_append_of_pos hchars,
    hend.1, hend.2, append_nil, ← hcs, String.ofList_toList]

/-- Reading a text gives back what was written between quotes. -/
theorem unquote_escape (cs rest : List Char) :
    unquote (cs.flatMap Literal.escapeChar ++ '\'' :: rest) = some (cs, rest) := by
  induction cs with
  | nil => rfl
  | cons c cs ih =>
    rw [flatMap_cons, append_assoc]
    by_cases hesc : c = '\\' || c = '\n' || c = '$' || c = '\''
    · have hchars : Literal.escapeChar c = ['\\', c] := if_pos hesc
      rw [hchars, cons_append, cons_append, nil_append]
      rw [unquote, if_pos hesc, ih]
      rfl
    · have hchars : Literal.escapeChar c = [c] := if_neg hesc
      simp only [Bool.or_eq_true, decide_eq_true_eq, not_or] at hesc
      obtain ⟨⟨⟨h1, h2⟩, h3⟩, h4⟩ := hesc
      rw [hchars, cons_append, nil_append]
      unfold unquote
      split
      · rename_i heq; cases heq
      · rename_i heq; exact absurd (List.cons.inj heq).1 h4
      · rename_i heq; exact absurd (List.cons.inj heq).1 h1
      · rename_i heq
        obtain ⟨rfl, rfl⟩ := List.cons.inj heq
        rw [if_neg (by simp [h1, h2, h3]), ih]
        rfl

theorem Scans.text (s : String) (rest : List Char) : Scans (Literal.quote s).toList [.text s] rest := by
  unfold Literal.quote Literal.quoteChars
  rw [String.toList_ofList]
  refine Scans.of_next rfl ?_
  rw [next?, if_pos rfl, append_assoc, cons_append, nil_append, unquote_escape, Option.map_some]
  simp only [String.ofList_toList]

theorem splitExponent_boundary (h : Boundary rest) : splitExponent rest = ([], rest) := by
  cases rest with
  | nil => rfl
  | cons c r =>
    have hc : isWordChar c = false := h.1
    rw [splitExponent, if_neg]
    intro he
    rw [Bool.or_eq_true, decide_eq_true_eq, decide_eq_true_eq] at he
    rcases he with rfl | rfl <;> exact absurd hc (by decide)

theorem splitFraction_boundary (h : Boundary rest) : splitFraction rest = ([], rest) := by
  unfold splitFraction
  split
  · rename_i d r
    have hd : d.isDigit = false := h.2 rfl d rfl
    rw [if_neg (by simp [hd])]
  · rfl

theorem splitExponent_numeral (n : Number.Numeral) (h : Boundary rest) :
    splitExponent (n.exponentChars ++ rest) = (n.exponentChars, rest) := by
  unfold Number.Numeral.exponentChars
  cases he : n.exponent with
  | none => exact splitExponent_boundary h
  | some p =>
    obtain ⟨negative, ds⟩ := p
    obtain ⟨hne, hds⟩ := n.exponent_digits (negative, ds) he
    obtain ⟨ht, hd⟩ := Number.takeWhile_digits _ hds h.not_digit
    cases negative <;> simp [splitExponent, splitSign, ht, hd, hne]

theorem splitNumeral_chars (n : Number.Numeral) (h : Boundary rest) :
    splitNumeral (n.chars ++ rest) = (n.chars, rest) := by
  obtain ⟨ht, hd⟩ := Number.takeWhile_digits
    (n.fractionChars ++ n.exponentChars ++ rest) n.whole_digits (by
      intro c hc
      rw [List.head?_append] at hc
      cases hhead : (n.fractionChars ++ n.exponentChars).head? with
      | none => rw [hhead] at hc; exact h.not_digit c hc
      | some d =>
        rw [hhead] at hc
        obtain rfl : d = c := by simpa using hc
        rcases n.head?_fractionChars d hhead with rfl | rfl <;> rfl)
  have hfraction : splitFraction (n.fractionChars ++ (n.exponentChars ++ rest)) =
      (n.fractionChars, n.exponentChars ++ rest) := by
    unfold Number.Numeral.fractionChars
    split_ifs with hf
    · -- without a fraction the exponent follows, or the rest
      cases hexp : n.exponentChars with
      | nil => exact splitFraction_boundary h
      | cons c cs =>
        obtain rfl := n.head?_exponentChars c (by rw [hexp]; rfl)
        rfl
    · obtain ⟨d, ds, hds⟩ := exists_cons_of_ne_nil hf
      have hdigits := n.fraction_digits
      rw [hds] at hdigits ⊢
      have hd : d.isDigit = true := hdigits d mem_cons_self
      obtain ⟨ht, hd'⟩ := Number.takeWhile_digits (n.exponentChars ++ rest) hdigits (by
        intro c hc
        rw [List.head?_append] at hc
        cases hhead : n.exponentChars.head? with
        | none => rw [hhead] at hc; exact h.not_digit c hc
        | some d =>
          rw [hhead] at hc
          obtain rfl : d = c := by simpa using hc
          rw [n.head?_exponentChars d hhead]
          rfl)
      rw [cons_append, cons_append, splitFraction, if_pos hd, ← cons_append, ht, hd']
  unfold splitNumeral Number.Numeral.chars
  rw [append_assoc, ht, hd, append_assoc, hfraction]
  dsimp only
  rw [splitExponent_numeral n h]

theorem Scans.number {n : Number.Numeral} {x : Number.Floating}
    (hx : Number.readDouble? n.chars = some x) (hrest : Boundary rest) : Scans n.chars [.number x] rest := by
  obtain ⟨c, cs, hchars, hc⟩ := n.exists_head
  have hword := isWordChar_of_isDigit hc
  have hsplit := splitNumeral_chars n hrest
  rw [hchars] at hsplit hx ⊢
  refine Scans.of_next (not_isBlank_of_isWordChar hword) ?_
  rw [next?, if_neg (ne_quote_of_isWordChar hword), if_pos hc, ← cons_append, hsplit, hx]
  rfl

/-! ### Symbols -/

/-- A character that starts neither a word, a number nor a text, and is no blank. -/
def isMark (c : Char) : Bool := !isPatternBlank c && !isWordChar c && c != '\''

theorem Scans.symbol (hc : isMark c = true)
    (h : symbol? (c :: (cs ++ rest)) = some (t, rest)) : Scans (c :: cs) [t] rest := by
  simp only [isMark, Bool.and_eq_true, Bool.not_eq_true', bne_iff_ne] at hc
  obtain ⟨⟨hblank, hword⟩, hquote⟩ := hc
  refine Scans.of_next hblank ?_
  have hdigit : c.isDigit = false := by
    cases hd : c.isDigit with
    | false => rfl
    | true => rw [isWordChar_of_isDigit hd] at hword; cases hword
  have hinitial : isInitial c = false := by
    cases hi : isInitial c with
    | false => rfl
    | true => rw [isWordChar_of_isInitial hi] at hword; cases hword
  rw [next?, if_neg hquote, if_neg (by simp [hdigit]), if_neg (by simp [hinitial])]
  exact h

theorem symbol?_minus (h : c ≠ '-') (r : List Char) : symbol? ('-' :: c :: r) = some (.operator .minus, c :: r) := by
  rw [symbol?]
  rintro r' ⟨⟩
  exact h rfl

theorem symbol?_bang (h : c ≠ '=') (r : List Char) : symbol? ('!' :: c :: r) = some (.bang, c :: r) := by
  rw [symbol?]
  rintro r' ⟨⟩
  exact h rfl

end BlockProgram.Grammar
