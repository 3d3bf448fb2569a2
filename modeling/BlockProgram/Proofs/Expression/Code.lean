import BlockProgram.Proofs.Grammar.Reading

/-! # Code with precedences

`Code` is an expression of the target language as the handlers of blocks put it together: every
operand is written where some precedence is allowed, and gets parentheses if its own is looser.  This
module proves that such text reads as intended.  It scans as the tokens one expects (`Code.spells`),
and the tokens read as the tree of the code (`Code.reads_enclose`), where four operators regroup:
the right operand of a sum, a product, a conjunction or a disjunction goes without parentheses if it
has the precedence of the operator, and then the operator moves to the front of that operand
(`Tree.graft`).
-/
namespace BlockProgram

open List Precedence Grammar Number

open Grammar (Token Tree Operator Reads Scans Boundary)

/-! ### Parts of code -/

structure Word where
  text : String
  isIdentifier : NameTable.isIdentifier text = true := by decide
deriving DecidableEq

/-- A finite double, as literals spell them. -/
structure Constant where
  negative : Bool
  mantissa : Nat
  exponent : Int
  canonical : (Floating.finite negative mantissa exponent).IsCanonical := by decide
deriving DecidableEq

namespace Constant

def value (c : Constant) : Floating := .finite c.negative c.mantissa c.exponent

def magnitude (c : Constant) : Floating := .finite false c.mantissa c.exponent

/-- Whether the number is less than zero. Neither zero is. -/
def isNegative (c : Constant) : Bool := c.negative && c.mantissa != 0

def zero : Constant := { negative := false, mantissa := 0, exponent := 0 }

def one : Constant := { negative := false, mantissa := 2 ^ 52, exponent := -52 }

def two : Constant := { negative := false, mantissa := 2 ^ 52, exponent := -51 }

def ten : Constant := { negative := false, mantissa := 5 * 2 ^ 50, exponent := -49 }

def halfTurn : Constant := { negative := false, mantissa := 45 * 2 ^ 47, exponent := -45 }

end Constant

/-- A binary operator as a handler writes it. The tests for a sign are comparisons with zero that
ask more of their operand than others do. -/
inductive Operation where
  | add | subtract | multiply | divide | remainder
  | equal | unequal | less | lessEqual | greater | greaterEqual
  | and | or
  | positive | negative
deriving DecidableEq

namespace Operation

def operator : Operation → Operator
  | add => .plus
  | subtract => .minus
  | multiply => .times
  | divide => .over
  | remainder => .remainder
  | equal => .equal
  | unequal => .unequal
  | less | negative => .less
  | lessEqual => .lessEqual
  | greater | positive => .greater
  | greaterEqual => .greaterEqual
  | and => .and
  | or => .or

/-- The precedence of the whole, as it is reported. The tests for a sign are reported as looser than
they are. -/
def precedence : Operation → Precedence
  | positive | negative => .equality
  | op => op.operator.precedence

def left : Operation → Precedence
  | add | subtract => .additive
  | multiply | divide | remainder => .multiplicative
  | equal | unequal => equality.tighter
  | less | lessEqual | greater | greaterEqual => relational.tighter
  | and => .logicalAnd
  | or => .logicalOr
  | positive | negative => .multiplicative

def right : Operation → Precedence
  | add => .additive
  | subtract => additive.tighter
  | multiply => .multiplicative
  | divide | remainder => multiplicative.tighter
  | equal | unequal => equality.tighter
  | less | lessEqual | greater | greaterEqual | positive | negative => relational.tighter
  | and => .logicalAnd
  | or => .logicalOr

def regroups : Operation → Bool
  | add | multiply | and | or => true
  | _ => false

def spelling : Operation → String
  | add => " + "
  | subtract => " - "
  | multiply => " * "
  | divide => " / "
  | remainder => " % "
  | equal => " == "
  | unequal => " != "
  | less | negative => " < "
  | lessEqual => " <= "
  | greater | positive => " > "
  | greaterEqual => " >= "
  | and => " && "
  | or => " || "

end Operation

/-! ### Code -/

/-- An expression of the target language. The argument of a call of one is written where `limit` is
allowed; the arguments of a call of two are joined by a comma, a `dense` one without a blank. -/
inductive Code where
  | number (c : Constant)
  | text (s : String)
  | name (w : Word)
  | emptyList
  | member (object : Code) (name : Word)
  | method (object : Code) (name : Word)
  | call (function : Code) (limit : Precedence) (argument : Code)
  | callTwo (function : Code) (dense : Bool) (first second : Code)
  | minus (operand : Code)
  | bang (operand : Code)
  | binary (op : Operation) (left right : Code)
  | conditional (condition yes no : Code)

namespace Code

def precedence : Code → Precedence
  | number c => if c.isNegative then .unaryPrefix else .atomic
  | text _ | name _ | emptyList => .atomic
  | member _ _ | method _ _ | call _ _ _ | callTwo _ _ _ _ => .unaryPostfix
  | minus _ | bang _ => .unaryPrefix
  | binary op _ _ => op.precedence
  | conditional _ _ _ => .conditional

/-- A minus sign in front of an operand. A second minus sign is kept apart. -/
def withMinus (operand : String) : String :=
  "-" ++ (if operand.toList.head? = some '-' then " " ++ operand else operand)

def print : Code → String
  | number c => format c.value
  | text s => Literal.quote s
  | name w => w.text
  | emptyList => Literal.emptyList
  | member a w => enclose a.print a.precedence .unaryPostfix ++ "." ++ w.text
  | method a w => enclose a.print a.precedence .unaryPostfix ++ "." ++ w.text ++ "()"
  | call f limit a =>
    enclose f.print f.precedence .unaryPostfix ++ "(" ++
      enclose a.print a.precedence limit ++ ")"
  | callTwo f dense a b =>
    enclose f.print f.precedence .unaryPostfix ++ "(" ++
      enclose a.print a.precedence .loosest ++ (if dense then "," else ", ") ++
      enclose b.print b.precedence .loosest ++ ")"
  | minus a => withMinus (enclose a.print a.precedence .unaryPrefix)
  | bang a => "!" ++ enclose a.print a.precedence .unaryPrefix
  | binary op a b =>
    enclose a.print a.precedence op.left ++ op.spelling ++
      enclose b.print b.precedence op.right
  | conditional c y n =>
    Precedence.enclose c.print c.precedence Precedence.conditional.tighter ++ " ? " ++
      enclose y.print y.precedence .conditional ++ " : " ++
      enclose n.print n.precedence .conditional

end Code

def encloseTokens (ts : List Token) (inner outer : Precedence) : List Token :=
  if outer.rank < inner.rank then .openParen :: (ts ++ [.closeParen]) else ts

namespace Code

def tokens : Code → List Token
  | number c =>
    if c.isNegative then [.operator .minus, .number c.magnitude] else [.number c.magnitude]
  | text s => [.text s]
  | name w => [.word w.text]
  | emptyList => [.openBracket, .closeBracket]
  | member a w => encloseTokens a.tokens a.precedence .unaryPostfix ++ [.point, .word w.text]
  | method a w =>
    encloseTokens a.tokens a.precedence .unaryPostfix ++
      [.point, .word w.text, .openParen, .closeParen]
  | call f limit a =>
    encloseTokens f.tokens f.precedence .unaryPostfix ++
      .openParen :: (encloseTokens a.tokens a.precedence limit ++ [.closeParen])
  | callTwo f _ a b =>
    encloseTokens f.tokens f.precedence .unaryPostfix ++
      .openParen :: (encloseTokens a.tokens a.precedence .loosest ++
        .operator .comma :: (encloseTokens b.tokens b.precedence .loosest ++ [.closeParen]))
  | minus a => .operator .minus :: encloseTokens a.tokens a.precedence .unaryPrefix
  | bang a => .bang :: encloseTokens a.tokens a.precedence .unaryPrefix
  | binary op a b =>
    encloseTokens a.tokens a.precedence op.left ++
      .operator op.operator :: encloseTokens b.tokens b.precedence op.right
  | conditional c y n =>
    encloseTokens c.tokens c.precedence Precedence.conditional.tighter ++
      .question :: (encloseTokens y.tokens y.precedence .conditional ++
        .colon :: encloseTokens n.tokens n.precedence .conditional)

end Code

/-- The tree `op l t`, with the operators of the same level in `t` taken apart: `op l (a + b)`
becomes `(op l a) + b`. -/
def Grammar.Tree.graft (op : Operator) (l : Tree) : Tree → Tree
  | .binary o a b =>
    if o.precedence = op.precedence then .binary o (graft op l a) b
    else .binary op l (.binary o a b)
  | t => .binary op l t

/-- The tree of a number: a negative one is a sign in front of another. -/
def Constant.tree (c : Constant) : Tree :=
  if c.isNegative then .signed .minus (.number c.magnitude) else .number c.magnitude

/-- The tree of an operation with operands of these trees, the right one of precedence `p`. -/
def Operation.tree (op : Operation) (l r : Tree) (p : Precedence) : Tree :=
  if op.regroups ∧ p = op.precedence then Tree.graft op.operator l r else .binary op.operator l r

def Code.tree : Code → Tree
  | number c => c.tree
  | text s => .text s
  | name w => .name w.text
  | emptyList => .emptyList
  | member a w => .member a.tree w.text
  | method a w => .callEmpty (.member a.tree w.text)
  | call f _ a => .call f.tree a.tree
  | callTwo f _ a b => .call f.tree (.binary .comma a.tree b.tree)
  | minus a => .signed .minus a.tree
  | bang a => .signed .bang a.tree
  | binary op a b => op.tree a.tree b.tree b.precedence
  | conditional c y n => .conditional c.tree y.tree n.tree

/-! ### Scanning -/

/-- The text starts with a character that is no blank and would not complete a symbol in front of
it. -/
def Opens (s : String) : Prop :=
  ∃ c cs, s.toList = c :: cs ∧ c ≠ '=' ∧ Text.isPatternBlank c = false

variable {s : String}

theorem Opens.append (h : Opens s) (t : String) : Opens (s ++ t) := by
  obtain ⟨c, cs, hs, hc⟩ := h
  exact ⟨c, cs ++ t.toList, by rw [String.toList_append, hs]; rfl, hc⟩

theorem Opens.ne_empty (h : Opens s) : s ≠ "" := by
  obtain ⟨c, cs, hs, -⟩ := h
  rintro rfl
  cases hs

theorem opens_enclose (h : Opens s) (inner outer : Precedence) : Opens (enclose s inner outer) := by
  unfold enclose
  split
  · exact ⟨'(', s.toList ++ [')'], by simp, by decide⟩
  · exact h

theorem Word.opens (w : Word) : Opens w.text := by
  obtain ⟨c, cs, hcs, hc, -⟩ := NameTable.isIdentifier_iff.mp w.isIdentifier
  have hword := NameTable.isWordChar_of_isInitial hc
  exact ⟨c, cs, hcs, by rintro rfl; exact absurd hc (by decide),
    not_isBlank_of_isWordChar hword⟩

/-- The text of a constant that is not negative, and how it reads. -/
theorem Constant.exists_numeral (c : Constant) : ∃ n : Numeral, (format c.magnitude).toList = n.chars ∧
      readDouble? n.chars = some c.magnitude := by
  obtain ⟨n, hn, hread, -⟩ := exists_numeral_format (m := c.mantissa) (e := c.exponent)
    c.canonical
  exact ⟨n, hn, hread⟩

theorem Constant.format_eq (c : Constant) : format c.value =
    if c.isNegative then "-" ++ format c.magnitude else format c.magnitude := by
  unfold Constant.isNegative Constant.value Constant.magnitude
  cases hs : c.negative with
  | false => simp
  | true =>
    by_cases hm : c.mantissa = 0
    · simp [hm, Number.format]
    · simp [hm, format_negative]

theorem Constant.opens (c : Constant) : Opens (format c.value) := by
  rw [c.format_eq]
  split
  · exact ⟨'-', _, String.toList_append.trans rfl, by decide⟩
  · obtain ⟨n, hn, -⟩ := c.exists_numeral
    obtain ⟨d, ds, hchars, hd⟩ := n.exists_head
    refine ⟨d, ds, hn.trans hchars, ?_, not_isBlank_of_isWordChar (NameTable.isWordChar_of_isDigit hd)⟩
    rintro rfl
    exact absurd hd (by decide)

theorem Code.opens (a : Code) : Opens a.print := by
  induction a with
  | number c => exact c.opens
  | text s => exact ⟨'\'', _, String.toList_ofList, by decide⟩
  | name w => exact w.opens
  | emptyList => exact ⟨'[', [']'], rfl, by decide⟩
  | member a w ih => exact ((opens_enclose ih _ _).append _).append _
  | method _ _ ih | call _ _ _ ih => exact (((opens_enclose ih _ _).append _).append _).append _
  | callTwo f dense a b ih =>
    exact (((((opens_enclose ih _ _).append _).append _).append _).append _).append _
  | minus a => exact ⟨'-', _, String.toList_append.trans rfl, by decide⟩
  | bang a => exact ⟨'!', _, String.toList_append.trans rfl, by decide⟩
  | binary op a b ih => exact ((opens_enclose ih _ _).append _).append _
  | conditional c y n ih =>
    exact ((((opens_enclose ih _ _).append _).append _).append _).append _

/-- A text is these tokens in front of any boundary. -/
def Spells (s : String) (ts : List Token) : Prop :=
  ∀ rest, Boundary rest → Scans s.toList ts rest

/-- A text is these tokens whatever follows, and ends any word in front of it. -/
def Separates (s : String) (ts : List Token) : Prop :=
  ∀ rest, Boundary (s.toList ++ rest) ∧ Scans s.toList ts rest

variable {ts : List Token}

theorem Spells.scan_eq (h : Spells s ts) : scan s.toList = some ts := by
  have hend := h [] trivial
  unfold Scans at hend
  rw [append_nil, scan, Option.map_some, append_nil] at hend
  exact hend

variable {t : Tree}

/-- A text of tokens that are an expression is read as its tree. -/
theorem Spells.readText_eq (h : Spells s ts) (ht : Reads .loosest ts t) : readText s = some t := by
  unfold readText
  rw [h.scan_eq, Option.bind_some, ht.read_eq]

variable {us : List Token}

theorem Separates.append_spells {t : String} (h : Separates s ts) (h' : Spells t us) : Spells (s ++ t) (ts ++ us) := by
  intro rest hrest
  rw [String.toList_append]
  exact (h _).2.append (h' rest hrest)

theorem Separates.append {t : String} (h : Separates s ts) (h' : Separates t us) : Separates (s ++ t) (ts ++ us) := by
  intro rest
  rw [String.toList_append, append_assoc]
  exact ⟨(h _).1, (h _).2.append (h' rest).2⟩

theorem Spells.separate {t u : String} {vs : List Token} (h : Spells s ts)
    (ht : Separates t us) (hu : Spells u vs) : Spells (s ++ t ++ u) (ts ++ (us ++ vs)) := by
  intro rest hrest
  have htail := (ht.append_spells hu) rest hrest
  have hboundary := (ht (u.toList ++ rest)).1
  rw [String.toList_append] at htail
  rw [String.toList_append, String.toList_append, append_assoc]
  refine Scans.append (h _ ?_) htail
  rw [append_assoc]
  exact hboundary

theorem Spells.close {t : String} (h : Spells s ts) (ht : Separates t us) : Spells (s ++ t) (ts ++ us) := by
  intro rest _
  rw [String.toList_append]
  exact Scans.append (h _ (ht rest).1) (ht rest).2

/-- A symbol that no character can run on. -/
theorem separates_symbol {c : Char} {t : Token} (hs : s.toList = [c]) (hc : isMark c = true) (hpoint : c ≠ '.')
    (h : ∀ rest, symbol? (c :: rest) = some (t, rest)) : Separates s [t] := by
  intro rest
  have hword : Text.isWordChar c = false := by
    simp only [isMark, Bool.and_eq_true, Bool.not_eq_true'] at hc
    exact hc.1.2
  rw [hs]
  exact ⟨⟨hword, fun h => absurd h hpoint⟩, Scans.symbol hc (h rest)⟩

theorem separates_openParen : Separates "(" [.openParen] :=
  separates_symbol rfl rfl (by decide) fun _ => rfl

theorem separates_closeParen : Separates ")" [.closeParen] :=
  separates_symbol rfl rfl (by decide) fun _ => rfl

theorem separates_comma : Separates "," [.operator .comma] :=
  separates_symbol rfl rfl (by decide) fun _ => rfl

theorem separates_blank : Separates " " [] :=
  fun rest => ⟨⟨by decide, fun h => absurd h (by decide)⟩, Scans.blank rest⟩

theorem separates_spaced (sym : List Char) {t : Token}
    (hs : s.toList = ' ' :: (sym ++ [' '])) (h : ∀ rest, Scans sym [t] (' ' :: rest)) : Separates s [t] := by
  intro rest
  rw [hs]
  refine ⟨⟨by decide, fun h => absurd h (by decide)⟩, ?_⟩
  have hsym : Scans (sym ++ [' ']) ([t] ++ []) rest := (h rest).append (Scans.blank rest)
  exact (Scans.blank _).append hsym

theorem separates_question : Separates " ? " [.question] :=
  separates_spaced ['?'] rfl fun _ => Scans.symbol rfl rfl

theorem separates_colon : Separates " : " [.colon] :=
  separates_spaced [':'] rfl fun _ => Scans.symbol rfl rfl

theorem Operation.separates_spelling (op : Operation) : Separates op.spelling [.operator op.operator] := by
  cases op with
  | add | subtract | multiply | divide | remainder | less | greater | positive | negative =>
    exact separates_spaced [_] rfl fun _ => Scans.symbol rfl rfl
  | equal | unequal | lessEqual | greaterEqual | and | or =>
    exact separates_spaced [_, _] rfl fun _ => Scans.symbol rfl rfl

theorem spells_enclose (h : Spells s ts) (inner outer : Precedence) :
    Spells (enclose s inner outer) (encloseTokens ts inner outer) := by
  unfold enclose encloseTokens
  split
  · exact (separates_openParen.append_spells h).close separates_closeParen
  · exact h

theorem spells_word (w : Word) : Spells w.text [.word w.text] :=
  fun _ hrest => Scans.word w.isIdentifier hrest

/-- A word behind a point, which is no fraction. -/
theorem Spells.member (h : Spells s ts) (w : Word) : Spells (s ++ "." ++ w.text) (ts ++ [.point, .word w.text]) := by
  intro rest hrest
  obtain ⟨c, cs, hcs, hc, -⟩ := NameTable.isIdentifier_iff.mp w.isIdentifier
  have hboundary : Boundary ('.' :: (w.text.toList ++ rest)) := by
    refine ⟨by decide, fun _ d hd => ?_⟩
    rw [hcs] at hd
    cases hd
    exact not_isDigit_of_isInitial hc
  have hpoint : Scans ['.'] [.point] (w.text.toList ++ rest) := Scans.symbol rfl rfl
  have htail : Scans ('.' :: w.text.toList) [.point, .word w.text] rest :=
    hpoint.append (spells_word w rest hrest)
  rw [String.toList_append, String.toList_append, append_assoc]
  exact (h _ hboundary).append htail

/-- Two minus signs never fuse: there is a blank between them. -/
theorem Spells.withMinus (h : Spells s ts) (hs : Opens s) : Spells (Code.withMinus s) (.operator .minus :: ts) := by
  intro rest hrest
  obtain ⟨c, cs, hcs, -⟩ := hs
  unfold Code.withMinus
  split
  · have hminus : Scans ['-'] [.operator .minus] ([' '] ++ (s.toList ++ rest)) := Scans.symbol rfl rfl
    have hblank : Scans ([' '] ++ s.toList) ([] ++ ts) rest :=
      (Scans.blank (s.toList ++ rest)).append (h rest hrest)
    rw [String.toList_append, String.toList_append]
    exact Scans.append (by rw [append_assoc]; exact hminus) hblank
  · rename_i hne
    have hc : c ≠ '-' := by
      rintro rfl
      exact hne (by rw [hcs]; rfl)
    have hminus : Scans ['-'] [.operator .minus] (s.toList ++ rest) :=
      Scans.symbol rfl (by rw [hcs]; exact symbol?_minus hc _)
    rw [String.toList_append]
    exact hminus.append (h rest hrest)

theorem Spells.bang (h : Spells s ts) (hs : Opens s) : Spells ("!" ++ s) (.bang :: ts) := by
  intro rest hrest
  obtain ⟨c, cs, hcs, hc, -⟩ := hs
  have hbang : Scans ['!'] [.bang] (s.toList ++ rest) :=
    Scans.symbol rfl (by rw [hcs]; exact symbol?_bang hc _)
  rw [String.toList_append]
  exact hbang.append (h rest hrest)

theorem Constant.spells (c : Constant) : Spells (format c.value) (Code.number c).tokens := by
  obtain ⟨n, hn, hread⟩ := c.exists_numeral
  have hnumber : Spells (format c.magnitude) [.number c.magnitude] := by
    intro rest hrest
    rw [hn]
    exact Scans.number hread hrest
  rw [c.format_eq]
  unfold Code.tokens
  split
  · -- the numeral starts with a digit, so that the sign stands alone
    obtain ⟨d, ds, hchars, hd⟩ := n.exists_head
    have hne : d ≠ '-' := by
      rintro rfl
      exact absurd hd (by decide)
    intro rest hrest
    rw [String.toList_append]
    refine Scans.append (Scans.symbol rfl ?_) (hnumber rest hrest)
    rw [hn, hchars]
    exact symbol?_minus hne _
  · exact hnumber

/-- **The text of code scans as its tokens.** -/
theorem Code.spells (a : Code) : Spells a.print a.tokens := by
  induction a with
  | number c => exact c.spells
  | text s => exact fun rest _ => Scans.text s rest
  | name w => exact spells_word w
  | emptyList =>
    exact fun rest _ => (@Scans.symbol _ [] _ _ rfl rfl).append (@Scans.symbol _ [] _ _ rfl rfl)
  | member a w ih => exact (spells_enclose ih _ _).member w
  | method a w ih =>
    have hparens := separates_openParen.append separates_closeParen
    have h := ((spells_enclose ih a.precedence .unaryPostfix).member w).close hparens
    rw [append_assoc] at h
    exact h
  | call f limit a ihf iha =>
    have h := ((spells_enclose ihf f.precedence .unaryPostfix).separate separates_openParen
      (spells_enclose iha a.precedence limit)).close separates_closeParen
    rw [append_assoc] at h
    exact h
  | callTwo f dense a b ihf iha ihb =>
    have hcomma : Separates (if dense then "," else ", ") [.operator .comma] := by
      cases dense
      · exact separates_comma.append separates_blank
      · exact separates_comma
    have h := (((spells_enclose ihf f.precedence .unaryPostfix).separate separates_openParen
      (spells_enclose iha a.precedence .loosest)).separate hcomma
      (spells_enclose ihb b.precedence .loosest)).close separates_closeParen
    simp only [append_assoc] at h
    exact h
  | minus a ih => exact (spells_enclose ih _ _).withMinus (opens_enclose a.opens _ _)
  | bang a ih => exact (spells_enclose ih _ _).bang (opens_enclose a.opens _ _)
  | binary op a b iha ihb =>
    exact (spells_enclose iha _ _).separate op.separates_spelling (spells_enclose ihb _ _)
  | conditional c y n ihc ihy ihn =>
    have h := ((spells_enclose ihc c.precedence Precedence.conditional.tighter).separate
      separates_question (spells_enclose ihy y.precedence .conditional)).separate separates_colon
      (spells_enclose ihn n.precedence .conditional)
    simp only [append_assoc] at h
    exact h

/-! ### Grafting -/

namespace Grammar.Tree

variable {op : Operator}

theorem graft_same {o : Operator} (h : o.precedence = op.precedence) (l a b : Tree) :
    graft op l (.binary o a b) = .binary o (graft op l a) b := if_pos h

theorem graft_other {o : Operator} (h : o.precedence ≠ op.precedence) (l a b : Tree) :
    graft op l (.binary o a b) = .binary op l (.binary o a b) := if_neg h

theorem exists_graft (op : Operator) (l t : Tree) :
    ∃ o x y, graft op l t = .binary o x y ∧ o.precedence = op.precedence := by
  cases t with
  | binary o a b =>
    by_cases h : o.precedence = op.precedence
    · exact ⟨_, _, _, graft_same h l a b, h⟩
    · exact ⟨_, _, _, graft_other h l a b, rfl⟩
  | _ => exact ⟨_, _, _, rfl, rfl⟩

/-- Grafting twice from the left is grafting onto the first operand. -/
theorem graft_graft {o : Operator} (h : o.precedence = op.precedence) (l a t : Tree) :
    graft op l (graft o a t) = graft o (graft op l a) t := by
  induction t with
  | binary o' x y ihx =>
    by_cases ho : o'.precedence = o.precedence
    · rw [graft_same ho, graft_same (ho.trans h), ihx, graft_same ho]
    · rw [graft_other ho, graft_same h, graft_other ho]
  | _ => exact graft_same h l a _

end Grammar.Tree

namespace Operation

variable {op : Operation}

/-- An operator that chains takes operands of its own level on the left, and on the right of the
next level or, if it regroups, of its own. -/
theorem of_chains (h : op.operator.chains = true) :
    op.precedence = op.operator.precedence ∧ op.left = op.operator.precedence ∧
      (op.regroups = true ∧ op.right = op.operator.precedence ∨
        op.regroups = false ∧ op.right = op.operator.precedence.tighter) := by
  cases op <;> first | exact absurd h (by decide) | decide

/-- A comparison takes tighter operands on both sides, and is tighter than its reported precedence
or equal to it. -/
theorem of_not_chains (h : op.operator.chains = false) :
    op.regroups = false ∧ op.operator.precedence.rank ≤ op.precedence.rank ∧
      op.left.rank ≤ op.operator.precedence.tighter.rank ∧
      op.right.rank ≤ op.operator.precedence.tighter.rank ∧ ¬ Chains op.precedence := by
  cases op <;> first
    | exact absurd h (by decide)
    | exact ⟨by decide, by decide, by decide, by decide, by rintro ⟨h1, h2, -⟩; revert h1 h2; decide⟩

theorem rank_bounds (op : Operation) : 2 < op.precedence.rank ∧ op.precedence.rank ≤ 14 := by
  cases op <;> decide

theorem operand_nonneg (op : Operation) : 0 ≤ op.left.rank ∧ 0 ≤ op.right.rank := by
  cases op <;> decide

theorem tree_of_not_regroups (h : op.regroups = false) (l r : Tree) (p : Precedence) :
    op.tree l r p = .binary op.operator l r :=
  if_neg fun h' => by rw [h] at h'; exact absurd h'.1 (by decide)

theorem exists_tree (op : Operation) (l r : Tree) (p : Precedence) :
    ∃ o x y, op.tree l r p = .binary o x y ∧ o.precedence = op.operator.precedence := by
  unfold tree
  split
  · exact Tree.exists_graft _ _ _
  · exact ⟨_, _, _, rfl, rfl⟩

/-- Grafting onto an operation of the same level is grafting onto its left operand. -/
theorem graft_tree {op : Operator} {o : Operation} (h : o.operator.precedence = op.precedence)
    (l a b : Tree) (p : Precedence) : Tree.graft op l (o.tree a b p) = o.tree (Tree.graft op l a) b p := by
  unfold tree
  split
  · exact Tree.graft_graft h l a b
  · exact Tree.graft_same h l a b

end Operation

namespace Code

theorem rank_le (a : Code) : a.precedence.rank ≤ 14 := by
  cases a with
  | number c =>
    unfold precedence
    dsimp only
    split <;> decide
  | binary op =>
    have := op.rank_bounds
    simp only [precedence]
    omega
  | _ =>
    simp [precedence, Precedence.atomic, Precedence.unaryPostfix, Precedence.unaryPrefix, Precedence.conditional]

/-- At a level that chains, the operator at the top of a tree has the precedence of the code. -/
theorem tree_level {a : Code} {o : Operator} {x y : Tree} (h : a.tree = .binary o x y)
    (ho : Chains o.precedence) : o.precedence = a.precedence := by
  cases a with
  | binary op b c =>
    obtain ⟨o', x', y', htree, hlevel⟩ := op.exists_tree b.tree c.tree c.precedence
    unfold tree at h
    rw [htree] at h
    cases h
    rw [hlevel] at ho ⊢
    cases hop : op.operator.chains with
    | true => exact (Operation.of_chains hop).1.symm
    | false => exact absurd ho (Operator.not_chains_precedence hop)
  | number c =>
    unfold tree Constant.tree at h
    split at h <;> cases h
  | _ => cases h

/-- Code of another level stays together behind an operator. -/
theorem graft_tree_of_ne {a : Code} {op : Operator} (hop : Chains op.precedence)
    (ha : a.precedence ≠ op.precedence) (l : Tree) : Tree.graft op l a.tree = .binary op l a.tree := by
  cases htree : a.tree with
  | binary o x y =>
    refine Tree.graft_other (fun ho => ha ?_) l x y
    exact (tree_level htree (ho ▸ hop)).symm.trans ho
  | _ => rfl

end Code

/-! ### Reading -/

variable {inner : Precedence}

theorem Grammar.Reads.enclose_of {outer p : Precedence} (h : Reads inner ts t) (hinner : inner.rank ≤ 14)
    (hp : 0 ≤ p.rank) (hbare : inner.rank ≤ outer.rank → inner.rank ≤ p.rank) :
    Reads p (encloseTokens ts inner outer) t := by
  unfold encloseTokens
  split
  · exact (Reads.group (h.mono (hinner.trans (by decide)))).mono hp
  · exact h.mono (hbare (by omega))

theorem Grammar.Reads.enclose {outer : Precedence} (h : Reads inner ts t) (hinner : inner.rank ≤ 14)
    (houter : 0 ≤ outer.rank) : Reads outer (encloseTokens ts inner outer) t :=
  h.enclose_of hinner houter id

theorem Grammar.Reads.enclose_loosest (h : Reads inner ts t) (hinner : inner.rank ≤ 14) (outer : Precedence) :
    Reads .loosest (encloseTokens ts inner outer) t :=
  h.enclose_of hinner (by decide) fun _ => hinner.trans (by decide)

/-- An operand of another precedence than `p`, written where `p` is allowed, is tighter than `p`. -/
theorem Grammar.Reads.enclose_tighter {p : Precedence} (h : Reads inner ts t) (hinner : inner.rank ≤ 14)
    (hp : 0 < p.rank) (hne : inner ≠ p) : Reads p.tighter (encloseTokens ts inner p) t := by
  have htighter := tighter_rank hp
  have hrank : inner.rank ≠ p.rank := fun heq => hne (by cases inner; cases p; exact congrArg mk heq)
  exact h.enclose_of hinner (by omega) (by omega)

namespace Code

/-- An operator of the code's own level in front of its tokens moves to the front of its tree. -/
def Grafts (a : Code) : Prop :=
  ∀ op : Operator, op.chains = true → op.precedence = a.precedence → ∀ ls l,
    Reads op.precedence ls l →
      Reads op.precedence (ls ++ .operator op :: a.tokens) (Tree.graft op l a.tree)

variable {a : Code} {ls : List Token}

/-- An operator in front of an operand written where its level is allowed. -/
theorem reads_graft (ha : Reads a.precedence a.tokens a.tree) (hgrafts : a.Grafts)
    {op : Operator} (hop : op.chains = true) {l : Tree} (hl : Reads op.precedence ls l) :
    Reads op.precedence (ls ++ .operator op :: encloseTokens a.tokens a.precedence op.precedence)
      (Tree.graft op l a.tree) := by
  have hpos := op.precedence_rank_pos
  by_cases heq : a.precedence = op.precedence
  · have hbare : encloseTokens a.tokens a.precedence op.precedence = a.tokens :=
      if_neg (by rw [heq]; omega)
    rw [hbare]
    exact hgrafts op hop heq.symm ls l hl
  · have htighter := ha.enclose_tighter a.rank_le (by omega) heq
    rw [graft_tree_of_ne (Operator.chains_precedence hop) heq]
    exact .chain op hop hl htighter

theorem reads_operation {b : Code} (hb : Reads b.precedence b.tokens b.tree) (hgrafts : b.Grafts)
    {op : Operation} (hop : op.operator.chains = true) {l : Tree}
    (hl : Reads op.operator.precedence ls l) : Reads op.operator.precedence
    (ls ++ .operator op.operator :: encloseTokens b.tokens b.precedence op.right) (op.tree l b.tree b.precedence) := by
  have hpos := op.operator.precedence_rank_pos
  obtain ⟨hprecedence, -, ⟨hregroups, hright⟩ | ⟨hregroups, hright⟩⟩ := Operation.of_chains hop
  · have htree : op.tree l b.tree b.precedence = Tree.graft op.operator l b.tree := by
      unfold Operation.tree
      split
      · rfl
      · case isFalse hne =>
        refine (graft_tree_of_ne (Operator.chains_precedence hop) (fun heq => hne ⟨hregroups, ?_⟩) l).symm
        exact heq.trans hprecedence.symm
    rw [hright, htree]
    exact reads_graft hb hgrafts hop hl
  · rw [Operation.tree_of_not_regroups hregroups, hright]
    refine .chain _ hop hl (hb.enclose b.rank_le ?_)
    rw [tighter_rank (by omega)]
    omega

theorem grafts_of_rank (h : a.precedence.rank ≤ 2) : a.Grafts := by
  intro op _ heq
  have := op.precedence_rank_pos
  rw [heq] at this
  omega

theorem grafts_of_not_chains (h : ¬ Chains a.precedence) : a.Grafts :=
  fun _ hop heq => absurd (heq ▸ Operator.chains_precedence hop) h

/-- An operation reads as its tree and lets operators of its level graft onto it, if its operands
do. -/
theorem binary_reads_and_grafts (op : Operation) {b : Code} (ha : Reads a.precedence a.tokens a.tree ∧ a.Grafts)
    (hb : Reads b.precedence b.tokens b.tree ∧ b.Grafts) :
    Reads op.precedence (binary op a b).tokens (binary op a b).tree ∧ (binary op a b).Grafts := by
  have hnonneg := op.operand_nonneg
  cases hop : op.operator.chains with
  | true =>
    obtain ⟨hprecedence, hleft, -⟩ := Operation.of_chains hop
    refine ⟨?_, fun o ho hlevel ls l hl => ?_⟩
    · rw [hprecedence]
      have hl := ha.1.enclose a.rank_le hnonneg.1
      rw [hleft] at hl
      show Reads _ (encloseTokens _ _ op.left ++ _) _
      rw [hleft]
      exact reads_operation hb.1 hb.2 hop hl
    · -- the new operator takes the left operand, and this operation takes the result
      have hsame : op.operator.precedence = o.precedence := hprecedence.symm.trans hlevel.symm
      have hl' := reads_graft ha.1 ha.2 ho hl
      rw [← hsame] at hl' ⊢
      have h := reads_operation hb.1 hb.2 hop hl'
      have htree : Tree.graft o l (binary op a b).tree = op.tree (Tree.graft o l a.tree) b.tree b.precedence :=
        Operation.graft_tree hsame l a.tree b.tree b.precedence
      rw [htree]
      rw [append_assoc] at h
      show Reads _ (ls ++ .operator o :: (encloseTokens _ _ op.left ++ _)) _
      rw [hleft]
      exact h
  | false =>
    obtain ⟨hregroups, hloose, hleft, hright, hchains⟩ := Operation.of_not_chains hop
    refine ⟨?_, grafts_of_not_chains hchains⟩
    rw [tree, Operation.tree_of_not_regroups hregroups]
    exact (Reads.comparison _ hop ((ha.1.enclose a.rank_le hnonneg.1).mono hleft)
      ((hb.1.enclose b.rank_le hnonneg.2).mono hright)).mono hloose

/-- The tokens of code read as its tree, and operators of its level graft onto it. -/
theorem reads_and_grafts (a : Code) : Reads a.precedence a.tokens a.tree ∧ a.Grafts := by
  induction a with
  | number c =>
    refine ⟨?_, grafts_of_rank (by unfold precedence; dsimp only; split <;> decide)⟩
    unfold precedence tokens tree Constant.tree
    dsimp only
    split
    · exact .minus ((Reads.number _).mono (by decide))
    · exact .number _
  | text s => exact ⟨.text s, grafts_of_rank (show (0 : Int) ≤ 2 by decide)⟩
  | name w => exact ⟨.name w.text, grafts_of_rank (show (0 : Int) ≤ 2 by decide)⟩
  | emptyList => exact ⟨.emptyList, grafts_of_rank (by decide)⟩
  | member a w ih =>
    exact ⟨.member _ (ih.1.enclose a.rank_le (by decide)), grafts_of_rank (show (1 : Int) ≤ 2 by decide)⟩
  | method a w ih =>
    refine ⟨?_, grafts_of_rank (show (1 : Int) ≤ 2 by decide)⟩
    have h := Reads.callEmpty (.member w.text (ih.1.enclose a.rank_le (by decide)))
    rw [append_assoc] at h
    exact h
  | call f limit a ihf iha =>
    refine ⟨?_, grafts_of_rank (show (1 : Int) ≤ 2 by decide)⟩
    exact .call (ihf.1.enclose f.rank_le (by decide))
      ((iha.1.enclose_loosest a.rank_le limit).mono (by decide))
  | callTwo f dense a b ihf iha ihb =>
    refine ⟨?_, grafts_of_rank (show (1 : Int) ≤ 2 by decide)⟩
    have hfirst := (iha.1.enclose_loosest a.rank_le .loosest).mono (show _ ≤ (100 : Int) by decide)
    have h := Reads.call (ihf.1.enclose f.rank_le (by decide))
      (.chain .comma rfl hfirst (ihb.1.enclose_loosest b.rank_le .loosest))
    rw [append_assoc] at h
    exact h
  | minus a ih =>
    exact ⟨.minus (ih.1.enclose a.rank_le (by decide)), grafts_of_rank (show (2 : Int) ≤ 2 by decide)⟩
  | bang a ih =>
    exact ⟨.bang (ih.1.enclose a.rank_le (by decide)), grafts_of_rank (show (2 : Int) ≤ 2 by decide)⟩
  | binary op a b iha ihb => exact binary_reads_and_grafts op iha ihb
  | conditional c y n ihc ihy ihn =>
    refine ⟨?_, grafts_of_not_chains fun h => h.2.2 rfl⟩
    exact .conditional (ihc.1.enclose c.rank_le (by decide)) (ihy.1.enclose y.rank_le (by decide))
      (ihn.1.enclose n.rank_le (by decide))

/-- **The tokens of code read as its tree**, in parentheses or not. -/
theorem reads_enclose (a : Code) (outer : Precedence) :
    Reads .loosest (encloseTokens a.tokens a.precedence outer) a.tree :=
  a.reads_and_grafts.1.enclose_loosest a.rank_le outer

theorem scan_enclose (a : Code) (outer : Precedence) : scan (enclose a.print a.precedence outer).toList =
      some (encloseTokens a.tokens a.precedence outer) :=
  (spells_enclose a.spells a.precedence outer).scan_eq

end Code

end BlockProgram
