import BlockProgram.Proofs.Grammar.Token

/-! # Reading expressions

The grammar of expressions, one level for each precedence: `Reads p ts t` says that the tokens `ts`
are an expression of level `p`, with the tree `t`.  Arithmetic, logical and bitwise operators group
to the left, comparisons do not chain, and conditionals group to the right.

`read` is a parser for it.  It finds every tree the grammar has (`Reads.read_eq`), and being a
function it finds only one, so that the grammar is unambiguous (`Reads.unique`).
-/
namespace BlockProgram.Grammar

open List

/-- The arguments of a call, which commas join. -/
def arguments : Precedence := ⟨100⟩

namespace Operator

def precedence : Operator → Precedence
  | .times | .over | .remainder | .quotient => .multiplicative
  | .plus | .minus => .additive
  | .shiftLeft | .shiftRight => .shift
  | .bitAnd => .bitwiseAnd
  | .bitXor => .bitwiseXor
  | .bitOr => .bitwiseOr
  | .less | .lessEqual | .greater | .greaterEqual => .relational
  | .equal | .unequal => .equality
  | .and => .logicalAnd
  | .or => .logicalOr
  | .ifNull => .ifNull
  | .comma => arguments

/-- Whether an operator may have another one of its level as its left operand. -/
def chains : Operator → Bool
  | less | lessEqual | greater | greaterEqual | equal | unequal => false
  | _ => true

end Operator

inductive Sign where
  | minus
  | bang
deriving DecidableEq

/-- How an expression is grouped. The arguments of a call are one tree, joined by commas. -/
inductive Tree where
  | number (value : Number.Floating)
  | text (value : String)
  | name (word : String)
  | emptyList
  | member (object : Tree) (name : String)
  | index (object position : Tree)
  | callEmpty (function : Tree)
  | call (function arguments : Tree)
  | signed (sign : Sign) (operand : Tree)
  | binary (op : Operator) (left right : Tree)
  | conditional (condition yes no : Tree)
deriving DecidableEq

/-- The tokens `ts` are an expression of level `p` with the tree `t`. -/
inductive Reads : Precedence → List Token → Tree → Prop where
  | number (x : Number.Floating) : Reads .atomic [.number x] (.number x)
  | text (s : String) : Reads .atomic [.text s] (.text s)
  | name (w : String) : Reads .atomic [.word w] (.name w)
  | emptyList : Reads .atomic [.openBracket, .closeBracket] .emptyList
  | group {ts t} : Reads .loosest ts t → Reads .atomic (.openParen :: (ts ++ [.closeParen])) t
  | member {ts t} (w : String) : Reads .unaryPostfix ts t →
      Reads .unaryPostfix (ts ++ [.point, .word w]) (.member t w)
  | index {ts t us u} : Reads .unaryPostfix ts t → Reads .loosest us u →
      Reads .unaryPostfix (ts ++ .openBracket :: (us ++ [.closeBracket])) (.index t u)
  | callEmpty {ts t} : Reads .unaryPostfix ts t →
      Reads .unaryPostfix (ts ++ [.openParen, .closeParen]) (.callEmpty t)
  | call {ts t us u} : Reads .unaryPostfix ts t → Reads arguments us u →
      Reads .unaryPostfix (ts ++ .openParen :: (us ++ [.closeParen])) (.call t u)
  | minus {ts t} : Reads .unaryPrefix ts t →
      Reads .unaryPrefix (.operator .minus :: ts) (.signed .minus t)
  | bang {ts t} : Reads .unaryPrefix ts t → Reads .unaryPrefix (.bang :: ts) (.signed .bang t)
  | chain {ls l rs r} (op : Operator) : op.chains = true → Reads op.precedence ls l →
      Reads op.precedence.tighter rs r →
      Reads op.precedence (ls ++ .operator op :: rs) (.binary op l r)
  | comparison {ls l rs r} (op : Operator) : op.chains = false → Reads op.precedence.tighter ls l →
      Reads op.precedence.tighter rs r →
      Reads op.precedence (ls ++ .operator op :: rs) (.binary op l r)
  | conditional {cs c ys y ns n} : Reads Precedence.conditional.tighter cs c →
      Reads .conditional ys y → Reads .conditional ns n →
      Reads .conditional (cs ++ .question :: (ys ++ .colon :: ns)) (.conditional c y n)
  | loosen {p ts t} : 0 < p.rank → Reads p.tighter ts t → Reads p ts t

/-! ### The parser -/

mutual

/-- Reads an expression of a level: an operand, and then the operators of the level behind it. -/
def expression? : Nat → Precedence → List Token → Option (Tree × List Token)
  | 0, _, _ => none
  | fuel + 1, p, ts =>
    match operand? fuel p ts with
    | some (t, rest) => continue? fuel p t rest
    | none => none

/-- Reads what stands in front of the operators of a level: a token or a group at the tightest one,
a sign with its operand at the level of signs, and elsewhere an expression of the next level. -/
@[simp] def operand? : Nat → Precedence → List Token → Option (Tree × List Token)
  | 0, _, _ => none
  | fuel + 1, p, ts =>
    if p.rank ≤ 0 then
      match ts with
      | .number x :: rest => some (.number x, rest)
      | .text s :: rest => some (.text s, rest)
      | .word w :: rest => some (.name w, rest)
      | .openBracket :: .closeBracket :: rest => some (.emptyList, rest)
      | .openParen :: rest =>
        match expression? fuel .loosest rest with
        | some (t, .closeParen :: rest) => some (t, rest)
        | _ => none
      | _ => none
    else if p = .unaryPrefix then
      match ts with
      | .operator .minus :: rest =>
        (expression? fuel p rest).map fun (t, rest) => (.signed .minus t, rest)
      | .bang :: rest => (expression? fuel p rest).map fun (t, rest) => (.signed .bang t, rest)
      | ts => expression? fuel p.tighter ts
    else expression? fuel p.tighter ts

/-- Reads the operators of a level, and what belongs to them, behind the tree `t`. -/
@[simp] def continue? : Nat → Precedence → Tree → List Token → Option (Tree × List Token)
  | 0, _, _, _ => none
  | fuel + 1, p, t, ts =>
    match ts with
    | .point :: .word w :: rest =>
      if p = .unaryPostfix then continue? fuel p (.member t w) rest else some (t, ts)
    | .openBracket :: rest =>
      if p = .unaryPostfix then
        match expression? fuel .loosest rest with
        | some (u, .closeBracket :: rest) => continue? fuel p (.index t u) rest
        | _ => none
      else some (t, ts)
    | .openParen :: .closeParen :: rest =>
      if p = .unaryPostfix then continue? fuel p (.callEmpty t) rest else some (t, ts)
    | .openParen :: rest =>
      if p = .unaryPostfix then
        match expression? fuel arguments rest with
        | some (u, .closeParen :: rest) => continue? fuel p (.call t u) rest
        | _ => none
      else some (t, ts)
    | .operator op :: rest =>
      if op.precedence = p then
        match expression? fuel p.tighter rest with
        | some (u, rest) =>
          if op.chains then continue? fuel p (.binary op t u) rest
          else some (.binary op t u, rest)
        | none => none
      else some (t, ts)
    | .question :: rest =>
      if p = .conditional then
        match expression? fuel p rest with
        | some (y, .colon :: rest) =>
          (expression? fuel p rest).map fun (n, rest) => (.conditional t y n, rest)
        | _ => none
      else some (t, ts)
    | ts => some (t, ts)

end

def read (ts : List Token) : Option Tree :=
  match expression? (256 * ts.length + 256) .loosest ts with
  | some (t, []) => some t
  | _ => none

def readText (s : String) : Option Tree := (scan s.toList).bind read

/-! ### What may follow an expression -/

/-- The level at which a token goes on with an expression. -/
def Token.level? : Token → Option Precedence
  | .operator op => some op.precedence
  | .point | .openParen | .openBracket => some .unaryPostfix
  | .question => some .conditional
  | _ => none

/-- An expression of level `p` ends in front of these tokens: what follows goes on at a looser
level, if at all. -/
def Stops (p : Precedence) (rest : List Token) : Prop :=
  ∀ t ∈ rest.head?, ∀ q ∈ t.level?, p.rank < q.rank

/-- The same for all levels tighter than `p`. -/
def StopsBelow (p : Precedence) (rest : List Token) : Prop :=
  ∀ t ∈ rest.head?, ∀ q ∈ t.level?, p.rank ≤ q.rank

/-- Whether an expression of this level may be the first operand of another one. -/
def Chains (p : Precedence) : Prop := p ≠ .relational ∧ p ≠ .equality ∧ p ≠ .conditional

variable {p : Precedence} {rest : List Token}

theorem Stops.below (h : Stops p rest) : StopsBelow p rest :=
  fun t ht q hq => (h t ht q hq).le

theorem Stops.nil (p : Precedence) : Stops p [] := by
  rintro _ ⟨⟩

theorem stops_of_level?_eq_none {t : Token} (ht : t.level? = none) (rest : List Token) : Stops p (t :: rest) := by
  rintro _ ⟨⟩ q hq
  rw [ht] at hq
  cases hq

theorem stopsBelow_of_level? {t : Token} (ht : t.level? = some p) (rest : List Token) : StopsBelow p (t :: rest) := by
  rintro _ ⟨⟩ q hq
  rw [ht] at hq
  cases hq
  exact le_rfl

theorem tighter_rank (hp : 0 < p.rank) : p.tighter.rank = p.rank - 1 := by
  unfold Precedence.tighter
  rw [if_neg hp.ne']

theorem StopsBelow.tighter (hp : 0 < p.rank) (h : StopsBelow p rest) : Stops p.tighter rest := by
  intro t ht q hq
  have := h t ht q hq
  rw [tighter_rank hp]
  omega

/-- No token goes on at the level of signs itself. -/
theorem StopsBelow.stops_signs (h : StopsBelow .unaryPrefix rest) : Stops .unaryPrefix rest := by
  intro t ht q hq
  have hle : (2 : Int) ≤ q.rank := h t ht q hq
  have hne : q.rank ≠ 2 := by
    cases t with
    | operator op => cases hq; cases op <;> decide
    | point | openParen | openBracket | question => cases hq; decide
    | _ => cases hq
  show (2 : Int) < q.rank
  omega

theorem continue?_of_stops (h : Stops p rest) (t : Tree)
    {fuel : Nat} (hfuel : 1 ≤ fuel) : continue? fuel p t rest = some (t, rest) := by
  have ne_of_lt {q : Precedence} (hlt : p.rank < q.rank) : p ≠ q := by
    rintro rfl
    omega
  obtain ⟨fuel, rfl⟩ : ∃ f, fuel = f + 1 := ⟨fuel - 1, by omega⟩
  unfold continue?
  split
  case h_5 => rw [if_neg (ne_of_lt (h _ rfl _ rfl)).symm]
  case h_7 => rfl
  all_goals rw [if_neg (ne_of_lt (h _ rfl _ rfl))]

def Token.starts : Token → Bool
  | .number _ | .text _ | .word _ | .openBracket | .openParen | .operator .minus | .bang => true
  | _ => false

def Token.isSign : Token → Bool
  | .operator .minus | .bang => true
  | _ => false

theorem Operator.precedence_rank_pos (op : Operator) : 2 < op.precedence.rank := by
  cases op <;> decide

theorem Operator.precedence_rank_le (op : Operator) : op.precedence.rank ≤ 100 := by
  cases op <;> decide

theorem Operator.chains_precedence {op : Operator} (h : op.chains = true) : Chains op.precedence := by
  cases op <;> first | exact absurd h (by decide) | exact ⟨by decide, by decide, by decide⟩

theorem Operator.not_chains_precedence {op : Operator} (h : op.chains = false) : ¬ Chains op.precedence := by
  rintro ⟨h1, h2, -⟩
  cases op <;> first | exact h1 rfl | exact h2 rfl | exact absurd h (by decide)

variable {ts : List Token} {t : Tree}

/-- An expression starts with a token that can start one, and below the level of signs with no
sign. -/
theorem Reads.head (h : Reads p ts t) : ∃ a us, ts = a :: us ∧ a.starts = true ∧ (p.rank ≤ 1 → a.isSign = false) := by
  induction h with
  | number | text | name | emptyList | group => exact ⟨_, _, rfl, rfl, fun _ => rfl⟩
  | minus | bang => exact ⟨_, _, rfl, rfl, fun h => absurd h (by decide)⟩
  | member _ _ ih | callEmpty _ ih | index _ _ ih | call _ _ ih =>
    obtain ⟨a, us, rfl, hs, hsign⟩ := ih
    exact ⟨a, _, rfl, hs, hsign⟩
  | chain op _ _ _ ih | comparison op _ _ _ ih =>
    obtain ⟨a, us, rfl, hs, -⟩ := ih
    have := op.precedence_rank_pos
    exact ⟨a, _, rfl, hs, fun h => by omega⟩
  | conditional _ _ _ ih =>
    obtain ⟨a, us, rfl, hs, -⟩ := ih
    exact ⟨a, _, rfl, hs, fun h => absurd h (by decide)⟩
  | loosen hp _ ih =>
    obtain ⟨a, us, rfl, hs, hsign⟩ := ih
    rw [tighter_rank hp] at hsign
    exact ⟨a, us, rfl, hs, fun h => hsign (by omega)⟩

theorem Reads.rank_nonneg (h : Reads p ts t) : 0 ≤ p.rank := by
  cases h with
  | number | text | name | emptyList | group | member | index | callEmpty | call | minus | bang
  | conditional => decide
  | chain op | comparison op => have := op.precedence_rank_pos; omega
  | loosen hp => exact hp.le

/-- A looser level takes the expressions of a tighter one. -/
theorem Reads.mono {q : Precedence} (h : Reads p ts t) (hle : p.rank ≤ q.rank) : Reads q ts t := by
  have hp := h.rank_nonneg
  obtain ⟨k, hk⟩ := Int.eq_ofNat_of_zero_le (show 0 ≤ q.rank - p.rank by omega)
  induction k generalizing q with
  | zero =>
    have : q = p := by
      cases p; cases q
      simp only [Precedence.mk.injEq]
      dsimp only at hk
      omega
    rwa [this]
  | succ k ih =>
    have hq : 0 < q.rank := by omega
    refine .loosen hq (ih ?_ ?_) <;> rw [tighter_rank hq] <;> omega

/-! ### The parser finds what the grammar has -/

/-- With `n` fuel or more the parser reads an expression of level `p` off the front. -/
def Parses (n : Nat) (p : Precedence) (ts : List Token) (t : Tree) (rest : List Token) : Prop :=
  ∀ fuel, n ≤ fuel → expression? fuel p ts = some (t, rest)

/-- With `n` fuel or more the parser goes on from the tree `t` to the tree `t'`. -/
def Continues (n : Nat) (p : Precedence) (t : Tree) (ts : List Token) (t' : Tree)
    (rest : List Token) : Prop :=
  ∀ fuel, n ≤ fuel → continue? fuel p t ts = some (t', rest)

section

variable {n m : Nat} {p : Precedence} {op : Operator} {t t' u : Tree} {ts us rest rest' : List Token}

theorem Continues.of_stops (h : Stops p rest) (t : Tree) : Continues 1 p t rest t rest :=
  fun _ hfuel => continue?_of_stops h t hfuel

/-- Where nothing goes on, the parser stops with what it has. -/
theorem Continues.eq_of_stops (h : Continues n p t rest t' rest') (hstops : Stops p rest) : t' = t ∧ rest' = rest := by
  have heq := h (n + 1) (by omega)
  rw [continue?_of_stops hstops t (by omega)] at heq
  simp only [Option.some.injEq, Prod.mk.injEq] at heq
  exact ⟨heq.1.symm, heq.2.symm⟩

theorem Parses.mono (h : Parses n p ts t rest) (hle : n ≤ m) : Parses m p ts t rest :=
  fun fuel hfuel => h fuel (hle.trans hfuel)

theorem of_fuel {α : Type} {x : Nat → α} {a : α} (h : ∀ fuel, n ≤ fuel → x (fuel + 1) = a) (fuel : Nat)
    (hfuel : n + 1 ≤ fuel) : x fuel = a := by
  obtain ⟨fuel, rfl⟩ : ∃ f, fuel = f + 1 := ⟨fuel - 1, by omega⟩
  exact h fuel (by omega)

/-- An expression is an operand and what follows it. -/
theorem Parses.of_operand (hoperand : ∀ fuel, m ≤ fuel → operand? fuel p ts = some (t, rest))
    (hcontinue : Continues n p t rest t' rest') : Parses (max n m + 1) p ts t' rest' := by
  refine of_fuel fun fuel hfuel => ?_
  unfold expression?
  rw [hoperand fuel (by omega)]
  exact hcontinue fuel (by omega)

/-! One lemma for each alternative of `operand?` and of `continue?`. -/

theorem operand?_tighter (hp : 0 < p.rank) (hsign : p = .unaryPrefix → ∀ a ∈ ts.head?, a.isSign = false)
    (h : Parses n p.tighter ts t rest) : ∀ fuel, n + 1 ≤ fuel → operand? fuel p ts = some (t, rest) := by
  refine of_fuel fun fuel hfuel => ?_
  unfold operand?
  rw [if_neg (by omega)]
  split
  · rename_i hprefix
    split
    · exact absurd (hsign hprefix _ rfl) (by decide)
    · exact absurd (hsign hprefix _ rfl) (by decide)
    · exact h fuel hfuel
  · exact h fuel hfuel

theorem operand?_group (h : Parses n .loosest ts t (.closeParen :: rest)) :
    ∀ fuel, n + 1 ≤ fuel → operand? fuel .atomic (.openParen :: ts) = some (t, rest) := by
  refine of_fuel fun fuel hfuel => ?_
  unfold operand?
  rw [if_pos (by decide)]
  simp only [h fuel hfuel]

theorem operand?_signed {a : Token} {sign : Sign} (ha : a = .operator .minus ∧ sign = .minus ∨ a = .bang ∧ sign = .bang)
    (h : Parses n .unaryPrefix ts t rest) :
    ∀ fuel, n + 1 ≤ fuel → operand? fuel .unaryPrefix (a :: ts) = some (.signed sign t, rest) := by
  refine of_fuel fun fuel hfuel => ?_
  unfold operand?
  rw [if_neg (by decide), if_pos rfl]
  rcases ha with ⟨rfl, rfl⟩ | ⟨rfl, rfl⟩ <;> simp only [h fuel hfuel, Option.map_some]

theorem Continues.member {w : String} (h : Continues n .unaryPostfix (.member t w) rest t' rest') :
    Continues (n + 1) .unaryPostfix t (.point :: .word w :: rest) t' rest' := by
  refine of_fuel fun fuel hfuel => ?_
  unfold continue?
  exact h fuel hfuel

theorem Continues.index (hu : Parses m .loosest us u (.closeBracket :: rest))
    (h : Continues n .unaryPostfix (.index t u) rest t' rest') :
    Continues (max n m + 1) .unaryPostfix t (.openBracket :: us) t' rest' := by
  refine of_fuel fun fuel hfuel => ?_
  unfold continue?
  simp only [if_true, hu fuel (by omega)]
  exact h fuel (by omega)

theorem Continues.callEmpty (h : Continues n .unaryPostfix (.callEmpty t) rest t' rest') :
    Continues (n + 1) .unaryPostfix t (.openParen :: .closeParen :: rest) t' rest' := by
  refine of_fuel fun fuel hfuel => ?_
  unfold continue?
  exact h fuel hfuel

theorem Continues.call (hstart : ∀ a ∈ us.head?, a.starts = true) (hu : Parses m arguments us u (.closeParen :: rest))
    (h : Continues n .unaryPostfix (.call t u) rest t' rest') :
    Continues (max n m + 1) .unaryPostfix t (.openParen :: us) t' rest' := by
  refine of_fuel fun fuel hfuel => ?_
  unfold continue?
  split
  case h_3 heq =>
    obtain ⟨-, rfl⟩ := List.cons.inj heq
    exact absurd (hstart _ rfl) (by decide)
  case h_4 heq =>
    obtain ⟨-, rfl⟩ := List.cons.inj heq
    simp only [if_true, hu fuel (by omega)]
    exact h fuel (by omega)
  case h_7 hparen _ _ => exact absurd rfl (hparen us)
  all_goals next heq => cases heq

theorem Continues.chain (hop : op.chains = true) (hu : Parses m op.precedence.tighter us u rest)
    (h : Continues n op.precedence (.binary op t u) rest t' rest') :
    Continues (max n m + 1) op.precedence t (.operator op :: us) t' rest' := by
  refine of_fuel fun fuel hfuel => ?_
  unfold continue?
  simp only [if_true, hu fuel (by omega), hop]
  exact h fuel (by omega)

theorem Continues.comparison (hop : op.chains = false) (hu : Parses m op.precedence.tighter us u rest) (t : Tree) :
    Continues (m + 1) op.precedence t (.operator op :: us) (.binary op t u) rest := by
  refine of_fuel fun fuel hfuel => ?_
  unfold continue?
  simp only [if_true, hu fuel hfuel, hop, Bool.false_eq_true, if_false]

theorem Continues.conditional {y no : Tree} {ys ns : List Token} (hy : Parses n .conditional ys y (.colon :: ns))
    (hno : Parses m .conditional ns no rest) (t : Tree) :
    Continues (max n m + 1) .conditional t (.question :: ys) (.conditional t y no) rest := by
  refine of_fuel fun fuel hfuel => ?_
  unfold continue?
  simp only [if_true, hy fuel (by omega), hno fuel (by omega), Option.map_some]

/-! ### Trees -/

def fuelFor (p : Precedence) (ts : List Token) : Nat := 256 * ts.length + 2 * p.rank.toNat + 2

/-- In front of tokens that leave the tighter levels, the parser reads the tokens `ts` and goes on
from the tree `t`.  Because operators group to the left, the first operand is read with the operator
still to come, and it is the parser's way on from there, not its result, that this is about. -/
def Finds (p : Precedence) (ts : List Token) (t : Tree) : Prop :=
  ∀ {n : Nat} {rest rest' : List Token} {t' : Tree}, 1 ≤ n → StopsBelow p rest → Chains p ∨ Stops p rest →
    Continues n p t rest t' rest' → Parses (n + fuelFor p ts) p (ts ++ rest) t' rest'

namespace Finds

theorem stop (h : Finds p ts t) (hstops : Stops p rest) : Parses (1 + fuelFor p ts) p (ts ++ rest) t rest :=
  h le_rfl hstops.below (.inr hstops) (.of_stops hstops t)

/-- In front of a token that goes on with no expression. -/
theorem stop_token (h : Finds p ts t) {a : Token} (ha : a.level? = none) :
    Parses (1 + fuelFor p ts) p (ts ++ a :: rest) t (a :: rest) :=
  h.stop (stops_of_level?_eq_none ha _)

/-- In front of a token that goes on at the level. -/
theorem go (h : Finds p ts t) (hp : Chains p) {a : Token} (ha : a.level? = some p)
    (hcontinue : Continues (n + 1) p t (a :: rest) t' rest') :
    Parses (n + 1 + fuelFor p ts) p (ts ++ a :: rest) t' rest' :=
  h (by omega) (stopsBelow_of_level? ha _) (.inl hp) hcontinue

theorem tighter (h : Finds p.tighter ts t) (hp : 0 < p.rank)
    (hsign : p = .unaryPrefix → ∀ a ∈ (ts ++ rest).head?, a.isSign = false) (hbelow : StopsBelow p rest)
    (hcontinue : Continues n p t rest t' rest') : Parses (max n (fuelFor p ts) + 1) p (ts ++ rest) t' rest' := by
  refine (Parses.of_operand (operand?_tighter hp hsign (h.stop (hbelow.tighter hp))) hcontinue).mono ?_
  unfold fuelFor
  rw [tighter_rank hp]
  omega

end Finds

theorem chains_postfix : Chains .unaryPostfix := by
  unfold Chains
  decide

/-- **The parser finds every tree of the grammar.** The induction is on the grammar. -/
theorem Reads.finds (h : Reads p ts t) (hn : 1 ≤ n) (hbelow : StopsBelow p rest) (hchain : Chains p ∨ Stops p rest)
    (hcontinue : Continues n p t rest t' rest') : Parses (n + fuelFor p ts) p (ts ++ rest) t' rest' := by
  induction h generalizing n rest rest' t' with
  | number | text | name | emptyList =>
    refine (Parses.of_operand (m := 0 + 1) (of_fuel fun fuel hfuel => rfl) hcontinue).mono ?_
    unfold fuelFor
    simp only [length_cons]
    omega
  | @group ts t hts ih =>
    rw [cons_append, append_assoc]
    refine (Parses.of_operand (operand?_group (Finds.stop_token ih rfl)) hcontinue).mono ?_
    simp [fuelFor, Precedence.loosest]
    omega
  | member w hts ih =>
    rw [append_assoc]
    refine (Finds.go ih chains_postfix rfl hcontinue.member).mono ?_
    simp [fuelFor]
    omega
  | callEmpty hts ih =>
    rw [append_assoc]
    refine (Finds.go ih chains_postfix rfl hcontinue.callEmpty).mono ?_
    simp [fuelFor]
    omega
  | @index ts t us u hts hus ih ihus =>
    rw [append_assoc, cons_append, append_assoc]
    refine (Finds.go ih chains_postfix rfl (.index (Finds.stop_token ihus rfl) hcontinue)).mono ?_
    simp [fuelFor, Precedence.loosest]
    omega
  | @call ts t us u hts hus ih ihus =>
    have hstart : ∀ a ∈ (us ++ .closeParen :: rest).head?, a.starts = true := by
      obtain ⟨a, vs, rfl, ha, -⟩ := hus.head
      rintro _ ⟨⟩
      exact ha
    rw [append_assoc, cons_append, append_assoc]
    refine (Finds.go ih chains_postfix rfl (.call hstart (Finds.stop_token ihus rfl) hcontinue)).mono ?_
    simp [fuelFor, arguments]
    omega
  | @minus ts t hts ih =>
    refine (Parses.of_operand (operand?_signed (.inl ⟨rfl, rfl⟩) (Finds.stop ih hbelow.stops_signs)) hcontinue).mono ?_
    simp [fuelFor]
    omega
  | @bang ts t hts ih =>
    refine (Parses.of_operand (operand?_signed (.inr ⟨rfl, rfl⟩) (Finds.stop ih hbelow.stops_signs)) hcontinue).mono ?_
    simp [fuelFor]
    omega
  | @chain ls l rs r op hop hls hrs ihl ihr =>
    have hpos := op.precedence_rank_pos
    have hle := op.precedence_rank_le
    have hright := Finds.stop ihr (hbelow.tighter (by omega))
    rw [append_assoc, cons_append]
    refine (Finds.go ihl (Operator.chains_precedence hop) rfl (.chain hop hright hcontinue)).mono ?_
    simp [fuelFor, tighter_rank (show 0 < op.precedence.rank by omega)]
    omega
  | @comparison ls l rs r op hop hls hrs ihl ihr =>
    have hpos := op.precedence_rank_pos
    have hright := Finds.stop ihr (hbelow.tighter (by omega))
    obtain ⟨rfl, rfl⟩ := hcontinue.eq_of_stops (hchain.resolve_left (Operator.not_chains_precedence hop))
    have hsign : op.precedence = .unaryPrefix →
        ∀ a ∈ (ls ++ .operator op :: (rs ++ rest')).head?, a.isSign = false := by
      intro h
      rw [h] at hpos
      exact absurd hpos (by decide)
    rw [append_assoc, cons_append]
    refine (Finds.tighter ihl (by omega) hsign (stopsBelow_of_level? rfl _) (.comparison hop hright l)).mono ?_
    simp [fuelFor, tighter_rank (show 0 < op.precedence.rank by omega)]
    omega
  | @conditional cs c ys y ns no hcs hys hns ihc ihy ihn =>
    have hrest : Stops .conditional rest := hchain.resolve_left fun h => h.2.2 rfl
    obtain ⟨rfl, rfl⟩ := hcontinue.eq_of_stops hrest
    rw [append_assoc, cons_append, append_assoc, cons_append]
    refine (Finds.tighter ihc (by decide) (fun h => absurd h (by decide)) (stopsBelow_of_level? rfl _)
      (.conditional (Finds.stop_token ihy rfl) (Finds.stop ihn hrest) c)).mono ?_
    simp [fuelFor, Precedence.conditional]
    omega
  | @loosen p ts t hp hts ih =>
    have hsign : p = .unaryPrefix → ∀ a ∈ (ts ++ rest).head?, a.isSign = false := by
      rintro rfl
      obtain ⟨a, us, rfl, -, ha⟩ := hts.head
      rintro _ ⟨⟩
      exact ha (by decide)
    refine (Finds.tighter ih hp hsign hbelow hcontinue).mono ?_
    unfold fuelFor
    omega

end

theorem Reads.read_eq (h : Reads .loosest ts t) : read ts = some t := by
  have hparses := Finds.stop h.finds (Stops.nil .loosest)
  rw [append_nil] at hparses
  unfold read
  rw [hparses _ (by simp [fuelFor, Precedence.loosest]; omega)]

/-- No expression has a decrement in it. -/
theorem Reads.decrement_not_mem (h : Reads p ts t) : Token.decrement ∉ ts := by
  induction h with
  | loosen _ _ ih => exact ih
  | _ => simp_all

/-- **The grammar is unambiguous.** -/
theorem Reads.unique {u : Tree} (ht : Reads .loosest ts t) (hu : Reads .loosest ts u) : t = u :=
  Option.some.inj (ht.read_eq.symm.trans hu.read_eq)

end BlockProgram.Grammar
