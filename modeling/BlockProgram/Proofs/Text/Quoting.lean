import BlockProgram.Program.Vocabulary.Text
import BlockProgram.Proofs.Grammar.Token

/-! # Quoted texts read back

A text is quoted as one literal, or as one literal for each line.  In the second form the literals
are terms of a sum, with the literal `'\n'` for each line break between them.  Both forms read back
as the text, whatever is in it (`quoted_exactly`).
-/
namespace BlockProgram.Literal

open List

open Grammar (unquote)

/-- Reads a literal from its opening quote on: what it denotes, and the text behind its closing
quote. -/
def quoted? : List Char → Option (List Char × List Char)
  | '\'' :: cs => unquote cs
  | _ => none

/-- Reads a term of a sum of literals. The letter `n` stands behind a backslash only in the literal
of a line break. -/
def term? : List Char → Option (List Char × List Char)
  | '\'' :: '\\' :: 'n' :: '\'' :: rest => some (['\n'], rest)
  | cs => quoted? cs

/-- The characters are a sum of literals which denote these texts. Blanks may stand around the plus
signs. -/
inductive IsSum : List Char → List (List Char) → Prop
  | last {cs s : List Char} (h : term? cs = some (s, [])) : IsSum cs [s]
  | plus {cs s rest more : List Char} {ss : List (List Char)} (h : term? cs = some (s, rest))
    (hplus : rest.dropWhile Text.isPatternBlank = '+' :: more)
    (hmore : IsSum (more.dropWhile Text.isPatternBlank) ss) : IsSum cs (s :: ss)

/-- How tightly a sum of this many literals binds. -/
def sumPrecedence (terms : Nat) : Precedence := if 1 < terms then .additive else .atomic

theorem IsSum.unique {cs : List Char} {ss ss' : List (List Char)} (h : IsSum cs ss) (h' : IsSum cs ss') : ss' = ss := by
  induction h generalizing ss' with
  | last h =>
    cases h' with
    | last h' => rw [h] at h'; cases h'; rfl
    | plus h' hplus => rw [h] at h'; cases h'; cases hplus
  | plus h hplus _ ih =>
    cases h' with
    | last h' => rw [h] at h'; cases h'; cases hplus
    | plus h' hplus' hmore =>
      rw [h] at h'
      cases h'
      rw [hplus] at hplus'
      cases hplus'
      rw [ih hmore]

theorem quoted?_quoteChars (s rest : List Char) : quoted? (quoteChars s ++ rest) = some (s, rest) := by
  rw [quoteChars, cons_append, append_assoc, singleton_append]
  exact Grammar.unquote_escape s rest

/-- A quoted text does not start like the literal of a line break. -/
theorem term?_quoteChars (s rest : List Char) : term? (quoteChars s ++ rest) = some (s, rest) := by
  rw [← quoted?_quoteChars s rest]
  unfold term?
  split
  · rename_i more heq
    cases s with
    | nil => cases heq
    | cons c s =>
      by_cases hc : c = '\\' || c = '\n' || c = '$' || c = '\'' <;>
        simp only [quoteChars, flatMap_cons, escapeChar, hc] at heq <;> simp_all
  · rfl

theorem isSum_joinQuoted {ls : List (List Char)} (h : ls ≠ []) : IsSum (joinQuoted ls) (ls.intersperse ['\n']) := by
  induction ls with
  | nil => exact absurd rfl h
  | cons l ls ih =>
    cases ls with
    | nil => exact .last ((congrArg term? (append_nil _).symm).trans (term?_quoteChars l []))
    | cons l' ls =>
      have hjoin : joinQuoted (l :: l' :: ls) = quoteChars l ++ (lineJoint ++ joinQuoted (l' :: ls)) := by
        rw [joinQuoted, append_assoc]
        exact cons_ne_nil l' ls
      have hopens : (joinQuoted (l' :: ls)).dropWhile Text.isPatternBlank = joinQuoted (l' :: ls) := by
        cases ls <;> rfl
      rw [hjoin]
      refine .plus (term?_quoteChars l _) rfl (.plus (s := ['\n']) rfl rfl ?_)
      rw [← hopens] at ih
      exact ih (cons_ne_nil l' ls)

theorem splitLines_ne_nil (cs : List Char) : Text.splitLines cs ≠ [] := by
  cases cs with
  | nil => exact cons_ne_nil _ _
  | cons c cs =>
    rw [Text.splitLines]
    split
    · exact cons_ne_nil _ _
    · split <;> exact cons_ne_nil _ _

/-- The lines of a text, with a line break between them, are the text. -/
theorem flatten_intersperse_splitLines (cs : List Char) : ((Text.splitLines cs).intersperse ['\n']).flatten = cs := by
  induction cs with
  | nil => rfl
  | cons c cs ih =>
    have hlines := splitLines_ne_nil cs
    rw [Text.splitLines]
    generalize Text.splitLines cs = ls at hlines ih ⊢
    rcases ls with - | ⟨l, - | ⟨l', ls⟩⟩
    · exact absurd rfl hlines
    · split <;> simp_all
    · split <;> simp_all

/-- **Quoting is exact.** A literal is read up to its end and no further, without a quote, a dollar
sign or a line break on the way that has no backslash, and denotes the text. A text quoted line by
line has one reading as a sum of literals, which denote the text when put together; and the block
for it reports a precedence that is no tighter than that of the sum, and the precedence of sums if
there is more than one literal. -/
theorem quoted_exactly :
    (∀ (s : String) (rest : List Char), quoted? ((quote s).toList ++ rest) = some (s.toList, rest)) ∧
    (∀ s : String, ∃ ss, (∀ ss', IsSum (quoteLines s).toList ss' ↔ ss' = ss) ∧ ss.flatten = s.toList) ∧
    ∀ (scene : Scene) (setting : Setting) (r : Run), ∃ p,
      Vocabulary.textMultiline scene setting r = (.expression (quoteLines (scene.field "TEXT")) p, r) ∧
      ∀ ss, IsSum (quoteLines (scene.field "TEXT")).toList ss →
        (sumPrecedence ss.length).rank ≤ p.rank ∧ (1 < ss.length → p = .additive) := by
  have hsum (s : String) : IsSum (quoteLines s).toList ((Text.splitLines s.toList).intersperse ['\n']) := by
    rw [quoteLines, String.toList_ofList]
    exact isSum_joinQuoted (splitLines_ne_nil _)
  refine ⟨fun s rest => ?_, fun s => ⟨_, fun ss' => ⟨(hsum s).unique, ?_⟩, flatten_intersperse_splitLines _⟩,
    fun scene setting r => ⟨_, rfl, fun ss hss => ?_⟩⟩
  · rw [quote, String.toList_ofList]
    exact quoted?_quoteChars s.toList rest
  · rintro rfl
    exact hsum s
  · -- more than one literal only come from more than one line, and then there is a plus sign between them
    have hplus : 1 < ss.length → (quoteLines (scene.field "TEXT")).toList.contains '+' = true := by
      intro hlength
      rw [(hsum _).unique hss] at hlength
      rw [quoteLines, String.toList_ofList]
      generalize Text.splitLines (scene.field "TEXT").toList = ls at hlength
      rcases ls with - | ⟨l, - | ⟨l', ls⟩⟩
      · exact absurd hlength (Nat.not_lt_zero 1)
      · exact absurd hlength (Nat.lt_irrefl 1)
      · have hmem : '+' ∈ lineJoint := by decide
        simp [joinQuoted, hmem]
    have hrank : Precedence.atomic.rank ≤ Precedence.additive.rank := by decide
    unfold sumPrecedence
    split <;> split <;> simp_all

end BlockProgram.Literal
