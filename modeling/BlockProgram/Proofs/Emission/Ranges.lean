import BlockProgram.Proofs.Emission.Indexing

/-! # Parts of lists and texts

A part has two positions: that of its first item, and the one behind its last item.  Both are
written into the call that cuts the part out, unless a list or text would have to be mentioned twice
that must not be; then a helper function is called with the modes and the numbers, and computes the
positions.

`Block.positions_evaluate` puts together what holds of all blocks that have positions.  Counted from
the start every position is right.  Counted from the end it is wrong in one case: where the index
need not be moved, it stands behind a minus sign as it is, and if it is a sum or a difference, the
sign is taken for its first term only (`Block.positions_evaluate_sumFromEnd`).
-/
namespace BlockProgram

open Grammar (Tree Operator)
open Vocabulary

variable {setting : Setting} {sure : Prop}

/-! ### Helper functions -/

/-- A helper function that cuts a part out of a list or text. -/
structure RangeHelper where
  key : String
  lines : List String
  subject : Word
  operation : String
  type : String
  /-- The subjects that may be mentioned twice instead. -/
  mayRepeat : String → Bool
  tail_lines : lines.tail = rangeBody subject.text operation type

namespace RangeHelper

def sublist : RangeHelper where
  key := "lists_get_sublist"
  lines := sublistLines
  subject := { text := "list" }
  operation := "sublist"
  type := "lists_getSublist"
  mayRepeat := Literal.isWord
  tail_lines := rfl

def substring : RangeHelper where
  key := "text_get_substring"
  lines := substringLines
  subject := EndHelper.letter.subject
  operation := "substring"
  type := "text_getSubstring"
  mayRepeat := Literal.isSimpleText
  tail_lines := rfl

/-- The position counted from the end, as the body of the function has it. -/
def formula (h : RangeHelper) : String := h.subject.text ++ ".length - 1 - at"

/-- For this argument the function finds the position of the index in a socket, counted as the mode
says. -/
def Finds (h : RangeHelper) (setting : Setting) (o : Operand) (r : Run) (mode i : String) : Prop :=
  (mode = "FROM_START" → FromStart setting o r false i) ∧
    (mode = "FROM_END" → ∀ e, o.IndexOf setting e → ∀ ρ x L, e.eval (r.valuation ρ) = .ok (.number x) →
      ∃ y, Evaluates (r.environment ρ).ofName i y ∧
        EvaluatesWithin (Function.update (r.environment ρ).ofName "at" (.number y)) h.subject.text L
          h.formula (L - 1 - (x - setting.base)))

theorem evaluatesWithin_formula (h : RangeHelper) (σ : String → Value) (L y : ℚ) :
    EvaluatesWithin (Function.update σ "at" (.number y)) h.subject.text L h.formula (L - 1 - y) := by
  let taken : Code := .binary .subtract (.number .one) (.name { text := "at" })
  have hprint : Precedence.enclose taken.print taken.precedence .additive = "1 - at" := by
    decide +kernel
  have hformula : h.formula = h.subject.text ++ ".length - " ++
      Precedence.enclose taken.print taken.precedence .additive := by
    rw [hprint, String.append_assoc]
    rfl
  rw [hformula]
  refine evaluatesWithin_code taken fun E m hE hm => ?_
  have hat : (Tree.name "at").eval E = .ok (.number y) := by
    show Outcome.ok (E.ofName "at") = _
    rw [hE, Function.update_self]
  have hone : Constant.one.tree.eval E = .ok (.number 1) := by
    rw [Constant.eval_tree, Constant.toRat_one]
  -- the first minus sign is in front of the one, so the difference groups to the left
  unfold Tree.eval
  refine Outcome.combine_eq_number.mpr ⟨L - 1, y, ?_, hat, rfl⟩
  unfold Tree.eval
  exact Outcome.combine_eq_number.mpr ⟨L, 1, hm, hone, rfl⟩

/-- An argument counted from zero is what the function needs in either mode. -/
theorem finds_of_fromStart (h : RangeHelper) {o : Operand} {r : Run} {i : String}
    (hi : FromStart setting o r false i) (mode : String) : h.Finds setting o r mode i := by
  refine ⟨fun _ => hi, fun _ e he ρ x L hx => ⟨_, hi e he ρ x hx, ?_⟩⟩
  convert h.evaluatesWithin_formula _ L _ using 1
  simp

/-- Whether the function is called for a part of `subject`: the subject would have to be mentioned
once more for its length, and must not be. -/
def isCalled (h : RangeHelper) (subject mode₁ mode₂ : String) : Bool :=
  !h.mayRepeat subject && isRepeated mode₁ mode₂

/-- Cuts a part out of `subject`, by the function or in place. -/
def cut (h : RangeHelper) (s : Scene) (subject : String) : Emit Fragment :=
  cutRange s h.key h.lines h.operation h.mayRepeat subject

/-- What the code is that cuts a part out of `subject`: a call of the function with both indices
counted from zero, or a call with both positions. -/
def IsCut (h : RangeHelper) (setting : Setting) (subject mode₁ mode₂ : String) (o₁ o₂ : Operand) (code : Fragment)
    (r : Run) : Prop :=
  if h.isCalled subject mode₁ mode₂ then
    ∃ i j, code = .expression ((r.naming.ofHelper h.key).text ++ "(" ++ subject ++ ", '" ++ mode₁ ++ "', " ++ i ++
        ", '" ++ mode₂ ++ "', " ++ j ++ ")") .unaryPostfix ∧
      FromStart setting o₁ r false i ∧ FromStart setting o₂ r false j
  else
    ∃ first behind, code = .expression (subject ++ "." ++ h.operation ++ "(" ++
        (if mode₂ = "LAST" then first else first ++ ", " ++ behind) ++ ")") .unaryPostfix ∧
      Counts setting o₁ r false mode₁ subject first ∧ Counts setting o₂ r true mode₂ subject behind ∧
      (mode₁ = "FIRST" → first = "0")

end RangeHelper

/-! ### Ranges -/

/-- Code with a part: its positions are written into the code itself, or one of the helper functions
finds them. A part up to the end has no second position. -/
def AtRange (setting : Setting) (h : RangeHelper) (mode₁ mode₂ : String) (o₁ o₂ : Operand)
    (code : Fragment) (r : Run) : Prop :=
  (∃ subject first behind, (mode₁ = "FROM_END" ∨ mode₂ = "FROM_END" → h.mayRepeat subject = true) ∧
    code = .expression (subject ++ "." ++ h.operation ++ "(" ++
      (if mode₂ = "LAST" then first else first ++ ", " ++ behind) ++ ")") .unaryPostfix ∧
    Counts setting o₁ r false mode₁ subject first ∧ Counts setting o₂ r true mode₂ subject behind) ∨
  ∃ subject i j, code = .expression ((r.naming.ofHelper h.key).text ++ "(" ++ subject ++ ", '" ++ mode₁ ++
      "', " ++ i ++ ", '" ++ mode₂ ++ "', " ++ j ++ ")") .unaryPostfix ∧
    h.Finds setting o₁ r mode₁ i ∧ h.Finds setting o₂ r mode₂ j

theorem RangeHelper.IsCut.atRange {h : RangeHelper} {subject mode₁ mode₂ : String} {o₁ o₂ : Operand}
    {code : Fragment} {r : Run} (hcut : h.IsCut setting subject mode₁ mode₂ o₁ o₂ code r) :
    AtRange setting h mode₁ mode₂ o₁ o₂ code r := by
  unfold IsCut at hcut
  split at hcut
  · obtain ⟨i, j, hcode, hi, hj⟩ := hcut
    exact .inr ⟨subject, i, j, hcode, h.finds_of_fromStart hi mode₁, h.finds_of_fromStart hj mode₂⟩
  · rename_i hinline
    obtain ⟨first, behind, hcode, hfirst, hbehind, -⟩ := hcut
    refine .inl ⟨subject, first, behind, fun hend => ?_, hcode, hfirst, hbehind⟩
    unfold isCalled isRepeated at hinline
    grind

/-- A block with a part of a list or text. -/
structure RangeBlock where
  helper : RangeHelper
  /-- Where the list or text is plugged in, and what counts for an empty socket. -/
  socket : String
  fallback : String
  /-- How loosely the list or text may bind, by the modes of the block. -/
  level : String → String → Precedence
  /-- The modes for which nothing is cut. -/
  isWhole : String → String → Bool

namespace RangeBlock

def sublist : RangeBlock where
  helper := .sublist
  socket := "LIST"
  fallback := Literal.emptyList
  level _ _ := .unaryPostfix
  isWhole _ _ := false

def substring : RangeBlock where
  helper := .substring
  socket := "STRING"
  fallback := Literal.emptyText
  level mode₁ mode₂ := if isRepeated mode₁ mode₂ then .loosest else .unaryPostfix
  isWhole mode₁ mode₂ := mode₁ = "FIRST" && mode₂ = "LAST"

def subject (k : RangeBlock) (s : Scene) : Emit String :=
  Emit.valueOrElse s k.socket (k.level (s.field "WHERE1") (s.field "WHERE2")) k.fallback

def emit (k : RangeBlock) (s : Scene) : Emit Fragment :=
  cutPart (k.subject s) (k.isWhole (s.field "WHERE1") (s.field "WHERE2")) (k.helper.cut s)

theorem emit_sublist (s : Scene) : sublist.emit s = listsGetSublist s := rfl

theorem emit_substring (s : Scene) : substring.emit s = textGetSubstring s := rfl

end RangeBlock

/-- A mode that is no way to count. -/
theorem Counts.of_other {o : Operand} {r : Run} {behind : Bool} {mode subject p : String}
    (hstart : mode ≠ "FROM_START") (hend : mode ≠ "FROM_END") : Counts setting o r behind mode subject p :=
  ⟨fun h => absurd h hstart, fun h => absurd h hend⟩

section

variable {b : Block} {place : Place}

/-- A step that fails and gives nothing. -/
theorem leads_failNone (s : Scene) (detail : String) (hsure : ¬ sure) (P : Option String → Run → Prop) :
    Leads setting sure (do
      let _ ← Emit.fail .option s.data detail
      return none) P :=
  ((Leads.fail .option s.data detail hsure fun _ _ => False).bind fun _ =>
    .pure none (P := fun _ _ => True) fun _ => trivial).mono fun _ _ _ ⟨_, h, _⟩ => h.elim

section

variable (name : String) (hindex : sure → ∃ e, (b.operand name).IndexOf setting e) (behind : Bool)
  (subject : String)

include hindex

theorem leads_countsFromStart : Leads setting sure (do
      let i ← Emit.adjusted (b.stage place) name (if behind then 1 else 0) false .loosest
      return some i) fun p r =>
        ∃ i, p = some i ∧ Counts setting (b.operand name) r behind "FROM_START" subject i := by
  refine ((leads_fromStart b place name hindex behind).bind fun i =>
    .pure _ (P := fun p _ => p = some i) fun _ => rfl).mono ?_
  rintro p r - ⟨i, hi, rfl⟩
  exact ⟨i, rfl, .fromStart hi subject⟩

theorem leads_countsFromEnd : Leads setting sure (do
      let i ← Emit.adjusted (b.stage place) name (if !behind then 1 else 0) false .additive
      return some (subject ++ ".length - " ++ i)) fun p r =>
        ∃ i, p = some i ∧ Counts setting (b.operand name) r behind "FROM_END" subject i := by
  refine ((leads_fromEnd b place name hindex behind).bind fun i =>
    .pure _ (P := fun p _ => p = some (subject ++ ".length - " ++ i)) fun _ => rfl).mono ?_
  rintro p r - ⟨i, ⟨-, hi⟩, rfl⟩
  exact ⟨_, rfl, .fromEnd (hi subject)⟩

end

theorem leads_rangeStart (subject mode : String)
    (hindex : sure → ∃ e, (b.operand "AT1").IndexOf setting e)
    (hmode : sure → mode ∈ ["FROM_START", "FROM_END", "FIRST"]) :
    Leads setting sure (rangeStart (b.stage place) subject mode) fun p r =>
      ∃ first, p = some first ∧ Counts setting (b.operand "AT1") r false mode subject first ∧
        (mode = "FIRST" → first = "0") := by
  unfold rangeStart
  split
  · refine (leads_countsFromStart "AT1" hindex false subject).mono ?_
    rintro p r - ⟨i, hp, hi⟩
    exact ⟨i, hp, hi, by simp⟩
  · refine (leads_countsFromEnd "AT1" hindex false subject).mono ?_
    rintro p r - ⟨i, hp, hi⟩
    exact ⟨i, hp, hi, by simp⟩
  · exact .pure _ fun r => ⟨_, rfl, .of_other (by decide) (by decide), fun _ => rfl⟩
  · exact leads_failNone _ _ (by grind) _

theorem leads_rangeEnd (subject mode : String)
    (hindex : sure → ∃ e, (b.operand "AT2").IndexOf setting e)
    (hmode : sure → mode ∈ ["FROM_START", "FROM_END", "LAST"]) :
    Leads setting sure (rangeEnd (b.stage place) subject mode) fun p r =>
      ∃ behind, p = some behind ∧ Counts setting (b.operand "AT2") r true mode subject behind := by
  unfold rangeEnd
  split
  · exact leads_countsFromStart "AT2" hindex true subject
  · exact leads_countsFromEnd "AT2" hindex true subject
  · exact .pure _ fun r => ⟨_, rfl, .of_other (by decide) (by decide)⟩
  · exact leads_failNone _ _ (by grind) _

variable (h : RangeHelper) (subject : String)
  (hindex₁ : sure → ∃ e, (b.operand "AT1").IndexOf setting e)
  (hindex₂ : sure → ∃ e, (b.operand "AT2").IndexOf setting e)
  (hmode₁ : sure → (b.stage place).field "WHERE1" ∈ ["FROM_START", "FROM_END", "FIRST"])
  (hmode₂ : sure → (b.stage place).field "WHERE2" ∈ ["FROM_START", "FROM_END", "LAST"])

include hindex₁ hindex₂ hmode₁ hmode₂

theorem leads_cut : Leads setting sure (h.cut (b.stage place) subject)
      (h.IsCut setting subject ((b.stage place).field "WHERE1")
        ((b.stage place).field "WHERE2") (b.operand "AT1") (b.operand "AT2")) := by
  unfold RangeHelper.cut cutRange RangeHelper.IsCut RangeHelper.isCalled
  dsimp only
  generalize (b.stage place).field "WHERE1" = mode₁ at hmode₁ ⊢
  generalize (b.stage place).field "WHERE2" = mode₂ at hmode₂ ⊢
  split
  · refine ((leads_fromStart b place "AT1" hindex₁ false).bind fun i =>
      (leads_fromStart b place "AT2" hindex₂ false).bind fun j =>
        (Leads.of_yields (gives_addHelper h.key h.lines)).bind fun name =>
          .pure _ (P := fun code _ => code = .expression (name ++ "(" ++ subject ++ ", '" ++ mode₁ ++ "', " ++
            i ++ ", '" ++ mode₂ ++ "', " ++ j ++ ")") .unaryPostfix) fun _ => rfl).mono ?_
    rintro code r - ⟨i, hi, j, hj, name, ⟨rfl, -⟩, rfl⟩
    exact ⟨i, j, rfl, hi, hj⟩
  · unfold inlineRange
    -- what the code is once both positions are known
    let Cuts (first behind : String) (code : Fragment) : Prop :=
      code = .expression (subject ++ "." ++ h.operation ++ "(" ++
        (if mode₂ = "LAST" then first else first ++ ", " ++ behind) ++ ")") .unaryPostfix
    refine ((leads_rangeStart subject mode₁ hindex₁ hmode₁).bind (R := fun p code r => ∀ first, p = some first →
        ∃ behind, Counts setting (b.operand "AT2") r true mode₂ subject behind ∧ Cuts first behind code)
      fun p => ?_).mono ?_
    · cases p with
      | none => exact .pure _ fun r => nofun
      | some first =>
        refine ((leads_rangeEnd subject mode₂ hindex₂ hmode₂).bind
          (R := fun q code _ => ∀ behind, q = some behind → Cuts first behind code) fun q => ?_).mono ?_
        · cases q with
          | none => exact .pure _ fun r => nofun
          | some behind =>
            refine .pure _ fun r => ?_
            rintro _ ⟨⟩
            rfl
        · rintro code r - ⟨q, ⟨behind, rfl, hcounts⟩, hcuts⟩ _ ⟨⟩
          exact ⟨behind, hcounts, hcuts behind rfl⟩
    · rintro code r - ⟨p, ⟨first, rfl, hfirst, hzero⟩, hrest⟩
      obtain ⟨behind, hbehind, hcode⟩ := hrest first rfl
      exact ⟨first, behind, hcode, hfirst, hbehind, hzero⟩

theorem leads_listsGetSublist (hlist : sure → (b.stage place).Answers setting "LIST") :
    Leads setting sure (listsGetSublist (b.stage place))
      (AtRange setting .sublist ((b.stage place).field "WHERE1")
        ((b.stage place).field "WHERE2") (b.operand "AT1") (b.operand "AT2")) :=
  (Scene.Answers.leads hlist _ _).andThen fun list =>
    (leads_cut .sublist list hindex₁ hindex₂ hmode₁ hmode₂).mono fun _ _ _ hcut => hcut.atRange

theorem leads_textGetSubstring (htext : sure → (b.stage place).Answers setting "STRING")
    (hpart : ¬ ((b.stage place).field "WHERE1" = "FIRST" ∧
      (b.stage place).field "WHERE2" = "LAST")) :
    Leads setting sure (textGetSubstring (b.stage place))
      (AtRange setting .substring ((b.stage place).field "WHERE1")
        ((b.stage place).field "WHERE2") (b.operand "AT1") (b.operand "AT2")) := by
  rw [← RangeBlock.emit_substring]
  refine (Scene.Answers.leads htext _ _).andThen fun text => ?_
  rw [if_neg (by simpa [RangeBlock.substring] using hpart)]
  exact (leads_cut .substring text hindex₁ hindex₂ hmode₁ hmode₂).mono fun _ _ _ hcut => hcut.atRange

end

/-! ### All blocks with positions -/

/-- An index can be had from the socket. -/
def Block.Indexed (setting : Setting) (b : Block) (name : String) : Prop :=
  ∃ e, (b.operand name).IndexOf setting e

/-- What holds of the positions in the code of a block, whichever of the types with positions it
has. Each part also says when the handler is sure not to fail. -/
structure Block.PositionsEvaluate (setting : Setting) (b : Block) (place : Place) : Prop where
  /-- Reading, taking out or removing an item. -/
  accessed : b.type = "lists_getIndex" → ∀ h, Vocabulary.standard.get? b.type = some h →
    fieldOr (b.stage place) "WHERE" "FROM_START" ∈ ["FROM_START", "FROM_END"] →
    Leads setting
      (b.Indexed setting "AT" ∧
        fieldOr (b.stage place) "MODE" "GET" ∈ ["GET", "GET_REMOVE", "REMOVE"] ∧
        (b.stage place).Answers setting "VALUE")
      (h.emit (b.stage place))
      (AtPosition setting [.getItem, .takeItem]
        (fieldOr (b.stage place) "WHERE" "FROM_START") (b.operand "AT"))
  /-- Setting or inserting an item. -/
  stored : b.type = "lists_setIndex" → ∀ h, Vocabulary.standard.get? b.type = some h →
    fieldOr (b.stage place) "WHERE" "FROM_START" ∈ ["FROM_START", "FROM_END"] →
    Leads setting
      (b.Indexed setting "AT" ∧ fieldOr (b.stage place) "MODE" "GET" ∈ ["SET", "INSERT"] ∧
        (b.stage place).Answers setting "LIST" ∧
        (b.stage place).Answers setting "TO")
      (h.emit (b.stage place))
      (AtPosition setting [] (fieldOr (b.stage place) "WHERE" "FROM_START") (b.operand "AT"))
  /-- Reading a letter. -/
  letter : b.type = "text_charAt" → ∀ h, Vocabulary.standard.get? b.type = some h →
    fieldOr (b.stage place) "WHERE" "FROM_START" ∈ ["FROM_START", "FROM_END"] →
    Leads setting
      (b.Indexed setting "AT" ∧ (b.stage place).Answers setting "VALUE")
      (h.emit (b.stage place))
      (AtPosition setting [.letter] (fieldOr (b.stage place) "WHERE" "FROM_START")
        (b.operand "AT"))
  /-- A part of a list. -/
  sublist : b.type = "lists_getSublist" → ∀ h, Vocabulary.standard.get? b.type = some h →
    Leads setting
      (b.Indexed setting "AT1" ∧ b.Indexed setting "AT2" ∧
        b.data.fieldValue "WHERE1" ∈ ["FROM_START", "FROM_END", "FIRST"] ∧
        b.data.fieldValue "WHERE2" ∈ ["FROM_START", "FROM_END", "LAST"] ∧
        (b.stage place).Answers setting "LIST")
      (h.emit (b.stage place))
      (AtRange setting .sublist (b.data.fieldValue "WHERE1") (b.data.fieldValue "WHERE2")
        (b.operand "AT1") (b.operand "AT2"))
  /-- A part of a text that is not the whole text. -/
  substring : b.type = "text_getSubstring" → ∀ h, Vocabulary.standard.get? b.type = some h →
    ¬ (b.data.fieldValue "WHERE1" = "FIRST" ∧ b.data.fieldValue "WHERE2" = "LAST") →
    Leads setting
      (b.Indexed setting "AT1" ∧ b.Indexed setting "AT2" ∧
        b.data.fieldValue "WHERE1" ∈ ["FROM_START", "FROM_END", "FIRST"] ∧
        b.data.fieldValue "WHERE2" ∈ ["FROM_START", "FROM_END", "LAST"] ∧
        (b.stage place).Answers setting "STRING")
      (h.emit (b.stage place))
      (AtRange setting .substring (b.data.fieldValue "WHERE1") (b.data.fieldValue "WHERE2")
        (b.operand "AT1") (b.operand "AT2"))

/-- **Positions evaluate to what their blocks say**, but for sums and differences that are counted
from the end and need not be moved (`FromEnd`). -/
theorem Block.positions_evaluate (setting : Setting) (b : Block) (place : Place) :
    b.PositionsEvaluate setting place where
  accessed htype h hh hposition := by
    rw [htype] at hh
    obtain rfl := Option.some.inj hh
    exact leads_listsGetIndex (·.1) hposition (·.2.1) (·.2.2)
  stored htype h hh hposition := by
    rw [htype] at hh
    obtain rfl := Option.some.inj hh
    exact leads_listsSetIndex (·.1) hposition (·.2.1) (·.2.2.1) (·.2.2.2)
  letter htype h hh hposition := by
    rw [htype] at hh
    obtain rfl := Option.some.inj hh
    exact leads_textCharAt (·.1) hposition (·.2)
  sublist htype h hh := by
    rw [htype] at hh
    obtain rfl := Option.some.inj hh
    exact leads_listsGetSublist (·.1) (·.2.1) (·.2.2.1) (·.2.2.2.1) (·.2.2.2.2)
  substring htype h hh hpart := by
    rw [htype] at hh
    obtain rfl := Option.some.inj hh
    exact leads_textGetSubstring (·.1) (·.2.1) (·.2.2.1) (·.2.2.2.1) (·.2.2.2.2) hpart

/-- The item of a list at `a + b`, counted from the end. -/
def Block.sumFromEnd : Block :=
  simple "lists_getIndex" [("MODE", "GET"), ("WHERE", "FROM_END")]
    [("VALUE", simple "variables_get" [("VAR", "list")] []),
      ("AT", simple "math_arithmetic" [("OP", "ADD")]
        [("A", simple "variables_get" [("VAR", "a")] []),
          ("B", simple "variables_get" [("VAR", "b")] [])])]

/-- Positions count from one, so the index need not be moved, and its second term is added to the
length. -/
theorem Block.positions_evaluate_sumFromEnd : ∃ code r',
      listsGetIndex (sumFromEnd.stage {}) ({} : Generator).setting
        (({} : Generator).start {}) = (code, r') ∧
      r'.failure = none ∧ code = .expression "list[list.length - a + b]" .unaryPostfix ∧
      AtPosition ({} : Generator).setting [.getItem, .takeItem] "FROM_END" (sumFromEnd.operand "AT")
        code r' := by
  have hgood := Generator.good_start {} (List.Subset.refl _) {}
  have hindex : sumFromEnd.Indexed ({} : Generator).setting "AT" :=
    ⟨.binary .add (.reference "a") (.reference "b"), rfl, .binary rfl (.reference _) (.reference _), rfl⟩
  have hoperand : sumFromEnd.operand "VALUE" = .filled (.reference "list") := rfl
  have hlist : (sumFromEnd.stage {}).Answers ({} : Generator).setting "VALUE" := by
    intro outer r hr
    obtain ⟨r', hvalue, hfollows, -⟩ := sumFromEnd.value_eq {} outer hoperand hr
    rw [hvalue]
    exact hfollows.running
  obtain ⟨code, r', hemit, hextends, hsure, hposition⟩ :=
    (positions_evaluate ({} : Generator).setting sumFromEnd {}).accessed rfl ⟨listsGetIndex, {}⟩ rfl
      (by decide +kernel) (({} : Generator).start {}) hgood.toOrderly
  have hrunning := hsure ⟨hindex, by decide +kernel, hlist⟩ hgood.running
  have hfollows : r'.Follows r' := Run.Good.follows ⟨hextends.orderly, hrunning⟩
  have htext : (listsGetIndex (sumFromEnd.stage {}) ({} : Generator).setting
      (({} : Generator).start {})).1 = .expression "list[list.length - a + b]" .unaryPostfix := by
    decide +kernel
  refine ⟨code, r', hemit, hrunning, ?_, hposition hrunning r' hfollows⟩
  rw [← htext]
  exact (congrArg Prod.fst hemit).symm

end BlockProgram
