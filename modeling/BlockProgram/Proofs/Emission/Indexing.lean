import BlockProgram.Proofs.Emission.Positions

/-! # Positions in lists and texts

Which position the blocks for items of lists, letters of texts and parts of both write into their
code.
-/
namespace BlockProgram

open Grammar (Tree Operator)
open Vocabulary

variable {setting : Setting} {sure : Prop}

/-! ### Lists in fresh variables -/

instance (list : String) : Acts setting (holdList list) := by
  unfold holdList
  infer_instance

instance (list : String) : Acts setting (cachedList list) := by
  unfold cachedList
  split <;> infer_instance

/-- What stands in front of code that mentions `subject`: nothing, or the declaration of a variable
that holds a list, under a name that no variable of the index has. -/
inductive Declares (setting : Setting) (o : Operand) (r : Run) (subject : String) : String → Prop
  | nothing : Declares setting o r subject ""
  | held (list : String) (hword : NameTable.isIdentifier subject = true)
    (hfresh : ∀ e, o.IndexOf setting e → ∀ v ∈ e.variables, (r.naming.ofVariable v).text ≠ subject) :
    Declares setting o r subject ("List " ++ subject ++ " = " ++ list ++ ";\n")

theorem isWord_of_isIdentifier {w : String} (h : NameTable.isIdentifier w = true) : Literal.isWord w = true := by
  obtain ⟨c, cs, hw, hc, hcs⟩ := NameTable.isIdentifier_iff.mp h
  unfold Literal.isWord
  rw [hw]
  simp [NameTable.isWordChar_of_isInitial hc, hcs, -List.all_eq_true]

/-- The list and its mention, once the variables of the index have their identifiers. -/
def Holds (setting : Setting) (o : Operand) (r : Run) (held : String × String) : Prop :=
  Literal.isWord held.2 = true ∧ Declares setting o r held.2 held.1

section

variable {r : Run} (hr : r.Good) {o : Operand} (ho : o.Settled setting r) (list : String)

include hr ho

theorem leadsFrom_holdList : LeadsFrom setting sure r (holdList list) fun held r' => Holds setting o r' held := by
  have hextends := hr.toOrderly.extends_distinct "tmp_list" .userVariable
  refine ⟨_, _, rfl, hextends, fun _ => id, fun _ r'' h'' => ?_⟩
  have hfollows : r.Follows r'' := Run.Follows.trans ⟨hextends, hr.running⟩ h''
  have hidentifier := NameTable.isIdentifier_freeName r.names "tmp_list" .userVariable true
  refine ⟨isWord_of_isIdentifier hidentifier, .held list hidentifier fun e he v hv heq => ?_⟩
  -- the name was free when the variable already had its own
  obtain ⟨entry, hentry⟩ := ho e he v hv
  rw [(hfollows.isEntry hentry).text_ofVariable h''.good] at heq
  have hfree := NameTable.isTaken_eq_false_iff.mp
    (NameTable.isTaken_freeName r.names "tmp_list" .userVariable true)
  cases (hfree.2 _ (hr.names.entries_taken entry hentry.1) heq).1

theorem leadsFrom_cachedList : LeadsFrom setting sure r (cachedList list) fun held r' => Holds setting o r' held := by
  unfold cachedList
  split
  · rename_i hword
    exact Leads.pure _ (fun _ => ⟨hword, .nothing⟩) r hr.toOrderly
  · exact leadsFrom_holdList hr ho list

end

/-! ### Items and letters -/

/-- The code reads, takes out, removes, sets or inserts the item of `subject` at this position. -/
inductive Accesses (declares : String → Prop) (subject p : String) : Fragment → Prop
  | read : Accesses declares subject p (.expression (subject ++ "[" ++ p ++ "]") .unaryPostfix)
  | take : Accesses declares subject p
      (.expression (subject ++ ".removeAt(" ++ p ++ ")") .unaryPostfix)
  | remove {d : String} (hd : declares d) :
    Accesses declares subject p (.statement (d ++ subject ++ ".removeAt(" ++ p ++ ");\n"))
  | set {d : String} (hd : declares d) (value : String) :
    Accesses declares subject p (.statement (d ++ subject ++ "[" ++ p ++ "] = " ++ value ++ ";\n"))
  | insert {d : String} (hd : declares d) (value : String) :
    Accesses declares subject p
      (.statement (d ++ subject ++ ".insert(" ++ p ++ ", " ++ value ++ ");\n"))

section

variable {declares : String → Prop} {subject p : String} (h : declares "") (value : String)
include h

theorem Accesses.set_itself :
    Accesses declares subject p (.statement (subject ++ "[" ++ p ++ "] = " ++ value ++ ";\n")) := by
  have hset : Accesses declares subject p _ := .set h value
  rwa [String.empty_append] at hset

theorem Accesses.insert_itself : Accesses declares subject p
    (.statement (subject ++ ".insert(" ++ p ++ ", " ++ value ++ ");\n")) := by
  have hinsert : Accesses declares subject p _ := .insert h value
  rwa [String.empty_append] at hinsert

end

/-- A helper function of a list or text and a number `x`, in which a line takes `x` from the
length. -/
structure EndHelper where
  key : String
  lines : List String
  subject : Word
  before : String
  after : String
  mem_lines : before ++ (subject.text ++ ".length - x") ++ after ∈ lines

namespace EndHelper

def getItem : EndHelper where
  key := "lists_get_from_end"
  lines := getFromEndLines
  subject := { text := "my_list" }
  before := "  x = "
  after := ";"
  mem_lines := by decide +kernel

def takeItem : EndHelper where
  key := "lists_remove_from_end"
  lines := removeFromEndLines
  subject := { text := "my_list" }
  before := "  x = "
  after := ";"
  mem_lines := by decide +kernel

def letter : EndHelper where
  key := "text_get_from_end"
  lines := fromEndLines
  subject := { text := "text" }
  before := "  return text["
  after := "];"
  mem_lines := by decide +kernel

def formula (h : EndHelper) : String := h.subject.text ++ ".length - x"

/-- The code calls the helper with a number for which the formula gives the position of the index,
counted from the end. -/
def Calls (h : EndHelper) (setting : Setting) (o : Operand) (r : Run) (code : Fragment) : Prop :=
  ∃ list i, code = .expression ((r.naming.ofHelper h.key).text ++ "(" ++ list ++ ", " ++ i ++ ")")
      .unaryPostfix ∧
    ∀ e, o.IndexOf setting e → ∀ ρ x L, e.eval (r.valuation ρ) = .ok (.number x) →
      ∃ y, Evaluates (r.environment ρ).ofName i y ∧
        EvaluatesWithin (Function.update (r.environment ρ).ofName "x" (.number y)) h.subject.text L
          h.formula (L - 1 - (x - setting.base))

end EndHelper

/-- The text is a position of the index in a socket, or the one behind it, counted as the mode
says. -/
def Counts (setting : Setting) (o : Operand) (r : Run) (behind : Bool) (mode subject p : String) : Prop :=
  (mode = "FROM_START" → FromStart setting o r behind p) ∧
    (mode = "FROM_END" → FromEnd setting o r behind subject p)

theorem Counts.fromStart {o : Operand} {r : Run} {behind : Bool} {p : String}
    (h : FromStart setting o r behind p) (subject : String) : Counts setting o r behind "FROM_START" subject p :=
  ⟨fun _ => h, fun hmode => absurd hmode (by decide)⟩

theorem Counts.fromEnd {o : Operand} {r : Run} {behind : Bool} {subject p : String}
    (h : FromEnd setting o r behind subject p) : Counts setting o r behind "FROM_END" subject p :=
  ⟨fun hmode => absurd hmode (by decide), fun _ => h⟩

/-- Code with the item at a position: it is written into the code itself or, counted from the end,
computed by one of these helpers. A subject that is mentioned once more for its length is a word. -/
def AtPosition (setting : Setting) (helpers : List EndHelper) (position : String) (o : Operand)
    (code : Fragment) (r : Run) : Prop :=
  (∃ subject p, (position = "FROM_END" → Literal.isWord subject = true) ∧
    Accesses (Declares setting o r subject) subject p code ∧
    Counts setting o r false position subject p) ∨
  position = "FROM_END" ∧ ∃ h ∈ helpers, h.Calls setting o r code

theorem evaluatesWithin_code {σ : String → Value} {subject : String} {L v : ℚ} (a : Code)
    (h : ∀ (E : Environment) (m : Tree), E.ofName = σ → m.eval E = .ok (.number L) →
    (Tree.graft .minus m a.tree).eval E = .ok (.number v)) : EvaluatesWithin σ subject L
      (subject ++ ".length - " ++ Precedence.enclose a.print a.precedence .additive) v := by
  intro ls l hs hl E hE hlength
  exact ⟨_, (readText_behind_length hs hl a).1, h E _ hE hlength⟩

theorem EndHelper.evaluatesWithin_formula (h : EndHelper) (σ : String → Value) (L y : ℚ) :
    EvaluatesWithin (Function.update σ "x" (.number y)) h.subject.text L h.formula (L - y) := by
  have hformula : h.formula = h.subject.text ++ ".length - " ++ "x" := by
    rw [String.append_assoc]
    rfl
  rw [hformula]
  refine evaluatesWithin_code (.name { text := "x" }) fun E m hE hm => ?_
  have hx : (Tree.name "x").eval E = .ok (.number y) := by
    show Outcome.ok (E.ofName "x") = _
    rw [hE, Function.update_self]
  show (Tree.binary .minus m (.name "x")).eval E = _
  unfold Tree.eval
  rw [hm, hx]
  exact Outcome.combine_eq_number.mpr ⟨L, y, rfl, rfl, rfl⟩

section

variable {b : Block} {place : Place}

theorem leads_accessItem (o : Operand) (s : Scene) {mode : String} (position list p : String)
    {get take : String} (hget : get = "[" ++ p ++ "]") (htake : take = ".removeAt(" ++ p ++ ")")
    (hmode : sure → mode ∈ ["GET", "GET_REMOVE", "REMOVE"]) :
    Leads setting sure (accessItem s mode position list get take) fun code r =>
      Accesses (Declares setting o r list) list p code := by
  unfold accessItem
  split
  · refine .pure _ fun r => ?_
    rw [hget, ← String.append_assoc, ← String.append_assoc]
    exact .read
  · refine .pure _ fun r => ?_
    rw [htake, ← String.append_assoc, ← String.append_assoc]
    exact .take
  · refine .pure _ fun r => ?_
    have htext : list ++ take ++ ";\n" = "" ++ list ++ ".removeAt(" ++ p ++ ");\n" := by
      have hclose : ");\n" = ")" ++ ";\n" := rfl
      rw [htake, hclose, String.empty_append]
      simp only [String.append_assoc]
    rw [htext]
    exact .remove .nothing
  · exact .fail _ _ _ (by grind) _

theorem leads_fromEndCall (h : EndHelper) (list : String)
    (hindex : sure → ∃ e, (b.operand "AT").IndexOf setting e) :
    Leads setting sure (fromEndCall (b.stage place) h.key h.lines list) fun code r =>
      h.Calls setting (b.operand "AT") r code := by
  refine ((leads_fromStart b place "AT" hindex true).bind fun i =>
    (Leads.of_yields (gives_addHelper h.key h.lines)).bind fun name =>
      .pure _ (P := fun code _ => code = .expression (name ++ "(" ++ list ++ ", " ++ i ++ ")")
        .unaryPostfix) fun _ => rfl).mono ?_
  rintro code r hr ⟨i, hi, name, ⟨rfl, -⟩, rfl⟩
  refine ⟨list, i, rfl, fun e he ρ x L hx => ⟨_, hi e he ρ x hx, ?_⟩⟩
  convert h.evaluatesWithin_formula _ L _ using 1
  simp only [if_true]
  ring

/-- A position counted from the end, in code that may have to hold the list in a variable. -/
theorem leads_fromEnd_held (helpers : List EndHelper) {hold : Emit (String × String)}
    [Acts setting hold] {g : String → String × String → Emit Fragment}
    (hindex : sure → ∃ e, (b.operand "AT").IndexOf setting e)
    (hhold : ∀ r : Run, r.Good → (b.operand "AT").Settled setting r →
      LeadsFrom setting sure r hold fun held r' => Holds setting (b.operand "AT") r' held)
    (hg : ∀ i held, Leads setting sure (g i held) fun code _ => ∀ declares : String → Prop,
      declares held.1 → Accesses declares held.2 (held.2 ++ ".length - " ++ i) code) :
    Leads setting sure (do
      let i ← Emit.adjusted (b.stage place) "AT" 1 false .additive
      let held ← hold
      g i held) (AtPosition setting helpers "FROM_END" (b.operand "AT")) := by
  have hkeeps (i : String) : Keeps setting (hold >>= g i) :=
    (Keeps.of_acts hold).bind fun held => (hg i held).keeps
  intro r hr
  refine ((leads_fromEnd b place "AT" hindex false r hr).bind_from hkeeps
    fun i r hr hi => (hhold r hr hi.1).bind_from (fun held => (hg i held).keeps)
      fun held r hr _ => hg i held r hr.toOrderly).mono ?_
  rintro code r hr ⟨i, ⟨-, hi⟩, held, ⟨hword, hdeclares⟩, haccess⟩
  exact .inl ⟨held.2, _, fun _ => hword, haccess _ hdeclares, .fromEnd (hi held.2)⟩

/-- A socket whose code can be had. -/
def Scene.Answers (setting : Setting) (s : Scene) (name : String) : Prop :=
  ∀ outer, Succeeds setting (Emit.value s name outer)

theorem Scene.Answers.leads {name : String} (h : sure → (b.stage place).Answers setting name)
    (outer : Precedence) (fallback : String) :
    Leads setting sure (Emit.valueOrElse (b.stage place) name outer fallback)
      fun _ _ => True :=
  .of_acts _ fun hsure r hr => h hsure outer r hr

variable (hindex : sure → ∃ e, (b.operand "AT").IndexOf setting e)
include hindex

theorem leads_accessOnce {mode : String} (list : String) (hmode : sure → mode ∈ ["GET", "GET_REMOVE", "REMOVE"]) :
    Leads setting sure (accessOnce (b.stage place) mode "FROM_END" list)
      (AtPosition setting [.getItem, .takeItem] "FROM_END" (b.operand "AT")) := by
  unfold accessOnce
  rw [if_neg (by decide)]
  have hcall (h : EndHelper) (hmem : h ∈ [EndHelper.getItem, .takeItem]) :
      Leads setting sure (fromEndCall (b.stage place) h.key h.lines list)
        (AtPosition setting [.getItem, .takeItem] "FROM_END" (b.operand "AT")) :=
    (leads_fromEndCall h list hindex).mono fun code r _ hcode => .inr ⟨rfl, h, hmem, hcode⟩
  split
  · refine leads_fromEnd_held _ hindex (fun r hr ho => leadsFrom_holdList hr ho list) fun i held =>
      .pure _ fun _ declares hdeclares => ?_
    have haccess : Accesses declares held.2 (held.2 ++ ".length - " ++ i) _ := .remove hdeclares
    simp only [String.append_assoc] at haccess ⊢
    exact haccess
  · exact hcall .getItem (.head _)
  · exact hcall .takeItem (.tail _ (.head _))
  · exact .fail _ _ _ (by grind) _

theorem leads_listsGetIndex
    (hposition : fieldOr (b.stage place) "WHERE" "FROM_START" ∈ ["FROM_START", "FROM_END"]) (hmode : sure →
      fieldOr (b.stage place) "MODE" "GET" ∈ ["GET", "GET_REMOVE", "REMOVE"])
    (hvalue : sure → (b.stage place).Answers setting "VALUE") :
    Leads setting sure (listsGetIndex (b.stage place)) (AtPosition setting [.getItem, .takeItem]
        (fieldOr (b.stage place) "WHERE" "FROM_START") (b.operand "AT")) := by
  unfold listsGetIndex
  generalize fieldOr (b.stage place) "WHERE" "FROM_START" = position at hposition ⊢
  refine (Scene.Answers.leads hvalue _ _).andThen fun list => ?_
  rcases List.mem_cons.mp hposition with rfl | hposition
  · -- from the start the list is mentioned once
    refine ((leads_fromStart b place "AT" hindex false).bind fun i =>
      leads_accessItem (b.operand "AT") _ "FROM_START" list i rfl rfl hmode).mono ?_
    rintro code r - ⟨i, hi, haccess⟩
    exact .inl ⟨list, i, by simp, haccess, .fromStart hi list⟩
  · obtain rfl := List.mem_singleton.mp hposition
    by_cases hword : Literal.isWord list = true
    · simp only [hword]
      refine ((leads_fromEnd b place "AT" hindex false).bind fun i =>
        leads_accessItem (b.operand "AT") _ "FROM_END" list (list ++ ".length - " ++ i) ?_ ?_ hmode).mono ?_
      · simp only [String.append_assoc]
      · simp only [String.append_assoc]
      rintro code r - ⟨i, ⟨-, hi⟩, haccess⟩
      exact .inl ⟨list, _, fun _ => hword, haccess, .fromEnd (hi list)⟩
    · simp only [hword]
      exact leads_accessOnce hindex list hmode

theorem leads_listsSetIndex
    (hposition : fieldOr (b.stage place) "WHERE" "FROM_START" ∈ ["FROM_START", "FROM_END"])
    (hmode : sure → fieldOr (b.stage place) "MODE" "GET" ∈ ["SET", "INSERT"])
    (hlist : sure → (b.stage place).Answers setting "LIST")
    (hvalue : sure → (b.stage place).Answers setting "TO") :
    Leads setting sure (listsSetIndex (b.stage place))
    (AtPosition setting [] (fieldOr (b.stage place) "WHERE" "FROM_START") (b.operand "AT")) := by
  unfold listsSetIndex
  generalize fieldOr (b.stage place) "WHERE" "FROM_START" = position at hposition ⊢
  refine (Scene.Answers.leads hlist _ _).andThen fun list => ?_
  refine (Scene.Answers.leads hvalue _ _).andThen fun value => ?_
  rcases List.mem_cons.mp hposition with rfl | hposition
  · refine ((leads_fromStart b place "AT" hindex false).bind
      (R := fun i code r => Accesses (Declares setting (b.operand "AT") r list) list i code) fun i => ?_).mono ?_
    · split
      · exact .pure _ fun r => .set_itself .nothing value
      · exact .pure _ fun r => .insert_itself .nothing value
      · exact .fail _ _ _ (by grind) _
    · rintro code r - ⟨i, hi, haccess⟩
      exact .inl ⟨list, i, by simp, haccess, .fromStart hi list⟩
  · obtain rfl := List.mem_singleton.mp hposition
    refine leads_fromEnd_held _ hindex (fun r hr ho => leadsFrom_cachedList hr ho list) fun i held => ?_
    dsimp only
    split
    · refine .pure _ fun r declares hdeclares => ?_
      have haccess : Accesses declares held.2 (held.2 ++ ".length - " ++ i) _ := .set hdeclares value
      simp only [String.append_assoc] at haccess ⊢
      exact haccess
    · refine .pure _ fun r declares hdeclares => ?_
      have haccess : Accesses declares held.2 (held.2 ++ ".length - " ++ i) _ := .insert hdeclares value
      simp only [String.append_assoc] at haccess ⊢
      exact haccess
    · exact .fail _ _ _ (by grind) _

theorem leads_textCharAt
    (hposition : fieldOr (b.stage place) "WHERE" "FROM_START" ∈ ["FROM_START", "FROM_END"])
    (hvalue : sure → (b.stage place).Answers setting "VALUE") :
    Leads setting sure (textCharAt (b.stage place))
    (AtPosition setting [.letter] (fieldOr (b.stage place) "WHERE" "FROM_START") (b.operand "AT")) := by
  unfold textCharAt
  generalize fieldOr (b.stage place) "WHERE" "FROM_START" = position at hposition ⊢
  refine (Scene.Answers.leads hvalue _ _).andThen fun text => ?_
  rcases List.mem_cons.mp hposition with rfl | hposition
  · refine ((leads_fromStart b place "AT" hindex false).bind
      (R := fun i code r => Accesses (Declares setting (b.operand "AT") r text) text i code)
      fun i => .pure _ fun r => .read).mono ?_
    rintro code r - ⟨i, hi, haccess⟩
    exact .inl ⟨text, i, by simp, haccess, .fromStart hi text⟩
  · obtain rfl := List.mem_singleton.mp hposition
    exact (leads_fromEndCall .letter text hindex).mono fun code r _ hcode =>
      .inr ⟨rfl, .letter, .head _, hcode⟩

end

end BlockProgram
