import BlockProgram.Proofs.Emission.Adjusted
import BlockProgram.Proofs.Emission.Outcomes
import BlockProgram.Proofs.Emission.Values

/-! # Values of positions

A position is a piece of text, and its value is what the text evaluates to.  Positions from the
start are expressions of their own; positions from the end take a number away from the length of a
list or text, the subject, which is mentioned in front (`readText_behind_length`).
-/
namespace BlockProgram

open Grammar (Tree Operator)

variable {setting : Setting}

/-- With these values for the names, the text evaluates to this number. -/
def Evaluates (σ : String → Value) (text : String) (v : ℚ) : Prop :=
  ∀ E : Environment, E.ofName = σ →
    ∃ t, Grammar.readText text = some t ∧ t.eval E = .ok (.number v)

/-- With these values for the names and length `L` for the subject, the text evaluates to this
number. -/
def EvaluatesWithin (σ : String → Value) (subject : String) (L : ℚ) (text : String) (v : ℚ) : Prop :=
  ∀ ls l, Spells subject ls → Grammar.Reads .unaryPostfix ls l → ∀ E : Environment, E.ofName = σ →
    E.lengthOf l = .ok (.number L) →
      ∃ t, Grammar.readText text = some t ∧ t.eval E = .ok (.number v)

/-! ### Reading positions from the end -/

/-- The text of a difference between the length of a subject and code. Code that is itself a
difference or a sum loses its grouping where sums are allowed. -/
theorem readText_behind_length {subject : String} {ls : List Grammar.Token} {l : Tree}
    (hs : Spells subject ls) (hl : Grammar.Reads .unaryPostfix ls l) (a : Code) :
    Grammar.readText (subject ++ ".length - " ++ Precedence.enclose a.print a.precedence .additive) =
    some (Tree.graft .minus (.member l "length") a.tree) ∧ Grammar.readText (subject ++ ".length - " ++
          Precedence.enclose a.print a.precedence Precedence.additive.tighter) =
        some (.binary .minus (.member l "length") a.tree) := by
  have hmember : Grammar.Reads .additive (ls ++ [.point, .word "length"]) (.member l "length") :=
    (hl.member "length").mono (by decide)
  have hreads := a.reads_and_grafts
  -- the text of the length is one piece, and so is the sign behind it
  have hspells (outer : Precedence) : Spells (subject ++ ".length - " ++ Precedence.enclose a.print a.precedence outer)
        (ls ++ [.point, .word "length"] ++ .operator .minus :: encloseTokens a.tokens a.precedence outer) := by
    have h := (hs.member { text := "length" }).separate Operation.subtract.separates_spelling
      (spells_enclose a.spells a.precedence outer)
    have htext : subject ++ ".length - " = subject ++ "." ++ "length" ++ " - " := by
      rw [String.append_assoc, String.append_assoc]
      rfl
    rw [htext]
    exact h
  have hgraft := @Code.reads_graft a _ hreads.1 hreads.2 .minus rfl _ hmember
  have hgroup := @Code.reads_operation _ a hreads.1 hreads.2 .subtract rfl _ hmember
  exact ⟨(hspells _).readText_eq (hgraft.mono (by decide)), (hspells _).readText_eq (hgroup.mono (by decide))⟩

/-! ### Moved positions -/

variable {e : Expression} {ρ : String → Value}

/-- The value of an index in a text, whatever the lengths are. -/
theorem Expression.IsIndex.eval_environment (h : e.IsIndex) {r : Run} (hr : r.Good)
    (hvars : ∀ x ∈ e.variables, r.Settled x) {E : Environment} (hE : E.ofName = (r.environment ρ).ofName) :
    e.eval (E.valuation r.naming) = e.eval (r.valuation ρ) := by
  refine h.eval_congr fun x hx => ?_
  have hname (w : String) : E.name w = (r.environment ρ).name w := by
    unfold Environment.name
    rw [hE]
  show E.name (r.naming.ofVariable x).text = ρ (r.variableKey x)
  rw [hname, (hvars x hx).name_environment hr]

/-- The first term of an index with a value has a value. -/
theorem Expression.exists_eval_lead {V : Valuation} {x : ℚ}
    (h : e.eval V = .ok (.number x)) : ∃ l, e.lead.eval V = .ok (.number l) := by
  fun_induction lead e generalizing x with
  | case1 a b ih | case2 a b ih =>
    obtain ⟨y, z, hy, -⟩ := Outcome.combine_eq_number.mp h
    exact ih hy
  | case3 => exact ⟨x, h⟩

/-- What is plugged into a socket, or counts for an empty one, is this index. Products with
remainders among the factors of their right operands are left out; their text has another value than
their blocks. -/
structure Operand.IndexOf (setting : Setting) (o : Operand) (e : Expression) : Prop where
  operand : o.orElse? setting.firstIndex = some e
  isIndex : e.IsIndex
  factors : e.multipliesRemainder = false

def Setting.base (setting : Setting) : ℚ := if setting.options.oneBasedIndex then 1 else 0

/-- The text is the position of the index in a socket, counted from the start, or the one behind
it. -/
def FromStart (setting : Setting) (o : Operand) (r : Run) (behind : Bool) (text : String) : Prop :=
  ∀ e, o.IndexOf setting e → ∀ ρ x, e.eval (r.valuation ρ) = .ok (.number x) →
    Evaluates (r.environment ρ).ofName text (x - setting.base + if behind then 1 else 0)

/-- The text is the position in `subject` of the index in a socket, counted from the end, or the one
behind it. The position is off if the index need not be moved and has more than one term: by twice
what comes behind its first term. -/
def FromEnd (setting : Setting) (o : Operand) (r : Run) (behind : Bool) (subject text : String) : Prop :=
  ∀ e, o.IndexOf setting e → ∀ ρ x L, e.eval (r.valuation ρ) = .ok (.number x) →
    ∃ l, e.lead.eval (r.valuation ρ) = .ok (.number l) ∧
      EvaluatesWithin (r.environment ρ).ofName subject L text
        (L - 1 - (x - setting.base) + (if behind then 1 else 0) +
          if setting.options.oneBasedIndex = behind then 0 else 2 * (x - l))

theorem evaluates_adjusted (h : e.IsIndex) (hfactors : e.multipliesRemainder = false)
    {d : Int} (hd : d.natAbs ≤ 1) {r : Run} (hr : r.Good) (hvars : ∀ x ∈ e.variables, r.Settled x) {x : ℚ} (hx : e.eval (r.valuation ρ) = .ok (.number x)) :
    Evaluates (r.environment ρ).ofName
      (adjustedText d .loosest (e.printAt (adjustedLevel d .loosest) r.naming)) (x + d) := by
  obtain ⟨e', q, htext, hfactors', hvalue, -⟩ :=
    Expression.exists_adjusted h hfactors hd (show 4 ≤ Precedence.loosest.rank by decide) r.naming
  intro E hE
  rw [htext]
  refine ⟨e'.tree r.naming, e'.readText_printAt q r.naming, ?_⟩
  rw [Expression.eval_tree hfactors']
  exact hvalue _ x ((h.eval_environment hr hvars hE).trans hx)

theorem evaluatesWithin_adjusted (h : e.IsIndex)
    (hfactors : e.multipliesRemainder = false) {d : Int} (hd : d.natAbs ≤ 1) {r : Run} (hr : r.Good)
    (hvars : ∀ x ∈ e.variables, r.Settled x) {x l : ℚ}
    (hx : e.eval (r.valuation ρ) = .ok (.number x))
    (hl : e.lead.eval (r.valuation ρ) = .ok (.number l)) (subject : String) (L : ℚ) :
    EvaluatesWithin (r.environment ρ).ofName subject L
      (subject ++ ".length - " ++ adjustedText d .additive (e.printAt (adjustedLevel d .additive) r.naming))
      (L - (x + d) + if d = 0 then 2 * (x - l) else 0) := by
  obtain ⟨e', q, htext, hfactors', hvalue, hq⟩ :=
    Expression.exists_adjusted h hfactors hd (show 4 ≤ Precedence.additive.rank by decide) r.naming
  intro ls t hls ht E hE hlength
  have hmember : (Tree.member t "length").eval E = .ok (.number L) := hlength
  have hx' : e.eval (E.valuation r.naming) = .ok (.number x) :=
    (h.eval_environment hr hvars hE).trans hx
  have hl' : e.lead.eval (E.valuation r.naming) = .ok (.number l) :=
    (h.lead.eval_environment hr (fun v hv => hvars v (e.variables_lead hv)) hE).trans hl
  have he' := hvalue _ x hx'
  obtain ⟨hgraft, hgroup⟩ := readText_behind_length hls ht (e'.code r.naming)
  rw [Expression.enclose_code, Expression.code_tree] at hgraft hgroup
  rw [htext]
  rcases hq with ⟨rfl, hterm⟩ | ⟨rfl, hne⟩
  · -- the position is written where sums are allowed
    obtain ⟨l', hl'', hminus⟩ := Expression.eval_graft_minus hfactors' hmember he'
    refine ⟨_, hgraft, hminus.trans ?_⟩
    congr 2
    rcases hterm with ⟨hlead', hlead⟩ | ⟨rfl, rfl⟩
    · rw [hlead', he'] at hl''
      rw [hlead, hx'] at hl'
      cases hl''
      cases hl'
      rw [sub_self, mul_zero, ite_self]
      ring
    · rw [hl'] at hl''
      cases hl''
      rw [if_pos rfl, Int.cast_zero]
      ring
  · refine ⟨_, hgroup, ?_⟩
    rw [if_neg hne]
    unfold Tree.eval
    rw [hmember, Expression.eval_tree hfactors', he']
    exact Outcome.combine_eq_number.mpr ⟨L, _, rfl, rfl, by ring⟩

theorem Operand.IndexOf.unique {o : Operand} {e' : Expression} (h : o.IndexOf setting e)
    (h' : o.IndexOf setting e') : e' = e :=
  Option.some.inj (h'.operand.symm.trans h.operand)

theorem Setting.natAbs_shift_le (setting : Setting) (moved : Bool) :
    (setting.shift (if moved then 1 else 0)).natAbs ≤ 1 := by
  unfold shift
  cases setting.options.oneBasedIndex <;> cases moved <;> decide

theorem Setting.shift_eq_zero_iff (setting : Setting) (moved : Bool) :
    setting.shift (if moved then 1 else 0) = 0 ↔ setting.options.oneBasedIndex = moved := by
  unfold shift
  cases setting.options.oneBasedIndex <;> cases moved <;> decide

theorem Setting.cast_shift (setting : Setting) (moved : Bool) :
    ((setting.shift (if moved then 1 else 0) : Int) : ℚ) = (if moved then 1 else 0) - setting.base := by
  unfold shift base
  cases setting.options.oneBasedIndex <;> cases moved <;> norm_num

/-- The variables of the index in a socket have their identifiers. -/
def Operand.Settled (setting : Setting) (o : Operand) (r : Run) : Prop :=
  ∀ e, o.IndexOf setting e → ∀ v ∈ e.variables, r.Settled v

section

variable (b : Block) (place : Place) (name : String) {sure : Prop}
  (hsure : sure → ∃ e, (b.operand name).IndexOf setting e)

include hsure

/-- A position that is moved leads to a text in which its index keeps its value. -/
theorem leads_index {delta : Int} {outer : Precedence} (houter : 4 ≤ outer.rank) {P : String → Run → Prop}
    (h : ∀ e r, (b.operand name).IndexOf setting e → r.Good → (∀ v ∈ e.variables, r.Settled v) →
    P (adjustedText (setting.shift delta) outer (e.printAt (adjustedLevel (setting.shift delta) outer) r.naming)) r)
    (hnone : (∀ e, ¬ (b.operand name).IndexOf setting e) → ∀ p r, P p r) :
    Leads setting sure (Emit.adjusted (b.stage place) name delta false outer) P := by
  by_cases hindex : ∃ e, (b.operand name).IndexOf setting e
  · obtain ⟨e, he⟩ := hindex
    have hgives := gives_adjusted (b.holds_scene place) he.operand delta houter
    refine (Leads.of_yields hgives).mono fun p r hr hp => ?_
    obtain ⟨rfl, hvars⟩ := hp
    exact h e r he hr hvars
  · exact (Leads.of_acts _ fun h => absurd (hsure h) hindex).mono
      fun p r _ _ => hnone (fun e he => hindex ⟨e, he⟩) p r

theorem leads_fromStart (behind : Bool) : Leads setting sure
      (Emit.adjusted (b.stage place) name (if behind then 1 else 0) false .loosest)
      fun p r => FromStart setting (b.operand name) r behind p := by
  refine leads_index b place name hsure (by decide) (fun e r he hr hvars e' he' ρ x hx => ?_)
    fun hnone p r e he => absurd he (hnone e)
  obtain rfl := he.unique he'
  have hvalue := evaluates_adjusted he.isIndex he.factors
    (setting.natAbs_shift_le behind) hr hvars hx
  rw [setting.cast_shift] at hvalue
  convert hvalue using 1
  ring

theorem leads_fromEnd (behind : Bool) : Leads setting sure
      (Emit.adjusted (b.stage place) name (if !behind then 1 else 0) false .additive)
      fun p r => (b.operand name).Settled setting r ∧ ∀ subject,
        FromEnd setting (b.operand name) r behind subject (subject ++ ".length - " ++ p) := by
  refine leads_index b place name hsure (by decide) (fun e r he hr hvars => ⟨?_, ?_⟩)
    fun hnone p r => ⟨fun e he => absurd he (hnone e), fun _ e he => absurd he (hnone e)⟩
  · intro e' he'
    obtain rfl := he.unique he'
    exact hvars
  · intro subject e' he' ρ x L hx
    obtain rfl := he.unique he'
    obtain ⟨l, hl⟩ := Expression.exists_eval_lead hx
    refine ⟨l, hl, ?_⟩
    have hvalue := evaluatesWithin_adjusted he.isIndex he.factors (setting.natAbs_shift_le (!behind)) hr
      hvars hx hl subject L
    rw [setting.cast_shift] at hvalue
    convert hvalue using 1
    simp only [setting.shift_eq_zero_iff]
    cases setting.options.oneBasedIndex <;> cases behind <;> simp <;> ring

end

end BlockProgram
