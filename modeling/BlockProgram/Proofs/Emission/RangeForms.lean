import BlockProgram.Proofs.Emission.Ranges

/-! # The two forms of a part

Where a part of a list or text is cut out in place, its positions are computed while the code is
written; where a helper function is called, by the function.  Both forms denote the same part
(`Block.range_forms_agree`).  But only the first one looks at the modes: a call is written with any
two of them (`Block.range_rejected_iff`).
-/
namespace BlockProgram

open Vocabulary List

variable {setting : Setting} {α β : Type}

/-- The ways to count the first position of a part. -/
def startModes : List String := ["FROM_START", "FROM_END", "FIRST"]

/-- The ways to count its last position. -/
def endModes : List String := ["FROM_START", "FROM_END", "LAST"]

variable {k : RangeBlock}

theorem RangeBlock.get?_standard (hk : k ∈ [RangeBlock.sublist, .substring]) :
    ∃ h : BlockHandler, Vocabulary.standard.get? k.helper.type = some h ∧ h.emit = k.emit := by
  rcases mem_cons.mp hk with rfl | hk
  · exact ⟨_, rfl, funext fun s => (emit_sublist s).symm⟩
  · obtain rfl := mem_singleton.mp hk
    exact ⟨_, rfl, funext fun s => (emit_substring s).symm⟩

/-! ### Unknown modes -/

/-- The step leaves every run that has not failed with this kind of failure, or without one. -/
def Ends (setting : Setting) (x : Emit α) (verdict : Option FailureKind) : Prop :=
  ∀ r : Run, r.Good → (x setting r).2.failure.map (·.kind) = verdict

variable {x : Emit α}

theorem Succeeds.ends (h : Succeeds setting x) : Ends setting x none :=
  fun r hr => by rw [h r hr]; rfl

theorem Ends.pure (a : α) : Ends setting (Pure.pure a) none := Succeeds.ends fun _ hr => hr.running

variable {r : Run}

theorem Ends.good [hacts : Acts setting x] (hx : Ends setting x none) (hr : r.Good) : (x setting r).2.Good :=
  ⟨(hacts.extends_run hr.toOrderly).orderly, Option.map_eq_none_iff.mp (hx r hr)⟩

theorem Ends.bind [Acts setting x] {g : α → Emit β} {verdict : Option FailureKind}
    (hx : Ends setting x none) (hg : ∀ a, Ends setting (g a) verdict) : Ends setting (x >>= g) verdict :=
  fun _ hr => hg _ _ (hx.good hr)

theorem Ends.fail (setting : Setting) (kind : FailureKind) (b : Option BlockData) (detail : String) :
    Ends setting (Emit.fail kind b detail) (some kind) := by
  intro r hr
  obtain ⟨names, definitions, helpers, panels, dispatched, failure⟩ := r
  obtain rfl : failure = none := hr.running
  rfl

section

variable {b : Block} {place : Place} {name : String}

theorem Scene.Answers.ends (h : (b.stage place).Answers setting name) (outer : Precedence)
    (fallback : String) : Ends setting (Emit.valueOrElse (b.stage place) name outer fallback) none :=
  .bind (h outer).ends fun _ => .pure _

/-- Nothing can go wrong with an index but what goes wrong with its code. -/
theorem Scene.Answers.ends_adjusted (h : (b.stage place).Answers setting name) (delta : Int)
    (negate : Bool) (outer : Precedence) :
    Ends setting (Emit.adjusted (b.stage place) name delta negate outer) none := by
  unfold Emit.adjusted
  refine .bind (Succeeds.ends fun _ hr => hr.running) fun o => .bind (h.ends _ _) fun at_ => ?_
  split <;> exact .pure _

variable {r : Run} (hr : r.Good)

include hr

theorem Ends.gives_some {x : Emit String} [Acts setting x] (hx : Ends setting x none) (f : String → String) :
    ∃ p r', (do let i ← x; return some (f i) : Emit (Option String)) setting r = (some p, r') ∧ r'.Good :=
  ⟨f (x setting r).1, (x setting r).2, rfl, hx.good hr⟩

theorem rangeStart_cases (hindex : (b.stage place).Answers setting "AT1") (subject mode : String) :
    (mode ∈ startModes ∧ ∃ p r', rangeStart (b.stage place) subject mode setting r = (some p, r') ∧ r'.Good) ∨
    (mode ∉ startModes ∧ ∃ r', rangeStart (b.stage place) subject mode setting r = (none, r') ∧
      r'.failure.map (·.kind) = some .option) := by
  unfold rangeStart
  split
  · exact .inl ⟨by decide, (hindex.ends_adjusted _ _ _).gives_some hr id⟩
  · exact .inl ⟨by decide, (hindex.ends_adjusted _ _ _).gives_some hr (subject ++ ".length - " ++ ·)⟩
  · exact .inl ⟨by decide, _, _, rfl, hr⟩
  · exact .inr ⟨by simp_all [startModes], _, rfl, Ends.fail setting _ _ _ r hr⟩

theorem rangeEnd_cases (hindex : (b.stage place).Answers setting "AT2") (subject mode : String) :
    (mode ∈ endModes ∧ ∃ p r', rangeEnd (b.stage place) subject mode setting r = (some p, r') ∧ r'.Good) ∨
    (mode ∉ endModes ∧ ∃ r', rangeEnd (b.stage place) subject mode setting r = (none, r') ∧
      r'.failure.map (·.kind) = some .option) := by
  unfold rangeEnd
  split
  · exact .inl ⟨by decide, (hindex.ends_adjusted _ _ _).gives_some hr id⟩
  · exact .inl ⟨by decide, (hindex.ends_adjusted _ _ _).gives_some hr (subject ++ ".length - " ++ ·)⟩
  · exact .inl ⟨by decide, _, _, rfl, hr⟩
  · exact .inr ⟨by simp_all [endModes], _, rfl, Ends.fail setting _ _ _ r hr⟩

end

section

variable {b : Block} {place : Place} (hindex₁ : (b.stage place).Answers setting "AT1")
  (hindex₂ : (b.stage place).Answers setting "AT2")

include hindex₁ hindex₂

/-- In place, unknown modes are refused. -/
theorem ends_inlineRange (subject operation mode₁ mode₂ : String) :
    Ends setting (inlineRange (b.stage place) subject operation mode₁ mode₂)
      (if mode₁ ∈ startModes ∧ mode₂ ∈ endModes then none else some .option) := by
  intro r hr
  unfold inlineRange
  rw [bind_apply]
  rcases rangeStart_cases hr hindex₁ subject mode₁ with ⟨hmode₁, p, r₁, hstart, hr₁⟩ | ⟨hmode₁, r₁, hstart, hfailure⟩
  · rw [hstart]
    dsimp only
    rw [bind_apply]
    rcases rangeEnd_cases hr₁ hindex₂ subject mode₂ with ⟨hmode₂, q, r₂, hend, hr₂⟩ | ⟨hmode₂, r₂, hend, hfailure⟩
    · rw [hend, if_pos ⟨hmode₁, hmode₂⟩]
      exact Ends.pure _ r₂ hr₂
    · rw [hend, if_neg fun h => hmode₂ h.2]
      exact hfailure
  · rw [hstart, if_neg fun h => hmode₁ h.1]
    exact hfailure

/-- A call is written with any modes. -/
theorem ends_helperRange (key : String) (lines : List String) (subject mode₁ mode₂ : String) :
    Ends setting (helperRange (b.stage place) key lines subject mode₁ mode₂) none := by
  refine .bind (hindex₁.ends_adjusted _ _ _) fun i => .bind (hindex₂.ends_adjusted _ _ _) fun j =>
    .bind (fun r hr => ?_) fun name => .pure _
  obtain ⟨_, r', heq, hfollows, -⟩ := (gives_addHelper key lines : Gives setting _ _ _) r hr
  rw [heq, hfollows.running]
  rfl

end

variable {mode₁ mode₂ : String}

/-- Nothing is cut in known modes only. -/
theorem RangeBlock.known_of_isWhole (hk : k ∈ [RangeBlock.sublist, .substring])
    (h : k.isWhole mode₁ mode₂ = true) : mode₁ = "FIRST" ∧ mode₂ = "LAST" := by
  rcases mem_cons.mp hk with rfl | hk
  · cases h
  · obtain rfl := mem_singleton.mp hk
    simpa [substring] using h

/-- **Unknown modes are refused where no helper function is called.** A block with a part whose list
or text and indices can be had fails exactly if one of its modes is unknown and the part is cut out
in place, and then with an unknown option. -/
theorem Block.range_rejected_iff (setting : Setting) (k : RangeBlock) (hk : k ∈ [RangeBlock.sublist, .substring]) (b : Block)
    (place : Place) (htype : b.type = k.helper.type) (henabled : b.data.disabled = false)
    (hsubject : (b.stage place).Answers setting k.socket)
    (hindex₁ : (b.stage place).Answers setting "AT1")
    (hindex₂ : (b.stage place).Answers setting "AT2") (r : Run) (hr : r.Good) :
    ∃ subject r₁, k.subject (b.stage place) setting (r.act setting (.enter b.data)) = (subject, r₁) ∧
      (b.emit .standard place setting r).2.failure.map (·.kind) =
        if (b.data.fieldValue "WHERE1" ∉ startModes ∨ b.data.fieldValue "WHERE2" ∉ endModes) ∧
            k.helper.isCalled subject (b.data.fieldValue "WHERE1") (b.data.fieldValue "WHERE2") = false
          then some .option else none := by
  obtain ⟨h, hget, hemit⟩ := RangeBlock.get?_standard hk
  have hentered : (r.act setting (.enter b.data)).Good := ⟨(hr.toOrderly.extends_act _).orderly, hr.running⟩
  have hr₁ : (k.subject (b.stage place) setting (r.act setting (.enter b.data))).2.Good :=
    (hsubject.ends _ k.fallback).good hentered
  have hrun : (b.emit .standard place setting r).2 =
      (k.emit (b.stage place) setting (r.act setting (.enter b.data))).2 := by
    rw [Block.emit_eq, dispatch_of_handled (s := b.stage place) hr.running henabled
      (hget ▸ congrArg Vocabulary.standard.get? htype), hemit]
    rfl
  rw [hrun]
  unfold RangeBlock.emit cutPart
  rw [bind_apply]
  generalize k.subject (b.stage place) setting (r.act setting (.enter b.data)) = out at hr₁
  obtain ⟨subject, r₁⟩ := out
  refine ⟨subject, r₁, rfl, ?_⟩
  dsimp only
  split
  · rename_i hwhole
    obtain ⟨hmode₁, hmode₂⟩ : b.data.fieldValue "WHERE1" = "FIRST" ∧ b.data.fieldValue "WHERE2" = "LAST" :=
      RangeBlock.known_of_isWhole hk hwhole
    rw [if_neg (by simp [hmode₁, hmode₂, startModes, endModes])]
    exact Ends.pure _ r₁ hr₁
  · unfold RangeHelper.cut cutRange
    split
    · rename_i hcalled
      rw [if_neg fun h => Bool.false_ne_true (h.2.symm.trans hcalled)]
      exact ends_helperRange hindex₁ hindex₂ _ _ _ _ _ r₁ hr₁
    · rename_i hinline
      rw [ends_inlineRange hindex₁ hindex₂ _ _ _ _ r₁ hr₁]
      have hplace : k.helper.isCalled subject (b.data.fieldValue "WHERE1") (b.data.fieldValue "WHERE2") = false :=
        Bool.eq_false_iff.mpr hinline
      show (if b.data.fieldValue "WHERE1" ∈ startModes ∧ b.data.fieldValue "WHERE2" ∈ endModes then none else _) = _
      by_cases hmode₁ : b.data.fieldValue "WHERE1" ∈ startModes <;>
        by_cases hmode₂ : b.data.fieldValue "WHERE2" ∈ endModes <;> simp [hmode₁, hmode₂, hplace]

/-- A part of the empty list, up to an unknown position. -/
def Block.unknownEnd : Block := simple "lists_getSublist" [("WHERE1", "FROM_START"), ("WHERE2", "MIDDLE")] []

/-- The unknown position is written into the call of a helper function. -/
theorem Block.range_rejected_iff_unknownEnd :
    (unknownEnd.emit .standard {} ({} : Generator).setting (({} : Generator).start {})).2.failure = none := by
  have hempty (name : String) (h : (unknownEnd.stage {}).slot? name = none) :
      (unknownEnd.stage {}).Answers ({} : Generator).setting name := by
    intro outer r hr
    unfold Emit.value
    rw [h]
    exact hr.running
  obtain ⟨subject, r₁, hsubject, hverdict⟩ := range_rejected_iff ({} : Generator).setting .sublist (.head _) unknownEnd {}
    rfl rfl (hempty _ rfl) (hempty _ rfl) (hempty _ rfl) _ (Generator.good_start {} (List.Subset.refl _) {})
  obtain rfl : "[]" = subject := congrArg Prod.fst hsubject
  exact Option.map_eq_none_iff.mp (hverdict.trans (by decide))

/-! ### Helper functions -/

namespace RangeHelper

/-- What `getAt` assigns to `at`, by mode. In any other mode the index is the position. -/
def assignments (h : RangeHelper) : List (String × String) :=
  [("FROM_END", h.formula), ("FIRST", "0"), ("LAST", h.subject.text ++ ".length - 1")]

def branches (h : RangeHelper) : List String :=
  (["    if", "    \x7d else if", "    \x7d else if"].zip h.assignments).flatMap fun (lead, mode, formula) =>
    [lead ++ " (where == '" ++ mode ++ "') \x7b", "      at = " ++ formula ++ ";"]

theorem exists_lines_eq (h : RangeHelper) : ∃ before after, h.lines = before ++ h.branches ++ after := by
  cases hlines : h.lines with
  | nil => exact absurd h.tail_lines (by rw [hlines]; exact nofun)
  | cons first rest =>
    have hrest : rest = rangeBody h.subject.text h.operation h.type := by rw [← h.tail_lines, hlines]; rfl
    refine ⟨first :: (rangeBody h.subject.text h.operation h.type).take 1,
      (rangeBody h.subject.text h.operation h.type).drop 7, ?_⟩
    rw [hrest]
    simp [branches, assignments, rangeBody, formula, String.append_assoc]

/-- For a list or text of length `L`, `getAt` gives this position for the index `y`. -/
def GetsAt (h : RangeHelper) (σ : String → Value) (L y : ℚ) (mode : String) (p : ℚ) : Prop :=
  match h.assignments.lookup mode with
  | some formula => EvaluatesWithin (Function.update σ "at" (.number y)) h.subject.text L formula p
  | none => mode = "FROM_START" ∧ p = y

end RangeHelper

/-- The position for an index, among `L` items. -/
def Setting.position (setting : Setting) (L : ℚ) (mode : String) (x : ℚ) : ℚ :=
  match mode with
  | "FROM_START" => x - setting.base
  | "FROM_END" => L - 1 - (x - setting.base)
  | "FIRST" => 0
  | _ => L - 1

theorem evaluatesWithin_zero (σ : String → Value) (subject : String) (L : ℚ) : EvaluatesWithin σ subject L "0" 0 := by
  intro ls l _ _ E _ _
  refine ⟨Constant.zero.tree, by decide +kernel, ?_⟩
  rw [Constant.eval_tree]
  decide +kernel

theorem evaluatesWithin_last (σ : String → Value) (subject : String) (L : ℚ) :
    EvaluatesWithin σ subject L (subject ++ ".length - 1") (L - 1) := by
  have htext : subject ++ ".length - 1" = subject ++ ".length - " ++ "1" := by rw [String.append_assoc]; rfl
  rw [htext]
  refine evaluatesWithin_code (.number .one) fun E m _ hm => ?_
  have hone : Constant.one.tree.eval E = .ok (.number 1) := by rw [Constant.eval_tree, Constant.toRat_one]
  show (Grammar.Tree.binary .minus m Constant.one.tree).eval E = _
  unfold Grammar.Tree.eval
  exact Outcome.combine_eq_number.mpr ⟨L, 1, hm, hone, rfl⟩

variable {mode : String}

/-- `getAt` finds the position, for an index counted from zero. -/
theorem RangeHelper.getsAt_position (h : RangeHelper) (σ : String → Value)
    (hmode : mode ∈ startModes ++ endModes) (L x : ℚ) :
    h.GetsAt σ L (x - setting.base) mode (setting.position L mode x) := by
  simp only [startModes, endModes, cons_append, nil_append, mem_cons, not_mem_nil, or_false] at hmode
  rcases hmode with rfl | rfl | rfl | rfl | rfl | rfl
  · exact ⟨rfl, rfl⟩
  · exact h.evaluatesWithin_formula σ L _
  · exact evaluatesWithin_zero _ _ L
  · exact ⟨rfl, rfl⟩
  · exact h.evaluatesWithin_formula σ L _
  · exact evaluatesWithin_last _ _ L

/-! ### Indices -/

/-- An index that is left out, or a whole number or a variable. -/
inductive Operand.IsPlainIndex : Operand → Prop
  | missing : IsPlainIndex .missing
  | number {c : Constant} {i : Int} (hc : c.value.toRat = i) (hi : i.natAbs < 2 ^ 53) : IsPlainIndex (.filled (.number c))
  | reference (x : String) : IsPlainIndex (.filled (.reference x))

theorem Operand.IsPlainIndex.exists_indexOf {o : Operand} (h : o.IsPlainIndex) :
    ∃ e, o.IndexOf setting e ∧ e.lead = e := by
  cases h with
  | missing =>
    refine ⟨setting.firstIndex, ⟨rfl, ?_, ?_⟩, ?_⟩ <;> unfold Setting.firstIndex
    · split
      · exact .number (i := 1) Constant.toRat_one (by decide)
      · exact .number (i := 0) (by decide +kernel) (by decide)
    · rfl
    · rfl
  | number hc hi => exact ⟨_, ⟨rfl, .number hc hi, rfl⟩, rfl⟩
  | reference x => exact ⟨_, ⟨rfl, .reference x, rfl⟩, rfl⟩

/-- The value of the index in a socket, or of the one that counts for an empty socket. -/
def Operand.Indexes (setting : Setting) (o : Operand) (V : Valuation) (x : ℚ) : Prop :=
  ∃ e, o.orElse? setting.firstIndex = some e ∧ e.eval V = .ok (.number x)

variable {subject : String}

section

variable {o : Operand} (ho : o.IsPlainIndex) {r : Run} {ρ : String → Value} {x : ℚ}
  (hx : o.Indexes setting (r.valuation ρ) x)

include ho hx

theorem Operand.IsPlainIndex.exists_eval :
    ∃ e, o.IndexOf setting e ∧ e.lead = e ∧ e.eval (r.valuation ρ) = .ok (.number x) := by
  obtain ⟨e, he, hlead⟩ : ∃ e, o.IndexOf setting e ∧ e.lead = e := ho.exists_indexOf
  obtain ⟨e', he', hx⟩ := hx
  obtain rfl : e = e' := Option.some.inj (he.operand.symm.trans he')
  exact ⟨e, he, hlead, hx⟩

theorem FromStart.evaluates {i : String} (hi : FromStart setting o r false i) :
    Evaluates (r.environment ρ).ofName i (x - setting.base) := by
  obtain ⟨e, he, -, hx⟩ := ho.exists_eval hx
  simpa using hi e he ρ x hx

/-- An index with one term is counted right in both directions. -/
theorem Counts.evaluatesWithin {behind : Bool} {p : String} (h : Counts setting o r behind mode subject p)
    (hmode : mode = "FROM_START" ∨ mode = "FROM_END") (L : ℚ) : EvaluatesWithin (r.environment ρ).ofName subject L p
      (setting.position L mode x + if behind then 1 else 0) := by
  obtain ⟨e, he, hlead, hx⟩ := ho.exists_eval hx
  rcases hmode with rfl | rfl
  · exact fun _ _ _ _ E hE _ => h.1 rfl e he ρ x hx E hE
  · obtain ⟨l, hl, hp⟩ := h.2 rfl e he ρ x L hx
    rw [hlead, hx] at hl
    cases hl
    simpa [Setting.position] using hp

end

/-! ### What the code denotes -/

/-- The code cuts the items from `first` up to `behind` out of the list or text with the code
`subject` and the length `L`, by a call of the helper function or in place. Without a second
position, in place, the part goes up to the end; and where nothing is cut, it is all of the list or
text. -/
inductive RangeHelper.Cuts (h : RangeHelper) (name subject : String) (σ : String → Value) (L : ℚ)
    (mode₁ mode₂ : String) : Bool → Fragment → ℚ → ℚ → Prop
  | whole : Cuts h name subject σ L mode₁ mode₂ false (.expression subject .loosest) 0 L
  | toEnd {p : String} {first : ℚ} (hp : EvaluatesWithin σ subject L p first) :
    Cuts h name subject σ L mode₁ mode₂ false
      (.expression (subject ++ "." ++ h.operation ++ "(" ++ p ++ ")") .unaryPostfix) first L
  | inPlace {p q : String} {first behind : ℚ} (hp : EvaluatesWithin σ subject L p first)
    (hq : EvaluatesWithin σ subject L q behind) : Cuts h name subject σ L mode₁ mode₂ false
      (.expression (subject ++ "." ++ h.operation ++ "(" ++ (p ++ ", " ++ q) ++ ")") .unaryPostfix)
      first behind
  | called {i j : String} {y z first last : ℚ} (hi : Evaluates σ i y) (hj : Evaluates σ j z)
    (hfirst : h.GetsAt σ L y mode₁ first) (hlast : h.GetsAt σ L z mode₂ last) :
    Cuts h name subject σ L mode₁ mode₂ true
      (.expression (name ++ "(" ++ subject ++ ", '" ++ mode₁ ++ "', " ++ i ++ ", '" ++ mode₂ ++
        "', " ++ j ++ ")") .unaryPostfix) first (last + 1)

variable {ρ : String → Value} {o₁ o₂ : Operand} {x₁ x₂ : ℚ}

theorem RangeHelper.IsCut.cuts {h : RangeHelper} {code : Fragment}
    (hcut : h.IsCut setting subject mode₁ mode₂ o₁ o₂ code r) (hmode₁ : mode₁ ∈ startModes)
    (hmode₂ : mode₂ ∈ endModes) (ho₁ : o₁.IsPlainIndex) (ho₂ : o₂.IsPlainIndex)
    (hx₁ : o₁.Indexes setting (r.valuation ρ) x₁) (hx₂ : o₂.Indexes setting (r.valuation ρ) x₂) (L : ℚ) :
    h.Cuts (r.naming.ofHelper h.key).text subject (r.environment ρ).ofName L mode₁ mode₂
      (h.isCalled subject mode₁ mode₂) code (setting.position L mode₁ x₁) (setting.position L mode₂ x₂ + 1) := by
  unfold IsCut at hcut
  split at hcut
  · rename_i hcalled
    obtain ⟨i, j, rfl, hi, hj⟩ := hcut
    rw [hcalled]
    exact .called (hi.evaluates ho₁ hx₁) (hj.evaluates ho₂ hx₂)
      (h.getsAt_position _ (mem_append_left _ hmode₁) L x₁)
      (h.getsAt_position _ (mem_append_right _ hmode₂) L x₂)
  · rename_i hinline
    obtain ⟨first, behind, rfl, hfirst, hbehind, hzero⟩ := hcut
    rw [Bool.eq_false_iff.mpr hinline]
    have hp : EvaluatesWithin (r.environment ρ).ofName subject L first (setting.position L mode₁ x₁) := by
      by_cases hmode : mode₁ = "FIRST"
      · rw [hzero hmode, hmode]
        exact evaluatesWithin_zero _ _ L
      · simpa using hfirst.evaluatesWithin ho₁ hx₁ (by simp_all [startModes]) L
    by_cases hmode : mode₂ = "LAST"
    · have hend : setting.position L mode₂ x₂ + 1 = L := by rw [hmode]; exact sub_add_cancel L 1
      rw [if_pos hmode, hend]
      exact .toEnd hp
    · rw [if_neg hmode]
      exact .inPlace hp (by simpa using hbehind.evaluatesWithin ho₂ hx₂ (by simp_all [endModes]) L)

/-! ### Both forms -/

/-- Whether a helper function is called for the part, given the code of the list or text. -/
def RangeBlock.calls (k : RangeBlock) (mode₁ mode₂ subject : String) : Bool :=
  !k.isWhole mode₁ mode₂ && k.helper.isCalled subject mode₁ mode₂

/-- The block asks for a part with these modes and indices. -/
structure RangeBlock.Asks (k : RangeBlock) (setting : Setting) (mode₁ mode₂ : String) (o₁ o₂ : Operand) (b : Block)
    (place : Place) : Prop where
  type : b.type = k.helper.type
  mode₁ : b.data.fieldValue "WHERE1" = mode₁
  mode₂ : b.data.fieldValue "WHERE2" = mode₂
  index₁ : b.operand "AT1" = o₁
  index₂ : b.operand "AT2" = o₂
  subject : (b.stage place).Answers setting k.socket

/-- The code of the block cuts out the items from `first` up to `behind`, with these values for the
variables and this length of the list or text; by a call where the code of the list or text needs
one, and else in place. -/
def RangeBlock.Denotes (k : RangeBlock) (setting : Setting) (r : Run) (b : Block) (place : Place)
    (ρ : String → Value) (L first behind : ℚ) : Prop :=
  let subject := (k.subject (b.stage place) setting r).1
  ∃ h code r', Vocabulary.standard.get? b.type = some h ∧
    h.emit (b.stage place) setting r = (code, r') ∧ r'.failure = none ∧
    k.helper.Cuts (r'.naming.ofHelper k.helper.key).text subject (r'.environment ρ).ofName L
      (b.data.fieldValue "WHERE1") (b.data.fieldValue "WHERE2")
      (k.calls (b.data.fieldValue "WHERE1") (b.data.fieldValue "WHERE2") subject) code first behind

theorem Run.Extends.valuation_eq {r' : Run} (h : r.Extends r') (ρ : String → Value) :
    r'.valuation ρ = r.valuation ρ := by
  unfold valuation variableKey NameTable.resolve
  rw [h.vars]

theorem RangeBlock.Asks.denotes (hk : k ∈ [RangeBlock.sublist, .substring])
    (hmode₁ : mode₁ ∈ startModes) (hmode₂ : mode₂ ∈ endModes) (ho₁ : o₁.IsPlainIndex)
    (ho₂ : o₂.IsPlainIndex) {b : Block} {place : Place} (hb : k.Asks setting mode₁ mode₂ o₁ o₂ b place)
    (hr : r.Good) (hx₁ : o₁.Indexes setting (r.valuation ρ) x₁) (hx₂ : o₂.Indexes setting (r.valuation ρ) x₂) (L : ℚ) :
    k.Denotes setting r b place ρ L (setting.position L mode₁ x₁) (setting.position L mode₂ x₂ + 1) := by
  obtain ⟨htype, rfl, rfl, rfl, rfl, hsubject⟩ := hb
  obtain ⟨h, hget, hemit⟩ := get?_standard hk
  have hacts : Acts setting (k.subject (b.stage place)) :=
    inferInstanceAs (Acts setting (Emit.valueOrElse _ _ _ _))
  have hr₁ : (k.subject (b.stage place) setting r).2.Good := (hsubject.ends _ k.fallback).good hr
  have hextends₁ := hacts.extends_run hr.toOrderly
  unfold Denotes
  rw [htype]
  refine ⟨h, ?_⟩
  simp only [hget, hemit, true_and]
  unfold emit cutPart
  simp only [bind_apply]
  generalize k.subject (b.stage place) setting r = out at hr₁ hextends₁
  obtain ⟨subject, r₁⟩ := out
  by_cases hwhole : k.isWhole (b.data.fieldValue "WHERE1") (b.data.fieldValue "WHERE2") = true
  · obtain ⟨hfirst, hlast⟩ := known_of_isWhole hk hwhole
    have hstart : setting.position L (b.data.fieldValue "WHERE1") x₁ = 0 := by rw [hfirst]; rfl
    have hend : setting.position L (b.data.fieldValue "WHERE2") x₂ + 1 = L := by rw [hlast]; exact sub_add_cancel L 1
    have hcalls : k.calls (b.data.fieldValue "WHERE1") (b.data.fieldValue "WHERE2") subject = false := by
      simp [calls, hwhole]
    rw [hstart, hend, hcalls]
    exact ⟨_, r₁, congrFun (congrFun (if_pos hwhole) _) _, hr₁.running, .whole⟩
  · have hcalls : k.calls (b.data.fieldValue "WHERE1") (b.data.fieldValue "WHERE2") subject =
        k.helper.isCalled subject (b.data.fieldValue "WHERE1") (b.data.fieldValue "WHERE2") := by
      simp [calls, hwhole]
    obtain ⟨code, r', heq, hextends, hsure, hcut⟩ :=
      (leads_cut k.helper subject (fun _ => ho₁.exists_indexOf.imp fun _ h => h.1)
        (fun _ => ho₂.exists_indexOf.imp fun _ h => h.1) (fun _ => hmode₁) fun _ => hmode₂ :
          Leads setting True (k.helper.cut (b.stage place) subject) _) r₁ hr₁.toOrderly
    have hrunning := hsure trivial hr₁.running
    have hvaluation := (hextends₁.trans hextends).valuation_eq ρ
    rw [hcalls]
    refine ⟨code, r', (congrFun (congrFun (if_neg hwhole) _) _).trans heq, hrunning, ?_⟩
    rw [← hvaluation] at hx₁ hx₂
    exact (hcut hrunning r' ⟨hextends.orderly.extends_self, hrunning⟩).cuts hmode₁ hmode₂ ho₁ ho₂ hx₁ hx₂ L

/-- **Both forms of a part denote the same items.** -/
theorem Block.range_forms_agree (setting : Setting) (k : RangeBlock) (hk : k ∈ [RangeBlock.sublist, .substring])
    (mode₁ mode₂ : String) (hmode₁ : mode₁ ∈ startModes) (hmode₂ : mode₂ ∈ endModes) (o₁ o₂ : Operand)
    (ho₁ : o₁.IsPlainIndex) (ho₂ : o₂.IsPlainIndex) (b b' : Block) (place place' : Place)
    (hb : k.Asks setting mode₁ mode₂ o₁ o₂ b place) (hb' : k.Asks setting mode₁ mode₂ o₁ o₂ b' place') (r : Run)
    (hr : r.Good) (ρ : String → Value) (x₁ x₂ L : ℚ) (hx₁ : o₁.Indexes setting (r.valuation ρ) x₁)
    (hx₂ : o₂.Indexes setting (r.valuation ρ) x₂) :
    (∃ before after, k.helper.lines = before ++ k.helper.branches ++ after) ∧ ∃ first behind,
      k.Denotes setting r b place ρ L first behind ∧ k.Denotes setting r b' place' ρ L first behind :=
  ⟨k.helper.exists_lines_eq, _, _, hb.denotes hk hmode₁ hmode₂ ho₁ ho₂ hr hx₁ hx₂ L,
    hb'.denotes hk hmode₁ hmode₂ ho₁ ho₂ hr hx₁ hx₂ L⟩

/-- The last `i` items of a list. -/
def Block.lastItems (list : List (String × Block)) : Block :=
  simple "lists_getSublist" [("WHERE1", "FROM_END"), ("WHERE2", "FROM_END")]
    (("AT1", simple "variables_get" [("VAR", "i")] []) :: list)

/-- The last `i` items of a variable. -/
def Block.lastItemsOfVariable : Block := lastItems [("LIST", simple "variables_get" [("VAR", "list")] [])]

/-- Of a variable the items are cut out in place, and of the empty list by a call. -/
theorem Block.range_forms_agree_lastItems : RangeBlock.sublist.calls "FROM_END" "FROM_END" "list" = false ∧
    RangeBlock.sublist.calls "FROM_END" "FROM_END" "[]" = true ∧ ∃ first behind,
      RangeBlock.sublist.Denotes ({} : Generator).setting (({} : Generator).start {}) lastItemsOfVariable {}
        (fun _ => .number 3) 5 first behind ∧
      RangeBlock.sublist.Denotes ({} : Generator).setting (({} : Generator).start {}) (lastItems []) {}
        (fun _ => .number 3) 5 first behind := by
  have hlist : (lastItemsOfVariable.stage {}).Answers ({} : Generator).setting "LIST" := by
    intro outer r hr
    have hoperand : lastItemsOfVariable.operand "LIST" = .filled (.reference "list") := rfl
    obtain ⟨r', hvalue, hfollows, -⟩ := lastItemsOfVariable.value_eq {} outer hoperand hr
    rw [hvalue]
    exact hfollows.running
  have hempty : ((lastItems []).scene .standard {}).Answers ({} : Generator).setting "LIST" :=
    fun outer r hr => hr.running
  exact ⟨by decide, by decide, (range_forms_agree ({} : Generator).setting .sublist (.head _) "FROM_END" "FROM_END"
    (by decide) (by decide) (.filled (.reference "i")) .missing (.reference "i") .missing lastItemsOfVariable
    (lastItems []) {} {} ⟨rfl, rfl, rfl, rfl, rfl, hlist⟩ ⟨rfl, rfl, rfl, rfl, rfl, hempty⟩ _
    (Generator.good_start {} (List.Subset.refl _) {}) (fun _ => .number 3) 3 1 5 ⟨_, rfl, rfl⟩
    ⟨_, rfl, by decide +kernel⟩).2⟩

end BlockProgram
