import BlockProgram.Proofs.Emission.Carrying

/-! # Every handler carries on what it is given

Whatever a handler reads ends up in the code it gives, or in the definition it stores.  What a step
needs at hand before it, for something to be at hand after it, is found by following the way it is
put together (`Needs`).  For a handler this comes down to texts in a row: what has been read is
among them.
-/
namespace BlockProgram.Tracking

open Vocabulary List Emit

variable {t : Tracking} {α β : Type}

/-! ### What a step needs -/

/-- After the step this of its result is at hand, depending on what was at hand before it. -/
class Hands (t : Tracking) (x : Emit α) (mid : outParam (Prop → α → Prop)) : Prop where
  carries : ∀ {depth hand}, t.Carries depth hand x depth (mid hand)

/-- What the step needs, from what is at hand before it to what is at hand after it. It is a class,
so that it is found by following the way a step is put together. -/
class Needs (t : Tracking) (x : Emit α) (need : outParam (Prop → (α → Prop) → Prop)) : Prop where
  carries : ∀ {depth hand out}, need hand out → t.Carries depth hand x depth out

theorem Hands.of_needs {x : Emit α} {mid : Prop → α → Prop} {need : Prop → (α → Prop) → Prop} [hx : t.Needs x need]
    (h : ∀ hand, need hand (mid hand)) : t.Hands x mid :=
  ⟨hx.carries (h _)⟩

theorem CarriesCode.of_needs {x : Emit Fragment} {need : Prop → (Fragment → Prop) → Prop} [hx : t.Needs x need]
    (h : ∀ hand, need hand fun code => hand ∨ t.Holds code.text) : t.CarriesCode x :=
  fun _ hand => hx.carries (h hand)

instance (a : α) : t.Needs (pure a : Emit α) fun hand out => hand → out a := ⟨.pure⟩

instance {x : Emit α} {g : α → Emit β} {mid : Prop → α → Prop} {need : α → Prop → (β → Prop) → Prop}
    [hx : t.Hands x mid] [hg : ∀ a, t.Needs (g a) (need a)] :
    t.Needs (x >>= g) fun hand out => ∀ a, need a (mid hand a) out :=
  ⟨fun h => hx.carries.bind fun a => (hg a).carries (h a)⟩

instance {a : α} {g : α → Emit β} {need : Prop → (β → Prop) → Prop} [hg : t.Needs (g a) need] :
    t.Needs (pure a >>= g) need :=
  ⟨hg.carries⟩

instance {γ : Type} {x : Emit (Option γ)} {g : Option γ → Emit β} {mid : Prop → Option γ → Prop}
    {need : Prop → (β → Prop) → Prop} {need' : γ → Prop → (β → Prop) → Prop} [hx : t.Hands x mid]
    [hnone : t.Needs (g none) need] [hsome : ∀ a, t.Needs (g (some a)) (need' a)] :
    t.Needs (x >>= g) fun hand out => need (mid hand none) out ∧ ∀ a, need' a (mid hand (some a)) out := by
  refine ⟨fun h => hx.carries.bind fun a => ?_⟩
  cases a
  · exact hnone.carries h.1
  · exact (hsome _).carries (h.2 _)

instance {g : Options → Emit β} {need : Prop → (β → Prop) → Prop} [hg : t.Needs (g t.setting.options) need] :
    t.Needs (options >>= g) need :=
  ⟨fun h => .options (hg.carries h)⟩

instance {g : Setting → Emit β} {need : Prop → (β → Prop) → Prop} [hg : t.Needs (g t.setting) need] :
    t.Needs (read >>= g) need :=
  ⟨fun h => .setting (hg.carries h)⟩

instance {p : Prop} [Decidable p] {x y : Emit α} {need need' : Prop → (α → Prop) → Prop} [hx : t.Needs x need]
    [hy : t.Needs y need'] :
    t.Needs (if p then x else y) fun hand out => (p → need hand out) ∧ (¬ p → need' hand out) := by
  refine ⟨fun h => ?_⟩
  split
  · case isTrue hp => exact hx.carries (h.1 hp)
  · case isFalse hp => exact hy.carries (h.2 hp)

/-- Nothing is needed before a failure. -/
instance (kind : FailureKind) (block : Option BlockData) (detail : String) :
    t.Hands (fail kind block detail) fun _ _ => False :=
  ⟨.fail⟩

instance (priority := low) {x : Emit α} {mid : Prop → α → Prop} [hx : t.Hands x mid] :
    t.Needs x fun hand out => ∀ a, mid hand a → out a :=
  ⟨fun h => hx.carries.mono h⟩

instance (x : String) : t.Hands (variableName x) fun hand _ => hand := ⟨carries_variableName⟩

instance (x : String) : t.Hands (procedureName x) fun hand _ => hand := ⟨carries_procedureName⟩

instance (seed : String) : t.Hands (freshVariable seed) fun hand _ => hand := ⟨carries_freshVariable⟩

instance (key : String) [hkey : IsPlainKey key] (lines : List String) :
    t.Hands (addHelper key lines) fun hand _ => hand :=
  ⟨carries_addHelper hkey.head_ne⟩

instance (key : String) [hkey : IsPlainKey key] (code : String) : t.Hands (define key code) fun hand _ => hand :=
  ⟨carries_define hkey.head_ne⟩

instance : t.Hands needMath fun hand _ => hand := ⟨carries_define IsPlainKey.head_ne⟩

instance : t.Hands openPanel fun hand _ => hand := ⟨carries_openPanel⟩

instance (name code : String) : t.Hands (addWidget name code) fun hand _ => hand := ⟨carries_addWidget⟩

instance (number : Nat) : t.Hands (panel number) fun hand _ => hand := ⟨⟨.of_acts _, fun _ hr _ => hr⟩⟩

attribute [local grind =] Fragment.text

/-- What is plugged into the block of the scene carries on what it is given. -/
class Below (t : Tracking) (s : Scene) : Prop where
  plugs : s.Over .standard t.CarriesCode t.CarriesText

section

variable {s : Scene} [hs : t.Below s]

instance (name : String) (outer : Precedence) : t.Hands (value s name outer) fun hand code => hand ∨ t.Holds code :=
  ⟨carries_value hs.plugs⟩

instance (name : String) (outer : Precedence) (fallback : String) :
    t.Hands (valueOrElse s name outer fallback) fun hand code => hand ∨ t.Holds code :=
  ⟨carries_valueOrElse hs.plugs⟩

instance (name : String) : t.Hands (statements s name) fun hand code => hand ∨ t.Holds code :=
  ⟨carries_statements hs.plugs⟩

/-! ### Conditionals, comparisons and logical operators -/

instance (name : String) : t.Hands (branch s name) fun hand code => hand ∨ t.Holds code := by
  unfold branch
  exact .of_needs (by grind)

instance (n : Nat) : t.Hands (arm s n) fun hand code => hand ∨ t.Holds code := by
  unfold arm
  exact .of_needs (by grind)

instance (fuel n : Nat) : t.Hands (arms s fuel n) fun hand code => hand ∨ t.Holds code := by
  induction fuel generalizing n <;> unfold arms <;> exact .of_needs (by grind)

/-! ### Loops -/

instance (body : String) : t.Hands (loopBody s body) fun hand code => hand ∧ (t.Holds body → t.Holds code) := by
  unfold loopBody
  exact .of_needs (by grind)

instance (seed code : String) : t.Hands (onceEvaluated seed code) fun hand p => hand ∧ (t.Holds code → t.Holds p.1) := by
  unfold onceEvaluated
  exact .of_needs (by grind [isRepeatable])

theorem carries_controlsFor : t.CarriesCode (controlsFor s) := by
  unfold controlsFor
  refine .of_needs fun hand v first last step statements body => ⟨by grind, fun _ start limit inc h => ?_⟩
  -- The declarations come first, then the body; the header between them holds names only.
  have hparts : hand ∨ t.Holds (start.1 ++ limit.1 ++ "num " ++ inc ++ " = " ++
      (if Number.isLiteral step then Number.format (Number.parse step).abs ++ ";\n"
        else "(" ++ step ++ ").abs();\n")) ∨ t.Holds body := by
    grind
  dsimp only [Fragment.text]
  generalize start.1 ++ limit.1 ++ "num " ++ inc ++ " = " ++
    (if Number.isLiteral step then _ else _) = declarations at hparts ⊢
  refine hparts.imp_right (Or.rec (fun hdeclarations => ?_) fun hbody => hbody.append_right.append_left)
  repeat apply Holds.append_left
  exact hdeclarations

/-! ### Numbers -/

omit hs in
@[grind →]
theorem holds_single {op a code : String} {p : Precedence} (h : single? op a = some (code, p))
    (ha : t.Holds a) : t.Holds code := by
  unfold single? at h
  split at h
  case h_16 => cases h
  all_goals
    obtain ⟨rfl, -⟩ := Prod.mk.inj (Option.some.inj h)
    grind

omit hs in
@[grind →]
theorem holds_property {property number code : String} (h : property? property number = some code)
    (hnumber : t.Holds number) : t.Holds code := by
  unfold property? at h
  split at h
  case h_6 => cases h
  all_goals
    cases h
    exact hnumber.append_left

theorem carries_mathNumberProperty (hdivides : s.Divides t.setting) (htype : s.data.type = "math_number_property") :
    t.CarriesCode (mathNumberProperty s) := by
  refine fun depth hand => Hands.carries.bind fun number => ?_
  split
  · exact Needs.carries (by grind)
  · split
    · exact Needs.carries (by grind)
    · case h_2 hproperty =>
      exact ((carries_value hs.plugs).and (· ≠ "") (hdivides htype hproperty)).bind fun _ => Needs.carries (by grind)
    · split <;> exact Needs.carries (by grind)

theorem carries_mathOnList : t.CarriesCode (mathOnList s) := by
  unfold mathOnList
  split
  · exact .of_needs (by grind)
  · case h_2 helper hhelper =>
    have := listHelper_isPlainKey hhelper
    exact .of_needs (by grind)

/-! ### Texts -/

instance (outer : Precedence) (fallback : String) (ns : List Nat) :
    t.Hands (itemList s outer fallback ns) fun hand items => hand ∨ ∃ item ∈ items, t.Holds item := by
  induction ns <;> unfold itemList <;> exact .of_needs (by grind)

/-- The items of a block. There are none only after a failure. -/
instance (outer : Precedence) (fallback : String) : t.Hands (items s outer fallback) fun hand found =>
    ∃ items, found = some items ∧ (hand ∨ ∃ item ∈ items, t.Holds item) := by
  unfold items
  exact .of_needs (by grind)

instance (name : String) (delta : Int) (negate : Bool) (outer : Precedence) :
    t.Hands (adjusted s name delta negate outer) fun hand code => hand ∨ t.Holds code := by
  unfold adjusted
  exact .of_needs (by grind)

instance (subject mode : String) : t.Hands (rangeStart s subject mode) fun hand found =>
    ∃ start, found = some start ∧ (hand ∨ t.Holds start) := by
  unfold rangeStart
  split <;> exact .of_needs (by grind)

instance (subject mode : String) : t.Hands (rangeEnd s subject mode) fun hand found =>
    ∃ stop, found = some stop ∧ (hand ∨ mode ≠ "LAST" ∧ t.Holds stop) := by
  unfold rangeEnd
  split <;> exact .of_needs (by grind)

/-! ### Lists -/

instance (list : String) : t.Hands (holdList list) fun hand p => hand ∧ (t.Holds list → t.Holds p.1) := by
  unfold holdList
  exact .of_needs (by grind)

instance (list : String) : t.Hands (indexAtRandom list) fun hand p => hand ∧ (t.Holds list → t.Holds p.1) := by
  unfold indexAtRandom
  exact .of_needs (by grind)

instance (list : String) : t.Hands (cachedList list) fun hand p => hand ∧ (t.Holds list → t.Holds p.1) := by
  unfold cachedList
  exact .of_needs (by grind)

/-! ### Procedures and variables -/

instance (vs : List String) : t.Hands (variableNames vs) fun hand _ => hand := by
  induction vs with
  | nil => exact ⟨.pure id⟩
  | cons v vs ih => exact ⟨Hands.carries.bind fun name => ih.carries.bind fun names => .pure id⟩

instance (ns : List Nat) : t.Hands (argumentList s ns) fun hand args => hand ∨ ∃ arg ∈ args, t.Holds arg := by
  induction ns <;> unfold argumentList <;> exact .of_needs (by grind)

instance (code : String) : t.Hands (withNeighbours s code) fun hand text => hand ∧ (t.Holds code → t.Holds text) := by
  unfold withNeighbours
  exact .of_needs (by grind)

instance (word : String) : t.Hands (procedureFunction s word) fun hand f => ∀ p ∈ f, hand ∨ t.Holds p.2 := by
  unfold procedureFunction parameterNames
  exact .of_needs (by grind)

instance (word : String) : t.Hands (callbackFunction s word) fun hand f => ∀ p ∈ f, hand ∨ t.Holds p.2 := by
  unfold callbackFunction parameterNames
  exact .of_needs (by grind)

instance : t.Hands (function? s) fun hand f => ∀ p ∈ f, hand ∨ t.Holds p.2 := by
  unfold function?
  exact .of_needs (by grind)

theorem carries_function {depth : Nat} {hand : Prop} :
    t.Carries (depth + 1) hand (function? s >>= storeFunction) depth fun code => hand ∨ t.Holds code.text := by
  refine Hands.carries.bind fun f => ?_
  cases f with
  | none => exact .abandon
  | some p =>
    refine (carries_define_block ?_ fun h => h p rfl).bind fun _ => .pure .inl
    rw [String.toList_append]
    rfl

/-! ### Widgets -/

theorem carries_widgetCallReturn : t.CarriesCode (widgetCallReturn s) := by
  intro depth hand
  unfold widgetCallReturn arguments
  refine .procedureName_bind fun name => Hands.carries.bind fun args => .pure fun h hkept => ?_
  dsimp only [Fragment.text]
  generalize hlist : (if widgetName name = "sensor::new_sensor_listener" then _ else args) = list
  have hargs : hand ∨ ∃ arg ∈ list, t.Holds arg := by
    subst hlist
    rcases h with h | ⟨arg, hmem, hholds⟩
    · exact .inl h
    · refine .inr ?_
      split
      · case isTrue hname =>
        obtain ⟨i, hi⟩ := mem_iff_getElem?.mp hmem
        have hzip : (arg, i) ∈ args.zipIdx := mem_zipIdx_iff_getElem?.mpr hi
        refine ⟨_, mem_map_of_mem hzip, ?_⟩
        split
        · exact hholds.replaceAll_quotes fun hquote => hkept ⟨hquote, hname⟩
        · exact hholds
      · exact ⟨arg, hmem, hholds⟩
  grind

/-! ### Applications -/

theorem carries_appOnStart : t.CarriesCode (appOnStart s) := by
  unfold appOnStart
  refine .of_needs fun hand body => .imp_right fun hbody => ?_
  exact .join ⟨body, by simp, hbody⟩

theorem carries_appBuilder : t.CarriesCode (appBuilder s) := by
  refine fun depth hand => Hands.carries.bind fun panel => Hands.carries.bind fun found => ?_
  cases found with
  | none => exact .pure (by grind)
  | some items =>
    refine .options (Hands.carries.bind fun declared => .pure ?_)
    rintro ⟨_, ⟨⟩, h⟩
    have hthird : ∀ {a b c : String} {rest : List String}, c ∈ a :: b :: c :: rest := by simp
    refine h.imp_right fun hitems => .join ⟨_, hthird, .prependLines (.join ⟨Text.join "\n" items, ?_, .join hitems⟩)⟩
    simp

/-! ### The vocabulary -/

theorem carries_values (hdivides : s.Divides t.setting) : ∀ p ∈ math ++ Vocabulary.text,
    s.data.type = p.1 → t.CarriesCode (p.2.emit s) := by
  simp only [math, Vocabulary.text, forall_mem_append, forall_mem_cons, forall_mem_nil_iff, carries_mathOnList,
    implies_true, true_and, and_true]
  and_intros
  all_goals first | with_reducible exact carries_mathNumberProperty hdivides | intro _
  all_goals
    simp only [mathNumber, mathArithmetic, mathSingle, mathConstant, mathChange, mathModulo, mathConstrain, mathRandomInt,
      mathRandomFloat, mathAtan2, textLiteral, textMultiline, textJoin, textAppend, textLength, textIsEmpty, textIndexOf,
      foundPosition, textCharAt, textGetSubstring, cutPart, cutRange, inlineRange, helperRange, textChangeCase, textTrim, textPrint,
      textPrompt, textCount, textReplace, textReverse]
    intro depth hand
    repeat' first | exact Needs.carries (by grind) | split | refine Hands.carries.bind fun _ => ?_

theorem carries_lists : ∀ p ∈ lists, t.CarriesCode (p.2.emit s) := by
  simp only [lists, forall_mem_cons, forall_mem_nil_iff, and_true, listsCreateEmpty, listsCreateWith, listsRepeat,
    listsLength, listsIsEmpty, listsIndexOf, foundPosition, listsGetIndex, accessItem, accessOnce, accessRandom,
    fromEndCall, unknownMode, listsSetIndex, listsGetSublist, cutPart, cutRange, inlineRange, helperRange, listsSort, listsSplit,
    listsReverse]
  and_intros
  all_goals
    intro depth hand
    repeat' first | exact Needs.carries (by grind) | split

theorem carries_others : ∀ p ∈ logic ++ loops ++ procedures ++ widgets ++ app ++ device,
    p.2.flags.definesProcedure = false → t.CarriesCode (p.2.emit s) := by
  simp only [logic, loops, procedures, widgets, app, device, forall_mem_append, forall_mem_cons, forall_mem_nil_iff,
    carries_controlsFor, carries_widgetCallReturn, carries_appOnStart, carries_appBuilder, implies_true, true_and,
    and_true]
  and_intros
  all_goals rintro ⟨⟩
  all_goals
    simp only [controlsIf, logicCompare, logicOperation, logicNegate, logicBoolean, logicNull, logicTernary,
      controlsRepeat, controlsWhileUntil, controlsForEach, controlsFlow, callCode, arguments, procedureCallReturn,
      procedureCallNoReturn, procedureIfReturn, variableGet, variableSet, bind_assoc, widgetCallNoReturn, widgetIfReturn,
      appLabel, appButton, deviceCoap, deviceField, deviceForever, deviceWait, deviceTogglePin, deviceReadPin,
      deviceWritePin]
    intro depth hand
    repeat' first | exact Needs.carries (by intros; grind) | split

end

/-- **Every handler carries on what it is given.** -/
theorem carriesAll : t.CarriesAll := by
  intro s hdivides hs h hh
  have : t.Below s := ⟨hs⟩
  cases hdefines : h.flags.definesProcedure with
  | true =>
    intro depth hand
    rw [if_pos hdefines, emit_eq_function? hh ((isProcedureDefinition_eq hh).trans hdefines)]
    exact carries_function
  | false =>
    have hmem := mem_of_get? hh
    have hvalues := carries_values hdivides (s.data.type, h)
    have hlists := carries_lists (t := t) (s := s) (s.data.type, h)
    have hothers := carries_others (t := t) (s := s) (s.data.type, h)
    intro depth hand
    rw [if_neg (Bool.eq_false_iff.mp hdefines)]
    suffices hcode : t.CarriesCode (h.emit s) from hcode depth hand
    simp only [standard, mem_append] at hmem hvalues hothers
    tauto

end BlockProgram.Tracking
