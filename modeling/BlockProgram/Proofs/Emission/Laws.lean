import BlockProgram.Program.Generate

/-! # Laws of steps

A handler puts its step together from a few others.  A property of steps that these have, and that
is kept when one step follows the other (`Law`), is had by what a handler does if it is had by what
is plugged into its block.

Properties of steps side by side, one for each `k`, are had by the handlers that read nothing but
values (`Law.holds_reader`): what these do does not depend on the comment of the block, nor on the
hooks, nor on where the block stands.  What is left are the blocks with bodies, and those that place
hooks themselves (`Vocabulary.hasBody`).  Properties of a single step are had by all handlers but
those that define something (`Law.holds_handler`).  These make a function (`function?`) and store it
under its name (`emit_eq_function?`).
-/
namespace BlockProgram

open List Emit

/-- Settings that agree on what handlers depend on that read nothing but values. -/
structure Surroundings (K : Type) where
  setting : K → Setting
  indent : String
  oneBased : Bool
  indent_eq : ∀ k, (setting k).options.indent = indent
  oneBased_eq : ∀ k, (setting k).options.oneBasedIndex = oneBased

def Surroundings.const {K : Type} (setting : Setting) : Surroundings K where
  setting _ := setting
  indent := setting.options.indent
  oneBased := setting.options.oneBasedIndex
  indent_eq _ := rfl
  oneBased_eq _ := rfl

/-- A property of steps side by side that the elementary steps have, and that is kept when one step
follows the other. A key that starts like that of a procedure is not asked for. -/
structure Law (K : Type) extends Surroundings K where
  Obeys : {α : Type} → (K → Emit α) → Prop
  pure : ∀ {α : Type} (a : α), Obeys fun _ => (Pure.pure a : Emit α)
  bind : ∀ {α β : Type} {x : K → Emit α} {g : K → α → Emit β}, Obeys x → (∀ a, Obeys fun k => g k a) →
    Obeys fun k => x k >>= g k
  read : ∀ {β : Type} {g : K → Setting → Emit β}, (Obeys fun k => g k (setting k)) →
    Obeys fun k => (MonadReader.read : Emit Setting) >>= g k
  failed : Obeys fun _ => Emit.failed
  fail : ∀ (kind : FailureKind) (block : Option BlockData) (detail : String), Obeys fun _ => Emit.fail kind block detail
  variableName : ∀ x, Obeys fun _ => Emit.variableName x
  procedureName : ∀ x, Obeys fun _ => Emit.procedureName x
  freshVariable : ∀ seed, Obeys fun _ => Emit.freshVariable seed
  addHelper : ∀ key lines, key.toList.head? ≠ some '%' → Obeys fun _ => Emit.addHelper key lines
  define : ∀ key code, key.toList.head? ≠ some '%' → Obeys fun _ => Emit.define key code
  openPanel : Obeys fun _ => Emit.openPanel
  addWidget : ∀ name code, Obeys fun _ => Emit.addWidget name code
  panel : ∀ number, Obeys fun _ => Emit.panel number

variable {K α β : Type} {L : Law K}

/-- The steps obey the law. It is a class, so that it is found by following the way a step is put
together. -/
class Law.Holds (L : Law K) (x : K → Emit α) : Prop where
  obeys : L.Obeys x

namespace Law.Holds

theorem bind {x : K → Emit α} {g : K → α → Emit β} (hx : L.Holds x) (hg : ∀ a, L.Holds fun k => g k a) :
    L.Holds fun k => x k >>= g k :=
  ⟨L.bind hx.obeys fun a => (hg a).obeys⟩

theorem options {g : K → Options → Emit β} (hg : L.Holds fun k => g k (L.setting k).options) :
    L.Holds fun k => options >>= g k :=
  ⟨L.read (g := fun k setting => g k setting.options) hg.obeys⟩

end Law.Holds

instance (a : α) : L.Holds fun _ => (pure a : Emit α) := ⟨L.pure a⟩

instance {x : K → Emit α} {g : K → α → Emit β} [hx : L.Holds x] [hg : ∀ a, L.Holds fun k => g k a] :
    L.Holds fun k => x k >>= g k :=
  hx.bind hg

instance {x : K → Emit (Option α)} {g : K → Option α → Emit β} [hx : L.Holds x] [hnone : L.Holds fun k => g k none]
    [hsome : ∀ a, L.Holds fun k => g k (some a)] : L.Holds fun k => x k >>= g k := by
  refine hx.bind fun a => ?_
  cases a
  · exact hnone
  · exact hsome _

instance {p : Prop} [Decidable p] {x y : K → Emit α} [hx : L.Holds x] [hy : L.Holds y] :
    L.Holds fun k => if p then x k else y k := by
  split
  · exact hx
  · exact hy

instance : L.Holds fun _ => failed := ⟨L.failed⟩

instance (kind : FailureKind) (block : Option BlockData) (detail : String) : L.Holds fun _ => fail kind block detail :=
  ⟨L.fail kind block detail⟩

instance (x : String) : L.Holds fun _ => variableName x := ⟨L.variableName x⟩

instance (x : String) : L.Holds fun _ => procedureName x := ⟨L.procedureName x⟩

instance (seed : String) : L.Holds fun _ => freshVariable seed := ⟨L.freshVariable seed⟩

instance : L.Holds fun _ => openPanel := ⟨L.openPanel⟩

instance (name code : String) : L.Holds fun _ => addWidget name code := ⟨L.addWidget name code⟩

instance (number : Nat) : L.Holds fun _ => panel number := ⟨L.panel number⟩

/-! ### Functions -/

namespace Vocabulary

/-- The key does not start like that of a procedure. -/
class IsPlainKey (key : String) : Prop where
  head_ne : key.toList.head? ≠ some '%'

instance : IsPlainKey "import_lisp_math" := ⟨by decide⟩
instance : IsPlainKey "import_lisp_html" := ⟨by decide⟩
instance : IsPlainKey "math_isPrime" := ⟨by decide⟩
instance : IsPlainKey "math_random_int" := ⟨by decide⟩
instance : IsPlainKey "text_get_from_end" := ⟨by decide⟩
instance : IsPlainKey "text_random_letter" := ⟨by decide⟩
instance : IsPlainKey "text_get_substring" := ⟨by decide⟩
instance : IsPlainKey "text_toTitleCase" := ⟨by decide⟩
instance : IsPlainKey "text_count" := ⟨by decide⟩
instance : IsPlainKey "lists_get_from_end" := ⟨by decide⟩
instance : IsPlainKey "lists_remove_from_end" := ⟨by decide⟩
instance : IsPlainKey "lists_get_random_item" := ⟨by decide⟩
instance : IsPlainKey "lists_remove_random_item" := ⟨by decide⟩
instance : IsPlainKey "lists_get_sublist" := ⟨by decide⟩
instance : IsPlainKey "lists_sort" := ⟨by decide⟩

theorem listHelper_isPlainKey {op : String} {helper : ListHelper} (h : listHelper? op = some helper) :
    IsPlainKey helper.name := by
  unfold listHelper? at h
  split at h
  case h_9 => cases h
  all_goals
    cases h
    exact ⟨by decide⟩

instance (key : String) [hkey : IsPlainKey key] (lines : List String) : L.Holds fun _ => addHelper key lines :=
  ⟨L.addHelper key lines hkey.head_ne⟩

instance (key : String) [hkey : IsPlainKey key] (code : String) : L.Holds fun _ => define key code :=
  ⟨L.define key code hkey.head_ne⟩

instance : L.Holds fun _ => needMath := ⟨L.define _ _ IsPlainKey.head_ne⟩

/-- The block defines a procedure, and not a callback. -/
def isProcedure (type : String) : Bool := ["procedures_defreturn", "procedures_defnoreturn"].contains type

/-- The function that a block defines: its name and its text. -/
def function? (s : Scene) : Emit (Option (String × String)) := do
  let word ← procedureName (s.field "NAME")
  if isProcedure s.data.type then procedureFunction s word else callbackFunction s word

theorem forall_mem_nil_iff {α : Type} {P : α → Prop} : (∀ a ∈ [], P a) ↔ True := by simp

theorem mem_of_get? {v : Vocabulary} {type : String} {h : BlockHandler} (hget : v.get? type = some h) : (type, h) ∈ v := by
  obtain ⟨p, hp, rfl⟩ := Option.map_eq_some_iff.mp hget
  obtain rfl : p.1 = type := by simpa using find?_some hp
  exact mem_of_find?_eq_some hp

theorem isProcedureDefinition_eq {d : BlockData} {h : BlockHandler} (hget : standard.get? d.type = some h) :
    d.isProcedureDefinition = h.flags.definesProcedure :=
  (show ∀ p ∈ standard, (p.1 = "procedures_defreturn" || p.1 = "procedures_defnoreturn" || p.1 = "widgets_defreturn" ||
    p.1 = "widgets_defnoreturn") = p.2.flags.definesProcedure by decide) _ (mem_of_get? hget)

theorem emit_of_definesProcedure {type : String} {h : BlockHandler} (hh : standard.get? type = some h)
    (hdefines : h.flags.definesProcedure = true) : h.emit = procedureDefinition ∨ h.emit = widgetCallback := by
  have hkey := (show ∀ p ∈ standard, p.2.flags.definesProcedure = true → p.1 ∈ ["procedures_defreturn",
    "procedures_defnoreturn", "widgets_defreturn", "widgets_defnoreturn"] by decide) _ (mem_of_get? hh) hdefines
  simp only [mem_cons, not_mem_nil, or_false] at hkey
  rcases hkey with rfl | rfl | rfl | rfl
  all_goals obtain rfl := Option.some.inj hh
  · exact .inl rfl
  · exact .inl rfl
  · exact .inr rfl
  · exact .inr rfl

/-- **Handlers that define something store a function.** -/
theorem emit_eq_function? {s : Scene} {h : BlockHandler} (hget : standard.get? s.data.type = some h)
    (hdefines : s.data.isProcedureDefinition = true) : h.emit s = function? s >>= storeFunction := by
  unfold BlockData.isProcedureDefinition at hdefines
  simp only [Bool.or_eq_true, decide_eq_true_eq] at hdefines
  unfold function?
  rw [bind_assoc]
  rcases hdefines with ((htype | htype) | htype) | htype
  all_goals
    rw [htype] at hget ⊢
    obtain rfl := Option.some.inj hget
  all_goals rfl

/-- The blocks of this type have bodies, or place hooks. -/
def hasBody (type : String) : Bool :=
  ["controls_if", "controls_ifelse", "controls_repeat_ext", "controls_repeat", "controls_whileUntil", "controls_for",
    "controls_forEach", "controls_flow_statements", "procedures_defreturn", "procedures_defnoreturn",
    "procedures_ifreturn", "widgets_defreturn", "widgets_defnoreturn", "on_start", "forever"].contains type

/-- Loops leave their hooks and their definition to others. -/
theorem flags?_of_loop : ∀ type ∈ loopKinds, standard.flags? type = some {} := by decide

end Vocabulary

/-! ### Handlers that read values -/

/-- The scenes look alike to a handler, but for the code that is plugged into their blocks. -/
structure Scene.Alike (s s' : Scene) : Prop where
  data_eq : s.data = s'.data
  names_eq : s.block.sockets.map (·.name) = s'.block.sockets.map (·.name)
  enclosing_eq : s.place.enclosing = s'.place.enclosing
  comments_eq : ∀ o flags, commentLines o flags s.place s.block = commentLines o flags s'.place s'.block

namespace Scene.Alike

theorem refl (s : Scene) : s.Alike s := ⟨rfl, rfl, rfl, fun _ _ => rfl⟩

variable {s s' : Scene} (h : s.Alike s')
include h

theorem field_eq (name : String) : s.field name = s'.field name := by
  unfold Scene.field
  rw [h.data_eq]

theorem length_eq : s.block.sockets.length = s'.block.sockets.length := by
  simpa using congrArg List.length h.names_eq

theorem hasSocket_eq (name : String) : s.block.hasSocket name = s'.block.hasSocket name := by
  have hsome : ∀ b : Block, (b.socket? name).isSome = decide (name ∈ b.sockets.map (·.name)) := fun b => by
    rw [Block.socket?, Bool.eq_iff_iff, List.find?_isSome]
    simp
  have hdata : s.block.data = s'.block.data := h.data_eq
  unfold Block.hasSocket
  rw [hsome, hsome, h.names_eq, hdata]

end Scene.Alike

/-- The value of a field, or a fallback in place of an empty one. -/
def BlockData.fieldOr (d : BlockData) (name fallback : String) : String :=
  if d.fieldValue name = "" then fallback else d.fieldValue name

namespace Law

/-- Scenes of blocks that differ in nothing but their comments, with values in their sockets that
obey the law. -/
class Scenes (L : Law K) (s : K → Scene) (d : outParam BlockData) : Prop where
  data_eq : ∀ k, (s k).data = { d with comment := (s k).data.comment }
  value : ∀ name outer, L.Holds fun k => value (s k) name outer

section

open Vocabulary

variable {s : K → Scene} {d : BlockData} [hs : L.Scenes s d]
include hs

theorem Scenes.field_eq (k : K) (name : String) : (s k).field name = d.fieldValue name := by
  unfold Scene.field
  rw [hs.data_eq k]
  rfl

theorem Scenes.fieldOr_eq (k : K) (name fallback : String) : fieldOr (s k) name fallback = d.fieldOr name fallback := by
  unfold fieldOr
  rw [hs.field_eq k]
  rfl

theorem Scenes.hasField_eq (k : K) (name : String) : (s k).data.hasField name = d.hasField name := by
  rw [hs.data_eq k]
  rfl

theorem Scenes.mutation_eq (k : K) : (s k).data.mutation = d.mutation := by rw [hs.data_eq k]

/-- A failure tells the id and the type of the block. -/
instance (kind : FailureKind) (detail : String) : L.Holds fun k => Emit.fail kind (some (s k).data) detail := by
  have heq : ∀ k, Emit.fail kind (some (s k).data) detail = Emit.fail kind d detail := fun k => by
    rw [hs.data_eq k]
    rfl
  simp only [heq]
  infer_instance

instance (name : String) (outer : Precedence) : L.Holds fun k => value (s k) name outer := hs.value name outer

instance (name : String) (outer : Precedence) (fallback : String) :
    L.Holds fun k => valueOrElse (s k) name outer fallback := by
  unfold valueOrElse
  infer_instance

instance (outer : Precedence) (fallback : String) (ns : List Nat) :
    L.Holds fun k => itemList (s k) outer fallback ns := by
  induction ns <;> unfold itemList <;> infer_instance

instance (outer : Precedence) (fallback : String) : L.Holds fun k => items (s k) outer fallback := by
  unfold items
  simp only [hs.mutation_eq]
  infer_instance

instance (name : String) (delta : Int) (negate : Bool) (outer : Precedence) :
    L.Holds fun k => adjusted (s k) name delta negate outer := by
  unfold adjusted
  refine .options ?_
  simp only [L.oneBased_eq]
  infer_instance

omit hs in
instance (seed code : String) : L.Holds fun _ => onceEvaluated seed code := by
  unfold onceEvaluated
  infer_instance

omit hs in
instance (subject operation found : String) : L.Holds fun _ => foundPosition subject operation found := by
  unfold foundPosition
  refine .options ?_
  simp only [L.oneBased_eq]
  infer_instance

instance (subject mode : String) : L.Holds fun k => rangeStart (s k) subject mode := by
  unfold rangeStart
  split <;> infer_instance

instance (subject mode : String) : L.Holds fun k => rangeEnd (s k) subject mode := by
  unfold rangeEnd
  split <;> infer_instance

theorem holds_values : ∀ p ∈ math ++ text ++ lists, L.Holds fun k => p.2.emit (s k) := by
  simp only [math, text, lists, forall_mem_append, forall_mem_cons, forall_mem_nil_iff, and_true, mathNumber,
    mathArithmetic, mathSingle, mathConstant, mathNumberProperty, mathChange, mathOnList, mathModulo, mathConstrain,
    mathRandomInt, mathRandomFloat, mathAtan2, textLiteral, textMultiline, textJoin, textAppend, textLength, textIsEmpty,
    textIndexOf, textCharAt, searchOperation, textGetSubstring, cutPart, cutRange, inlineRange, helperRange, textChangeCase, textTrim,
    textPrint, textPrompt, textCount, textReplace, textReverse, listsCreateEmpty, listsCreateWith, listsRepeat,
    listsLength, listsIsEmpty, listsIndexOf, listsGetIndex, accessItem, accessOnce, accessRandom, fromEndCall,
    unknownMode, holdList, indexAtRandom, cachedList, listsSetIndex, listsGetSublist, listsSort, listsSplit, listsReverse,
    hs.field_eq, hs.fieldOr_eq, hs.hasField_eq, hs.mutation_eq]
  and_intros
  all_goals
    repeat' first | infer_instance | split | refine Holds.bind inferInstance fun _ => ?_ |
      have := listHelper_isPlainKey ‹_›

omit hs in
instance (vs : List String) : L.Holds fun _ => variableNames vs := by
  induction vs <;> unfold variableNames <;> infer_instance

instance (ns : List Nat) : L.Holds fun k => argumentList (s k) ns := by
  induction ns <;> unfold argumentList <;> infer_instance

theorem holds_others : ∀ p ∈ logic ++ loops ++ procedures ++ widgets ++ app ++ device, hasBody p.1 = false →
    L.Holds fun k => p.2.emit (s k) := by
  simp only [logic, loops, procedures, widgets, app, device, forall_mem_append, forall_mem_cons, forall_mem_nil_iff,
    and_true]
  and_intros
  all_goals intro hbody
  all_goals try exact absurd hbody (by decide)
  all_goals
    simp only [logicCompare, logicOperation, logicNegate, logicBoolean, logicNull, logicTernary, callCode, arguments,
      procedureCallReturn, procedureCallNoReturn, variableGet, variableSet, widgetCallReturn, widgetCallNoReturn,
      widgetIfReturn, appBuilder, appLabel, appButton, deviceCoap, deviceField, deviceWait, deviceTogglePin,
      deviceReadPin, deviceWritePin, hs.field_eq, hs.mutation_eq]
    repeat' first | infer_instance | split | refine .options ?_; simp only [L.indent_eq] |
      refine Holds.bind inferInstance fun _ => ?_

/-- **Handlers that read nothing but values obey every law.** -/
theorem holds_reader {type : String} {h : BlockHandler} (hh : standard.get? type = some h)
    (hbody : hasBody type = false) : L.Holds fun k => h.emit (s k) := by
  have hmem := mem_of_get? hh
  have hvalues := @holds_values K L s d hs (type, h)
  have hothers := @holds_others K L s d hs (type, h)
  simp only [standard, mem_append] at hmem hvalues hothers
  grind

end

/-! ### Handlers with bodies -/

/-- The setting is the same for all. -/
class Steady (L : Law K) (setting : outParam Setting) : Prop where
  setting_eq : ∀ k, L.setting k = setting

instance {L : Law Unit} : L.Steady (L.setting ()) := ⟨fun _ => rfl⟩

section

variable {setting : Setting} [hL : L.Steady setting]

instance : L.Holds fun _ => (MonadReader.read : Emit Setting) := by
  refine ⟨L.read (g := fun _ => Pure.pure) ?_⟩
  simp only [hL.setting_eq]
  exact L.pure setting

instance : L.Holds fun _ => options := by
  unfold options
  infer_instance

end

/-- Scenes that look alike to a handler, with code in their sockets that obeys the law. -/
class Bodies (L : Law K) (s : K → Scene) (s₀ : outParam Scene) : Prop where
  value : ∀ name outer, L.Holds fun k => value (s k) name outer
  statements : ∀ name, L.Holds fun k => statements (s k) name
  alike : ∀ k, (s k).Alike s₀ := by exact fun _ => .refl _

section

open Vocabulary

variable {setting : Setting} [hL : L.Steady setting] {s : K → Scene} {s₀ : Scene} [hs : L.Bodies s s₀]

instance : L.Scenes s s₀.data := ⟨fun k => by rw [(hs.alike k).data_eq], hs.value⟩

instance (name : String) : L.Holds fun k => statements (s k) name := hs.statements name

instance (code : String) : L.Holds fun k => withNeighbours (s k) code := by
  have htype : ∀ k, (s k).block.type = s₀.block.type := fun k => congrArg BlockData.type (hs.alike k).data_eq
  unfold withNeighbours
  simp only [htype, (hs.alike _).comments_eq]
  infer_instance

instance (name : String) : L.Holds fun k => branch (s k) name := by
  unfold branch
  simp only [(hs.alike _).data_eq]
  infer_instance

instance (fuel n : Nat) : L.Holds fun k => arms (s k) fuel n := by
  induction fuel generalizing n with
  | zero => unfold arms; infer_instance
  | succ fuel ih =>
    unfold arms arm
    simp only [(hs.alike _).hasSocket_eq]
    infer_instance

instance (word : String) : L.Holds fun k => procedureFunction (s k) word := by
  unfold procedureFunction parameterNames
  simp only [(hs.alike _).data_eq]
  infer_instance

instance (word : String) : L.Holds fun k => callbackFunction (s k) word := by
  unfold callbackFunction parameterNames
  simp only [(hs.alike _).data_eq]
  infer_instance

instance : L.Holds fun k => function? (s k) := by
  unfold function?
  simp only [(hs.alike _).data_eq, (hs.alike _).field_eq]
  infer_instance

include hL hs in
/-- **Handlers that define nothing obey every law.** -/
theorem holds_handler {type : String} {h : BlockHandler} (hh : standard.get? type = some h)
    (hdefines : h.flags.definesProcedure = false) : L.Holds fun k => h.emit (s k) := by
  cases hbody : hasBody type with
  | false => exact holds_reader hh hbody
  | true =>
    unfold hasBody at hbody
    simp only [contains_eq_mem, mem_cons, not_mem_nil, or_false, decide_eq_true_eq] at hbody
    rcases hbody with rfl | rfl | rfl | rfl | rfl | rfl | rfl | rfl | rfl | rfl | rfl | rfl | rfl | rfl | rfl
    all_goals obtain rfl := Option.some.inj hh
    all_goals try exact absurd hdefines Bool.noConfusion
    all_goals
      simp only [controlsIf, controlsRepeat, controlsWhileUntil, controlsFor, controlsForEach, loopBody, controlsFlow,
        enclosingLoop?, procedureIfReturn, appOnStart, deviceForever, (hs.alike _).data_eq, (hs.alike _).field_eq,
        (hs.alike _).hasSocket_eq, (hs.alike _).length_eq, (hs.alike _).enclosing_eq]
      repeat' first | infer_instance | split

end

/-! ### Programs -/

variable {L : Law Unit} {g : Generator}

theorem holds_emitTop {stack : Stack} (h : ∀ b bs, stack = b :: bs → (L.Holds fun _ => b.emit g.vocabulary {}) ∧
      L.Holds fun _ => Stack.emit g.vocabulary (({} : Place).after b.data) bs) :
    L.Holds fun _ => g.emitTop stack := by
  cases stack with
  | nil => unfold Generator.emitTop; infer_instance
  | cons b bs =>
    obtain ⟨hb, hbs⟩ := h b bs rfl
    unfold Generator.emitTop
    refine hb.bind fun code => Holds.bind inferInstance fun failed => ?_
    split
    · infer_instance
    · refine Holds.bind inferInstance fun setting => ?_
      cases code <;> infer_instance

theorem holds_emitTops {tops : List Stack} (htops : ∀ stack ∈ tops, L.Holds fun _ => g.emitTop stack) :
    L.Holds fun _ => g.emitTops tops := by
  induction tops with
  | nil => unfold Generator.emitTops; infer_instance
  | cons stack tops ih =>
    have hstack := htops stack mem_cons_self
    have hrest := ih fun stack' hstack' => htops stack' (mem_cons_of_mem stack hstack')
    unfold Generator.emitTops
    infer_instance

end Law

end BlockProgram
