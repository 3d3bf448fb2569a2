import BlockProgram.Proofs.Emission.Parallel

/-! # Statements are lines

The text of every statement ends with a line break (`Lined`), and so has a character.  Whether a
text ends its line is found from its last pieces (`IsLine`, `EndsLine`), and what a handler gives
from the steps it is put together from, so that one walk over the vocabulary proves it for all
blocks but those that define something (`lined_handler`).
-/
namespace BlockProgram

open List Emit

/-! ### Texts -/

namespace Text

/-- The text ends with a line break.  This and the next are classes, so that they are found by
following the way a text is put together. -/
class IsLine (text : String) : Prop where
  getLast?_eq : text.toList.getLast? = some '\n'

/-- The text is empty, or ends with a line break. -/
class EndsLine (text : String) : Prop where
  isLine : text ≠ "" → IsLine text

instance : IsLine "\n" := ⟨by decide⟩
instance : IsLine ";\n" := ⟨by decide⟩
instance : IsLine ")\n" := ⟨by decide⟩
instance : IsLine " )\n" := ⟨by decide⟩
instance : IsLine ");\n" := ⟨by decide⟩
instance : IsLine ") ? ;\n" := ⟨by decide⟩
instance : IsLine "].join();\n" := ⟨by decide⟩
instance : IsLine "break;\n" := ⟨by decide⟩
instance : IsLine "continue;\n" := ⟨by decide⟩
instance : IsLine "return;\n" := ⟨by decide⟩
instance : IsLine "( loop  \n" := ⟨by decide⟩
instance : IsLine " \x7b\n" := ⟨by decide⟩
instance : IsLine ") \x7b\n" := ⟨by decide⟩
instance : IsLine "++) \x7b\n" := ⟨by decide⟩
instance : IsLine " else \x7b\n" := ⟨by decide⟩
instance : IsLine "main() \x7b\n" := ⟨by decide⟩
instance : IsLine "\x7d\n" := ⟨by decide⟩

instance EndsLine.empty : EndsLine "" := ⟨fun h => absurd rfl h⟩

section

variable {p : Prop} [Decidable p] (first second : String)

instance [h : IsLine first] : EndsLine first := ⟨fun _ => h⟩

instance [h : IsLine second] : IsLine (first ++ second) :=
  ⟨by rw [String.toList_append, getLast?_append, h.getLast?_eq]; rfl⟩

instance [h : IsLine first] [h' : EndsLine second] : IsLine (first ++ second) := by
  by_cases hempty : second = ""
  · rwa [hempty, String.append_empty]
  · have := h'.isLine hempty
    infer_instance

instance [h : EndsLine first] [h' : EndsLine second] : EndsLine (first ++ second) := by
  by_cases hempty : first = ""
  · rwa [hempty, String.empty_append]
  · have := h.isLine hempty
    infer_instance

instance [h : IsLine first] [h' : IsLine second] : IsLine (if p then first else second) := by
  split <;> assumption

instance [h : EndsLine first] [h' : EndsLine second] : EndsLine (if p then first else second) := by
  split <;> assumption

end

theorem IsLine.ne_empty {text : String} (h : IsLine text) : text ≠ "" := by
  rintro rfl
  exact absurd h.getLast?_eq (by decide)

end Text

open Text

/-! ### Handlers -/

/-- The code is a statement with some text. -/
def Fragment.IsSolid (code : Fragment) : Prop := ∃ text, code = .statement text ∧ text ≠ ""

/-- There is code.  If it is a statement then it ends its line, and otherwise values are allowed. -/
def Fragment.Lined (values : Bool) : Fragment → Prop
  | .statement text => IsLine text
  | .expression _ _ => values = true
  | .handled => False

/-- Unless the step fails, it gives a statement that ends its line or, if they are allowed, a value.
It is a class, so that it is found by following the way a step is put together. -/
class Lined (setting : Setting) (values : Bool) (x : Emit Fragment) : Prop where
  delivers : Delivers setting x (Fragment.Lined values)

/-- Unless the step fails, it gives something. -/
class Certain (setting : Setting) {α : Type} (x : Emit (Option α)) : Prop where
  delivers : Delivers setting x (·.isSome)

section

variable {setting : Setting} {values : Bool} {α β : Type}

instance Lined.bind {x : Emit α} {g : α → Emit Fragment} [h : ∀ a, Lined setting values (g a)] :
    Lined setting values (x >>= g) :=
  ⟨.bind fun a => (h a).delivers⟩

instance {x : Emit (Option α)} {g : Option α → Emit Fragment} [hx : Certain setting x] [hnone : Acts setting (g none)]
    [hsome : ∀ a, Lined setting values (g (some a))] : Lined setting values (x >>= g) := by
  refine ⟨fun r hr => ?_⟩
  have hcertain := hx.delivers r
  rw [bind_apply] at hr ⊢
  cases hout : (x setting r).1 with
  | none =>
    rw [hout] at hr hcertain
    cases hcertain (not_not.mp fun hfailed => hnone.failure_ne_none hfailed hr)
  | some a =>
    rw [hout] at hr
    exact (hsome a).delivers _ hr

instance {p : Prop} [Decidable p] {x y : Emit Fragment} [hx : Lined setting values x] [hy : Lined setting values y] :
    Lined setting values (if p then x else y) := by
  split <;> assumption

instance (text : String) (precedence : Precedence) : Lined setting true (pure (.expression text precedence)) := ⟨.pure rfl⟩

instance (text : String) [h : IsLine text] : Lined setting values (pure (.statement text)) := ⟨.pure h⟩

instance (kind : FailureKind) (block : Option BlockData) (detail : String) : Lined setting values (fail kind block detail) :=
  ⟨.fail kind block detail⟩

instance {x : Emit β} {g : β → Emit (Option α)} [h : ∀ b, Certain setting (g b)] : Certain setting (x >>= g) :=
  ⟨.bind fun b => (h b).delivers⟩

instance (a : α) : Certain setting (pure (some a)) := ⟨.pure rfl⟩

instance (kind : FailureKind) (block : Option BlockData) (detail : String) :
    Certain setting (fail kind block detail >>= fun _ => pure (none : Option α)) :=
  ⟨fun r hr => absurd hr (fail_eq setting kind block detail r).1⟩

variable (s : Scene)

instance (outer : Precedence) (fallback : String) : Certain setting (items s outer fallback) := by
  unfold items
  dsimp only
  split <;> infer_instance

namespace Vocabulary

instance (subject mode : String) : Certain setting (rangeStart s subject mode) := by
  unfold rangeStart
  split <;> infer_instance

instance (subject mode : String) : Certain setting (rangeEnd s subject mode) := by
  unfold rangeEnd
  split <;> infer_instance

/-- Blocks of these types are statements. -/
def isStatement (type : String) : Bool :=
  hasBody type || ["variables_set", "math_change", "text_append", "text_print"].contains type

theorem lined_statements : ∀ p ∈ logic ++ loops ++ procedures ++ widgets ++ app ++ device,
    p.2.flags.definesProcedure = false → Lined setting (!isStatement p.1) (p.2.emit s) := by
  simp only [logic, loops, procedures, widgets, app, device, forall_mem_append, forall_mem_cons, forall_mem_nil_iff,
    and_true]
  and_intros
  all_goals rintro ⟨⟩
  all_goals
    first | change Lined setting true _ | change Lined setting false _
    try simp only [controlsIf, logicCompare, logicOperation, logicNegate, logicBoolean, logicNull, logicTernary,
      controlsRepeat, controlsWhileUntil, controlsFor, controlsForEach, controlsFlow, procedureCallReturn,
      procedureCallNoReturn, procedureIfReturn, variableGet, variableSet, widgetCallReturn, widgetCallNoReturn,
      widgetIfReturn, appOnStart, appBuilder, Text.join, String.intercalate_cons_cons, String.intercalate_singleton,
      String.append_empty, appLabel, appButton, deviceField, deviceForever, deviceWait, deviceTogglePin, deviceReadPin,
      deviceWritePin, deviceCoap]
    repeat' first | infer_instance | split

theorem lined_values : ∀ p ∈ math ++ Vocabulary.text ++ lists, Lined setting (!isStatement p.1) (p.2.emit s) := by
  simp only [math, Vocabulary.text, lists, forall_mem_append, forall_mem_cons, forall_mem_nil_iff, and_true]
  and_intros
  all_goals
    first | change Lined setting true _ | change Lined setting false _
    try simp only [mathNumber, mathArithmetic, mathSingle, mathConstant, mathNumberProperty, mathChange, mathOnList,
      mathModulo, mathConstrain, mathRandomInt, mathRandomFloat, mathAtan2, textLiteral, textMultiline, textJoin,
      textAppend, textLength, textIsEmpty, textIndexOf, foundPosition, textCharAt, textGetSubstring, cutPart, cutRange, inlineRange,
      helperRange, textChangeCase, textTrim, textPrint, textPrompt, textCount, textReplace, textReverse, listsCreateEmpty,
      listsCreateWith, listsRepeat, listsLength, listsIsEmpty, listsIndexOf, listsGetIndex, accessItem, accessOnce,
      accessRandom, fromEndCall, unknownMode, listsSetIndex, listsGetSublist, listsSort, listsSplit, listsReverse]
    repeat' first | infer_instance | split | refine Lined.bind (h := fun _ => ?_)

theorem lined_handler {h : BlockHandler} {type : String} (hget : standard.get? type = some h)
    (hdefines : h.flags.definesProcedure = false) : Lined setting (!isStatement type) (h.emit s) := by
  have hmem := mem_of_get? hget
  have hstatements := @lined_statements setting s (type, h)
  have hvalues := @lined_values setting s (type, h)
  simp only [standard, mem_append] at hmem hstatements hvalues
  tauto

theorem solid_handler {h : BlockHandler} {type : String} (hget : standard.get? type = some h)
    (hdefines : h.flags.definesProcedure = false) (hstatement : isStatement type = true) :
    Delivers setting (h.emit s) Fragment.IsSolid := by
  intro r hr
  have hlined := (lined_handler s hget hdefines).delivers r hr
  rw [hstatement] at hlined
  cases hcode : (h.emit s setting r).1 with
  | statement text =>
    rw [hcode] at hlined
    exact ⟨text, rfl, IsLine.ne_empty hlined⟩
  | expression | handled =>
    rw [hcode] at hlined
    cases hlined

end Vocabulary

end

end BlockProgram
