import BlockProgram.Proofs.Emission.Outcomes
import BlockProgram.Proofs.Text.Literals

/-! # Code that is carried on

A handler gets the code of the blocks below its own, and puts it into the code it gives.  Here the
literals of one text are followed on this way.  As long as a run has not failed, each of them is in
one of these places: in a definition that is stored, or in code that is at hand and will be a part
of what a handler gives.  `Carries` says of a step that it keeps this up: from what is at hand
before it to what is at hand after it.

There are three ways for a literal to get lost.  A block that defines something may find its key in
use, or may not define anything after all; then there are fewer definitions than blocks that define
something.  The argument of one call into the system loses its double quotes.  These two show in the
run at its end (`Tracking.Lost`).  And a check whether a number is divisible gives the number up if
there is nothing to divide by; so every such check is asked to have a divisor (`Scene.Divides`).
-/
namespace BlockProgram

open List Emit

/-! ### Definitions of blocks -/

/-- The block belongs to a definition. -/
def BlockData.defines (b : BlockData) : Bool := ((Vocabulary.standard.flags? b.type).getD {}).definesProcedure

theorem BlockData.exists_handler_of_isProcedureDefinition {b : BlockData} (h : b.isProcedureDefinition = true) :
    ∃ h, Vocabulary.standard.get? b.type = some h := by
  unfold isProcedureDefinition at h
  simp only [Bool.or_eq_true, decide_eq_true_eq] at h
  rcases h with ((htype | htype) | htype) | htype
  all_goals
    rw [htype]
    exact ⟨_, rfl⟩

theorem BlockData.defines_eq (b : BlockData) : b.defines = b.isProcedureDefinition := by
  unfold defines Vocabulary.flags?
  cases hget : Vocabulary.standard.get? b.type with
  | none =>
    refine (Bool.eq_false_iff.mpr fun hdefines => ?_).symm
    obtain ⟨h, hsome⟩ := exists_handler_of_isProcedureDefinition hdefines
    cases hget.symm.trans hsome
  | some h => exact (Vocabulary.isProcedureDefinition_eq hget).symm

/-- The definition was made by a block: no helper function and no import has such a key. -/
def Definition.isOfBlock (d : Definition) : Bool := d.key.toList.head? = some '%'

namespace Run

/-- How many blocks that define something have been entered. -/
def opened (r : Run) : Nat := r.dispatched.countP (·.defines)

/-- How many definitions of blocks are stored. -/
def closed (r : Run) : Nat := r.definitions.countP (·.isOfBlock)

end Run

namespace Definitions

variable {ds : Definitions} {key code : String}

theorem mem_put {d : Definition} (h : d ∈ ds) : d ∈ ds.put key code := by
  unfold put
  split
  · exact h
  · exact mem_append_left _ h

theorem countP_put (h : key.toList.head? ≠ some '%') :
    (ds.put key code).countP (·.isOfBlock) = ds.countP (·.isOfBlock) := by
  unfold put
  split
  · rfl
  · rw [countP_append, countP_singleton, if_neg (by simpa [Definition.isOfBlock] using h), Nat.add_zero]

end Definitions

/-! ### Actions that leave all this alone -/

/-- The action neither enters a block nor stores the definition of one. -/
def Action.IsNeutral : Action → Prop
  | .addHelper key _ | .define key _ => key.toList.head? ≠ some '%'
  | .enter _ | .fail _ _ _ => False
  | _ => True

theorem Run.act_of_isNeutral {a : Action} (ha : a.IsNeutral) (setting : Setting) (r : Run) :
    (r.act setting a).dispatched = r.dispatched ∧ r.definitions ⊆ (r.act setting a).definitions ∧
      (r.act setting a).closed = r.closed := by
  cases a with
  | variableName | procedureName | freshVariable | openPanel => exact ⟨rfl, List.Subset.refl _, rfl⟩
  | addHelper key lines =>
    dsimp only [act]
    rw [addHelper_eq]
    split
    · exact ⟨rfl, List.Subset.refl _, rfl⟩
    · refine ⟨rfl, fun _ hd => Definitions.mem_put hd, Definitions.countP_put ?_⟩
      split
      · rw [divertedKey, String.toList_append]
        exact fun h => absurd (Option.some.inj h) (by decide)
      · exact ha
  | define key code => exact ⟨rfl, fun _ hd => Definitions.mem_put hd, Definitions.countP_put ha⟩
  | addWidget name code =>
    obtain ⟨panels, heq⟩ := addWidget_eq setting name code r
    dsimp only [act]
    rw [heq]
    exact ⟨rfl, List.Subset.refl _, rfl⟩
  | enter | fail => exact ha.elim

/-- If the block checks whether a number is divisible, then there is something to divide by,
whenever that is read and nothing fails. -/
def Scene.Divides (setting : Setting) (s : Scene) : Prop :=
  s.data.type = "math_number_property" → s.field "PROPERTY" = "DIVISIBLE_BY" → ∀ r : Run,
    (value s "DIVISOR" Precedence.multiplicative.tighter setting r).2.failure = none →
      (value s "DIVISOR" Precedence.multiplicative.tighter setting r).1 ≠ ""

/-- A text whose literals are followed. -/
structure Tracking where
  setting : Setting
  text : String
  isIndent : Literal.IsIndent setting.options.indent.toList

namespace Tracking

variable (t : Tracking)

/-- The code holds a literal of the text. -/
def Holds (code : String) : Prop := Literal.Holds t.setting.options.indent t.text code

/-- A block with the text has been entered. -/
def Entered (r : Run) : Prop := ∃ b ∈ r.dispatched, b.type = "text" ∧ b.fieldValue "TEXT" = t.text

/-- The name belongs to the call that strips double quotes from an argument, and the text has
one. -/
def IsStripped (name : String) : Prop :=
  '"' ∈ t.text.toList ∧ Vocabulary.widgetName name = "sensor::new_sensor_listener"

/-- Something was lost, while `depth` blocks that define something are under way. -/
def Lost (depth : Nat) (r : Run) : Prop :=
  depth + r.closed < r.opened ∨ ∃ e ∈ r.names.entries, e.category = .procedure ∧ t.IsStripped e.text

/-- If a block with the text has been entered then a literal of it is at hand, or is stored, or
something was lost. -/
structure Safe (depth : Nat) (hand : Prop) (r : Run) : Prop where
  orderly : r.Orderly
  balance : depth + r.closed ≤ r.opened
  safe : t.Entered r → hand ∨ (∃ d ∈ r.definitions, t.Holds d.code) ∨ t.Lost depth r

/-- From a run where `hand` is at hand, the step leads to one where `out` of its result is, unless
it fails. -/
structure Carries {α : Type} (depth : Nat) (hand : Prop) (x : Emit α) (depth' : Nat) (out : α → Prop) :
    Prop where
  keeps : Keeps t.setting x
  safe : ∀ r : Run, t.Safe depth hand r → (x t.setting r).2.failure = none →
    t.Safe depth' (out (x t.setting r).1) (x t.setting r).2

variable {t} {α β : Type} {depth depth' depth'' : Nat} {hand hand' : Prop} {r : Run}

theorem Safe.mono (h : t.Safe depth hand r) (hhand : hand → hand') : t.Safe depth hand' r :=
  ⟨h.orderly, h.balance, fun hentered => (h.safe hentered).imp_left hhand⟩

/-! ### Steps in sequence -/

namespace Carries

variable {x : Emit α} {out : α → Prop}

theorem of_run (h : ∀ r : Run, r.Orderly → r.Extends (x t.setting r).2 ∧
    (t.Safe depth hand r → (x t.setting r).2.failure = none →
      t.Safe depth' (out (x t.setting r).1) (x t.setting r).2)) : t.Carries depth hand x depth' out :=
  ⟨fun r hr => (h r hr).1, fun r hr => (h r hr.orderly).2 hr⟩

theorem pure {a : α} (h : hand → out a) : t.Carries depth hand (Pure.pure a) depth out :=
  ⟨.of_acts _, fun _ hr _ => hr.mono h⟩

theorem and (h : t.Carries depth hand x depth' out) (known : α → Prop)
    (hknown : ∀ r, (x t.setting r).2.failure = none → known (x t.setting r).1) :
    t.Carries depth hand x depth' fun a => out a ∧ known a :=
  ⟨h.keeps, fun r hr hrunning => (h.safe r hr hrunning).mono fun hout => ⟨hout, hknown r hrunning⟩⟩

theorem mono {out' : α → Prop} (h : t.Carries depth hand x depth' out) (hout : ∀ a, out a → out' a) :
    t.Carries depth hand x depth' out' :=
  ⟨h.keeps, fun r hr hrunning => (h.safe r hr hrunning).mono (hout _)⟩

theorem bind {g : α → Emit β} {mid : α → Prop} {out : β → Prop}
    (hx : t.Carries depth hand x depth' mid) (hg : ∀ a, t.Carries depth' (mid a) (g a) depth'' out) :
    t.Carries depth hand (x >>= g) depth'' out := by
  refine ⟨hx.keeps.bind fun a => (hg a).keeps, fun r hr hrunning => ?_⟩
  -- Had the first step failed, so would the second.
  have horderly := (hx.keeps r hr.orderly).orderly
  have hrunning₁ := ((hg _).keeps _ horderly).running_of hrunning
  exact (hg _).safe _ (hx.safe r hr hrunning₁) hrunning

/-- A step that only looks at the run, or at what stays the same during it. -/
theorem look {g : α → Emit β} {a : α} {out : β → Prop} (hlook : ∀ r, x t.setting r = (a, r))
    (hg : t.Carries depth hand (g a) depth' out) : t.Carries depth hand (x >>= g) depth' out := by
  refine .of_run fun r hr => ?_
  rw [bind_apply, hlook]
  exact ⟨hg.keeps r hr, hg.safe r⟩

theorem options {g : Options → Emit β} {out : β → Prop} (hg : t.Carries depth hand (g t.setting.options) depth' out) :
    t.Carries depth hand (options >>= g) depth' out :=
  look (fun _ => rfl) hg

theorem setting {g : Setting → Emit β} {out : β → Prop} (hg : t.Carries depth hand (g t.setting) depth' out) :
    t.Carries depth hand (read >>= g) depth' out :=
  look (fun _ => rfl) hg

theorem fail {kind : FailureKind} {block : Option BlockData} {detail : String} {out : Fragment → Prop} :
    t.Carries depth hand (fail kind block detail) depth' out :=
  ⟨.of_acts _, fun _ _ hrunning => absurd hrunning (fail_eq _ _ _ _ _).1⟩

/-- A step that asks whether something has failed goes on only if nothing has. -/
theorem failed : t.Carries depth hand failed depth fun failed => failed = false ∧ hand := by
  refine ⟨.of_acts _, fun r hr hrunning => hr.mono fun hhand => ⟨?_, hhand⟩⟩
  have hrunning : r.failure = none := hrunning
  show r.failure.isSome = false
  rw [hrunning]
  rfl

end Carries

/-! ### Elementary steps -/

theorem Safe.act (h : t.Safe depth hand r) {a : Action} (ha : a.IsNeutral) : t.Safe depth hand (r.act t.setting a) := by
  obtain ⟨hdispatched, hdefinitions, hclosed⟩ := Run.act_of_isNeutral ha t.setting r
  have hextends : r.Extends (r.act t.setting a) := h.orderly.extends_act a
  have hopened : (r.act t.setting a).opened = r.opened := congrArg (List.countP _) hdispatched
  refine ⟨hextends.orderly, by rw [hclosed, hopened]; exact h.balance, fun hentered => ?_⟩
  unfold Entered at hentered
  rw [hdispatched] at hentered
  refine (h.safe hentered).imp_right (.imp ?_ ?_)
  · rintro ⟨d, hd, hholds⟩
    exact ⟨d, hdefinitions hd, hholds⟩
  · rintro (hfewer | ⟨e, he, hstripped⟩)
    · exact .inl (by rw [hclosed, hopened]; exact hfewer)
    · exact .inr ⟨e, hextends.entries he, hstripped⟩

theorem Carries.of_act {x : Emit α} [Traceable .standard t.setting x] (a : Action) (ha : a.IsNeutral)
    (heq : ∀ r, (x t.setting r).2 = r.act t.setting a) : t.Carries depth hand x depth fun _ => hand :=
  ⟨.of_acts x, fun r hr _ => heq r ▸ hr.act ha⟩

theorem carries_variableName {x : String} : t.Carries depth hand (variableName x) depth fun _ => hand :=
  .of_act (.variableName x) trivial fun _ => rfl

theorem carries_freshVariable {seed : String} : t.Carries depth hand (freshVariable seed) depth fun _ => hand :=
  .of_act (.freshVariable seed) trivial fun _ => rfl

variable {key : String}

theorem carries_addHelper (hkey : key.toList.head? ≠ some '%') {lines : List String} :
    t.Carries depth hand (addHelper key lines) depth fun _ => hand :=
  .of_act (.addHelper key lines) hkey fun _ => rfl

theorem carries_define (hkey : key.toList.head? ≠ some '%') {code : String} :
    t.Carries depth hand (define key code) depth fun _ => hand :=
  .of_act (.define key code) hkey fun _ => rfl

theorem carries_openPanel : t.Carries depth hand openPanel depth fun _ => hand :=
  .of_act .openPanel trivial fun _ => rfl

theorem carries_addWidget {name code : String} : t.Carries depth hand (addWidget name code) depth fun _ => hand :=
  .of_act (.addWidget name code) trivial fun _ => rfl

theorem carries_procedureName {x : String} : t.Carries depth hand (procedureName x) depth fun _ => hand :=
  .of_act (.procedureName x) trivial fun _ => rfl

/-- What follows the name of a procedure may count on the name not being the one that strips
quotes. -/
theorem Carries.procedureName_bind {x : String} {g : String → Emit β} {out : β → Prop}
    (hg : ∀ name, t.Carries depth hand (g name) depth' fun b => ¬ t.IsStripped name → out b) :
    t.Carries depth hand (procedureName x >>= g) depth' out := by
  refine ⟨Keeps.bind (.of_acts _) fun name => (hg name).keeps, fun r hr hrunning => ?_⟩
  have hnamed : t.Safe depth hand (procedureName x t.setting r).2 :=
    hr.act (show (Action.procedureName x).IsNeutral from trivial)
  have hname := hg (procedureName x t.setting r).1
  have hsafe := hname.safe _ hnamed hrunning
  refine ⟨hsafe.orderly, hsafe.balance, fun hentered => ?_⟩
  by_cases hstripped : t.IsStripped (procedureName x t.setting r).1
  · obtain ⟨e, he, hcategory, -, htext⟩ :=
      NameTable.exists_entry_get hr.orderly.names (show Category.procedure.Known by decide) x
    have hlater := (hname.keeps _ hnamed.orderly).entries he
    exact .inr (.inr (.inr ⟨e, hlater, hcategory, htext ▸ hstripped⟩))
  · exact (hsafe.safe hentered).imp_left fun h => h hstripped

/-- A block that does not define anything after all is one definition too few. -/
theorem Safe.abandon (h : t.Safe (depth + 1) hand r) : t.Safe depth hand' r := by
  have hfewer : depth + r.closed < r.opened := by have := h.balance; omega
  exact ⟨h.orderly, Nat.le_of_lt hfewer, fun _ => .inr (.inr (.inl hfewer))⟩

theorem Safe.store (h : t.Safe (depth + 1) hand r) (d : Definition) (hd : d.isOfBlock = true)
    (hcode : hand → hand' ∨ t.Holds d.code) :
    t.Safe depth hand' { r with definitions := r.definitions ++ [d] } := by
  have hclosed : Run.closed { r with definitions := r.definitions ++ [d] } = r.closed + 1 := by
    show (r.definitions ++ [d]).countP (·.isOfBlock) = r.closed + 1
    rw [countP_append, countP_singleton, if_pos hd]
    rfl
  have hopened : Run.opened { r with definitions := r.definitions ++ [d] } = r.opened := rfl
  refine ⟨⟨h.orderly.names, h.orderly.reserved, h.orderly.helpers⟩, ?_, fun hentered => ?_⟩
  · rw [hclosed, hopened]
    have := h.balance
    omega
  · rcases h.safe hentered with hhand | ⟨e, he, hholds⟩ | hfewer | hstripped
    · exact (hcode hhand).imp_right fun hholds => .inl ⟨d, mem_append_right _ mem_cons_self, hholds⟩
    · exact .inr (.inl ⟨e, mem_append_left _ he, hholds⟩)
    · refine .inr (.inr (.inl ?_))
      omega
    · exact .inr (.inr (.inr hstripped))

theorem Carries.abandon {a : α} {out : α → Prop} : t.Carries (depth + 1) hand (Pure.pure a) depth out :=
  ⟨.of_acts _, fun _ hr _ => hr.abandon⟩

/-- A block that defines something stores its code, or finds the key in use. -/
theorem carries_define_block (hkey : key.toList.head? = some '%') {code : String}
    (hcode : hand → hand' ∨ t.Holds code) :
    t.Carries (depth + 1) hand (define key code) depth fun _ => hand' := by
  refine ⟨.of_acts _, fun r hr _ => ?_⟩
  show t.Safe depth hand' { r with definitions := r.definitions.put key code }
  unfold Definitions.put
  split
  · exact hr.abandon
  · exact hr.store ⟨key, code⟩ (decide_eq_true hkey) hcode

/-! ### Code that holds a literal -/

namespace Holds

variable {code rest : String}

@[grind ←]
theorem append_left (h : t.Holds code) : t.Holds (code ++ rest) := Literal.Holds.append_left h

@[grind ←]
theorem append_right (h : t.Holds rest) : t.Holds (code ++ rest) := Literal.Holds.append_right h

@[grind ←]
theorem append_front {b c d e : String} (h : t.Holds code) : t.Holds (code ++ b ++ c ++ d ++ e) :=
  h.append_left.append_left.append_left.append_left

@[grind ←]
theorem join {separator : String} {parts : List String} (h : ∃ part ∈ parts, t.Holds part) :
    t.Holds (Text.join separator parts) := by
  obtain ⟨part, hmem, hpart⟩ := h
  exact Literal.Holds.join hmem hpart

@[grind ←]
theorem prependLines (h : t.Holds code) : t.Holds (Text.prependLines t.setting.options.indent code) :=
  Literal.Holds.prependLines t.isIndent h

theorem replaceAll_quotes (h : t.Holds code) (htext : '"' ∉ t.text.toList) : t.Holds (Text.replaceAll code "\"" "") :=
  Literal.Holds.replaceAll_quotes t.isIndent htext h

@[grind →]
theorem ne_empty (h : t.Holds code) : code ≠ "" := by
  rintro rfl
  cases h.quote_mem

@[grind →]
theorem isWord_eq_false (h : t.Holds code) : Literal.isWord code = false := Literal.Holds.isWord_eq_false h

@[grind →]
theorem isLiteral_eq_false (h : t.Holds code) : Number.isLiteral code = false :=
  Literal.Holds.isLiteral_eq_false h

theorem enclose (h : t.Holds code) (inner outer : Precedence) : t.Holds (Precedence.enclose code inner outer) := by
  unfold Precedence.enclose
  split <;> grind

end Holds

/-! ### Scenes -/

/-- The step keeps what is at hand, and a literal that turns up is in its code. -/
def CarriesCode (t : Tracking) (x : Emit Fragment) : Prop :=
  ∀ depth hand, t.Carries depth hand x depth fun code => hand ∨ t.Holds code.text

/-- The step keeps what is at hand, and a literal that turns up is in its text. -/
def CarriesText (t : Tracking) (x : Emit String) : Prop :=
  ∀ depth hand, t.Carries depth hand x depth fun text => hand ∨ t.Holds text

/-- What is made of the code of a value holds what the code holds. -/
theorem settle_holds {s : Scene} {name : String} {outer : Precedence} {first : Block} {code : Fragment}
    (hrunning : (settle s name outer first code t.setting r).2.failure = none) :
    (settle s name outer first code t.setting r).2 = r ∧
      (t.Holds code.text → t.Holds (settle s name outer first code t.setting r).1) := by
  rw [settle_apply] at hrunning ⊢
  split at hrunning
  · case isTrue hfailed => exact absurd hrunning (Option.isSome_iff_ne_none.mp hfailed)
  · case isFalse hrunning' =>
    rw [if_neg hrunning']
    split at hrunning
    · case h_1 text precedence =>
      refine ⟨rfl, fun hholds => ?_⟩
      have hholds : t.Holds text := hholds
      show t.Holds (if text = "" then "" else Precedence.enclose text precedence outer)
      rw [if_neg hholds.ne_empty]
      exact hholds.enclose _ _
    · split at hrunning
      · case isTrue hempty => exact ⟨by rw [if_pos hempty], fun hholds => absurd hempty hholds.ne_empty⟩
      · exact absurd hrunning (fail_eq t.setting ..).1

section

variable {s : Scene} (hs : s.Over .standard t.CarriesCode t.CarriesText) {name : String} {outer : Precedence}
include hs

theorem carries_value : t.Carries depth hand (value s name outer) depth fun code => hand ∨ t.Holds code := by
  refine .of_run fun r hr => ?_
  rcases hs.value_cases name r with
    hunread | ⟨slot, first, rest, below, hslot, htarget, -, hcode, hrunning, hcarries⟩
  · rw [value_of_unread hunread]
    exact ⟨hr.extends_self, fun hr _ => hr.mono .inl⟩
  · rw [value_of_read hslot htarget hrunning, hcode]
    have hextends := (hcarries depth hand).keeps r hr
    refine ⟨hextends.trans (Keeps.of_acts (settle s name outer first _) _ hextends.orderly), fun hr hfinal => ?_⟩
    obtain ⟨hrun, hholds⟩ := settle_holds hfinal
    rw [hrun] at hfinal ⊢
    exact ((hcarries depth hand).safe r hr hfinal).mono (.imp_right hholds)

theorem carries_valueOrElse {fallback : String} :
    t.Carries depth hand (valueOrElse s name outer fallback) depth fun code => hand ∨ t.Holds code := by
  refine (carries_value hs).bind fun code => .pure (.imp_right fun hholds => ?_)
  rw [if_neg hholds.ne_empty]
  exact hholds

theorem carries_statements : t.Carries depth hand (statements s name) depth fun code => hand ∨ t.Holds code := by
  unfold statements
  split
  · exact .pure .inl
  · case h_2 slot hslot =>
    refine ((hs.chain slot (Scene.mem_of_slot? hslot)).2 depth hand).bind fun code => ?_
    split
    · refine .pure ?_
      grind
    · refine .options (.pure ?_)
      grind

end

/-! ### Stacks and blocks -/

theorem carries_proceed (b : BlockData) {rest : Emit String} (hrest : t.CarriesText rest) (code : Fragment) :
    t.Carries depth (hand ∨ t.Holds code.text) (proceed b rest code) depth fun text =>
      hand ∨ t.Holds text := by
  unfold proceed
  refine Carries.failed.bind fun failed => ?_
  split
  · case isTrue hfailed => exact .pure fun h => absurd (h.1.symm.trans hfailed) Bool.false_ne_true
  · have hstatement : ∀ text, t.Carries depth (failed = false ∧ (hand ∨ t.Holds text)) (do
        let tail ← rest
        if ← Emit.failed then return ""
        return text ++ tail) depth fun text => hand ∨ t.Holds text := by
      intro text
      refine (hrest _ _).bind fun tail => Carries.failed.bind fun failed => ?_
      split
      · case isTrue hfailed => exact .pure fun h => absurd (h.1.symm.trans hfailed) Bool.false_ne_true
      · exact .pure fun h => by grind
    cases code with
    | expression text precedence => exact Carries.fail.bind fun _ => .pure False.elim
    | statement text => exact hstatement text
    | handled => exact hstatement ""

theorem carries_link (below : Scene) (rest : Emit String)
    (hbelow : t.CarriesCode (dispatch .standard below)) (hrest : t.CarriesText rest) :
    t.CarriesText (link below.data (dispatch .standard below) rest) := by
  intro depth hand
  exact (hbelow depth hand).bind (carries_proceed below.data hrest)

/-- Entering a block: if it has the text, then so does what is at hand. -/
theorem Safe.enter (h : t.Safe depth hand r) (b : BlockData) :
    t.Safe (if b.defines then depth + 1 else depth) (hand ∨ b.type = "text" ∧ b.fieldValue "TEXT" = t.text)
      { r with dispatched := b :: r.dispatched } := by
  have hclosed : Run.closed { r with dispatched := b :: r.dispatched } = r.closed := rfl
  have hopened : Run.opened { r with dispatched := b :: r.dispatched } =
      r.opened + if b.defines then 1 else 0 := countP_cons
  refine ⟨⟨h.orderly.names, h.orderly.reserved, h.orderly.helpers⟩, ?_, ?_⟩
  · rw [hclosed, hopened]
    have := h.balance
    split <;> omega
  · rintro ⟨b', hb', htype, htext⟩
    rcases mem_cons.mp hb' with rfl | hb'
    · exact .inl (.inr ⟨htype, htext⟩)
    · refine (h.safe ⟨b', hb', htype, htext⟩).imp .inl (.imp_right (.imp_left fun hfewer => ?_))
      rw [hclosed, hopened]
      split <;> omega

/-- The handler carries on what it is given. While it works, the depth counts its block if that
defines something. -/
def CarriesHandler (t : Tracking) (s : Scene) (h : BlockHandler) : Prop :=
  ∀ depth hand, t.Carries (if h.flags.definesProcedure then depth + 1 else depth) hand (h.emit s) depth
    fun code => hand ∨ t.Holds code.text

/-- Every handler carries on what it is given. -/
def CarriesAll (t : Tracking) : Prop :=
  ∀ s : Scene, s.Divides t.setting → s.Over .standard t.CarriesCode t.CarriesText → ∀ h,
    Vocabulary.standard.get? s.data.type = some h → t.CarriesHandler s h

/-- Here the literals come from. -/
theorem holds_text {s : Scene} {h : BlockHandler} (hget : Vocabulary.standard.get? s.data.type = some h) (r : Run)
    (htype : s.data.type = "text") (htext : s.field "TEXT" = t.text) : t.Holds (h.emit s t.setting r).1.text := by
  rw [htype] at hget
  obtain rfl : ⟨Vocabulary.textLiteral, {}⟩ = h := Option.some.inj hget
  show t.Holds (Literal.quote (s.field "TEXT"))
  rw [htext]
  exact Literal.holds_quote _ _

theorem Holds.dressed {code : Fragment} (h : t.Holds code.text) (o : Options) (flags : HandlerFlags) (s : Scene) :
    t.Holds (dressed o flags s code).text := by
  cases code with
  | expression text precedence => exact h.append_right
  | statement text =>
    refine append_right ?_
    split
    · exact h
    · exact h.append_right.append_left
  | handled => exact absurd rfl h.ne_empty

theorem carries_dispatch (hall : t.CarriesAll) (s : Scene) (hdivides : s.Divides t.setting)
    (hs : s.Over .standard t.CarriesCode t.CarriesText) : t.CarriesCode (dispatch .standard s) := by
  refine fun depth hand => .of_run fun r hr => ?_
  by_cases hidle : r.failure.isSome ∨ s.data.disabled = true
  · rw [dispatch_of_idle hidle]
    exact ⟨hr.extends_self, fun hr _ => hr.mono .inl⟩
  · rw [not_or, Bool.not_eq_true, Option.isSome_eq_false_iff, Option.isNone_iff_eq_none, Bool.not_eq_true] at hidle
    obtain ⟨hrunning, henabled⟩ := hidle
    cases hget : Vocabulary.standard.get? s.data.type with
    | none =>
      rw [dispatch_of_unknown hrunning henabled hget]
      exact ⟨Keeps.of_acts (fail _ _ _) r hr, fun _ hfinal => absurd hfinal (fail_eq t.setting ..).1⟩
    | some h =>
      have hhandler := hall s hdivides hs h hget depth
      have hentered : r.Extends (r.act t.setting (.enter s.data)) := hr.extends_act _
      rw [dispatch_of_handled hrunning henabled hget]
      refine ⟨hentered.trans ((hhandler hand).keeps _ hentered.orderly), fun hr hfinal => ?_⟩
      have henter := hr.enter s.data
      rw [BlockData.defines_eq, Vocabulary.isProcedureDefinition_eq hget] at henter
      refine ((hhandler _).safe _ henter hfinal).mono fun hcode => ?_
      dsimp only at hfinal ⊢
      rw [hfinal]
      rcases hcode with (hhand | ⟨htype, htext⟩) | hholds
      · exact .inl hhand
      · exact .inr ((holds_text hget _ htype htext).dressed _ _ s)
      · exact .inr (hholds.dressed _ _ s)

theorem CarriesAll.emitRule (hall : t.CarriesAll) :
    EmitRule .standard (Scene.Divides t.setting) t.CarriesCode t.CarriesText where
  dispatch := carries_dispatch hall
  nil _ _ := .pure .inl
  link := carries_link

end Tracking

end BlockProgram
