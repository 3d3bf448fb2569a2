import BlockProgram.Proofs.Emission.Traces
import BlockProgram.Proofs.Number.Whole

/-! # Operands are evaluated once

Code that is put together from the text of an operand has this text in it once, unless it is a
single word or a number, whose evaluation may be repeated (`IsBare`).  To say so, the steps for the
operand are replaced by others (`Scene.rework`): the handler runs them once, if at all, and in the
code it gives their text stands between two others that do not depend on it
(`operand_spliced_once`).
-/
namespace BlockProgram

open Vocabulary Emit

/-! ### Other operands -/

/-- The scene in which the steps for what is plugged into a socket are replaced. -/
def Scene.rework (s : Scene) (name : String) (f : Emit Fragment → Emit Fragment) : Scene :=
  { s with slots := s.slots.map fun slot => if slot.name = name then { slot with code := f slot.code } else slot }

namespace Scene

variable {s : Scene} {name x : String} {f : Emit Fragment → Emit Fragment}

theorem rework_id : s.rework name id = s := by
  have hid : ∀ slot : Slot, (if slot.name = name then { slot with code := id slot.code } else slot) = slot := fun slot =>
    ite_self slot
  show { s with slots := s.slots.map _ } = s
  rw [funext hid, List.map_id']

theorem slot?_rework : (s.rework name f).slot? x =
    (s.slot? x).map fun slot => if x = name then { slot with code := f slot.code } else slot := by
  unfold slot? rework
  induction s.slots with
  | nil => rfl
  | cons slot slots ih =>
    rw [List.map_cons, List.find?_cons, List.find?_cons, ih]
    by_cases hname : slot.name = name <;> by_cases hx : slot.name = x <;> simp_all

theorem value_rework (hx : x ≠ name) (outer : Precedence) : value (s.rework name f) x outer = value s x outer := by
  unfold value
  rw [slot?_rework]
  simp only [hx, if_false, Option.map_id']
  rfl

theorem valueOrElse_rework (hx : x ≠ name) (outer : Precedence) (fallback : String) :
    valueOrElse (s.rework name f) x outer fallback = valueOrElse s x outer fallback := by
  unfold valueOrElse
  rw [value_rework hx]

theorem adjusted_rework (hx : x ≠ name) (delta : Int) (negate : Bool) (outer : Precedence) :
    adjusted (s.rework name f) x delta negate outer = adjusted s x delta negate outer := by
  unfold adjusted
  simp only [valueOrElse_rework hx]

theorem statements_rework : statements (s.rework name f) x = statements s x := by
  unfold statements
  rw [slot?_rework]
  cases s.slot? x with
  | none => rfl
  | some slot =>
    dsimp only [Option.map_some]
    split <;> rfl

theorem data_rework (f : Emit Fragment → Emit Fragment) : (s.rework name f).data = s.data := rfl

theorem field_rework (f : Emit Fragment → Emit Fragment) : (s.rework name f).field = s.field := by
  unfold field
  rfl

theorem fieldOr_rework (f : Emit Fragment → Emit Fragment) : fieldOr (s.rework name f) = fieldOr s := by
  unfold fieldOr
  rfl

theorem loopBody_rework (f : Emit Fragment → Emit Fragment) : loopBody (s.rework name f) = loopBody s := rfl

end Scene

/-! ### Texts with an operand in them -/

/-- The text is one word, such as a name, a boolean or null, or it is a number. -/
def IsBare (t : String) : Prop := (∀ c ∈ t.toList, c.isAlphanum ∨ c = '_') ∨ Number.isLiteral t = true

/-- The text of an operand whose evaluation may not be repeated. -/
abbrev Costly : Type := { w : String // ¬ IsBare w }

namespace Costly

variable (w : Costly)

theorem ne_empty : w.1 ≠ "" := fun h => w.2 (.inl (by simp [h]))

theorem isLiteral_eq : Number.isLiteral w.1 = false := Bool.eq_false_iff.mpr fun h => w.2 (.inr h)

theorem isWord_eq : Literal.isWord w.1 = false := by
  refine Bool.eq_false_iff.mpr fun h => w.2 (.inl fun c hc => ?_)
  have hall := (Bool.and_eq_true_iff.mp h).2
  simpa [Text.isWordChar] using List.all_eq_true.mp hall c hc

theorem isRepeatable_eq : isRepeatable w.1 = false := Bool.or_eq_false_iff.mpr ⟨w.isWord_eq, w.isLiteral_eq⟩

/-- It stays costly in brackets. -/
theorem enclose (p outer : Precedence) : ¬ IsBare (Precedence.enclose w.1 p outer) := by
  unfold Precedence.enclose
  split
  · have hmem : '(' ∈ ("(" ++ w.1 ++ ")").toList := by simp
    rintro (hword | hliteral)
    · exact absurd (hword _ hmem) (by decide)
    · exact absurd (Number.mem_of_isLiteral hliteral hmem (by decide)) (by decide)
  · exact w.2

end Costly

/-- The operand stands in the text once. -/
class HasOnce (v : Costly → String) : Prop where
  split : ∃ pre post, ∀ w, v w = pre ++ w.1 ++ post

section

variable {v u : Costly → String} [hv : HasOnce v] [hu : HasOnce u] (a : String)

instance : HasOnce fun w => w.1 := ⟨"", "", fun w => by simp⟩

instance : HasOnce fun w => a ++ v w := by
  obtain ⟨pre, post, h⟩ := hv.split
  exact ⟨a ++ pre, post, fun w => by simp only [h, String.append_assoc]⟩

instance : HasOnce fun w => v w ++ a := by
  obtain ⟨pre, post, h⟩ := hv.split
  exact ⟨pre, post ++ a, fun w => by rw [h, String.append_assoc]⟩

instance {p : Prop} [Decidable p] : HasOnce fun w => if p then v w else u w := by
  split <;> assumption

end

/-- The code has the operand in it once, unless there is none because of a failure. -/
def SplicedOnce (out : Costly → Fragment × Run) : Prop :=
  (∀ w, (out w).2.failure ≠ none) ∨ ∃ (form : String → Fragment) (pre post : String) (r : Run),
    (∀ t, (form t).text = t) ∧ ∀ w, out w = (form (pre ++ w.1 ++ post), r)

/-- The steps give code with the operand in it once, or fail. -/
class WritesOnce (setting : Setting) (X : Costly → Emit Fragment) : Prop where
  once : ∀ r, SplicedOnce fun w => X w setting r

section

variable {setting : Setting} {v : Costly → String} [hv : HasOnce v]

theorem writesOnce_pure (form : String → Fragment) (hform : ∀ t, (form t).text = t) : WritesOnce setting fun w => pure (form (v w)) := by
  obtain ⟨pre, post, h⟩ := hv.split
  exact ⟨fun r => .inr ⟨form, pre, post, r, hform, fun w => by rw [← h]; rfl⟩⟩

instance : WritesOnce setting fun w => pure (.statement (v w)) := writesOnce_pure _ fun _ => rfl

instance (p : Precedence) : WritesOnce setting fun w => pure (.expression (v w) p) := writesOnce_pure (.expression · p) fun _ => rfl

instance (kind : FailureKind) (block : Option BlockData) (detail : String) : WritesOnce setting fun _ => fail kind block detail :=
  ⟨fun r => .inl fun _ => (fail_eq setting kind block detail r).1⟩

instance (kind : FailureKind) (block : Option BlockData) (detail : String) :
    WritesOnce setting fun _ => fail kind block detail >>= fun _ => pure .empty :=
  ⟨fun r => .inl fun _ => (fail_eq setting kind block detail r).1⟩

instance {α : Type} {x : Emit α} {X : Costly → α → Emit Fragment} [h : ∀ a, WritesOnce setting fun w => X w a] :
    WritesOnce setting fun w => x >>= X w :=
  ⟨fun r => (h (x setting r).1).once (x setting r).2⟩

end

/-! ### Steps that read an operand -/

/-- The steps run those for the operand once, if at all, and its text stands in their code once. -/
class Uses (setting : Setting) (slot : Slot) (X : (Emit Fragment → Emit Fragment) → Emit Fragment) : Prop where
  reads : ∀ r, (∀ f, X f setting r = X id setting r) ∨ ∃ (r' : Run) (Y : Fragment × Run → Fragment × Run),
    (∀ f, X f setting r = Y (f slot.code setting r')) ∧
      ∀ p r'', r''.failure = none → SplicedOnce fun w => Y (.expression w.1 p, r'')

section

variable {setting : Setting} {slot : Slot} {s : Scene} {name : String}

instance (x : Emit Fragment) : Uses setting slot fun _ => x := ⟨fun _ => .inl fun _ => rfl⟩

instance Uses.bind {α : Type} {x : Emit α} {X : (Emit Fragment → Emit Fragment) → α → Emit Fragment}
    [h : ∀ a, Uses setting slot fun f => X f a] : Uses setting slot fun f => x >>= X f :=
  ⟨fun r => (h (x setting r).1).reads (x setting r).2⟩

instance {p : Prop} [Decidable p] {X Y : (Emit Fragment → Emit Fragment) → Emit Fragment} [hX : Uses setting slot X]
    [hY : Uses setting slot Y] : Uses setting slot fun f => if p then X f else Y f := by
  split <;> assumption

/-- **What is read is spliced in once**, if the steps behind do so. -/
instance Uses.read [hslot : Fact (s.slot? name = some slot)] {outer : Precedence} {fallback : String}
    {Y : String → Emit Fragment} [h : WritesOnce setting fun w => Y w.1] :
    Uses setting slot fun f => valueOrElse (s.rework name f) name outer fallback >>= Y := by
  refine ⟨fun r => ?_⟩
  have hslot' (f) : (s.rework name f).slot? name = some { slot with code := f slot.code } := by
    rw [Scene.slot?_rework, hslot.out, Option.map_some, if_pos rfl]
  -- what is done with the value and the run it is read in
  let next (out : String × Run) := Y (if out.1 = "" then fallback else out.1) setting out.2
  have hX (f) : (valueOrElse (s.rework name f) name outer fallback >>= Y) setting r =
      next (value (s.rework name f) name outer setting r) := rfl
  simp only [hX]
  by_cases hidle : slot.target = [] ∨ r.failure.isSome
  · have hunread (f) : value (s.rework name f) name outer setting r = ("", r) := by
      refine value_of_unread (hidle.imp_left fun hempty slot' hslot'' => ?_)
      obtain rfl := Option.some.inj ((hslot' f).symm.trans hslot'')
      exact hempty
    exact .inl fun f => by rw [hunread, hunread]
  · rw [not_or, Option.not_isSome_iff_eq_none] at hidle
    obtain ⟨first, rest, htarget⟩ := List.exists_cons_of_ne_nil hidle.1
    refine .inr ⟨r, fun out => next (settle s name outer first out.1 setting out.2), fun f => ?_, fun p r'' hrunning => ?_⟩
    · exact congrArg next (value_of_read (hslot' f) htarget hidle.2)
    · have hnext (w : Costly) : next (settle s name outer first (.expression w.1 p) setting r'') =
          Y (Precedence.enclose w.1 p outer) setting r'' := by
        rw [settle_apply, hrunning]
        simp [next, w.ne_empty, Costly.ne_empty ⟨_, w.enclose p outer⟩]
      simp only [hnext]
      refine (h.once r'').imp (fun hfail w => hfail ⟨_, w.enclose p outer⟩) ?_
      rintro ⟨form, pre, post, r₁, hform, honce⟩
      obtain ⟨pre', post', hv⟩ : HasOnce fun w => pre ++ Precedence.enclose w.1 p outer ++ post := by
        unfold Precedence.enclose
        split <;> infer_instance
      exact ⟨form, pre', post', r₁, hform, fun w => (honce ⟨_, w.enclose p outer⟩).trans (by rw [← hv])⟩

/-- The same for positions, which are moved behind a costly text. -/
instance [hslot : Fact (s.slot? name = some slot)] {delta : Int} {negate : Bool} {outer : Precedence}
    {Y : String → Emit Fragment} [h : ∀ v : { v : Costly → String // HasOnce v }, WritesOnce setting fun w => Y (v.1 w)] :
    Uses setting slot fun f => adjusted (s.rework name f) name delta negate outer >>= Y := by
  unfold adjusted
  simp only [bind_assoc]
  refine .bind (h := fun o => .read (h := ?_))
  simp only [Costly.isLiteral_eq, Bool.false_eq_true, if_false, pure_bind]
  have h' (v) [hv : HasOnce v] : WritesOnce setting fun w => Y (v w) := h ⟨v, hv⟩
  exact h' _

instance (v : { v : Costly → String // HasOnce v }) : HasOnce fun w => v.1 w := v.2

end

/-! ### Handlers -/

namespace Scene

variable {setting : Setting} {s : Scene} {name : String} {slot : Slot} [hslot : Fact (s.slot? name = some slot)]

theorem uses_listsGetIndex (hname : name ∈ ["VALUE", "AT"]) :
    Uses setting slot fun f => listsGetIndex (s.rework name f) := by
  unfold listsGetIndex
  simp only [fieldOr_rework]
  generalize fieldOr s "MODE" "GET" = mode
  generalize fieldOr s "WHERE" "FROM_START" = position
  unfold accessOnce accessRandom accessItem fromEndCall
  simp only [unknownMode, data_rework, holdList, indexAtRandom, bind_assoc, pure_bind]
  simp only [List.mem_cons, List.not_mem_nil, or_false] at hname
  rcases hname with rfl | rfl
  · simp only [adjusted_rework, ne_eq, String.reduceEq, not_false_eq_true]
    refine .read (h := ?_)
    simp only [Costly.isWord_eq]
    repeat' first | infer_instance | split | exact absurd rfl ‹_›
  · simp only [valueOrElse_rework, ne_eq, String.reduceEq, not_false_eq_true]
    repeat' first | infer_instance | split

theorem uses_listsSetIndex (hname : name ∈ ["LIST", "AT", "TO"]) :
    Uses setting slot fun f => listsSetIndex (s.rework name f) := by
  unfold listsSetIndex
  simp only [fieldOr_rework]
  generalize fieldOr s "MODE" "GET" = mode
  generalize fieldOr s "WHERE" "FROM_START" = position
  simp only [unknownMode, data_rework, cachedList, holdList, indexAtRandom, bind_assoc, pure_bind]
  simp only [List.mem_cons, List.not_mem_nil, or_false] at hname
  rcases hname with rfl | rfl | rfl
  all_goals simp only [adjusted_rework, valueOrElse_rework, ne_eq, String.reduceEq, not_false_eq_true]
  · refine .read (h := ?_)
    simp only [Costly.isWord_eq, Bool.false_eq_true, if_false, bind_assoc, pure_bind]
    repeat' first | infer_instance | split
  all_goals repeat' first | infer_instance | split

theorem uses_listsGetSublist (hname : name ∈ ["LIST", "AT1", "AT2"]) :
    Uses setting slot fun f => listsGetSublist (s.rework name f) := by
  unfold listsGetSublist cutPart cutRange
  simp only [field_rework]
  generalize s.field "WHERE1" = mode1
  generalize s.field "WHERE2" = mode2
  unfold helperRange inlineRange rangeStart rangeEnd
  simp only [data_rework]
  simp only [List.mem_cons, List.not_mem_nil, or_false] at hname
  rcases hname with rfl | rfl | rfl
  all_goals simp only [adjusted_rework, valueOrElse_rework, ne_eq, String.reduceEq, not_false_eq_true]
  · refine .read (h := ?_)
    simp only [Costly.isWord_eq]
    repeat' first | infer_instance | split | exact absurd rfl ‹_› | simp only [bind_assoc, pure_bind]
  all_goals
    repeat' first
      | infer_instance
      | split
      | exact absurd ‹_ = "LAST"› (by decide)
      | simp only [bind_assoc, pure_bind]

theorem uses_controlsRepeat (hname : name ∈ ["TIMES"]) : Uses setting slot fun f => controlsRepeat (s.rework name f) := by
  obtain rfl := List.mem_singleton.mp hname
  unfold controlsRepeat onceEvaluated
  simp only [data_rework, statements_rework, loopBody_rework, field_rework]
  split
  · infer_instance
  · refine .read (h := ?_)
    simp only [Costly.isRepeatable_eq, Bool.false_eq_true, if_false, bind_assoc, pure_bind]
    infer_instance

theorem uses_controlsFor (hname : name ∈ ["FROM", "TO", "BY"]) : Uses setting slot fun f => controlsFor (s.rework name f) := by
  unfold controlsFor onceEvaluated
  simp only [statements_rework, loopBody_rework, field_rework]
  simp only [List.mem_cons, List.not_mem_nil, or_false] at hname
  rcases hname with rfl | rfl | rfl
  all_goals
    simp only [valueOrElse_rework, ne_eq, String.reduceEq, not_false_eq_true]
    repeat' first | refine Uses.read (h := ?_) | refine Uses.bind (h := fun _ => ?_)
    simp only [Costly.isRepeatable_eq, Costly.isLiteral_eq, Bool.false_and, Bool.and_false, Bool.false_eq_true, if_false,
      bind_assoc, pure_bind, String.append_assoc]
    infer_instance

end Scene

/-- The operands of the blocks that might have to mention one of them more than once. -/
def operands : List (String × List String) := [
  ("lists_getIndex", ["VALUE", "AT"]), ("lists_setIndex", ["LIST", "AT", "TO"]), ("lists_getSublist", ["LIST", "AT1", "AT2"]),
  ("controls_repeat_ext", ["TIMES"]), ("controls_for", ["FROM", "TO", "BY"])]

theorem uses_operand {type : String} {names : List String} (htype : (type, names) ∈ operands) {h : BlockHandler}
    (hget : standard.get? type = some h) {name : String} (hname : name ∈ names) {s : Scene} {slot : Slot}
    (hslot : s.slot? name = some slot) (setting : Setting) : Uses setting slot fun f => h.emit (s.rework name f) := by
  have : Fact (s.slot? name = some slot) := ⟨hslot⟩
  simp only [operands, List.mem_cons, List.not_mem_nil, or_false, Prod.mk.injEq] at htype
  rcases htype with ⟨rfl, rfl⟩ | ⟨rfl, rfl⟩ | ⟨rfl, rfl⟩ | ⟨rfl, rfl⟩ | ⟨rfl, rfl⟩
  all_goals obtain rfl := Option.some.inj hget
  · exact Scene.uses_listsGetIndex hname
  · exact Scene.uses_listsSetIndex hname
  · exact Scene.uses_listsGetSublist hname
  · exact Scene.uses_controlsRepeat hname
  · exact Scene.uses_controlsFor hname

/-- How a handler uses an operand from the run `r` on.  It is not read: with whatever other steps in
its socket, the outcome is the same.  Or the steps for it are run once, at `r'`, and all that
follows is a function `finish` of what they give.  If that is a text which is not bare, then it
stands in the code once, between two texts that would be the same for every other text like that. -/
def Scene.EvaluatesOnce (s : Scene) (x : Handler) (name : String) (slot : Slot) (setting : Setting) (r : Run) : Prop :=
  (∀ f, x (s.rework name f) setting r = x s setting r) ∨
  ∃ (r' : Run) (finish : Fragment × Run → Fragment × Run),
    (∀ f, x (s.rework name f) setting r = finish (f slot.code setting r')) ∧
    ∀ t p r'', slot.code setting r' = (.expression t p, r'') → r''.failure = none → IsBare t ∨
      ∃ (form : String → Fragment) (pre post : String), (∀ t', (form t').text = t') ∧
        x s setting r = (form (pre ++ t ++ post), (x s setting r).2) ∧
        ∀ w, ¬ IsBare w → finish (.expression w p, r'') = (form (pre ++ w ++ post), (x s setting r).2)

/-- Takes the last item out of a list that is no name. -/
def takeLast : Block :=
  .mk { id := "take", type := "lists_getIndex", fields := [⟨"MODE", "REMOVE", ""⟩, ⟨"WHERE", "FROM_END", ""⟩] }
    [.mk "VALUE" .value [.mk { id := "list", type := "lists_repeat" } []] []]

end BlockProgram
