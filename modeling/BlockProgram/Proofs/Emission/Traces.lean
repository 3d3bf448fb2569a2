import BlockProgram.Proofs.Emission.Actions
import BlockProgram.Proofs.Emission.Laws

/-! # Traces of a run

A trace lists what is seen of a run while blocks are emitted: failures that are reported, blocks
that are emitted with the code they give, values and statements that are read from sockets with the
text that is given back. Everything is listed when it is over, so the blocks inside a block come
before it.

`Traced` says which traces a step has.  Its rules are what a handler can ask of a run, and nothing
else: a step that has a trace from every run (`Traceable`) is put together from these.  A handler is
open (`BlockHandler.Open`) if it is such a step on every scene that offers nothing else.
-/
namespace BlockProgram

open Emit

/-- What a failure is recorded as. -/
def Failure.of (kind : FailureKind) (block : Option BlockData) (detail : String) : Failure :=
  ⟨kind, (block.map (·.id)).getD "", (block.map (·.type)).getD "", detail⟩

/-- Something that is seen of a run. -/
inductive Event where
  | failed (failure : Failure)
  | emitted (block : BlockData) (code : Fragment)
  /-- A value is read from a socket: the block that is plugged in with its code, if it was emitted, and the text
  given back. -/
  | read (owner : BlockData) (name : String) (plugged : Option (BlockData × Fragment)) (text : String)
  /-- A block is emitted in a stack of statements: its code, and the text given back for the stack from it on. -/
  | stacked (block : BlockData) (code : Fragment) (text : String)
  /-- Statements are read from a socket, and some text is given back. -/
  | enclosed (owner : BlockData) (name : String) (text : String)

/-- A stack as it is emitted: one block after the other. -/
inductive IsChain (v : Vocabulary) : Emit String → Prop
  | nil : IsChain v (pure "")
  | cons (below : Scene) {rest : Emit String} (h : IsChain v rest) :
      IsChain v (link below.data (dispatch v below) rest)

/-- From the run `r` the step has the trace `es`. -/
inductive Traced (v : Vocabulary) (setting : Setting) : {α : Type} → Emit α → Run → List Event → Prop
  | pure {α : Type} (a : α) (r : Run) : Traced v setting (Pure.pure a : Emit α) r []
  | bind {α β : Type} {x : Emit α} {g : α → Emit β} {r : Run} {es es' : List Event}
      (hx : Traced v setting x r es) (hg : Traced v setting (g (x setting r).1) (x setting r).2 es') :
      Traced v setting (x >>= g) r (es ++ es')
  | setting (r : Run) : Traced v setting (MonadReaderOf.read : Emit Setting) r []
  | run (r : Run) : Traced v setting (MonadState.get : Emit Run) r []
  | variableName (x : String) (r : Run) : Traced v setting (variableName x) r []
  | procedureName (x : String) (r : Run) : Traced v setting (procedureName x) r []
  | freshVariable (seed : String) (r : Run) : Traced v setting (freshVariable seed) r []
  | addHelper (key : String) (lines : List String) (r : Run) :
      Traced v setting (addHelper key lines) r []
  | define (key code : String) (r : Run) : Traced v setting (define key code) r []
  | openPanel (r : Run) : Traced v setting openPanel r []
  | addWidget (name code : String) (r : Run) : Traced v setting (addWidget name code) r []
  | fail (kind : FailureKind) (block : Option BlockData) (detail : String) (r : Run) :
      Traced v setting (fail kind block detail) r [.failed (.of kind block detail)]
  /-- A block that is not handed to its handler: after a failure, or because it is disabled. -/
  | idle {s : Scene} {r : Run} (h : r.failure.isSome ∨ s.data.disabled = true) :
      Traced v setting (dispatch v s) r [.emitted s.data .empty]
  | unknown {s : Scene} {r : Run} (hrunning : r.failure = none) (henabled : s.data.disabled = false)
      (hget : v.get? s.data.type = none) :
      Traced v setting (dispatch v s) r
        [.failed (.of .dispatch s.data ("no generator for block type " ++ Text.quoted s.data.type)),
          .emitted s.data .empty]
  | handled {s : Scene} {r : Run} {h : BlockHandler} {es : List Event} (hrunning : r.failure = none)
      (henabled : s.data.disabled = false) (hget : v.get? s.data.type = some h)
      (hemit : Traced v setting (h.emit s) { r with dispatched := s.data :: r.dispatched } es) :
      Traced v setting (dispatch v s) r (es ++ [.emitted s.data (dispatch v s setting r).1])
  /-- Nothing to read: no such socket, nothing in it, or a failure before. -/
  | unread {s : Scene} {name : String} {outer : Precedence} {r : Run}
      (h : (∀ slot, s.slot? name = some slot → slot.target = []) ∨ r.failure.isSome) :
      Traced v setting (value s name outer) r [.read s.data name none ""]
  | read {s below : Scene} {name : String} {outer : Precedence} {r : Run} {slot : Slot} {first : Block}
      {rest : Stack} {es es' : List Event} (hslot : s.slot? name = some slot)
      (htarget : slot.target = first :: rest) (hbelow : below.data = first.data)
      (hcode : slot.code = dispatch v below) (hrunning : r.failure = none)
      (hemit : Traced v setting (dispatch v below) r es)
      (hsettle : Traced v setting (settle s name outer first (dispatch v below setting r).1)
        (dispatch v below setting r).2 es') :
      Traced v setting (value s name outer) r (es ++ es' ++
        [.read s.data name (some (first.data, (dispatch v below setting r).1))
          (value s name outer setting r).1])
  | link {below : Scene} {rest : Emit String} {r : Run} {es es' : List Event}
      (hemit : Traced v setting (dispatch v below) r es)
      (hproceed : Traced v setting (proceed below.data rest (dispatch v below setting r).1)
        (dispatch v below setting r).2 es') :
      Traced v setting (link below.data (dispatch v below) rest) r (es ++ es' ++
        [.stacked below.data (dispatch v below setting r).1
          (link below.data (dispatch v below) rest setting r).1])
  | unenclosed {s : Scene} {name : String} {r : Run} (hslot : s.slot? name = none) :
      Traced v setting (statements s name) r [.enclosed s.data name ""]
  | enclosed {s : Scene} {name : String} {r : Run} {slot : Slot} {es : List Event}
      (hslot : s.slot? name = some slot) (hchain : IsChain v slot.chain)
      (hemit : Traced v setting slot.chain r es) :
      Traced v setting (statements s name) r
        (es ++ [.enclosed s.data name (statements s name setting r).1])

/-! ### What the steps with rules of their own come to -/

section

variable {v : Vocabulary} {setting : Setting} {r : Run}

theorem bind_apply {α β : Type} (x : Emit α) (g : α → Emit β) :
    (x >>= g) setting r = g (x setting r).1 setting (x setting r).2 := rfl

theorem failed_apply {α : Type} (a : α) (x : Emit α) :
    (do if ← failed then return a else x) setting r = if r.failure.isSome then (a, r) else x setting r := by
  show (if r.failure.isSome = true then (Pure.pure a : Emit α) else x) setting r = _
  split <;> rfl

variable {s : Scene}

theorem dispatch_of_idle (h : r.failure.isSome ∨ s.data.disabled = true) : dispatch v s setting r = (.empty, r) := by
  have hidle : (r.failure.isSome || s.data.disabled) = true := by simpa using h
  show (if (r.failure.isSome || s.data.disabled) = true then (pure .empty : Emit Fragment) else _) setting r = _
  rw [if_pos hidle]
  rfl

section

variable (hrunning : r.failure = none) (henabled : s.data.disabled = false)
include hrunning henabled

theorem not_idle : ¬ (r.failure.isSome || s.data.disabled) = true := by simp [hrunning, henabled]

theorem dispatch_of_unknown (hget : v.get? s.data.type = none) : dispatch v s setting r =
    fail .dispatch s.data ("no generator for block type " ++ Text.quoted s.data.type) setting r := by
  show (if (r.failure.isSome || s.data.disabled) = true then (pure .empty : Emit Fragment) else _) setting r = _
  rw [if_neg (not_idle hrunning henabled), hget]

theorem dispatch_of_handled {h : BlockHandler} (hget : v.get? s.data.type = some h) : dispatch v s setting r =
      let out := h.emit s setting { r with dispatched := s.data :: r.dispatched }
      (if out.2.failure.isSome then .empty else dressed setting.options h.flags s out.1, out.2) := by
  show (if (r.failure.isSome || s.data.disabled) = true then (pure .empty : Emit Fragment) else _) setting r = _
  rw [if_neg (not_idle hrunning henabled), hget]
  dsimp only
  have hentered : ((modify fun r => { r with dispatched := s.data :: r.dispatched } : Emit Unit) setting r).2 =
      { r with dispatched := s.data :: r.dispatched } := rfl
  rw [bind_apply, bind_apply, hentered]
  generalize h.emit s setting { r with dispatched := s.data :: r.dispatched } = out
  obtain ⟨code, r'⟩ := out
  show (if r'.failure.isSome = true then (pure .empty : Emit Fragment) else _) setting r' = _
  cases r'.failure.isSome <;> rfl

end

variable {name : String}

theorem value_of_unread {outer : Precedence}
    (h : (∀ slot, s.slot? name = some slot → slot.target = []) ∨ r.failure.isSome) :
    value s name outer setting r = ("", r) := by
  unfold value
  cases hslot : s.slot? name with
  | none => rfl
  | some slot =>
    dsimp only
    cases htarget : slot.target with
    | nil => rfl
    | cons first rest =>
      have hfailed : r.failure.isSome = true :=
        h.resolve_left fun hempty => List.cons_ne_nil _ _ (htarget.symm.trans (hempty slot hslot))
      exact (failed_apply ..).trans (if_pos hfailed)

theorem value_of_read {outer : Precedence} {slot : Slot} {first : Block}
    {rest : Stack} (hslot : s.slot? name = some slot) (htarget : slot.target = first :: rest)
    (hrunning : r.failure = none) : value s name outer setting r =
      settle s name outer first (slot.code setting r).1 setting (slot.code setting r).2 := by
  unfold value
  rw [hslot]
  dsimp only
  rw [htarget]
  dsimp only
  rw [failed_apply, hrunning]
  rfl

theorem link_eq (b : BlockData) (first : Emit Fragment) (rest : Emit String) :
    link b first rest = first >>= proceed b rest := rfl

theorem failure_fail (kind : FailureKind) (block : Option BlockData) (detail : String) :
    (fail kind block detail setting r).2.failure = some (r.failure.getD (.of kind block detail)) := by
  obtain ⟨names, definitions, helpers, panels, dispatched, failure⟩ := r
  cases failure with
  | some | none => rfl

theorem settle_apply (s : Scene) (name : String) (outer : Precedence) (first : Block) (code : Fragment) :
    settle s name outer first code setting r =
      if r.failure.isSome then ("", r)
      else match code with
        | .expression text precedence =>
          (if text = "" then "" else Precedence.enclose text precedence outer, r)
        | code =>
          if code.text = "" then ("", r)
          else ("", (fail .shape first.data
            ("statement block plugged into value input " ++ name ++ " of " ++ s.data.type) setting r).2) := by
  unfold settle
  rw [failed_apply]
  cases code with
  | expression text precedence => rfl
  | statement text =>
    dsimp only
    split <;> [rfl; split <;> rfl]
  | handled => rfl

theorem proceed_apply (b : BlockData) (rest : Emit String) (code : Fragment) : proceed b rest code setting r =
      if r.failure.isSome then ("", r)
      else match code with
        | .expression _ _ => ("", (fail .shape b "value block used as a statement" setting r).2)
        | code =>
          (if (rest setting r).2.failure.isSome then "" else code.text ++ (rest setting r).1,
            (rest setting r).2) := by
  unfold proceed
  rw [failed_apply]
  cases code with
  | expression text precedence => rfl
  | statement _ | handled =>
    dsimp only
    rw [bind_apply, failed_apply]
    split <;> [rfl; split <;> rfl]

theorem statements_of_slot {slot : Slot} (hslot : s.slot? name = some slot) : statements s name setting r =
      (if (slot.chain setting r).1 = "" then ""
        else Text.prependLines setting.options.indent (slot.chain setting r).1, (slot.chain setting r).2) := by
  unfold statements
  rw [hslot]
  dsimp only
  rw [bind_apply]
  generalize slot.chain setting r = out
  by_cases hempty : out.1 = ""
  · rw [if_pos hempty, if_pos hempty]
    rfl
  · rw [if_neg hempty, if_neg hempty]
    rfl

theorem statements_of_none (hslot : s.slot? name = none) : statements s name setting r = ("", r) := by
  unfold statements
  rw [hslot]
  rfl

/-- What has a trace does nothing but actions. -/
theorem Traced.exists_actions {α : Type} {x : Emit α} {es : List Event} (h : Traced v setting x r es) :
    ∃ actions, (x setting r).2 = r.after setting actions := by
  have htrans {r r' r'' : Run} : (∃ first, r' = r.after setting first) → (∃ second, r'' = r'.after setting second) →
      ∃ actions, r'' = r.after setting actions := by
    rintro ⟨first, rfl⟩ ⟨second, rfl⟩
    exact ⟨first ++ second, (Run.after_append ..).symm⟩
  induction h with
  | pure | setting | run => exact ⟨[], rfl⟩
  | bind _ _ ihx ihg => exact htrans ihx ihg
  | variableName x r => exact ⟨[.variableName x], rfl⟩
  | procedureName x r => exact ⟨[.procedureName x], rfl⟩
  | freshVariable seed r => exact ⟨[.freshVariable seed], rfl⟩
  | addHelper key lines r => exact ⟨[.addHelper key lines], rfl⟩
  | define key code r => exact ⟨[.define key code], rfl⟩
  | openPanel r => exact ⟨[.openPanel], rfl⟩
  | addWidget name code r => exact ⟨[.addWidget name code], rfl⟩
  | fail kind block detail r => exact ⟨[.fail kind block detail], rfl⟩
  | idle h => exact ⟨[], by rw [dispatch_of_idle h]; rfl⟩
  | unknown hrunning henabled hget =>
    exact ⟨[.fail .dispatch _ _], by rw [dispatch_of_unknown hrunning henabled hget]; rfl⟩
  | @handled s r h es hrunning henabled hget _ ih =>
    obtain ⟨actions, hactions⟩ := ih
    refine ⟨.enter s.data :: actions, ?_⟩
    rw [dispatch_of_handled hrunning henabled hget]
    exact hactions
  | unread h => exact ⟨[], by rw [value_of_unread h]; rfl⟩
  | read hslot htarget hbelow hcode hrunning _ _ ihemit ihsettle =>
    rw [value_of_read hslot htarget hrunning, hcode]
    exact htrans ihemit ihsettle
  | link _ _ ihemit ihproceed => exact htrans ihemit ihproceed
  | unenclosed hslot => exact ⟨[], by rw [statements_of_none hslot]; rfl⟩
  | enclosed hslot _ _ ih =>
    rw [statements_of_slot hslot]
    exact ih

end

/-! ### Steps that have traces -/

/-- To have a trace from every run is a law. -/
def tracing (v : Vocabulary) (setting : Setting) : Law Unit where
  toSurroundings := .const setting
  Obeys x := ∀ r : Run, ∃ es, Traced v setting (x ()) r es
  pure a r := ⟨_, .pure a r⟩
  bind hx hg r := by
    obtain ⟨es, hes⟩ := hx r
    obtain ⟨es', hes'⟩ := hg _ _
    exact ⟨_, .bind hes hes'⟩
  read h r := (h r).imp' _ fun _ => .bind (.setting r)
  failed r := ⟨_, .bind (.run r) (.pure _ r)⟩
  fail kind block detail r := ⟨_, .fail kind block detail r⟩
  variableName x r := ⟨_, .variableName x r⟩
  procedureName x r := ⟨_, .procedureName x r⟩
  freshVariable seed r := ⟨_, .freshVariable seed r⟩
  addHelper key lines _ r := ⟨_, .addHelper key lines r⟩
  define key code _ r := ⟨_, .define key code r⟩
  openPanel r := ⟨_, .openPanel r⟩
  addWidget name code r := ⟨_, .addWidget name code r⟩
  panel number r := ⟨_, .bind (.run r) (.pure _ r)⟩

/-- The step has a trace from every run. -/
abbrev Traceable (v : Vocabulary) (setting : Setting) {α : Type} (x : Emit α) : Prop :=
  (tracing v setting).Holds fun _ => x

section

variable {v : Vocabulary} {setting : Setting} {α : Type} {x : Emit α}

theorem Traceable.exists_trace (h : Traceable v setting x) (r : Run) : ∃ es, Traced v setting x r es := h.obeys r

theorem Traceable.acts (h : Traceable v setting x) : Acts setting x :=
  ⟨fun r => (h.exists_trace r).elim fun _ hes => hes.exists_actions⟩

instance : Traceable v setting (get : Emit Run) := ⟨fun r => ⟨_, .run r⟩⟩

instance (key : String) (lines : List String) : Traceable v setting (addHelper key lines) :=
  ⟨fun r => ⟨_, .addHelper key lines r⟩⟩

instance (key code : String) : Traceable v setting (define key code) := ⟨fun r => ⟨_, .define key code r⟩⟩

end

/-- All that is plugged into the block of the scene is emitted as it should be: a block by a step
with the property `Code`, and a stack by a chain with the property `Chain`. -/
structure Scene.Over (v : Vocabulary) (Code : Emit Fragment → Prop) (Chain : Emit String → Prop)
    (s : Scene) : Prop where
  code : ∀ slot ∈ s.slots, ∀ first rest, slot.target = first :: rest →
    ∃ below : Scene, below.data = first.data ∧ slot.code = dispatch v below ∧
      Code (dispatch v below)
  chain : ∀ slot ∈ s.slots, IsChain v slot.chain ∧ Chain slot.chain

/-- All that is plugged into the block of the scene has traces. -/
class Scene.Open (v : Vocabulary) (setting : Setting) (s : Scene) : Prop extends
    Scene.Over v (Traceable v setting) (Traceable v setting) s

/-- The handler asks nothing of a run but what there are rules for. -/
def BlockHandler.Open (v : Vocabulary) (setting : Setting) (h : BlockHandler) : Prop :=
  ∀ s : Scene, s.Open v setting → Traceable v setting (h.emit s)

end BlockProgram
