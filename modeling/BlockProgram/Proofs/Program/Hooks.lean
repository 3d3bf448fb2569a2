import BlockProgram.Proofs.Emission.Statements
import BlockProgram.Proofs.Program.Functions

/-! # Hooks of a program

The hooks of a statement and the trap of a loop are templates in the options of a generator, which
are filled with the id of a block and put into its code.  The prefix of a statement comes first in
its code, behind nothing but its comments, unless the statement is a conditional return, which has
no prefix.  The trap of a loop comes right before the statements in its body, but there is none in
an endless loop.  A function is entered with the prefix and the trap of the block that defines it.

All this is said about a single block whose code has been made (`Site.Covered`), and it holds for
every block that a successful run has come by, at the point where it was handed to its handler
(`Generator.hooks_cover`).
-/
namespace BlockProgram

open Vocabulary List Emit

variable {setting : Setting} {s : Scene}

/-! ### Statements -/

/-- Blocks that place their hooks by themselves: conditionals, jumps and returns, and those that
define something. -/
theorem Vocabulary.ownHooks_cases {type : String} {h : BlockHandler} (hget : standard.get? type = some h)
    (hown : h.flags.ownHooks = true) :
    type ∈ ["controls_if", "controls_ifelse", "controls_flow_statements"] ∨ type = "procedures_ifreturn" ∨
      h.flags.definesProcedure = true := by
  have hcases : ∀ p ∈ standard, p.2.flags.ownHooks = true →
      p.1 ∈ ["controls_if", "controls_ifelse", "controls_flow_statements"] ∨ p.1 = "procedures_ifreturn" ∨
        p.2.flags.definesProcedure = true := by decide
  exact hcases _ (mem_of_get? hget) hown

def Fragment.StartsWith (start : String) (code : Fragment) : Prop := ∃ own, code = .statement (start ++ own)

namespace Fragment.StartsWith

variable {start text : String}

theorem self (start : String) : StartsWith start (.statement start) := ⟨"", by rw [String.append_empty]⟩

theorem append (h : StartsWith start (.statement text)) (more : String) : StartsWith start (.statement (text ++ more)) := by
  obtain ⟨own, hown⟩ := h
  obtain rfl := Fragment.statement.inj hown
  exact ⟨own ++ more, by rw [String.append_assoc]⟩

end Fragment.StartsWith

/-- Conditionals and jumps give statements that start with the prefix. -/
theorem Vocabulary.delivers_prefixed {h : BlockHandler} (hget : standard.get? s.data.type = some h)
    (htype : s.data.type ∈ ["controls_if", "controls_ifelse", "controls_flow_statements"]) :
    Delivers setting (h.emit s) (Fragment.StartsWith (hook setting.options.statementPrefix s.data)) := by
  have hstart := Fragment.StartsWith.self (hook setting.options.statementPrefix s.data)
  have hconditional : Delivers setting (controlsIf s)
      (Fragment.StartsWith (hook setting.options.statementPrefix s.data)) := by
    refine .options (.bind fun chain => ?_)
    split
    · exact .bind fun otherwise => .pure (((hstart.append _).append _).append _)
    · exact .pure (((hstart.append _).append _).append _)
  have hjump : Delivers setting (controlsFlow s)
      (Fragment.StartsWith (hook setting.options.statementPrefix s.data)) := by
    refine .look (b := setting) (fun _ => rfl) ?_
    dsimp only
    split
    · exact .pure (((hstart.append _).append _).append _)
    · exact .pure (((hstart.append _).append _).append _)
    · exact Delivers.fail _ _ _
  simp only [mem_cons, not_mem_nil, or_false] at htype
  rcases htype with htype | htype | htype
  all_goals
    rw [htype] at hget
    obtain rfl := Option.some.inj hget
  · exact hconditional
  · exact hconditional
  · exact hjump

/-- A conditional return has no place for its prefix. -/
theorem Vocabulary.delivers_ifReturn : Delivers setting (procedureIfReturn s) fun code =>
    ∃ condition returned, code = .statement ("if (" ++ condition ++ ") \x7b\n" ++
      indentedHook setting.options.indent setting.options.statementSuffix s.data ++ returned ++ "\x7d\n") := by
  refine .options (.bind fun condition => ?_)
  split
  · exact .bind fun value => .pure ⟨condition, _, rfl⟩
  · exact .pure ⟨condition, _, rfl⟩

/-! ### Loops -/

/-- The text of a loop: behind its header come the suffix, the trap, the statements in its body as
they are emitted at some point, and the prefix. -/
def IsRounds (setting : Setting) (s : Scene) (r : Run) (text : String) : Prop :=
  ∃ header r', r.Reaches setting r' ∧
    text = header ++ (indentedHook setting.options.indent setting.options.statementSuffix s.data ++
      (indentedHook setting.options.indent setting.options.infiniteLoopTrap s.data ++
        (statements s "DO" setting r').1) ++
      indentedHook setting.options.indent setting.options.statementPrefix s.data) ++ "\x7d\n"

theorem IsRounds.of_reaches {r r₀ : Run} {text : String} (h : IsRounds setting s r text) (hr : r₀.Reaches setting r) :
    IsRounds setting s r₀ text := by
  obtain ⟨header, r', hr', htext⟩ := h
  exact ⟨header, r', hr.trans hr', htext⟩

/-- The step looks at some values and then at the statements in its body, and puts a line in front
of them. -/
inductive IsLoop (setting : Setting) (s : Scene) : Emit Fragment → Prop
  | bind {α : Type} {x : Emit α} {g : α → Emit Fragment} [hx : Acts setting x] (hg : ∀ a, IsLoop setting s (g a)) :
      IsLoop setting s (x >>= g)
  | body {g : String → Emit Fragment} (hg : ∀ body, Delivers setting (g body) fun code =>
      ∃ header, code = .statement (header ++ body ++ "\x7d\n") ∧ Text.IsLine header) :
      IsLoop setting s (statements s "DO" >>= fun statements => loopBody s statements >>= g)

theorem Vocabulary.isLoop_handler [hs : s.Open .standard setting] {type : String} {h : BlockHandler}
    (hget : standard.get? type = some h) (htype : type ∈ loopKinds) : IsLoop setting s (h.emit s) := by
  have hrepeat : IsLoop setting s (controlsRepeat s) := by
    unfold controlsRepeat
    split
    all_goals
      exact .bind fun times => .body fun body => .bind fun counter => .bind fun limit => .pure ⟨_, rfl, inferInstance⟩
  have hfor : IsLoop setting s (controlsFor s) := by
    refine .bind fun v => .bind fun first => .bind fun last => .bind fun step => .body fun body => ?_
    split
    · exact .pure ⟨_, rfl, by unfold staticHeader; infer_instance⟩
    · exact .bind fun o => .bind fun start => .bind fun limit => .bind fun inc => .pure ⟨_, rfl, inferInstance⟩
  simp only [loopKinds, mem_cons, not_mem_nil, or_false] at htype
  rcases htype with rfl | rfl | rfl | rfl | rfl
  all_goals obtain rfl := Option.some.inj hget
  · exact hrepeat
  · exact hrepeat
  · exact .bind fun v => .bind fun list => .body fun body => .pure ⟨_, rfl, inferInstance⟩
  · exact hfor
  · exact .bind fun condition => .body fun body => .pure ⟨_, rfl, inferInstance⟩

/-- **Loops have their trap right before the statements in their body.** -/
theorem IsLoop.isRounds {x : Emit Fragment} (h : IsLoop setting s x)
    (hown : (setting.flagsOf s.data.type).ownHooks = false) (r : Run) (hrunning : (x setting r).2.failure = none) :
    ∃ text, (x setting r).1 = .statement text ∧ IsRounds setting s r text := by
  induction h generalizing r with
  | @bind _ x _ _ _ ih =>
    obtain ⟨text, htext, hrounds⟩ := ih (x setting r).1 (x setting r).2 hrunning
    exact ⟨text, htext, hrounds.of_reaches (.of_acts x r)⟩
  | body hg =>
    have hbody : ∀ statements r', loopBody s statements setting r' =
        (indentedHook setting.options.indent setting.options.statementSuffix s.data ++
          (indentedHook setting.options.indent setting.options.infiniteLoopTrap s.data ++ statements) ++
          indentedHook setting.options.indent setting.options.statementPrefix s.data, r') := by
      intro statements r'
      unfold loopBody
      rw [bind_apply, show (read : Emit Setting) setting r' = (setting, r') from rfl, hown]
      rfl
    rw [bind_apply, bind_apply, hbody] at hrunning ⊢
    obtain ⟨header, hcode, -⟩ := hg _ _ hrunning
    exact ⟨_, hcode, header, r, .refl r, rfl⟩

/-- An endless loop has no place for its trap. -/
def IsEndless (setting : Setting) (s : Scene) (r : Run) (text : String) : Prop :=
  ∃ r', r.Reaches setting r' ∧ text = "( loop  \n" ++
    (if (statements s "STMTS" setting r').1 = "" then "" else
      Text.prependLines setting.options.indent
        (Text.prependLines setting.options.indent (statements s "STMTS" setting r').1)) ++ " )\n"

/-! ### Functions -/

/-- What a function is entered with. -/
def Site.entry (setting : Setting) (σ : Site) : String :=
  let o := setting.options
  let hooks := hook o.statementPrefix σ.block.data ++ hook o.statementSuffix σ.block.data
  if isProcedure σ.block.type then
    (if hooks = "" then "" else Text.prependLines o.indent hooks) ++
      indentedHook o.indent o.infiniteLoopTrap σ.block.data
  else
    hook o.infiniteLoopTrap σ.block.data ++ indentedHook o.indent o.statementPrefix σ.block.data

/-- The text of a function with the given statements in its body: behind its header comes what it is
entered with, and then the statements. -/
def Site.IsFunction (setting : Setting) (σ : Site) (body text : String) : Prop :=
  ∃ header rest, text = header ++ σ.entry setting ++ body ++ rest

namespace Site.IsFunction

variable {σ : Site} {body text : String}

theorem append (h : σ.IsFunction setting body text) (more : String) : σ.IsFunction setting body (text ++ more) := by
  obtain ⟨header, rest, rfl⟩ := h
  exact ⟨header, rest ++ more, by simp only [String.append_assoc]⟩

theorem append_front (h : σ.IsFunction setting body text) (more : String) : σ.IsFunction setting body (more ++ text) := by
  obtain ⟨header, rest, rfl⟩ := h
  exact ⟨more ++ header, rest, by simp only [String.append_assoc]⟩

theorem of_entry {first second : String} (h : σ.entry setting = first ++ second) (header : String) :
    σ.IsFunction setting body (header ++ first ++ second ++ body) :=
  ⟨header, "", by rw [h, String.append_empty, ← String.append_assoc]⟩

end Site.IsFunction

theorem Delivers.withNeighbours {P : String → Prop} {name code : String} (hcode : ∀ comments, P (comments ++ code)) :
    Delivers setting (Emit.withNeighbours s code >>= fun code => Pure.pure (some (name, code)))
      fun f => ∀ name text, f = some (name, text) → P text := by
  refine .look (fun r => rfl) (.pure fun name' text htext => ?_)
  obtain ⟨rfl, rfl⟩ := Prod.mk.inj (Option.some.inj htext)
  exact hcode _

/-- The step gives a function with the statements in its body as they are emitted at some point. -/
def Site.MakesFunction (setting : Setting) (σ : Site) (x : Emit (Option (String × String))) : Prop :=
  ∀ r, (x setting r).2.failure = none → ∀ name text, (x setting r).1 = some (name, text) →
    ∃ r', r.Reaches setting r' ∧ σ.IsFunction setting (statements σ.scene "STACK" setting r').1 text

namespace Site.MakesFunction

variable {σ : Site}

theorem bind {α : Type} {x : Emit α} {g : α → Emit (Option (String × String))} [hx : Acts setting x]
    (hg : ∀ a, σ.MakesFunction setting (g a)) : σ.MakesFunction setting (x >>= g) := by
  intro r hrunning name text htext
  obtain ⟨r', hr', hfunction⟩ := hg (x setting r).1 (x setting r).2 hrunning name text htext
  exact ⟨r', (Run.Reaches.of_acts x r).trans hr', hfunction⟩

theorem options {g : Options → Emit (Option (String × String))} (hg : σ.MakesFunction setting (g setting.options)) :
    σ.MakesFunction setting (options >>= g) := hg

theorem body {g : String → Emit (Option (String × String))}
    (hg : ∀ body, Delivers setting (g body) fun f => ∀ name text, f = some (name, text) → σ.IsFunction setting body text) :
    σ.MakesFunction setting (statements σ.scene "STACK" >>= g) :=
  fun r hrunning name text htext => ⟨r, .refl r, hg _ _ hrunning name text htext⟩

theorem procedure (hprocedure : isProcedure σ.block.type = true) (word : String) :
    σ.MakesFunction setting (procedureFunction σ.scene word) := by
  have hentry : σ.entry setting = _ := if_pos hprocedure
  refine .options (.body fun body => .bind fun value => .bind fun params => .withNeighbours fun comments => ?_)
  exact .append_front (.append (.append (.append (.of_entry hentry _) _) _) _) comments

theorem callback (hcallback : isProcedure σ.block.type = false) (word : String) :
    σ.MakesFunction setting (callbackFunction σ.scene word) := by
  have hentry : σ.entry setting = _ := if_neg (by rw [hcallback]; exact Bool.false_ne_true)
  refine .options (.body fun body => .bind fun value => ?_)
  dsimp only
  generalize (if value ≠ "" then "show" else "press") = event
  by_cases hpath : hasPath (widgetName (callbackName word event)).toList = true
  · rw [if_pos hpath]
    exact .pure nofun
  · rw [if_neg hpath]
    refine .bind fun params => .withNeighbours fun comments => ?_
    have hbody : σ.IsFunction setting body _ := .of_entry hentry ""
    exact .append_front (.append (.append (.append (.append (.append (hbody.append_front _) _) _) _) _) _) comments

/-- **Functions are entered with the prefix and the trap of the block that defines them.** -/
theorem function (σ : Site) : σ.MakesFunction setting (function? σ.scene) := by
  refine .bind fun word => ?_
  split
  · case isTrue hprocedure => exact procedure hprocedure word
  · case isFalse hcallback => exact callback (Bool.eq_false_iff.mpr hcallback) word

end Site.MakesFunction

/-! ### Blocks -/

namespace Site

def comments (setting : Setting) (σ : Site) : String :=
  commentLines setting.options (setting.flagsOf σ.block.type) σ.place σ.block

/-- The block has its hooks when its code is made from the run `r`. -/
structure Covered (setting : Setting) (σ : Site) (r : Run) : Prop where
  /-- A statement starts with its prefix, unless it is a conditional return. -/
  statement : σ.block.data.isProcedureDefinition = false → σ.block.type ≠ "procedures_ifreturn" →
    ∀ text, (σ.emit setting r).1 = .statement text → text ≠ "" →
      ∃ own, text = σ.comments setting ++ (hook setting.options.statementPrefix σ.block.data ++ own)
  /-- A value that stands alone starts with its prefix. -/
  value : ∀ text precedence, (σ.emit setting r).1 = .expression text precedence →
    Generator.bareValue setting σ.block.data text = hook setting.options.statementPrefix σ.block.data ++
      (text ++ ";\n") ++ hook setting.options.statementSuffix σ.block.data
  /-- A conditional return has no prefix. -/
  ifReturn : σ.block.type = "procedures_ifreturn" → ∃ condition returned,
    (σ.emit setting r).1 = .statement (σ.comments setting ++ ("if (" ++ condition ++ ") \x7b\n" ++
      indentedHook setting.options.indent setting.options.statementSuffix σ.block.data ++ returned ++ "\x7d\n"))
  /-- A loop has its trap right before the statements in its body. -/
  loop : σ.block.type ∈ loopKinds → ∃ text, IsRounds setting σ.scene r text ∧
    (σ.emit setting r).1 = .statement (σ.comments setting ++
      (hook setting.options.statementPrefix σ.block.data ++ text ++
        hook setting.options.statementSuffix σ.block.data))
  /-- An endless loop has no trap. -/
  endless : σ.block.type = "forever" → ∃ text, IsEndless setting σ.scene r text ∧
    (σ.emit setting r).1 = .statement (σ.comments setting ++
      (hook setting.options.statementPrefix σ.block.data ++ text ++
        hook setting.options.statementSuffix σ.block.data))
  /-- A function that is stored is entered with the prefix and the trap. -/
  function : σ.block.data.isProcedureDefinition = true → ∀ name text,
    (function? σ.scene setting { r with dispatched := σ.block.data :: r.dispatched }).1 = some (name, text) →
      (∃ r', r.Reaches setting r' ∧ σ.IsFunction setting (statements σ.scene "STACK" setting r').1 text) ∧
      ∃ stored, (σ.emit setting r).2.definitions = Definitions.put stored ("%" ++ name) text

section

variable {σ : Site} {r : Run} {h : BlockHandler} {code : Fragment}

structure HandledBy (setting : Setting) (σ : Site) (r : Run) (h : BlockHandler) (code : Fragment) : Prop where
  get?_eq : standard.get? σ.block.type = some h
  flags_eq : setting.flagsOf σ.block.type = h.flags
  running : (h.emit σ.scene setting { r with dispatched := σ.block.data :: r.dispatched }).2.failure = none
  code_eq : (h.emit σ.scene setting { r with dispatched := σ.block.data :: r.dispatched }).1 = code
  emit_eq : (σ.emit setting r).1 = dressed setting.options h.flags σ.scene code

theorem exists_handledBy (hflags : setting.flags = Vocabulary.standard.flags?) (henabled : σ.block.data.disabled = false)
    (hrunning : r.failure = none) (hdone : (σ.emit setting r).2.failure = none) :
    ∃ h code, σ.HandledBy setting r h code := by
  have hemit : σ.emit = dispatch .standard σ.scene :=
    Block.emit_eq .standard σ.place σ.block
  cases hget : standard.get? σ.scene.data.type with
  | none =>
    rw [hemit, dispatch_of_unknown (s := σ.scene) hrunning henabled hget] at hdone
    exact absurd hdone (fail_eq setting ..).1
  | some h =>
    have hdispatch := @dispatch_of_handled standard setting r σ.scene hrunning henabled h hget
    rw [hemit, hdispatch] at hdone
    refine ⟨h, _, hget, ?_, hdone, rfl, ?_⟩
    · unfold Setting.flagsOf
      rw [hflags, Vocabulary.flags?, show standard.get? σ.block.type = some h from hget]
      rfl
    · rw [hemit, hdispatch]
      exact if_neg (by rw [show _ = none from hdone]; exact Bool.false_ne_true)

variable (hhandled : σ.HandledBy setting r h code)
include hhandled

theorem HandledBy.defines_eq : h.flags.definesProcedure = σ.block.data.isProcedureDefinition :=
  (isProcedureDefinition_eq hhandled.get?_eq).symm

theorem HandledBy.code_of_defines (hdefines : σ.block.data.isProcedureDefinition = true) : code = .handled := by
  rw [← hhandled.code_eq, emit_eq_function? (s := σ.scene) hhandled.get?_eq hdefines, bind_apply]
  have hstored : ∀ f r', (storeFunction f setting r').1 = .handled := by
    intro f r'
    cases f <;> rfl
  exact hstored _ _

theorem HandledBy.code_of_ownHooks (hown : h.flags.ownHooks = true) :
    code.StartsWith (hook setting.options.statementPrefix σ.block.data) ∨
    σ.block.type = "procedures_ifreturn" ∧ (∃ condition returned, code = .statement ("if (" ++ condition ++ ") \x7b\n" ++
      indentedHook setting.options.indent setting.options.statementSuffix σ.block.data ++ returned ++ "\x7d\n")) ∨
    σ.block.data.isProcedureDefinition = true ∧ code = .handled := by
  rcases ownHooks_cases hhandled.get?_eq hown with htype | htype | hdefines
  · exact .inl (hhandled.code_eq ▸ delivers_prefixed (s := σ.scene) hhandled.get?_eq htype _ hhandled.running)
  · have hget := hhandled.get?_eq
    have hrunning := hhandled.running
    rw [htype] at hget
    obtain rfl := Option.some.inj hget
    exact .inr (.inl ⟨htype, hhandled.code_eq ▸ delivers_ifReturn (s := σ.scene) _ hrunning⟩)
  · rw [hhandled.defines_eq] at hdefines
    exact .inr (.inr ⟨hdefines, hhandled.code_of_defines hdefines⟩)

omit hhandled in
/-- The hooks of a statement are put around it, unless its handler has done so. -/
theorem HandledBy.emit_statement {own : String} (hhandled : σ.HandledBy setting r h (.statement own)) :
    (σ.emit setting r).1 = .statement (σ.comments setting ++
      if h.flags.ownHooks then own
      else hook setting.options.statementPrefix σ.block.data ++ own ++
        hook setting.options.statementSuffix σ.block.data) := by
  unfold comments
  rw [hhandled.emit_eq, hhandled.flags_eq]
  rfl

omit hhandled in
/-- **All blocks have their hooks.** -/
theorem covered (hflags : setting.flags = Vocabulary.standard.flags?) (henabled : σ.block.data.disabled = false)
    (hrunning : r.failure = none) (hdone : (σ.emit setting r).2.failure = none) :
    σ.Covered setting r := by
  obtain ⟨h, code, hhandled⟩ := exists_handledBy hflags henabled hrunning hdone
  have hget := hhandled.get?_eq
  have hentered : r.Reaches setting { r with dispatched := σ.block.data :: r.dispatched } :=
    (Run.Reaches.refl r).act (.enter σ.block.data)
  constructor
  case statement =>
    intro hdefines htype text htext hne
    cases code with
    | expression => cases hhandled.emit_eq.symm.trans htext
    | handled => exact absurd (Fragment.statement.inj (hhandled.emit_eq.symm.trans htext)).symm hne
    | statement own =>
      obtain rfl := Fragment.statement.inj (hhandled.emit_statement.symm.trans htext)
      cases hown : h.flags.ownHooks with
      | false => exact ⟨_, congrArg (σ.comments setting ++ ·) String.append_assoc⟩
      | true =>
        rcases hhandled.code_of_ownHooks hown with ⟨own', heq⟩ | ⟨hreturn, -⟩ | ⟨hdefines', -⟩
        · obtain rfl := Fragment.statement.inj heq
          exact ⟨own', rfl⟩
        · exact absurd hreturn htype
        · exact absurd (hdefines.symm.trans hdefines') Bool.false_ne_true
  case value =>
    intro text precedence htext
    have hown : (setting.flagsOf σ.block.data.type).ownHooks = false := by
      refine Bool.eq_false_iff.mpr fun hown => ?_
      rw [show setting.flagsOf σ.block.data.type = h.flags from hhandled.flags_eq] at hown
      rw [hhandled.emit_eq] at htext
      rcases hhandled.code_of_ownHooks hown with ⟨own, rfl⟩ | ⟨-, condition, returned, rfl⟩ | ⟨-, rfl⟩
      all_goals cases htext
    unfold Generator.bareValue
    rw [hown]
    rfl
  case ifReturn =>
    intro htype
    rw [htype] at hget
    obtain rfl := Option.some.inj hget
    obtain ⟨condition, returned, hcode⟩ := delivers_ifReturn (s := σ.scene) _ hhandled.running
    obtain rfl := hhandled.code_eq.symm.trans hcode
    exact ⟨condition, returned, hhandled.emit_statement⟩
  case loop =>
    intro htype
    have hflags : h.flags = {} := by
      have hloop := flags?_of_loop σ.block.type htype
      rw [Vocabulary.flags?, hget] at hloop
      exact Option.some.inj hloop
    have hown : (setting.flagsOf σ.block.type).ownHooks = false := by rw [hhandled.flags_eq, hflags]
    obtain ⟨text, hcode, hrounds⟩ := (isLoop_handler hget htype).isRounds hown _ hhandled.running
    obtain rfl := hhandled.code_eq.symm.trans hcode
    refine ⟨text, hrounds.of_reaches hentered, ?_⟩
    rw [hhandled.emit_statement, hflags]
    rfl
  case endless =>
    intro htype
    rw [htype] at hget
    obtain rfl := Option.some.inj hget
    obtain rfl := hhandled.code_eq
    exact ⟨_, ⟨_, hentered, rfl⟩, hhandled.emit_statement⟩
  case function =>
    intro hdefines name text hfunction
    rw [emit_of_isDefiner ⟨hdefines, henabled⟩ hrunning, bind_apply, hfunction] at hdone ⊢
    obtain ⟨r', hr', htext⟩ := MakesFunction.function σ _ hdone name text hfunction
    exact ⟨⟨r', hentered.trans hr', htext⟩, _, rfl⟩

end

/-! ### Runs -/

/-- On the way from `start` to `final`, the block was handed to its handler at `r`, after the blocks
`earlier`. -/
structure EmittedAt (setting : Setting) (start final : Run) (earlier : List BlockData) (σ : Site) (r : Run) : Prop where
  before : start.Reaches setting r
  dispatched_eq : r.dispatched = earlier
  enabled : σ.block.data.disabled = false
  behind : (σ.emit setting r).2.Reaches setting final

end Site

/-- Every block that has been handed to its handler was emitted at one of the sites, except for
those that are under way.  A block is given together with those that were handed to their handlers
before. -/
structure Visited (setting : Setting) (start : Run) (At : Site → Prop) (underWay : List (List BlockData)) (r : Run) :
    Prop where
  reached : start.Reaches setting r
  emitted : ∀ d earlier, d :: earlier <:+ r.dispatched →
    d :: earlier ∈ underWay ∨ ∃ σ, At σ ∧ σ.block.data = d ∧ ∃ r₀, σ.EmittedAt setting start r earlier r₀

namespace Visited

variable {start : Run} {At : Site → Prop} {underWay : List (List BlockData)} {r r' : Run}

theorem later (h : Visited setting start At underWay r) (hr' : r.Reaches setting r')
    (hdispatched : r'.dispatched = r.dispatched) : Visited setting start At underWay r' := by
  refine ⟨h.reached.trans hr', fun d earlier hd => ?_⟩
  rw [hdispatched] at hd
  refine (h.emitted d earlier hd).imp_right fun ⟨σ, hσ, hdata, r₀, hemitted⟩ => ⟨σ, hσ, hdata, r₀, ?_⟩
  exact { hemitted with behind := hemitted.behind.trans hr' }

/-- A block that is entered is under way. -/
theorem enter (h : Visited setting start At underWay r) (b : BlockData) :
    Visited setting start At ((b :: r.dispatched) :: underWay) { r with dispatched := b :: r.dispatched } := by
  have hentered : r.Reaches setting { r with dispatched := b :: r.dispatched } := (Run.Reaches.refl r).act (.enter b)
  refine ⟨h.reached.trans hentered, fun d earlier hd => ?_⟩
  rcases suffix_cons_iff.mp hd with heq | hd
  · exact .inl (heq ▸ mem_cons_self)
  · rcases h.emitted d earlier hd with hunderWay | ⟨σ, hσ, hdata, r₀, hemitted⟩
    · exact .inl (mem_cons_of_mem _ hunderWay)
    · exact .inr ⟨σ, hσ, hdata, r₀, { hemitted with behind := hemitted.behind.trans hentered }⟩

/-- A block whose code is done is not under way any more. -/
theorem leave {σ : Site} (hσ : At σ) (henabled : σ.block.data.disabled = false) (h : Visited setting start At underWay r)
    (hout : Visited setting start At ((σ.block.data :: r.dispatched) :: underWay)
      (σ.emit setting r).2) :
    Visited setting start At underWay (σ.emit setting r).2 := by
  refine ⟨hout.reached, fun d earlier hd => ?_⟩
  rcases hout.emitted d earlier hd with hunderWay | hemitted
  · rcases mem_cons.mp hunderWay with heq | hunderWay
    · obtain ⟨rfl, rfl⟩ := List.cons.inj heq
      exact .inr ⟨σ, hσ, rfl, r, h.reached, rfl, henabled, .refl _⟩
    · exact .inl hunderWay
  · exact .inr hemitted

/-- The blocks that are under way, as a property of runs that neutral actions keep up. -/
def invariant (setting : Setting) (start : Run) (At : Site → Prop) (underWay : List (List BlockData)) :
    Invariant setting where
  Holds := Visited setting start At underWay
  act r a ha h := h.later ((Run.Reaches.refl r).act a) (Run.act_of_isNeutral ha setting r).1

/-- **Blocks that have been handed to their handlers are emitted.** -/
theorem admits : Invariant.Admits (invariant setting start At)
    (fun σ r underWay => (σ.block.data :: r.dispatched) :: underWay) At where
  enter _ σ _ _ h := Visited.enter h σ.block.data
  store _ _ _ _ _ := by
    intro f _ _ hr
    cases hfunction : f.1 with
    | none => exact hr
    | some function => exact Visited.later hr ((Run.Reaches.refl f.2).act (.define ("%" ++ function.1) function.2)) rfl
  leave _ _ _ hσ _ henabled := fun h _ hout => Visited.leave hσ henabled h hout

end Visited

/-- A generator with a prefix for statements and a trap for loops. -/
def Generator.watchful : Generator where
  options := { statementPrefix := "at(%1);\n", infiniteLoopTrap := "round(%1);\n" }

def Workspace.printingLoop : Workspace where
  tops := [[.mk { id := "loop", type := "controls_whileUntil" }
    [.mk "DO" .statement [.mk { id := "print", type := "text_print" } []] []]]]

end BlockProgram
