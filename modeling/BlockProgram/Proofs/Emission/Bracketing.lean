import BlockProgram.Proofs.Emission.Plugged
import BlockProgram.Proofs.Execution.Brackets

/-! # Hooks bracket executions

The same blocks are emitted with all templates for hooks side by side (`hooking`).  Values do not
depend on them.  The text of a stack of statements is that of one program in which the hooks are
called (`writes_stack`), whatever their templates are; and this program realizes the stack.  So in
all of its executions the calls of each block alternate (`hooks_bracket`).
-/
namespace BlockProgram

open Vocabulary List Emit

/-- Statements as they are put together from conditionals, loops and statements that run straight
through, with jumps only inside of loops. -/
inductive Structured : Bool → Block → Prop
  | straight {inLoop : Bool} {b : Block} (htype : b.type ∈ straightTypes) : Structured inLoop b
  | conditional {inLoop : Bool} {b : Block} (htype : b.type ∈ conditionalTypes)
      (hotherwise : ∀ b' ∈ b.target "ELSE", Structured inLoop b')
      (harms : ∀ n : Nat, ∀ b' ∈ b.target ("DO" ++ toString n), Structured inLoop b') : Structured inLoop b
  | loop {inLoop : Bool} {b : Block} (htype : b.type ∈ loopKinds) (hbody : ∀ b' ∈ b.target "DO", Structured true b') :
      Structured inLoop b
  | jump {b : Block} (htype : b.type = "controls_flow_statements") : Structured true b

/-- Runs with other choices for the templates of hooks, side by side. -/
def hooking (o : Options) : Variation HookTemplates where
  setting t :=
    { options := { o with statementPrefix := t.before, statementSuffix := t.behind }, flags := standard.flags? }
  indent := o.indent
  oneBased := o.oneBasedIndex
  indent_eq _ := rfl
  oneBased_eq _ := rfl
  Kept _ := True
  kept_act _ _ _ _ _ := trivial
  vary _ d := d
  vary_eq _ _ := rfl
  hooked := .inr fun t => .inl (t.on_ne_empty .before)
  Enters _ := True
  kept_enter _ _ _ _ := trivial
  Calm _ := True
  calm kind _ place b flags hplace :=
    ⟨commentLines o flags { plugged := decide (kind = .value) } (b.mapData fun d => d), fun k => by
      unfold commentLines
      rw [hplace k]⟩

variable {o : Options}

theorem hooking_scene (b : Block) (place : Place) (t : HookTemplates) :
    (hooking o).scene b (fun _ => place) t = b.stage place := by
  show (b.mapData fun d => d).scene .standard place = _
  rw [Block.mapData_eq_self fun _ => rfl]

/-- Texts with all templates are those of one program. -/
def IsText (o : Options) (P : Program → Prop) (a : HookTemplates → String) : Prop :=
  ∃ p, P p ∧ ∀ t, a t = p.text o.indent t

/-- The steps write the text of one program. -/
def Writes (o : Options) (x : Emit String) (P : Program → Prop) : Prop := (hooking o).Marches (fun _ => x) (IsText o P)

/-- The steps give the text of one program, as a statement. -/
def WritesCode (o : Options) (x : Emit Fragment) (P : Program → Prop) : Prop :=
  (hooking o).Marches (fun _ => x) fun c => ∃ a, IsText o P a ∧ ∀ t, c t = .statement (a t)

theorem WritesCode.mono {x : Emit Fragment} {P Q : Program → Prop} (h : WritesCode o x P) (hPQ : ∀ p, P p → Q p) :
    WritesCode o x Q :=
  Parallel.Marches.mono h fun _ ⟨a, ⟨p, hp, htext⟩, ha⟩ => ⟨a, ⟨p, hPQ p hp, htext⟩, ha⟩

/-! ### Scenes -/

theorem hooking_scenes {b : Block} (hdefines : ∀ b' ∈ b.descendants, b'.data.defines = false) (place : Place) :
    (hooking o).Scenes (fun _ => b.stage place) b.data := by
  have hscene : (hooking o).scene b (fun _ => place) = fun _ => b.stage place :=
    funext fun t => hooking_scene b place t
  rw [← hscene]
  refine Variation.scenes_of_plugs fun s hs first rest htarget => ?_
  have hfirst : first ∈ s.target := by
    rw [htarget]
    exact mem_cons_self
  have hfits : (hooking o).Fits first := fun b' hb' =>
    ⟨trivial, hdefines b' (Block.descendants_subset hs hfirst hb'), fun _ _ _ _ => trivial⟩
  exact Variation.plugs_emit first hfits s.kind trivial _ fun _ => rfl

theorem text_indented_call (indent : String) (t : HookTemplates) (side : HookSide) (b : BlockData) :
    (Program.indented (.call side b)).text indent t = indentedHook indent (t.on side) b := by
  have hne := t.on_ne_empty side
  have hhook : hook (t.on side) b ≠ "" := fun h => hne (hook_eq_empty_iff.mp h)
  unfold Program.text Program.text indentedHook
  rw [if_neg hhook, if_neg hne, hook, if_neg hne]

variable {p : Program} {h : BlockHandler}

section

variable {b : Block} {place : Place} {name : String} {P : Program → Prop}

/-- The statements in a socket are those of the stack in it, one step deeper. -/
theorem writes_statements
    (hempty : b.target name = [] → P .skip)
    (h : ∀ s, b.socket? name = some s →
      Writes o (Stack.emit .standard (place.inside b.data (s.kind = .value)) s.target) P) :
    Writes o (statements (b.stage place) name) fun q => ∃ p, P p ∧ q = .indented p := by
  intro r hr
  cases hsocket : b.socket? name with
  | none =>
    have hslot : (b.stage place).slot? name = none := by rw [Block.slot?_scene, hsocket]; rfl
    have hskip : P .skip := hempty (by unfold Block.target; rw [hsocket])
    simp only [statements_of_none hslot]
    exact .inr ⟨⟨.indented .skip, ⟨.skip, hskip, rfl⟩, fun t => rfl⟩, hr⟩
  | some s =>
    have hslot : (b.stage place).slot? name = some (s.slot .standard place b.data) := by
      rw [Block.slot?_scene, hsocket]
      rfl
    simp only [statements_of_slot hslot, Socket.slot_eq]
    rcases h s hsocket r hr with hfail | ⟨⟨p, hp, htext⟩, hr'⟩
    · exact .inl hfail
    · refine .inr ⟨⟨.indented p, ⟨p, hp, rfl⟩, fun t => ?_⟩, hr'⟩
      dsimp only at htext ⊢
      rw [htext]
      rfl

instance {setting : Setting} {s : Scene} (body : String) : Acts setting (loopBody s body) := by
  unfold loopBody
  infer_instance

variable {a : HookTemplates → String}

/-- The body of a loop calls the hook behind it first, and the one in front of it in the end. -/
theorem marches_loopBody (ha : ∀ t, a t = (Program.indented p).text o.indent t) (hloop : b.type ∈ loopKinds) :
    (hooking o).Marches (fun t => loopBody (b.stage place) (a t))
      (IsText o fun q => ∃ trap, q = .rounds b.data trap p) := by
  refine .look (a := (hooking o).setting) (fun _ _ _ => rfl) ?_
  have hflags : ∀ t, (((hooking o).setting t).flagsOf (b.stage place).data.type).ownHooks = false := fun t =>
    congrArg (fun flags : Option HandlerFlags => (flags.getD {}).ownHooks) (flags?_of_loop b.type hloop)
  simp only [hflags, Bool.false_eq_true, if_false]
  refine .pure ⟨_, ⟨indentedHook o.indent o.infiniteLoopTrap b.data, rfl⟩, fun t => ?_⟩
  rw [Program.rounds, Program.text, Program.text, Program.text, text_indented_call, text_indented_call, ← ha]
  rfl

theorem marches_body {g : String → Emit Fragment} [∀ t a, Acts ((hooking o).setting t) (g a)]
    {R : (HookTemplates → Fragment) → Prop} (hloop : b.type ∈ loopKinds)
    (hbody : Writes o (statements (b.stage place) "DO") fun q => ∃ p, P p ∧ q = .indented p)
    (hg : ∀ a, IsText o (fun q => ∃ trap p, P p ∧ q = .rounds b.data trap p) a →
      (hooking o).Marches (fun t => g (a t)) R) :
    (hooking o).Marches (fun _ => do
      let statements ← statements (b.stage place) "DO"
      let body ← loopBody (b.stage place) statements
      g body) R := by
  refine hbody.bind fun a ha => ?_
  obtain ⟨_, ⟨p, hp, rfl⟩, ha⟩ := ha
  refine (marches_loopBody ha hloop).bind fun a' ha' => hg a' ?_
  obtain ⟨_, ⟨trap, rfl⟩, ha'⟩ := ha'
  exact ⟨_, ⟨trap, p, hp, rfl⟩, ha'⟩

theorem marches_loop {P : Program → Prop} {header : String} (ha : IsText o P a) :
    (hooking o).Marches (fun t => (pure (.statement (header ++ a t ++ "\x7d\n")) : Emit Fragment)) fun c => ∃ a,
      IsText o (fun q => ∃ header p, P p ∧ q = .loop header p) a ∧ ∀ t, c t = .statement (a t) := by
  obtain ⟨p, hp, htext⟩ := ha
  refine .pure ⟨_, ⟨.loop header p, ⟨header, p, hp, rfl⟩, fun t => rfl⟩, fun t => ?_⟩
  dsimp only
  rw [htext, Program.text]

/-- A loop of block `d` with hooks around a body that satisfies `P`. -/
def IsLoopOf (d : BlockData) (P : Program → Prop) (q : Program) : Prop :=
  ∃ header p, (∃ trap p', P p' ∧ p = .rounds d trap p') ∧ q = .loop header p

section

variable [hs : (hooking o).Scenes (fun _ => b.stage place) b.data]
  (hbody : Writes o (statements (b.stage place) "DO") fun q => ∃ p, P p ∧ q = .indented p)
include hs hbody

theorem writesCode_for (hloop : b.type ∈ loopKinds) :
    WritesCode o (controlsFor (b.stage place)) (IsLoopOf b.data P) := by
  unfold WritesCode controlsFor
  refine .uniform_bind fun v => .uniform_bind fun first => .uniform_bind fun last => .uniform_bind fun step =>
    marches_body hloop hbody fun a ha => ?_
  split
  · exact marches_loop ha
  · have hindent : ∀ t, ((hooking o).setting t).options.indent = o.indent := fun _ => rfl
    refine .look (a := fun t => ((hooking o).setting t).options) (fun _ _ _ => rfl) ?_
    simp only [hindent]
    exact .uniform_bind fun start => .uniform_bind fun limit => .uniform_bind fun inc => marches_loop ha

/-- **Loops.** -/
theorem writesCode_loop (hget : standard.get? b.type = some h) (hloop : b.type ∈ loopKinds) :
    WritesCode o (h.emit (b.stage place)) (IsLoopOf b.data P) := by
  have hrepeat : WritesCode o (controlsRepeat (b.stage place)) (IsLoopOf b.data P) := by
    unfold WritesCode controlsRepeat
    split
    all_goals
      exact .uniform_bind fun times => marches_body hloop hbody fun a ha => .uniform_bind fun counter =>
        .uniform_bind fun limit => marches_loop ha
  have hcases := hloop
  simp only [loopKinds, mem_cons, not_mem_nil, or_false] at hcases
  rcases hcases with htype | htype | htype | htype | htype
  all_goals
    rw [htype] at hget
    obtain rfl := Option.some.inj hget
  · exact hrepeat
  · exact hrepeat
  · exact .uniform_bind fun v => .uniform_bind fun list => marches_body hloop hbody fun a ha => marches_loop ha
  · exact writesCode_for hbody hloop
  · exact .uniform_bind fun condition => marches_body hloop hbody fun a ha => marches_loop ha

end

/-! ### Straight statements, jumps and conditionals -/

/-- **Statements that run straight through.** -/
theorem writesCode_straight [hs : (hooking o).Scenes (fun _ => b.stage place) b.data]
    (hget : standard.get? b.type = some h) (htype : b.type ∈ straightTypes) :
    WritesCode o (h.emit (b.stage place)) fun q => ∃ code, q = .work code := by
  have huniform : (hooking o).Uniform fun _ => h.emit (b.stage place) :=
    Law.holds_reader hget ((show ∀ type ∈ straightTypes, hasBody type = false by decide) _ htype)
  have hflags := (show ∀ type ∈ straightTypes, standard.flags? type = some {} by decide) _ htype
  rw [flags?, hget] at hflags
  have hsolid := fun setting => @solid_handler setting (b.stage place) h b.type hget
    (congrArg HandlerFlags.definesProcedure (Option.some.inj hflags))
    ((show ∀ type ∈ straightTypes, isStatement type = true by decide) _ htype)
  intro r hr
  rcases huniform.marches r hr with hfail | ⟨⟨c, hc⟩, hr'⟩
  · exact .inl hfail
  · obtain ⟨text, htext, -⟩ := hsolid _ (r default) (hr'.running default)
    obtain rfl : .statement text = c := htext.symm.trans (congrFun hc default)
    exact .inr ⟨⟨_, ⟨_, ⟨text, rfl⟩, fun t => rfl⟩, fun t => congrFun hc t⟩, hr'⟩

/-- **Jumps.** -/
theorem writesCode_flow {loop : BlockData} (henclosing : enclosingLoop? place = some loop) :
    WritesCode o (controlsFlow (b.stage place)) fun q => ∃ way,
      q = .seq (.seq (.seq (.call .before b.data) (.call .behind b.data)) (.call .before loop)) (.jump way) := by
  unfold WritesCode controlsFlow
  refine .look (a := (hooking o).setting) (fun _ _ _ => rfl) ?_
  have hloop : loop.type ∈ loopKinds := by
    have := List.find?_some henclosing
    simpa using this
  have hfield : ∀ t, ((hooking o).setting t).flags loop.type = some {} := fun t => flags?_of_loop loop.type hloop
  have hplace : (b.stage place).place = place := rfl
  simp only [hplace, henclosing, hfield, Bool.false_eq_true, if_false]
  split
  · refine .pure ⟨_, ⟨_, ⟨.leave, rfl⟩, fun t => rfl⟩, fun t => rfl⟩
  · refine .pure ⟨_, ⟨_, ⟨.next, rfl⟩, fun t => rfl⟩, fun t => rfl⟩
  · exact .fail _ _ _

/-- A branch calls the hook behind its conditional first. -/
theorem writes_branch
    (hbody : Writes o (statements (b.stage place) name) fun q => ∃ p, P p ∧ q = .indented p) :
    Writes o (branch (b.stage place) name) fun q => ∃ p, P p ∧ q = .branch b.data p := by
  refine hbody.bind fun a ha => ?_
  obtain ⟨_, ⟨p, hp, rfl⟩, ha⟩ := ha
  refine .look (a := fun t => ((hooking o).setting t).options) (fun _ _ _ => rfl) ?_
  refine .pure ⟨_, ⟨p, hp, rfl⟩, fun t => ?_⟩
  rw [Program.branch, Program.text, text_indented_call, ← ha]
  rfl

/-- The texts are those of arms from number `n` on, to stand in front of a program with the property
`R`. -/
def IsLead (o : Options) (around : Option BlockData) (b : Block) (n : Nat) (R : Program → Prop)
    (a : HookTemplates → String) : Prop :=
  ∃ f : Program → Program, (∀ q, R q → Realizes around (.arms b n) (f q)) ∧
    ∀ t q, (f q).text o.indent t = a t ++ q.text o.indent t

section

variable {around : Option BlockData} [hs : (hooking o).Scenes (fun _ => b.stage place) b.data]
  (hbody : ∀ n : Nat, Writes o (statements (b.stage place) ("DO" ++ toString n)) fun q =>
    ∃ p, Realizes around (.stack (b.target ("DO" ++ toString n))) p ∧ q = .indented p)
include hs hbody

theorem marches_arm (n : Nat) : (hooking o).Marches (fun _ => arm (b.stage place) n)
      (IsLead o around b n (Realizes around (.arms b (n + 1)))) := by
  unfold arm
  refine .uniform_bind fun condition => (writes_branch (hbody n)).bind fun body hbody => ?_
  obtain ⟨_, ⟨p, hp, rfl⟩, hbody⟩ := hbody
  refine .pure ⟨.test (if n = 0 then "" else "else ") condition (.branch b.data p), fun q hq => .arm _ _ hp hq,
    fun t q => ?_⟩
  rw [Program.text, ← hbody]

theorem marches_arms (fuel n : Nat) : (hooking o).Marches (fun _ => arms (b.stage place) fuel n)
      (IsLead o around b n fun q => ∀ m, Realizes around (.arms b m) q) := by
  have hdone : ∀ n, (hooking o).Marches (fun _ => (pure "" : Emit String))
      (IsLead o around b n fun q => ∀ m, Realizes around (.arms b m) q) :=
    fun n => .pure ⟨id, fun q hq => hq n, fun t q => by rw [String.empty_append]; rfl⟩
  induction fuel generalizing n with
  | zero => exact hdone n
  | succ fuel ih =>
    unfold arms
    split
    · refine (marches_arm hbody n).bind fun first hfirst => (ih (n + 1)).bind fun rest hrest => ?_
      obtain ⟨g, hg, hgtext⟩ := hfirst
      obtain ⟨f, hf, hftext⟩ := hrest
      refine .pure ⟨fun q => g (f q), fun q hq => hg _ (hf q hq), fun t q => ?_⟩
      rw [hgtext, hftext, String.append_assoc]
    · exact hdone n

/-- **Conditionals.** -/
theorem writesCode_conditional
    (hotherwise : Writes o (statements (b.stage place) "ELSE") fun q =>
      ∃ p, Realizes around (.stack (b.target "ELSE")) p ∧ q = .indented p) :
    WritesCode o (controlsIf (b.stage place)) fun q => ∃ p, Realizes around (.arms b 0) p ∧
      q = .seq (.call .before b.data) p := by
  unfold WritesCode controlsIf
  refine .look (a := fun t => ((hooking o).setting t).options) (fun _ _ _ => rfl) ?_
  refine (marches_arms hbody _ 0).bind fun a ha => ?_
  obtain ⟨f, hf, htext⟩ := ha
  have hsuffix : ∀ t, decide (((hooking o).setting t).options.statementSuffix ≠ "") = true := fun t =>
    decide_eq_true (t.on_ne_empty .behind)
  simp only [hsuffix, Bool.or_true, if_true]
  refine (writes_branch hotherwise).bind fun body hbody => ?_
  obtain ⟨_, ⟨p, hp, rfl⟩, hbody⟩ := hbody
  refine .pure ⟨_, ⟨_, ⟨f (.otherwise (.branch b.data p)), hf _ fun m => .otherwise hp, rfl⟩, fun t => rfl⟩, fun t => ?_⟩
  rw [Program.text, Program.text, htext, Program.text, ← hbody]
  simp only [String.append_assoc]
  rfl

end

end

/-! ### Blocks and stacks -/

/-- The program of a block: its comments, and the code of its handler with the hooks around it. -/
def Program.dressed (flags : HandlerFlags) (b : BlockData) (comments : String) (p : Program) : Program :=
  .block b.id (.seq (.work comments)
    (if flags.ownHooks then p else .seq (.seq (.call .before b) p) (.call .behind b)))

theorem writesCode_emit {b : Block} {place : Place} {P : Program → Prop}
    (hget : standard.get? b.type = some h) (hcode : WritesCode o (h.emit (b.stage place)) P) :
    WritesCode o (b.emit .standard place) fun q =>
      b.data.disabled = true ∧ q = .skip ∨ ∃ comments p, P p ∧ q = .dressed h.flags b.data comments p := by
  intro r hr
  have hmap : ∀ t, b.mapData ((hooking o).vary t) = b := fun t => Block.mapData_eq_self (fun _ => rfl) b
  have hcases := Variation.emit_cases b (fun _ => place) hr
  simp only [hmap, hooking_scene] at hcases
  rcases hcases with ⟨hdisabled, hidle⟩ | hfail | ⟨h', -, hget', hemit⟩
  · simp only [hidle]
    exact .inr ⟨⟨_, ⟨.skip, .inl ⟨hdisabled, rfl⟩, fun t => rfl⟩, fun t => rfl⟩, hr⟩
  · exact .inl hfail
  · obtain rfl := Option.some.inj (hget.symm.trans hget')
    have hentered := Variation.enter_inStep (V := hooking o) hr (d := b.data) trivial
    simp only [hemit]
    rcases hcode _ hentered with hfail | ⟨⟨a, ⟨p, hp, htext⟩, ha⟩, hr'⟩
    · exact .inl hfail
    · have hrunning : ∀ t, (h.emit (b.stage place) ((hooking o).setting t)
          { r t with dispatched := (hooking o).vary t b.data :: (r t).dispatched }).2.failure.isSome = false :=
        fun t => by
          rw [hr'.running t]
          rfl
      refine .inr ⟨⟨_, ⟨_, .inr ⟨commentLines o h.flags place b, p, hp, rfl⟩, fun t => rfl⟩, fun t => ?_⟩, hr'⟩
      dsimp only at ha ⊢
      rw [hrunning t, ha t, htext t]
      unfold dressed Program.dressed
      cases h.flags.ownHooks with
      | true | false => rfl

theorem writes_stack {around : Option BlockData} {bs : Stack} {place : Place}
    (h : ∀ b ∈ bs, ∀ place' : Place, place'.enclosing = place.enclosing →
      WritesCode o (b.emit .standard place') (Realizes around (.block b))) :
    Writes o (Stack.emit .standard place bs) (Realizes around (.stack bs)) := by
  induction bs generalizing place with
  | nil =>
    unfold Stack.emit
    exact .pure ⟨.skip, .nil, fun t => rfl⟩
  | cons b bs ih =>
    have hrest : Writes o (Stack.emit .standard (place.after b.data) bs) (Realizes around (.stack bs)) :=
      ih fun b' hb' place' hplace' => h b' (mem_cons_of_mem b hb') place' hplace'
    unfold Stack.emit
    rw [link_eq]
    intro r hr
    simp only [bind_apply, proceed_apply]
    rcases h b mem_cons_self place rfl r hr with hfail | ⟨⟨a, ⟨p, hp, htext⟩, ha⟩, hr'⟩
    · refine .inl fun t => ?_
      rw [if_pos (Option.isSome_iff_ne_none.mpr (hfail t))]
      exact hfail t
    · have hrunning : ∀ t, (b.emit .standard place ((hooking o).setting t) (r t)).2.failure.isSome = false := fun t => by
        rw [hr'.running t]
        rfl
      simp only [hrunning, ha, Bool.false_eq_true, if_false]
      rcases hrest _ hr' with hfail | ⟨⟨q, hq, htext'⟩, hr''⟩
      · exact .inl hfail
      · refine .inr ⟨⟨.seq p q, .cons hp hq, fun t => ?_⟩, hr''⟩
        dsimp only at htext' ⊢
        rw [hr''.running t, htext', Program.text, ← htext]
        rfl

/-- The emission inside of a loop, or of a conditional in it, finds this loop. -/
theorem enclosingLoop?_inside (place : Place) (b : Block) (asValue : Bool) :
    enclosingLoop? (place.inside b.data asValue) =
      if b.type ∈ loopKinds then some b.data else enclosingLoop? place := by
  unfold enclosingLoop? Place.inside Block.type
  by_cases hloop : b.data.type ∈ loopKinds
  · simp [hloop]
  · simp [hloop]

theorem exists_handler {type : String} {own : Bool} (h : (standard.flags? type).map (·.ownHooks) = some own) :
    ∃ h, standard.get? type = some h ∧ h.flags.ownHooks = own := by
  unfold flags? at h
  rw [Option.map_map, Option.map_eq_some_iff] at h
  exact h

/-- **The text of a block is that of a program which realizes it.** -/
theorem writesCode_block (b : Block) (hdefines : ∀ b' ∈ b.descendants, b'.data.defines = false) {inLoop : Bool}
    (hstructured : Structured inLoop b) {around : Option BlockData} {place : Place}
    (haround : inLoop = true → ∃ loop, around = some loop ∧ enclosingLoop? place = some loop) :
    WritesCode o (b.emit .standard place) (Realizes around (.block b)) := by
  induction b using Block.induct generalizing inLoop around place with
  | h b ih =>
    have hscenes : (hooking o).Scenes (fun _ => b.stage place) b.data := hooking_scenes hdefines place
    -- what stands in a socket is realized in the same way, one level further inside
    have hinside : ∀ (name : String) (inLoop' : Bool) (around' : Option BlockData),
        (∀ b' ∈ b.target name, Structured inLoop' b') →
        (inLoop' = true → ∃ loop, around' = some loop ∧
          (if b.type ∈ loopKinds then some b.data else enclosingLoop? place) = some loop) →
        Writes o (statements (b.stage place) name) fun q =>
          ∃ p, Realizes around' (.stack (b.target name)) p ∧ q = .indented p := by
      intro name inLoop' around' hbelow haround'
      refine writes_statements (fun hempty => by rw [hempty]; exact .nil) fun s hsocket => ?_
      have htarget : b.target name = s.target := by unfold Block.target; rw [hsocket]
      rw [htarget] at hbelow ⊢
      refine writes_stack fun b' hb' place' hplace' => ?_
      have hs : s ∈ b.sockets := mem_of_find?_eq_some hsocket
      refine ih s hs b' hb' (fun c hc => hdefines c (Block.descendants_subset hs hb' hc)) (hbelow b' hb') fun hloop => ?_
      obtain ⟨loop, hsome, hloop⟩ := haround' hloop
      refine ⟨loop, hsome, ?_⟩
      rw [← hloop, ← enclosingLoop?_inside place b (s.kind = .value)]
      unfold enclosingLoop?
      rw [hplace']
    cases hstructured with
    | straight htype =>
      obtain ⟨h, hget, hown⟩ := exists_handler
        ((show ∀ type ∈ straightTypes, (standard.flags? type).map (·.ownHooks) = some false by decide) _ htype)
      refine (writesCode_emit hget (writesCode_straight hget htype)).mono ?_
      rintro q (⟨hdisabled, rfl⟩ | ⟨comments, _, ⟨code, rfl⟩, rfl⟩)
      · exact .disabled hdisabled
      · rw [Program.dressed, hown]
        exact .straight htype comments code
    | conditional htype hotherwise harms =>
      have hloop : b.type ∉ loopKinds := (show ∀ type ∈ conditionalTypes, type ∉ loopKinds by decide) _ htype
      have hinside' := fun name h => hinside name inLoop around h (by rwa [if_neg hloop])
      obtain ⟨h, hget, hown, hemit⟩ : ∃ h, standard.get? b.type = some h ∧ h.flags.ownHooks = true ∧ h.emit = controlsIf := by
        simp only [conditionalTypes, mem_cons, not_mem_nil, or_false] at htype
        rcases htype with htype | htype
        · rw [htype]
          exact ⟨_, rfl, rfl, rfl⟩
        · rw [htype]
          exact ⟨_, rfl, rfl, rfl⟩
      have hcode := writesCode_conditional (fun n => hinside' _ (harms n)) (hinside' _ hotherwise)
      rw [← hemit] at hcode
      refine (writesCode_emit hget hcode).mono ?_
      rintro q (⟨hdisabled, rfl⟩ | ⟨comments, _, ⟨p, hp, rfl⟩, rfl⟩)
      · exact .disabled hdisabled
      · rw [Program.dressed, hown]
        exact .conditional htype comments hp
    | loop htype hbody =>
      obtain ⟨h, hget, hown⟩ := exists_handler
        ((show ∀ type ∈ loopKinds, (standard.flags? type).map (·.ownHooks) = some false by decide) _ htype)
      have hinside' := hinside "DO" true (some b.data) hbody fun _ => ⟨b.data, rfl, if_pos htype⟩
      refine (writesCode_emit hget (writesCode_loop hinside' hget htype)).mono ?_
      rintro q (⟨hdisabled, rfl⟩ | ⟨comments, _, ⟨header, _, ⟨trap, p, hp, rfl⟩, rfl⟩, rfl⟩)
      · exact .disabled hdisabled
      · rw [Program.dressed, hown]
        exact .loop htype comments header trap hp
    | jump htype =>
      obtain ⟨loop, rfl, hloop⟩ := haround rfl
      have hget : standard.get? b.type = some ⟨controlsFlow, { ownHooks := true }⟩ := by
        rw [htype]
        rfl
      refine (writesCode_emit hget (writesCode_flow hloop)).mono ?_
      rintro q (⟨hdisabled, rfl⟩ | ⟨comments, _, ⟨way, rfl⟩, rfl⟩)
      · exact .disabled hdisabled
      · exact .jump htype comments way

/-! ### Executions -/

/-- In every execution of a program that realizes a stack, the calls of each block alternate, and
those of a block that is not under way are as many on both sides. -/
theorem Realizes.alternate {stack : Stack} (h : Realizes none (.stack stack) p) {es : List HookCall}
    {ending : Ending} (hrun : p.Runs es ending) (id : String) : HookSide.Alternate .before (HookCall.sidesOf id es) ∧
    (id ∉ ending.underWay → (HookCall.sidesOf id es).count .before = (HookCall.sidesOf id es).count .behind) := by
  obtain ⟨e, hpaired, hends⟩ := h.brackets es ending hrun
  obtain ⟨halternate, hcount⟩ := hpaired.alternate_sidesOf id
  refine ⟨halternate, fun hid => ?_⟩
  have he : e ≠ some id := by
    rintro rfl
    cases ending with
    | done => cases hends
    | jumped way => exact hends.2 rfl
    | stopped within => exact (hends id rfl).elim hid not_mem_nil
  rw [if_neg he] at hcount
  exact hcount

/-- A loop whose body prints and leaves it under a condition. -/
def leavingLoop : Block :=
  .mk { id := "loop", type := "controls_repeat" } [.mk "DO" .statement
    [.mk { id := "print", type := "text_print" } [],
      .mk { id := "test", type := "controls_if" } [.mk "DO0" .statement
        [.mk { id := "leave", type := "controls_flow_statements", fields := [⟨"FLOW", "BREAK", ""⟩] } []] []]] []]

theorem structured_leavingLoop : Structured false leavingLoop := by
  refine .loop (by decide) ?_
  refine forall_mem_cons.mpr ⟨.straight (by decide), forall_mem_singleton.mpr ?_⟩
  have hjump : ∀ name, ∀ b ∈ (Block.mk { id := "test", type := "controls_if" } [.mk "DO0" .statement
      [.mk { id := "leave", type := "controls_flow_statements", fields := [⟨"FLOW", "BREAK", ""⟩] } []] []]).target name,
      Structured true b := by
    intro name b hb
    unfold Block.target at hb
    split at hb
    · case h_1 s hs =>
      obtain rfl := mem_singleton.mp (mem_of_find?_eq_some hs)
      obtain rfl := mem_singleton.mp hb
      exact .jump rfl
    · exact absurd hb not_mem_nil
  exact .conditional (by decide) (hjump _) fun n => hjump _

end BlockProgram
