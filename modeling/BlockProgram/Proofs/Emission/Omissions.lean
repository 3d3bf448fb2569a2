import BlockProgram.Proofs.Emission.Handlers

/-! # Disabled statements

A disabled block may be taken out of its stack, unless it is the first one there (`Stack.Omits`).  To
be the same in two scenes is a law, so that a handler does the same in scenes that look alike
(`Vocabulary.emit_alike`).  Nothing that a handler looks at changes with the block: the blocks
behind it follow another block now, but are enclosed by the same ones. So whatever encloses the
block is emitted as before (`Stack.Omits.emitted_alike`).
-/
namespace BlockProgram

open Vocabulary List Stack

/-! ### Scenes that look alike -/

/-- To be the same on both sides is a law. -/
def Law.same (setting : Setting) : Law Bool where
  toSurroundings := .const setting
  Obeys x := x true setting = x false setting
  pure _ := rfl
  bind {_ _ x g} hx hg := by
    funext r
    have hx : x true setting r = x false setting r := congrFun hx r
    dsimp only
    rw [bind_apply, bind_apply, hx]
    exact congrFun (hg _) _
  read h := h
  failed := rfl
  fail _ _ _ := rfl
  variableName _ := rfl
  procedureName _ := rfl
  freshVariable _ := rfl
  addHelper _ _ _ := rfl
  define _ _ _ := rfl
  openPanel := rfl
  addWidget _ _ := rfl
  panel _ := rfl

instance (setting : Setting) : (Law.same setting).Steady setting := ⟨fun _ => rfl⟩

instance (setting : Setting) (f : Option (String × String)) : (Law.same setting).Holds fun _ => storeFunction f := ⟨rfl⟩

section

variable {s s' : Scene} (halike : s.Alike s') (hvalue : ∀ name outer, Emit.value s name outer = Emit.value s' name outer)
  (hstatements : ∀ name, Emit.statements s name = Emit.statements s' name)
include halike hvalue hstatements

theorem Vocabulary.emit_alike {h : BlockHandler} {type : String} (hget : standard.get? type = some h) :
    h.emit s = h.emit s' := by
  funext setting
  have hbodies : (Law.same setting).Bodies (fun k => cond k s s') s' :=
    { value := fun name outer => ⟨congrFun (hvalue name outer) setting⟩
      statements := fun name => ⟨congrFun (hstatements name) setting⟩
      alike := Bool.rec (.refl s') halike }
  have hholds : (Law.same setting).Holds fun k => h.emit (cond k s s') := by
    cases hdefines : h.flags.definesProcedure with
    | false => exact Law.holds_handler hget hdefines
    | true =>
      rcases emit_of_definesProcedure hget hdefines with hemit | hemit
      all_goals
        simp only [hemit, procedureDefinition, widgetCallback, (hbodies.alike _).field_eq]
        infer_instance
  exact hholds.obeys

theorem dispatch_alike : Emit.dispatch .standard s = Emit.dispatch .standard s' := by
  unfold Emit.dispatch
  rw [halike.data_eq]
  cases hget : standard.get? s'.data.type with
  | none => rfl
  | some h =>
    dsimp only
    rw [emit_alike halike hvalue hstatements hget]
    have hdressed (o : Options) (code : Fragment) :
        Emit.dressed o h.flags s code = Emit.dressed o h.flags s' code := by
      cases code <;> simp only [Emit.dressed, halike.comments_eq, halike.data_eq]
    simp only [hdressed]

end

/-! ### Blocks with the same code -/

def Stack.remarks (bs : Stack) : List String :=
  (descendants bs).filterMap fun b => if b.data.comment = "" then none else some b.data.comment

theorem Stack.remarks_cons (b : Block) (bs : Stack) : remarks (b :: bs) = remarks [b] ++ remarks bs := by
  simp [remarks, descendants_eq_flatMap]

theorem Stack.remarks_singleton (b : Block) : remarks [b] =
    (if b.data.comment = "" then [] else [b.data.comment]) ++ b.sockets.flatMap fun s => remarks s.target := by
  rw [remarks, descendants_eq_flatMap, flatMap_singleton, Block.descendants_eq, filterMap_cons, filterMap_flatMap]
  by_cases h : b.data.comment = ""
  · simp only [h, if_true, nil_append, remarks]
  · simp only [h, if_false, singleton_append, remarks]

/-- The stacks have the same code, block by block. -/
inductive Stack.Same : Stack → Stack → Prop
  | refl (bs : Stack) : Same bs bs
  | cons {b b' : Block} {bs bs' : Stack} (hdata : b.data = b'.data)
      (hfirst : ∀ place, b.emit .standard place = b'.emit .standard place)
      (hrest : ∀ (place : Place) (d : BlockData),
        emit .standard (place.after d) bs = emit .standard (place.after d) bs')
      (hremarks : remarks (b :: bs) = remarks (b' :: bs')) : Same (b :: bs) (b' :: bs')

structure Socket.Same (s s' : Socket) : Prop where
  name_eq : s.name = s'.name
  kind_eq : s.kind = s'.kind
  target : s.target.Same s'.target

theorem Socket.Same.refl (s : Socket) : s.Same s := ⟨rfl, rfl, .refl _⟩

namespace Stack.Same

variable {bs bs' : Stack} (h : Same bs bs')
include h

theorem remarks_eq : remarks bs = remarks bs' := by
  cases h with
  | refl => rfl
  | cons _ _ _ hremarks => exact hremarks

theorem emit_eq (place : Place) : emit .standard place bs = emit .standard place bs' := by
  cases h with
  | refl => rfl
  | cons hdata hfirst hrest _ =>
    unfold emit
    rw [hdata, hfirst, hrest]

theorem head_cases : bs = [] ∧ bs' = [] ∨ ∃ b b' rest rest', bs = b :: rest ∧ bs' = b' :: rest' ∧ b.data = b'.data := by
  cases h with
  | refl =>
    cases bs with
    | nil => exact .inl ⟨rfl, rfl⟩
    | cons b bs => exact .inr ⟨b, b, bs, bs, rfl, rfl, rfl⟩
  | cons hdata _ _ _ => exact .inr ⟨_, _, _, _, rfl, rfl, hdata⟩

theorem emitFirst_eq (place : Place) : emitFirst .standard place bs = emitFirst .standard place bs' := by
  cases h with
  | refl => rfl
  | cons _ hfirst _ _ =>
    unfold emitFirst
    exact hfirst place

theorem emitTop_eq {g : Generator} (hg : g.vocabulary = .standard) : g.emitTop bs = g.emitTop bs' := by
  cases h with
  | refl => rfl
  | cons hdata hfirst hrest _ =>
    simp only [Generator.emitTop, hg, hfirst, hdata, hrest]

end Stack.Same

theorem Emit.commentsWithin_same {bs bs' : Stack} (h : bs.Same bs') : commentsWithin bs = commentsWithin bs' :=
  congrArg (fun comments : List String => if comments.isEmpty then "" else Text.join "\n" comments ++ "\n") h.remarks_eq

section

variable {ss ss' : List Socket} (h : List.Forall₂ Socket.Same ss ss')
include h

theorem Socket.map_same {β : Type} {f : Socket → β} (hf : ∀ s s', s.Same s' → f s = f s') : ss.map f = ss'.map f := by
  induction h with
  | nil => rfl
  | cons hs _ ih => rw [map_cons, map_cons, hf _ _ hs, ih]

theorem Socket.find?_same (name : String) : ss.find? (·.name = name) = none ∧ ss'.find? (·.name = name) = none ∨
    ∃ s s', ss.find? (·.name = name) = some s ∧ ss'.find? (·.name = name) = some s' ∧ s.Same s' := by
  induction h with
  | nil => exact .inl ⟨rfl, rfl⟩
  | @cons s s' _ _ hs _ ih =>
    rw [List.find?_cons, List.find?_cons, hs.name_eq]
    split
    · exact .inr ⟨s, s', rfl, rfl, hs⟩
    · exact ih

/-- A block is emitted alike if the same code is plugged in. Which block it follows does not
matter. -/
theorem Block.emit_same {d : BlockData} {place place' : Place} (henclosing : place.enclosing = place'.enclosing)
    (hplugged : place.plugged = place'.plugged) :
    (Block.mk d ss).emit .standard place = (Block.mk d ss').emit .standard place' := by
  have hinside : ∀ asValue, place.inside d asValue = place'.inside d asValue := fun asValue => by
    unfold Place.inside
    rw [henclosing]
  have hslot : ∀ name,
      ((Block.mk d ss).scene .standard place).slot? name = none ∧
        ((Block.mk d ss').scene .standard place').slot? name = none ∨
      ∃ x y, ((Block.mk d ss).scene .standard place).slot? name = some x ∧
        ((Block.mk d ss').scene .standard place').slot? name = some y ∧
        x.code = y.code ∧ x.chain = y.chain ∧ x.target.Same y.target := by
    intro name
    rw [Block.slot?_scene, Block.slot?_scene, Option.map_eq_none_iff, Option.map_eq_none_iff]
    refine (Socket.find?_same h name).imp_right ?_
    rintro ⟨s, s', hs, hs', hsame⟩
    refine ⟨_, _, Option.map_eq_some_iff.mpr ⟨s, hs, rfl⟩, Option.map_eq_some_iff.mpr ⟨s', hs', rfl⟩, ?_⟩
    rw [Socket.slot_eq, Socket.slot_eq, Block.data, Block.data, hinside, hsame.kind_eq]
    exact ⟨hsame.target.emitFirst_eq _, hsame.target.emit_eq _, hsame.target⟩
  rw [Block.emit_eq, Block.emit_eq]
  refine dispatch_alike ⟨rfl, Socket.map_same h fun _ _ hs => hs.name_eq, henclosing, fun o flags => ?_⟩
    (fun name outer => ?_) fun name => ?_
  · show Emit.commentLines o flags place (.mk d ss) = Emit.commentLines o flags place' (.mk d ss')
    unfold Emit.commentLines
    rw [hplugged]
    refine congrArg (fun nested => if place'.plugged then "" else _ ++ String.join nested) (Socket.map_same h fun s s' hs => ?_)
    rw [hs.kind_eq, Emit.commentsWithin_same hs.target]
  · unfold Emit.value
    rcases hslot name with ⟨hx, hy⟩ | ⟨x, y, hx, hy, hcode, -, htarget⟩
    · rw [hx, hy]
    · rw [hx, hy]
      dsimp only
      rw [hcode]
      rcases htarget.head_cases with ⟨hnil, hnil'⟩ | ⟨b, b', rest, rest', hcons, hcons', hdata⟩
      · rw [hnil, hnil']
      · rw [hcons, hcons']
        simp only [Emit.settle, hdata]
        rfl
  · unfold Emit.statements
    rcases hslot name with ⟨hx, hy⟩ | ⟨x, y, hx, hy, -, hchain, -⟩
    · rw [hx, hy]
    · rw [hx, hy]
      dsimp only
      rw [hchain]

end

theorem Stack.emit_place (bs : Stack) {place place' : Place} (henclosing : place.enclosing = place'.enclosing)
    (hplugged : place.plugged = place'.plugged) : emit .standard place bs = emit .standard place' bs := by
  induction bs generalizing place place' with
  | nil => unfold emit; rfl
  | cons b bs ih =>
    obtain ⟨d, ss⟩ := b
    have hsame : List.Forall₂ Socket.Same ss ss := List.forall₂_same.mpr fun s _ => .refl s
    have hrest : emit .standard (place.after d) bs = emit .standard (place'.after d) bs := ih henclosing rfl
    unfold emit
    rw [Block.emit_same hsame henclosing hplugged, Block.data, hrest]

/-! ### Taking a block out -/

/-- The second stack is the first one without a disabled block, which follows another one there or
further inside.  No comment is in this block. -/
inductive Stack.Omits : Stack → Stack → Prop
  | here {b d : Block} {rest : Stack} (hdisabled : d.data.disabled = true)
      (hcomments : ∀ c ∈ d.descendants, c.data.comment = "") : Omits (b :: d :: rest) (b :: rest)
  | behind {bs bs' : Stack} (b : Block) (h : Omits bs bs') : Omits (b :: bs) (b :: bs')
  | plugged {bs bs' : Stack} (d : BlockData) (before after : List Socket) (name : String) (kind : SocketKind)
      (shadow rest : Stack) (h : Omits bs bs') :
      Omits (.mk d (before ++ .mk name kind bs shadow :: after) :: rest)
        (.mk d (before ++ .mk name kind bs' shadow :: after) :: rest)
  | shadow {bs bs' : Stack} (d : BlockData) (before after : List Socket) (name : String) (kind : SocketKind)
      (plugged rest : Stack) (h : Omits bs bs') :
      Omits (.mk d (before ++ .mk name kind plugged bs :: after) :: rest)
        (.mk d (before ++ .mk name kind plugged bs' :: after) :: rest)

theorem Stack.emit_failed (bs : Stack) (place : Place) (setting : Setting) (r : Run) :
    (r.failure.isSome → emit .standard place bs setting r = ("", r)) ∧
      ((emit .standard place bs setting r).2.failure.isSome → (emit .standard place bs setting r).1 = "") := by
  cases bs with
  | nil => unfold emit; exact ⟨fun _ => rfl, fun _ => rfl⟩
  | cons b bs =>
    rw [emit, link_eq, bind_apply, proceed_apply]
    refine ⟨fun hfailed => ?_, fun hfailed => ?_⟩
    · rw [Block.emit_eq, dispatch_of_idle (.inl hfailed), if_pos hfailed]
    · split
      · rfl
      · rename_i hrunning
        rw [if_neg hrunning] at hfailed
        split at hfailed
        · rfl
        · exact if_pos hfailed

theorem Stack.emit_cons_disabled {d : Block} (hdisabled : d.data.disabled = true) (bs : Stack) (place : Place) :
    emit .standard place (d :: bs) = emit .standard (place.after d.data) bs := by
  funext setting r
  obtain ⟨hbefore, hafter⟩ := emit_failed bs (place.after d.data) setting r
  rw [emit, link_eq, bind_apply, Block.emit_eq, dispatch_of_idle (s := d.scene .standard place) (.inr hdisabled),
    proceed_apply]
  split
  · case isTrue hfailed => exact (hbefore hfailed).symm
  · refine Prod.ext ?_ rfl
    dsimp only [Fragment.empty, Fragment.text]
    split
    · case isTrue hfailed => exact (hafter hfailed).symm
    · exact String.empty_append

/-- A socket may be exchanged for one with the same code. -/
theorem Socket.Same.inside {s s' : Socket} (h : s.Same s') (d : BlockData) (before after : List Socket) (rest : Stack) :
    Stack.Same (.mk d (before ++ s :: after) :: rest) (.mk d (before ++ s' :: after) :: rest) := by
  have hsame : ∀ ss : List Socket, List.Forall₂ Socket.Same ss ss := fun ss => List.forall₂_same.mpr fun s _ => .refl s
  have hsockets : List.Forall₂ Socket.Same (before ++ s :: after) (before ++ s' :: after) :=
    rel_append (hsame before) (.cons h (hsame after))
  refine .cons rfl (fun place => Block.emit_same hsockets rfl rfl) (fun _ _ => rfl) ?_
  rw [Stack.remarks_cons, Stack.remarks_cons (.mk d (before ++ s' :: after)), Stack.remarks_singleton, Stack.remarks_singleton]
  exact congrArg (fun inner => _ ++ List.flatten inner ++ _) (Socket.map_same hsockets fun s s' hs => hs.target.remarks_eq)

theorem Stack.Omits.same {bs bs' : Stack} (h : bs.Omits bs') : bs.Same bs' := by
  induction h with
  | @here b d rest hdisabled hcomments =>
    refine .cons rfl (fun _ => rfl) (fun place owner => ?_) ?_
    · rw [emit_cons_disabled hdisabled]
      exact emit_place rest rfl rfl
    · have hnone : remarks [d] = [] := by
        simp only [remarks, descendants_eq_flatMap, flatMap_singleton, filterMap_eq_nil_iff]
        exact fun c hc => if_pos (hcomments c hc)
      rw [remarks_cons, remarks_cons d, hnone, nil_append, ← remarks_cons]
  | behind b _ ih =>
    refine .cons rfl (fun _ => rfl) (fun place owner => ih.emit_eq _) ?_
    rw [remarks_cons, ih.remarks_eq, ← remarks_cons]
  | plugged d before after name kind shadow rest h ih =>
    refine Socket.Same.inside ?_ d before after rest
    refine ⟨rfl, rfl, ?_⟩
    -- what is plugged in is not empty on either side, so that it counts
    cases h <;> exact ih
  | shadow d before after name kind plugged rest h ih =>
    refine Socket.Same.inside ?_ d before after rest
    refine ⟨rfl, rfl, ?_⟩
    cases plugged with
    | nil => exact ih
    | cons => exact .refl _

/-- **Disabled statements are invisible.**  Without a disabled block that follows another one, and
in which there are no comments, all that encloses it is emitted as before, from every run and with
every setting: the stack, its first block, and the stack as one of the workspace. -/
theorem Stack.Omits.emitted_alike {bs bs' : Stack} (h : bs.Omits bs') (place : Place) :
    Stack.emit .standard place bs = Stack.emit .standard place bs' ∧
    Stack.emitFirst .standard place bs = Stack.emitFirst .standard place bs' ∧
    ∀ g : Generator, g.vocabulary = .standard → g.emitTop bs = g.emitTop bs' :=
  ⟨h.same.emit_eq place, h.same.emitFirst_eq place, fun _ hg => h.same.emitTop_eq hg⟩

def looped (bs : Stack) : Stack := [.mk { id := "l", type := "controls_repeat" } [.mk "DO" .statement bs []]]

/-- A loop that prints and is left, with a disabled loop between the two. -/
theorem Stack.Omits.emitted_alike_looped :
    let print : Block := .mk { id := "p", type := "text_print" } []
    let off : Block := .mk { id := "d", type := "controls_repeat", disabled := true } [.mk "DO" .statement [print] []]
    let leave : Block := .mk { id := "j", type := "controls_flow_statements", fields := [⟨"FLOW", "BREAK", ""⟩] } []
    (looped [print, off, leave]).Omits (looped [print, leave]) ∧
      Stack.emit .standard {} (looped [print, off, leave]) = Stack.emit .standard {} (looped [print, leave]) := by
  intro print off leave
  have h : (looped [print, off, leave]).Omits (looped [print, leave]) :=
    .plugged _ [] [] _ _ [] [] (.here rfl (by decide))
  exact ⟨h, (h.emitted_alike {}).1⟩

end BlockProgram
