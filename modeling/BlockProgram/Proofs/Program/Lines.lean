import BlockProgram.Proofs.Program.Header
import BlockProgram.Proofs.Program.Hooks

/-! # Lines of a program

If the templates for hooks are whole lines, then so are statements, with everything that is put
around them: the text of each statement ends with a line break, and what follows starts on a line of
its own.  That goes for the statements of a stack, for the closing brace behind the body of a loop,
a branch or a function, and for the one at the end of the program (`Generator.writesLines`).
-/
namespace BlockProgram

open List Emit Vocabulary Text

/-! ### Texts -/

namespace Text

/-- The text ends with a piece that stands at the start of a line. -/
def Closes (close text : String) : Prop := ∃ lines, IsLine lines ∧ text = lines ++ close

variable {first second : String}

theorem Closes.append {close : String} (h : Closes close second) : Closes close (first ++ second) := by
  obtain ⟨lines, hlines, rfl⟩ := h
  exact ⟨first ++ lines, inferInstance, (String.append_assoc ..).symm⟩

/-- What is replaced in a text does not reach the line break at its end. -/
theorem getLast?_replaceChars {old : List Char} (hold : '\n' ∉ old) (new : List Char) (fuel : Nat) {cs : List Char}
    (hcs : cs.getLast? = some '\n') : (replaceChars old new fuel cs).getLast? = some '\n' := by
  induction fuel generalizing cs with
  | zero => exact hcs
  | succ fuel ih =>
    cases cs with
    | nil => exact hcs
    | cons c cs =>
      unfold replaceChars
      split
      · case isTrue h =>
        obtain ⟨rest, hrest⟩ := isPrefixOf_iff_prefix.mp h
        have hne : rest ≠ [] := by
          rintro rfl
          rw [append_nil] at hrest
          exact hold (hrest ▸ mem_of_getLast? hcs)
        rw [← hrest, getLast?_append_of_ne_nil _ hne] at hcs
        rw [← hrest, drop_left, getLast?_append, ih hcs]
        rfl
      · cases cs with
        | nil => cases fuel <;> exact hcs
        | cons d cs =>
          rw [getLast?_cons_cons] at hcs
          rw [getLast?_cons, ih hcs]
          rfl

instance (mark : String) [h : IsLine first] : IsLine (prependLines mark first) := by
  refine ⟨?_⟩
  unfold prependLines prependLinesChars
  rw [String.toList_ofList]
  split
  · rw [getLast?_append]
    rfl
  · obtain ⟨cs, hcs⟩ := getLast?_eq_some_iff.mp h.getLast?_eq
    rw [hcs, Literal.markAfterNewlines_append, ← append_assoc, markAfterNewlines, getLast?_concat]

theorem EndsLine.unless {p : Prop} [Decidable p] (h : ¬ p → IsLine first) : EndsLine (if p then "" else first) := by
  split
  · exact .empty
  · case isFalse hp => exact ⟨fun _ => h hp⟩

instance (mark : String) [h : EndsLine first] : EndsLine (if first = "" then "" else prependLines mark first) :=
  .unless fun hne => have := h.isLine hne; inferInstance

end Text

/-! ### Hooks -/

/-- The templates of the hooks are unused, or end their line. -/
class Options.EndsLines (o : Options) : Prop where
  statementPrefix : EndsLine o.statementPrefix
  statementSuffix : EndsLine o.statementSuffix
  infiniteLoopTrap : EndsLine o.infiniteLoopTrap

attribute [instance] Options.EndsLines.statementPrefix Options.EndsLines.statementSuffix
  Options.EndsLines.infiniteLoopTrap

section

variable (template : String) [h : EndsLine template] (b : BlockData)

theorem isLine_fillId (hne : template ≠ "") : IsLine (fillId template b) := by
  refine ⟨?_⟩
  unfold fillId replaceAll
  rw [String.toList_ofList]
  exact getLast?_replaceChars (by decide) _ _ (h.isLine hne).getLast?_eq

instance : EndsLine (hook template b) := .unless (isLine_fillId template b)

instance (indent : String) : EndsLine (indentedHook indent template b) :=
  .unless fun hne => have := isLine_fillId template b hne; inferInstance

end

/-! ### Blocks and stacks -/

section

variable {setting : Setting} [ho : setting.options.EndsLines]

section

variable (hflags : setting.flags = Vocabulary.standard.flags?)
include hflags

/-- Blocks that are disabled have no text, and neither have those that define something. -/
theorem Block.isLine_emit (b : Block) (place : Place) {r : Run} {text : String}
    (hdone : (b.emit .standard place setting r).2.failure = none)
    (htext : (b.emit .standard place setting r).1 = .statement text) :
    IsLine text ∨ text = "" ∧ (b.data.disabled = true ∨ b.data.isProcedureDefinition = true) := by
  cases hdisabled : b.data.disabled with
  | true =>
    rw [Block.emit_eq, dispatch_of_idle (s := b.stage place) (.inr hdisabled)] at htext
    exact .inr ⟨(Fragment.statement.inj htext).symm, .inl rfl⟩
  | false =>
    have hrunning := (Run.Reaches.of_acts (b.emit .standard place) r).running hdone
    obtain ⟨h, code, hhandled⟩ := Site.exists_handledBy (σ := ⟨b, place, []⟩) hflags hdisabled hrunning hdone
    rw [show (b.emit .standard place setting r).1 = _ from hhandled.emit_eq] at htext
    cases hdefines : b.data.isProcedureDefinition with
    | true =>
      obtain rfl := hhandled.code_of_defines hdefines
      exact .inr ⟨(Fragment.statement.inj htext).symm, .inr rfl⟩
    | false =>
      have hlined :=
        (lined_handler _ hhandled.get?_eq (hhandled.defines_eq.trans hdefines)).delivers _ hhandled.running
      rw [hhandled.code_eq] at hlined
      cases code with
      | expression => cases htext
      | handled => exact hlined.elim
      | statement own =>
        have hown : IsLine own := hlined
        obtain rfl := Fragment.statement.inj htext
        exact .inl inferInstance

theorem Block.endsLine_text (b : Block) (place : Place) {r : Run} (hdone : (b.emit .standard place setting r).2.failure = none)
    (hcode : ∀ text precedence, (b.emit .standard place setting r).1 ≠ .expression text precedence) :
    EndsLine (b.emit .standard place setting r).1.text := by
  cases h : (b.emit .standard place setting r).1 with
  | expression => exact absurd h (hcode _ _)
  | handled => exact .empty
  | statement text =>
    rcases b.isLine_emit hflags place hdone h with hline | ⟨rfl, -⟩
    · exact (inferInstance : EndsLine text)
    · exact .empty

/-- **Statements that follow each other do not share a line.**  The text of a stack is that of its
first block, which ends its line, and that of the others. -/
theorem Stack.emit_cons_cases (place : Place) (b : Block) (bs : Stack) (r : Run) :
    let first := b.emit .standard place setting r
    let out := Stack.emit .standard place (b :: bs) setting r
    EndsLine first.1.text ∧ out.1 = first.1.text ++ (Stack.emit .standard (place.after b.data) bs setting first.2).1 ∨
      out.1 = "" ∧ out.2.failure ≠ none := by
  dsimp only
  rw [Stack.emit, link_eq, bind_apply, proceed_apply]
  split
  · case isTrue hfailed => exact .inr ⟨rfl, Option.isSome_iff_ne_none.mp hfailed⟩
  · case isFalse hrunning =>
    have hends := b.endsLine_text hflags place (Option.not_isSome_iff_eq_none.mp hrunning)
    cases hcode : (b.emit .standard place setting r).1 with
    | expression => exact .inr ⟨rfl, (fail_eq setting ..).1⟩
    | statement | handled =>
      rw [hcode] at hends
      dsimp only
      split
      · case isTrue hfailed => exact .inr ⟨rfl, Option.isSome_iff_ne_none.mp hfailed⟩
      · exact .inl ⟨hends (fun _ _ => Fragment.noConfusion), rfl⟩

theorem Stack.endsLine_emit (place : Place) (bs : Stack) (r : Run) :
    EndsLine (Stack.emit .standard place bs setting r).1 := by
  induction bs generalizing place r with
  | nil =>
    unfold Stack.emit
    exact .empty
  | cons b bs ih =>
    rcases Stack.emit_cons_cases hflags place b bs r with ⟨hfirst, heq⟩ | ⟨heq, -⟩
    · have := ih (place.after b.data) (b.emit .standard place setting r).2
      rw [heq]
      infer_instance
    · rw [heq]
      infer_instance

theorem Block.endsLine_statements (b : Block) (place : Place) (name : String) (r : Run) :
    EndsLine (statements (b.stage place) name setting r).1 := by
  cases hslot : (b.stage place).slot? name with
  | none =>
    rw [statements_of_none hslot]
    exact .empty
  | some slot =>
    rw [statements_of_slot hslot]
    rw [Block.slot?_scene] at hslot
    obtain ⟨s, -, rfl⟩ := Option.map_eq_some_iff.mp hslot
    rw [Socket.slot_eq]
    have := Stack.endsLine_emit hflags (place.inside b.data (s.kind = .value)) s.target r
    dsimp only
    infer_instance

end

/-! ### Bodies -/

omit ho in
theorem Delivers.bind_of {α β : Type} {P : β → Prop} {Q : α → Prop} {x : Emit α} {g : α → Emit β}
    (hx : ∀ r, Q (x setting r).1) (hg : ∀ a, Q a → Delivers setting (g a) P) : Delivers setting (x >>= g) P :=
  fun r => hg _ (hx r) _

/-- The statement ends with a piece that stands at the start of a line. -/
def Fragment.Closes (close : String) (code : Fragment) : Prop := ∃ text, code = .statement text ∧ Text.Closes close text

omit ho in
theorem Fragment.Closes.of_lines {lines close : String} (h : IsLine lines) :
    Fragment.Closes close (.statement (lines ++ close)) :=
  ⟨_, rfl, _, h, rfl⟩

/-- The types of blocks with one body, and what closes it. -/
def Vocabulary.closings : List (String × String) :=
  [("on_start", "\x7d\n"), ("forever", " )\n"), ("procedures_ifreturn", "\x7d\n"), ("widgets_ifreturn", "\x7d\n")] ++
    loopKinds.map (·, "\x7d\n")

variable {s : Scene} (hs : ∀ name r, EndsLine (statements s name setting r).1)
include hs

theorem Delivers.loopBody {α : Type} {P : α → Prop} {g : String → Emit α} {name : String}
    (hg : ∀ body, EndsLine body → Delivers setting (g body) P) :
    Delivers setting (statements s name >>= fun statements => Emit.loopBody s statements >>= g) P := by
  refine .bind_of (hs name) fun statements hstatements => .bind_of (fun r => ?_) hg
  show EndsLine (ite _ (Pure.pure _ : Emit String) _ setting r).1
  split
  · show EndsLine (_ ++ statements)
    infer_instance
  · show EndsLine (_ ++ (_ ++ statements) ++ _)
    infer_instance

theorem closes_loop {x : Emit Fragment} (h : IsLoop setting s x) : Delivers setting x (Fragment.Closes "\x7d\n") := by
  induction h with
  | bind _ ih => exact .bind ih
  | body hg =>
    refine .loopBody hs fun body hbody r hr => ?_
    obtain ⟨header, hcode, hheader⟩ := hg body r hr
    rw [hcode]
    exact .of_lines inferInstance

omit ho hs in
theorem closes_appOnStart : Delivers setting (appOnStart s) (Fragment.Closes "\x7d\n") := by
  refine .bind fun o => .bind fun body => .pure ⟨_, rfl, ?_⟩
  simp only [Text.join, String.intercalate_cons_cons, String.intercalate_singleton, String.append_empty]
  iterate 5 apply Text.Closes.append
  exact ⟨_, inferInstance, rfl⟩

theorem closes_body [s.Open .standard setting] {h : BlockHandler} {type close : String}
    (htype : (type, close) ∈ closings) (hget : standard.get? type = some h) :
    Delivers setting (h.emit s) (Fragment.Closes close) := by
  rcases mem_append.mp htype with htype | htype
  · simp only [mem_cons, not_mem_nil, or_false, Prod.mk.injEq] at htype
    rcases htype with ⟨rfl, rfl⟩ | ⟨rfl, rfl⟩ | ⟨rfl, rfl⟩ | ⟨rfl, rfl⟩
    all_goals obtain rfl := Option.some.inj hget
    · exact closes_appOnStart
    · refine .bind fun o => .bind_of (hs _) fun body hbody => .pure (.of_lines ?_)
      by_cases hempty : body = ""
      · rw [if_pos hempty]
        infer_instance
      · have := hbody.isLine hempty
        infer_instance
    all_goals
      refine .bind fun o => .bind fun condition => ?_
      split
      · exact .bind fun value => .pure (.of_lines inferInstance)
      · exact .pure (.of_lines inferInstance)
  · obtain ⟨_, hloop, heq⟩ := mem_map.mp htype
    obtain ⟨rfl, rfl⟩ := Prod.mk.inj heq
    exact closes_loop hs (isLoop_handler hget hloop)

/-- The text of a branch: its statements, and a brace on a line of its own. -/
def IsBranch (setting : Setting) (s : Scene) (name text : String) : Prop :=
  ∃ opening r, text = opening ++ (branch s name setting r).1 ++ "\x7d" ∧ IsLine (opening ++ (branch s name setting r).1)

/-- The text of a conditional, without its prefix: some branches with conditions, and perhaps
another one. -/
def IsConditional (setting : Setting) (s : Scene) (text : String) : Prop :=
  ∃ k, ∃ last ⊆ ["ELSE"], ∃ texts, text = String.join texts ∧
    Forall₂ (IsBranch setting s) ((range k).map ("DO" ++ toString ·) ++ last) texts

theorem isBranch_of_opening {opening name : String} [IsLine opening] (r : Run) :
    IsBranch setting s name (opening ++ (branch s name setting r).1 ++ "\x7d") := by
  have := hs name r
  refine ⟨opening, r, rfl, ?_⟩
  show IsLine (opening ++ (_ ++ (statements s name setting r).1))
  infer_instance

/-- The text of some branches with conditions, from number `n` on. -/
def IsBranches (setting : Setting) (s : Scene) (n : Nat) (text : String) : Prop := ∃ k texts, text = String.join texts ∧
  Forall₂ (IsBranch setting s) ((range' n k).map ("DO" ++ toString ·)) texts

theorem isBranches_arms (fuel n : Nat) (r : Run) : IsBranches setting s n (arms s fuel n setting r).1 := by
  induction fuel generalizing n r with
  | zero => exact ⟨0, [], rfl, .nil⟩
  | succ fuel ih =>
    unfold arms
    split
    · obtain ⟨k, texts, htexts, hbranches⟩ := ih (n + 1) (arm s n setting r).2
      refine ⟨k + 1, (arm s n setting r).1 :: texts, ?_, .cons (isBranch_of_opening hs _) hbranches⟩
      rw [String.join_cons, ← htexts]
      rfl
    · exact ⟨0, [], rfl, .nil⟩

theorem delivers_controlsIf : Delivers setting (controlsIf s) fun code => ∃ text, IsConditional setting s text ∧
    code = .statement (hook setting.options.statementPrefix s.data ++ text ++ "\n") := by
  refine .options (.bind_of (isBranches_arms hs _ 0) fun chain => ?_)
  rintro ⟨k, texts, rfl, hbranches⟩
  rw [← range_eq_range'] at hbranches
  split
  · intro r _
    have hlast : IsBranch setting s "ELSE" _ := @isBranch_of_opening _ _ _ hs " else \x7b\n" _ _ r
    refine ⟨_, ⟨k, ["ELSE"], Subset.refl _, texts ++ [_], rfl, rel_append hbranches (.cons hlast .nil)⟩, ?_⟩
    rw [String.join_append, ← String.append_assoc]
    rfl
  · refine .pure ⟨_, ⟨k, [], nil_subset _, texts, rfl, by rwa [append_nil]⟩, ?_⟩
    rw [String.append_empty]

/-! ### Functions and programs -/

theorem closes_function : Delivers setting (function? s) fun f =>
    ∀ name text, f = some (name, text) → Text.Closes "\x7d" text := by
  refine .bind fun word => ?_
  split
  · refine .options (.bind_of (hs _) fun body hbody => .bind fun value => .bind fun params => .withNeighbours ?_)
    exact fun comments => .append ⟨_, inferInstance, rfl⟩
  · refine .options (.bind_of (hs _) fun body hbody => .bind fun value => ?_)
    dsimp only
    generalize widgetName _ = name
    by_cases hpath : hasPath name.toList = true
    · rw [if_pos hpath]
      exact .pure nofun
    · rw [if_neg hpath]
      exact .bind fun params => .withNeighbours fun comments => .append ⟨_, inferInstance, rfl⟩

end

/-! ### Programs -/

theorem Text.endsLine_join {parts : List String} (h : ∀ part ∈ parts, IsLine part) : EndsLine (join "\n" parts) := by
  induction parts with
  | nil => exact .empty
  | cons part parts ih =>
    obtain ⟨hpart, hparts⟩ := forall_mem_cons.mp h
    cases parts with
    | nil => exact (inferInstance : EndsLine part)
    | cons part' parts =>
      have := ih hparts
      unfold join at this ⊢
      rw [String.intercalate_cons_cons]
      infer_instance

/-- The final pass leaves a brace at the end on its line. -/
theorem Text.closes_tidy {lines : String} [h : IsLine lines] {c : Char} (hc : c ∈ lines.toList)
    (hblank : isPatternBlank c = false) : Closes "\x7d" (tidy (lines ++ "\x7d")) := by
  obtain ⟨cs, hcs⟩ := getLast?_eq_some_iff.mp h.getLast?_eq
  rw [hcs] at hc
  have hc : c ∈ cs := by
    refine (mem_append.mp hc).resolve_right fun hmem => ?_
    rw [mem_singleton.mp hmem] at hblank
    cases hblank
  have hchars : (lines ++ "\x7d").toList = cs ++ ['\n', '\x7d'] := by
    rw [String.toList_append, hcs, append_assoc]
    rfl
  obtain ⟨before, hbefore, hblanks⟩ := Literal.dropLeadingBlank_append (cs ++ ['\n', '\x7d'])
  obtain ⟨rest, hrest⟩ : ∃ rest, dropLeadingBlank (cs ++ ['\n', '\x7d']) = rest ++ ['\n', '\x7d'] := by
    rcases append_eq_append_iff.mp hbefore with ⟨more, hmore, -⟩ | ⟨rest, -, hrest⟩
    · have := hblanks c (hmore ▸ mem_append_left more hc)
      rw [hblank] at this
      cases this
    · exact ⟨rest, hrest⟩
  have hends : EndsWithText '\x7d' (rest ++ ['\n', '\x7d']) := ⟨by decide, rest ++ ['\n'], by rw [append_assoc]; rfl⟩
  obtain ⟨ds, hds⟩ := @dropLineEndSpaces_append '\n' rfl [] rest ['\x7d']
  refine ⟨String.ofList (ds ++ ['\n']), ⟨by rw [String.toList_ofList, getLast?_concat]⟩, ?_⟩
  unfold tidy tidyChars
  rw [hchars, hrest, hends.dropTrailingBlank_eq, hds, ← String.toList_inj, String.toList_ofList, String.toList_append,
    String.toList_ofList, append_assoc]
  rfl

namespace Generator

section

variable {g : Generator} (hg : g.vocabulary = .standard) [ho : g.options.EndsLines]
include hg

instance : g.setting.options.EndsLines := ⟨ho.statementPrefix, ho.statementSuffix, ho.infiniteLoopTrap⟩

theorem endsLine_emitTop (stack : Stack) (r : Run) : EndsLine (g.emitTop stack g.setting r).1 := by
  have hflags : g.setting.flags = Vocabulary.standard.flags? := congrArg Vocabulary.flags? hg
  cases stack with
  | nil => exact .empty
  | cons b bs =>
    rw [emitTop_cons, hg]
    dsimp only
    split
    · infer_instance
    · case isFalse hrunning =>
      have hends := b.endsLine_text hflags {} (Option.not_isSome_iff_eq_none.mp hrunning)
      split
      · unfold bareValue
        infer_instance
      · case h_2 hcode =>
        have := hends hcode
        have := Stack.endsLine_emit hflags (({} : Place).after b.data) bs (b.emit .standard {} g.setting r).2
        infer_instance

theorem isLine_emitTops (tops : List Stack) (r : Run) : ∀ part ∈ (g.emitTops tops g.setting r).1, IsLine part := by
  induction tops generalizing r with
  | nil => exact fun _ h => absurd h not_mem_nil
  | cons stack tops ih =>
    rw [emitTops_cons]
    dsimp only
    split
    · exact fun _ h => absurd h not_mem_nil
    · split
      · exact ih _
      · case isFalse hne => exact forall_mem_cons.mpr ⟨(endsLine_emitTop hg stack r).isLine hne, ih _⟩

theorem closes_program (w : Workspace) (hrunning : (g.final w).failure = none) :
    Text.Closes "\x7d" (g.program w g.setting (g.start w)).1 := by
  rw [final_eq] at hrunning
  rw [program_eq]
  dsimp only
  rw [hrunning]
  have := endsLine_join (isLine_emitTops hg w.inReadingOrder (g.start w))
  show Text.Closes _ (Text.tidy (finish _ _ _))
  unfold finish
  dsimp only
  refine Text.closes_tidy (c := 'm') ?_ (by decide)
  rw [String.toList_append, String.toList_append]
  exact mem_append_left _ (mem_append_right _ mem_cons_self)

end

/-- The texts of statements are whole lines, and what closes a body stands on a line of its own. -/
structure WritesLines (g : Generator) : Prop where
  /-- A block that is disabled has no text, and neither has one that defines something. -/
  block : ∀ (b : Block) (place : Place) (r : Run) (text : String), (b.emit .standard place g.setting r).2.failure = none →
    (b.emit .standard place g.setting r).1 = .statement text →
      text ≠ "" ∧ IsLine text ∨ text = "" ∧ (b.data.disabled = true ∨ b.data.isProcedureDefinition = true)
  stack : ∀ (place : Place) (bs : Stack) (r : Run), EndsLine (Stack.emit .standard place bs g.setting r).1
  statements : ∀ (b : Block) (place : Place) (name : String) (r : Run),
    EndsLine (Emit.statements (b.stage place) name g.setting r).1
  /-- Statements that follow each other do not share a line. -/
  follow : ∀ (place : Place) (b : Block) (bs : Stack) (r : Run),
    let first := b.emit .standard place g.setting r
    let out := Stack.emit .standard place (b :: bs) g.setting r
    out.2.failure = none → EndsLine first.1.text ∧
      out.1 = first.1.text ++ (Stack.emit .standard (place.after b.data) bs g.setting first.2).1
  body : ∀ (b : Block) (place : Place) (type close : String) (h : BlockHandler), (type, close) ∈ Vocabulary.closings →
    Vocabulary.standard.get? type = some h →
      Delivers g.setting (h.emit (b.stage place)) (Fragment.Closes close)
  conditional : ∀ (b : Block) (place : Place), ∀ type ∈ ["controls_if", "controls_ifelse"], ∀ h,
    Vocabulary.standard.get? type = some h → Delivers g.setting (h.emit (b.stage place)) fun code =>
      ∃ text, IsConditional g.setting (b.stage place) text ∧
        code = .statement (hook g.setting.options.statementPrefix b.data ++ text ++ "\n")
  function : ∀ w result, g.generate w = .ok result → ∀ d ∈ result.definitions, d.isOfBlock = true → Closes "\x7d" d.code
  program : ∀ w result, g.generate w = .ok result → Closes "\x7d" result.code

end Generator

end BlockProgram