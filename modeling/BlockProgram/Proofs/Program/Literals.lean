import BlockProgram.Proofs.Emission.Bearers
import BlockProgram.Proofs.Program.Failures
import BlockProgram.Proofs.Workspace.ReadingOrder

/-! # Literals of a program

A text that a run has come by is in the program as a literal (`Generator.literals_survive`).  Between
the quotes stands the text itself, but for what indenting adds: each time the code around it is
indented, so is every line of the text after its first one.  A text of one line is read back as it
is.
-/
namespace BlockProgram

open List

namespace Generator

theorem program_eq (g : Generator) (w : Workspace) (setting : Setting) (r : Run) : g.program w setting r =
      let out := g.emitTops w.inReadingOrder setting r
      (if out.2.failure.isSome then ""
        else Text.tidy (finish setting.options.indent out.2.definitions (Text.join "\n" out.1)), out.2) := by
  unfold program
  rw [bind_apply]
  generalize g.emitTops w.inReadingOrder setting r = out
  obtain ⟨parts, r'⟩ := out
  rw [failed_apply]
  dsimp only
  split <;> rfl

theorem emitTop_cons (g : Generator) (b : Block) (bs : Stack) (setting : Setting) (r : Run) :
    g.emitTop (b :: bs) setting r =
      let out := b.emit g.vocabulary {} setting r
      if out.2.failure.isSome then ("", out.2)
      else match out.1 with
        | .expression text _ => (if text = "" then "" else bareValue setting b.data text, out.2)
        | code =>
          let rest := Stack.emit g.vocabulary (({} : Place).after b.data) bs setting out.2
          (code.text ++ rest.1, rest.2) := by
  rw [emitTop, bind_apply]
  generalize b.emit g.vocabulary {} setting r = out
  obtain ⟨code, r'⟩ := out
  rw [failed_apply]
  cases code <;> rfl

theorem emitTops_cons (g : Generator) (stack : Stack) (tops : List Stack) (setting : Setting) (r : Run) :
    g.emitTops (stack :: tops) setting r =
      let out := g.emitTop stack setting r
      if out.2.failure.isSome then ([], out.2)
      else
        let rest := g.emitTops tops setting out.2
        (if out.1 = "" then rest.1 else out.1 :: rest.1, rest.2) := by
  rw [emitTops, bind_apply]
  generalize g.emitTop stack setting r = out
  obtain ⟨code, r'⟩ := out
  rw [failed_apply]
  rfl

def final (g : Generator) (w : Workspace) : Run := (g.program w g.setting (g.start w)).2

theorem generate_eq_ok_iff {g : Generator} {w : Workspace} {result : Result} :
    g.generate w = .ok result ↔ (g.final w).failure = none ∧ ⟨(g.program w g.setting (g.start w)).1,
      (g.final w).names.entries, (g.final w).definitions⟩ = result := by
  rw [generate_eq, ← final]
  cases (g.final w).failure with
  | none => exact ⟨fun h => ⟨rfl, Except.ok.inj h⟩, fun h => congrArg _ h.2⟩
  | some f => exact ⟨nofun, nofun⟩

theorem isIndent_completed {g : Generator} (h : Literal.IsIndent g.options.indent.toList) :
    Literal.IsIndent g.setting.options.indent.toList := by
  show Literal.IsIndent (if g.options.indent = "" then "    " else g.options.indent).toList
  split
  · decide
  · exact h

/-- A text whose literals are followed while programs are generated. -/
def tracking (g : Generator) (h : Literal.IsIndent g.options.indent.toList) (text : String) : Tracking where
  setting := g.setting
  text := text
  isIndent := isIndent_completed h

end Generator

namespace Tracking

variable {t : Tracking}

/-! ### Stacks of the workspace -/

theorem Holds.bareValue {code : String} (h : t.Holds code) (b : BlockData) :
    t.Holds (Generator.bareValue t.setting b code) := by
  unfold Generator.bareValue
  split
  · exact h.append_left
  · exact h.append_left.append_right.append_left

section

variable {g : Generator} (hg : g.vocabulary = .standard)
include hg

theorem carries_emitTop (stack : Stack)
    (hdivides : ∀ b ∈ Stack.descendants stack, ∀ place, (b.stage place).Divides t.setting) :
    t.CarriesText (g.emitTop stack) := by
  intro depth hand
  cases stack with
  | nil => exact .pure .inl
  | cons b bs =>
    rw [Stack.descendants, forall_mem_append] at hdivides
    have hb := Block.emit_rule carriesAll.emitRule b hdivides.1 {}
    have hbs := (Stack.emit_rule carriesAll.emitRule (fun b' hb' => Block.emit_rule carriesAll.emitRule b' fun c hc =>
      hdivides.2 c (Stack.descendants_eq_flatMap bs ▸ mem_flatMap.mpr ⟨b', hb', hc⟩)) (({} : Place).after b.data)).2
    unfold Generator.emitTop
    rw [hg]
    refine (hb depth hand).bind fun code => Carries.failed.bind fun failed => ?_
    split
    · case isTrue hfailed => exact .pure fun h => absurd (h.1.symm.trans hfailed) Bool.false_ne_true
    · refine .setting ?_
      split
      · case h_1 text precedence =>
        refine .pure fun h => h.2.imp_right fun hholds => ?_
        have hholds : t.Holds text := hholds
        rw [if_neg hholds.ne_empty]
        exact hholds.bareValue _
      · refine (hbs depth _).bind fun rest => .pure fun h => ?_
        grind

theorem carries_emitTops {depth : Nat} {hand : Prop} (tops : List Stack)
    (hdivides : ∀ stack ∈ tops, ∀ b ∈ Stack.descendants stack, ∀ place, (b.stage place).Divides t.setting) :
    t.Carries depth hand (g.emitTops tops) depth fun parts => hand ∨ ∃ part ∈ parts, t.Holds part := by
  induction tops generalizing hand with
  | nil => exact .pure .inl
  | cons stack tops ih =>
    obtain ⟨hstack, htops⟩ := forall_mem_cons.mp hdivides
    refine (carries_emitTop hg stack hstack depth hand).bind fun code => Carries.failed.bind fun failed => ?_
    split
    · case isTrue hfailed => exact .pure fun h => absurd (h.1.symm.trans hfailed) Bool.false_ne_true
    · refine (ih htops).bind fun rest => .pure fun h => ?_
      grind

end

/-! ### The program around them -/

theorem Holds.imports_or_others {definitions : Definitions} {d : Definition} (hd : d ∈ definitions)
    (h : t.Holds d.code) :
    t.Holds (Text.join "\n" definitions.imports ++ "\n\n" ++ Text.join "\n\n" definitions.others) := by
  have hmem : d.code ∈ definitions.map (·.code) := mem_map_of_mem hd
  cases himport : Definitions.isImport d.code with
  | true => exact append_left (append_left (join ⟨_, mem_filter.mpr ⟨hmem, himport⟩, h⟩))
  | false => exact append_right (join ⟨_, mem_filter.mpr ⟨hmem, by rw [himport]; rfl⟩, h⟩)

theorem holds_finish {definitions : Definitions} {body : String}
    (h : t.Holds body ∨ ∃ d ∈ definitions, t.Holds d.code) :
    t.Holds (Generator.finish t.setting.options.indent definitions body) := by
  unfold Generator.finish
  rcases h with hbody | ⟨d, hd, hholds⟩
  · rw [if_neg hbody.ne_empty]
    exact hbody.prependLines.append_right.append_left
  · have hheader := Literal.Holds.of_spares (Literal.spares_dropEndNewlines)
      (Literal.Holds.of_spares (Literal.spares_collapseNewlines 0) (hholds.imports_or_others hd))
    rw [String.toList_ofList] at hheader
    exact Holds.append_front hheader

theorem safe_start (g : Generator) (hreserved : reservedWords ⊆ g.reserved) (w : Workspace) :
    t.Safe 0 False (g.start w) := by
  have hclosed : (g.start w).closed = 0 := by
    refine countP_eq_zero.mpr fun d hd => ?_
    unfold Generator.start at hd
    dsimp only at hd
    split at hd
    · cases hd
    · rw [mem_singleton.mp hd]
      show ¬ decide ("variables".toList.head? = some '%') = true
      decide
  exact ⟨(Generator.good_start g hreserved w).toOrderly, by rw [hclosed]; exact Nat.zero_le _, fun ⟨_, hb, _⟩ => nomatch hb⟩

/-- The program holds what the code of the stacks holds, and what is stored. -/
theorem holds_program {g : Generator} (hg : g.vocabulary = .standard) (hreserved : reservedWords ⊆ g.reserved)
    (hindent : Literal.IsIndent g.options.indent.toList) (text : String) (w : Workspace)
    (hdivides : ∀ b ∈ w.everyBlock, ∀ place, (b.stage place).Divides g.setting)
    (hrunning : (g.final w).failure = none) (hentered : (g.tracking hindent text).Entered (g.final w))
    (hkept : ¬ (g.tracking hindent text).Lost 0 (g.final w)) :
    (g.tracking hindent text).Holds (g.program w g.setting (g.start w)).1 := by
  have htops : ∀ stack ∈ w.inReadingOrder, ∀ b ∈ Stack.descendants stack, ∀ place,
      (b.stage place).Divides g.setting := fun stack hstack b hb =>
    hdivides b (mem_flatMap.mpr ⟨stack, w.inReadingOrder_perm.mem_iff.mp hstack, hb⟩)
  have hsafe := (carries_emitTops (t := g.tracking hindent text) hg w.inReadingOrder htops).safe _
    (safe_start g hreserved w)
  unfold Generator.final at hrunning hentered hkept
  rw [Generator.program_eq] at hrunning hentered hkept ⊢
  dsimp only at hrunning hentered hkept ⊢
  rw [hrunning]
  refine Literal.Holds.of_spares Literal.spares_tidyChars (holds_finish ?_)
  rcases (hsafe hrunning).safe hentered with (hfalse | hparts) | hstored | hlost
  · exact hfalse.elim
  · exact .inl (.join hparts)
  · exact .inr hstored
  · exact absurd hlost hkept

end Tracking

namespace Generator

/-- **Texts are in the program as literals, as far as indenting leaves them alone.**  Let a run
succeed in which every definition is stored and every check for divisibility has a divisor, and let
a block with a text be handed to its handler.  Unless the text has double quotes and there may be
listeners, which strip them, the program has a literal that is read as the text with `k`
indentations added to all lines but the first.  That is the text itself only if there are no such
lines, or nothing was indented. -/
theorem literals_survive (g : Generator) (hvocabulary : g.vocabulary = .standard)
    (hreserved : reservedWords ⊆ g.reserved) (hindent : Literal.IsIndent g.options.indent.toList) (w : Workspace)
    (hdivides : ∀ b ∈ w.everyBlock, ∀ place, (b.stage place).Divides g.setting) {result : Result}
    (hresult : g.generate w = .ok result) (hstored : (g.final w).closed = (g.final w).opened)
    {b : BlockData} (hb : b ∈ (g.final w).dispatched) (htype : b.type = "text")
    (hlisteners : '"' ∈ (b.fieldValue "TEXT").toList → ∀ e ∈ result.names, e.category = .procedure →
      Vocabulary.widgetName e.text ≠ "sensor::new_sensor_listener") :
    ∃ k before behind rest, result.code.toList = before ++ '\'' :: behind ∧ Literal.read? behind =
        some (Literal.deepened g.options.completed.indent (b.fieldValue "TEXT") k, rest) ∧
      (Literal.deepened g.options.completed.indent (b.fieldValue "TEXT") k = (b.fieldValue "TEXT").toList ↔
        k = 0 ∨ '\n' ∉ (b.fieldValue "TEXT").toList) := by
  obtain ⟨hfailure, rfl⟩ := generate_eq_ok_iff.mp hresult
  have hkept : ¬ (g.tracking hindent (b.fieldValue "TEXT")).Lost 0 (g.final w) := by
    rintro (hfewer | ⟨e, he, hcategory, hquote, hname⟩)
    · omega
    · exact hlisteners hquote e he hcategory hname
  have hholds := Tracking.holds_program hvocabulary hreserved hindent _ w hdivides hfailure
    ⟨b, hb, htype, rfl⟩ hkept
  obtain ⟨k, before, behind, rest, hcode, hread⟩ := Literal.Holds.exists_read? hholds
  refine ⟨k, before, behind, rest, hcode, hread, Literal.deepened_eq_iff ?_ _ _⟩
  show (if g.options.indent = "" then "    " else g.options.indent) ≠ ""
  split
  · decide
  · assumption

def printed (id text : String) : Block :=
  .mk { id := id, type := "text_print" }
    [.mk "TEXT" .value [.mk { id := id ++ "t", type := "text", fields := [{ name := "TEXT", value := text }] } []] []]

/-- A text with a quote in a procedure, and one of two lines in a loop. -/
def twoTexts : Workspace where
  tops := [
    [.mk { id := "f", type := "procedures_defnoreturn", fields := [{ name := "NAME", value := "f" }] }
      [.mk "STACK" .statement [printed "p" "it's"] []]],
    [.mk { id := "l", type := "controls_whileUntil" } [.mk "DO" .statement [printed "q" "a\nb"] []]]]

/-- The line break of the second text is kept, but its second line is indented twice with the code
around it. -/
theorem literals_survive_twoTexts :
    (({} : Generator).final twoTexts).closed = (({} : Generator).final twoTexts).opened ∧
    ∃ result, ({} : Generator).generate twoTexts = .ok result ∧
      result.code = "void f() \x7b\n    print('it\\'s');\n\x7d\n\nmain() \x7b\n    while (false) \x7b\n" ++
        "        print('a\\\n        b');\n    \x7d\n\x7d" ∧
      ∀ text ∈ ["a\nb", "it's"], ∃ k before behind rest, result.code.toList = before ++ '\'' :: behind ∧
        Literal.read? behind = some (Literal.deepened "    " text k, rest) ∧
        (Literal.deepened "    " text k = text.toList ↔ k = 0 ∨ '\n' ∉ text.toList) := by
  have hstored : (({} : Generator).final twoTexts).closed = (({} : Generator).final twoTexts).opened := by
    decide +kernel
  have hresult := generate_eq_ok_iff.mpr
    ⟨show (({} : Generator).final twoTexts).failure = none by decide +kernel, rfl⟩
  refine ⟨hstored, _, hresult, by decide +kernel, fun text htext => ?_⟩
  have htexts : (({} : Generator).final twoTexts).dispatched.filterMap (fun b =>
      if b.type = "text" then some (b.fieldValue "TEXT") else none) = ["a\nb", "it's"] := by decide +kernel
  have hquote : '"' ∉ text.toList := (show ∀ text ∈ ["a\nb", "it's"], '"' ∉ text.toList by decide) text htext
  have hplain : ∀ b ∈ twoTexts.everyBlock, b.data.type ≠ "math_number_property" := by decide +kernel
  rw [← htexts] at htext
  obtain ⟨b, hb, hfield⟩ := mem_filterMap.mp htext
  obtain ⟨htype, hfield⟩ := Option.ite_none_right_eq_some.mp hfield
  obtain rfl := Option.some.inj hfield
  exact literals_survive {} rfl (List.Subset.refl _) (by decide) twoTexts
    (fun b hb _ htype => absurd htype (hplain b hb)) hresult hstored hb htype fun h => absurd h hquote

end Generator

end BlockProgram
