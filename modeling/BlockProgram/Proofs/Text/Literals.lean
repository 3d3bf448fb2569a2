import BlockProgram.Program.Literal
import BlockProgram.Proofs.Number.Whole
import Mathlib.Data.List.Infix
import Mathlib.Data.List.TakeWhile

/-! # Literals in a text

After a literal is written, the text around it is indented, and a finished program is tidied.  None
of these passes knows of literals.  Still, all of the tidying spares them (`Spares`): a line break
within a literal has a backslash right before it, so that it never ends a run of line breaks or of
spaces.  Indenting does not: the indentation ends up behind the line breaks of the literal
(`deepen`), and becomes a part of what it denotes.
-/
namespace BlockProgram.Literal

open Text List

/-! ### Reading a literal -/

/-- Reads a literal from behind its opening quote: what it denotes, and the text behind its closing
quote.  A backslash and a character denote that character. -/
def read? : List Char → Option (List Char × List Char)
  | [] => none
  | '\'' :: cs => some ([], cs)
  | '\\' :: c :: cs => (read? cs).map fun p => (c :: p.1, p.2)
  | c :: cs => (read? cs).map fun p => (c :: p.1, p.2)

/-- A character is written as it is or with a backslash in front. -/
theorem escapeChar_cases (c : Char) :
    escapeChar c = ['\\', c] ∨ escapeChar c = [c] ∧ c ≠ '\\' ∧ c ≠ '\n' ∧ c ≠ '\'' := by
  unfold escapeChar
  split
  · exact .inl rfl
  · case isFalse h =>
    simp only [Bool.or_eq_true, decide_eq_true_eq, not_or] at h
    exact .inr ⟨rfl, h.1.1.1, h.1.1.2, h.2⟩

theorem read?_escapeChar (c : Char) (cs : List Char) :
    read? (escapeChar c ++ cs) = (read? cs).map fun p => (c :: p.1, p.2) := by
  rcases escapeChar_cases c with h | ⟨h, hslash, -, hquote⟩
  · rw [h, cons_append, cons_append, nil_append, read?]
  · rw [h, singleton_append, read?]
    · exact hquote
    · exact fun _ _ hc => absurd hc hslash

/-- A literal is read as the text it was written for. -/
theorem read?_quoteChars (s rest : List Char) : read? (s.flatMap escapeChar ++ '\'' :: rest) = some (s, rest) := by
  induction s with
  | nil => rfl
  | cons c s ih => rw [flatMap_cons, append_assoc, read?_escapeChar, ih, Option.map_some]

theorem quoteChars_append (s rest : List Char) :
    quoteChars s ++ rest = '\'' :: (s.flatMap escapeChar ++ '\'' :: rest) := by
  rw [quoteChars, cons_append, append_assoc, singleton_append]

/-! ### Passes that spare literals -/

/-- The pass leaves every literal in a text alone. -/
def Spares (pass : List Char → List Char) : Prop :=
  ∀ s cs, quoteChars s <:+: cs → quoteChars s <:+: pass cs

theorem Spares.comp {first then_ : List Char → List Char} (h : Spares first) (h' : Spares then_) :
    Spares (then_ ∘ first) :=
  fun s _ hs => h' s _ (h s _ hs)

/-- A pass from left to right with a state, if it gets through a literal from any state. -/
theorem spares_of_scan {σ : Type} {scan : σ → List Char → List Char}
    (hstep : ∀ state c cs, ∃ done state', scan state (c :: cs) = done ++ scan state' cs)
    (hquote : ∀ state s cs, ∃ before after, scan state (quoteChars s ++ cs) = before ++ quoteChars s ++ after)
    (state : σ) : Spares (scan state) := by
  rintro s _ ⟨before, after, rfl⟩
  rw [append_assoc]
  induction before generalizing state with
  | nil =>
    obtain ⟨before, after, h⟩ := hquote state s after
    exact ⟨before, after, h.symm⟩
  | cons c cs ih =>
    obtain ⟨done, state', h⟩ := hstep state c (cs ++ (quoteChars s ++ after))
    rw [cons_append, h]
    exact (ih state').trans (suffix_append done _).isInfix

theorem collapseNewlines_literal (s cs : List Char) {run : Nat} (h : run < 2) :
    collapseNewlines run (s.flatMap escapeChar ++ '\'' :: cs) =
      s.flatMap escapeChar ++ '\'' :: collapseNewlines 0 cs := by
  induction s generalizing run with
  | nil => rfl
  | cons c s ih =>
    rw [flatMap_cons, append_assoc, append_assoc]
    rcases escapeChar_cases c with hc | ⟨hc, -, hbreak, -⟩
    · have hrest : collapseNewlines 0 (c :: (s.flatMap escapeChar ++ '\'' :: cs)) =
          c :: (s.flatMap escapeChar ++ '\'' :: collapseNewlines 0 cs) := by
        rw [collapseNewlines, if_pos (show 0 < 2 by decide), ih (by decide), ih (by decide), ite_self]
      rw [hc, cons_append, singleton_append, collapseNewlines, if_neg (by decide), hrest]
      rfl
    · rw [hc, singleton_append, collapseNewlines, if_neg hbreak, ih (by decide)]
      rfl

theorem spares_collapseNewlines (run : Nat) : Spares (collapseNewlines run) := by
  refine spares_of_scan (fun run c cs => ?_) (fun run s cs => ⟨[], collapseNewlines 0 cs, ?_⟩) run
  · rw [collapseNewlines]
    split
    · split
      · exact ⟨[c], run + 1, rfl⟩
      · exact ⟨[], run, rfl⟩
    · exact ⟨[c], 0, rfl⟩
  · rw [quoteChars_append, collapseNewlines, if_neg (by decide), collapseNewlines_literal s cs (by decide),
      nil_append, quoteChars_append]

theorem dropLineEndSpaces_literal (s cs held : List Char) :
    dropLineEndSpaces held (s.flatMap escapeChar ++ '\'' :: cs) =
      held ++ s.flatMap escapeChar ++ '\'' :: dropLineEndSpaces [] cs := by
  induction s generalizing held with
  | nil => rw [flatMap_nil, append_nil]; rfl
  | cons c s ih =>
    rw [flatMap_cons, append_assoc]
    -- A character that is no line break is kept, now or with the next one that is no space.
    have hkept : ∀ held, c ≠ '\n' → dropLineEndSpaces held (c :: (s.flatMap escapeChar ++ '\'' :: cs)) =
        held ++ c :: (s.flatMap escapeChar ++ '\'' :: dropLineEndSpaces [] cs) := by
      intro held hbreak
      rw [dropLineEndSpaces]
      split
      · rw [ih, append_assoc, append_assoc, singleton_append]
      · rw [ih, nil_append]
    rcases escapeChar_cases c with hc | ⟨hc, -, hbreak, -⟩
    · rw [hc, cons_append, singleton_append, dropLineEndSpaces, if_neg (by decide), if_neg (by decide)]
      by_cases hbreak : c = '\n'
      · rw [dropLineEndSpaces, if_neg (by rw [hbreak]; decide), if_pos hbreak, ih]
        simp
      · rw [hkept [] hbreak]
        simp
    · rw [hc, singleton_append, hkept held hbreak]
      simp

theorem spares_dropLineEndSpaces (held : List Char) : Spares (dropLineEndSpaces held) := by
  refine spares_of_scan (fun held c cs => ?_) (fun held s cs => ⟨held, dropLineEndSpaces [] cs, ?_⟩) held
  · rw [dropLineEndSpaces]
    split
    · exact ⟨[], held ++ [c], rfl⟩
    · split
      · exact ⟨[c], [], rfl⟩
      · exact ⟨held ++ [c], [], by simp⟩
  · rw [quoteChars_append, dropLineEndSpaces, if_neg (by decide), if_neg (by decide), dropLineEndSpaces_literal,
      append_assoc, append_assoc, quoteChars_append, nil_append]

variable {s cs : List Char}

/-- A literal between two pieces of text without quotes lies in what is between them. -/
theorem infix_of_ends (hs : quoteChars s <:+: cs) (before : List Char)
    {kept after : List Char} (hcs : cs = before ++ (kept ++ after)) (hbefore : '\'' ∉ before)
    (hafter : '\'' ∉ after) : quoteChars s <:+: kept := by
  obtain ⟨first, last, rfl⟩ := hs
  rw [append_assoc, append_eq_append_iff] at hcs
  -- The opening quote is not in what stands before, and the closing quote not in what stands behind.
  obtain ⟨lead, hlead⟩ : ∃ lead, kept ++ after = lead ++ (quoteChars s ++ last) := by
    rcases hcs with ⟨lead, hbegin, hrest⟩ | ⟨lead, -, hrest⟩
    · cases lead with
      | nil => exact ⟨[], hrest.symm⟩
      | cons c lead =>
        obtain rfl : '\'' = c := (List.cons.inj hrest).1
        exact absurd (by simp [hbegin]) hbefore
    · exact ⟨lead, hrest⟩
  rw [← append_assoc, append_eq_append_iff] at hlead
  rcases hlead with ⟨tail, htail, hend⟩ | ⟨tail, hkept, -⟩
  · rcases eq_nil_or_concat tail with rfl | ⟨init, c, rfl⟩
    · exact ⟨lead, [], by simpa using htail⟩
    · rw [quoteChars, ← cons_append, ← append_assoc, concat_eq_append, ← append_assoc kept] at htail
      obtain rfl : '\'' = c := (List.cons.inj (append_inj_right' htail rfl)).1
      exact absurd (by simp [hend]) hafter
  · exact ⟨lead, tail, hkept.symm⟩

theorem dropEndWhile_append (p : Char → Bool) (cs : List Char) :
    ∃ after, cs = dropEndWhile p cs ++ after ∧ ∀ c ∈ after, p c = true := by
  refine ⟨(cs.reverse.takeWhile p).reverse, ?_, fun c hc => ?_⟩
  · rw [dropEndWhile, ← reverse_append, takeWhile_append_dropWhile, reverse_reverse]
  · exact mem_takeWhile_imp (mem_reverse.mp hc)

theorem spares_dropEndNewlines : Spares dropEndNewlines := by
  intro s cs hs
  obtain ⟨after, hcs, hafter⟩ := dropEndWhile_append (· = '\n') cs
  refine infix_of_ends hs [] hcs not_mem_nil fun hquote => ?_
  exact absurd (hafter _ hquote) (by decide)

theorem afterLastNewline_cases (run : List Char) : afterLastNewline run = none ∧ '\n' ∉ run ∨
      ∃ before tail, afterLastNewline run = some tail ∧ run = before ++ '\n' :: tail ∧ '\n' ∉ tail := by
  induction run with
  | nil => exact .inl ⟨rfl, not_mem_nil⟩
  | cons c cs ih =>
    rw [afterLastNewline]
    rcases ih with ⟨hnone, hcs⟩ | ⟨before, tail, hsome, hcs, htail⟩
    · rw [hnone]
      by_cases hc : c = '\n'
      · exact .inr ⟨[], cs, if_pos hc, by rw [hc]; rfl, hcs⟩
      · exact .inl ⟨if_neg hc, not_mem_cons_of_ne_of_not_mem (Ne.symm hc) hcs⟩
    · rw [hsome]
      exact .inr ⟨c :: before, tail, rfl, by rw [hcs]; rfl, htail⟩

theorem dropLeadingBlank_append (cs : List Char) :
    ∃ before, cs = before ++ dropLeadingBlank cs ∧ ∀ c ∈ before, isPatternBlank c = true := by
  unfold dropLeadingBlank
  split
  · exact ⟨[], rfl, forall_mem_nil _⟩
  · case h_2 c rest =>
    split
    · case isTrue hc =>
      rcases afterLastNewline_cases (rest.takeWhile isPatternBlank) with ⟨hnone, -⟩ | ⟨before, tail, hsome, hrun, -⟩
      · rw [hnone]
        exact ⟨[], rfl, forall_mem_nil _⟩
      · rw [hsome]
        rw [append_cons] at hrun
        refine ⟨c :: (before ++ ['\n']), ?_, forall_mem_cons.mpr ⟨hc, fun d hd => ?_⟩⟩
        · rw [cons_append, ← append_assoc, ← hrun, takeWhile_append_dropWhile]
        · exact mem_takeWhile_imp (hrun ▸ mem_append_left tail hd)
    · exact ⟨[], rfl, forall_mem_nil _⟩

theorem spares_dropLeadingBlank : Spares dropLeadingBlank := by
  intro s cs hs
  obtain ⟨before, hcs, hbefore⟩ := dropLeadingBlank_append cs
  rw [← append_nil (dropLeadingBlank cs)] at hcs
  refine infix_of_ends hs before hcs (fun hquote => ?_) not_mem_nil
  exact absurd (hbefore _ hquote) (by decide)

theorem spares_dropTrailingBlank : Spares dropTrailingBlank := by
  intro s cs hs
  obtain ⟨after, hcs, hafter⟩ := dropEndWhile_append isPatternBlank cs
  have hbody : quoteChars s <:+: dropEndWhile isPatternBlank cs := by
    refine infix_of_ends hs [] hcs not_mem_nil fun hquote => ?_
    exact absurd (hafter _ hquote) (by decide)
  unfold dropTrailingBlank
  dsimp only
  split
  · rw [append_assoc]
    exact hbody.trans (prefix_append _ _).isInfix
  · exact hs

theorem spares_tidyChars : Spares tidyChars :=
  (spares_dropLeadingBlank.comp spares_dropTrailingBlank).comp (spares_dropLineEndSpaces [])

/-! ### Indenting -/

/-- Spaces and tabs only. -/
def IsIndent (mark : List Char) : Prop := ∀ c ∈ mark, c = ' ' ∨ c = '\t'

instance (mark : List Char) : Decidable (IsIndent mark) :=
  List.decidableBAll (fun c => c = ' ' ∨ c = '\t') mark

variable {c : Char}

namespace IsIndent

variable {mark mark' : List Char}

theorem notMem (h : IsIndent mark) (hc : c ≠ ' ') (hc' : c ≠ '\t') : c ∉ mark :=
  fun hmem => (h c hmem).elim hc hc'

/-- Within a literal, an indentation is written as it is. -/
theorem flatMap_escapeChar (h : IsIndent mark) : mark.flatMap escapeChar = mark := by
  induction mark with
  | nil => rfl
  | cons c mark ih =>
    obtain ⟨hc, hmark⟩ := forall_mem_cons.mp h
    rw [flatMap_cons, ih hmark]
    rcases hc with rfl | rfl <;> rfl

end IsIndent

/-- The text with `mark` behind every line break. -/
def deepen (mark s : List Char) : List Char := s.flatMap fun c => if c = '\n' then '\n' :: mark else [c]

theorem deepen_append (mark s t : List Char) : deepen mark (s ++ t) = deepen mark s ++ deepen mark t :=
  flatMap_append

theorem deepen_of_notMem {mark : List Char} (h : '\n' ∉ s) : deepen mark s = s := by
  induction s with
  | nil => rfl
  | cons c s ih =>
    rw [mem_cons, not_or] at h
    have hc : deepen mark [c] = [c] := by simp [deepen, Ne.symm h.1]
    rw [← singleton_append, deepen_append, hc, ih h.2]

theorem deepen_nil (s : List Char) : deepen [] s = s := by
  induction s with
  | nil => rfl
  | cons c s ih =>
    have hc : deepen [] [c] = [c] := by by_cases hc : c = '\n' <;> simp [deepen, hc]
    rw [← singleton_append, deepen_append, hc, ih]

theorem deepen_deepen {mark' : List Char} (h : '\n' ∉ mark') (mark s : List Char) :
    deepen mark (deepen mark' s) = deepen (mark ++ mark') s := by
  induction s with
  | nil => rfl
  | cons c s ih =>
    have hc : deepen mark (deepen mark' [c]) = deepen (mark ++ mark') [c] := by
      by_cases hc : c = '\n'
      · have hbreak : deepen mark' [c] = ['\n'] ++ mark' := by simp [deepen, hc]
        rw [hbreak, deepen_append, deepen_of_notMem h]
        simp [deepen, hc]
      · simp [deepen, hc]
    rw [← singleton_append, deepen_append, deepen_append, deepen_append, hc, ih]

/-- Indenting the lines of a literal indents the lines of what it denotes. -/
theorem deepen_quoteChars {mark : List Char} (h : IsIndent mark) (s : List Char) :
    deepen mark (quoteChars s) = quoteChars (deepen mark s) := by
  have hbody : deepen mark (s.flatMap escapeChar) = (deepen mark s).flatMap escapeChar := by
    induction s with
    | nil => rfl
    | cons c s ih =>
      have hc : deepen mark (escapeChar c) = (deepen mark [c]).flatMap escapeChar := by
        by_cases hc : c = '\n'
        · have hbreak : deepen mark [c] = ['\n'] ++ mark := by simp [deepen, hc]
          rw [hbreak, flatMap_append, h.flatMap_escapeChar, hc]
          simp [deepen, escapeChar]
        · have hplain : '\n' ∉ escapeChar c := by
            rcases escapeChar_cases c with h | ⟨h, -⟩ <;> simp [h, Ne.symm hc]
          have hsingle : '\n' ∉ [c] := by simpa using Ne.symm hc
          rw [deepen_of_notMem hplain, deepen_of_notMem hsingle, flatMap_cons, flatMap_nil, append_nil]
      rw [flatMap_cons, deepen_append, ih, ← singleton_append, deepen_append, flatMap_append, hc]
  rw [quoteChars, quoteChars, ← singleton_append, deepen_append, deepen_append, hbody]
  rfl

theorem markAfterNewlines_append (mark s : List Char) (c : Char) (t : List Char) :
    markAfterNewlines mark (s ++ c :: t) = deepen mark s ++ markAfterNewlines mark (c :: t) := by
  induction s with
  | nil => rfl
  | cons d s ih =>
    obtain ⟨e, rest, hrest⟩ : ∃ e rest, s ++ c :: t = e :: rest :=
      exists_cons_of_ne_nil (append_ne_nil_of_right_ne_nil s (cons_ne_nil c t))
    have hd : markAfterNewlines mark (d :: e :: rest) = deepen mark [d] ++ markAfterNewlines mark (e :: rest) := by
      rw [markAfterNewlines]
      · by_cases hd : d = '\n' <;> simp [deepen, hd]
      · exact cons_ne_nil e rest
    rw [cons_append, hrest, hd, ← hrest, ih, ← append_assoc, ← deepen_append]
    rfl

/-- **Indenting a text indents the lines of its literals.** -/
theorem infix_prependLinesChars {mark : List Char} (hmark : IsIndent mark)
    (hs : quoteChars s <:+: cs) : quoteChars (deepen mark s) <:+: prependLinesChars mark cs := by
  obtain ⟨before, after, rfl⟩ := hs
  -- The closing quote is no line break, so the passes before and behind it are apart.
  have hsplit : before ++ quoteChars s ++ after = (before ++ '\'' :: s.flatMap escapeChar) ++ '\'' :: after := by
    simp [quoteChars]
  obtain ⟨after', hafter⟩ : ∃ after', markAfterNewlines mark ('\'' :: after) = '\'' :: after' := by
    cases after with
    | nil => exact ⟨[], rfl⟩
    | cons c cs => exact ⟨_, by rw [markAfterNewlines, if_neg (by decide)]; nofun⟩
  have hquote : deepen mark ('\'' :: s.flatMap escapeChar) ++ ['\''] = quoteChars (deepen mark s) := by
    rw [← deepen_quoteChars hmark, quoteChars, ← cons_append, deepen_append]
    rfl
  have hmarked : prependLinesChars mark (before ++ quoteChars s ++ after) =
      (mark ++ deepen mark before) ++ quoteChars (deepen mark s) ++ after' := by
    unfold prependLinesChars
    split
    · case h_1 hbreak =>
      have hmem : '\'' ∈ before ++ quoteChars s ++ after := by simp [quoteChars]
      rw [hbreak] at hmem
      exact absurd hmem (by decide)
    · rw [hsplit, markAfterNewlines_append, hafter, deepen_append, ← hquote]
      simp
  rw [hmarked]
  exact infix_append _ _ _

/-! ### Code that holds a literal -/

/-- A text with some steps of indentation behind each of its line breaks. -/
def deepened (indent text : String) (k : Nat) : List Char :=
  deepen (List.replicate k indent.toList).flatten text.toList

theorem length_deepen (mark s : List Char) : (deepen mark s).length = s.length + s.count '\n' * mark.length := by
  induction s with
  | nil => simp [deepen]
  | cons c s ih =>
    rw [deepen, flatMap_cons, length_append, ← deepen, ih, count_cons, length_cons]
    by_cases hbreak : c = '\n'
    · simp only [hbreak, beq_self_eq_true, if_true, length_cons, Nat.add_mul]
      omega
    · simp only [beq_iff_eq, hbreak, if_false, length_singleton, Nat.add_zero]
      omega

/-- Indenting leaves alone what has one line. -/
theorem deepened_eq_iff {indent : String} (hindent : indent ≠ "") (text : String) (k : Nat) :
    deepened indent text k = text.toList ↔ k = 0 ∨ '\n' ∉ text.toList := by
  refine ⟨fun h => ?_, fun h => ?_⟩
  · by_contra! hboth
    have hlength := congrArg List.length h
    rw [deepened, length_deepen, length_flatten, map_replicate, sum_replicate_nat] at hlength
    have hcount : 0 < text.toList.count '\n' := count_pos_iff.mpr hboth.2
    have hmark : 0 < indent.toList.length := length_pos_iff.mpr fun h => hindent (String.toList_eq_nil_iff.mp h)
    have := Nat.mul_pos hcount (Nat.mul_pos (Nat.pos_of_ne_zero hboth.1) hmark)
    omega
  · rcases h with rfl | hline
    · rw [deepened, replicate_zero, flatten_nil, deepen_nil]
    · exact deepen_of_notMem hline

/-- The code holds a literal of the text, perhaps with indented lines. -/
def Holds (indent text code : String) : Prop := ∃ k, quoteChars (deepened indent text k) <:+: code.toList

section

variable {indent text code rest : String}

theorem holds_quote (indent text : String) : Holds indent text (quote text) := by
  refine ⟨0, ?_⟩
  rw [quote, String.toList_ofList, deepened, replicate_zero, flatten_nil, deepen_nil]

/-- A literal that is held is read back, with what indenting has added. -/
theorem Holds.exists_read? (h : Holds indent text code) : ∃ k before behind rest,
    code.toList = before ++ '\'' :: behind ∧ read? behind = some (deepened indent text k, rest) := by
  obtain ⟨k, before, rest, hcode⟩ := h
  rw [append_assoc, quoteChars_append] at hcode
  exact ⟨k, before, _, rest, hcode.symm, read?_quoteChars _ _⟩

theorem Holds.of_infix (h : Holds indent text code) (hcode : code.toList <:+: rest.toList) : Holds indent text rest :=
  h.imp fun _ hk => hk.trans hcode

@[grind ←]
theorem Holds.append_left (h : Holds indent text code) : Holds indent text (code ++ rest) :=
  h.of_infix (String.toList_append ▸ (prefix_append _ _).isInfix)

@[grind ←]
theorem Holds.append_right (h : Holds indent text rest) : Holds indent text (code ++ rest) :=
  h.of_infix (String.toList_append ▸ (suffix_append _ _).isInfix)

theorem Holds.join {separator : String} {parts : List String} (hmem : code ∈ parts)
    (h : Holds indent text code) : Holds indent text (Text.join separator parts) := by
  unfold Text.join
  induction parts with
  | nil => cases hmem
  | cons part parts ih =>
    cases parts with
    | nil =>
      rw [mem_singleton.mp hmem] at h
      rwa [String.intercalate_singleton]
    | cons part' parts =>
      rw [String.intercalate_cons_cons]
      rcases mem_cons.mp hmem with rfl | hmem
      · exact h.append_left.append_left
      · exact (ih hmem).append_right

theorem Holds.quote_mem (h : Holds indent text code) : '\'' ∈ code.toList := by
  obtain ⟨k, hk⟩ := h
  exact hk.mem (by simp [quoteChars])

theorem Holds.isWord_eq_false (h : Holds indent text code) : isWord code = false := by
  have hall : code.toList.all isWordChar = false := all_eq_false.mpr ⟨_, h.quote_mem, by decide⟩
  rw [isWord, hall, Bool.and_false]

theorem Holds.isLiteral_eq_false (h : Holds indent text code) : Number.isLiteral code = false := by
  by_contra hliteral
  rw [Bool.not_eq_false] at hliteral
  exact absurd (Number.mem_of_isLiteral hliteral h.quote_mem (by decide)) (by decide)

/-- Indenting adds a step behind each line break of the literal. -/
theorem Holds.prependLines (hindent : IsIndent indent.toList) (h : Holds indent text code) :
    Holds indent text (Text.prependLines indent code) := by
  obtain ⟨k, hk⟩ := h
  have hplain : '\n' ∉ (List.replicate k indent.toList).flatten := by
    intro hmem
    obtain ⟨mark, hmark, hbreak⟩ := mem_flatten.mp hmem
    rw [eq_of_mem_replicate hmark] at hbreak
    exact hindent.notMem (by decide) (by decide) hbreak
  refine ⟨k + 1, ?_⟩
  rw [deepened, replicate_succ, flatten_cons, ← deepen_deepen hplain, Text.prependLines, String.toList_ofList]
  exact infix_prependLinesChars hindent hk

theorem mem_quoteChars (h : c ∈ quoteChars s) : c = '\'' ∨ c = '\\' ∨ c ∈ s := by
  rw [quoteChars, mem_cons, mem_append, mem_singleton, mem_flatMap] at h
  rcases h with h | ⟨d, hd, hc⟩ | h
  · exact .inl h
  · rcases escapeChar_cases d with heq | ⟨heq, -⟩ <;> rw [heq] at hc
    · rcases mem_cons.mp hc with h | h
      · exact .inr (.inl h)
      · exact .inr (.inr (mem_singleton.mp h ▸ hd))
    · exact .inr (.inr (mem_singleton.mp hc ▸ hd))
  · exact .inl h

theorem mem_deepen {mark : List Char} (h : c ∈ deepen mark s) : c ∈ s ∨ c ∈ mark := by
  obtain ⟨d, hd, hc⟩ := mem_flatMap.mp h
  split at hc
  · case isTrue hbreak =>
    rcases mem_cons.mp hc with rfl | hc
    · exact .inl (hbreak ▸ hd)
    · exact .inr hc
  · exact .inl (mem_singleton.mp hc ▸ hd)

theorem replaceChars_quotes (cs : List Char) {fuel : Nat} (h : cs.length ≤ fuel) :
    replaceChars ['"'] [] fuel cs = cs.filter (· ≠ '"') := by
  induction cs generalizing fuel with
  | nil => cases fuel <;> rfl
  | cons c cs ih =>
    cases fuel with
    | zero => cases h
    | succ fuel =>
      have ih := ih (Nat.le_of_succ_le_succ h)
      by_cases hc : c = '"'
      · simp [replaceChars, hc, ih]
      · simp [replaceChars, hc, Ne.symm hc, ih]

/-- Taking out double quotes does not change a literal that has none. -/
theorem Holds.replaceAll_quotes (hindent : IsIndent indent.toList) (htext : '"' ∉ text.toList)
    (h : Holds indent text code) : Holds indent text (Text.replaceAll code "\"" "") := by
  obtain ⟨k, before, after, hk⟩ := h
  have hquote : '"' ∉ quoteChars (deepened indent text k) := by
    intro hmem
    rcases mem_quoteChars hmem with h | h | h
    · exact absurd h (by decide)
    · exact absurd h (by decide)
    · rcases mem_deepen h with h | h
      · exact htext h
      · obtain ⟨mark, hmark, hmem⟩ := mem_flatten.mp h
        rw [eq_of_mem_replicate hmark] at hmem
        exact hindent.notMem (by decide) (by decide) hmem
  have hfilter : (quoteChars (deepened indent text k)).filter (· ≠ '"') = quoteChars (deepened indent text k) :=
    filter_eq_self.mpr fun c hc => decide_eq_true fun heq => hquote (heq ▸ hc)
  refine ⟨k, ?_⟩
  rw [Text.replaceAll, String.toList_ofList]
  show _ <:+: replaceChars ['"'] [] _ _
  rw [replaceChars_quotes _ (Nat.le_refl _), ← hk, filter_append, filter_append, hfilter]
  exact infix_append _ _ _

theorem Holds.of_spares {pass : List Char → List Char} (hpass : Spares pass) (h : Holds indent text code) :
    Holds indent text (String.ofList (pass code.toList)) := by
  obtain ⟨k, hk⟩ := h
  refine ⟨k, ?_⟩
  rw [String.toList_ofList]
  exact hpass _ _ hk

end

end BlockProgram.Literal
