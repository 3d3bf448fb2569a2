import BlockProgram.Proofs.Text.Literals
import Mathlib.Data.List.Chain

/-! # Tidying

What the passes over a finished program do to any text.  Shortening runs of newlines keeps all other
characters and leaves no run of three (`shortened_collapseNewlines`, `not_infix_collapseNewlines`).
The final pass makes a text tidy that ends with a character and does not start with a lone newline
(`tidied_tidyChars`); what is tidy it leaves alone (`Tidied.tidyChars_eq`), although its steps could
undo each other on other texts.
-/
namespace BlockProgram.Text

open List

open Literal (dropEndWhile_append afterLastNewline_cases dropLeadingBlank_append)

/-! ### Runs of newlines -/

/-- The second text is the first one with every run of newlines shortened to two. -/
inductive Shortened : List Char → List Char → Prop where
  | nil : Shortened [] []
  | text {c : Char} {cs ds : List Char} : c ≠ '\n' → Shortened cs ds → Shortened (c :: cs) (c :: ds)
  | newlines {cs ds : List Char} (n : Nat) : cs.head? ≠ some '\n' → Shortened cs ds →
      Shortened (List.replicate n '\n' ++ cs) (List.replicate (min n 2) '\n' ++ ds)

variable {cs : List Char}

theorem Shortened.filter_eq {ds : List Char} (h : Shortened cs ds) : ds.filter (· ≠ '\n') = cs.filter (· ≠ '\n') := by
  induction h with
  | nil => rfl
  | text hc _ ih =>
    rw [filter_cons_of_pos (by simpa using hc), filter_cons_of_pos (by simpa using hc), ih]
  | newlines n _ _ ih =>
    rw [filter_append, filter_append, filter_replicate, filter_replicate, ih]
    rfl

variable {c : Char}

theorem collapseNewlines_cons_of_ne (h : c ≠ '\n') (run : Nat) (cs : List Char) :
    collapseNewlines run (c :: cs) = c :: collapseNewlines 0 cs := by
  rw [collapseNewlines, if_neg h]

theorem collapseNewlines_newlines (n : Nat) {run : Nat} (hrun : run ≤ 2) (h : cs.head? ≠ some '\n') :
    collapseNewlines run (List.replicate n '\n' ++ cs) =
      List.replicate (min n (2 - run)) '\n' ++ collapseNewlines 0 cs := by
  induction n generalizing run with
  | zero =>
    rw [Nat.zero_min, replicate_zero, nil_append, nil_append]
    cases cs with
    | nil => rfl
    | cons c cs =>
      have hc : c ≠ '\n' := fun hc => h (congrArg some hc)
      rw [collapseNewlines_cons_of_ne hc, collapseNewlines_cons_of_ne hc]
  | succ n ih =>
    rw [replicate_succ, cons_append, collapseNewlines, if_pos rfl]
    by_cases hlt : run < 2
    · have hmin : min (n + 1) (2 - run) = min n (2 - (run + 1)) + 1 := by omega
      rw [if_pos hlt, ih hlt, hmin, replicate_succ, cons_append]
    · have hmin : min (n + 1) (2 - run) = min n (2 - run) := by omega
      rw [if_neg hlt, ih hrun, hmin]

theorem takeWhile_newlines (cs : List Char) :
    cs.takeWhile (· = '\n') = List.replicate (cs.takeWhile (· = '\n')).length '\n' := by
  refine eq_replicate_iff.mpr ⟨rfl, fun c hc => ?_⟩
  have hnewline := mem_takeWhile_imp hc
  exact of_decide_eq_true hnewline

theorem head?_dropWhile_newlines (cs : List Char) : (cs.dropWhile (· = '\n')).head? ≠ some '\n' := fun hhead => by
  have hnot := List.head?_dropWhile_not (· = '\n') cs
  rw [hhead] at hnot
  exact absurd hnot (by decide)

theorem shortened_collapseNewlines (cs : List Char) : Shortened cs (collapseNewlines 0 cs) := by
  -- A run of newlines is taken at once, so that the recursion is on the length.
  induction hlength : cs.length using Nat.strong_induction_on generalizing cs with
  | h k ih =>
    cases cs with
    | nil => exact .nil
    | cons c rest =>
      by_cases hc : c = '\n'
      · obtain rfl := hc
        have hcs : ('\n' :: rest).takeWhile (· = '\n') ++ ('\n' :: rest).dropWhile (· = '\n') = '\n' :: rest :=
          takeWhile_append_dropWhile
        rw [takeWhile_newlines] at hcs
        have hhead := head?_dropWhile_newlines ('\n' :: rest)
        have hshort : (('\n' :: rest).dropWhile (· = '\n')).length < k := by
          rw [dropWhile_cons_of_pos (by decide), ← hlength]
          exact Nat.lt_succ_of_le (length_dropWhile_le _ _)
        rw [← hcs, collapseNewlines_newlines _ (Nat.zero_le 2) hhead]
        exact .newlines _ hhead (ih _ hshort _ rfl)
      · rw [collapseNewlines_cons_of_ne hc]
        exact .text hc (ih rest.length (by rw [← hlength]; exact Nat.lt_succ_self _) rest rfl)

/-- **No run of three newlines is left.** -/
theorem not_infix_collapseNewlines (cs : List Char) : ¬ List.replicate 3 '\n' <:+: collapseNewlines 0 cs := by
  -- The newlines that were just written count for a run at the start.
  suffices h : ∀ run ≤ 2, ¬ List.replicate (3 - run) '\n' <+: collapseNewlines run cs ∧
      ¬ List.replicate 3 '\n' <:+: collapseNewlines run cs from (h 0 (Nat.zero_le 2)).2
  induction cs with
  | nil =>
    intro run hrun
    constructor
    · intro hprefix
      have hlength := hprefix.length_le
      rw [length_replicate] at hlength
      exact absurd hlength (by show ¬ 3 - run ≤ 0; omega)
    · exact fun hinfix => absurd (show 3 ≤ 0 from hinfix.length_le) (by decide)
  | cons c cs ih =>
    intro run hrun
    rw [collapseNewlines]
    split
    · case isTrue hc =>
      split
      · case isTrue hlt =>
        have hnext := ih (run + 1) hlt
        constructor
        · intro hprefix
          rw [show 3 - run = (3 - (run + 1)) + 1 by omega, replicate_succ, cons_prefix_cons] at hprefix
          exact hnext.1 hprefix.2
        · intro hinfix
          rcases infix_cons_iff.mp hinfix with hprefix | hinfix
          · rw [replicate_succ, cons_prefix_cons] at hprefix
            refine hnext.1 (List.IsPrefix.trans ⟨List.replicate run '\n', ?_⟩ hprefix.2)
            rw [replicate_append_replicate]
            congr 1
            omega
          · exact hnext.2 hinfix
      · exact ih run hrun
    · case isFalse hc =>
      have hstart : ∀ n, 0 < n → ¬ List.replicate n '\n' <+: c :: collapseNewlines 0 cs := by
        intro n hn hprefix
        obtain ⟨m, rfl⟩ := Nat.exists_eq_succ_of_ne_zero hn.ne'
        rw [replicate_succ, cons_prefix_cons] at hprefix
        exact hc hprefix.1.symm
      refine ⟨hstart _ (by omega), fun hinfix => ?_⟩
      rcases infix_cons_iff.mp hinfix with hprefix | hinfix
      · exact hstart 3 (by decide) hprefix
      · exact (ih 0 (Nat.zero_le 2)).2 hinfix

theorem collapseNewlines_append (hc : c ≠ '\n') (run : Nat) (cs rest : List Char) :
    collapseNewlines run (cs ++ c :: rest) = collapseNewlines run (cs ++ [c]) ++ collapseNewlines 0 rest := by
  induction cs generalizing run with
  | nil => rw [nil_append, nil_append, collapseNewlines_cons_of_ne hc, collapseNewlines_cons_of_ne hc]; rfl
  | cons d cs ih =>
    rw [cons_append, cons_append, collapseNewlines, collapseNewlines]
    split
    · split
      · rw [ih, cons_append]
      · exact ih run
    · rw [ih, cons_append]

theorem collapseNewlines_concat (hc : c ≠ '\n') (run : Nat) (cs : List Char) :
    ∃ ds, collapseNewlines run (cs ++ [c]) = ds ++ [c] := by
  induction cs generalizing run with
  | nil => exact ⟨[], by rw [nil_append, collapseNewlines_cons_of_ne hc]; rfl⟩
  | cons d cs ih =>
    rw [cons_append, collapseNewlines]
    split
    · split
      · obtain ⟨ds, hds⟩ := ih (run + 1)
        exact ⟨d :: ds, by rw [hds, cons_append]⟩
      · exact ih run
    · obtain ⟨ds, hds⟩ := ih 0
      exact ⟨d :: ds, by rw [hds, cons_append]⟩

/-! ### Newlines at the end -/

theorem getLast?_dropEndNewlines (cs : List Char) : (dropEndNewlines cs).getLast? ≠ some '\n' := by
  unfold dropEndNewlines dropEndWhile
  rw [List.getLast?_reverse]
  exact head?_dropWhile_newlines _

theorem dropEndNewlines_append_replicate (cs : List Char) : ∃ n, cs = dropEndNewlines cs ++ List.replicate n '\n' := by
  obtain ⟨after, hcs, hafter⟩ := dropEndWhile_append (· = '\n') cs
  have hnewlines := eq_replicate_of_mem fun c hc => of_decide_eq_true (hafter c hc)
  exact ⟨after.length, hnewlines ▸ hcs⟩

theorem dropEndNewlines_eq_of_append (h : cs.getLast? ≠ some '\n') (n : Nat) :
    dropEndNewlines (cs ++ List.replicate n '\n') = cs := by
  unfold dropEndNewlines dropEndWhile
  rw [reverse_append, reverse_replicate, dropWhile_append_of_pos ?_]
  · cases hcs : cs.reverse with
    | nil => rw [reverse_eq_nil_iff.mp hcs]; rfl
    | cons c rest =>
      have hc : c ≠ '\n' := by
        rintro rfl
        rw [← reverse_reverse cs, hcs, List.getLast?_reverse] at h
        exact h rfl
      rw [dropWhile_cons_of_neg (by simpa using hc), ← hcs, reverse_reverse]
  · intro c hc
    exact decide_eq_true (eq_of_mem_replicate hc)

/-- Shortening and dropping newlines at the end can change places, if two newlines follow. -/
theorem collapseNewlines_dropEndNewlines (cs : List Char) : collapseNewlines 0 (dropEndNewlines cs ++ ['\n', '\n']) =
      dropEndNewlines (collapseNewlines 0 cs) ++ ['\n', '\n'] := by
  obtain ⟨n, hcs⟩ := dropEndNewlines_append_replicate cs
  have hlast := getLast?_dropEndNewlines cs
  generalize dropEndNewlines cs = body at hcs hlast
  subst hcs
  have hnil : ([] : List Char).head? ≠ some '\n' := (Option.some_ne_none _).symm
  have hnewlines : ∀ m, collapseNewlines 0 (List.replicate m '\n') = List.replicate (min m 2) '\n' := fun m => by
    have heq := collapseNewlines_newlines m (Nat.zero_le 2) hnil
    rw [append_nil] at heq
    rw [heq]
    exact append_nil _
  rcases eq_nil_or_concat body with rfl | ⟨init, c, rfl⟩
  · have hdrop : dropEndNewlines (List.replicate (min n 2) '\n') = [] :=
      dropEndNewlines_eq_of_append hlast _
    rw [nil_append, nil_append, hnewlines, hdrop]
    exact hnewlines 2
  · rw [concat_eq_append] at hlast ⊢
    have hc : c ≠ '\n' := fun hc => hlast (by rw [List.getLast?_append, hc]; rfl)
    obtain ⟨ds, hds⟩ := collapseNewlines_concat hc 0 init
    have happend : ∀ m, collapseNewlines 0 (init ++ [c] ++ List.replicate m '\n') =
        ds ++ [c] ++ List.replicate (min m 2) '\n' := fun m => by
      rw [append_assoc, singleton_append, collapseNewlines_append hc, hnewlines, hds]
    have hdrop : dropEndNewlines (ds ++ [c] ++ List.replicate (min n 2) '\n') = ds ++ [c] :=
      dropEndNewlines_eq_of_append (by rw [List.getLast?_append]; simpa using hc) _
    rw [happend n, hdrop]
    exact happend 2

/-! ### Spaces at line ends -/

/-- A character may be followed by another one: no space or tab by a newline. -/
def Follows (c d : Char) : Prop := d = '\n' → isTrailingSpace c = false

theorem isChain_follows_dropLineEndSpaces (held cs : List Char) (hheld : ∀ c ∈ held, isTrailingSpace c = true) :
    (dropLineEndSpaces held cs).IsChain Follows := by
  have hspaces : ∀ {held : List Char}, (∀ c ∈ held, isTrailingSpace c = true) → held.IsChain Follows := by
    intro held hheld
    induction held with
    | nil => exact .nil
    | cons c held ih =>
      refine isChain_cons.mpr ⟨fun d hd hnewline => ?_, ih fun d hd => hheld d (mem_cons_of_mem c hd)⟩
      obtain rfl := hnewline
      have hd := hheld _ (mem_cons_of_mem c (mem_of_mem_head? hd))
      exact absurd hd (by decide)
  induction cs generalizing held with
  | nil => exact hspaces hheld
  | cons c cs ih =>
    rw [dropLineEndSpaces]
    split
    · case isTrue hc =>
      refine ih _ fun d hd => ?_
      rcases mem_append.mp hd with hd | hd
      · exact hheld d hd
      · rw [mem_singleton.mp hd]
        exact hc
    · case isFalse hc =>
      have hc : isTrailingSpace c = false := Bool.eq_false_of_not_eq_true hc
      have hrest : (c :: dropLineEndSpaces [] cs).IsChain Follows :=
        isChain_cons.mpr ⟨fun _ _ _ => hc, ih [] (forall_mem_nil _)⟩
      split
      · exact hrest
      · case isFalse hnewline =>
        refine isChain_append.mpr ⟨hspaces hheld, hrest, fun d _ e he hnewline' => ?_⟩
        obtain rfl : c = e := Option.some.inj he
        exact absurd hnewline' hnewline

theorem dropLineEndSpaces_eq_self {held : List Char} (hheld : ∀ c ∈ held, isTrailingSpace c = true)
    (h : (held ++ cs).IsChain Follows) : dropLineEndSpaces held cs = held ++ cs := by
  induction cs generalizing held with
  | nil => rw [dropLineEndSpaces, append_nil]
  | cons c cs ih =>
    have hrest : cs.IsChain Follows := (isChain_append.mp h).2.1.tail
    have hnil : dropLineEndSpaces [] cs = cs := ih (forall_mem_nil _) hrest
    rw [dropLineEndSpaces]
    split
    · case isTrue hc =>
      rw [append_cons] at h
      rw [ih ?_ h, ← append_cons]
      intro d hd
      rcases mem_append.mp hd with hd | hd
      · exact hheld d hd
      · rw [mem_singleton.mp hd]
        exact hc
    · split
      · case isTrue hnewline =>
        -- What is held stands right before a newline, so that nothing is held.
        rcases eq_nil_or_concat held with rfl | ⟨init, d, rfl⟩
        · rw [hnil, nil_append]
        · rw [concat_eq_append] at h hheld
          have hd := (isChain_append.mp h).2.2 d (by simp) c (by simp) hnewline
          exact absurd (hheld d (by simp)) (Bool.eq_false_iff.mp hd)
      · rw [hnil]

theorem isTrailingSpace_of_not_blank (h : isPatternBlank c = false) : isTrailingSpace c = false ∧ c ≠ '\n' := by
  unfold isPatternBlank at h
  unfold isTrailingSpace
  grind

variable {d : Char}

/-- Up to a character that is no blank, nothing is dropped from the first line. -/
theorem dropLineEndSpaces_line {line : List Char} (hline : '\n' ∉ line) (hd : isPatternBlank d = false)
    (held rest : List Char) :
    dropLineEndSpaces held (line ++ d :: rest) = held ++ line ++ d :: dropLineEndSpaces [] rest := by
  induction line generalizing held with
  | nil =>
    obtain ⟨hspace, hnewline⟩ := isTrailingSpace_of_not_blank hd
    rw [nil_append, append_nil, dropLineEndSpaces, if_neg (Bool.eq_false_iff.mp hspace), if_neg hnewline]
  | cons c line ih =>
    have hline' : '\n' ∉ line := fun h => hline (mem_cons_of_mem c h)
    have hnewline : c ≠ '\n' := fun h => hline (h ▸ mem_cons_self)
    rw [cons_append, dropLineEndSpaces, if_neg hnewline]
    split
    · rw [ih hline', append_assoc held, singleton_append]
    · rw [ih hline', nil_append, append_assoc, cons_append]

theorem dropLineEndSpaces_append (hd : isTrailingSpace d = false) (held cs rest : List Char) :
    ∃ ds, dropLineEndSpaces held (cs ++ d :: rest) = ds ++ d :: dropLineEndSpaces [] rest := by
  induction cs generalizing held with
  | nil =>
    rw [nil_append, dropLineEndSpaces, if_neg (Bool.eq_false_iff.mp hd)]
    split
    · exact ⟨[], rfl⟩
    · exact ⟨held, rfl⟩
  | cons c cs ih =>
    rw [cons_append, dropLineEndSpaces]
    obtain ⟨ds, hds⟩ := ih []
    split
    · exact ih _
    · split
      · exact ⟨c :: ds, by rw [hds, cons_append]⟩
      · exact ⟨held ++ c :: ds, by rw [hds, append_assoc, cons_append]⟩

/-! ### Blank lines at the start and the end -/

/-- The first line holds more than blanks. -/
def OpensWithText (cs : List Char) : Prop :=
  ∃ line d rest, cs = line ++ d :: rest ∧ '\n' ∉ line ∧ isPatternBlank d = false

/-- The last character is `d`, and no blank. -/
def EndsWithText (d : Char) (cs : List Char) : Prop := isPatternBlank d = false ∧ ∃ init, cs = init ++ [d]

/-- What blank lines at the start do to a text whose first character is a blank. -/
theorem dropLeadingBlank_cons (hc : isPatternBlank c = true) (cs : List Char) :
    '\n' ∉ cs.takeWhile isPatternBlank ∧ dropLeadingBlank (c :: cs) = c :: cs ∨
      ∃ tail, '\n' ∉ tail ∧ dropLeadingBlank (c :: cs) = tail ++ cs.dropWhile isPatternBlank := by
  unfold dropLeadingBlank
  dsimp only
  rw [if_pos hc]
  rcases afterLastNewline_cases (cs.takeWhile isPatternBlank) with ⟨hnone, hrun⟩ | ⟨_, tail, hsome, -, htail⟩
  · rw [hnone]
    exact .inl ⟨hrun, rfl⟩
  · rw [hsome]
    exact .inr ⟨tail, htail, rfl⟩

theorem OpensWithText.dropLeadingBlank_eq (h : OpensWithText cs) : dropLeadingBlank cs = cs := by
  obtain ⟨line, d, rest, rfl, hline, hd⟩ := h
  cases line with
  | nil =>
    rw [nil_append]
    unfold dropLeadingBlank
    dsimp only
    rw [if_neg (Bool.eq_false_iff.mp hd)]
  | cons c line =>
    -- The blanks at the start end before `d`, and so within the first line.
    have hrun : '\n' ∉ (line ++ d :: rest).takeWhile isPatternBlank := by
      intro hmem
      rw [takeWhile_append] at hmem
      split at hmem
      · rw [takeWhile_cons_of_neg (Bool.eq_false_iff.mp hd), append_nil] at hmem
        exact hline (mem_cons_of_mem c hmem)
      · exact hline (mem_cons_of_mem c ((List.takeWhile_prefix _).subset hmem))
    rw [cons_append]
    unfold dropLeadingBlank
    dsimp only
    rcases afterLastNewline_cases ((line ++ d :: rest).takeWhile isPatternBlank) with ⟨hnone, -⟩ | ⟨_, tail, -, hmem, -⟩
    · rw [hnone, ite_self]
    · exact absurd (by simp [hmem]) hrun

theorem EndsWithText.dropTrailingBlank_eq (h : EndsWithText d cs) : dropTrailingBlank cs = cs := by
  obtain ⟨hd, init, rfl⟩ := h
  have hbody : dropEndWhile isPatternBlank (init ++ [d]) = init ++ [d] := by
    unfold dropEndWhile
    rw [reverse_append, reverse_singleton, singleton_append,
      dropWhile_cons_of_neg (Bool.eq_false_iff.mp hd), reverse_cons, reverse_reverse]
  unfold dropTrailingBlank
  rw [hbody]
  dsimp only
  rw [drop_length]
  rfl

/-- Blank lines at the start are dropped, but for a lone newline. -/
theorem opensWithText_dropLeadingBlank {last : Char} (hend : EndsWithText last cs)
    (hstart : ∀ rest, cs = '\n' :: rest → '\n' ∈ rest.takeWhile isPatternBlank) :
    OpensWithText (dropLeadingBlank cs) := by
  obtain ⟨hlast, init, hcs⟩ := hend
  cases cs with
  | nil => exact absurd hcs.symm (append_ne_nil_of_right_ne_nil _ (cons_ne_nil _ _))
  | cons c rest =>
    cases hc : isPatternBlank c with
    | false =>
      have heq : dropLeadingBlank (c :: rest) = c :: rest :=
        OpensWithText.dropLeadingBlank_eq ⟨[], c, rest, rfl, not_mem_nil, hc⟩
      rw [heq]
      exact ⟨[], c, rest, rfl, not_mem_nil, hc⟩
    | true =>
      -- The blanks at the start end with a character that is none.
      obtain ⟨d, behind, hbehind, hd⟩ :
          ∃ d behind, rest.dropWhile isPatternBlank = d :: behind ∧ isPatternBlank d = false := by
        cases hdrop : rest.dropWhile isPatternBlank with
        | nil =>
          have hall : ∀ x ∈ c :: rest, isPatternBlank x = true :=
            forall_mem_cons.mpr ⟨hc, dropWhile_eq_nil_iff.mp hdrop⟩
          have hmem : last ∈ c :: rest := by rw [hcs]; exact mem_append_right _ (mem_singleton_self _)
          exact absurd (hall last hmem) (Bool.eq_false_iff.mp hlast)
        | cons d behind =>
          have hnot := List.head?_dropWhile_not isPatternBlank rest
          rw [hdrop] at hnot
          exact ⟨d, behind, rfl, by simpa using hnot⟩
      rcases dropLeadingBlank_cons hc rest with ⟨hrun, heq⟩ | ⟨tail, htail, heq⟩
      · have hnewline : c ≠ '\n' := by
          rintro rfl
          exact hrun (hstart rest rfl)
        rw [heq]
        refine ⟨c :: rest.takeWhile isPatternBlank, d, behind, ?_, ?_, hd⟩
        · rw [cons_append, ← hbehind, takeWhile_append_dropWhile]
        · exact not_mem_cons_of_ne_of_not_mem (Ne.symm hnewline) hrun
      · rw [heq, hbehind]
        exact ⟨tail, d, behind, rfl, htail, hd⟩

theorem EndsWithText.dropLeadingBlank (h : EndsWithText d cs) : EndsWithText d (dropLeadingBlank cs) := by
  obtain ⟨hd, init, hcs⟩ := h
  obtain ⟨before, hbefore, hblank⟩ := dropLeadingBlank_append cs
  refine ⟨hd, ?_⟩
  rcases eq_nil_or_concat (Text.dropLeadingBlank cs) with hnil | ⟨init', d', hconcat⟩
  · rw [hnil, append_nil] at hbefore
    have hmem : d ∈ before := by
      rw [← hbefore, hcs]
      exact mem_append_right _ (mem_singleton_self _)
    exact absurd (hblank d hmem) (Bool.eq_false_iff.mp hd)
  · rw [concat_eq_append] at hconcat
    rw [hconcat, ← append_assoc, hcs] at hbefore
    obtain rfl := singleton_inj.mp (append_inj_right' hbefore rfl)
    exact ⟨init', hconcat⟩

/-! ### Tidy texts -/

/-- A text on which the final pass has nothing to do.  It ends with the character `last`. -/
structure Tidied (last : Char) (cs : List Char) : Prop where
  opens : OpensWithText cs
  ends : EndsWithText last cs
  follows : cs.IsChain Follows

theorem Tidied.tidyChars_eq {last : Char} (h : Tidied last cs) : tidyChars cs = cs := by
  unfold tidyChars
  rw [h.opens.dropLeadingBlank_eq, h.ends.dropTrailingBlank_eq,
    dropLineEndSpaces_eq_self (forall_mem_nil _) h.follows, nil_append]

/-- **The final pass makes a text tidy.** -/
theorem tidied_tidyChars {last : Char} (hend : EndsWithText last cs)
    (hstart : ∀ rest, cs = '\n' :: rest → '\n' ∈ rest.takeWhile isPatternBlank) : Tidied last (tidyChars cs) := by
  unfold tidyChars
  rw [hend.dropLeadingBlank.dropTrailingBlank_eq]
  refine ⟨?_, ?_, isChain_follows_dropLineEndSpaces [] _ (forall_mem_nil _)⟩
  · obtain ⟨line, d, rest, hcs, hline, hd⟩ := opensWithText_dropLeadingBlank hend hstart
    rw [hcs, dropLineEndSpaces_line hline hd]
    exact ⟨line, d, _, rfl, hline, hd⟩
  · obtain ⟨hlast, init, hcs⟩ := hend.dropLeadingBlank
    rw [hcs]
    exact ⟨hlast, dropLineEndSpaces_append (isTrailingSpace_of_not_blank hlast).1 [] init []⟩

end BlockProgram.Text
