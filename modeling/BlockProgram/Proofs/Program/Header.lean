import BlockProgram.Proofs.Program.Literals
import BlockProgram.Proofs.Text.Tidying

/-! # The layout of a program

In front of the entry point stands a header: the imports, then all other definitions, with runs of
newlines shortened and one blank line at its end (`Generator.IsHeader`).  The final pass finds
nothing to do on the program that it has made (`Generator.layout_kept`).  This rests on how the
header starts: with an import, or with the two newlines that stand between the imports and all else
even if there are none, so that no lone newline is left over.
-/
namespace BlockProgram

open List Text

/-! ### Imports and all else -/

namespace Definitions

theorem isImport_iff {code : String} : isImport code = true ↔
    ∃ c rest, code.toList = "import".toList ++ c :: rest ∧ isPatternBlank c = true := by
  unfold isImport
  constructor
  · intro h
    split at h
    · case h_1 c rest hcode => exact ⟨c, rest, hcode, h⟩
    · exact absurd h Bool.false_ne_true
  · rintro ⟨c, rest, hcode, hc⟩
    rw [hcode]
    exact hc

theorem perm_imports_others (ds : Definitions) : (ds.imports ++ ds.others).Perm (ds.map (·.code)) :=
  filter_append_perm _ _

def listing (ds : Definitions) : List Char :=
  (join "\n" ds.imports ++ "\n\n" ++ join "\n\n" ds.others).toList

/-- It starts with an import, or with newlines. -/
theorem listing_starts (ds : Definitions) :
    (∃ rest, ds.listing = 'i' :: rest) ∨ ∃ rest, ds.listing = '\n' :: '\n' :: rest := by
  unfold listing
  rw [String.toList_append, String.toList_append]
  cases himports : ds.imports with
  | nil => exact .inr ⟨_, rfl⟩
  | cons code codes =>
    have himport : isImport code = true := by
      have hmem : code ∈ ds.imports := by
        rw [himports]
        exact mem_cons_self
      exact (mem_filter.mp hmem).2
    obtain ⟨c, rest, hcode, -⟩ := isImport_iff.mp himport
    obtain ⟨more, hmore⟩ : code.toList <+: (join "\n" (code :: codes)).toList := by
      unfold join
      cases codes with
      | nil => rw [String.intercalate_singleton]
      | cons code' codes =>
        rw [String.intercalate_cons_cons, String.append_assoc, String.toList_append]
        exact prefix_append _ _
    rw [← hmore, hcode]
    exact .inl ⟨_, rfl⟩

theorem filter_join {separator : String} (h : ∀ c ∈ separator.toList, c = '\n') (parts : List String) :
    (join separator parts).toList.filter (· ≠ '\n') = (parts.flatMap (·.toList)).filter (· ≠ '\n') := by
  have hseparator : separator.toList.filter (· ≠ '\n') = [] :=
    filter_eq_nil_iff.mpr fun c hc => by simpa using h c hc
  unfold join
  induction parts with
  | nil => rfl
  | cons part parts ih =>
    cases parts with
    | nil => rw [String.intercalate_singleton, flatMap_singleton]
    | cons part' parts =>
      rw [String.intercalate_cons_cons, String.toList_append, String.toList_append, filter_append, filter_append,
        hseparator, append_nil, ih, ← filter_append]
      rfl

theorem filter_listing (ds : Definitions) : ds.listing.filter (· ≠ '\n') =
    ((ds.imports ++ ds.others).flatMap (·.toList)).filter (· ≠ '\n') := by
  unfold listing
  rw [String.toList_append, String.toList_append, filter_append, filter_append, filter_join (by simp),
    filter_join (by simp), flatMap_append, filter_append]
  exact congrArg (· ++ _) (append_nil _)

end Definitions

namespace Generator

structure IsHeader (ds : Definitions) (header : List Char) : Prop where
  /-- Imports are the definitions that start with the word and white space. -/
  isImport : ∀ code, code ∈ ds.imports ↔ code ∈ ds.map (·.code) ∧
    ∃ c rest, code.toList = "import".toList ++ c :: rest ∧ isPatternBlank c = true
  /-- All definitions are in the header: imports and all others, both in their order. -/
  perm : (ds.imports ++ ds.others).Perm (ds.map (·.code))
  imports_sublist : ds.imports.Sublist (ds.map (·.code))
  others_sublist : ds.others.Sublist (ds.map (·.code))
  /-- The listing of the definitions, up to the newlines at its end, and two newlines; then runs of newlines are
  shortened. -/
  shortened : Shortened (dropEndNewlines ds.listing ++ ['\n', '\n']) header
  no_three : ¬ List.replicate 3 '\n' <:+: header
  /-- All characters but newlines are kept. -/
  kept : header.filter (· ≠ '\n') = ((ds.imports ++ ds.others).flatMap (·.toList)).filter (· ≠ '\n')
  /-- The last line is followed by one blank line. -/
  blank_line : ∃ content, header = content ++ ['\n', '\n'] ∧ content.getLast? ≠ some '\n'

def header (ds : Definitions) : List Char := collapseNewlines 0 (dropEndNewlines ds.listing ++ ['\n', '\n'])

theorem toList_finish (indent : String) (ds : Definitions) (body : String) :
    (finish indent ds body).toList = header ds ++ "main() \x7b\n".toList ++
      (if body = "" then "" else prependLines indent body).toList ++ ['\x7d'] := by
  unfold finish header Definitions.listing
  rw [collapseNewlines_dropEndNewlines]
  rw [String.toList_append, String.toList_append, String.toList_append, String.toList_append, String.toList_ofList]
  rfl

theorem isHeader_header (ds : Definitions) : IsHeader ds (header ds) where
  isImport code := by
    unfold Definitions.imports
    rw [mem_filter, Definitions.isImport_iff]
  perm := ds.perm_imports_others
  imports_sublist := filter_sublist
  others_sublist := filter_sublist
  shortened := shortened_collapseNewlines _
  no_three := not_infix_collapseNewlines _
  kept := by
    obtain ⟨n, hlisting⟩ := dropEndNewlines_append_replicate ds.listing
    have hkept := (shortened_collapseNewlines (dropEndNewlines ds.listing ++ ['\n', '\n'])).filter_eq
    rw [← ds.filter_listing]
    refine hkept.trans ?_
    rw [filter_append, hlisting, filter_append, filter_replicate, ← hlisting]
    rfl
  blank_line := by
    refine ⟨dropEndNewlines (collapseNewlines 0 ds.listing), ?_, getLast?_dropEndNewlines _⟩
    exact collapseNewlines_dropEndNewlines ds.listing

theorem header_starts (ds : Definitions) :
    (∃ rest, header ds = 'i' :: rest) ∨ ∃ rest, header ds = '\n' :: '\n' :: rest := by
  obtain ⟨n, hlisting⟩ := dropEndNewlines_append_replicate ds.listing
  have hlast := getLast?_dropEndNewlines ds.listing
  unfold header
  generalize dropEndNewlines ds.listing = content at hlisting hlast
  cases content with
  | nil => exact .inr ⟨[], rfl⟩
  | cons c content =>
    rcases ds.listing_starts with ⟨rest, hrest⟩ | ⟨rest, hrest⟩
    · obtain rfl : 'i' = c := (List.cons.inj (hrest.symm.trans hlisting)).1
      exact .inl ⟨_, rfl⟩
    · -- The content does not end with a newline, so that it holds both.
      obtain ⟨rfl, hrest⟩ := List.cons.inj (hrest.symm.trans hlisting)
      cases content with
      | nil => exact absurd rfl hlast
      | cons d content =>
        obtain rfl : '\n' = d := (List.cons.inj hrest).1
        exact .inr ⟨_, rfl⟩

theorem tidied_finish (indent : String) (ds : Definitions) (body : String) :
    Tidied '\x7d' (tidyChars (finish indent ds body).toList) := by
  apply tidied_tidyChars
  · exact ⟨by decide, _, toList_finish indent ds body⟩
  · intro rest hrest
    rw [toList_finish, append_assoc, append_assoc] at hrest
    rcases header_starts ds with ⟨more, hmore⟩ | ⟨more, hmore⟩
    · rw [hmore, cons_append] at hrest
      exact absurd (List.cons.inj hrest).1 (by decide)
    · rw [hmore, cons_append] at hrest
      rw [← (List.cons.inj hrest).2, cons_append, takeWhile_cons_of_pos (by decide)]
      exact mem_cons_self

/-- What a program looks like at its ends and at its line ends. -/
structure IsTidy (code : String) : Prop where
  ends : ∃ before, code = before ++ "\x7d"
  no_space : ∀ c ∈ [' ', '\t'], ¬ [c, '\n'] <:+: code.toList
  /-- In the first line there is a character that is no blank. -/
  opens : OpensWithText code.toList
  tidy_eq : tidy code = code

theorem isTidy_tidy_finish (indent : String) (ds : Definitions) (body : String) :
    IsTidy (tidy (finish indent ds body)) := by
  have htidied := tidied_finish indent ds body
  refine ⟨?_, fun c hc hinfix => ?_, ?_, ?_⟩
  · obtain ⟨-, before, hbefore⟩ := htidied.ends
    exact ⟨String.ofList before, by rw [tidy, hbefore, String.ofList_append]⟩
  · rw [tidy, String.toList_ofList] at hinfix
    have hpair := List.IsChain.infix htidied.follows hinfix
    have hfollows := isChain_pair.mp hpair rfl
    rcases mem_pair.mp hc with rfl | rfl
    · exact absurd hfollows (by decide)
    · exact absurd hfollows (by decide)
  · rw [tidy, String.toList_ofList]
    exact htidied.opens
  · unfold tidy
    rw [String.toList_ofList, htidied.tidyChars_eq]

/-- **Programs are laid out.**  Whatever is stored and emitted, a program is a header and an entry
point.  Every program that a generator gives is tidy. -/
theorem layout_kept : (∀ indent ds body, ∃ header, IsHeader ds header ∧
      (finish indent ds body).toList = header ++ "main() \x7b\n".toList ++
        (if body = "" then "" else Text.prependLines indent body).toList ++ ['\x7d']) ∧
    ∀ (g : Generator) (w : Workspace) (result : Result), g.generate w = .ok result → IsTidy result.code := by
  refine ⟨fun indent ds body => ⟨header ds, isHeader_header ds, toList_finish indent ds body⟩, ?_⟩
  intro g w result hresult
  obtain ⟨hfailure, rfl⟩ := generate_eq_ok_iff.mp hresult
  unfold final at hfailure
  rw [program_eq] at hfailure ⊢
  dsimp only at hfailure ⊢
  rw [hfailure]
  exact isTidy_tidy_finish _ _ _

/-- A header with an import and a definition that ends with newlines, and the program of a stack. -/
theorem layout_kept_imports :
    let ds : Definitions := [⟨"a", "f() \x7b\n\n\n\x7d\n\n\n"⟩, ⟨"b", "import 'm'"⟩]
    (∃ header, IsHeader ds header ∧ (finish "  " ds "g();\n").toList = header ++ "main() \x7b\n  g();\n\x7d".toList) ∧
    finish "  " ds "g();\n" = "import 'm'\n\nf() \x7b\n\n\x7d\n\nmain() \x7b\n  g();\n\x7d" ∧
    ∃ result, ({} : Generator).generate twoTexts = .ok result ∧ IsTidy result.code := by
  intro ds
  obtain ⟨header, hheader, heq⟩ := layout_kept.1 "  " ds "g();\n"
  refine ⟨⟨header, hheader, ?_⟩, by decide +kernel, ?_⟩
  · rw [heq, append_assoc, append_assoc]
    exact congrArg (header ++ ·) (by decide +kernel)
  · have hresult := generate_eq_ok_iff.mpr ⟨show (({} : Generator).final twoTexts).failure = none by decide +kernel, rfl⟩
    exact ⟨_, hresult, layout_kept.2 {} twoTexts _ hresult⟩

end Generator

end BlockProgram
