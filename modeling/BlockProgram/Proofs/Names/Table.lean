import BlockProgram.Proofs.Names.Words
import Mathlib.Data.List.Pairwise

/-! # What holds of every name table

`Sound` is the invariant of a table: words in use are identifiers and not reserved, the lookup keys
are those of the entries, and no two entries of a category share a name (in any case) or a word.  A
lookup does one of two things, which `get_cases` tells apart: it finds the entry that answers it and
changes nothing, or no entry answers it and it enters a free word.  Everything later about lookups
goes through these two cases; nothing else opens `get`.
-/
namespace BlockProgram.NameTable

open List Text

variable {t : NameTable} {name logical word : String} {c : Category}

def take (t : NameTable) (c : Category) (word : String) : NameTable :=
  { t with taken := t.taken ++ [(c, word)] }

/-- The table with a word taken into use for a logical name. -/
def enter (t : NameTable) (logical : String) (c : Category) (word : String) : NameTable :=
  { t with
    taken := t.taken ++ [(c, word)]
    keyed := t.keyed ++ [(key logical c, word)]
    entries := t.entries ++ [⟨c, logical, word⟩] }

structure Sound (t : NameTable) : Prop where
  taken_free : ∀ p ∈ t.taken, isIdentifier p.2 = true ∧ p.2 ∉ t.reserved
  keyed_eq : t.keyed = t.entries.map fun e => (key e.logical e.category, e.text)
  known : ∀ e ∈ t.entries, e.category.Known
  entries_taken : ∀ e ∈ t.entries, (e.category, e.text) ∈ t.taken
  names_apart : t.entries.Pairwise fun a b =>
    a.category = b.category → lower a.logical ≠ lower b.logical
  words_apart : t.entries.Pairwise fun a b => a.category = b.category → a.text ≠ b.text

theorem sound_empty (reserved : List String) : (empty reserved).Sound where
  taken_free := by intro p hp; cases hp
  keyed_eq := rfl
  known := by intro e he; cases he
  entries_taken := by intro e he; cases he
  names_apart := List.Pairwise.nil
  words_apart := List.Pairwise.nil

/-- Which variables are declared does not matter to the words in use. -/
theorem Sound.withVars (h : t.Sound) (vars : List (String × String)) : ({ t with vars := vars } : NameTable).Sound :=
  ⟨h.taken_free, h.keyed_eq, h.known, h.entries_taken, h.names_apart, h.words_apart⟩

variable {a b : NameEntry}

/-- Entries that are pairwise apart in what `f` says of them are told apart by it. -/
theorem eq_of_apart {f : NameEntry → String} {l : List NameEntry}
    (h : l.Pairwise fun a b => a.category = b.category → f a ≠ f b)
    (ha : a ∈ l) (hb : b ∈ l) (hc : a.category = b.category) (hf : f a = f b) : a = b := by
  have : Std.Symm fun a b : NameEntry => a.category = b.category → f a ≠ f b :=
    ⟨fun _ _ hab hc hf => hab hc.symm hf.symm⟩
  by_contra hne
  exact h.forall ha hb hne hc hf

variable {e : NameEntry}

namespace Sound

theorem eq_of_name (h : t.Sound) (ha : a ∈ t.entries) (hb : b ∈ t.entries)
    (hc : a.category = b.category) (hn : lower a.logical = lower b.logical) : a = b :=
  eq_of_apart h.names_apart ha hb hc hn

theorem eq_of_word (h : t.Sound) (ha : a ∈ t.entries) (hb : b ∈ t.entries)
    (hc : a.category = b.category) (hw : a.text = b.text) : a = b :=
  eq_of_apart h.words_apart ha hb hc hw

theorem text_free (h : t.Sound) (he : e ∈ t.entries) : isIdentifier e.text = true ∧ e.text ∉ t.reserved :=
  h.taken_free _ (h.entries_taken e he)

/-- Taking a free identifier into use keeps the invariant: a word is entered only for names. -/
theorem take (h : t.Sound) (hid : isIdentifier word = true) (hres : word ∉ t.reserved) : (t.take c word).Sound where
  taken_free := by
    intro p hp
    rcases mem_append.mp hp with hp | hp
    · exact h.taken_free p hp
    · rw [mem_singleton.mp hp]; exact ⟨hid, hres⟩
  keyed_eq := h.keyed_eq
  known := h.known
  entries_taken := fun e he => mem_append_left _ (h.entries_taken e he)
  names_apart := h.names_apart
  words_apart := h.words_apart

/-- Entering a name that no entry answers, with a word that is free in the category, keeps the
invariant. -/
theorem enter (h : t.Sound) (hc : c.Known) (hid : isIdentifier word = true) (hfree : t.isTaken word c false = false)
    (hnew : ∀ e ∈ t.entries, e.category = c → lower e.logical ≠ lower logical) :
    (t.enter logical c word).Sound where
  taken_free := (h.take (c := c) hid (isTaken_eq_false_iff.mp hfree).1).taken_free
  keyed_eq := by simp [NameTable.enter, h.keyed_eq]
  known := by
    intro e he
    rcases mem_append.mp he with he | he
    · exact h.known e he
    · rw [mem_singleton.mp he]; exact hc
  entries_taken := by
    intro e he
    rcases mem_append.mp he with he | he
    · exact mem_append_left _ (h.entries_taken e he)
    · rw [mem_singleton.mp he]; exact mem_append_right _ mem_cons_self
  names_apart := by
    refine pairwise_append.mpr ⟨h.names_apart, pairwise_singleton _ _, ?_⟩
    intro a ha b hb
    rw [mem_singleton.mp hb]
    exact hnew a ha
  words_apart := by
    refine pairwise_append.mpr ⟨h.words_apart, pairwise_singleton _ _, ?_⟩
    intro a ha b hb hcat hw
    rw [mem_singleton.mp hb] at hcat hw
    exact ((isTaken_eq_false_iff.mp hfree).2 _ (h.entries_taken a ha) hw).2 hcat

end Sound

/-! ### What a lookup does -/

/-- **The two outcomes of a lookup.** Either an entry answers it, and the table stays as it is, or
none does, and a free word is entered. -/
theorem get_cases (h : t.Sound) (hc : c.Known) (name : String) :
    (∃ e ∈ t.entries, e.category = c ∧ lower e.logical = lower (t.resolve name c) ∧ t.get name c = (e.text, t)) ∨
    ((∀ e ∈ t.entries, e.category = c → lower e.logical ≠ lower (t.resolve name c)) ∧
      t.get name c = (t.freeName (t.resolve name c) c false,
        t.enter (t.resolve name c) c (t.freeName (t.resolve name c) c false))) := by
  have answers : ∀ e ∈ t.entries, key e.logical e.category = key (t.resolve name c) c ↔
      lower e.logical = lower (t.resolve name c) ∧ e.category = c :=
    fun e he => key_inj (h.known e he) hc
  cases hfind : t.keyed.find? (·.1 = key (t.resolve name c) c) with
  | some p =>
    left
    have hmem := mem_of_find?_eq_some hfind
    have hkey : p.1 = key (t.resolve name c) c := by simpa using List.find?_some hfind
    rw [h.keyed_eq] at hmem
    obtain ⟨e, he, rfl⟩ := mem_map.mp hmem
    obtain ⟨hl, hcat⟩ := (answers e he).mp hkey
    exact ⟨e, he, hcat, hl, by simp [get, hfind]⟩
  | none =>
    right
    refine ⟨?_, by simp [get, hfind, assign, NameTable.enter]⟩
    intro e he hcat hl
    have hmem : (key e.logical e.category, e.text) ∈ t.keyed := by
      rw [h.keyed_eq]; exact mem_map.mpr ⟨e, he, rfl⟩
    have hno := List.find?_eq_none.mp hfind _ hmem
    exact hno (decide_eq_true ((answers e he).mpr ⟨hl, hcat⟩))

/-- A lookup that an entry answers gives the word of that entry. -/
theorem get_eq_of_mem (h : t.Sound) (he : e ∈ t.entries)
    (hl : lower (t.resolve name e.category) = lower e.logical) : t.get name e.category = (e.text, t) := by
  rcases get_cases h (h.known e he) name with ⟨d, hd, hcat, hname, hget⟩ | ⟨hnone, _⟩
  · rw [hget, h.eq_of_name hd he hcat (hname.trans hl)]
  · exact absurd hl.symm (hnone e he rfl)

/-- After a lookup an entry answers it. -/
theorem exists_entry_get (h : t.Sound) (hc : c.Known) (name : String) : ∃ e ∈ (t.get name c).2.entries, e.category = c ∧
      lower e.logical = lower (t.resolve name c) ∧ e.text = (t.get name c).1 := by
  rcases get_cases h hc name with ⟨e, he, hcat, hl, hget⟩ | ⟨_, hget⟩
  · rw [hget]; exact ⟨e, he, hcat, hl, rfl⟩
  · rw [hget]
    exact ⟨⟨c, t.resolve name c, _⟩, mem_append_right _ mem_cons_self, rfl, rfl, rfl⟩

theorem Sound.get (h : t.Sound) (hc : c.Known) (name : String) : (t.get name c).2.Sound := by
  rcases get_cases h hc name with ⟨e, _, _, _, hget⟩ | ⟨hnone, hget⟩
  · rw [hget]; exact h
  · rw [hget]
    exact h.enter hc (isIdentifier_freeName t _ c false) (isTaken_freeName t _ c false) hnone

/-- A lookup keeps reserved words, variables and entries. -/
theorem get_grows (h : t.Sound) (hc : c.Known) (name : String) :
    (t.get name c).2.reserved = t.reserved ∧ (t.get name c).2.vars = t.vars ∧ t.entries ⊆ (t.get name c).2.entries := by
  rcases get_cases h hc name with ⟨e, _, _, _, hget⟩ | ⟨_, hget⟩
  · rw [hget]; exact ⟨rfl, rfl, List.Subset.refl _⟩
  · rw [hget]; exact ⟨rfl, rfl, subset_append_left _ _⟩

theorem Sound.distinct (h : t.Sound) (seed : String) (c : Category) : (t.distinct seed c).2.Sound := by
  exact h.take (isIdentifier_freeName t seed c true)
    (isTaken_eq_false_iff.mp (isTaken_freeName t seed c true)).1

/-! ### Tables that grow -/

/-- The table `t'` is in order, and has all that `t` has. -/
structure Grows (t t' : NameTable) : Prop where
  sound : t'.Sound
  vars : t'.vars = t.vars
  entries : t.entries ⊆ t'.entries

variable {t' t'' : NameTable}

theorem Sound.grows (h : t.Sound) : t.Grows t := ⟨h, rfl, List.Subset.refl _⟩

theorem Sound.grows_get (h : t.Sound) (hc : c.Known) (name : String) : t.Grows (t.get name c).2 := by
  obtain ⟨-, hvars, hentries⟩ := get_grows h hc name
  exact ⟨h.get hc name, hvars, hentries⟩

theorem Sound.grows_distinct (h : t.Sound) (seed : String) (c : Category) : t.Grows (t.distinct seed c).2 :=
  ⟨h.distinct seed c, rfl, List.Subset.refl _⟩

namespace Grows

theorem trans (h : t.Grows t') (h' : t'.Grows t'') : t.Grows t'' :=
  ⟨h'.sound, h'.vars.trans h.vars, List.Subset.trans h.entries h'.entries⟩

theorem resolve (h : t.Grows t') (name : String) (c : Category) : t'.resolve name c = t.resolve name c := by
  unfold NameTable.resolve
  rw [h.vars]

/-- **A name keeps its identifier.** A lookup that was made before is answered as it was then. -/
theorem get_eq (h : t.Sound) (hc : c.Known) (hlater : (t.get name c).2.Grows t') :
    t'.get name c = ((t.get name c).1, t') := by
  obtain ⟨e, he, rfl, hname, htext⟩ := exists_entry_get h hc name
  have hresolve := ((h.grows_get hc name).trans hlater).resolve name e.category
  rw [get_eq_of_mem hlater.sound (hlater.entries he) (hresolve ▸ hname.symm), htext]

/-- **Identifiers tell names apart.** Two lookups in one category, one after the other, have the
same answer exactly when the names they are resolved to are the same but for case. -/
theorem get_eq_get_iff (h : t.Sound) (hc : c.Known) {m n : String} (hlater : (t.get m c).2.Grows t') :
    (t.get m c).1 = (t'.get n c).1 ↔ lower (t.resolve m c) = lower (t.resolve n c) := by
  obtain ⟨d, hd, hdc, hdm, hdtext⟩ := exists_entry_get h hc m
  obtain ⟨e, he, hec, hen, hetext⟩ := exists_entry_get hlater.sound hc n
  -- both entries stand in the last of the tables
  have hlast := hlater.sound.grows_get hc n
  have hd' := hlast.entries (hlater.entries hd)
  have hcat : d.category = e.category := hdc.trans hec.symm
  rw [((h.grows_get hc m).trans hlater).resolve n c] at hen
  constructor
  · intro htext
    have heq : d = e := hlast.sound.eq_of_word hd' he hcat (hdtext.trans (htext.trans hetext.symm))
    rw [← hdm, heq, hen]
  · intro hname
    have heq : d = e := hlast.sound.eq_of_name hd' he hcat (hdm.trans (hname.trans hen.symm))
    rw [← hdtext, heq, hetext]

end Grows

end BlockProgram.NameTable
