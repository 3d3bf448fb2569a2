import BlockProgram.Program.NameTable
import BlockProgram.Text.Blank
import Mathlib.Data.List.Dedup
import Mathlib.Data.List.Perm.Subperm
import Mathlib.Data.Nat.Find

/-! # The words a name table hands out

A word is made in two steps.  `plainName` turns any text into an identifier, byte by byte, and
`freeName` puts a number behind it until the word is neither reserved nor in use.  This module
proves that the first step always gives an identifier (`isIdentifier_plainName`), that the second
keeps it one (`isIdentifier_freeName`), and that the search ends with a word that is free: among one
more candidates than there are words to avoid, one is free, since different numbers give different
words (`isTaken_freeName`).  It is the first one that is (`assign_takes_least_free`).

The last section is about lookup keys.  A key joins the lower-cased name and the category with an
underscore, and the category `DEVELOPER_VARIABLE` itself ends in `_VARIABLE`.  What keeps the keys
apart is that a lower-cased name holds no capital letter (`key_inj`).
-/
namespace BlockProgram

open List Text

namespace NameTable

def isInitial (c : Char) : Bool := c.isAlpha || c == '_'

/-- Whether a text is an identifier: a letter or an underscore, and then letters, digits and
underscores. -/
def isIdentifier (w : String) : Bool :=
  match w.toList with
  | [] => false
  | c :: cs => isInitial c && cs.all isWordChar

theorem isIdentifier_iff {w : String} : isIdentifier w = true ↔
      ∃ c cs, w.toList = c :: cs ∧ isInitial c = true ∧ cs.all isWordChar = true := by
  unfold isIdentifier
  cases h : w.toList with
  | nil | cons => simp

theorem isWordChar_of_isInitial {c : Char} (h : isInitial c = true) : isWordChar c = true := by
  simp only [isInitial, isWordChar, Char.isAlphanum, Bool.or_eq_true] at h ⊢
  rcases h with h | h
  · exact Or.inl (Or.inl h)
  · exact Or.inr h

theorem isInitial_of_not_digit {c : Char} (h : isWordChar c = true) (hd : c.isDigit = false) : isInitial c = true := by
  simpa [isInitial, isWordChar, Char.isAlphanum, hd] using h

theorem isWordChar_of_isDigit {c : Char} (h : c.isDigit = true) : isWordChar c = true := by
  simp [isWordChar, Char.isAlphanum, h]

/-- What stands for a byte consists of word characters; there are only 256 bytes to look at. -/
theorem all_safeByte (b : UInt8) : (safeByte b).all isWordChar = true := by
  have every : ∀ n : Fin 256, (safeByte (UInt8.ofNat n.val)).all isWordChar = true := by
    decide +kernel
  have h := every ⟨b.toNat, b.toNat_lt⟩
  rwa [UInt8.ofNat_toNat] at h

theorem isIdentifier_plainName (name : String) : isIdentifier (plainName name) = true := by
  have word : ∀ c ∈ name.toUTF8.toList.flatMap safeByte, isWordChar c = true := by
    intro c hc
    obtain ⟨b, _, hb⟩ := mem_flatMap.mp hc
    exact all_eq_true.mp (all_safeByte b) c hb
  unfold plainName
  generalize name.toUTF8.toList.flatMap safeByte = cs at word
  cases cs with
  | nil => decide +kernel
  | cons c cs =>
    have hall : cs.all isWordChar = true :=
      all_eq_true.mpr fun d hd => word d (mem_cons_of_mem _ hd)
    have hc := word c mem_cons_self
    dsimp only
    rw [isIdentifier_iff]
    by_cases hd : c.isDigit = true
    · refine ⟨'m', 'y' :: '_' :: c :: cs, ?_, by decide, ?_⟩
      · rw [if_pos hd, String.toList_ofList]; rfl
      · have hy : isWordChar 'y' = true := by decide
        have hu : isWordChar '_' = true := by decide
        simp only [all_cons, hy, hu, hc, hall, Bool.and_self]
    · refine ⟨c, cs, ?_, ?_, hall⟩
      · rw [if_neg hd, String.toList_ofList]
      · exact isInitial_of_not_digit hc (by simpa using hd)

theorem toList_toString (n : Nat) : (toString n).toList = Nat.toDigits 10 n := Nat.toList_repr

/-- A number behind an identifier leaves it an identifier. -/
theorem isIdentifier_append_number {w : String} (h : isIdentifier w = true) (n : Nat) :
    isIdentifier (w ++ toString n) = true := by
  obtain ⟨c, cs, hw, hc, hcs⟩ := isIdentifier_iff.mp h
  refine isIdentifier_iff.mpr ⟨c, cs ++ Nat.toDigits 10 n, ?_, hc, ?_⟩
  · rw [String.toList_append, hw, toList_toString, cons_append]
  · rw [all_append, hcs, Bool.true_and]
    refine all_eq_true.mpr fun d hd => ?_
    exact isWordChar_of_isDigit (Nat.isDigit_of_mem_toDigits (by decide) (by decide) hd)

/-- Different numbers behind one word give different words. -/
theorem append_number_inj {w : String} {m n : Nat} (h : w ++ toString m = w ++ toString n) : m = n := by
  have hl := congrArg String.toList h
  rw [String.toList_append, String.toList_append, append_cancel_left_eq, toList_toString, toList_toString] at hl
  have hm : Nat.ofDigitChars 10 (Nat.toDigits 10 m) 0 = m := Nat.ofDigitChars_ten_toDigits
  rw [hl, Nat.ofDigitChars_ten_toDigits] at hm
  exact hm.symm

/-! ### The search for a free word -/

variable {t : NameTable} {word base : String} {category : Category} {distinct : Bool}

theorem isTaken_eq_false_iff : t.isTaken word category distinct = false ↔ word ∉ t.reserved ∧
        ∀ p ∈ t.taken, p.2 = word → distinct = false ∧ p.1 ≠ category := by
  simp only [isTaken, isReserved, Bool.or_eq_false_iff, contains_eq_mem, decide_eq_false_iff_not,
    any_eq_false, Bool.and_eq_true, decide_eq_true_eq, not_and, Bool.or_eq_true, not_or, Bool.not_eq_true, ne_eq]

/-- A word that is not free is one of those to avoid. -/
theorem mem_of_isTaken (h : t.isTaken word category distinct = true) : word ∈ t.reserved ++ t.taken.map (·.2) := by
  simp only [isTaken, isReserved, Bool.or_eq_true, contains_eq_mem, decide_eq_true_eq,
    any_eq_true, Bool.and_eq_true] at h
  rcases h with h | ⟨p, hp, hw, _⟩
  · exact mem_append_left _ h
  · exact mem_append_right _ (mem_map.mpr ⟨p, hp, hw⟩)

/-- The word that is tried after `k` others: the base itself, and then the base with the numbers
from two on. -/
def candidate (base : String) : Nat → String
  | 0 => base
  | k + 1 => base ++ toString (k + 2)

theorem candidate_injective (base : String) : Function.Injective (candidate base) := by
  have hlonger : ∀ k, base ≠ candidate base (k + 1) := fun k heq => by
    have hdigits := congrArg String.toList heq
    rw [candidate, String.toList_append, self_eq_append_right, toList_toString] at hdigits
    exact Nat.toDigits_ne_nil hdigits
  intro j k h
  cases j with
  | zero =>
    cases k with
    | zero => rfl
    | succ k => exact absurd h (hlonger k)
  | succ j =>
    cases k with
    | zero => exact absurd h.symm (hlonger j)
    | succ k => exact Nat.succ.inj (append_number_inj (m := j + 2) (n := k + 2) h)

theorem isIdentifier_candidate (h : isIdentifier base = true) (k : Nat) : isIdentifier (candidate base k) = true := by
  cases k with
  | zero => exact h
  | succ k => exact isIdentifier_append_number h _

/-- How the search goes: the word at hand is tried, and as long as it is not free the next one is
the base with the next number.  After some tries it ends with a word. -/
inductive Search (t : NameTable) (base : String) (category : Category) (distinct : Bool) :
    String → Nat → Nat → String → Prop
  | found {word : String} {n : Nat} (hfree : t.isTaken word category distinct = false) :
      Search t base category distinct word n 1 word
  | next {word last : String} {n tries : Nat} (htaken : t.isTaken word category distinct = true)
      (hrest : Search t base category distinct (base ++ toString n) (n + 1) tries last) :
      Search t base category distinct word n (tries + 1) last

/-- With enough fuel for its tries, the search gives the word it ends with. -/
theorem Search.firstFree_eq {last : String} {n tries fuel : Nat} (h : t.Search base category distinct word n tries last)
    (hfuel : tries ≤ fuel + 1) :
    (if t.isTaken word category distinct then t.firstFree base category distinct fuel n else word) = last := by
  induction h generalizing fuel with
  | found hfree => exact if_neg (Bool.eq_false_iff.mp hfree)
  | next htaken hrest ih =>
    rw [if_pos htaken]
    cases fuel with
    | zero => cases hrest <;> omega
    | succ fuel => exact ih (Nat.le_of_succ_le_succ hfuel)

theorem search_candidate {j d k : Nat} (hk : j + d = k) (hfree : t.isTaken (candidate base k) category distinct = false)
    (htaken : ∀ i < k, t.isTaken (candidate base i) category distinct = true) :
    t.Search base category distinct (candidate base j) (j + 2) (d + 1) (candidate base k) := by
  induction d generalizing j with
  | zero =>
    obtain rfl : j = k := hk
    exact .found hfree
  | succ d ih => exact .next (htaken j (by omega)) (ih (j := j + 1) (by omega))

def avoided (t : NameTable) : List String := (t.reserved ++ t.taken.map (·.2)).dedup

/-- One candidate more than there are words to avoid cannot all be among these. -/
theorem exists_free (t : NameTable) (base : String) (category : Category) (distinct : Bool) :
    ∃ k, k ≤ t.avoided.length ∧ t.isTaken (candidate base k) category distinct = false := by
  by_contra hall
  have hsub : (List.range (t.avoided.length + 1)).map (candidate base) ⊆ t.avoided := by
    intro word hword
    obtain ⟨k, hk, rfl⟩ := mem_map.mp hword
    refine mem_dedup.mpr (mem_of_isTaken (Bool.of_not_eq_false fun hfree => hall ⟨k, ?_, hfree⟩))
    exact Nat.lt_succ_iff.mp (mem_range.mp hk)
  have hlength := (subperm_of_subset (nodup_range.map (candidate_injective base)) hsub).length_le
  rw [length_map, length_range] at hlength
  omega

/-- **The word found is the first free candidate.** -/
theorem exists_search (t : NameTable) (seed : String) (category : Category) (distinct : Bool) :
    ∃ k ≤ t.avoided.length, t.freeName seed category distinct = candidate (plainName seed) k ∧
      t.Search (plainName seed) category distinct (plainName seed) 2 (k + 1) (candidate (plainName seed) k) ∧
      t.isTaken (candidate (plainName seed) k) category distinct = false ∧
      ∀ j < k, t.isTaken (candidate (plainName seed) j) category distinct = true := by
  have hex := exists_free t (plainName seed) category distinct
  obtain ⟨hk, hfree⟩ := Nat.find_spec hex
  have htaken : ∀ j < Nat.find hex, t.isTaken (candidate (plainName seed) j) category distinct = true := fun j hj =>
    Bool.of_not_eq_false fun h => Nat.find_min hex hj ⟨Nat.le_trans (Nat.le_of_lt hj) hk, h⟩
  have hsearch := search_candidate (Nat.zero_add _) hfree htaken
  have hlength : t.avoided.length ≤ t.reserved.length + t.taken.length := by
    simpa [avoided] using (dedup_sublist (t.reserved ++ t.taken.map (·.2))).length_le
  exact ⟨_, hk, hsearch.firstFree_eq (by omega), hsearch, hfree, htaken⟩

/-- The word found is not reserved, and not in use where that counts. -/
theorem isTaken_freeName (t : NameTable) (seed : String) (category : Category) (distinct : Bool) :
    t.isTaken (t.freeName seed category distinct) category distinct = false := by
  obtain ⟨k, -, hword, -, hfree, -⟩ := exists_search t seed category distinct
  rw [hword, hfree]

theorem isIdentifier_freeName (t : NameTable) (seed : String) (category : Category)
    (distinct : Bool) : isIdentifier (t.freeName seed category distinct) = true := by
  obtain ⟨k, -, hword, -⟩ := exists_search t seed category distinct
  rw [hword]
  exact isIdentifier_candidate (isIdentifier_plainName seed) k

/-- **The search ends with the least free candidate**, whatever the state of the table.  There is at
most one try more than there are words to avoid.  The seed keeps its safe form if that is free, and
is otherwise given the least number from two on that makes it free; this word is taken into use, and
nothing else changes. -/
theorem assign_takes_least_free (t : NameTable) (seed : String) (category : Category) (distinct : Bool) :
    ∃ tries word, t.Search (plainName seed) category distinct (plainName seed) 2 tries word ∧
      tries ≤ t.avoided.length + 1 ∧
      t.assign seed category distinct = (word, { t with taken := t.taken ++ [(category, word)] }) ∧
      t.isTaken word category distinct = false ∧
      (word = plainName seed ∨ t.isTaken (plainName seed) category distinct = true ∧
        ∃ n ≥ 2, word = plainName seed ++ toString n ∧
          ∀ m ≥ 2, m < n → t.isTaken (plainName seed ++ toString m) category distinct = true) := by
  obtain ⟨k, hk, hword, hsearch, hfree, htaken⟩ := exists_search t seed category distinct
  refine ⟨k + 1, _, hsearch, Nat.succ_le_succ hk, ?_, hfree, ?_⟩
  · unfold assign
    rw [hword]
  · cases k with
    | zero => exact .inl rfl
    | succ k =>
      refine .inr ⟨htaken 0 (Nat.succ_pos k), k + 2, Nat.le_add_left 2 k, rfl, fun m hm hlt => ?_⟩
      obtain ⟨i, rfl⟩ := Nat.exists_eq_add_of_le' hm
      exact htaken (i + 1) (Nat.lt_of_succ_lt_succ hlt)

end NameTable

/-! ### Lookup keys -/

namespace Text

theorem exists_le_of_inRuns {stride n : Nat} {bounds : List Nat} (h : inRuns stride bounds n = true) :
    ∃ b ∈ bounds, b ≤ n := by
  fun_induction inRuns stride bounds n with
  | case1 first last rest n ih =>
    by_cases hfirst : first ≤ n
    · exact ⟨first, mem_cons_self, hfirst⟩
    · obtain ⟨b, hb, hle⟩ := ih (by simpa [hfirst] using h)
      exact ⟨b, by simp [hb], hle⟩
  | case2 => cases h

/-- No lower-case form that is told by a run lies among the capital letters. -/
theorem shift_of_mem_runs : ∀ e ∈ lowercaseRuns, ∀ b ∈ e.2.2, (97 : Int) ≤ b + e.2.1 := by
  decide +kernel

theorem toNat_ofNat_eq_or (n : Nat) : (Char.ofNat n).toNat = n ∨ (Char.ofNat n).toNat = 0 := by
  by_cases hvalid : n.isValidChar
  · left
    rw [Char.ofNat, dif_pos hvalid]
    rfl
  · right
    rw [Char.ofNat, dif_neg hvalid]
    rfl

theorem isUpper_eq (c : Char) : c.isUpper = decide (65 ≤ c.toNat ∧ c.toNat ≤ 90) := rfl

theorem isUpper_toLower (c : Char) : c.toLower.isUpper = false := by
  rw [isUpper_eq, decide_eq_false_iff_not]
  delta Char.toLower
  split
  · rename_i hup
    have hup : 65 ≤ c.toNat ∧ c.toNat ≤ 90 := hup
    have hstep : ('a'.val - 'A'.val).toNat = 32 := rfl
    simp only [Char.toNat, UInt32.toNat_add, hstep] at hup ⊢
    omega
  · assumption

/-- A lower-cased character is no capital letter. -/
theorem isUpper_lowerChar (c : Char) : (lowerChar c).isUpper = false := by
  unfold lowerChar
  split
  · exact isUpper_toLower c
  · rw [isUpper_eq, decide_eq_false_iff_not]
    split
    · rename_i e he
      have hruns := find?_some he
      obtain ⟨b, hb, hle⟩ := exists_le_of_inRuns hruns
      have hshift := shift_of_mem_runs e (mem_of_find?_eq_some he) b hb
      rcases toNat_ofNat_eq_or (Int.toNat (c.toNat + e.2.1)) with h | h <;> omega
    · omega

theorem isUpper_of_mem_lower {s : String} {c : Char} (h : c ∈ (lower s).toList) : c.isUpper = false := by
  rw [lower, String.toList_map] at h
  obtain ⟨d, _, rfl⟩ := mem_map.mp h
  exact isUpper_lowerChar d

end Text

namespace Category

def Known (c : Category) : Prop := c = userVariable ∨ c = procedure ∨ c = developerVariable

instance (c : Category) : Decidable c.Known :=
  inferInstanceAs (Decidable (c = userVariable ∨ c = procedure ∨ c = developerVariable))

end Category

namespace NameTable

theorem toList_key (name : String) (c : Category) :
    (key name c).toList = (lower name).toList ++ '_' :: c.label.toList := by
  simp [key]

/-- A lower-cased name does not end in a capital letter. -/
theorem lower_ne_append_capital (name : String) (cs : List Char) {c : Char}
    (hc : c.isUpper = true) : (lower name).toList ≠ cs ++ [c] := by
  intro h
  have hlow : c.isUpper = false := isUpper_of_mem_lower (s := name) (by rw [h]; simp)
  rw [hc] at hlow
  cases hlow

/-- **Keys are told apart.** Two lookups in known categories have the same key exactly when they are
in the same category and their names differ in case only. -/
theorem key_inj {m n : String} {c d : Category} (hc : c.Known) (hd : d.Known) :
    key m c = key n d ↔ lower m = lower n ∧ c = d := by
  constructor
  · intro h
    have hl := congrArg (List.reverse ∘ String.toList) h
    simp only [Function.comp_apply, toList_key, reverse_append, reverse_cons] at hl
    -- read backwards: the last letters of the labels differ, or one label is left over in a name
    have left : ∀ x y : String, (lower x).toList ≠
        (lower y).toList ++ ['_', 'D', 'E', 'V', 'E', 'L', 'O', 'P', 'E', 'R'] := by
      intro x y hxy
      refine lower_ne_append_capital x ((lower y).toList ++
        ['_', 'D', 'E', 'V', 'E', 'L', 'O', 'P', 'E']) (c := 'R') (by decide) ?_
      rw [hxy, append_assoc]; rfl
    rcases hc with rfl | rfl | rfl <;> rcases hd with rfl | rfl | rfl <;>
      simp [Category.userVariable, Category.procedure, Category.developerVariable] at hl ⊢
    · exact String.toList_inj.mp hl
    · exact left m n hl
    · exact String.toList_inj.mp hl
    · exact left n m (by simpa using congrArg List.reverse hl.symm)
    · exact String.toList_inj.mp hl
  · rintro ⟨hl, rfl⟩
    simp [key, hl]

end NameTable

end BlockProgram
