import BlockProgram.Proofs.Names.Table

/-! # Every run of a name table

A run is a sequence of calls: lookups, distinct names, new declarations of variables, and resets.
The history of a run lists what was handed out since the last reset, in order, with the name each
lookup was resolved to.  `Recorded` ties the table to its history; one step keeps it
(`recorded_step`), so it holds after every sequence of calls (`recorded_run`), and
`run_keeps_names_apart` reads the guarantees off it.
-/
namespace BlockProgram.NameTable

open List Text

inductive Call where
  | get (name : String) (category : Category)
  | distinct (seed : String) (category : Category)
  | declare (vars : List (String × String))
  | reset
deriving DecidableEq

def Call.category? : Call → Option Category
  | get _ c => some c
  | distinct _ c => some c
  | declare _ => none
  | reset => none

/-- Whether a call names one of the three categories, if it names one. -/
def Call.Known (call : Call) : Prop := ∀ c ∈ call.category?, c.Known

instance (call : Call) : Decidable call.Known :=
  inferInstanceAs (Decidable (∀ c ∈ call.category?, c.Known))

/-- An identifier that was handed out: for the name a lookup was resolved to, or as a distinct
name. -/
structure Handed where
  category : Category
  logical : Option String
  text : String
deriving DecidableEq

structure Ledger where
  table : NameTable
  history : List Handed := []

def Ledger.step (l : Ledger) : Call → Ledger
  | .get name c =>
    { table := (l.table.get name c).2
      history := l.history ++ [⟨c, some (l.table.resolve name c), (l.table.get name c).1⟩] }
  | .distinct seed c =>
    { table := (l.table.distinct seed c).2
      history := l.history ++ [⟨c, none, (l.table.distinct seed c).1⟩] }
  | .declare vars => { l with table := { l.table with vars := vars } }
  | .reset => { table := l.table.reset }

def runCalls (reserved : List String) (calls : List Call) : Ledger :=
  calls.foldl Ledger.step { table := empty reserved }

/-- What two identifiers handed out one after the other owe each other if one of them is a distinct
name: a distinct name differs from all before it, and from all after it in its category. -/
def Handed.Apart (first later : Handed) : Prop :=
  (later.logical = none → first.text ≠ later.text) ∧
    (first.logical = none → first.category = later.category → first.text ≠ later.text)

/-- Adds an entry for a lookup, unless one answers it already. -/
def record (entries : List NameEntry) (x : Handed) : List NameEntry :=
  match x.logical with
  | none => entries
  | some logical =>
    if entries.any fun e => e.category = x.category && lower e.logical = lower logical then
      entries
    else entries ++ [⟨x.category, logical, x.text⟩]

/-- The first lookup of each name in each category, in order. -/
def firstLookups (history : List Handed) : List NameEntry := history.foldl record []

theorem firstLookups_append (history : List Handed) (x : Handed) :
    firstLookups (history ++ [x]) = record (firstLookups history) x := by
  simp [firstLookups]

/-- How a table and its history belong together. -/
structure Recorded (reserved : List String) (l : Ledger) : Prop where
  sound : l.table.Sound
  reserved_eq : l.table.reserved = reserved
  known : ∀ x ∈ l.history, x.category.Known
  handed_taken : ∀ x ∈ l.history, (x.category, x.text) ∈ l.table.taken
  answered : ∀ x ∈ l.history, ∀ logical, x.logical = some logical →
    ∃ e ∈ l.table.entries, e.category = x.category ∧
      lower e.logical = lower logical ∧ e.text = x.text
  /-- A distinct name stays out of the entries of its category. -/
  distinct_apart : ∀ x ∈ l.history, x.logical = none →
    ∀ e ∈ l.table.entries, e.category = x.category → e.text ≠ x.text
  apart : l.history.Pairwise Handed.Apart
  entries_eq : l.table.entries = firstLookups l.history

variable {reserved : List String} {l : Ledger} {c : Category}

theorem recorded_empty (reserved : List String) : Recorded reserved { table := empty reserved } where
  sound := sound_empty reserved
  reserved_eq := rfl
  known := forall_mem_nil _
  handed_taken := forall_mem_nil _
  answered := forall_mem_nil _
  distinct_apart := forall_mem_nil _
  apart := List.Pairwise.nil
  entries_eq := rfl

variable {α : Type} {xs : List α}

theorem forall_mem_concat {P : α → Prop} {x : α} : (∀ y ∈ xs ++ [x], P y) ↔ (∀ y ∈ xs, P y) ∧ P x := by
  rw [forall_mem_append, forall_mem_singleton]

theorem pairwise_concat {R : α → α → Prop} {x : α} : (xs ++ [x]).Pairwise R ↔ xs.Pairwise R ∧ ∀ y ∈ xs, R y x := by
  simp [pairwise_append]

variable {logical : String}

/-- A lookup that an entry answers adds nothing but its line in the history. -/
theorem Recorded.lookup_again (h : Recorded reserved l) {e : NameEntry} (he : e ∈ l.table.entries)
    (hl : lower e.logical = lower logical) : Recorded reserved
      { table := l.table, history := l.history ++ [⟨e.category, some logical, e.text⟩] } where
  sound := h.sound
  reserved_eq := h.reserved_eq
  known := forall_mem_concat.mpr ⟨h.known, h.sound.known e he⟩
  handed_taken := forall_mem_concat.mpr ⟨h.handed_taken, h.sound.entries_taken e he⟩
  answered := by
    refine forall_mem_concat.mpr ⟨h.answered, ?_⟩
    rintro m ⟨⟩
    exact ⟨e, he, rfl, hl, rfl⟩
  distinct_apart := forall_mem_concat.mpr ⟨h.distinct_apart, nofun⟩
  apart := by
    refine pairwise_concat.mpr ⟨h.apart, fun x hx => ⟨nofun, fun hnone hcat => ?_⟩⟩
    exact (h.distinct_apart x hx hnone e he hcat.symm).symm
  entries_eq := by
    rw [firstLookups_append, ← h.entries_eq, record]
    refine (if_pos ?_).symm
    exact any_eq_true.mpr ⟨e, he, by simp [hl]⟩

variable {word : String}

/-- A lookup that no entry answers enters a free word. -/
theorem Recorded.lookup_new (h : Recorded reserved l) (hc : c.Known)
    (hid : isIdentifier word = true) (hfree : l.table.isTaken word c false = false)
    (hnew : ∀ e ∈ l.table.entries, e.category = c → lower e.logical ≠ lower logical) : Recorded reserved
      { table := l.table.enter logical c word, history := l.history ++ [⟨c, some logical, word⟩] } where
  sound := h.sound.enter hc hid hfree hnew
  reserved_eq := h.reserved_eq
  known := forall_mem_concat.mpr ⟨h.known, hc⟩
  handed_taken := forall_mem_concat.mpr
    ⟨fun x hx => mem_append_left _ (h.handed_taken x hx), mem_append_right _ mem_cons_self⟩
  answered := by
    refine forall_mem_concat.mpr ⟨fun x hx m hm => ?_, ?_⟩
    · obtain ⟨e, he, hrest⟩ := h.answered x hx m hm
      exact ⟨e, mem_append_left _ he, hrest⟩
    · rintro m ⟨⟩
      exact ⟨_, mem_append_right _ mem_cons_self, rfl, rfl, rfl⟩
  distinct_apart := by
    refine forall_mem_concat.mpr ⟨fun x hx hnone => forall_mem_concat.mpr ⟨h.distinct_apart x hx hnone, ?_⟩, nofun⟩
    -- the distinct name is in use in this category, and the new word is not
    intro hcat hw
    exact ((isTaken_eq_false_iff.mp hfree).2 _ (h.handed_taken x hx) hw.symm).2 hcat.symm
  apart := by
    refine pairwise_concat.mpr ⟨h.apart, fun x hx => ⟨nofun, fun _ hcat hw => ?_⟩⟩
    exact ((isTaken_eq_false_iff.mp hfree).2 _ (h.handed_taken x hx) hw).2 hcat
  entries_eq := by
    rw [firstLookups_append, ← h.entries_eq, record]
    refine (if_neg ?_).symm
    intro hany
    obtain ⟨e, he, hboth⟩ := any_eq_true.mp hany
    simp only [Bool.and_eq_true, decide_eq_true_eq] at hboth
    exact hnew e he hboth.1 hboth.2

theorem Recorded.distinct (h : Recorded reserved l) (hc : c.Known)
    (hid : isIdentifier word = true) (hfree : l.table.isTaken word c true = false) : Recorded reserved
      { table := l.table.take c word, history := l.history ++ [⟨c, none, word⟩] } := by
  obtain ⟨hres, hunused⟩ := isTaken_eq_false_iff.mp hfree
  have unused : ∀ p ∈ l.table.taken, p.2 ≠ word := by
    intro p hp hw
    cases (hunused p hp hw).1
  refine ⟨h.sound.take hid hres, h.reserved_eq, forall_mem_concat.mpr ⟨h.known, hc⟩, forall_mem_concat.mpr ⟨?_, ?_⟩,
    forall_mem_concat.mpr ⟨h.answered, nofun⟩, forall_mem_concat.mpr ⟨h.distinct_apart, ?_⟩,
    pairwise_concat.mpr ⟨h.apart, fun x hx => ?_⟩, ?_⟩
  · exact fun x hx => mem_append_left _ (h.handed_taken x hx)
  · exact mem_append_right _ mem_cons_self
  · exact fun _ e he _ => unused _ (h.sound.entries_taken e he)
  · exact ⟨fun _ => unused _ (h.handed_taken x hx), fun _ _ => unused _ (h.handed_taken x hx)⟩
  · rw [firstLookups_append, record]
    exact h.entries_eq

/-- **One call keeps table and history together.** -/
theorem recorded_step (h : Recorded reserved l) {call : Call} (hk : call.Known) : Recorded reserved (l.step call) := by
  cases call with
  | get name c =>
    have hk : c.Known := hk c rfl
    rcases get_cases h.sound hk name with ⟨e, he, rfl, hl, hget⟩ | ⟨hnone, hget⟩
    · simpa only [Ledger.step, hget] using h.lookup_again he hl
    · simpa only [Ledger.step, hget] using
        h.lookup_new hk (isIdentifier_freeName _ _ c false) (isTaken_freeName _ _ c false) hnone
  | distinct seed c =>
    have hk : c.Known := hk c rfl
    exact h.distinct hk (isIdentifier_freeName _ seed c true) (isTaken_freeName _ seed c true)
  | declare vars =>
    exact ⟨h.sound.withVars vars, h.reserved_eq, h.known, h.handed_taken, h.answered,
      h.distinct_apart, h.apart, h.entries_eq⟩
  | reset =>
    rw [← h.reserved_eq]
    exact recorded_empty l.table.reserved

variable {calls : List Call}

theorem recorded_foldl (h : Recorded reserved l)
    (hk : ∀ call ∈ calls, call.Known) : Recorded reserved (calls.foldl Ledger.step l) := by
  induction calls generalizing l with
  | nil => exact h
  | cons call calls ih =>
    exact ih (recorded_step h (hk call mem_cons_self))
      fun other ho => hk other (mem_cons_of_mem _ ho)

theorem recorded_run (hk : ∀ call ∈ calls, call.Known) : Recorded reserved (runCalls reserved calls) :=
  recorded_foldl (recorded_empty reserved) hk

/-! ### Reading the guarantees off the history -/

variable {m : String}

/-- Two lookups in one category were given the same identifier exactly when their names are the same
but for case. -/
theorem Recorded.text_eq_iff (h : Recorded reserved l) {x y : Handed} (hx : x ∈ l.history)
    (hy : y ∈ l.history) {n : String} (hm : x.logical = some m) (hn : y.logical = some n)
    (hc : x.category = y.category) : x.text = y.text ↔ lower m = lower n := by
  obtain ⟨d, hd, hdc, hdm, hdt⟩ := h.answered x hx m hm
  obtain ⟨e, he, hec, hen, het⟩ := h.answered y hy n hn
  have hcat : d.category = e.category := by rw [hdc, hec, hc]
  constructor
  · intro htext
    have : d = e := h.sound.eq_of_word hd he hcat (by rw [hdt, het, htext])
    rw [← hdm, ← hen, this]
  · intro hname
    have : d = e := h.sound.eq_of_name hd he hcat (by rw [hdm, hen, hname])
    rw [← hdt, ← het, this]

/-- A lookup of a name that was looked up before gives the identifier it was given then. -/
theorem Recorded.get_again (h : Recorded reserved l) {x : Handed} (hx : x ∈ l.history)
    {name : String} (hm : x.logical = some m) (hl : lower (l.table.resolve name x.category) = lower m) :
    (l.table.get name x.category).1 = x.text := by
  obtain ⟨e, he, hec, hem, het⟩ := h.answered x hx m hm
  rw [← hec] at hl ⊢
  rw [get_eq_of_mem h.sound he (hl.trans hem.symm), het]

/-- What a history promises to whoever uses the identifiers in it. -/
structure KeptApart (reserved : List String) (l : Ledger) : Prop where
  /-- Only identifiers are handed out, and no reserved words. -/
  identifier : ∀ x ∈ l.history, isIdentifier x.text = true ∧ x.text ∉ reserved
  /-- Two lookups in one category share an identifier exactly when their names are the same but for
  case. -/
  same_text_iff : ∀ x ∈ l.history, ∀ y ∈ l.history, ∀ m n, x.logical = some m → y.logical = some n →
    x.category = y.category → (x.text = y.text ↔ lower m = lower n)
  /-- Two lookups share a key exactly when they share category and name, but for case. -/
  same_key_iff : ∀ x ∈ l.history, ∀ y ∈ l.history, ∀ m n, x.logical = some m → y.logical = some n →
    (key m x.category = key n y.category ↔ lower m = lower n ∧ x.category = y.category)
  /-- A distinct name differs from everything before it, and from everything after it in its
  category. -/
  distinct_apart : l.history.Pairwise Handed.Apart
  /-- A lookup that is resolved to a name looked up before gives what was given then. -/
  get_again : ∀ x ∈ l.history, ∀ m, x.logical = some m → ∀ name,
    lower (l.table.resolve name x.category) = lower m →
      (l.table.get name x.category).1 = x.text
  entries_eq : l.table.entries = firstLookups l.history
  entries_apart : l.table.entries.Pairwise fun a b =>
    a.category = b.category → lower a.logical ≠ lower b.logical

/-- **Every run keeps names apart**, whatever was reserved and whatever was called, at every point
since the last reset. -/
theorem run_keeps_names_apart (reserved : List String) (calls : List Call)
    (hk : ∀ call ∈ calls, call.Known) : KeptApart reserved (runCalls reserved calls) := by
  have h : Recorded reserved (runCalls reserved calls) := recorded_run hk
  refine ⟨?_, ?_, ?_, h.apart, ?_, h.entries_eq, h.sound.names_apart⟩
  · intro x hx
    have hfree := h.sound.taken_free _ (h.handed_taken x hx)
    rwa [h.reserved_eq] at hfree
  · intro x hx y hy m n hm hn hc
    exact h.text_eq_iff hx hy hm hn hc
  · intro x hx y hy m n _ _
    exact key_inj (h.known x hx) (h.known y hy)
  · intro x hx m hm name hl
    exact h.get_again hx hm hl

/-- A run with a reset, a declared variable, a name in two cases, a name that ends like a category,
and a distinct name that competes with all of them. -/
theorem run_keeps_names_apart_sample : KeptApart ["for"] (runCalls ["for"]
      [.get "left over" .procedure, .reset, .declare [("v1", "Total")], .get "v1" .userVariable,
        .get "total" .userVariable, .get "x_developer" .userVariable, .get "x" .developerVariable,
        .distinct "total" .procedure, .get "total2" .userVariable, .get "for" .procedure]) :=
  run_keeps_names_apart _ _ (by decide)

end BlockProgram.NameTable
