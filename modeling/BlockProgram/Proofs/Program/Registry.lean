import BlockProgram.Proofs.Emission.Parallel
import BlockProgram.Proofs.Program.Start

/-! # The registry of definitions

A run keeps the definitions of a program under keys.  It is asked to store some, and it is asked for
the names of helper functions, which are stored on the first demand; in between it hands out
identifiers.  A helper function whose key is taken by another definition is stored under a key of
its own, made from its name.

A book is a run with the receipts of all that was asked (`Book`): the name that was given back, how
often lines were generated, and the definitions that were added.  `Book.Sound` is what each request
keeps up (`Book.Sound.step`), provided that no key looks like those that helper functions are
diverted to; from it the guarantees of the registry are read off (`Generator.registry_kept`).
-/
namespace BlockProgram

open List Emit Definitions Option

/-! ### Requests -/

inductive Request where
  | define (key code : String)
  /-- Asks for the helper function with a key, with a generator of these lines. -/
  | provide (key : String) (lines : List String)
  | variableName (idOrName : String)
  | procedureName (name : String)
  | freshVariable (seed : String)

namespace Request

def key? : Request → Option String
  | define key _ | provide key _ => some key
  | _ => none

/-- What the generator gives, if the request is for the helper function with this key. -/
def linesFor? (key : String) : Request → Option (List String)
  | provide key' lines => if key' = key then some lines else none
  | _ => none

/-- A generator of lines that counts how often it runs. -/
def counting (lines : List String) : StateM Nat (List String) := do
  modify (· + 1)
  return lines

end Request

structure Receipt where
  request : Request
  name : Option String := none
  generated : Nat := 0
  added : List Definition := []

/-- A run, and the receipts of all that it was asked for. -/
structure Book where
  run : Run
  receipts : List Receipt := []

namespace Book

/-- Answers a request: the run after it, the name that is given back, and how often lines were
generated. -/
def answer (setting : Setting) (r : Run) : Request → Run × Option String × Nat
  | .define key code => ((define key code setting r).2, none, 0)
  | .provide key lines =>
    let out := (provide setting key (Request.counting lines) r).run 0
    (out.1.2, some out.1.1, out.2)
  | .variableName x => ((variableName x setting r).2, none, 0)
  | .procedureName x => ((procedureName x setting r).2, none, 0)
  | .freshVariable seed => ((freshVariable seed setting r).2, none, 0)

def step (setting : Setting) (b : Book) (q : Request) : Book :=
  let out := answer setting b.run q
  { run := out.1
    receipts := b.receipts ++ [{
      request := q, name := out.2.1, generated := out.2.2
      added := out.1.definitions.drop b.run.definitions.length }] }

def served (setting : Setting) (start : Run) (requests : List Request) : Book :=
  requests.foldl (step setting) { run := start }

/-- The definitions that were added by the requests that gave this name back. -/
def addedFor (b : Book) (name : String) : List Definition :=
  (b.receipts.filter (·.name = some name)).flatMap (·.added)

def generatedFor (b : Book) (key : String) : Nat :=
  ((b.receipts.filter (·.request.linesFor? key |>.isSome)).map (·.generated)).sum

/-- The lines of the first request for the helper function with this key. -/
def firstLines? (b : Book) (key : String) : Option (List String) := b.receipts.findSome? (·.request.linesFor? key)

end Book

/-- The key looks like one for helper functions whose own key is taken. -/
def Emit.IsDiverted (key : String) : Prop := "helper:".toList <+: key.toList

instance (key : String) : Decidable (IsDiverted key) := inferInstanceAs (Decidable (_ <+: _))

theorem Emit.isDiverted_divertedKey (name : String) : IsDiverted (divertedKey name) := by
  unfold IsDiverted divertedKey
  rw [String.toList_append]
  exact prefix_append _ _

theorem Emit.divertedKey_inj {name name' : String} (h : divertedKey name = divertedKey name') : name = name' :=
  String.append_right_inj _ |>.mp h

/-! ### What holds after every request -/

namespace NameTable

theorem taken_subset_get (t : NameTable) (name : String) (c : Category) : t.taken ⊆ (t.get name c).2.taken := by
  unfold get
  dsimp only
  split
  · exact List.Subset.refl _
  · exact subset_append_left _ _

theorem freeName_not_mem (t : NameTable) (seed : String) (c : Category) :
    t.freeName seed c true ∉ t.taken.map (·.2) := by
  intro hmem
  obtain ⟨p, hp, hword⟩ := mem_map.mp hmem
  have hfree := (isTaken_eq_false_iff.mp (isTaken_freeName t seed c true)).2 p hp hword
  exact absurd hfree.1 Bool.noConfusion

end NameTable

variable {ds : Definitions}

namespace Definitions

theorem put_cases (ds : Definitions) (key code : String) :
    (key ∈ ds.map (·.key) ∧ ds.put key code = ds) ∨ (key ∉ ds.map (·.key) ∧ ds.put key code = ds ++ [⟨key, code⟩]) := by
  by_cases h : key ∈ ds.map (·.key)
  · exact .inl ⟨h, put_of_mem h code⟩
  · exact .inr ⟨h, put_of_not_mem h code⟩

theorem nodup_put (h : (ds.map (·.key)).Nodup) (key code : String) : ((ds.put key code).map (·.key)).Nodup := by
  rcases ds.put_cases key code with ⟨-, heq⟩ | ⟨hkey, heq⟩
  · rw [heq]
    exact h
  · rw [heq, map_append]
    refine nodup_append.mpr ⟨h, nodup_singleton _, ?_⟩
    rintro k hk k' hk' rfl
    obtain rfl : k = key := mem_singleton.mp hk'
    exact hkey hk

/-- What is stored comes behind all that is there. -/
theorem put_eq_append_drop (ds : Definitions) (key code : String) :
    ds.put key code = ds ++ (ds.put key code).drop ds.length := by
  rcases ds.put_cases key code with ⟨-, heq⟩ | ⟨-, heq⟩
  · rw [heq, drop_length, append_nil]
  · rw [heq, drop_left]

end Definitions

variable {requests : List Request}

namespace Book

/-- How a run and its receipts belong together. -/
structure Sound (setting : Setting) (start : Run) (b : Book) : Prop where
  definitions_eq : b.run.definitions = start.definitions ++ b.receipts.flatMap (·.added)
  keys_nodup : (b.run.definitions.map (·.key)).Nodup
  /-- Diverted keys belong to helper functions. -/
  diverted : ∀ d ∈ b.run.definitions, IsDiverted d.key →
    ∃ key name, b.run.helper? key = some name ∧ d.key = divertedKey name
  taken : ∀ key name, b.run.helper? key = some name → name ∈ b.run.names.taken.map (·.2)
  apart : ∀ key key' name, b.run.helper? key = some name → b.run.helper? key' = some name → key = key'
  answered : ∀ e ∈ b.receipts, match e.request with
    | .provide key _ => e.name = b.run.helper? key ∧ e.name ≠ none
    | _ => e.name = none
  stored : ∀ key name, b.run.helper? key = some name → b.generatedFor key = 1 ∧ ∃ lines slot,
    b.firstLines? key = some lines ∧ (slot = key ∨ slot = divertedKey name) ∧
      b.addedFor name = [⟨slot, helperText setting lines name⟩]

variable {setting : Setting} {start : Run} {b : Book}

section

variable {r : Run} {e : Receipt}

theorem addedFor_append (name : String) :
    addedFor ⟨r, b.receipts ++ [e]⟩ name = b.addedFor name ++ if e.name = some name then e.added else [] := by
  unfold addedFor
  by_cases h : e.name = some name
  · simp [h]
  · simp [h]

theorem generatedFor_append (key : String) : generatedFor ⟨r, b.receipts ++ [e]⟩ key =
    b.generatedFor key + if (e.request.linesFor? key).isSome then e.generated else 0 := by
  unfold generatedFor
  by_cases h : (e.request.linesFor? key).isSome = true
  · simp [h]
  · simp [h]

theorem firstLines?_append (key : String) :
    firstLines? ⟨r, b.receipts ++ [e]⟩ key = (b.firstLines? key).or (e.request.linesFor? key) := by
  unfold firstLines?
  rw [List.findSome?_append, List.findSome?_singleton]

end

variable {key : String}

theorem Sound.helper?_of_request (h : b.Sound setting start) {e : Receipt} (he : e ∈ b.receipts)
    {lines : List String} (hrequest : e.request = .provide key lines) :
    ∃ name, e.name = some name ∧ b.run.helper? key = some name := by
  have hanswer := h.answered e he
  rw [hrequest] at hanswer
  obtain ⟨name, hname⟩ := ne_none_iff_exists'.mp hanswer.2
  exact ⟨name, hname, hanswer.1.symm.trans hname⟩

variable {name : String}

theorem Sound.request_of_name (h : b.Sound setting start) {e : Receipt} (he : e ∈ b.receipts)
    (hname : e.name = some name) : ∃ key lines, e.request = .provide key lines ∧ b.run.helper? key = some name := by
  have hanswer := h.answered e he
  rw [hname] at hanswer
  cases hrequest : e.request with
  | provide key lines =>
    rw [hrequest] at hanswer
    exact ⟨key, lines, rfl, hanswer.1.symm⟩
  | define | variableName | procedureName | freshVariable =>
    rw [hrequest] at hanswer
    cases hanswer

/-- A helper function that is not there has not been asked for. -/
theorem Sound.of_helper?_eq_none (h : b.Sound setting start) (hkey : b.run.helper? key = none) :
    b.generatedFor key = 0 ∧ b.firstLines? key = none := by
  have hnone : ∀ e ∈ b.receipts, e.request.linesFor? key = none := fun e he => by
    cases hrequest : e.request with
    | provide key' lines =>
      obtain ⟨name, -, hname⟩ := h.helper?_of_request he hrequest
      refine if_neg ?_
      rintro rfl
      cases hname.symm.trans hkey
    | define | variableName | procedureName | freshVariable => rfl
  constructor
  · unfold generatedFor
    rw [filter_eq_nil_iff.mpr fun e he => by rw [hnone e he]; exact Bool.false_ne_true]
    rfl
  · exact List.findSome?_eq_none_iff.mpr hnone

/-- A name that is not in use was never given back. -/
theorem Sound.addedFor_eq_nil (h : b.Sound setting start) (hname : name ∉ b.run.names.taken.map (·.2)) :
    b.addedFor name = [] := by
  unfold addedFor
  rw [filter_eq_nil_iff.mpr ?_, flatMap_nil]
  intro e he hgiven
  obtain ⟨key, lines, -, hhelper⟩ := h.request_of_name he (of_decide_eq_true hgiven)
  exact hname (h.taken key _ hhelper)

/-! ### One request -/

/-- A request that makes no new helper function. -/
theorem Sound.later (h : b.Sound setting start) {r : Run} {e : Receipt} (hhelpers : r.helpers = b.run.helpers)
    (htaken : b.run.names.taken ⊆ r.names.taken) (hadded : r.definitions = b.run.definitions ++ e.added)
    (hnodup : (r.definitions.map (·.key)).Nodup) (hplain : ∀ d ∈ e.added, ¬ IsDiverted d.key)
    (hgenerated : e.generated = 0) (hsilent : e.name = none ∨ e.added = [])
    (hanswer : match e.request with
      | .provide key _ => e.name = b.run.helper? key ∧ e.name ≠ none
      | _ => e.name = none) : Sound setting start ⟨r, b.receipts ++ [e]⟩ := by
  have hhelper : ∀ key, r.helper? key = b.run.helper? key := fun key => by
    unfold Run.helper?
    rw [hhelpers]
  exact {
    definitions_eq := by rw [hadded, h.definitions_eq, flatMap_append, flatMap_singleton, append_assoc]
    keys_nodup := hnodup
    diverted := by
      intro d hd hdiverted
      rw [hadded] at hd
      rcases mem_append.mp hd with hd | hd
      · simpa only [hhelper] using h.diverted d hd hdiverted
      · exact absurd hdiverted (hplain d hd)
    taken := by
      intro key name hname
      exact map_subset _ htaken (h.taken key name (hhelper key ▸ hname))
    apart := by simpa only [hhelper] using h.apart
    answered := by
      simp only [hhelper]
      exact forall_mem_append.mpr ⟨h.answered, forall_mem_singleton.mpr hanswer⟩
    stored := by
      intro key name hname
      obtain ⟨hcount, lines, slot, hlines, hslot, hstored⟩ := h.stored key name (hhelper key ▸ hname)
      have hnothing : (if e.name = some name then e.added else []) = [] := by
        rcases hsilent with h | h <;> simp [h]
      rw [generatedFor_append, firstLines?_append, addedFor_append, hcount, hlines, hstored, hgenerated, hnothing]
      exact ⟨by simp, lines, slot, rfl, hslot, append_nil _⟩ }

theorem Sound.fresh (h : b.Sound setting start) (hkey : ¬ IsDiverted key) (lines : List String)
    (hnew : b.run.helper? key = none) :
    let name := b.run.names.freeName key .procedure true
    let r := (addHelper key lines setting b.run).2
    Sound setting start ⟨r, b.receipts ++ [{
      request := .provide key lines, name := some name, generated := 1
      added := r.definitions.drop b.run.definitions.length }]⟩ := by
  intro name r
  have hfree : name ∉ b.run.names.taken.map (·.2) := b.run.names.freeName_not_mem key .procedure
  have hr : r = { b.run with
      names := b.run.names.take .procedure name
      helpers := b.run.helpers ++ [(key, name)]
      definitions := b.run.definitions.put
        (if (b.run.definitions.get? key).isSome then divertedKey name else key)
        (helperText setting lines name) } := by
    have heq := addHelper_eq setting key lines b.run
    rw [hnew] at heq
    exact congrArg Prod.snd heq
  obtain ⟨slot, hslot, hunused, hdefinitions⟩ : ∃ slot, (slot = key ∨ slot = divertedKey name) ∧
      slot ∉ b.run.definitions.map (·.key) ∧
      r.definitions = b.run.definitions ++ [⟨slot, helperText setting lines name⟩] := by
    rw [hr]
    by_cases htaken : key ∈ b.run.definitions.map (·.key)
    · rw [if_pos (isSome_get?_iff.mpr htaken)]
      refine ⟨_, .inr rfl, ?_, put_of_not_mem ?_ _⟩
      all_goals
        intro hmem
        obtain ⟨d, hd, hdkey⟩ := mem_map.mp hmem
        obtain ⟨key', name', hname', hdiverted⟩ := h.diverted d hd (hdkey ▸ isDiverted_divertedKey name)
        obtain rfl := divertedKey_inj (hdkey.symm.trans hdiverted)
        exact hfree (h.taken key' _ hname')
    · rw [if_neg fun hsome => htaken (isSome_get?_iff.mp hsome)]
      exact ⟨key, .inl rfl, htaken, put_of_not_mem htaken _⟩
  have hhelper : ∀ other, r.helper? other = if other = key then some name else b.run.helper? other := by
    rw [hr]
    exact fun other => helper?_append b.run key name other hnew
  have hkept : ∀ other given, b.run.helper? other = some given → r.helper? other = some given := by
    intro other given hgiven
    rw [hhelper, if_neg, hgiven]
    rintro rfl
    cases hnew.symm.trans hgiven
  have hadded : r.definitions.drop b.run.definitions.length = [⟨slot, helperText setting lines name⟩] := by
    rw [hdefinitions, drop_left]
  rw [hadded]
  obtain ⟨hgenerated, hlines⟩ := h.of_helper?_eq_none hnew
  exact {
    definitions_eq := by
      rw [flatMap_append, flatMap_singleton, ← append_assoc, ← h.definitions_eq, hdefinitions]
    keys_nodup := by
      rw [hdefinitions, ← put_of_not_mem hunused]
      exact nodup_put h.keys_nodup _ _
    diverted := by
      intro d hd hdiverted
      rw [hdefinitions] at hd
      rcases mem_append.mp hd with hd | hd
      · obtain ⟨key', name', hname', hdkey⟩ := h.diverted d hd hdiverted
        exact ⟨key', name', hkept key' name' hname', hdkey⟩
      · obtain rfl := mem_singleton.mp hd
        rcases hslot with rfl | rfl
        · exact absurd hdiverted hkey
        · exact ⟨key, name, by rw [hhelper, if_pos rfl], rfl⟩
    taken := by
      intro other given hgiven
      have htaken : r.names.taken.map (·.2) = b.run.names.taken.map (·.2) ++ [name] := by
        rw [hr]
        exact map_append
      rw [htaken]
      rw [hhelper] at hgiven
      split at hgiven
      · exact mem_append_right _ (mem_singleton.mpr (some.inj hgiven).symm)
      · exact mem_append_left _ (h.taken other given hgiven)
    apart := by
      intro other other' given hgiven hgiven'
      rw [hhelper] at hgiven hgiven'
      -- The new name is none of the old ones.
      have hold : ∀ k, b.run.helper? k = some given → given ≠ name := fun k hk heq => hfree (heq ▸ h.taken k given hk)
      split at hgiven
      · case isTrue hother =>
        split at hgiven'
        · case isTrue hother' => rw [hother, hother']
        · exact absurd (some.inj hgiven).symm (hold _ hgiven')
      · split at hgiven'
        · exact absurd (some.inj hgiven').symm (hold _ hgiven)
        · exact h.apart other other' given hgiven hgiven'
    answered := by
      refine forall_mem_append.mpr ⟨fun e he => ?_, forall_mem_singleton.mpr ⟨?_, some_ne_none name⟩⟩
      · cases hrequest : e.request with
        | provide key' lines' =>
          obtain ⟨name', hname', hhelper'⟩ := h.helper?_of_request he hrequest
          exact ⟨hname'.trans (hkept _ _ hhelper').symm, hname' ▸ some_ne_none name'⟩
        | define | variableName | procedureName | freshVariable => simpa only [hrequest] using h.answered e he
      · exact (hhelper key).trans (if_pos rfl) |>.symm
    stored := by
      intro other given hgiven
      rw [generatedFor_append, firstLines?_append, addedFor_append]
      rw [hhelper] at hgiven
      split at hgiven
      · case isTrue hother =>
        subst hother
        obtain rfl := some.inj hgiven
        refine ⟨by simp [Request.linesFor?, hgenerated], lines, slot, by simp [Request.linesFor?, hlines], hslot, ?_⟩
        rw [h.addedFor_eq_nil hfree, if_pos rfl, nil_append]
      · case isFalse hother =>
        obtain ⟨hgenerated', lines', slot', hlines', hslot', hadded'⟩ := h.stored other given hgiven
        have hname : name ≠ given := fun heq => hfree (heq ▸ h.taken other given hgiven)
        refine ⟨by simp [Request.linesFor?, Ne.symm hother, hgenerated'], lines', slot', by simp [hlines'], hslot', ?_⟩
        rw [hadded', if_neg fun heq => hname (some.inj heq), append_nil] }

theorem answer_provide_of_some {r : Run} (lines : List String) (h : r.helper? key = some name) :
    answer setting r (.provide key lines) = (r, some name, 0) := by
  dsimp only [answer, provide]
  rw [h]
  rfl

theorem answer_provide_of_none {r : Run} (lines : List String) (h : r.helper? key = none) :
    answer setting r (.provide key lines) =
      ((addHelper key lines setting r).2, some (r.names.freeName key .procedure true), 1) := by
  rw [addHelper_eq, h]
  dsimp only [answer, provide]
  rw [h]
  rfl

/-- **One request keeps the registry in order.** -/
theorem Sound.step (h : b.Sound setting start) {q : Request} (hq : ∀ key ∈ q.key?, ¬ IsDiverted key) :
    (b.step setting q).Sound setting start := by
  have hsame : b.run.definitions = b.run.definitions ++ b.run.definitions.drop b.run.definitions.length := by
    rw [drop_length, append_nil]
  have hnone : ∀ d ∈ b.run.definitions.drop b.run.definitions.length, ¬ IsDiverted d.key := by
    rw [drop_length]
    exact fun d hd => absurd hd not_mem_nil
  cases q with
  | define key code =>
    refine h.later rfl (List.Subset.refl _) (put_eq_append_drop _ key code) (nodup_put h.keys_nodup key code)
      (fun d hd => ?_) rfl (.inl rfl) rfl
    change d ∈ (b.run.definitions.put key code).drop _ at hd
    rcases b.run.definitions.put_cases key code with ⟨-, heq⟩ | ⟨-, heq⟩
    · rw [heq] at hd
      exact hnone d hd
    · rw [heq, drop_left] at hd
      rw [mem_singleton.mp hd]
      exact hq key rfl
  | variableName | procedureName =>
    exact h.later rfl (NameTable.taken_subset_get _ _ _) hsame h.keys_nodup hnone rfl (.inl rfl) rfl
  | freshVariable => exact h.later rfl (subset_append_left _ _) hsame h.keys_nodup hnone rfl (.inl rfl) rfl
  | provide key lines =>
    unfold Book.step
    cases hhelper : b.run.helper? key with
    | some name =>
      rw [answer_provide_of_some lines hhelper]
      exact h.later rfl (List.Subset.refl _) hsame h.keys_nodup hnone rfl (.inr drop_length)
        ⟨hhelper.symm, some_ne_none name⟩
    | none =>
      rw [answer_provide_of_none lines hhelper]
      exact h.fresh (hq key rfl) lines hhelper

/-! ### All requests -/

theorem served_append (requests : List Request) (q : Request) :
    served setting start (requests ++ [q]) = (served setting start requests).step setting q :=
  foldl_append

/-- **Any requests keep the registry in order.** -/
theorem sound_served (hhelpers : start.helpers = []) (hnodup : (start.definitions.map (·.key)).Nodup)
    (hplain : ∀ d ∈ start.definitions, ¬ IsDiverted d.key)
    (hrequests : ∀ q ∈ requests, ∀ key ∈ q.key?, ¬ IsDiverted key) :
    (served setting start requests).Sound setting start := by
  have hnone : ∀ key name, start.helper? key ≠ some name := fun key name => by
    unfold Run.helper?
    rw [hhelpers]
    exact (some_ne_none name).symm
  induction requests using List.reverseRecOn with
  | nil =>
    exact {
      definitions_eq := (append_nil _).symm
      keys_nodup := hnodup
      diverted := fun d hd hdiverted => absurd hdiverted (hplain d hd)
      taken := fun key name hname => absurd hname (hnone key name)
      apart := fun key _ name hname _ => absurd hname (hnone key name)
      answered := fun e he => absurd he not_mem_nil
      stored := fun key name hname => absurd hname (hnone key name) }
  | append_singleton requests q ih =>
    rw [served_append]
    exact (ih fun q' hq' => hrequests q' (mem_append_left _ hq')).step
      (hrequests q (mem_append_right _ (mem_singleton.mpr rfl)))

theorem map_request_served (requests : List Request) :
    (served setting start requests).receipts.map (·.request) = requests := by
  induction requests using List.reverseRecOn with
  | nil => rfl
  | append_singleton requests q ih =>
    rw [served_append]
    show ((served setting start requests).receipts ++ _).map (·.request) = _
    rw [map_append, ih]
    rfl

theorem receipts_prefix (setting : Setting) (start : Run) (before later : List Request) :
    (served setting start before).receipts <+: (served setting start (before ++ later)).receipts := by
  induction later using List.reverseRecOn with
  | nil => rw [append_nil]
  | append_singleton later q ih =>
    rw [← append_assoc, served_append]
    exact ih.trans (prefix_append _ _)

end Book

theorem Definitions.get?_of_prefix {ds' : Definitions} (h : ds <+: ds') {key code : String}
    (hget : ds.get? key = some code) : ds'.get? key = some code := by
  obtain ⟨more, rfl⟩ := h
  obtain ⟨d, hfind, rfl⟩ := map_eq_some_iff.mp hget
  unfold get?
  rw [List.find?_append, hfind]
  rfl

/-- The code under a key that something has just been stored under. -/
theorem Definitions.get?_put_self (ds : Definitions) (key code : String) :
    (ds.put key code).get? key = some ((ds.get? key).getD code) := by
  cases hget : ds.get? key with
  | some old =>
    unfold put
    rw [hget]
    exact hget
  | none =>
    unfold put
    rw [hget]
    unfold get?
    rw [List.find?_append, map_eq_none_iff.mp hget]
    simp

variable {d : Definition}

theorem Definitions.get?_of_mem (h : (ds.map (·.key)).Nodup) (hd : d ∈ ds) : ds.get? d.key = some d.code := by
  obtain ⟨before, after, rfl⟩ := append_of_mem hd
  rw [map_append, map_cons] at h
  have hbefore : before.find? (fun e => decide (e.key = d.key)) = none := by
    refine List.find?_eq_none.mpr fun e he hkey => ?_
    exact (nodup_append.mp h).2.2 e.key (mem_map_of_mem he) d.key mem_cons_self (of_decide_eq_true hkey)
  unfold get?
  rw [List.find?_append, hbefore]
  simp

theorem Book.Sound.mem_definitions {setting : Setting} {start : Run} {b : Book} (h : b.Sound setting start) {name : String}
    (hd : d ∈ b.addedFor name) : d ∈ b.run.definitions := by
  obtain ⟨e, he, hd⟩ := mem_flatMap.mp hd
  rw [h.definitions_eq]
  exact mem_append_right _ (mem_flatMap.mpr ⟨e, mem_of_mem_filter he, hd⟩)

open Book in
/-- What a registry promises about some requests. -/
structure RegistryKept (setting : Setting) (start : Run) (requests : List Request) : Prop where
  receipts : (served setting start requests).receipts.map (·.request) = requests
  keys_nodup : ((served setting start requests).run.definitions.map (·.key)).Nodup
  /-- Definitions are added behind those that are there, which stay as they are. -/
  grows : ∀ before later, requests = before ++ later →
    (served setting start before).run.definitions <+: (served setting start requests).run.definitions
  /-- The first code under a key stays. -/
  first_wins : ∀ before later key code, requests = before ++ .define key code :: later →
    (served setting start requests).run.definitions.get? key =
      some (((served setting start before).run.definitions.get? key).getD code)
  /-- Requests for helper functions are answered with names, and these are the same exactly if the keys are. -/
  same_name_iff : ∀ e ∈ (served setting start requests).receipts, ∀ e' ∈ (served setting start requests).receipts,
    ∀ key key' lines lines', e.request = .provide key lines → e'.request = .provide key' lines' →
      ∃ name name', e.name = some name ∧ e'.name = some name' ∧ (name = name' ↔ key = key')
  /-- Lines are generated at most once for a key. -/
  generated_once : ∀ key, (served setting start requests).generatedFor key ≤ 1
  /-- A name that was given back belongs to exactly one definition: one that the requests that gave it back have added.
  Its code is made from the lines of the first request. -/
  stored : ∀ e ∈ (served setting start requests).receipts, ∀ name, e.name = some name →
    ∃ key lines slot, e.request.linesFor? key ≠ none ∧ (served setting start requests).firstLines? key = some lines ∧
      (slot = key ∨ slot = divertedKey name) ∧
      (served setting start requests).addedFor name = [⟨slot, helperText setting lines name⟩] ∧
      (served setting start requests).run.definitions.get? slot = some (helperText setting lines name)

theorem Book.Sound.registryKept {setting : Setting} {start : Run}
    (hsound : ∀ before later, requests = before ++ later → (Book.served setting start before).Sound setting start) :
    RegistryKept setting start requests := by
  have hall := hsound requests [] (append_nil _).symm
  have hgrows : ∀ before later, requests = before ++ later →
      (Book.served setting start before).run.definitions <+: (Book.served setting start requests).run.definitions := by
    rintro before later rfl
    rw [(hsound before later rfl).definitions_eq, hall.definitions_eq]
    obtain ⟨more, hmore⟩ := Book.receipts_prefix setting start before later
    rw [← hmore, flatMap_append, ← append_assoc]
    exact prefix_append _ _
  refine ⟨Book.map_request_served requests, hall.keys_nodup, hgrows, ?_, ?_, ?_, ?_⟩
  · rintro before later key code hrequests
    have hnext := hgrows (before ++ [.define key code]) later (by rw [hrequests, append_assoc]; rfl)
    rw [Book.served_append] at hnext
    exact get?_of_prefix hnext (get?_put_self _ key code)
  · rintro e he e' he' key key' lines lines' hrequest hrequest'
    obtain ⟨name, hname, hhelper⟩ := hall.helper?_of_request he hrequest
    obtain ⟨name', hname', hhelper'⟩ := hall.helper?_of_request he' hrequest'
    refine ⟨name, name', hname, hname', ?_, ?_⟩
    · rintro rfl
      exact hall.apart key key' name hhelper hhelper'
    · rintro rfl
      exact some.inj (hhelper.symm.trans hhelper')
  · intro key
    cases hhelper : (Book.served setting start requests).run.helper? key with
    | none => exact (hall.of_helper?_eq_none hhelper).1.le.trans (Nat.zero_le 1)
    | some name => exact (hall.stored key name hhelper).1.le
  · intro e he name hname
    obtain ⟨key, lines, hrequest, hhelper⟩ := hall.request_of_name he hname
    obtain ⟨-, first, slot, hfirst, hslot, hadded⟩ := hall.stored key name hhelper
    refine ⟨key, first, slot, by simp [hrequest, Request.linesFor?], hfirst, hslot, hadded, ?_⟩
    have hmem : (⟨slot, helperText setting first name⟩ : Definition) ∈
        (Book.served setting start requests).run.definitions :=
      hall.mem_definitions (hadded ▸ mem_singleton_self _)
    exact get?_of_mem hall.keys_nodup hmem

namespace Generator

/-- **The registry of definitions is kept.**  Whatever a run is asked for, definitions are only
added and the first code under a key stays.  A helper function has one name, different from those of
all others, its lines are generated once, and its definition is stored exactly once, also if its key
was taken before. -/
theorem registry_kept (g : Generator) (w : Workspace) (requests : List Request)
    (hkeys : ∀ q ∈ requests, ∀ key ∈ q.key?, ¬ Emit.IsDiverted key) :
    RegistryKept g.setting (g.start w) requests := by
  have hstart : ∀ d ∈ (g.start w).definitions, d.key = "variables" := by
    intro d hd
    rw [start_definitions] at hd
    split at hd
    · exact absurd hd not_mem_nil
    · rw [mem_singleton.mp hd]
  apply Book.Sound.registryKept
  rintro before later rfl
  refine Book.sound_served rfl ?_ (fun d hd => ?_) fun q hq => hkeys q (mem_append_left later hq)
  · rw [start_definitions]
    split
    · exact nodup_nil
    · exact nodup_singleton _
  · rw [hstart d hd]
    decide

/-- Here the key of the helper function is taken, so that it is stored under another one; the second
request for it changes nothing. -/
theorem registry_kept_taken :
    let g : Generator := {}
    let requests : List Request :=
      [.variableName "swap", .define "swap" "// taken", .provide "swap" [placeholder ++ "() ;"],
        .define "swap" "// late", .provide "swap" []]
    (∀ q ∈ requests, ∀ key ∈ q.key?, ¬ IsDiverted key) ∧ RegistryKept g.setting (g.start {}) requests ∧
      (Book.served g.setting (g.start {}) requests).run.definitions =
        [⟨"swap", "// taken"⟩, ⟨"helper:swap2", "swap2() ;"⟩] := by
  have hkeys : ∀ q ∈ ([.variableName "swap", .define "swap" "// taken", .provide "swap" [placeholder ++ "() ;"],
      .define "swap" "// late", .provide "swap" []] : List Request), ∀ key ∈ q.key?, ¬ IsDiverted key := by
    decide
  exact ⟨hkeys, registry_kept {} {} _ hkeys, by decide +kernel⟩

end Generator

end BlockProgram
