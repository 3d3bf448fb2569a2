import BlockProgram.Proofs.Service.Transparency
import BlockProgram.Web.Site
import Mathlib

/-! # Stored workspaces

Workspaces are stored and deleted in any order (`StoreCall`, `Archive.run`).  A document that was
found to load when it was stored is generated from later on.  The two are linked by the row that the
store holds for it: the workspace with its format spelled out and an identifier (`rowFor`).  A row
is found until it is deleted (`Archive.find?_run`), and every row is that of a call which stored it
(`Archive.lives_of_mem`).

Generating for a row is generating for what was handed in (`generate_storedOrder`): only the name of
the format may differ, and no format means JSON.
-/
namespace BlockProgram.Service

open List Fingerprint

/-! ### Calls -/

inductive StoreCall where
  /-- Stores a workspace.  The store may fail meanwhile. -/
  | create (fails : Bool) (ids : Ids) (w : SavedWorkspace)
  | delete (id : String)

/-- The stored workspaces, and all identifiers under which some were ever stored. -/
structure Archive where
  store : Store := {}
  given : List String := []

namespace Archive

def after (a : Archive) : StoreCall → Archive
  | .create fails ids w =>
    match (createStored a.store fails ids w).1 with
    | .ok (created, store) => { store := store, given := a.given ++ [created.id] }
    | .error _ => a
  | .delete id =>
    match a.store.delete id with
    | .ok store => { a with store := store }
    | .error _ => a

def run (calls : List StoreCall) : Archive := calls.foldl after {}

theorem run_append (calls more : List StoreCall) : run (calls ++ more) = more.foldl after (run calls) :=
  foldl_append

end Archive

/-- The calls have stored the workspace under an identifier and have not deleted it since. -/
def Lives (calls : List StoreCall) (id : String) (w : SavedWorkspace) : Prop :=
  ∃ before fails ids later created store, calls = before ++ .create fails ids w :: later ∧
    (createStored (Archive.run before).store fails ids w).1 = .ok (created, store) ∧ created.id = id ∧
    .delete id ∉ later

/-! ### What is stored -/

def rowFor (w : SavedWorkspace) (id : String) : SavedWorkspace := { withFormat w with id := id }

theorem content_rowFor (w : SavedWorkspace) (id : String) : (rowFor w id).content = w.content := by
  unfold rowFor withFormat SavedWorkspace.content Fingerprint.format
  by_cases hempty : w.format = ""
  · rw [if_pos hempty, hempty]
    rfl
  · rw [if_neg hempty]

theorem store_create_eq (store : Store) (ids : Ids) (w : SavedWorkspace) :
    ∃ id, (store.create false ids w).1 = .ok ({ w with id := id }, ⟨store.rows ++ [{ w with id := id }]⟩) := by
  unfold Store.create
  by_cases hid : (w.id = "" || w.id = Text.Uuid.zero) = true
  · rw [if_pos hid]
    exact ⟨ids.draw.1, rfl⟩
  · rw [if_neg hid]
    exact ⟨w.id, rfl⟩

variable {ids : Ids} {store : Store} {w : SavedWorkspace} {fails : Bool} {created : SavedWorkspace}

/-- A workspace is stored only if its document loads, and then a row is added for it. -/
theorem createStored_eq_ok {store' : Store} (h : (createStored store fails ids w).1 = .ok (created, store')) :
    (∃ loaded, (loadChecked w.format (Digest.bytesOf w.content) w.name ids).1 = .ok loaded) ∧
      created = rowFor w created.id ∧ store' = ⟨store.rows ++ [created]⟩ := by
  have hload : loadChecked (withFormat w).format (Digest.bytesOf (withFormat w).content) (withFormat w).name ids =
      loadChecked w.format (Digest.bytesOf w.content) w.name ids := by
    rw [show (withFormat w).content = w.content from content_rowFor w w.id]
    unfold loadChecked withFormat
    rw [load_format]
  unfold createStored at h
  dsimp only at h
  rw [hload] at h
  split at h
  · cases h
  · case h_2 loaded ids' hloaded =>
    split at h
    · cases h
    · obtain ⟨id, hcreate⟩ := store_create_eq store ids' (withFormat w)
      generalize store.create false ids' (withFormat w) = out at h hcreate
      obtain ⟨outcome, ids''⟩ := out
      obtain rfl : outcome = _ := hcreate
      obtain ⟨rfl, rfl⟩ := Prod.mk.inj (Except.ok.inj h)
      exact ⟨⟨loaded, by rw [hloaded]⟩, rfl, rfl⟩

variable {label : String}

/-- Loading does not depend on what the document is called in messages. -/
theorem loadChecked_label {format : String} {document : List UInt8} {w : Workspace}
    (h : (loadChecked format document label ids).1 = .ok w) (label' : String) :
    (loadChecked format document label' ids).1 = .ok w := by
  have hload : ∀ w, (Workspace.load format document label ids).1 = .ok w →
      (Workspace.load format document label' ids).1 = .ok w := by
    intro w hw
    grind [Workspace.load]
  cases hfirst : Workspace.load format document label ids with
  | mk outcome rest =>
    cases hsecond : Workspace.load format document label' ids with
    | mk outcome' rest' =>
      unfold loadChecked at h ⊢
      rw [hfirst] at h
      rw [hsecond]
      cases outcome with
      | error e => cases h
      | ok loaded =>
        obtain rfl : outcome' = .ok loaded := by
          rw [← hload loaded (by rw [hfirst]), hsecond]
        exact h

namespace Archive

/-! ### One call -/

variable {a : Archive} {w : SavedWorkspace}

theorem after_create {store : Store} (h : (createStored a.store fails ids w).1 = .ok (created, store)) :
    a.after (.create fails ids w) = { store := ⟨a.store.rows ++ [created]⟩, given := a.given ++ [created.id] } := by
  unfold after
  dsimp only
  rw [h, (createStored_eq_ok h).2.2]

theorem after_create_of_error {r : StoredRefusal}
    (h : (createStored a.store fails ids w).1 = .error r) : a.after (.create fails ids w) = a := by
  unfold after
  dsimp only
  rw [h]

theorem after_delete (a : Archive) (id : String) :
    a.after (.delete id) = { a with store := ⟨a.store.rows.filter (·.id ≠ id)⟩ } := by
  unfold after Store.delete
  dsimp only
  by_cases hany : a.store.rows.any (·.id = id) = true
  · rw [if_pos hany]
  · rw [if_neg hany]
    have hall : a.store.rows.filter (·.id ≠ id) = a.store.rows := filter_eq_self.mpr fun row hrow => by
      by_contra hid
      exact hany (any_eq_true.mpr ⟨row, hrow, by simpa using hid⟩)
    rw [hall]

theorem after_cases (a : Archive) (call : StoreCall) : (∃ fails ids w created store, call = .create fails ids w ∧
      (createStored a.store fails ids w).1 = .ok (created, store) ∧
      a.after call = { store := ⟨a.store.rows ++ [created]⟩, given := a.given ++ [created.id] }) ∨
    (∃ fails ids w r, call = .create fails ids w ∧ (createStored a.store fails ids w).1 = .error r ∧ a.after call = a) ∨
    ∃ id, call = .delete id ∧ a.after call = { a with store := ⟨a.store.rows.filter (·.id ≠ id)⟩ } := by
  cases call with
  | create fails ids w =>
    cases h : (createStored a.store fails ids w).1 with
    | ok out => exact .inl ⟨fails, ids, w, out.1, out.2, rfl, h, after_create h⟩
    | error r => exact .inr (.inl ⟨fails, ids, w, r, rfl, h, after_create_of_error h⟩)
  | delete id => exact .inr (.inr ⟨id, rfl, a.after_delete id⟩)

variable {row : SavedWorkspace} {id : String}

/-- A row is found until it is deleted. -/
theorem find?_after {call : StoreCall} (hrow : a.store.rows.find? (·.id = id) = some row) (hcall : call ≠ .delete id) :
    (a.after call).store.rows.find? (·.id = id) = some row := by
  rcases a.after_cases call with ⟨_, _, _, created, _, -, -, heq⟩ | ⟨_, _, _, _, -, -, heq⟩ | ⟨id', rfl, heq⟩
  · rw [heq, List.find?_append, hrow]
    rfl
  · rw [heq]
    exact hrow
  · have hid : id ≠ id' := fun hid => hcall (hid ▸ rfl)
    rw [heq]
    show (a.store.rows.filter (·.id ≠ id')).find? (·.id = id) = some row
    rw [List.find?_filter, ← hrow]
    congr 1
    funext w
    by_cases hw : w.id = id <;> simp [hw, hid]

/-! ### All calls -/

variable {calls : List StoreCall}

theorem find?_run (hrow : a.store.rows.find? (·.id = id) = some row) (hcalls : .delete id ∉ calls) :
    (calls.foldl after a).store.rows.find? (·.id = id) = some row := by
  induction calls generalizing a with
  | nil => exact hrow
  | cons call calls ih =>
    refine ih (find?_after hrow ?_) fun hmem => hcalls (mem_cons_of_mem _ hmem)
    rintro rfl
    exact hcalls mem_cons_self

theorem given_prefix_after (a : Archive) (call : StoreCall) : a.given <+: (a.after call).given := by
  rcases a.after_cases call with ⟨_, _, _, created, _, -, -, heq⟩ | ⟨_, _, _, _, -, -, heq⟩ | ⟨id', -, heq⟩ <;> rw [heq]
  exact prefix_append _ _

theorem given_prefix_foldl (a : Archive) (calls : List StoreCall) : a.given <+: (calls.foldl after a).given := by
  induction calls generalizing a with
  | nil => exact prefix_refl _
  | cons call calls ih => exact (a.given_prefix_after call).trans (ih _)

theorem id_mem_given : ∀ row ∈ (run calls).store.rows, row.id ∈ (run calls).given := by
  induction calls using List.reverseRecOn with
  | nil => exact fun row hrow => absurd hrow not_mem_nil
  | append_singleton calls call ih =>
    rw [run_append]
    show ∀ row ∈ ((run calls).after call).store.rows, row.id ∈ ((run calls).after call).given
    intro row hrow
    rcases (run calls).after_cases call with ⟨_, _, _, created, _, -, -, heq⟩ | ⟨_, _, _, _, -, -, heq⟩ | ⟨id', -, heq⟩
    all_goals rw [heq] at hrow ⊢
    · rcases mem_append.mp hrow with hrow | hrow
      · exact mem_append_left _ (ih row hrow)
      · rw [mem_singleton.mp hrow]
        exact mem_append_right _ (mem_singleton_self _)
    · exact ih row hrow
    · exact ih row (mem_of_mem_filter hrow)

/-- What was stored and not deleted since is found. -/
theorem find?_of_lives (hfresh : (run calls).given.Nodup)
    (h : Lives calls id w) : (run calls).store.rows.find? (·.id = id) = some (rowFor w id) := by
  obtain ⟨before, fails, ids, later, created, store, rfl, hcreated, rfl, hlater⟩ := h
  have hafter := after_create hcreated
  rw [run_append, foldl_cons, hafter] at hfresh ⊢
  refine find?_run ?_ hlater
  -- No row before has this identifier, which is given only once.
  have hnew : created.id ∉ (run before).given := by
    have hnodup := hfresh.sublist (given_prefix_foldl _ later).sublist
    exact fun hmem => (nodup_append.mp hnodup).2.2 _ hmem _ (mem_singleton_self _) rfl
  have hnone : (run before).store.rows.find? (·.id = created.id) = none :=
    List.find?_eq_none.mpr fun row hrow hid => hnew (of_decide_eq_true hid ▸ id_mem_given row hrow)
  show ((run before).store.rows ++ [created]).find? (·.id = created.id) = _
  rw [List.find?_append, hnone, ← (createStored_eq_ok hcreated).2.1]
  simp

/-- Every row is that of a workspace that was stored and not deleted since. -/
theorem lives_of_mem (h : row ∈ (run calls).store.rows) : ∃ w, Lives calls row.id w := by
  induction calls using List.reverseRecOn with
  | nil => exact absurd h not_mem_nil
  | append_singleton calls call ih =>
    rw [run_append] at h
    have h : row ∈ ((run calls).after call).store.rows := h
    have hkept : row ∈ (run calls).store.rows → call ≠ .delete row.id → ∃ w, Lives (calls ++ [call]) row.id w := by
      intro hrow hcall
      obtain ⟨w, before, fails, ids, later, created, store, rfl, hcreated, hid, hlater⟩ := ih hrow
      refine ⟨w, before, fails, ids, later ++ [call], created, store, ?_, hcreated, hid, fun hmem => ?_⟩
      · rw [append_assoc, cons_append]
      · rcases mem_append.mp hmem with hmem | hmem
        · exact hlater hmem
        · exact hcall (mem_singleton.mp hmem).symm
    rcases (run calls).after_cases call with ⟨fails, ids, w, created, store, rfl, hcreated, heq⟩ |
      ⟨_, _, _, _, rfl, -, heq⟩ | ⟨id', rfl, heq⟩
    all_goals rw [heq] at h
    · rcases mem_append.mp h with h | h
      · exact hkept h StoreCall.noConfusion
      · rw [mem_singleton.mp h]
        exact ⟨w, calls, fails, ids, [], created, store, rfl, hcreated, rfl, not_mem_nil⟩
    · exact hkept h StoreCall.noConfusion
    · obtain ⟨hmem, hid⟩ := mem_filter.mp h
      refine hkept hmem fun heq => ?_
      obtain rfl := StoreCall.delete.inj heq
      exact of_decide_eq_true hid rfl

end Archive

/-! ### Generating for a row -/

variable {s : Service}

theorem format_format (given : String) : format (format given) = format given := by
  unfold Fingerprint.format
  split <;> rfl

theorem readBack_rowFor (w : SavedWorkspace) (id : String) :
    (Store.readBack (rowFor w id)).format = format w.format ∧
      (Store.readBack (rowFor w id)).content = w.content := by
  rw [← content_rowFor w id]
  unfold Store.readBack
  split
  · case isTrue hempty =>
    refine ⟨rfl, ?_⟩
    unfold SavedWorkspace.content
    rw [hempty]
    rfl
  · exact ⟨rfl, rfl⟩

variable {overrides : String}

/-- What is answered to an order for a stored workspace is what is answered for the workspace that
was handed in. -/
theorem generate_storedOrder (hids : s.IgnoresIds (storedOrder w overrides))
    (id : String) (c : Conditions) (b : Backends) (ids ids' : Ids) :
    (s.generate c b ids (storedOrder (Store.readBack (rowFor w id)) overrides)).1 =
      (s.generate c b ids' (storedOrder w overrides)).1 := by
  obtain ⟨hformat, hcontent⟩ := readBack_rowFor w id
  generalize Store.readBack (rowFor w id) = row at hformat hcontent
  have hmeant : format row.format = format w.format := by rw [hformat, format_format]
  have hdocument : Digest.bytesOf row.content = Digest.bytesOf w.content := by rw [hcontent]
  have hoptions : s.optionsFor (storedOrder row overrides) = s.optionsFor (storedOrder w overrides) := rfl
  have hdigest : ∀ options, ofRequest row.format options (Digest.bytesOf row.content) =
      ofRequest w.format options (Digest.bytesOf w.content) := fun options => by
    unfold ofRequest preimage
    rw [hmeant, hdocument]
  unfold generate
  rw [hoptions]
  cases hgranted : s.optionsFor (storedOrder w overrides) with
  | error r => rfl
  | ok options =>
    dsimp only [storedOrder]
    rw [hdigest]
    cases b.lookup c (cacheKey (ofRequest w.format options (Digest.bytesOf w.content))) with
    | some r => rfl
    | none =>
      have hproduce : (s.produce options (storedOrder row overrides) ids).1 =
          (s.produce options (storedOrder w overrides) ids').1 := by
        exact (congrArg Prod.fst (produce_congr hmeant hdocument ids)).trans (hids options ids ids' hgranted)
      unfold storedOrder at hproduce
      generalize s.produce options _ ids = made at hproduce ⊢
      generalize s.produce options _ ids' = made' at hproduce ⊢
      obtain ⟨outcome, rest⟩ := made
      obtain ⟨outcome', rest'⟩ := made'
      obtain rfl : outcome = outcome' := hproduce
      cases outcome with
      | error | ok => rfl

variable {loaded : Workspace}

/-- What is produced is generated from the document, if it loads. -/
theorem produce_of_loads {options : Options} {order : Order}
    (h : (loadChecked order.format order.document "request" ids).1 = .ok loaded) :
    (s.produce options order ids).1 = ((s.generator options).generate loaded).mapError .failure := by
  unfold produce
  generalize loadChecked order.format order.document "request" ids = out at h ⊢
  obtain ⟨outcome, rest⟩ := out
  obtain rfl : outcome = .ok loaded := h
  dsimp only
  cases (s.generator options).generate loaded with
  | error | ok => rfl

/-- An order for a document that loads is not refused for its document. -/
theorem optionsFor_of_isInvalidDocument (hids : s.IgnoresIds (storedOrder w overrides)) {ids₀ : Ids}
    (hloads : (loadChecked w.format (Digest.bytesOf w.content) label ids₀).1 = .ok loaded)
    {c : Conditions} {b : Backends} {r : Refusal}
    (hrefused : (s.generate c b ids (storedOrder w overrides)).1 = .error r) (hinvalid : r.isInvalidDocument = true) :
    s.optionsFor (storedOrder w overrides) = .error r := by
  have hanswer : s.answer b ⟨storedOrder w overrides, c, ids⟩ = .error r := hrefused
  rcases s.generate_cases b ⟨storedOrder w overrides, c, ids⟩ with ⟨r', hoptions, hrefused', -⟩ |
    ⟨options, digest, hoptions, -, ⟨_, -, hdelivered, -⟩ | ⟨-, ⟨r', hproduce, hrefused', -⟩ | ⟨_, -, hdelivered, -⟩⟩⟩
  · rw [← Except.error.inj (hrefused'.symm.trans hanswer)]
    exact hoptions
  · cases hdelivered.symm.trans hanswer
  · -- With the identifiers that it was stored with, the document loads.
    obtain rfl := Except.error.inj (hrefused'.symm.trans hanswer)
    have hfails : (s.produce options (storedOrder w overrides) ids₀).1 = .error r' := by
      rw [← hids options ids ids₀ hoptions]
      exact hproduce
    rw [produce_of_loads (loadChecked_label hloads "request")] at hfails
    cases hgenerated : (s.generator options).generate loaded with
    | error f =>
      rw [hgenerated] at hfails
      obtain rfl := Except.error.inj hfails
      cases hinvalid
    | ok result =>
      rw [hgenerated] at hfails
      cases hfails
  · cases hdelivered.symm.trans hanswer

variable {id : String}

theorem generateSaved_of_find {row : SavedWorkspace}
    (h : store.rows.find? (·.id = id) = some row) (c : Conditions) (b : Backends) (ids : Ids) :
    (s.generateSaved c b ids store id overrides).1 =
      (s.generate c b ids (storedOrder (Store.readBack row) overrides)).1.mapError .refused := by
  have hfind : store.find id = .ok (Store.readBack row) := by
    unfold Store.find
    rw [h]
  unfold generateSaved
  rw [hfind]
  dsimp only
  generalize s.generate c b ids (storedOrder (Store.readBack row) overrides) = out
  obtain ⟨outcome, b', ids'⟩ := out
  cases outcome with
  | error | ok => rfl

theorem generateSaved_of_none (h : ∀ row ∈ store.rows, row.id ≠ id) (c : Conditions)
    (b : Backends) (ids : Ids) (overrides : String) :
    (s.generateSaved c b ids store id overrides).1 = .error (.store .notFound) := by
  have hfind : store.rows.find? (·.id = id) = none :=
    List.find?_eq_none.mpr fun row hrow hid => h row hrow (of_decide_eq_true hid)
  unfold generateSaved Store.find
  rw [hfind]

/-- A request that stores nothing leaves the stored workspaces as they are. -/
theorem store_answerCreate {site : Web.Site} {body : String} (h : (site.answerCreate body).1.status ≠ 201) :
    (site.answerCreate body).2.store = site.store := by
  unfold Web.Site.answerCreate at h ⊢
  split
  · rfl
  · case h_2 r hread =>
    rw [hread] at h
    split
    · case isTrue hbroken =>
      dsimp only at h
      rw [if_pos hbroken] at h
      split
      · case h_1 hcreated =>
        rw [hcreated] at h
        exact absurd rfl h
      · rfl
    · rfl

/-- **Stored workspaces stay generatable.**  Let workspaces be stored and deleted in any order, no
identifier being given twice.

* A call that stores nothing, since the document does not load or the store fails, changes nothing;
  nor does such a request.
* Generating for an identifier under which a workspace was stored, and not deleted since, gives what
  generating for that workspace gives, with any overrides and in any state of the backends, as long
  as results do not depend on identifiers that are drawn.  It is not refused for its document or its
  options, unless the options are refused.
* For all other identifiers there is no workspace. -/
theorem stored_generatable (s : Service) (calls : List StoreCall) (hfresh : (Archive.run calls).given.Nodup) :
    (∀ before fails ids w later r, calls = before ++ .create fails ids w :: later →
      (createStored (Archive.run before).store fails ids w).1 = .error r →
        (Archive.run (before ++ [.create fails ids w])).store = (Archive.run before).store) ∧
    (∀ (site : Web.Site) body, (site.answerCreate body).1.status ≠ 201 → (site.answerCreate body).2.store = site.store) ∧
    (∀ id w, Lives calls id w → ∀ overrides, s.IgnoresIds (storedOrder w overrides) → ∀ c b ids ids',
      (s.generateSaved c b ids (Archive.run calls).store id overrides).1 =
          (s.generate c b ids' (storedOrder w overrides)).1.mapError .refused ∧
        ∀ r, (s.generateSaved c b ids (Archive.run calls).store id overrides).1 = .error (.refused r) →
          r.isInvalidDocument = true → s.optionsFor (storedOrder w overrides) = .error r) ∧
    ∀ id, (∀ w, ¬ Lives calls id w) → ∀ c b ids overrides,
      (s.generateSaved c b ids (Archive.run calls).store id overrides).1 = .error (.store .notFound) := by
  refine ⟨?_, ?_, ?_, ?_⟩
  · rintro before fails ids w later r - hfailed
    rw [Archive.run_append]
    exact congrArg Archive.store (Archive.after_create_of_error hfailed)
  · exact fun site body => store_answerCreate
  · intro id w hlives overrides hids c b ids ids'
    have hsaved : (s.generateSaved c b ids (Archive.run calls).store id overrides).1 =
        (s.generate c b ids' (storedOrder w overrides)).1.mapError .refused := by
      rw [generateSaved_of_find (Archive.find?_of_lives hfresh hlives), generate_storedOrder hids id c b ids ids']
    refine ⟨hsaved, fun r hrefused hinvalid => ?_⟩
    obtain ⟨_, _, _, _, _, _, -, hcreated, -⟩ := hlives
    obtain ⟨loaded, hloads⟩ := (createStored_eq_ok hcreated).1
    rw [hsaved] at hrefused
    cases hanswer : (s.generate c b ids' (storedOrder w overrides)).1 with
    | ok d =>
      rw [hanswer] at hrefused
      cases hrefused
    | error r' =>
      rw [hanswer] at hrefused
      obtain rfl := StoredRefusal.refused.inj (Except.error.inj hrefused)
      exact optionsFor_of_isInvalidDocument hids hloads hanswer hinvalid
  · intro id hgone c b ids overrides
    refine generateSaved_of_none (fun row hrow hid => ?_) c b ids overrides
    obtain ⟨w, hlives⟩ := Archive.lives_of_mem hrow
    exact hgone w (hid ▸ hlives)

def emptySaved (name : String) : SavedWorkspace := { name := name, document := ⟨some "\x7b\x7d"⟩ }

def oneBlock : SavedWorkspace where
  name := "first"
  document := ⟨some "\x7b\"blocks\":\x7b\"blocks\":[\x7b\"type\":\"text\",\"id\":\"a\"\x7d]\x7d\x7d"⟩

/-- Two workspaces are stored, and one that does not load is not; then the first one is deleted. -/
def storedTwice : List StoreCall :=
  [.create false {} oneBlock, .create false {} { name := "broken" }, .create false ⟨1⟩ (emptySaved "second"),
    .delete (Ids.nth 1)]

theorem ignoresIds_emptySaved (name overrides : String) : s.IgnoresIds (storedOrder (emptySaved name) overrides) := by
  intro options ids ids' _
  have hload : ∀ ids, (loadChecked "" (Digest.bytesOf "\x7b\x7d") "request" ids).1 = .ok {} := by
    intro ids
    cbv
  rw [produce_of_loads (hload ids), produce_of_loads (hload ids')]

theorem stored_generatable_storedTwice :
    (Archive.run storedTwice).given.Nodup ∧ Lives storedTwice (Ids.nth 2) (emptySaved "second") ∧
      Service.IgnoresIds {} (storedOrder (emptySaved "second") "null") ∧
      (∀ c b ids ids', (Service.generateSaved {} c b ids (Archive.run storedTwice).store (Ids.nth 2) "null").1 =
        (Service.generate {} c b ids' (storedOrder (emptySaved "second") "null")).1.mapError .refused) ∧
      ∀ c b ids, (Service.generateSaved {} c b ids (Archive.run storedTwice).store (Ids.nth 1) "null").1 =
        .error (.store .notFound) := by
  have hfresh : (Archive.run storedTwice).given.Nodup := by decide +kernel
  have hlives : Lives storedTwice (Ids.nth 2) (emptySaved "second") := by
    have hstored : (createStored (Archive.run [.create false {} oneBlock,
        .create false {} { name := "broken" }]).store false ⟨1⟩ (emptySaved "second")).1.toOption.map (·.1.id) =
          some (Ids.nth 2) := by decide +kernel
    have hother : StoreCall.delete (Ids.nth 2) ∉ [.delete (Ids.nth 1)] := by
      intro hmem
      exact absurd (StoreCall.delete.inj (mem_singleton.mp hmem)) (by decide +kernel)
    cases hcreated : (createStored (Archive.run [.create false {} oneBlock,
        .create false {} { name := "broken" }]).store false ⟨1⟩ (emptySaved "second")).1 with
    | error r =>
      rw [hcreated] at hstored
      cases hstored
    | ok out =>
      rw [hcreated] at hstored
      exact ⟨_, _, _, _, out.1, out.2, rfl, hcreated, Option.some.inj hstored, hother⟩
  have hids : Service.IgnoresIds {} (storedOrder (emptySaved "second") "null") := ignoresIds_emptySaved _ _
  obtain ⟨-, -, hlive, hgone⟩ := stored_generatable {} storedTwice hfresh
  refine ⟨hfresh, hlives, hids, fun c b ids ids' => (hlive _ _ hlives "null" hids c b ids ids').1, fun c b ids => ?_⟩
  refine hgone _ (fun w hw => ?_) c b ids "null"
  -- The last call deletes it, so that it stands behind every call that may have stored it.
  obtain ⟨before, fails, ids, later, created, store, hcalls, -, -, hlater⟩ := hw
  rcases eq_nil_or_concat later with rfl | ⟨init, last, rfl⟩
  · have hlast := congrArg List.getLast? hcalls
    rw [List.getLast?_append] at hlast
    cases hlast
  · have hlast := congrArg List.getLast? hcalls
    rw [concat_eq_append, List.getLast?_append, ← cons_append, List.getLast?_append] at hlast
    obtain rfl : StoreCall.delete (Ids.nth 1) = last := Option.some.inj hlast
    exact hlater (by simp)

end BlockProgram.Service
