import BlockProgram.Hcl.Value
import BlockProgram.Proofs.Block.Mutation
import BlockProgram.Proofs.Number.Wide

/-! # Extra state in configuration documents

A configuration document gives the extra state of a block as a value of its own language, which is
written as JSON and read again.  On the way members are sorted by name and numbers are spelled anew.
A value that `Tells` an extra state nevertheless makes the same mutation (`exists_read`), if no two
names in the extra state differ in case only.
-/
namespace BlockProgram

open Json Mutation

namespace Number

theorem fitsInteger_of_readInteger? {cs : List Char} {i : Int} (h : readInteger? cs = some i) :
    fitsInteger i = true := by
  simp only [readInteger?, Option.ite_none_right_eq_some] at h
  obtain ⟨-, hfits, hi⟩ := h
  rwa [Option.some.inj hi] at hfits

/-- A number in place of a spelling, as far as integers of 64 bits go: it is one exactly if the
spelling is that of one. -/
def Wide.Tells (x : Wide) (spelling : String) : Prop :=
  x.IsSpelled ∧
    ∀ i : Int, fitsInteger i = true → (x.value.toRat = i ↔ readInteger? spelling.toList = some i)

theorem Wide.Tells.readInteger?_text {x : Wide} {spelling : String} (h : x.Tells spelling) :
    readInteger? x.text.toList = readInteger? spelling.toList := by
  refine Option.ext fun i => ?_
  rw [Wide.readInteger?_text h.1]
  constructor
  · rintro ⟨hi, hfits⟩
    exact (h.2 i hfits).mp hi
  · intro hi
    have hfits := fitsInteger_of_readInteger? hi
    exact ⟨(h.2 i hfits).mpr hi, hfits⟩

end Number

/-- No two names of an object differ in case only, nor do those of an object in one of its lists. -/
def Json.Apart : Json → Prop
  | .object members => (object members).KeysApart ∧
      ∀ m ∈ members, ∀ items source, m.2 = .array items source → ∀ v ∈ items, v.KeysApart
  | _ => True

namespace Hcl.Value

mutual

def asJson : Value → Json
  | unknown _ => .null
  | null _ => .null
  | bool b => .bool b
  | number x => .number x.text
  | string s => .string s
  | tuple vs => .array (itemsAsJson vs) ""
  | list _ vs => .array (itemsAsJson vs) ""
  | object ms => .object (membersAsJson ms)
  | map _ ms => .object (membersAsJson ms)

def itemsAsJson : List Value → List Json
  | [] => []
  | v :: vs => v.asJson :: itemsAsJson vs

def membersAsJson : List (String × Value) → List (String × Json)
  | [] => []
  | (k, v) :: ms => (k, v.asJson) :: membersAsJson ms

end

mutual

/-- A value says what a JSON value says. The members of objects may be in any order. -/
def Tells : Value → Json → Prop
  | null _, .null => True
  | bool b, .bool b' => b = b'
  | number x, .number spelling => x.Tells spelling
  | string s, .string s' => s = s'
  | tuple vs, .array items _ => ItemsTell vs items
  | list _ vs, .array items _ => ItemsTell vs items
  | object ms, .object members => ∃ ordered, ordered.Perm members ∧ MembersTell ms ordered
  | map _ ms, .object members => ∃ ordered, ordered.Perm members ∧ MembersTell ms ordered
  | _, _ => False

def ItemsTell : List Value → List Json → Prop
  | [], [] => True
  | v :: vs, w :: ws => v.Tells w ∧ ItemsTell vs ws
  | _, _ => False

def MembersTell : List (String × Value) → List (String × Json) → Prop
  | [], [] => True
  | (k, v) :: ms, (k', w) :: ws => k = k' ∧ v.Tells w ∧ MembersTell ms ws
  | _, _ => False

end

/-! ### Writing -/

variable {members : List (String × Json)}

theorem depthMembers_le {n : Nat} : depthMembers members ≤ n ↔ ∀ m ∈ members, m.2.depth ≤ n := by
  induction members with
  | nil => simp [depthMembers]
  | cons m ms ih => simp [depthMembers, ih]

theorem depthMembers_perm {members' : List (String × Json)} (h : members.Perm members') :
    depthMembers members ≤ depthMembers members' :=
  depthMembers_le.mpr fun m hm => depthMembers_le.mp (Nat.le_refl _) m (h.mem_iff.mp hm)

/-- What is written of a value is a JSON text for it, and nests no deeper than what the value
tells. -/
structure Writes (v : Value) (json : Json) : Prop where
  writeJson_eq : v.writeJson = .ok v.asJson.compact
  proper : v.asJson.Proper
  depth_le : v.asJson.depth ≤ json.depth

structure ItemsWrite (vs : List Value) (items : List Json) : Prop where
  writeItems_eq : writeItems vs = .ok ((itemsAsJson vs).map compact)
  proper : ProperItems (itemsAsJson vs)
  depth_le : depthItems (itemsAsJson vs) ≤ depthItems items

structure MembersWrite (ms : List (String × Value)) (members : List (String × Json)) : Prop where
  writeMembers_eq : writeMembers ms = .ok ((membersAsJson ms).map fun m => (m.1, m.2.compact))
  proper : ProperMembers (membersAsJson ms)
  depth_le : depthMembers (membersAsJson ms) ≤ depthMembers members

variable {items : List Json}

theorem ItemsWrite.array {vs : List Value} (h : ItemsWrite vs items) (source : String) :
    (writeItems vs).map writeArray = .ok (array (itemsAsJson vs) "").compact ∧
      (array (itemsAsJson vs) "").depth ≤ (array items source).depth := by
  refine ⟨?_, Nat.succ_le_succ h.depth_le⟩
  rw [h.writeItems_eq, Except.map, writeArray_eq_compact _ ""]

theorem MembersWrite.object {ms : List (String × Value)} {ordered : List (String × Json)}
    (h : MembersWrite ms ordered) (hperm : ordered.Perm members) :
    (writeMembers ms).map Json.writeObject = .ok (Json.object (membersAsJson ms)).compact ∧
      (Json.object (membersAsJson ms)).depth ≤ (Json.object members).depth := by
  refine ⟨?_, Nat.succ_le_succ (h.depth_le.trans (depthMembers_perm hperm))⟩
  rw [h.writeMembers_eq, Except.map, writeObject_eq_compact]

mutual

theorem writes_of_tells (v : Value) (json : Json) (h : v.Tells json) : v.Writes json := by
  cases v with
  | unknown t => cases json <;> exact h.elim
  | null | bool => exact ⟨rfl, trivial, Nat.zero_le _⟩
  | number x =>
    cases json with
    | number spelling =>
      refine ⟨?_, Number.Wide.isNumeral_text h.1, Nat.zero_le _⟩
      obtain ⟨-, negative, m, e, hvalue, -⟩ := h.1
      simp only [writeJson, hvalue]
      rfl
    | _ => exact h.elim
  | string s => exact ⟨rfl, trivial, Nat.zero_le _⟩
  | tuple vs | list _ vs =>
    cases json with
    | array items source =>
      have hitems := itemsWrite_of_tell vs items h
      exact ⟨(hitems.array source).1, hitems.proper, (hitems.array source).2⟩
    | _ => exact h.elim
  | object ms | map _ ms =>
    cases json with
    | object members =>
      obtain ⟨ordered, hperm, h⟩ := h
      have hmembers := membersWrite_of_tell ms ordered h
      exact ⟨(hmembers.object hperm).1, hmembers.proper, (hmembers.object hperm).2⟩
    | _ => exact h.elim

theorem itemsWrite_of_tell (vs : List Value) (items : List Json) (h : ItemsTell vs items) : ItemsWrite vs items := by
  cases vs with
  | nil => exact ⟨rfl, trivial, Nat.zero_le _⟩
  | cons v vs =>
    cases items with
    | nil => exact h.elim
    | cons w ws =>
      have hv := writes_of_tells v w h.1
      have hvs := itemsWrite_of_tell vs ws h.2
      refine ⟨?_, ⟨hv.proper, hvs.proper⟩, max_le_max hv.depth_le hvs.depth_le⟩
      simp only [writeItems, hv.writeJson_eq, hvs.writeItems_eq]
      rfl

theorem membersWrite_of_tell (ms : List (String × Value)) (members : List (String × Json))
    (h : MembersTell ms members) : MembersWrite ms members := by
  cases ms with
  | nil => exact ⟨rfl, trivial, Nat.zero_le _⟩
  | cons m ms =>
    cases m with
    | mk k v =>
      cases members with
      | nil => exact h.elim
      | cons w ws =>
        have hv := writes_of_tells v w.2 h.2.1
        have hms := membersWrite_of_tell ms ws h.2.2
        refine ⟨?_, ⟨hv.proper, hms.proper⟩, max_le_max hv.depth_le hms.depth_le⟩
        simp only [writeMembers, hv.writeJson_eq, hms.writeMembers_eq]
        rfl

end

/-! ### Reading again -/

theorem forall₂_of_itemsTell : ∀ {vs items}, ItemsTell vs items →
    List.Forall₂ (fun j w => ∃ v : Value, v.asJson = j ∧ v.Tells w) (itemsAsJson vs) items
  | [], [], _ => .nil
  | v :: _, _ :: _, h => .cons ⟨v, rfl, h.1⟩ (forall₂_of_itemsTell h.2)
  | [], _ :: _, h | _ :: _, [], h => h.elim

theorem forall₂_of_membersTell : ∀ {ms members}, MembersTell ms members →
    List.Forall₂ (fun j w => j.1 = w.1 ∧ ∃ v : Value, v.asJson = j.2 ∧ v.Tells w.2) (membersAsJson ms) members
  | [], [], _ => .nil
  | (_, v) :: _, _ :: _, h => .cons ⟨h.1, v, rfl, h.2.1⟩ (forall₂_of_membersTell h.2.2)
  | [], _ :: _, h | _ :: _, [], h => h.elim

/-- A value is null, and the integer, truth value or string, that it tells. -/
structure Agree (v w : Json) : Prop where
  null_iff : v = .null ↔ w = .null
  takeInt_eq : ∀ old, takeInt old v = takeInt old w
  takeBool_eq : ∀ old, takeBool old v = takeBool old w
  takeString_eq : ∀ old, takeString old v = takeString old w

variable {v : Value} {json : Json}

theorem Tells.agree (h : v.Tells json) : Agree v.asJson json := by
  cases v with
  | number x =>
    cases json with
    | number spelling =>
      refine ⟨by simp [asJson], fun old => ?_, fun _ => rfl, fun _ => rfl⟩
      simp only [asJson, takeInt, h.readInteger?_text]
    | _ => exact h.elim
  | _ =>
    cases json <;>
      first
        | exact h.elim
        | exact ⟨by simp [asJson], fun _ => rfl, fun _ => rfl, fun _ => rfl⟩
        | cases h; exact ⟨Iff.rfl, fun _ => rfl, fun _ => rfl, fun _ => rfl⟩

/-- Objects are told by objects, and members by members. -/
theorem Tells.object (h : v.Tells (.object members)) : ∃ told ordered, v.asJson = .object told ∧ ordered.Perm members ∧
      List.Forall₂ (fun j w => j.1 = w.1 ∧ ∃ v : Value, v.asJson = j.2 ∧ v.Tells w.2) told ordered := by
  cases v with
  | object ms | map _ ms =>
    obtain ⟨ordered, hperm, h⟩ := h
    exact ⟨membersAsJson ms, ordered, rfl, hperm, forall₂_of_membersTell h⟩
  | _ => exact h.elim

/-- Lists are told by lists, and items by items. -/
theorem Tells.array {source : String} (h : v.Tells (.array items source)) : ∃ told, v.asJson = .array told "" ∧
      List.Forall₂ (fun j w => ∃ v : Value, v.asJson = j ∧ v.Tells w) told items := by
  cases v with
  | tuple vs | list _ vs => exact ⟨itemsAsJson vs, rfl, forall₂_of_itemsTell h⟩
  | _ => exact h.elim

theorem forall₂_mem_right {α β : Type} {R : α → β → Prop} {l : List α} {l' : List β} (h : List.Forall₂ R l l') :
    List.Forall₂ (fun a b => R a b ∧ b ∈ l') l l' := by
  induction h with
  | nil => exact .nil
  | cons hab _ ih => exact .cons ⟨hab, List.mem_cons_self⟩ (ih.imp fun _ _ h => ⟨h.1, List.mem_cons_of_mem _ h.2⟩)

theorem takeParam_of_tells (h : v.Tells json) (hapart : json.KeysApart) (old : Param) :
    (takeParam old v.asJson).toOption = (takeParam old json).toOption := by
  cases json with
  | object members =>
    obtain ⟨told, ordered, htold, hperm, hmembers⟩ := h.object
    rw [htold, takeParam_object, takeParam_object,
      ← Part.fold_perm allApart_paramParts hperm hapart]
    refine Part.fold_congr (hmembers.imp fun j w hjw => ⟨hjw.1, ?_⟩) _
    obtain ⟨-, v, hv, htells⟩ := hjw
    exact hv ▸ paramParts_congr htells.agree.takeString_eq
  | array items source =>
    obtain ⟨told, htold, -⟩ := h.array
    rw [htold]
    rfl
  | _ =>
    cases v with
    | string s =>
      first
        | exact h.elim
        | exact congrArg (fun s => (takeParam old (.string s)).toOption) h
    | _ => first | exact h.elim | rfl

theorem takeParams_of_tells (h : v.Tells json)
    (hapart : ∀ items source, json = .array items source → ∀ w ∈ items, w.KeysApart) (old : Slots Param) :
    takeParams old v.asJson = takeParams old json := by
  cases json with
  | array items source =>
    obtain ⟨told, htold, hitems⟩ := h.array
    have hapart := hapart items source rfl
    rw [htold]
    refine takeItems_congr ((forall₂_mem_right hitems).imp fun j w hjw old => ?_) old
    obtain ⟨⟨v, hv, htells⟩, hw⟩ := hjw
    exact hv ▸ takeParam_of_tells htells (hapart w hw) _
  | _ => cases v <;> first | exact h.elim | rfl

/-- **A value makes the mutation that it tells.** -/
theorem ofJson_of_tells (h : v.Tells json) (hapart : json.Apart) (type : String) :
    (ofJson type v.asJson).toOption = (ofJson type json).toOption := by
  cases json with
  | object members =>
    obtain ⟨told, ordered, htold, hperm, hmembers⟩ := h.object
    obtain ⟨hkeys, hitems⟩ := hapart
    rw [htold, ofJson_object, ofJson_object,
      ← Part.fold_perm allApart_entryParts hperm hkeys]
    refine congrArg (Option.map _) (Part.fold_congr ((forall₂_mem_right hmembers).imp fun j w hjw => ?_) _)
    obtain ⟨⟨hkey, v, hv, htells⟩, hw⟩ := hjw
    have hagree := htells.agree
    exact ⟨hkey, hv ▸ entryParts_congr hagree.null_iff hagree.takeInt_eq hagree.takeBool_eq
      hagree.takeString_eq (takeParams_of_tells htells (hitems w (hperm.mem_iff.mp hw)))⟩
  | array items source =>
    obtain ⟨told, htold, -⟩ := h.array
    rw [htold]
    rfl
  | string s' =>
    cases v with
    | string s =>
      obtain rfl : s = s' := h
      rfl
    | _ => exact h.elim
  | _ => cases v <;> first | exact h.elim | rfl

end Hcl.Value

end BlockProgram
