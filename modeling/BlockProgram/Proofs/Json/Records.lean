import BlockProgram.Json.Record
import BlockProgram.Proofs.Json.RoundTrip
import Mathlib.Data.List.Nodup

/-! # Reading records

Reading a record looks at keys, strings, numbers and lists only, never at the text an array was
written with (`takeMembers_plain`, `takeList_plain`).  Nor does the order of the members matter, if
no two names differ in case only and members of different names do not mind each other
(`foldlM_perm`).
-/
namespace BlockProgram.Json

open List

/-! ### The texts of arrays -/

theorem plainItems_eq_map (items : List Json) : plainItems items = items.map plain := by
  induction items with
  | nil => rfl
  | cons v vs ih => rw [plainItems, ih, map_cons]

theorem plainMembers_eq_map (members : List (String × Json)) :
    plainMembers members = members.map fun m => (m.1, m.2.plain) := by
  induction members with
  | nil => rfl
  | cons m ms ih => rw [plainMembers, ih, map_cons]

variable {α : Type} {write : α → Json}

theorem properItems_map (h : ∀ x, (write x).Proper) : ∀ xs : List α, ProperItems (xs.map write)
  | [] => trivial
  | x :: xs => ⟨h x, properItems_map h xs⟩

theorem depthItems_map {n : Nat} (h : ∀ x, (write x).depth ≤ n) : ∀ {xs : List α}, depthItems (xs.map write) ≤ n
  | [] => Nat.zero_le n
  | x :: _ => Nat.max_le.mpr ⟨h x, depthItems_map h⟩

@[simp] theorem takeString_plain (old : String) (v : Json) : takeString old v.plain = takeString old v := by
  cases v <;> rfl

theorem takeMembers_plain {update : String → Json → α → Except Fault α}
    (hupdate : ∀ key v acc, update key (plain v) acc = update key v acc) (old : α) (v : Json) :
    takeMembers update old v.plain = takeMembers update old v := by
  cases v with
  | object members => simp [plain, takeMembers, plainMembers_eq_map, foldlM_map, hupdate]
  | _ => rfl

theorem foldKey_of_toList {key folded : String} (h : key.toList.map foldKeyChar = folded.toList) :
    foldKey key = folded := by
  rw [foldKey, ← String.toList_inj, String.toList_map, h]

/-- The keys of documents, brought to lower case. -/
theorem foldKey_keys :
    foldKey "type" = "type" ∧ foldKey "id" = "id" ∧ foldKey "x" = "x" ∧ foldKey "y" = "y" ∧
    foldKey "enabled" = "enabled" ∧ foldKey "comment" = "comment" ∧ foldKey "fields" = "fields" ∧
    foldKey "extraState" = "extrastate" ∧ foldKey "block" = "block" ∧ foldKey "shadow" = "shadow" ∧
    foldKey "inputs" = "inputs" ∧ foldKey "statements" = "statements" ∧ foldKey "next" = "next" ∧
    foldKey "name" = "name" ∧ foldKey "params" = "params" ∧ foldKey "blocks" = "blocks" ∧
    foldKey "variables" = "variables" ∧ foldKey "developerVariables" = "developervariables" ∧
    foldKey "itemCount" = "itemcount" ∧ foldKey "elseIfCount" = "elseifcount" ∧ foldKey "hasElse" = "haselse" ∧
    foldKey "hasReturnValue" = "hasreturnvalue" := by
  and_intros <;> exact foldKey_of_toList (by decide)

theorem takeMembers_lower (update : String → Json → α → Except Fault α) (old : α)
    {members : List (String × Json)} (keys : List String) (hkeys : members.map Prod.fst = keys)
    (hlower : ∀ k ∈ keys, k.toList.map foldKeyChar = k.toList) :
    takeMembers update old (.object members) = members.foldlM (fun acc m => update m.1 m.2 acc) old := by
  subst hkeys
  induction members generalizing old with
  | nil => rfl
  | cons m members ih =>
    have hkey : foldKey m.1 = m.1 := foldKey_of_toList (hlower m.1 (by simp))
    simp only [takeMembers, foldlM_cons, hkey] at ih ⊢
    exact bind_congr fun acc => ih acc fun k hk => hlower k (mem_cons_of_mem _ hk)

variable {take : Option α → Json → Except Fault α}

theorem takeList_plain (htake : ∀ old v, take old (plain v) = take old v) (old : Slots α) (v : Json) :
    takeList take old v.plain = takeList take old v := by
  cases v with
  | array items source =>
    simp [plain, takeList, takeItems, plainItems_eq_map, zipIdx_map, mapM_map, Function.comp_def, htake]
  | _ => rfl

/-- A list that stands where none has stood before. -/
theorem takeList_of_forall₂ {items : List Json} {xs : List α}
    (h : List.Forall₂ (fun v x => take none v = .ok x) items xs) (source : String) :
    takeList take {} (.array items source) = .ok ⟨xs, []⟩ := by
  have hitems : ∀ k, (items.zipIdx k).mapM (fun ((v, i) : Json × Nat) => take ([] : List α)[i]? v) = Except.ok xs := by
    induction h with
    | nil => exact fun _ => rfl
    | cons hv _ ih =>
      intro k
      rw [zipIdx_cons, mapM_cons, ih (k + 1)]
      simp [hv, bind, Except.bind, pure, Except.pure]
  simp only [takeList, takeItems]
  rw [show (([] : List α) ++ []) = [] from rfl, hitems]
  cases xs <;> rfl

theorem takeList_fresh (htake : ∀ x, take none (write x) = .ok x) (xs : List α) (source : String) :
    takeList take {} (.array (xs.map write) source) = .ok ⟨xs, []⟩ := by
  refine takeList_of_forall₂ ?_ source
  rw [List.forall₂_map_left_iff, List.forall₂_same]
  exact fun x _ => htake x

@[simp] theorem takeInt_plain (old : Int) (v : Json) : takeInt old v.plain = takeInt old v := by
  cases v <;> rfl

@[simp] theorem takeBool_plain (old : Bool) (v : Json) : takeBool old v.plain = takeBool old v := by
  cases v <;> rfl

/-! ### The order of members -/

/-- The names of an object differ in more than case. -/
def KeysApart : Json → Prop
  | .object members => (members.map fun m => foldKey m.1).Nodup
  | _ => True

/-- Steps that do not mind each other may be taken in any order. -/
theorem foldlM_perm {m : Type → Type} [Monad m] [LawfulMonad m] {β : Type} {f : β → α → m β} {l l' : List α}
    (h : l.Perm l') (hcomm : ∀ x ∈ l, ∀ y ∈ l, x ≠ y → ∀ b, (f b x >>= (f · y)) = (f b y >>= (f · x))) (b : β) :
    l.foldlM f b = l'.foldlM f b := by
  induction h generalizing b with
  | nil => rfl
  | cons x _ ih =>
    exact bind_congr fun b => ih (fun x hx y hy => hcomm x (.tail _ hx) y (.tail _ hy)) b
  | swap x y l =>
    simp only [foldlM_cons, ← bind_assoc]
    by_cases hxy : x = y
    · rw [hxy]
    · rw [hcomm y (by simp) x (by simp) (Ne.symm hxy)]
  | trans hl _ ih ih' =>
    rw [ih hcomm, ih' fun x hx y hy => hcomm x (hl.mem_iff.mpr hx) y (hl.mem_iff.mpr hy)]

/-- A part of a record that members of one name update: they look at what it was, and at nothing
else. -/
structure Part (S : Type) where
  {Content : Type}
  get : S → Content
  set : Content → S → S
  take : Content → Json → Option Content

namespace Part

variable {S : Type}

def step (p : Part S) (v : Json) (s : S) : Option S := (p.take (p.get s) v).map (p.set · s)

/-- Two parts that do not mind each other. -/
structure Apart (p q : Part S) : Prop where
  get_set : ∀ a s, p.get (q.set a s) = p.get s
  set_get : ∀ a s, q.get (p.set a s) = q.get s
  set_set : ∀ a b s, p.set a (q.set b s) = q.set b (p.set a s)

theorem step_comm {p q : Part S} (h : p.Apart q) (v w : Json) (s : S) :
    (p.step v s).bind (q.step w) = (q.step w s).bind (p.step v) := by
  unfold step
  cases hp : p.take (p.get s) v with
  | none => cases hq : q.take (q.get s) w <;> simp [h.get_set, hp]
  | some a => cases hq : q.take (q.get s) w <;> simp [h.get_set, h.set_get, h.set_set, hp, hq]

/-- Updates the part that a name stands for, if it does. -/
def update (parts : List (String × Part S)) (name : String) (v : Json) (s : S) : Option S :=
  match parts.lookup name with
  | some p => p.step v s
  | none => some s

theorem update_nil (name : String) (v : Json) (s : S) : update [] name v s = some s := rfl

theorem update_cons (name : String) (part : String × Part S) (parts : List (String × Part S)) (v : Json) (s : S) :
    update (part :: parts) name v s = if name = part.1 then part.2.step v s else update parts name v s := by
  obtain ⟨name', p⟩ := part
  unfold update
  by_cases h : name = name'
  · simp [h]
  · simp [lookup_cons, beq_eq_false_iff_ne.mpr h, h]

/-- The parts of a record do not mind each other. -/
def AllApart (parts : List (String × Part S)) : Prop :=
  ∀ p ∈ parts, ∀ q ∈ parts, p.1 ≠ q.1 → p.2.Apart q.2

variable {parts : List (String × Part S)}

theorem mem_of_lookup {name : String} {p : Part S} (h : parts.lookup name = some p) : (name, p) ∈ parts := by
  induction parts with
  | nil => cases h
  | cons part parts ih =>
    rw [lookup_cons] at h
    split at h
    · rename_i heq
      cases h
      rw [beq_iff_eq.mp heq]
      exact mem_cons_self
    · exact mem_cons_of_mem _ (ih h)

theorem update_comm (h : AllApart parts) {k l : String} (hkl : k ≠ l) (v w : Json) (s : S) :
    (update parts k v s).bind (update parts l w) = (update parts l w s).bind (update parts k v) := by
  unfold update
  cases hk : parts.lookup k with
  | none => cases hl : parts.lookup l <;> simp
  | some p =>
    cases hl : parts.lookup l with
    | none => simp
    | some q => exact step_comm (h _ (mem_of_lookup hk) _ (mem_of_lookup hl) hkl) v w s

def fold (parts : List (String × Part S)) (members : List (String × Json)) (s : S) : Option S :=
  members.foldlM (fun s m => update parts (foldKey m.1) m.2 s) s

/-- **The order of members does not matter** if no two names differ in case only. -/
theorem fold_perm (h : AllApart parts) {members members' : List (String × Json)}
    (hperm : members.Perm members') (hapart : (Json.object members').KeysApart) (s : S) :
    fold parts members s = fold parts members' s := by
  refine (foldlM_perm hperm.symm (fun x hx y hy hxy s => ?_) s).symm
  exact update_comm h (fun hkey => hxy (inj_on_of_nodup_map hapart hx hy hkey)) x.2 y.2 s

/-- Members that say the same to every part make the same record. -/
theorem fold_congr {members members' : List (String × Json)}
    (h : List.Forall₂ (fun m m' => m.1 = m'.1 ∧ ∀ p ∈ parts, ∀ a, p.2.take a m.2 = p.2.take a m'.2)
      members members') (s : S) :
    fold parts members s = fold parts members' s := by
  unfold fold
  induction h generalizing s with
  | nil => rfl
  | @cons m m' _ _ hm _ ih =>
    have hstep : update parts (foldKey m.1) m.2 s = update parts (foldKey m'.1) m'.2 s := by
      unfold update
      rw [hm.1]
      cases hp : parts.lookup (foldKey m'.1) with
      | none => rfl
      | some p => exact congrArg (Option.map _) (hm.2 _ (mem_of_lookup hp) _)
    rw [foldlM_cons, foldlM_cons, hstep]
    exact bind_congr ih

end Part

theorem takeMembers_eq_fold {S : Type} {update : String → Json → S → Except Fault S}
    {parts : List (String × Part S)} (h : ∀ key v s, (update key v s).toOption = Part.update parts key v s)
    (members : List (String × Json)) (s : S) :
    (takeMembers update s (.object members)).toOption = Part.fold parts members s := by
  unfold Part.fold
  rw [takeMembers]
  induction members generalizing s with
  | nil => rfl
  | cons m members ih =>
    obtain ⟨key, v⟩ := m
    rw [foldlM_cons, foldlM_cons, ← h]
    dsimp only
    cases update (foldKey key) v s with
    | error f => rfl
    | ok s' => exact ih s'

/-! ### Values that say the same -/

theorem takeOption_congr {take : Json → Except Fault α} {v w : Json} (hnull : v = .null ↔ w = .null)
    (htake : take v = take w) : takeOption take v = takeOption take w := by
  by_cases hv : v = .null
  · rw [hv, hnull.mp hv]
  · have hw : w ≠ .null := fun h => hv (hnull.mpr h)
    cases v <;> cases w <;> simp_all [takeOption]

theorem toOption_bind {β ε : Type} (x : Except ε α) (f : α → Except ε β) :
    (x >>= f).toOption = x.toOption.bind fun a => (f a).toOption := by
  cases x <;> rfl

theorem takeItems_congr {ε : Type} {take : Option α → Json → Except ε α} {items items' : List Json}
    (h : List.Forall₂ (fun v w => ∀ old, (take old v).toOption = (take old w).toOption) items items')
    (old : Slots α) : (takeItems take old items).toOption = (takeItems take old items').toOption := by
  have hitems : ∀ k, ((items.zipIdx k).mapM fun p => take (old.items ++ old.spare)[p.2]? p.1).toOption =
      ((items'.zipIdx k).mapM fun p => take (old.items ++ old.spare)[p.2]? p.1).toOption := by
    induction h with
    | nil => exact fun _ => rfl
    | cons hv _ ih =>
      intro k
      simp only [zipIdx_cons, mapM_cons, toOption_bind, hv, ih (k + 1)]
  have hmap {x y : Except ε (List α)} (hxy : x.toOption = y.toOption) :
      (x.map old.refill).toOption = (y.map old.refill).toOption := by
    cases x <;> cases y <;> simp_all [Except.map, Except.toOption]
  exact hmap (hitems 0)

end BlockProgram.Json
