import BlockProgram.Block.Mutation
import BlockProgram.Proofs.Json.Records

/-! # Reading mutations

An object that describes a mutation, and one that describes a parameter, consists of parts that do
not mind each other (`entryParts`, `paramParts`).  What is read from such an object is what its
members say one after another (`ofJson_object`), in any order.
-/
namespace BlockProgram.Mutation

open Json

/-! ### Parameters -/

def paramParts : List (String × Json.Part Param) :=
  [("name", ⟨(·.name), fun s p => { p with name := s }, fun old v => (takeString old v).toOption⟩),
   ("id", ⟨(·.id), fun s p => { p with id := s }, fun old v => (takeString old v).toOption⟩)]

theorem allApart_paramParts : Part.AllApart paramParts := by
  simp only [Part.AllApart, paramParts, List.mem_cons, List.not_mem_nil, or_false]
  rintro _ (rfl | rfl) _ (rfl | rfl) hne
  any_goals exact absurd rfl hne
  all_goals exact ⟨fun _ _ => rfl, fun _ _ => rfl, fun _ _ _ => rfl⟩

theorem takeParam_object (old : Param) (members : List (String × Json)) :
    (takeParam old (.object members)).toOption = Part.fold paramParts members ⟨"", ""⟩ := by
  unfold takeParam
  refine takeMembers_eq_fold (fun key v p => ?_) members _
  simp only [paramParts, Part.update_cons, Part.update_nil, Part.step]
  split_ifs
  · cases takeString p.name v <;> rfl
  · cases takeString p.id v <;> rfl
  · rfl

/-- Values that are the same string, or none, say the same about a parameter. -/
theorem paramParts_congr {v w : Json} (hstring : ∀ old, takeString old v = takeString old w) :
    ∀ p ∈ paramParts, ∀ a, p.2.take a v = p.2.take a w := by
  simp only [paramParts, List.mem_cons, List.not_mem_nil, or_false]
  rintro _ (rfl | rfl) a <;> exact congrArg Except.toOption (hstring a)

theorem takeParam_plain (old : Param) (v : Json) : takeParam old v.plain = takeParam old v := by
  unfold takeParam
  cases v with
  | object members =>
    refine takeMembers_plain (fun key v p => ?_) _ (.object members)
    simp
  | _ => rfl

/-! ### Entries -/

def takeParams (old : Slots Param) : Json → Option (Slots Param)
  | .null => some {}
  | .array items _ => (takeItems (fun p => takeParam (p.getD ⟨"", ""⟩)) old items).toOption
  | _ => none

/-- The parts of what an object says about a mutation. -/
def entryParts : List (String × Json.Part Entry) :=
  [("itemcount", ⟨(·.itemCount), fun n e => { e with itemCount := n },
      fun _ v => (takeOption (takeInt 0) v).toOption⟩),
   ("elseifcount", ⟨(·.elseIfCount), fun n e => { e with elseIfCount := n },
      fun old v => (takeInt old v).toOption⟩),
   ("haselse", ⟨(·.hasElse), fun b e => { e with hasElse := b },
      fun _ v => (takeOption (takeBool false) v).toOption⟩),
   ("hasreturnvalue", ⟨(·.hasReturnValue), fun b e => { e with hasReturnValue := b },
      fun _ v => (takeOption (takeBool false) v).toOption⟩),
   ("name", ⟨(·.name), fun s e => { e with name := s }, fun old v => (takeString old v).toOption⟩),
   ("params", ⟨(·.params), fun ps e => { e with params := ps }, takeParams⟩)]

theorem allApart_entryParts : Part.AllApart entryParts := by
  simp only [Part.AllApart, entryParts, List.mem_cons, List.not_mem_nil, or_false]
  rintro _ (rfl | rfl | rfl | rfl | rfl | rfl) _ (rfl | rfl | rfl | rfl | rfl | rfl) hne
  any_goals exact absurd rfl hne
  all_goals exact ⟨fun _ _ => rfl, fun _ _ => rfl, fun _ _ _ => rfl⟩

theorem update_eq (key : String) (v : Json) (e : Entry) :
    (e.update key v).toOption = Part.update entryParts key v e := by
  simp only [entryParts, Part.update_cons, Part.update_nil, Part.step, Entry.update]
  split_ifs
  · cases takeOption (takeInt 0) v <;> rfl
  · cases takeInt e.elseIfCount v <;> rfl
  · cases takeOption (takeBool false) v <;> rfl
  · cases takeOption (takeBool false) v <;> rfl
  · cases takeString e.name v <;> rfl
  · cases v with
    | array items source =>
      simp only [takeParams]
      cases takeItems (fun p => takeParam (p.getD ⟨"", ""⟩)) e.params items <;> rfl
    | _ => rfl
  · rfl

/-- Values that are the same integer, truth value, string or list of parameters, or none of these,
say the same about a mutation. -/
theorem entryParts_congr {v w : Json} (hnull : v = .null ↔ w = .null)
    (hint : ∀ old, takeInt old v = takeInt old w) (hbool : ∀ old, takeBool old v = takeBool old w)
    (hstring : ∀ old, takeString old v = takeString old w)
    (hparams : ∀ old, takeParams old v = takeParams old w) : ∀ p ∈ entryParts, ∀ a, p.2.take a v = p.2.take a w := by
  simp only [entryParts, List.mem_cons, List.not_mem_nil, or_false]
  rintro _ (rfl | rfl | rfl | rfl | rfl | rfl) a
  · exact congrArg Except.toOption (takeOption_congr hnull (hint 0))
  · exact congrArg Except.toOption (hint a)
  · exact congrArg Except.toOption (takeOption_congr hnull (hbool false))
  · exact congrArg Except.toOption (takeOption_congr hnull (hbool false))
  · exact congrArg Except.toOption (hstring a)
  · exact hparams a

/-- Once there is a fault, nothing is read. -/
theorem ofMembers_of_fault (e : Entry) (f : Fault) (members : List (String × Json)) :
    (Entry.ofMembers e (some f) members).toOption = none := by
  induction members generalizing e f with
  | nil => rfl
  | cons m members ih =>
    unfold Entry.ofMembers
    split
    · exact ih _ f
    · rfl
    · exact ih e f

/-- What an object says is what its members say one after another. -/
theorem ofMembers_eq_fold (e : Entry) (members : List (String × Json)) :
    (Entry.ofMembers e none members).toOption = Part.fold entryParts members e := by
  unfold Part.fold
  induction members generalizing e with
  | nil => rfl
  | cons m members ih =>
    rw [List.foldlM_cons, ← update_eq]
    unfold Entry.ofMembers
    split
    · rename_i h
      rw [h]
      exact ih _
    · rename_i h
      rw [h]
      rfl
    · rename_i h
      rw [h, Option.none_or]
      exact ofMembers_of_fault e _ members

theorem ofJson_object (type : String) (members : List (String × Json)) :
    (ofJson type (.object members)).toOption = (Part.fold entryParts members {}).map (ofEntry type) := by
  rw [← ofMembers_eq_fold]
  show ((Entry.ofMembers {} none members).map (ofEntry type)).toOption = _
  cases Entry.ofMembers {} none members <;> rfl

/-- The texts of arrays do not matter. -/
theorem ofJson_plain (type : String) (v : Json) : (ofJson type v.plain).toOption = (ofJson type v).toOption := by
  cases v with
  | object members =>
    rw [plain, plainMembers_eq_map, ofJson_object, ofJson_object]
    refine congrArg (Option.map _) (Part.fold_congr ?_ _)
    rw [List.forall₂_map_left_iff, List.forall₂_same]
    refine fun m _ => ⟨rfl, entryParts_congr ?_ (by simp) (by simp) (by simp) fun old => ?_⟩
    · cases m.2 <;> simp [plain]
    · cases hm : m.2 with
      | array items source =>
        have hlist := takeList_plain (fun old => takeParam_plain (old.getD ⟨"", ""⟩)) old (.array items source)
        exact congrArg Except.toOption hlist
      | _ => rfl
  | _ => rfl

end BlockProgram.Mutation
