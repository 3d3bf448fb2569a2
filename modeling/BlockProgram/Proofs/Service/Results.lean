import BlockProgram.Proofs.Json.Records
import BlockProgram.Service.ResultText

/-! # Results survive being kept

A result that is written as JSON and read again is the same result (`Result.read_json`).  Reading a
record looks at keys, strings and lists only, never at the text an array was written with, so it
does not matter that the reader notes those texts (`takeMembers_plain`, `takeList_plain`).
-/
namespace BlockProgram

open Json

namespace NameEntry

theorem take_plain (old : NameEntry) (v : Json) : take old v.plain = take old v := by
  refine takeMembers_plain (fun key v acc => ?_) old v
  split <;> simp

theorem take_json (old n : NameEntry) : take old n.json = .ok n := by
  rw [take, json, takeMembers_lower _ _ ["category", "logical", "text"] rfl (by decide)]
  rfl

end NameEntry

namespace Definition

theorem take_plain (old : Definition) (v : Json) : take old v.plain = take old v := by
  refine takeMembers_plain (fun key v acc => ?_) old v
  split <;> simp

theorem take_json (old d : Definition) : take old d.json = .ok d := by
  rw [take, json, takeMembers_lower _ _ ["key", "code"] rfl (by decide)]
  rfl

end Definition

namespace Result

theorem ofJson_plain (v : Json) : ofJson v.plain = ofJson v := by
  unfold ofJson
  congr 1
  refine takeMembers_plain (fun key v acc => ?_) _ v
  unfold Draft.update
  split
  · simp
  · rw [takeList_plain fun old => NameEntry.take_plain _]
  · rw [takeList_plain fun old => Definition.take_plain _]
  · rfl

theorem ofJson_json (r : Result) : ofJson r.json = .ok r := by
  have hnames : takeList (fun n => NameEntry.take (n.getD default)) {}
      (.array (r.names.map (·.json)) "") = .ok ⟨r.names, []⟩ :=
    takeList_fresh (fun n => NameEntry.take_json _ n) r.names ""
  have hdefinitions : takeList (fun x => Definition.take (x.getD default)) {}
      (.array (r.definitions.map (·.json)) "") = .ok ⟨r.definitions, []⟩ :=
    takeList_fresh (fun d => Definition.take_json _ d) r.definitions ""
  rw [ofJson, json, takeMembers_lower _ _ ["code", "names", "definitions"] rfl (by decide)]
  simp [Draft.update, takeString, hnames, hdefinitions, Except.map, bind, Except.bind, pure, Except.pure]

theorem proper_json (r : Result) : r.json.Proper := by
  refine ⟨trivial, properItems_map (fun n => ?_) _, properItems_map (fun d => ?_) _, trivial⟩
  · exact ⟨trivial, trivial, trivial, trivial⟩
  · exact ⟨trivial, trivial, trivial⟩

theorem depth_json (r : Result) : r.json.depth ≤ 3 := by
  have hnames : depthItems (r.names.map (·.json)) ≤ 1 :=
    depthItems_map fun n => Nat.le_refl 1
  have hdefinitions : depthItems (r.definitions.map (·.json)) ≤ 1 :=
    depthItems_map fun d => Nat.le_refl 1
  simp only [json, depth, depthMembers]
  omega

/-- **A result that was written is read as it was.** -/
theorem read_json (r : Result) : read r.json.compact >>= ofJson = .ok r := by
  obtain ⟨w, hread, hplain⟩ := read_compact r.proper_json (Nat.le_trans r.depth_json (by decide))
  rw [hread]
  calc ofJson w = ofJson r.json := by rw [← ofJson_plain w, hplain, ofJson_plain]
    _ = .ok r := r.ofJson_json

end Result

end BlockProgram
