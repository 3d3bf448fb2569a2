import BlockProgram.Hcl.Standard
import BlockProgram.Proofs.Hcl.ExtraState

/-! # What is asked of a library

What is proved about reading configuration documents holds with every library that keeps a few laws.
Using a value gives what it holds, and breaks off if it holds nothing of the kind
(`Library.Converts`).  A faithful library also takes a body that has only what it may have, converts
plain values to themselves, and writes a value as a JSON text for it (`Library.Faithful`).  The
library that workspaces are read with is faithful (`standard_faithful`).
-/
namespace BlockProgram.Hcl

/-- The members of an object or a map. -/
def Value.members? : Value → Option (List (String × Value))
  | .object ms | .map _ ms => some ms
  | _ => none

/-- The type of a section and the number of its labels, which is what a schema looks at. -/
def Section.heading {E : Type} (s : Section E) : String × Nat := (s.type, s.labels.length)

/-- Using a value gives what it holds. Nulls, unknown values and values of other types break it
off. -/
structure Library.Converts (L : Library) : Prop where
  asString_eq : ∀ v, (L.asString v).toOption = v.text?
  asNumber_eq : ∀ v, (L.asNumber v).toOption = v.number?
  isTrue_eq : ∀ v, (L.isTrue v).toOption = v.truth?
  elements_eq : ∀ v, (L.elements v).toOption = v.members?

/-- The library also goes by what a document says. -/
structure Library.Faithful (L : Library) : Prop extends L.Converts where
  allows_of : ∀ {schema : Schema} {as : List (Attribute L.Expr)} {ss : List (Section L.Expr)},
    (∀ a ∈ as, a.name ∈ schema.attributes) → (∀ s ∈ ss, s.heading ∈ schema.sections) →
      L.allows schema as ss = true
  toText_string : ∀ s, L.toText (.string s) = .ok s
  toTruth_bool : ∀ b, L.toTruth (.bool b) = .ok b
  toDouble_number : ∀ {x : Number.Wide} {negative : Bool} {m : Nat} {e : Int},
    (m = 0 ∧ e = 0 ∨ Number.IsDouble m e) → x.value.Is negative (m * 2 ^ e) →
      L.toDouble (.number x) = .ok (.finite negative m e)
  writeJson_tells : ∀ {v : Value} {json : Json}, v.Tells json → json.depth ≤ Json.maxDepth →
    ∃ text w, L.writeJson v = .ok text ∧ Json.read text = .ok w ∧ w.plain = v.asJson.plain

/-- **Extra state survives the detour**: a value that tells it is written as a text that makes the
same mutation, or that makes none as well. -/
theorem Library.Faithful.exists_read {L : Library} (hL : L.Faithful) {v : Value} {json : Json} (h : v.Tells json)
    (hapart : json.Apart) (hdepth : json.depth ≤ Json.maxDepth) (type : String) :
    ∃ text w, L.writeJson v = .ok text ∧ Json.read text = .ok w ∧
      (Mutation.ofJson type w).toOption = (Mutation.ofJson type json).toOption := by
  obtain ⟨text, w, hwrite, hread, hplain⟩ := hL.writeJson_tells h hdepth
  refine ⟨text, w, hwrite, hread, ?_⟩
  rw [← Mutation.ofJson_plain, hplain, Mutation.ofJson_plain, Value.ofJson_of_tells h hapart]

theorem standard_converts : standard.Converts where
  asString_eq v := by cases v <;> rfl
  asNumber_eq v := by cases v <;> rfl
  isTrue_eq v := by cases v <;> rfl
  elements_eq v := by cases v <;> rfl

/-- **The library that workspaces are read with is faithful.** -/
theorem standard_faithful : standard.Faithful where
  toConverts := standard_converts
  allows_of has hss := by
    refine Bool.and_eq_true_iff.mpr ⟨List.all_eq_true.mpr fun a ha => ?_, List.all_eq_true.mpr fun s hs => ?_⟩
    · exact List.contains_iff_mem.mpr (has a ha)
    · exact List.contains_iff_mem.mpr (hss s hs)
  toText_string _ := rfl
  toTruth_bool _ := rfl
  toDouble_number {x negative m e} hdouble hx := by
    have hconvert : x.value.convert Number.binary64 = .finite negative m e := hx.convert_binary64 hdouble rfl
    obtain ⟨m', e', hvalue, -⟩ := hx
    show Value.toDouble _ = _
    simp only [Value.toDouble, hconvert]
    rw [hvalue]
  writeJson_tells {v json} h hdepth := by
    have hwrites := Value.writes_of_tells v json h
    obtain ⟨w, hread, hplain⟩ := Json.read_compact hwrites.proper (hwrites.depth_le.trans hdepth)
    refine ⟨_, w, ?_, hread, hplain⟩
    show v.writeJson.mapError _ = _
    rw [hwrites.writeJson_eq]
    rfl

end BlockProgram.Hcl
