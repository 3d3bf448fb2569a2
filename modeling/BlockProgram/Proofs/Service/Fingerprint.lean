import BlockProgram.Proofs.Json.Numerals
import BlockProgram.Service.Fingerprint

/-! # What a fingerprint tells apart

The text that is digested names the format, the options and the document of a request, with a zero
byte after each of the first two.  Options never hold a zero byte: strings are written with control
characters escaped. So if the format does not hold one either, the text determines all three
(`preimage_eq_iff`).  A format that holds zero bytes can make up a text that another request has.
-/
namespace BlockProgram

open List

namespace Digest

/-! ### Bytes of a text -/

theorem toList_loop (bytes : ByteArray) (i : Nat) (done : List UInt8) :
    ByteArray.toList.loop bytes i done = done.reverse ++ bytes.data.toList.drop i := by
  fun_induction ByteArray.toList.loop bytes i done with
  | case1 i done hlt ih =>
    have hlength : i < bytes.data.toList.length := by simpa using hlt
    rw [ih, drop_eq_getElem_cons hlength]
    simp [ByteArray.get!, hlt]
  | case2 i done hge =>
    rw [drop_eq_nil_of_le (by simpa using Nat.le_of_not_lt hge), append_nil]

theorem bytesOf_eq_data (s : String) : bytesOf s = s.toByteArray.data.toList := by
  rw [bytesOf, String.toUTF8, ByteArray.toList, toList_loop]
  rfl

theorem bytesOf_inj {s t : String} (h : bytesOf s = bytesOf t) : s = t := by
  rw [bytesOf_eq_data, bytesOf_eq_data, Array.toList_inj] at h
  exact String.toByteArray_inj.mp (ByteArray.ext h)

theorem bytesOf_eq (s : String) : bytesOf s = s.toList.flatMap String.utf8EncodeChar := by
  rw [bytesOf_eq_data, ← String.utf8Encode_toList, List.utf8Encode, data_toByteArray]

theorem bytesOf_append (s t : String) : bytesOf (s ++ t) = bytesOf s ++ bytesOf t := by
  rw [bytesOf_eq, bytesOf_eq, bytesOf_eq, String.toList_append, flatMap_append]

/-- Only the character zero has a byte that is zero. -/
theorem eq_of_zero_mem_encode {c : Char} (h : 0 ∈ String.utf8EncodeChar c) : c = '\x00' := by
  -- every byte of a longer form has its highest bit set
  have hlong : ∀ n, 128 ≤ n → n < 256 → 0 ≠ UInt8.ofNat n := by
    intro n hle hlt hn
    have : 0 = n % 256 := congrArg UInt8.toNat hn
    omega
  unfold String.utf8EncodeChar at h
  simp only at h
  split at h
  · have : 0 = c.val.toNat % 256 := congrArg UInt8.toNat (mem_singleton.mp h)
    have hzero : c.val.toNat = 0 := by omega
    exact Char.ext (UInt32.toNat_inj.mp hzero)
  split at h
  · simp only [mem_cons, not_mem_nil, or_false] at h
    rcases h with h | h <;> exact absurd h (hlong _ (by omega) (by omega))
  split at h
  · simp only [mem_cons, not_mem_nil, or_false] at h
    rcases h with h | h | h <;> exact absurd h (hlong _ (by omega) (by omega))
  · simp only [mem_cons, not_mem_nil, or_false] at h
    rcases h with h | h | h | h <;> exact absurd h (hlong _ (by omega) (by omega))

theorem zero_mem_bytesOf {s : String} (h : 0 ∈ bytesOf s) : '\x00' ∈ s.toList := by
  rw [bytesOf_eq, mem_flatMap] at h
  obtain ⟨c, hc, hzero⟩ := h
  exact eq_of_zero_mem_encode hzero ▸ hc

end Digest

namespace Json

/-! ### Texts without the character zero -/

theorem zero_notMem_writeString (s : String) : '\x00' ∉ (writeString s).toList := by
  have hdigit : ∀ n < 16, Text.hexDigit n ≠ '\x00' := by decide
  have hchar : ∀ c, '\x00' ∉ writeChar c := by
    intro c
    unfold writeChar
    split
    case h_8 =>
      split
      · simp only [mem_cons, Text.hexPadded, mem_map, not_or, not_exists, not_and]
        exact ⟨by decide, by decide, fun k _ => hdigit _ (Nat.mod_lt _ (by decide))⟩
      · rename_i hplain
        rw [mem_singleton]
        rintro rfl
        exact hplain rfl
    all_goals decide
  simp only [toList_writeString, mem_cons, mem_append, mem_flatMap, not_mem_nil, or_false, not_or, not_exists, not_and]
  exact ⟨by decide, fun c _ => hchar c, by decide⟩

theorem zero_notMem_compactMembers {members : List (String × Json)}
    (h : ∀ m ∈ members, '\x00' ∉ m.2.compact.toList) (first : Bool) :
    '\x00' ∉ (compactMembers first members).toList := by
  induction members generalizing first with
  | nil => simp [compactMembers]
  | cons m members ih =>
    have hrest := ih (fun m hm => h m (mem_cons_of_mem _ hm)) false
    have hkey := zero_notMem_writeString m.1
    have hvalue := h m mem_cons_self
    cases first <;> simp [compactMembers, hkey, hvalue, hrest]

/-! ### Objects whose members are leaves -/

def IsLeaf (v : Json) : Prop := (∃ b, v = .bool b) ∨ (∃ s, v = .string s) ∨ ∃ i : Int, v = .number (toString i)

variable {members : List (String × Json)}

theorem zero_notMem_leaf {v : Json} (hv : v.IsLeaf) : '\x00' ∉ v.compact.toList := by
  rcases hv with ⟨b, rfl⟩ | ⟨s, rfl⟩ | ⟨i, rfl⟩
  · cases b <;> decide
  · exact zero_notMem_writeString s
  · exact fun hmem => absurd (mem_toString hmem) (by decide)

theorem IsLeaf.spec {v : Json} (hv : v.IsLeaf) : v.Proper ∧ v.depth = 0 ∧ v.plain = v := by
  rcases hv with ⟨b, rfl⟩ | ⟨s, rfl⟩ | ⟨i, rfl⟩
  · exact ⟨trivial, rfl, rfl⟩
  · exact ⟨trivial, rfl, rfl⟩
  · exact ⟨isNumeral_toString i, rfl, rfl⟩

theorem members_leaves (h : ∀ m ∈ members, m.2.IsLeaf) :
    ProperMembers members ∧ depthMembers members = 0 ∧ plainMembers members = members := by
  induction members with
  | nil => exact ⟨trivial, rfl, rfl⟩
  | cons m members ih =>
    obtain ⟨hproper, hdepth, hplain⟩ := (h m mem_cons_self).spec
    obtain ⟨hpropers, hdepths, hplains⟩ := ih fun m hm => h m (mem_cons_of_mem _ hm)
    refine ⟨⟨hproper, hpropers⟩, ?_, ?_⟩
    · rw [depthMembers, hdepth, hdepths, Nat.max_self]
    · rw [plainMembers, hplain, hplains]

/-- The text of such an object determines its members. -/
theorem compact_object_inj {members' : List (String × Json)} (h : ∀ m ∈ members, m.2.IsLeaf)
    (h' : ∀ m ∈ members', m.2.IsLeaf) (heq : (object members).compact = (object members').compact) :
    members = members' := by
  have hread : ∀ {ms : List (String × Json)}, (∀ m ∈ ms, m.2.IsLeaf) →
      ∃ w, read (object ms).compact = .ok w ∧ w.plain = .object ms := by
    intro ms hms
    obtain ⟨hproper, hdepth, hsame⟩ := members_leaves hms
    obtain ⟨w, hw, hplain⟩ := read_compact (v := .object ms) hproper (by simp [depth, hdepth, maxDepth])
    exact ⟨w, hw, by rw [hplain, plain, hsame]⟩
  obtain ⟨w, hw, hplain⟩ := hread h
  obtain ⟨w', hw', hplain'⟩ := hread h'
  rw [heq, hw'] at hw
  obtain rfl := Except.ok.inj hw
  exact Json.object.inj (hplain.symm.trans hplain')

end Json

/-! ### Options as JSON -/

namespace Options

/-- A hook as a member; an empty one is left out. -/
def hookValue (key code : String) : List (String × Json) :=
  if code = "" then [] else [(key, .string code)]

def members (o : Options) : List (String × Json) :=
  [("indent", .string o.indent), ("oneBasedIndex", .bool o.oneBasedIndex)] ++
    hookValue "statementPrefix" o.statementPrefix ++ hookValue "statementSuffix" o.statementSuffix ++
    hookValue "infiniteLoopTrap" o.infiniteLoopTrap ++ [("commentWrap", .number (toString o.commentWrap))]

theorem json_eq_compact (o : Options) : o.json = (Json.object o.members).compact := by
  have hhook : ∀ key code, hookMember key code = (hookValue key code).map fun m => (m.1, m.2.compact) := by
    intro key code
    unfold hookMember hookValue
    split <;> rfl
  rw [members, ← Json.writeObject_eq_compact, json]
  simp only [hhook, map_append, map_cons, map_nil]
  rfl

theorem members_leaves (o : Options) : ∀ m ∈ o.members, m.2.IsLeaf := by
  have hhook : ∀ key code, ∀ m ∈ hookValue key code, m.2.IsLeaf := by
    intro key code m hm
    unfold hookValue at hm
    split at hm
    · cases hm
    · rw [mem_singleton.mp hm]
      exact .inr (.inl ⟨code, rfl⟩)
  intro m hm
  simp only [members, mem_append] at hm
  rcases hm with (((hm | hm) | hm) | hm) | hm
  · rcases mem_cons.mp hm with rfl | hm
    · exact .inr (.inl ⟨o.indent, rfl⟩)
    · rw [mem_singleton.mp hm]
      exact .inl ⟨o.oneBasedIndex, rfl⟩
  · exact hhook _ _ m hm
  · exact hhook _ _ m hm
  · exact hhook _ _ m hm
  · rw [mem_singleton.mp hm]
    exact .inr (.inr ⟨o.commentWrap, rfl⟩)

theorem lookup_hookValue (key code k : String) :
    (hookValue key code).lookup k = if k = key ∧ code ≠ "" then some (.string code) else none := by
  unfold hookValue
  by_cases hcode : code = ""
  · simp [hcode]
  · by_cases hk : k = key
    · simp [hcode, hk]
    · have hbeq : (k == key) = false := by simpa using hk
      simp [hcode, hk, lookup_cons, hbeq]

theorem members_inj {o o' : Options} (h : o.members = o'.members) : o = o' := by
  -- a hook that is left out is told from one that is there by its key, wherever it stands
  have hlookup : ∀ k, o.members.lookup k = o'.members.lookup k := fun k => by rw [h]
  simp only [members, lookup_append, lookup_hookValue] at hlookup
  have hhook : ∀ {c c' : String}, (if c = "" then none else some (Json.string c)) =
      (if c' = "" then none else some (Json.string c')) → c = c' := by
    intro c c' hc
    split at hc <;> split at hc <;> simp_all
  have hindent : o.indent = o'.indent := by simpa [lookup_cons] using hlookup "indent"
  have hindex : o.oneBasedIndex = o'.oneBasedIndex := by simpa [lookup_cons] using hlookup "oneBasedIndex"
  have hbefore : o.statementPrefix = o'.statementPrefix :=
    hhook (by simpa [lookup_cons] using hlookup "statementPrefix")
  have hafter : o.statementSuffix = o'.statementSuffix :=
    hhook (by simpa [lookup_cons] using hlookup "statementSuffix")
  have htrap : o.infiniteLoopTrap = o'.infiniteLoopTrap :=
    hhook (by simpa [lookup_cons] using hlookup "infiniteLoopTrap")
  have hwrap : o.commentWrap = o'.commentWrap :=
    Json.toString_inj (by simpa [lookup_cons] using hlookup "commentWrap")
  cases o
  cases o'
  rw [Options.mk.injEq]
  exact ⟨hindent, hindex, hbefore, hafter, htrap, hwrap⟩

theorem json_inj {o o' : Options} (h : o.json = o'.json) : o = o' := by
  rw [json_eq_compact, json_eq_compact] at h
  exact members_inj (Json.compact_object_inj o.members_leaves o'.members_leaves h)

theorem zero_notMem_json (o : Options) : '\x00' ∉ o.json.toList := by
  have hmembers : '\x00' ∉ (Json.compactMembers true o.members).toList :=
    Json.zero_notMem_compactMembers (fun m hm => Json.zero_notMem_leaf (o.members_leaves m hm)) true
  simp [json_eq_compact, Json.compact, hmembers]

end Options

namespace Fingerprint

/-- What stands before the first zero, and what stands behind it. -/
theorem split_at_zero {a a' b b' : List UInt8} (ha : 0 ∉ a) (ha' : 0 ∉ a') (h : a ++ 0 :: b = a' ++ 0 :: b') :
    a = a' ∧ b = b' := by
  have htake : ∀ {a b : List UInt8}, 0 ∉ a → (a ++ 0 :: b).takeWhile (· != 0) = a := by
    intro a b ha
    have hpos : ∀ x ∈ a, (x != 0) = true := by
      intro x hx
      simpa using ne_of_mem_of_not_mem hx ha
    simp [takeWhile_append_of_pos hpos]
  have haa : a = a' := by rw [← htake ha, h, htake ha']
  subst haa
  exact ⟨rfl, (List.cons.inj (append_cancel_left h)).2⟩

/-- **The text that is digested determines the request**, if no format holds a zero character. -/
theorem preimage_inj {given given' : String} {options options' : Options} {document document' : List UInt8}
    (hgiven : '\x00' ∉ given.toList) (hgiven' : '\x00' ∉ given'.toList)
    (h : preimage given options document = preimage given' options' document') :
    format given = format given' ∧ options = options' ∧ document = document' := by
  have hformat : ∀ {s : String}, '\x00' ∉ s.toList → 0 ∉ Digest.bytesOf (format s) := by
    intro s hs hzero
    have := Digest.zero_mem_bytesOf hzero
    unfold format at this
    split at this
    · exact absurd this (by decide)
    · exact hs this
  have hjson : ∀ o : Options, 0 ∉ Digest.bytesOf o.json :=
    fun o hzero => o.zero_notMem_json (Digest.zero_mem_bytesOf hzero)
  obtain ⟨hf, hrest⟩ := split_at_zero (hformat hgiven) (hformat hgiven') h
  obtain ⟨ho, hd⟩ := split_at_zero (hjson options) (hjson options') hrest
  exact ⟨Digest.bytesOf_inj hf, Options.json_inj (Digest.bytesOf_inj ho), hd⟩

/-- **What is digested tells requests apart, and nothing else**: for formats without a zero
character the texts are the same exactly if the formats that are meant are, and the options, and the
documents.  Options and documents may hold zeros. -/
theorem preimage_eq_iff (given given' : String) (options options' : Options) (document document' : List UInt8)
    (hgiven : '\x00' ∉ given.toList) (hgiven' : '\x00' ∉ given'.toList) :
    preimage given options document = preimage given' options' document' ↔
      format given = format given' ∧ options = options' ∧ document = document' := by
  refine ⟨preimage_inj hgiven hgiven', ?_⟩
  rintro ⟨hformat, rfl, rfl⟩
  unfold preimage
  rw [hformat]

/-- The empty format is told from no other spelling of its meaning, but a zero in a hook from one in
the document. -/
theorem preimage_eq_iff_zeros : ('\x00' ∉ "".toList ∧ '\x00' ∉ "json".toList) ∧
      preimage "" { statementPrefix := "\x00" } [0] = preimage "json" { statementPrefix := "\x00" } [0] ∧
      preimage "" { statementPrefix := "\x00" } [] ≠ preimage "json" {} [0] := by
  have hempty : '\x00' ∉ "".toList := by decide
  have hjson : '\x00' ∉ "json".toList := by decide
  refine ⟨⟨hempty, hjson⟩, (preimage_eq_iff _ _ _ _ _ _ hempty hjson).mpr ⟨by decide, rfl, rfl⟩, fun h => ?_⟩
  exact absurd ((preimage_eq_iff _ _ _ _ _ _ hempty hjson).mp h).2.2 (by decide)

end Fingerprint

end BlockProgram
