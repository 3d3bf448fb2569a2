import BlockProgram.Json.Printer
import BlockProgram.Json.Reader
import Mathlib.Data.List.Basic

/-! # Reading what was written

variable {c : Char}

A value written on one line is read back as it was, whatever stands behind it.  Only the texts of
its arrays, which the reader notes and the printer does not look at, may come out different; `plain`
forgets them.  Strings come first (`readString_write`), then values, by induction on the value
together with the items of its arrays and the members of its objects (`readValue_compact`), and at
last whole texts (`read_compact`).
-/
namespace BlockProgram

open List

variable {n : Nat}

namespace Text

theorem hexValue?_hexDigit : ∀ n < 16, hexValue? (hexDigit n) = some n := by decide

/-- Four digits spell a number below `16 ^ 4`. -/
theorem hexNumber?_hexPadded (hn : n < 65536) :
    ∃ a b c d, hexPadded 4 n = [a, b, c, d] ∧ hexNumber? [a, b, c, d] = some n := by
  refine ⟨hexDigit (n / 16 ^ 3 % 16), hexDigit (n / 16 ^ 2 % 16), hexDigit (n / 16 ^ 1 % 16),
    hexDigit (n / 16 ^ 0 % 16), rfl, ?_⟩
  simp only [hexNumber?, foldl_cons, foldl_nil,
    hexValue?_hexDigit _ (Nat.mod_lt _ (by decide : 0 < 16)), Option.some.injEq]
  omega

end Text

namespace Json

theorem exists_succ {fuel : Nat} (h : n < fuel) : ∃ k, fuel = k + 1 :=
  Nat.exists_eq_succ_of_ne_zero (Nat.ne_zero_of_lt h)

/-! ### Strings -/

/-- A character that is written by its number is read as it was. -/
theorem readString_unit (hc : c.toNat < 0xD800) (fuel : Nat) (rest done : List Char) :
    readString (fuel + 1) ('\\' :: 'u' :: Text.hexPadded 4 c.toNat ++ rest) done =
      readString fuel rest (c :: done) := by
  obtain ⟨x, y, z, w, hdigits, hvalue⟩ := Text.hexNumber?_hexPadded (n := c.toNat) (by omega)
  have hunit : unit? ('\\' :: 'u' :: x :: y :: z :: w :: rest) = some (c.toNat, rest) := by
    simp [unit?, hvalue]
  have hhigh : isHighHalf c.toNat = false := by
    simp [isHighHalf]
    omega
  have hchar : unitChar c.toNat = c := by
    have hlow : isLowHalf c.toNat = false := by
      simp [isLowHalf]
      omega
    simp [unitChar, hhigh, hlow]
  rw [hdigits]
  simp only [cons_append, nil_append]
  rw [readString]
  simp only [hunit, hhigh, hchar, Char.reduceEq, Char.reduceToNat, Nat.reduceLT, if_false, if_true]

theorem readString_writeChar (c : Char) (fuel : Nat) (rest done : List Char) :
    readString (fuel + 1) (writeChar c ++ rest) done = readString fuel rest (c :: done) := by
  unfold writeChar
  split
  case h_8 hquote hslash _ _ _ _ _ =>
    split
    · rename_i hescaped
      refine readString_unit ?_ fuel rest done
      simp only [Bool.or_eq_true, decide_eq_true_eq] at hescaped
      rcases hescaped with ((((hlt | rfl) | rfl) | rfl) | heq) | heq
      · omega
      all_goals first | decide | omega
    · rename_i hplain
      have hlt : ¬ c.toNat < 0x20 := by simp_all
      have hquote : c ≠ '"' := fun h => hquote h
      have hslash : c ≠ '\\' := fun h => hslash h
      simp [readString, hquote, hslash, hlt]
  all_goals simp [readString, unit?, escape?]

/-- **What is written of a string** is read up to the closing quote. -/
theorem readString_write {fuel : Nat} {cs : List Char} (hfuel : cs.length < fuel) (rest done : List Char) :
    readString fuel (cs.flatMap writeChar ++ '"' :: rest) done = .ok (String.ofList (done.reverse ++ cs), rest) := by
  induction cs generalizing fuel done <;> obtain ⟨fuel, rfl⟩ := exists_succ hfuel
  case nil => simp [readString]
  case cons c cs ih =>
    have hfuel : cs.length < fuel := by simpa using hfuel
    rw [flatMap_cons, append_assoc, readString_writeChar, ih hfuel]
    simp

theorem toList_writeString (s : String) : (writeString s).toList = '"' :: (s.toList.flatMap writeChar ++ ['"']) := by
  simp [writeString]

/-- Every character of a string is written with at least one. -/
theorem length_le_writeString (s : String) : s.toList.length + 2 ≤ (writeString s).toList.length := by
  have hchar : ∀ c, 1 ≤ (writeChar c).length := by
    intro c
    unfold writeChar
    split <;> first | decide | (split <;> simp)
  have hchars : ∀ cs : List Char, cs.length ≤ (cs.flatMap writeChar).length := by
    intro cs
    induction cs with
    | nil => simp
    | cons c cs ih =>
      have := hchar c
      simp only [flatMap_cons, length_append, length_cons]
      omega
  have := hchars s.toList
  simp only [toList_writeString, length_cons, length_append, length_nil]
  omega

/-! ### Values apart from the texts of their arrays -/

mutual

/-- A value without the texts its arrays were written with. -/
def plain : Json → Json
  | .array items _ => .array (plainItems items) ""
  | .object members => .object (plainMembers members)
  | v => v

def plainItems : List Json → List Json
  | [] => []
  | v :: vs => plain v :: plainItems vs

def plainMembers : List (String × Json) → List (String × Json)
  | [] => []
  | (k, v) :: vs => (k, plain v) :: plainMembers vs

end

mutual

def depth : Json → Nat
  | .array items _ => depthItems items + 1
  | .object members => depthMembers members + 1
  | _ => 0

def depthItems : List Json → Nat
  | [] => 0
  | v :: vs => max (depth v) (depthItems vs)

def depthMembers : List (String × Json) → Nat
  | [] => 0
  | (_, v) :: vs => max (depth v) (depthMembers vs)

end

/-- What may stand behind a value: nothing, a comma or a closing bracket. -/
def Stops (rest : List Char) : Prop := ∀ c ∈ rest.head?, c = ',' ∨ c = ']' ∨ c = '\x7d'

/-- A spelling that is read as a number up to its end. -/
def IsNumeral (s : String) : Prop :=
  (∀ c ∈ s.toList.head?, c = '-' ∨ c.isDigit = true) ∧ s ≠ "" ∧
    ∀ rest, Stops rest → readNumber (s.toList ++ rest) = .ok (s, rest)

mutual

/-- All numbers of a value are spelled as numbers. -/
def Proper : Json → Prop
  | .number s => IsNumeral s
  | .array items _ => ProperItems items
  | .object members => ProperMembers members
  | _ => True

def ProperItems : List Json → Prop
  | [] => True
  | v :: vs => Proper v ∧ ProperItems vs

def ProperMembers : List (String × Json) → Prop
  | [] => True
  | (_, v) :: vs => Proper v ∧ ProperMembers vs

end

@[simp] theorem plain_spelled (text : List Char) (v : Json) : (spelled text v).plain = v.plain := by
  cases v <;> rfl

/-! ### Values -/

theorem skipSpace_cons (hc : isSpace c = false) (cs : List Char) : skipSpace (c :: cs) = c :: cs := by
  simp [skipSpace, hc]

theorem isSpace_of_numeral (hc : c = '-' ∨ c.isDigit = true) : isSpace c = false := by
  by_contra hspace
  simp only [isSpace, Bool.not_eq_false, Bool.or_eq_true, beq_iff_eq] at hspace
  rcases hspace with ((rfl | rfl) | rfl) | rfl <;> exact absurd hc (by decide)

variable {v : Json}

/-- A written value starts with a character that is neither blank nor a closing bracket. -/
theorem compact_head (hv : v.Proper) : ∃ c cs, v.compact.toList = c :: cs ∧ isSpace c = false ∧ c ≠ ']' := by
  cases v with
  | null => exact ⟨'n', _, rfl, rfl, by decide⟩
  | bool b => cases b <;> exact ⟨_, _, rfl, rfl, by decide⟩
  | number s =>
    obtain ⟨hhead, hne, -⟩ := hv
    obtain ⟨c, cs, hs⟩ := exists_cons_of_ne_nil (mt String.toList_eq_nil_iff.mp hne)
    refine ⟨c, cs, hs, isSpace_of_numeral (hhead c (by simp [hs])), ?_⟩
    rintro rfl
    exact absurd (hhead ']' (by simp [hs])) (by decide)
  | string s => exact ⟨'"', _, toList_writeString s, rfl, by decide⟩
  | array items source =>
    exact ⟨'[', (compactItems true items).toList ++ [']'], by simp [compact], rfl, by decide⟩
  | object members =>
    exact ⟨'\x7b', (compactMembers true members).toList ++ ['\x7d'], by simp [compact], rfl, by decide⟩

theorem readValue_string (fuel room : Nat) (cs : List Char) : readValue (fuel + 1) room ('"' :: cs) =
      (readString fuel cs []).map fun (s, rest) => (.string s, rest) := by
  rfl

theorem readValue_number (fuel room : Nat) (cs : List Char) (hc : c = '-' ∨ c.isDigit = true) :
    readValue (fuel + 1) room (c :: cs) = (readNumber (c :: cs)).map fun (s, rest) => (.number s, rest) := by
  rw [readValue, skipSpace_cons (isSpace_of_numeral hc)]
  split
  case h_8 heq =>
    obtain ⟨rfl, rfl⟩ := List.cons.inj heq
    rw [if_pos (by simpa using hc)]
  case h_1 heq => cases heq
  all_goals
    rename_i heq
    obtain ⟨rfl, rfl⟩ := List.cons.inj heq
    exact absurd hc (by decide)

theorem readValue_array (fuel room : Nat) (cs : List Char) (hc : isSpace c = false) (hne : c ≠ ']') :
    readValue (fuel + 1) (room + 1) ('[' :: c :: cs) =
      (readItems fuel room (c :: cs)).map fun (items, rest) => (.array items "", rest) := by
  rw [readValue, skipSpace_cons rfl]
  simp only [skipSpace_cons hc]
  split
  · simp_all
  · rfl

theorem readValue_object (fuel room : Nat) (cs : List Char) : readValue (fuel + 1) (room + 1) ('\x7b' :: '"' :: cs) =
      (readMembers fuel room ('"' :: cs)).map fun (ms, rest) => (.object ms, rest) := by
  rfl

variable {ms : List (String × Json)}

section

variable {fuel room : Nat} {cs text more rest : List Char} {key : String} {w : Json}

theorem readItems_last (hw : readValue fuel room cs = .ok (w, ']' :: rest)) :
    readItems (fuel + 1) room cs = .ok ([w], rest) := by
  rw [readItems]
  simp [hw, skipSpace_cons (c := ']') rfl]

theorem readItems_more {ws : List Json} (hw : readValue fuel room cs = .ok (w, ',' :: more))
    (hws : readItems fuel room more = .ok (ws, rest)) :
    readItems (fuel + 1) room cs = .ok (w :: ws, rest) := by
  rw [readItems]
  simp [hw, skipSpace_cons (c := ',') rfl, hws, Except.map]

theorem readMembers_last (hkey : readString fuel cs [] = .ok (key, ':' :: text))
    (hw : readValue fuel room text = .ok (w, '\x7d' :: rest)) :
    readMembers (fuel + 1) room ('"' :: cs) = .ok ([(key, w.spelled text)], rest) := by
  rw [readMembers]
  simp [skipSpace_cons (c := '"') rfl, hkey, skipSpace_cons (c := ':') rfl, hw, skipSpace_cons (c := '\x7d') rfl]

theorem readMembers_more (hkey : readString fuel cs [] = .ok (key, ':' :: text))
    (hw : readValue fuel room text = .ok (w, ',' :: more)) (hms : readMembers fuel room more = .ok (ms, rest)) :
    readMembers (fuel + 1) room ('"' :: cs) = .ok ((key, w.spelled text) :: ms, rest) := by
  rw [readMembers]
  simp [skipSpace_cons (c := '"') rfl, hkey, skipSpace_cons (c := ':') rfl, hw,
    skipSpace_cons (c := ',') rfl, hms, Except.map]

end

/-- The items of an array as characters, up to and with the bracket that closes it. -/
theorem toList_compactItems (v : Json) (vs : List Json) : (compactItems true (v :: vs)).toList = v.compact.toList ++
      match vs with
      | [] => []
      | _ :: _ => ',' :: (compactItems true vs).toList := by
  cases vs <;> simp [compactItems]

theorem toList_compactMembers (k : String) (v : Json) (vs : List (String × Json)) :
    (compactMembers true ((k, v) :: vs)).toList = (writeString k).toList ++ ':' :: (v.compact.toList ++
        match vs with
        | [] => []
        | _ :: _ => ',' :: (compactMembers true vs).toList) := by
  cases vs <;> simp [compactMembers]

theorem readString_key {fuel : Nat} {k : String} (hfuel : (writeString k).toList.length ≤ fuel)
    (text : List Char) :
    readString fuel (k.toList.flatMap writeChar ++ '"' :: ':' :: text) [] = .ok (k, ':' :: text) := by
  have := length_le_writeString k
  rw [readString_write (by omega)]
  simp

/-- A value is read as it was written, whatever stands behind it, if there is fuel for its text and
it does not nest too deep. -/
def ReadsBack (v : Json) : Prop :=
  ∀ fuel room rest, v.Proper → 2 * v.compact.toList.length < fuel → v.depth ≤ room → Stops rest →
    ∃ w, readValue fuel room (v.compact.toList ++ rest) = .ok (w, rest) ∧ w.plain = v.plain

/-- The same for the items of an array, up to the bracket that closes it. -/
def ItemsReadBack (items : List Json) : Prop :=
  ∀ fuel room rest, items ≠ [] → ProperItems items →
    2 * (compactItems true items).toList.length + 1 < fuel → depthItems items ≤ room →
    ∃ ws, readItems fuel room ((compactItems true items).toList ++ ']' :: rest) = .ok (ws, rest) ∧
      plainItems ws = plainItems items

/-- The same for the members of an object, up to the brace that closes it. -/
def MembersReadBack (members : List (String × Json)) : Prop :=
  ∀ fuel room rest, members ≠ [] → ProperMembers members →
    2 * (compactMembers true members).toList.length + 1 < fuel → depthMembers members ≤ room →
    ∃ ws, readMembers fuel room ((compactMembers true members).toList ++ '\x7d' :: rest) =
      .ok (ws, rest) ∧ plainMembers ws = plainMembers members

theorem readsBack_null : ReadsBack .null := by
  intro fuel room rest _ hfuel _ _
  obtain ⟨fuel, rfl⟩ := exists_succ hfuel
  exact ⟨.null, by simp [compact, readValue, skipSpace, isSpace, readWord], rfl⟩

theorem readsBack_bool (b : Bool) : ReadsBack (.bool b) := by
  intro fuel room rest _ hfuel _ _
  obtain ⟨fuel, rfl⟩ := exists_succ hfuel
  refine ⟨.bool b, ?_, rfl⟩
  cases b <;> simp [compact, writeBool, readValue, skipSpace, isSpace, readWord]

theorem readsBack_number (s : String) : ReadsBack (.number s) := by
  intro fuel room rest hv hfuel _ hrest
  obtain ⟨fuel, rfl⟩ := exists_succ hfuel
  obtain ⟨hhead, hne, hread⟩ := hv
  obtain ⟨c, cs, hs⟩ := exists_cons_of_ne_nil (mt String.toList_eq_nil_iff.mp hne)
  refine ⟨.number s, ?_, rfl⟩
  have hread := hread rest hrest
  rw [hs, cons_append] at hread
  rw [compact, hs, cons_append, readValue_number fuel room _ (hhead c (by simp [hs])), hread]
  rfl

theorem readsBack_string (s : String) : ReadsBack (.string s) := by
  intro fuel room rest _ hfuel _ _
  obtain ⟨fuel, rfl⟩ := exists_succ hfuel
  refine ⟨.string s, ?_, rfl⟩
  have hlength := length_le_writeString s
  rw [compact] at hfuel ⊢
  rw [toList_writeString, cons_append, append_assoc, readValue_string, singleton_append, readString_write (by omega)]
  simp [Except.map]

theorem itemsReadBack_cons {vs : List Json} (hv : ReadsBack v) (hvs : ItemsReadBack vs) : ItemsReadBack (v :: vs) := by
  intro fuel room rest _ hproper hfuel hroom
  obtain ⟨fuel, rfl⟩ := exists_succ hfuel
  obtain ⟨hfirst, hothers⟩ := Nat.max_le.mp hroom
  rw [toList_compactItems] at hfuel ⊢
  cases vs with
  | nil =>
    simp only [append_nil] at hfuel ⊢
    obtain ⟨w, hw, hplain⟩ := hv fuel room (']' :: rest) hproper.1 (by omega) hfirst (by simp [Stops])
    exact ⟨[w], readItems_last hw, by simp [plainItems, hplain]⟩
  | cons v' vs =>
    simp only [length_append, length_cons] at hfuel
    obtain ⟨ws, hws, hplains⟩ := hvs fuel room rest (by simp) hproper.2 (by omega) hothers
    obtain ⟨w, hw, hplain⟩ := hv fuel room
      (',' :: ((compactItems true (v' :: vs)).toList ++ ']' :: rest)) hproper.1 (by omega) hfirst
      (by simp [Stops])
    refine ⟨w :: ws, ?_, by rw [plainItems, plainItems, hplain, hplains]⟩
    rw [append_assoc, cons_append]
    exact readItems_more hw hws

theorem readsBack_array {items : List Json} (hitems : ItemsReadBack items) (source : String) :
    ReadsBack (.array items source) := by
  intro fuel room rest hproper hfuel hroom _
  obtain ⟨fuel, rfl⟩ := exists_succ hfuel
  obtain ⟨room, rfl⟩ := exists_succ hroom
  cases items with
  | nil => exact ⟨.array [] "", by simp [compact, compactItems, readValue, skipSpace, isSpace], rfl⟩
  | cons v vs =>
    have htext : (compact (.array (v :: vs) source)).toList ++ rest =
        '[' :: ((compactItems true (v :: vs)).toList ++ ']' :: rest) := by
      simp [compact]
    have hlength : (compact (.array (v :: vs) source)).toList.length =
        (compactItems true (v :: vs)).toList.length + 2 := by
      simp [compact]
    obtain ⟨ws, hws, hplain⟩ := hitems fuel room rest (by simp) hproper (by omega) (Nat.le_of_succ_le_succ hroom)
    refine ⟨.array ws "", ?_, by rw [plain, plain, hplain]⟩
    obtain ⟨c, cs, hc, hspace, hne⟩ := compact_head hproper.1
    obtain ⟨more, hmore⟩ : ∃ more, (compactItems true (v :: vs)).toList ++ ']' :: rest = c :: more := by
      rw [toList_compactItems, hc]
      exact ⟨_, rfl⟩
    rw [htext, hmore, readValue_array fuel room more hspace hne, ← hmore, hws]
    rfl

theorem membersReadBack_cons (k : String) (hv : ReadsBack v)
    (hms : MembersReadBack ms) : MembersReadBack ((k, v) :: ms) := by
  intro fuel room rest _ hproper hfuel hroom
  obtain ⟨fuel, rfl⟩ := exists_succ hfuel
  obtain ⟨hfirst, hothers⟩ := Nat.max_le.mp hroom
  rw [toList_compactMembers] at hfuel ⊢
  simp only [length_append, length_cons] at hfuel
  have hlength : (writeString k).toList.length ≤ fuel := by omega
  have hkey := readString_key hlength
  simp only [toList_writeString, cons_append, append_assoc, nil_append]
  cases ms with
  | nil =>
    obtain ⟨w, hw, hplain⟩ := hv fuel room ('\x7d' :: rest) hproper.1 (by omega) hfirst (by simp [Stops])
    exact ⟨_, readMembers_last (hkey _) hw, by simp [plainMembers, hplain]⟩
  | cons m ms =>
    simp only [length_cons] at hfuel
    obtain ⟨ws, hws, hplains⟩ := hms fuel room rest (by simp) hproper.2 (by omega) hothers
    obtain ⟨w, hw, hplain⟩ := hv fuel room
      (',' :: ((compactMembers true (m :: ms)).toList ++ '\x7d' :: rest)) hproper.1 (by omega) hfirst
      (by simp [Stops])
    refine ⟨_, readMembers_more (hkey _) hw hws, ?_⟩
    rw [plainMembers, plainMembers, plain_spelled, hplain, hplains]

theorem readsBack_object {members : List (String × Json)} (hmembers : MembersReadBack members) :
    ReadsBack (.object members) := by
  intro fuel room rest hproper hfuel hroom _
  obtain ⟨fuel, rfl⟩ := exists_succ hfuel
  obtain ⟨room, rfl⟩ := exists_succ hroom
  cases members with
  | nil => exact ⟨.object [], by simp [compact, compactMembers, readValue, skipSpace, isSpace], rfl⟩
  | cons m ms =>
    have htext : (compact (.object (m :: ms))).toList ++ rest =
        '\x7b' :: ((compactMembers true (m :: ms)).toList ++ '\x7d' :: rest) := by
      simp [compact]
    have hlength : (compact (.object (m :: ms))).toList.length = (compactMembers true (m :: ms)).toList.length + 2 := by
      simp [compact]
    obtain ⟨ws, hws, hplain⟩ :=
      hmembers fuel room rest (by simp) hproper (by omega) (Nat.le_of_succ_le_succ hroom)
    refine ⟨.object ws, ?_, by rw [plain, plain, hplain]⟩
    obtain ⟨more, hmore⟩ : ∃ more,
        (compactMembers true (m :: ms)).toList ++ '\x7d' :: rest = '"' :: more := by
      rw [toList_compactMembers, toList_writeString]
      exact ⟨_, rfl⟩
    rw [htext, hmore, readValue_object fuel room more, ← hmore, hws]
    rfl

mutual

/-- **A written value is read as it was.** -/
theorem readsBack : ∀ v : Json, ReadsBack v
  | .null => readsBack_null
  | .bool b => readsBack_bool b
  | .number s => readsBack_number s
  | .string s => readsBack_string s
  | .array items source => readsBack_array (itemsReadBack items) source
  | .object members => readsBack_object (membersReadBack members)

theorem itemsReadBack : ∀ items : List Json, ItemsReadBack items
  | [] => fun _ _ _ hne => absurd rfl hne
  | v :: vs => itemsReadBack_cons (readsBack v) (itemsReadBack vs)

theorem membersReadBack : ∀ members : List (String × Json), MembersReadBack members
  | [] => fun _ _ _ hne => absurd rfl hne
  | (k, v) :: ms => membersReadBack_cons k (readsBack v) (membersReadBack ms)

end

/-- **A text that was written is read** as the value it was written for. -/
theorem read_compact (hv : v.Proper) (hdepth : v.depth ≤ maxDepth) :
    ∃ w, read v.compact = .ok w ∧ w.plain = v.plain := by
  obtain ⟨w, hw, hplain⟩ := readsBack v (2 * v.compact.toList.length + 2) maxDepth [] hv (by omega) hdepth
    (by simp [Stops])
  refine ⟨w, ?_, hplain⟩
  rw [append_nil] at hw
  simp [read, readFirst, hw, skipSpace]

/-! ### Objects and arrays from the texts of their parts -/

theorem compactMembers_eq_intercalate : ∀ members : List (String × Json),
    compactMembers true members = ",".intercalate (members.map fun m => writeString m.1 ++ ":" ++ m.2.compact)
  | [] => rfl
  | [m] => by simp [compactMembers]
  | m :: m' :: members => by
    have ih := compactMembers_eq_intercalate (m' :: members)
    rw [map_cons] at ih
    rw [map_cons, map_cons, String.intercalate_cons_cons, ← ih]
    simp [compactMembers, String.append_assoc]

theorem writeObject_eq_compact (members : List (String × Json)) :
    writeObject (members.map fun m => (m.1, m.2.compact)) = (object members).compact := by
  rw [compact, compactMembers_eq_intercalate, writeObject, map_map]
  rfl

theorem compactItems_eq_intercalate : ∀ items : List Json,
    compactItems true items = ",".intercalate (items.map compact)
  | [] => rfl
  | [v] => by simp [compactItems]
  | v :: v' :: items => by
    have ih := compactItems_eq_intercalate (v' :: items)
    rw [map_cons] at ih
    rw [map_cons, map_cons, String.intercalate_cons_cons, ← ih]
    simp [compactItems, String.append_assoc]

theorem writeArray_eq_compact (items : List Json) (source : String) :
    writeArray (items.map compact) = (array items source).compact := by
  rw [compact, compactItems_eq_intercalate, writeArray]

end Json

end BlockProgram
