import BlockProgram.Proofs.Block.Mutation
import BlockProgram.Proofs.Number.Whole
import BlockProgram.Proofs.Number.Wide

/-! # The two encodings of a mutation

The shape of a block is written as an object, or as a string with a markup element.  Both are read
alike, for every type of block: what is not said follows from the type, and what is said is found
again behind the escapes of markup and of JSON. The one exception are characters that markup cannot
hold, such as most control characters: a string with one of them is refused
(`Mutation.encodings_alike`).
-/
namespace BlockProgram

open List Json

namespace Markup

/-! ### Attributes that are written -/

/-- What is written behind an ampersand for some characters in the value of an attribute. -/
def escapes : List (Char × String) :=
  [('&', "amp;"), ('<', "lt;"), ('>', "gt;"), ('"', "#34;"), ('\'', "#39;"), ('\t', "#x9;"), ('\n', "#xA;"),
   ('\r', "#xD;")]

def escapeChar (c : Char) : List Char := (escapes.lookup c).elim [c] ('&' :: ·.toList)

def attributeText (a : String × String) : List Char :=
  ' ' :: (a.1.toList ++ '=' :: '"' :: (a.2.toList.flatMap escapeChar ++ ['"']))

/-- Markup can hold the values of the attributes. -/
def writable (as : List (String × String)) : Bool := as.all fun a => a.2.toList.all isTextChar

def readAs (as : List (String × String)) : List (Name × String) := as.map fun a => (⟨"", a.1⟩, a.2)

theorem readQuoted_escapeChar (c : Char) (fuel : Nat) (rest done : List Char) :
    readQuoted '"' (fuel + 1) (escapeChar c ++ rest) done =
      if isTextChar c then readQuoted '"' fuel rest (c :: done) else .error .malformed := by
  by_cases hc : c ∈ escapes.map (·.1)
  · simp only [escapes, map_cons, map_nil, mem_cons, not_mem_nil, or_false] at hc
    rcases hc with rfl | rfl | rfl | rfl | rfl | rfl | rfl | rfl <;> rfl
  · have hlookup : escapes.lookup c = none :=
      lookup_eq_none_iff.mpr fun p hp => bne_iff_ne.mpr fun h => hc (h ▸ mem_map_of_mem hp)
    simp only [escapes, map_cons, map_nil, mem_cons, not_mem_nil, or_false, not_or] at hc
    simp [escapeChar, hlookup, hc, readQuoted]

theorem readQuoted_escaped {s : List Char} {fuel : Nat} (hfuel : s.length < fuel) (rest done : List Char) :
    readQuoted '"' fuel (s.flatMap escapeChar ++ '"' :: rest) done =
      if s.all isTextChar then .ok (String.ofList (done.reverse ++ s), rest) else .error .malformed := by
  induction s generalizing fuel done with
  | nil =>
    obtain ⟨fuel, rfl⟩ := exists_succ hfuel
    simp [readQuoted]
  | cons c s ih =>
    obtain ⟨fuel, rfl⟩ := exists_succ hfuel
    rw [flatMap_cons, append_assoc, readQuoted_escapeChar, ih (Nat.lt_of_succ_lt_succ hfuel)]
    cases hc : isTextChar c <;> simp [hc]

theorem length_le_escaped (s : List Char) : s.length ≤ (s.flatMap escapeChar).length := by
  induction s with
  | nil => exact Nat.le_refl 0
  | cons c s ih =>
    have hchar : 1 ≤ (escapeChar c).length := by
      unfold escapeChar
      cases escapes.lookup c <;> simp
    rw [flatMap_cons, length_append, length_cons]
    omega

/-- An attribute with this name is read, and then the others. -/
def IsKey (key : String) : Prop := ∀ fuel text done,
  readAttributes (fuel + 1) (' ' :: (key.toList ++ '=' :: '"' :: text)) done =
    match readQuoted '"' fuel text [] with
    | .error e => .error e
    | .ok (value, rest) => readAttributes fuel rest ((⟨"", key⟩, value) :: done)

/-- **Attributes are read as they were written**, if markup can hold them. -/
theorem readAttributes_written {as : List (String × String)} (hkeys : ∀ a ∈ as, IsKey a.1) {tail rest : List Char}
    {closes : Bool} (htail : ∀ fuel done, readAttributes (fuel + 1) tail done = .ok (done.reverse, closes, rest))
    {fuel : Nat} (hfuel : (as.flatMap attributeText).length < fuel) (done : List (Name × String)) :
    readAttributes fuel (as.flatMap attributeText ++ tail) done =
      if writable as then .ok (done.reverse ++ readAs as, closes, rest) else .error .malformed := by
  induction as generalizing fuel done with
  | nil =>
    obtain ⟨fuel, rfl⟩ := exists_succ hfuel
    simp [htail, writable, readAs]
  | cons a as ih =>
    obtain ⟨fuel, rfl⟩ := exists_succ hfuel
    have hlength := length_le_escaped a.2.toList
    simp only [flatMap_cons, length_append, attributeText, length_cons, length_nil] at hfuel
    have hvalue : a.2.toList.length < fuel := by omega
    have hrest : (as.flatMap attributeText).length < fuel := by omega
    have hwritable : writable (a :: as) = (a.2.toList.all isTextChar && writable as) := rfl
    rw [flatMap_cons, attributeText, hwritable]
    simp only [cons_append, append_assoc, nil_append, hkeys a mem_cons_self _ _ _, readQuoted_escaped hvalue]
    cases a.2.toList.all isTextChar with
    | false => rfl
    | true => simp [ih (fun b hb => hkeys b (mem_cons_of_mem a hb)) hrest, readAs]

section

variable {fuel : Nat} {text rest rest' : List Char} {name : Name} {as : List (Name × String)} {w : Bool}
  (hname : readName text = .ok (name, rest))
include hname

theorem readElement_closed
    (has : readAttributes fuel rest [] = if w then .ok (as, true, rest') else .error .malformed) :
    readElement (fuel + 1) text = if w then .ok (.mk name as [], rest') else .error .malformed := by
  unfold readElement
  rw [hname]
  dsimp only
  rw [has]
  cases w <;> rfl

theorem readElement_open {children : List Element} {w' : Bool} {last : List Char}
    (has : readAttributes fuel rest [] = if w then .ok (as, false, rest') else .error .malformed)
    (hchildren : readContent fuel name rest' = if w' then .ok (children, last) else .error .malformed) :
    readElement (fuel + 1) text = if w && w' then .ok (.mk name as children, last) else .error .malformed := by
  unfold readElement
  rw [hname]
  dsimp only
  rw [has]
  cases w with
  | false => rfl
  | true =>
    simp only [if_true, Bool.true_and, hchildren]
    cases w' <;> rfl

end

end Markup

open Markup

namespace Mutation

/-! ### Shapes that are written -/

/-- What the editor says about the shape of a block. -/
structure Shape where
  itemCount : Option { i : Int // Number.fitsInteger i = true }
  elseIfCount : { i : Int // Number.fitsInteger i = true }
  hasElse : Bool
  returnsValue : Option Bool
  name : String
  params : List Param

namespace Shape

def parameter (p : Param) : Json := .object [("name", .string p.name), ("id", .string p.id)]

def members (s : Shape) : List (String × Json) :=
  [("itemCount", s.itemCount.map fun n => .number (toString n.1)),
   ("elseIfCount", some (.number (toString s.elseIfCount.1))),
   ("hasElse", if s.hasElse then some (.bool true) else none),
   ("hasReturnValue", s.returnsValue.map .bool),
   ("name", some (.string s.name)),
   ("params", some (.array (s.params.map parameter) ""))].filterMap
    fun p => p.2.map (p.1, ·)

def parts (s : Shape) : List (String × Option String) :=
  [("items", s.itemCount.map fun n => toString n.1), ("elseif", some (toString s.elseIfCount.1)),
   ("else", if s.hasElse then some (toString (1 : Int)) else none),
   ("value", s.returnsValue.map fun b => toString (if b then 1 else 0 : Int)), ("name", some s.name)]

/-- The shape as the attributes of an element. -/
def attributes (s : Shape) : List (String × String) := s.parts.filterMap fun p => p.2.map (p.1, ·)

/-- A parameter as the attributes of an element. -/
def argument (p : Param) : List (String × String) := [("name", p.name), ("varid", p.id)]

def argumentText (p : Param) : List Char :=
  '<' :: ("arg".toList ++ ((argument p).flatMap attributeText ++ "/>".toList))

def markupChars (s : Shape) : List Char :=
  '<' :: ("mutation".toList ++ (s.attributes.flatMap attributeText ++
    '>' :: (s.params.flatMap argumentText ++ "</mutation>".toList)))

def markup (s : Shape) : String := String.ofList s.markupChars

def element (s : Shape) : Element :=
  .mk ⟨"", "mutation"⟩ (readAs s.attributes)
    (s.params.map fun p => .mk ⟨"", "arg"⟩ (readAs (argument p)) [])

/-- Markup can hold the names and ids. -/
def writable (s : Shape) : Bool :=
  s.name.toList.all isTextChar && s.params.all fun p => Markup.writable (argument p)

def mutation (s : Shape) (type : String) : Mutation where
  itemCount := (s.itemCount.map (·.1)).getD (initial type).itemCount
  elseIfCount := s.elseIfCount.1
  hasElse := (initial type).hasElse || s.hasElse
  params := s.params
  name := s.name
  hasReturnValue := s.returnsValue.getD (initial type).hasReturnValue

end Shape

theorem readInteger?_toString {i : Int} (hi : Number.fitsInteger i = true) :
    Number.readInteger? (toString i).toList = some i := by
  have hchars := Number.readInteger?_chars (n := digitsOf i.natAbs) rfl (decide (i < 0)) i
  rw [chars_digitsOf, ← toList_toString] at hchars
  refine hchars.mpr ⟨rfl, hi, ?_⟩
  simp only [digitsOf, Number.digitsValue_toDigits, decide_eq_true_eq]
  split <;> omega

namespace Shape

variable (s : Shape) (type : String)

theorem takeItems_params : takeItems (fun p => takeParam (p.getD ⟨"", ""⟩)) {} (s.params.map parameter) =
    .ok ⟨s.params, []⟩ := by
  show takeList (fun p => takeParam (p.getD ⟨"", ""⟩)) {} (.array _ "") = _
  refine takeList_fresh (fun p => ?_) s.params ""
  simp [parameter, takeParam, takeMembers, foldKey_keys, takeString, Except.map, bind, Except.bind, pure, Except.pure]

theorem ofJson_members : ofJson type (.object s.members) = .ok (s.mutation type) := by
  have hparam := s.takeItems_params
  have hcount (n : { i : Int // Number.fitsInteger i = true }) := readInteger?_toString n.2
  cases hitems : s.itemCount <;> cases hself : s.hasElse <;> cases hvalue : s.returnsValue <;>
    simp [ofJson, members, mutation, Entry.ofMembers, Entry.update, takeOption, takeInt, takeBool,
      takeString, ofEntry, Except.map, foldKey_keys, hparam, hcount, hitems, hself,
      hvalue, -Int.toString_eq_repr]

theorem filter_attributes (key : String) (text : Option String) (h : (key, text) ∈ s.parts) :
    s.element.attributes.filter (·.1.base = key) = (text.map fun t => (⟨"", key⟩, t)).toList := by
  simp only [parts, mem_cons, not_mem_nil, or_false, Prod.mk.injEq] at h
  rcases h with ⟨rfl, rfl⟩ | ⟨rfl, rfl⟩ | ⟨rfl, rfl⟩ | ⟨rfl, rfl⟩ | ⟨rfl, rfl⟩
  all_goals
    cases h : s.itemCount <;> cases h' : s.hasElse <;> cases h'' : s.returnsValue <;>
      simp [element, Element.attributes, attributes, parts, readAs, h, h', h'']

theorem wholeAttribute?_element (key : String) (count : Option { i : Int // Number.fitsInteger i = true })
    (h : (key, count.map fun n => toString n.1) ∈ s.parts) : wholeAttribute? s.element key = .ok (count.map (·.1)) := by
  unfold wholeAttribute?
  rw [s.filter_attributes key _ h]
  cases count with
  | none => rfl
  | some n =>
    have hread := readInteger?_toString n.2
    have hne : toString n.1 ≠ "" := by
      intro hnil
      rw [hnil] at hread
      cases hread
    have htrim : Text.trimChars (toString n.1).toList = (toString n.1).toList := by
      refine Number.trimChars_of_all fun c hc => ?_
      rcases mem_toString hc with rfl | hdigit
      · decide
      · exact Number.not_isBlank_of_isDigit hdigit
    simp only [Option.map_some, Option.toList_some, foldlM_cons, foldlM_nil, if_neg hne, htrim, hread]
    rfl

theorem ofElement_element : ofElement type s.element = .ok (s.mutation type) := by
  have hitems := s.wholeAttribute?_element "items" s.itemCount (by simp [parts])
  have helseIf := s.wholeAttribute?_element "elseif" (some s.elseIfCount) (by simp [parts])
  have helse := s.wholeAttribute?_element "else" (if s.hasElse then some ⟨1, by decide⟩ else none)
    (by cases h : s.hasElse <;> simp [parts, h])
  have hvalue := s.wholeAttribute?_element "value"
    (s.returnsValue.map fun b => ⟨if b then 1 else 0, by cases b <;> decide⟩) (by simp [parts, Function.comp_def])
  have hname : s.element.attribute? "name" = some s.name := by
    rw [Element.attribute?, ← List.head?_filter, filter_reverse,
      s.filter_attributes "name" (some s.name) (by simp [parts])]
    rfl
  have hparams : (s.element.children.filter (·.name.base = "arg")).map
      (fun a => (⟨(a.attribute? "name").getD "", (a.attribute? "varid").getD ""⟩ : Param)) = s.params := by
    have hargs : s.element.children.filter (·.name.base = "arg") = s.element.children :=
      filter_eq_self.mpr (by simp [element, Element.children, Element.name])
    rw [hargs, element, Element.children, map_map]
    exact map_id _
  unfold ofElement
  simp only [hitems, helseIf, helse, hvalue, hname, hparams]
  cases h : s.hasElse <;> cases h' : s.returnsValue <;>
    simp [mutation, h, h', bind, Except.bind, pure, Except.pure]

omit type in
theorem proper_members : (object s.members).Proper ∧ (object s.members).depth ≤ 3 := by
  have hparams : ProperItems (s.params.map parameter) :=
    properItems_map (fun p => by simp [parameter, Proper, ProperMembers]) _
  have hdepth : depthItems (s.params.map parameter) ≤ 1 :=
    depthItems_map fun p => by simp [parameter, depth, depthMembers]
  cases h : s.itemCount <;> cases h' : s.hasElse <;> cases h'' : s.returnsValue <;>
    simp [members, Proper, ProperMembers, depth, depthMembers, isNumeral_toString, hparams, h, h',
      h'', -Int.toString_eq_repr] <;> omega

omit s in
theorem isTextChar_toString (i : Int) : (toString i).toList.all isTextChar = true := by
  refine all_eq_true.mpr fun c hc => ?_
  rcases mem_toString hc with rfl | hdigit
  · decide
  · have hbounds : 48 ≤ c.toNat ∧ c.toNat ≤ 57 := by
      simpa [Char.isDigit, UInt32.le_iff_toNat_le] using hdigit
    simp only [isTextChar, Bool.or_eq_true, Bool.and_eq_true, decide_eq_true_eq]
    omega

omit s in
theorem isKey_argument (p : Param) : ∀ a ∈ argument p, IsKey a.1 := by
  simp only [argument, forall_mem_cons]
  exact ⟨fun _ _ _ => rfl, fun _ _ _ => rfl, forall_mem_nil _⟩

theorem isKey_attributes : ∀ a ∈ s.attributes, IsKey a.1 := by
  have hparts : ∀ p ∈ s.parts, IsKey p.1 := by
    simp only [parts, forall_mem_cons]
    exact ⟨fun _ _ _ => rfl, fun _ _ _ => rfl, fun _ _ _ => rfl, fun _ _ _ => rfl, fun _ _ _ => rfl, forall_mem_nil _⟩
  intro a ha
  obtain ⟨p, hp, hpa⟩ := mem_filterMap.mp ha
  obtain ⟨text, -, rfl⟩ := Option.map_eq_some_iff.mp hpa
  exact hparts p hp

omit s in
theorem readContent_tag (p : Param) (rest : List Char) (fuel : Nat) :
    readContent (fuel + 2) ⟨"", "mutation"⟩ (argumentText p ++ rest) =
      match readElement (fuel + 1) (argumentText p ++ rest).tail with
      | .error e => .error e
      | .ok (child, rest) =>
        match readContent (fuel + 1) ⟨"", "mutation"⟩ rest with
        | .error e => .error e
        | .ok (children, rest) => .ok (child :: children, rest) := rfl

omit s in
theorem readContent_arguments (ps : List Param) {fuel : Nat} (hfuel : (ps.flatMap argumentText).length + 1 < fuel) :
    readContent fuel ⟨"", "mutation"⟩ (ps.flatMap argumentText ++ "</mutation>".toList) =
      if ps.all (fun p => Markup.writable (argument p)) then
        .ok (ps.map fun p => .mk ⟨"", "arg"⟩ (readAs (argument p)) [], [])
      else .error .malformed := by
  induction ps generalizing fuel with
  | nil =>
    obtain ⟨fuel, rfl⟩ := Nat.exists_eq_add_of_le' hfuel
    rfl
  | cons p ps ih =>
    simp only [flatMap_cons, length_append, argumentText, length_cons] at hfuel
    obtain ⟨fuel, rfl⟩ : ∃ n, fuel = n + 2 := ⟨fuel - 2, by omega⟩
    have hrest := @ih (fuel + 1) (by omega)
    rw [flatMap_cons, append_assoc, all_cons]
    generalize ps.flatMap argumentText ++ "</mutation>".toList = rest at hrest ⊢
    have hargument : readElement (fuel + 1) (argumentText p ++ rest).tail = if Markup.writable (argument p) then
        .ok (.mk ⟨"", "arg"⟩ (readAs (argument p)) [], rest) else .error .malformed := by
      simp only [argumentText, cons_append, append_assoc, tail_cons]
      exact readElement_closed rfl (readAttributes_written (isKey_argument p) (fun _ _ => rfl) (by omega) [])
    rw [readContent_tag, hargument]
    cases Markup.writable (argument p) with
    | false => rfl
    | true =>
      simp only [if_true, Bool.true_and, hrest]
      cases ps.all fun p => Markup.writable (argument p) <;> rfl

/-- The element is read from its text, if markup can hold it. -/
theorem read_markup : Markup.read s.markup = if s.writable then .ok s.element else .error .malformed := by
  have hwritable : Markup.writable s.attributes = s.name.toList.all isTextChar := by
    cases h : s.itemCount <;> cases h' : s.hasElse <;> cases h'' : s.returnsValue <;>
      simp [Markup.writable, attributes, parts, isTextChar_toString, h, h', h'', -Int.toString_eq_repr]
  have hchars : s.markup.toList = s.markupChars := String.toList_ofList
  generalize hn : 2 * s.markupChars.length = n
  have hlength : (s.attributes.flatMap attributeText).length + (s.params.flatMap argumentText).length + 1 < n := by
    rw [← hn, markupChars]
    simp only [length_cons, length_append]
    omega
  have hname : readName s.markupChars.tail = .ok (⟨"", "mutation"⟩,
      s.attributes.flatMap attributeText ++ '>' :: (s.params.flatMap argumentText ++ "</mutation>".toList)) := by
    obtain ⟨text, htext⟩ : ∃ text, s.attributes.flatMap attributeText = ' ' :: text := by
      unfold attributes parts
      cases s.itemCount <;> exact ⟨_, rfl⟩
    rw [markupChars, htext]
    rfl
  have helement : readElement (n + 1) s.markupChars.tail = if Markup.writable s.attributes && s.params.all
      (fun p => Markup.writable (argument p)) then .ok (s.element, []) else .error .malformed :=
    readElement_open hname (readAttributes_written s.isKey_attributes (fun _ _ => rfl) (by omega) [])
      (readContent_arguments s.params (by omega))
  have htag : Markup.read s.markup = (readElement (n + 1) s.markupChars.tail).map (·.1) := by
    unfold Markup.read
    dsimp only
    rw [hchars, hn]
    rfl
  rw [htag, helement, hwritable]
  unfold writable
  cases s.name.toList.all isTextChar && s.params.all fun p => Markup.writable (argument p) <;> rfl

end Shape

/-- Reads the mutation of a block of the given type from its text in JSON. -/
def ofText (type text : String) : Except Fault Mutation :=
  match Json.read text with
  | .ok v => ofJson type v
  | .error f => .error (.json f)

theorem ofText_members (type : String) (s : Shape) :
    ofText type (object s.members).compact = .ok (s.mutation type) := by
  obtain ⟨hproper, hdepth⟩ := s.proper_members
  obtain ⟨w, hread, hplain⟩ := read_compact hproper (Nat.le_trans hdepth (by decide))
  have hw := ofJson_plain type w
  rw [hplain, ofJson_plain, s.ofJson_members] at hw
  rw [ofText, hread]
  dsimp only
  cases h : ofJson type w with
  | error f =>
    rw [h] at hw
    cases hw
  | ok m =>
    rw [h] at hw
    rw [← Option.some.inj hw]

theorem ofText_markup (type : String) (s : Shape) : ofText type (string s.markup).compact =
    if s.writable then .ok (s.mutation type) else .error (.markup s.markup .malformed) := by
  obtain ⟨w, hread, hplain⟩ := read_compact (v := .string s.markup) trivial (Nat.zero_le _)
  obtain rfl : w = .string s.markup := by
    cases w <;> simp_all [plain]
  rw [ofText, hread]
  dsimp only
  rw [ofJson, s.read_markup]
  · cases s.writable with
    | false => rfl
    | true => simp [s.ofElement_element]
  · intro h
    cases String.toList_ofList.symm.trans (congrArg String.toList h)

/-- **Both encodings are read alike.**  Whatever the type of a block and the shape that is written,
the object is read as the mutation of that shape.  So is the string with markup, unless a name or an
id has a character that markup cannot hold, and then it is refused. -/
theorem encodings_alike (type : String) (s : Shape) : ofText type (object s.members).compact = .ok (s.mutation type) ∧
    ofText type (string s.markup).compact =
      if s.writable then .ok (s.mutation type) else .error (.markup s.markup .malformed) :=
  ⟨ofText_members type s, ofText_markup type s⟩

/-- The name of a procedure with a control character. -/
theorem encodings_differ : ¬ ∀ type s,
    ofText type (object (Shape.members s)).compact = ofText type (string s.markup).compact := by
  intro h
  have hdiffer := h "" ⟨none, ⟨0, by decide⟩, false, none, "\x01", []⟩
  rw [ofText_members, ofText_markup, if_neg (by decide)] at hdiffer
  cases hdiffer

end Mutation

end BlockProgram
