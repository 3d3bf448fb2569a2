import BlockProgram.Proofs.Hcl.Library
import BlockProgram.Workspace.Load

/-! # Where reading a configuration document breaks down

A configuration document is read to a workspace or to complaints, unless a value is used that is not
there: a null or unknown text as a key or as a reference to a variable, a plain value that is
unknown as a field, and a null or unknown object as fields or references.  Such an attribute breaks
(`Hcl.Breaks`), with every library that breaks off a use of what is not there.  Reading goes on
after complaints, but not into sections that are not as they should be.  So it breaks down exactly
if there is a breaking attribute in a block that it comes to (`Hcl.Section.Breaks`,
`Workspace.load_sections_cases`).
-/
namespace BlockProgram

open Workspace

variable {α β : Type}

/-- The step of reading breaks down if `P` holds, from every state, and otherwise gives a result
with the property `Q`. -/
def Settles (x : SectionM α) (P : Prop) (Q : α → Prop := fun _ => True) : Prop :=
  ∀ s : SectionState, P ∧ (∃ b, (x.run s).1 = .error b) ∨ ¬ P ∧ ∃ a, (x.run s).1 = .ok a ∧ Q a

class Lasting (x : SectionM α) : Prop where
  settles : Settles x False

namespace Settles

variable {x : SectionM α} {g : α → SectionM β} {P T : Prop} {Q : α → Prop} {R : β → Prop}

theorem congr (h : Settles x P Q) (hP : P ↔ T) : Settles x T Q := propext hP ▸ h

theorem mono {Q' : α → Prop} (h : Settles x P Q) (hQ : ∀ a, Q a → Q' a) : Settles x P Q' := fun s =>
  (h s).imp_right fun ⟨hP, a, ha, hQa⟩ => ⟨hP, a, ha, hQ a hQa⟩

theorem pure {a : α} (hP : ¬ P) (h : Q a) : Settles (Pure.pure a) P Q := fun _ => .inr ⟨hP, a, rfl, h⟩

theorem throw (b : Breakdown) (hP : P) : Settles (MonadExcept.throw b) P Q := fun _ => .inl ⟨hP, b, rfl⟩

theorem bind (hx : Settles x P Q) (hg : ∀ a, Q a → Settles (g a) T R) : Settles (x >>= g) (P ∨ T) R := by
  intro s
  change _ ∧ (∃ b, (ExceptT.bindCont g (x.run s).1 (x.run s).2).1 = _) ∨
    _ ∧ ∃ b, (ExceptT.bindCont g (x.run s).1 (x.run s).2).1 = _ ∧ _
  rcases hx s with ⟨hP, b, hb⟩ | ⟨hP, a, ha, hQ⟩
  · rw [hb]
    exact .inl ⟨.inl hP, b, rfl⟩
  · rw [ha, or_iff_right hP]
    exact hg a hQ _

theorem ite {p : Prop} [Decidable p] {x y : SectionM α} (hx : Settles x P Q) (hy : Settles y P Q) :
    Settles (if p then x else y) P Q := by
  split <;> assumption

theorem of_not [hx : Lasting x] (hP : ¬ P) : Settles x P := hx.settles.congr (iff_of_false not_false hP)

/-- A step that never breaks down, and then another. -/
theorem after [hx : Lasting x] (hg : ∀ a, Settles (g a) P R) : Settles (x >>= g) P R :=
  (hx.settles.bind fun a _ => hg a).congr (iff_of_eq (false_or P))

/-- One of two steps that never break down, and then another. -/
theorem after_ite {p : Prop} [Decidable p] {y : SectionM α} [Lasting x] [Lasting y] (hg : ∀ a, Settles (g a) P R) :
    Settles (if p then x >>= g else y >>= g) P R :=
  .ite (.after hg) (.after hg)

theorem bind_lasting (hx : Settles x P Q) (hg : ∀ a, Q a → Settles (g a) False R) : Settles (x >>= g) P R :=
  (hx.bind hg).congr (iff_of_eq (or_false P))

end Settles

theorem Settles.ofExcept (x : Except Breakdown α) :
    Settles (MonadExcept.ofExcept x) (x.toOption = none) (x.toOption = some ·) := by
  cases x with
  | error b => exact .throw b rfl
  | ok a => exact .pure nofun rfl

/-- What is converted is used, and nothing breaks down unless the conversion does. -/
theorem Settles.use {x : Except Breakdown α} {o : Option α} (hx : x.toOption = o) {g : α → SectionM β} {Q : β → Prop}
    (hg : ∀ a, o = some a → Settles (g a) False Q) : Settles (MonadExcept.ofExcept x >>= g) (o = none) Q := by
  subst hx
  exact (Settles.ofExcept x).bind_lasting hg

instance (a : α) : Lasting (pure a : SectionM α) := ⟨.pure not_false trivial⟩

instance {x : SectionM α} {g : α → SectionM β} [Lasting x] [hg : ∀ a, Lasting (g a)] : Lasting (x >>= g) :=
  ⟨.after fun a => (hg a).settles⟩

instance {p : Prop} [Decidable p] {x y : SectionM α} [hx : Lasting x] [hy : Lasting y] : Lasting (if p then x else y) := by
  split <;> assumption

instance (c : Complaint) : Lasting (SectionM.complain c) := ⟨fun _ => .inr ⟨not_false, (), rfl, trivial⟩⟩

instance : Lasting SectionM.drawId := ⟨fun _ => .inr ⟨not_false, _, rfl, trivial⟩⟩

section

variable [L : Hcl.Library]

namespace Hcl

/-! ### Attributes -/

def Value.isMissingText : Value → Bool
  | .null .string | .unknown .string => true
  | _ => false

/-- A plain value that is not known. -/
def Value.isUnknownPlain : Value → Bool
  | .unknown t => t.kind = .plain
  | _ => false

/-- An object or a map that is not there. -/
def Value.IsMissingCollection (v : Value) : Prop :=
  v.members? = none ∧ (v.type.kind = .object ∨ v.type.kind = .map)

/-- The member that is written with a key and a value: its key is a text, and its value can be
evaluated. -/
def writtenMember? (item : L.Expr × L.Expr) : Option (String × Value) :=
  if (L.eval item.2).faulty then none else (L.eval item.1).value.text?.map (·, (L.eval item.2).value)

/-- The key of a member that is written is not there. -/
def Unkeyed (item : L.Expr × L.Expr) : Prop :=
  (L.eval item.2).faulty = false ∧ (L.eval item.1).value.isMissingText

def Attribute.members (a : Attribute L.Expr) : List (String × Value) :=
  match L.items? a.expr with
  | some items => items.filterMap writtenMember?
  | none => if (L.eval a.expr).faulty then [] else (L.eval a.expr).value.members?.getD []

/-- The attribute has no members, since a key or all of it is not there. -/
def Attribute.Lacks (a : Attribute L.Expr) : Prop :=
  match L.items? a.expr with
  | some items => ∃ item ∈ items, Unkeyed item
  | none => (L.eval a.expr).faulty = false ∧ (L.eval a.expr).value.IsMissingCollection

/-- Some attribute with this name cannot be read, since its members or a value of them is not
there. -/
def Breaks (as : List (Attribute L.Expr)) (name : String) (missing : Value → Bool) : Prop :=
  ∃ a, attribute? name as = some a ∧ (a.Lacks ∨ ∃ m ∈ a.members, missing m.2)

variable {as : List (Attribute L.Expr)} {name : String}

instance {of : Value → Except String α} {old : α} : Lasting (readAttribute as name of old) := by
  unfold readAttribute
  split
  · infer_instance
  · dsimp only
    split
    · infer_instance
    · split <;> infer_instance

instance {type : String} {start : Pos} : Lasting (readMutation as type start) := by
  -- Found as an instance below, in each of the cases in which there is some text.
  have hrest : ∀ text, Lasting (match (match Json.read text with
        | .ok json => Mutation.ofJson type json
        | .error f => .error (.json f)) with
      | .ok m => pure m
      | .error f => do
        SectionM.complain (.mutation f start)
        pure {} : SectionM Mutation) := by
    intro text
    split <;> infer_instance
  unfold readMutation
  dsimp only
  split
  · infer_instance
  · split
    · infer_instance
    · split <;> infer_instance

section

variable (hL : L.Converts)
include hL

theorem settles_keyText (v : Value) : Settles (keyText v) v.isMissingText (· = v.text?) := by
  have htext (hv : v.type = .string) : Settles (keyText v) v.isMissingText (· = v.text?) := by
    have hmissing : v.text? = none ↔ v.isMissingText := by
      cases v <;> simp_all [Value.type, Value.text?, Value.isMissingText]
    unfold keyText
    rw [hv]
    exact (Settles.use (hL.asString_eq v) fun s hs => .pure not_false hs.symm).congr hmissing
  cases v with
  | string s => exact htext rfl
  | null t | unknown t =>
    cases t with
    | string => exact htext rfl
    | _ => exact .pure Bool.false_ne_true rfl
  | _ => exact .pure Bool.false_ne_true rfl

theorem settles_writtenMembers (place : Pos) (items : List (L.Expr × L.Expr)) :
    Settles (writtenMembers place items) (∃ item ∈ items, Unkeyed item) (· = items.filterMap writtenMember?) := by
  induction items with
  | nil => exact .pure (by simp) rfl
  | cons item rest ih =>
    obtain ⟨k, e⟩ := item
    unfold writtenMembers
    refine .ite (.after fun _ => ?_) ?_
    all_goals
      cases hfaulty : (L.eval e).faulty with
      | true =>
        refine .after fun _ => (ih.mono fun ms hms => ?_).congr ?_
        · simp [writtenMember?, hfaulty, hms]
        · simp [Unkeyed, hfaulty]
      | false =>
        refine ((settles_keyText hL _).bind (T := ∃ item ∈ rest, Unkeyed item) fun key hkey => ?_).congr ?_
        · cases key with
          | none =>
            refine ih.mono fun ms hms => ?_
            simp [writtenMember?, hfaulty, ← hkey, hms]
          | some name =>
            refine (ih.bind fun ms hms => .pure not_false ?_).congr (iff_of_eq (or_false _))
            simp [writtenMember?, hfaulty, ← hkey, hms]
        · simp [Unkeyed, hfaulty]

theorem settles_readMembers (a : Attribute L.Expr) : Settles (readMembers a) a.Lacks (· = a.members) := by
  unfold readMembers Attribute.Lacks Attribute.members
  cases L.items? a.expr with
  | some items => exact settles_writtenMembers hL _ _
  | none =>
    dsimp only
    generalize L.eval a.expr = o
    cases o.faulty with
    | true => exact .after fun _ => .pure (by simp) rfl
    | false =>
      generalize o.value = v
      simp only [Bool.false_eq_true, if_false, true_and]
      have helements (hv : v.type.kind = .object ∨ v.type.kind = .map) :
          Settles (MonadExcept.ofExcept (L.elements v)) v.IsMissingCollection (· = v.members?.getD []) := by
        rw [Value.IsMissingCollection, and_iff_left hv, ← hL.elements_eq]
        exact (Settles.ofExcept _).mono fun ms hms => by rw [hms]; rfl
      have hother (hv : v.type.kind ≠ .object ∧ v.type.kind ≠ .map) : v.members? = none := by
        cases v <;> simp_all [Value.type, Ty.kind, Value.members?]
      split
      · exact helements (by simp_all [Ty.kind])
      · exact helements (by simp_all [Ty.kind])
      · have hkind : v.type.kind ≠ .object ∧ v.type.kind ≠ .map := by
          cases htype : v.type <;> simp_all [Ty.kind]
        refine .after fun _ => .pure (fun h => h.2.elim hkind.1 hkind.2) ?_
        rw [hother hkind]
        rfl

/-! ### Fields -/

theorem settles_valueField (key : String) (v : Value) : Settles (valueField key v) v.isUnknownPlain := by
  have hpure {β : Type} (f : β → Except String String) (b : β) : Settles (pure (f b) : SectionM _) False :=
    .pure not_false trivial
  have htext : Settles (scalarText v) v.isUnknownPlain := by
    cases v with
    | null => exact .pure Bool.false_ne_true trivial
    | string s => exact (Settles.use (hL.asString_eq (.string s)) fun _ _ => hpure _ _).congr (iff_of_false nofun nofun)
    | number x => exact (Settles.use (hL.asNumber_eq (.number x)) fun _ _ => hpure _ _).congr (iff_of_false nofun nofun)
    | bool b => exact (Settles.use (hL.isTrue_eq (.bool b)) fun _ _ => hpure _ _).congr (iff_of_false nofun nofun)
    | unknown t =>
      cases t with
      | string => exact (Settles.use (hL.asString_eq (.unknown .string)) fun _ _ => hpure _ _).congr (iff_of_true rfl rfl)
      | number => exact (Settles.use (hL.asNumber_eq (.unknown .number)) fun _ _ => hpure _ _).congr (iff_of_true rfl rfl)
      | bool => exact (Settles.use (hL.isTrue_eq (.unknown .bool)) fun _ _ => hpure _ _).congr (iff_of_true rfl rfl)
      | _ => exact .pure (by simp [Value.isUnknownPlain, Ty.kind]) trivial
    | _ => exact .pure Bool.false_ne_true trivial
  refine (htext.bind fun result _ => ?_).congr (iff_of_eq (or_false _))
  cases result <;> exact .pure not_false trivial

theorem settles_variableField (key : String) (v : Value) : Settles (variableField key v) v.isMissingText := by
  have htext (hv : v.type = .string) (hmissing : v.text? = none ↔ v.isMissingText) :
      Settles (variableField key v) v.isMissingText := by
    unfold variableField
    rw [hv]
    exact (Settles.use (hL.asString_eq v) fun s _ => .pure not_false trivial).congr hmissing
  cases v with
  | string s => exact htext rfl (by simp [Value.text?, Value.isMissingText])
  | null t | unknown t =>
    cases t with
    | string => exact htext rfl (by simp [Value.text?, Value.isMissingText])
    | _ => exact .pure Bool.false_ne_true trivial
  | _ => exact .pure Bool.false_ne_true trivial

end

variable {of : String → Value → SectionM (Except String Field)} {missing : Value → Bool}

theorem settles_fieldsOf (hof : ∀ key v, Settles (of key v) (missing v)) (a : Attribute L.Expr) (ms : List (String × Value)) :
    Settles (fieldsOf a of ms) (∃ m ∈ ms, missing m.2) := by
  induction ms with
  | nil => exact .pure (by simp) trivial
  | cons m rest ih =>
    obtain ⟨key, v⟩ := m
    refine ((hof key v).bind (T := ∃ m ∈ rest, missing m.2) fun result _ => ?_).congr (by simp)
    cases result with
    | ok f => exact (ih.bind fun _ _ => .pure not_false trivial).congr (iff_of_eq (or_false _))
    | error detail => exact .after fun _ => ih

theorem settles_readFields (hL : L.Converts) (hof : ∀ key v, Settles (of key v) (missing v)) (as : List (Attribute L.Expr)) (name : String) :
    Settles (readFields as name of) (Breaks as name missing) := by
  unfold readFields Breaks
  cases attribute? name as with
  | none => exact .pure (by simp) trivial
  | some a =>
    refine ((settles_readMembers hL a).bind (T := ∃ m ∈ a.members, missing m.2) fun ms hms => ?_).congr (by simp)
    exact hms ▸ settles_fieldsOf hof a ms

/-! ### Sections -/

def BreakInBlock (as : List (Attribute L.Expr)) : Prop :=
  Breaks as "fields" Value.isUnknownPlain ∨ Breaks as "vars" Value.isMissingText

/-- A block section in which reading breaks down, in its own attributes or in a block of an input of
it. -/
inductive Section.Breaks : Section L.Expr → Prop
  | fields {type labels start as ss} (hshape : L.allows blockShape as ss) (h : BreakInBlock as) :
      Breaks (.mk type labels start as ss)
  | inside {type labels start as ss socket s} (hshape : L.allows blockShape as ss) (hsocket : socket ∈ ss)
      (hsequence : L.allows sequenceSchema socket.attributes socket.sections) (hs : s ∈ socket.sections) (h : s.Breaks) :
      Breaks (.mk type labels start as ss)

/-- A section of blocks in one of which reading breaks down. -/
def Section.Fails (s : Section L.Expr) : Prop :=
  L.allows sequenceSchema s.attributes s.sections ∧ ∃ b ∈ s.sections, b.Breaks

theorem settles_readBlockData (hL : L.Converts) (type : String) (start : Pos) (as : List (Attribute L.Expr)) :
    Settles (readBlockData type start as) (BreakInBlock as) := by
  unfold readBlockData
  refine .after fun _ => .after_ite fun _ => .after fun _ => .after fun _ => .after fun _ => .after fun _ => ?_
  refine (settles_readFields hL (settles_valueField hL) as "fields").bind fun _ _ => ?_
  refine (settles_readFields hL (settles_variableField hL) as "vars").bind_lasting fun _ _ => ?_
  exact .after fun _ => .pure not_false trivial

theorem Section.breaks_iff {type labels start as ss} :
    (Section.mk type labels start as ss).Breaks ↔ L.allows blockShape as ss ∧
      (BreakInBlock as ∨ ∃ socket ∈ ss, socket.Fails) := by
  constructor
  · rintro (⟨hshape, h⟩ | ⟨hshape, hsocket, hsequence, hs, h⟩)
    · exact ⟨hshape, .inl h⟩
    · exact ⟨hshape, .inr ⟨_, hsocket, hsequence, _, hs, h⟩⟩
  · rintro ⟨hshape, h | ⟨socket, hsocket, hsequence, s, hs, h⟩⟩
    · exact .fields hshape h
    · exact .inside hshape hsocket hsequence hs h

-- The recursion is that of the readers.
mutual

theorem settles_readBlock (hL : L.Converts) : ∀ s : Section L.Expr, Settles (readBlock s) s.Breaks
  | .mk type labels start as ss => by
    rw [Section.breaks_iff]
    unfold readBlock
    by_cases hshape : L.allows blockShape as ss
    · rw [if_pos hshape, and_iff_right hshape]
      refine (settles_readBlockData hL _ start as).bind fun _ _ => ?_
      exact (settles_readSockets hL ss).bind_lasting fun _ _ => .pure not_false trivial
    · rw [if_neg hshape]
      exact .after fun _ => .pure (fun h => hshape h.1) trivial

theorem settles_readSockets (hL : L.Converts) : ∀ ss : List (Section L.Expr), Settles (readSockets ss) (∃ socket ∈ ss, socket.Fails)
  | [] => .pure (by simp) trivial
  | s :: rest => by
    unfold readSockets
    simp only [List.mem_cons, exists_eq_or_imp]
    refine (settles_readSocket hL s).bind fun _ _ => ?_
    exact (settles_readSockets hL rest).bind_lasting fun _ _ => .pure not_false trivial

theorem settles_readSocket (hL : L.Converts) : ∀ s : Section L.Expr, Settles (readSocket s) s.Fails
  | .mk type labels start as ss => by
    unfold readSocket Section.Fails
    by_cases hsequence : L.allows sequenceSchema as ss
    · simp only [Section.attributes, Section.sections, hsequence, true_and]
      exact (settles_readSequence hL _ ss).bind_lasting fun _ _ => Lasting.settles
    · simp only [if_neg hsequence]
      exact .of_not fun h => hsequence h.1

theorem settles_readSequence (hL : L.Converts) (isValue : Bool) :
    ∀ ss : List (Section L.Expr), Settles (readSequence isValue ss) (∃ s ∈ ss, s.Breaks)
  | [] => .pure (by simp) trivial
  | s :: rest => by
    unfold readSequence
    simp only [List.mem_cons, exists_eq_or_imp]
    refine (settles_readBlock hL s).bind fun block _ => ?_
    have hrest {g : Stack × Stack → SectionM (Stack × Stack)} (hg : ∀ p, Lasting (g p)) :=
      (settles_readSequence hL isValue rest).bind_lasting fun p _ => (hg p).settles
    cases block <;> exact .ite (.after fun _ => hrest fun _ => inferInstance) (hrest fun _ => inferInstance)

end

/-! ### Documents -/

/-- A section of a document in which reading breaks down. -/
def Section.BreaksDown (s : Section L.Expr) : Prop := s.type = "block" ∧ s.Breaks ∨ s.type = "stack" ∧ s.Fails

instance lasting_readVariables : ∀ ss : List (Section L.Expr), Lasting (readVariables ss)
  | [] => inferInstanceAs (Lasting (pure []))
  | s :: rest => by
    have hrest := lasting_readVariables rest
    have hvariable : Lasting (readVariable s) := by
      unfold readVariable
      infer_instance
    unfold readVariables
    infer_instance

theorem settles_readStacks (hL : L.Converts) (ss : List (Section L.Expr)) :
    Settles (readStacks ss) (∃ s ∈ ss, s.BreaksDown) (fun tops => ∀ stack ∈ tops, stack ≠ []) := by
  induction ss with
  | nil => exact .pure (by simp) (by simp)
  | cons s rest ih =>
    have hrest (stack : Stack) : Settles (do
        let tops ← readStacks rest
        pure (if stack.isEmpty then tops else stack :: tops)) (∃ s ∈ rest, s.BreaksDown)
        (fun tops => ∀ stack ∈ tops, stack ≠ []) := by
      refine ih.bind_lasting fun tops htops => .pure not_false ?_
      cases stack <;> simpa using htops
    unfold readStacks
    simp only [List.mem_cons, exists_eq_or_imp]
    by_cases hblock : s.type = "block"
    · rw [if_pos hblock]
      refine ((settles_readBlock hL s).bind fun _ _ => .after hrest).congr (or_congr_left ?_)
      simp [Section.BreaksDown, hblock]
    rw [if_neg hblock]
    by_cases hstack : s.type = "stack"
    · rw [if_pos hstack]
      by_cases hsequence : L.allows sequenceSchema s.attributes s.sections
      · rw [if_pos hsequence]
        refine ((settles_readSequence hL _ s.sections).bind fun _ _ => .after hrest).congr (or_congr_left ?_)
        simp [Section.BreaksDown, Section.Fails, hstack, hsequence]
      · rw [if_neg hsequence, or_iff_right (by simp [Section.BreaksDown, Section.Fails, hstack, hsequence])]
        exact .after fun _ => .after hrest
    · rw [if_neg hstack, or_iff_right (by simp [Section.BreaksDown, hblock, hstack])]
      exact .after hrest

theorem settles_readWorkspace (hL : L.Converts) (body : Body L.Expr) :
    Settles (readWorkspace body) (∃ s ∈ body.sections, s.BreaksDown) (fun w => ∀ stack ∈ w.tops, stack ≠ []) := by
  unfold readWorkspace
  exact .after fun _ => (settles_readStacks hL _).bind_lasting fun _ htops => .pure not_false htops

/-- The bytes are those of a document in which reading breaks down. -/
def BreaksDown (bytes : List UInt8) : Prop :=
  ∃ body, L.read bytes = .ok body ∧ L.allows documentShape body.attributes body.sections ∧
    ∃ s ∈ body.sections, s.BreaksDown

end Hcl

theorem Workspace.ofSections_cases (hL : L.Converts) (bytes : List UInt8) (ids : Ids) :
    Hcl.BreaksDown bytes ∧ (∃ b, (ofSections bytes ids).1 = .error (.breakdown b)) ∨
    ¬ Hcl.BreaksDown bytes ∧ ((∃ w, (ofSections bytes ids).1 = .ok w ∧ ∀ stack ∈ w.tops, stack ≠ []) ∨
        ∃ cs, (ofSections bytes ids).1 = .error (.complaints cs) ∧ cs ≠ []) := by
  unfold Hcl.BreaksDown ofSections
  cases L.read bytes with
  | error p => simp
  | ok body =>
    cases hshape : L.allows Hcl.documentShape body.attributes body.sections with
    | false => simp [hshape]
    | true =>
      have hsettles := Hcl.settles_readWorkspace hL body ⟨ids, []⟩
      rcases hrun : (Hcl.readWorkspace body).run ⟨ids, []⟩ with ⟨result, s⟩
      rw [hrun] at hsettles
      rcases hsettles with ⟨h, b, rfl⟩ | ⟨h, w, rfl, htops⟩
      · exact .inl ⟨⟨body, rfl, hshape, h⟩, b, by simp [hshape, hrun]⟩
      · refine .inr ⟨?_, ?_⟩
        · rintro ⟨_, hbody, -, hs⟩
          cases hbody
          exact h hs
        · cases hcs : s.complaints with
          | nil => exact .inl ⟨w, by simp [hshape, hrun, hcs], htops⟩
          | cons c cs => exact .inr ⟨c :: cs, by simp [hshape, hrun, hcs], List.cons_ne_nil _ _⟩

/-- Let the library break off a use of what is not there, and do so nowhere else. A configuration
document is read to a workspace, whose stacks all have a block, or to some complaint, unless reading
breaks down: exactly if the document can be read and has the sections of a workspace, and a value in
one of them is not there. -/
theorem Workspace.load_sections_cases (hL : L.Converts) (bytes : List UInt8) (name : String) (ids : Ids) :
    ((∃ text, (Workspace.load "hcl" bytes name ids).1 = .error (.breakdown text)) ↔ Hcl.BreaksDown bytes) ∧
    ((∃ w, (Workspace.load "hcl" bytes name ids).1 = .ok w ∧ ∀ stack ∈ w.tops, stack ≠ []) ∨
      (∃ cs, (Workspace.load "hcl" bytes name ids).1 = .error (.sections name cs) ∧ cs ≠ []) ∨
      ∃ text, (Workspace.load "hcl" bytes name ids).1 = .error (.breakdown text)) := by
  rw [load, if_neg (by decide), if_pos rfl]
  have hcases := ofSections_cases hL bytes ids
  rcases hread : ofSections bytes ids with ⟨result, ids'⟩
  rw [hread] at hcases
  rcases hcases with ⟨h, b, rfl⟩ | ⟨h, ⟨w, rfl, htops⟩ | ⟨cs, rfl, hcs⟩⟩
  · simp [h]
  · simpa [h] using htops
  · simpa [h] using hcs

end

/-- A reference to a variable that is a null text. -/
def nullReference : List UInt8 :=
  "block \"variables_set\" \x7b\n  vars = \x7b VAR = true ? null : \"x\" \x7d\n\x7d\n".toUTF8.toList

theorem Workspace.load_sections_cases_nullReference :
    (∃ text, (load "hcl" nullReference "" {}).1 = .error (.breakdown text)) ∧ Hcl.BreaksDown nullReference := by
  have hload : ∃ text, (load "hcl" nullReference "" {}).1 = .error (.breakdown text) := by
    have hmap : (load "hcl" nullReference "" {}).1.map (fun _ => ()) = .error (.breakdown (some "value is null")) := by
      decide +kernel
    cases hresult : (load "hcl" nullReference "" {}).1 with
    | ok w =>
      rw [hresult] at hmap
      cases hmap
    | error fault =>
      rw [hresult] at hmap
      exact ⟨_, congrArg Except.error (Except.error.inj hmap)⟩
  exact ⟨hload, (load_sections_cases Hcl.standard_converts nullReference "" {}).1.mp hload⟩

end BlockProgram
