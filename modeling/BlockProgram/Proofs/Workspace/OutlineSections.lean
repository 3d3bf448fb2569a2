import BlockProgram.Proofs.Workspace.Outlines

/-! # Outlines as configuration documents

Reading a configuration document that describes an outline gives the workspace that is outlined, and
complains exactly if some extra state describes no mutation (`WorkspaceOutline.reads_workspace`).
Reading goes on after a complaint, so each step is stated by `Reads`: what it gives, and when it is
content.
-/
namespace BlockProgram

open List

/-- A step of reading gives `a`, and adds complaints unless `p` holds. It draws no ids and does not
break off. -/
def Reads {α : Type} (m : SectionM α) (a : α) (p : Prop) : Prop :=
  ∀ s : SectionState, ∃ cs, m.run s = (.ok a, { s with complaints := s.complaints ++ cs }) ∧ (cs = [] ↔ p)

namespace Reads

variable {α β : Type} {m : SectionM α} {a : α} {p : Prop}

theorem done (a : α) : Reads (pure a) a True := by
  intro s
  refine ⟨[], ?_, by simp⟩
  rw [append_nil]
  rfl

variable {q : Prop}

theorem congr (hm : Reads m a p) (h : p ↔ q) : Reads m a q := propext h ▸ hm

variable {k : α → SectionM β} {b : β}

theorem bind (hm : Reads m a p) (hk : Reads (k a) b q) : Reads (m >>= k) b (p ∧ q) := by
  intro s
  obtain ⟨cs, hrun, hcs⟩ := hm s
  obtain ⟨cs', hrun', hcs'⟩ := hk { s with complaints := s.complaints ++ cs }
  refine ⟨cs ++ cs', ?_, by rw [append_eq_nil_iff, hcs, hcs']⟩
  have hbind : (m >>= k).run s = (k a).run { s with complaints := s.complaints ++ cs } := by
    change ExceptT.bindCont k (m.run s).1 (m.run s).2 = _
    rw [hrun]
    rfl
  rw [hbind, hrun', append_assoc]

/-- A step that is always content, and then another. -/
theorem andThen (hm : Reads m a True) (hk : Reads (k a) b q) : Reads (m >>= k) b q :=
  (hm.bind hk).congr (iff_of_eq (true_and q))

/-- A step, and then one that is always content. -/
theorem finish (hm : Reads m a p) (hk : Reads (k a) b True) : Reads (m >>= k) b p :=
  (hm.bind hk).congr (iff_of_eq (and_true p))

theorem complain (c : Complaint) : Reads (SectionM.complain c) () False := fun _ => ⟨[c], rfl, by simp⟩

theorem ofExcept {x : Except Breakdown α} (h : x.toOption = some a) : Reads (MonadExcept.ofExcept x) a True := by
  obtain rfl : x = .ok a := by
    cases x with
    | error => exact absurd h nofun
    | ok a' => exact congrArg Except.ok (Option.some.inj h)
  exact done a

end Reads

variable [L : Hcl.Library]

namespace Hcl

open SectionM

/-! ### Attributes -/

variable {as : List (Attribute L.Expr)} {name : String}

theorem Says.imp {missing missing' : Prop} {fits fits' : L.Expr → Prop}
    (h : Says as name missing fits) (hmissing : missing → missing') (hfits : ∀ e, fits e → fits' e) :
    Says as name missing' fits' := by
  revert h
  unfold Says
  cases attribute? name as with
  | none => exact hmissing
  | some a => exact hfits _

theorem Says.cases {missing : Prop} {fits : L.Expr → Prop} (h : Says as name missing fits) :
    attribute? name as = none ∧ missing ∨ ∃ a, attribute? name as = some a ∧ fits a.expr := by
  revert h
  unfold Says
  cases attribute? name as with
  | none => exact fun h => .inl ⟨rfl, h⟩
  | some a => exact fun h => .inr ⟨a, rfl, h⟩

variable {α : Type}

theorem reads_attribute {of : Value → Except String α} {old a : α}
    (h : Says as name (a = old) fun e => ∃ v, Gives e v ∧ of v = .ok a) :
    Reads (readAttribute as name of old) a True := by
  unfold readAttribute
  rcases h.cases with ⟨hattribute, rfl⟩ | ⟨x, hattribute, v, hgives, hof⟩
  · rw [hattribute]
    exact .done _
  · simp only [hattribute, show L.eval x.expr = ⟨v, false⟩ from hgives, Bool.false_eq_true, if_false, hof]
    exact .done _

variable {fits : α → Value → Prop} {members : List (String × α)} (hL : L.Faithful)

include hL in
/-- What an attribute with members is read as, member by member. -/
theorem reads_writtenMembers {items : List (L.Expr × L.Expr)} (h : List.Forall₂ (fun m item =>
      Gives item.1 (.string m.1) ∧ ∃ v, Gives item.2 v ∧ fits m.2 v) members items) (place : Pos) :
    ∃ values, Reads (writtenMembers place items) values True ∧
      List.Forall₂ (fun m v => v.1 = m.1 ∧ fits m.2 v.2) members values := by
  induction h with
  | nil => exact ⟨[], .done [], .nil⟩
  | @cons m item members items hitem _ ih =>
    obtain ⟨hkey, v, hvalue, hfits⟩ := hitem
    obtain ⟨values, hvalues, hall⟩ := ih
    obtain ⟨k, e⟩ := item
    refine ⟨(m.1, v) :: values, ?_, .cons ⟨rfl, hfits⟩ hall⟩
    unfold writtenMembers
    simp only [show L.eval k = ⟨.string m.1, false⟩ from hkey, show L.eval e = ⟨v, false⟩ from hvalue,
      Bool.false_eq_true, if_false]
    refine Reads.andThen (a := some m.1) ?_ ?_
    · exact (Reads.ofExcept (hL.asString_eq (.string m.1))).andThen (.done _)
    refine hvalues.andThen ?_
    exact .done _

variable {of : String → Value → SectionM (Except String Field)} {field : String → α → Field}

theorem reads_fieldsOf (hof : ∀ name x v, fits x v → Reads (of name v) (.ok (field name x)) True) {values : List (String × Value)}
    (h : List.Forall₂ (fun m v => v.1 = m.1 ∧ fits m.2 v.2) members values) (a : Attribute L.Expr) :
    Reads (fieldsOf a of values) (members.map fun m => field m.1 m.2) True := by
  induction h with
  | nil => exact .done []
  | @cons m v members values hv _ ih =>
    obtain ⟨name, x⟩ := m
    obtain ⟨name', v⟩ := v
    obtain ⟨rfl, hfits⟩ := hv
    unfold fieldsOf
    refine (hof _ x v hfits).andThen ?_
    refine ih.andThen ?_
    exact .done _

include hL in
/-- The fields in one attribute, if each member is read as its field. -/
theorem reads_fields (hof : ∀ name x v, fits x v → Reads (of name v) (.ok (field name x)) True)
    (h : Says as name (members = []) (Lists fits members)) :
    Reads (readFields as name of) (members.map fun m => field m.1 m.2) True := by
  unfold readFields
  rcases h.cases with ⟨hattribute, rfl⟩ | ⟨a, hattribute, items, hitems, hall⟩
  · rw [hattribute]
    exact .done []
  · rw [hattribute]
    obtain ⟨values, hvalues, hfit⟩ := reads_writtenMembers hL hall a.start
    refine Reads.andThen (a := values) ?_ (reads_fieldsOf hof hfit a)
    unfold readMembers
    rw [hitems]
    exact hvalues

include hL in
theorem reads_valueField (name : String) (x : Scalar) (v : Value) (h : x.Fits v) :
    Reads (valueField name v) (.ok ⟨name, x.fieldText, ""⟩) True := by
  have htext : Reads (scalarText v) (.ok x.fieldText) True := by
    cases x with
    | null =>
      cases v with
      | null => exact .done _
      | _ => exact absurd h Bool.false_ne_true
    | bool b =>
      obtain rfl : v = .bool b := h
      exact (Reads.ofExcept (hL.isTrue_eq (.bool b))).andThen (.done _)
    | integer i small =>
      obtain ⟨w, rfl, hspelled, hi⟩ := h
      have hprinted : w.text = toString i := w.text_integer hspelled hi small
      rw [Scalar.fieldText, ← hprinted]
      exact (Reads.ofExcept (hL.asNumber_eq (.number w))).andThen (.done _)
    | text s =>
      obtain rfl : v = .string s := h
      exact (Reads.ofExcept (hL.asString_eq (.string s))).andThen (.done _)
  exact htext.andThen (.done _)

include hL in
theorem reads_variableField (name : String) (id : { id : String // id ≠ "" }) (v : Value) (h : v = .string id.1) :
    Reads (variableField name v) (.ok ⟨name, "", id⟩) True := by
  subst h
  exact (Reads.ofExcept (hL.asString_eq (.string id.1))).andThen (.done _)

omit L in
/-- A mutation is given, or complained about. -/
theorem reads_ofExcept {m : SectionM Mutation} {r : Except Mutation.Fault Mutation} {start : Pos}
    (hok : ∀ x, r = .ok x → m = pure x)
    (herror : ∀ f, r = .error f → m = complain (.mutation f start) >>= fun _ => pure {}) :
    Reads m (r.toOption.getD {}) (r.toOption.isSome = true) := by
  cases r with
  | ok x =>
    rw [hok x rfl]
    exact (Reads.done x).congr (by simp [Except.toOption])
  | error f =>
    rw [herror f rfl]
    refine Reads.congr (p := False) ?_ (by simp [Except.toOption])
    exact (Reads.complain _).finish (.done _)

include hL

/-- Extra state is read as the mutation that it describes; there is a complaint if it describes
none. -/
theorem reads_mutation {extra : Json} (hapart : extra.Apart) (hdepth : extra.depth ≤ Json.maxDepth)
    (h : Says as "extra" (extra = .null) fun e => ∃ v, Gives e v ∧ v.Tells extra) (type : String) (start : Pos) :
    Reads (readMutation as type start) ((Mutation.ofJson type extra).toOption.getD {})
      ((Mutation.ofJson type extra).toOption.isSome = true) := by
  unfold readMutation
  rcases h.cases with ⟨hattribute, rfl⟩ | ⟨a, hattribute, v, hgives, htells⟩
  · have hread : Json.read "null" = .ok .null := rfl
    simp only [hattribute, pure_bind, hread]
    exact reads_ofExcept (fun x hx => by rw [hx]) (fun f hf => by rw [hf])
  · obtain ⟨text, w, hwrite, hread, hsame⟩ := hL.exists_read htells hapart hdepth type
    simp only [hattribute, show L.eval a.expr = ⟨v, false⟩ from hgives, Bool.false_eq_true, if_false, hwrite, pure_bind,
      hread]
    rw [← hsame]
    exact reads_ofExcept (fun x hx => by rw [hx]) (fun f hf => by rw [hf])

theorem reads_blockData {d : OutlineData} (h : d.Written as) (start : Pos) :
    Reads (readBlockData d.type start as) d.blockData (d.mutation?.isSome = true) := by
  have hid : Reads (readAttribute as "id" L.toText "") d.id True :=
    reads_attribute (h.id.imp False.elim fun e he => ⟨_, he, hL.toText_string _⟩)
  have hdouble {c : Coordinate} {v : Value} (hfits : c.Fits v) : L.toDouble v = .ok c.value := by
    obtain ⟨x, rfl, hx⟩ := hfits
    exact hL.toDouble_number c.double hx
  have hx : Reads (readAttribute as "x" L.toDouble .zero) d.x.value True :=
    reads_attribute (h.x.imp id fun e ⟨v, hv, hfits⟩ => ⟨v, hv, hdouble hfits⟩)
  have hy : Reads (readAttribute as "y" L.toDouble .zero) d.y.value True :=
    reads_attribute (h.y.imp id fun e ⟨v, hv, hfits⟩ => ⟨v, hv, hdouble hfits⟩)
  have hdisabled : Reads (readAttribute as "disabled" L.toTruth false) d.disabled True :=
    reads_attribute (h.disabled.imp id fun e he => ⟨_, he, hL.toTruth_bool _⟩)
  have hcomment : Reads (readAttribute as "comment" L.toText "") d.comment True :=
    reads_attribute (h.comment.imp id fun e he => ⟨_, he, hL.toText_string _⟩)
  unfold readBlockData
  refine hid.andThen ?_
  rw [if_neg d.id_ne]
  refine (Reads.done d.id).andThen ?_
  refine hx.andThen ?_
  refine hy.andThen ?_
  refine hdisabled.andThen ?_
  refine hcomment.andThen ?_
  refine (reads_fields hL (reads_valueField hL) h.fields).andThen ?_
  refine (reads_fields hL (reads_variableField hL) h.references).andThen ?_
  refine (reads_mutation hL d.extra_apart d.extra_depth h.extra d.type start).finish ?_
  exact .done _

omit hL

/-! ### Sections -/

section Steps

variable {isValue : Bool} {s : Section L.Expr} {ss rest : List (Section L.Expr)} {b : Block} {stack shadow : Stack}
variable {socket : Socket} {sockets : List Socket} {name : String} {p q : Prop}

theorem reads_sequence_block (htype : s.type = "block") (hs : Reads (readBlock s) (some b) p)
    (hrest : Reads (readSequence isValue rest) (stack, shadow) q) :
    Reads (readSequence isValue (s :: rest)) (b :: stack, shadow) (p ∧ q) := by
  unfold readSequence
  refine hs.bind ?_
  simp only [htype, show ("block" = "shadow") = False by decide, decide_false, Bool.false_and, Bool.false_eq_true,
    if_false]
  refine hrest.finish ?_
  exact .done _

theorem reads_sequence_shadow (htype : s.type = "shadow") (hs : Reads (readBlock s) (some b) p) :
    Reads (readSequence true [s]) ([], [b]) p := by
  unfold readSequence
  refine hs.finish ?_
  simp only [htype, decide_true, Bool.not_true, Bool.and_false, Bool.false_and, Bool.false_eq_true, if_false, if_true]
  refine Reads.andThen (a := ([], [])) (.done _) ?_
  exact .done _

include hL in
theorem reads_socket_value (name : String) (start : Pos) (hss : ∀ s ∈ ss, s.heading ∈ sequenceSchema.sections)
    (hsequence : Reads (readSequence true ss) (stack, shadow) p) (hone : stack.length ≤ 1) :
    Reads (readSocket (.mk "value" [name] start [] ss)) (.mk name .value stack shadow) p := by
  have hallows : L.allows sequenceSchema [] ss = true := hL.allows_of (by simp) hss
  unfold readSocket
  simp only [hallows, if_true, decide_true]
  refine hsequence.finish ?_
  simp only [if_neg (Nat.not_lt.mpr hone)]
  exact .done _

include hL in
theorem reads_socket_statement (name : String) (start : Pos) (hss : ∀ s ∈ ss, s.heading ∈ sequenceSchema.sections)
    (hsequence : Reads (readSequence false ss) (stack, shadow) p) :
    Reads (readSocket (.mk "statement" [name] start [] ss)) (.mk name .statement stack []) p := by
  have hallows : L.allows sequenceSchema [] ss = true := hL.allows_of (by simp) hss
  unfold readSocket
  simp only [hallows, if_true, show ("statement" = "value") = False by decide, decide_false]
  refine hsequence.finish ?_
  exact .done _

theorem reads_sockets_cons (hs : Reads (readSocket s) socket p) (hrest : Reads (readSockets rest) sockets q) :
    Reads (readSockets (s :: rest)) (socket :: sockets) (p ∧ q) := by
  unfold readSockets
  refine hs.bind ?_
  exact hrest.finish (.done _)

end Steps

end Hcl

/-! ### Blocks -/

namespace Outline

open Hcl

variable {sectionType : String}

theorem Written.heading {o : Outline} {s : Section L.Expr} (h : o.Written sectionType s) : s.heading = (sectionType, 1) := by
  cases o with
  | mk data inputs bodies =>
    obtain ⟨htype, hlabels, -⟩ := h
    rw [Section.heading, htype, hlabels]
    rfl

variable {ss : List (Section L.Expr)}

theorem OptionalWritten.heading {o : Option Outline}
    (h : OptionalWritten sectionType o ss) : ∀ s ∈ ss, s.heading = (sectionType, 1) := by
  cases o with
  | none =>
    obtain rfl : ss = [] := h
    simp
  | some o =>
    obtain ⟨s, rfl, hs⟩ := h
    simpa using hs.heading

variable {os : List Outline}

theorem StackWritten.heading (h : StackWritten os ss) : ∀ s ∈ ss, s.heading = ("block", 1) := by
  induction os generalizing ss with
  | nil =>
    obtain rfl : ss = [] := h
    simp
  | cons o os ih =>
    obtain ⟨s, others, rfl, hs, hothers⟩ := h
    simpa using ⟨Written.heading hs, ih hothers⟩

theorem InputsWritten.heading {inputs : List InputOutline} (h : InputsWritten inputs ss) :
    ∀ s ∈ ss, s.heading = ("value", 1) := by
  induction inputs generalizing ss with
  | nil =>
    obtain rfl : ss = [] := h
    simp
  | cons input inputs ih =>
    cases input with
    | mk name isValue block shadow =>
      obtain ⟨start, blocks, shadows, others, rfl, -, -, hothers⟩ := h
      simpa using ⟨rfl, ih hothers⟩

theorem BodiesWritten.heading {bodies : List BodyOutline} (h : BodiesWritten bodies ss) :
    ∀ s ∈ ss, s.heading = ("statement", 1) := by
  induction bodies generalizing ss with
  | nil =>
    obtain rfl : ss = [] := h
    simp
  | cons body bodies ih =>
    cases body with
    | mk name blocks =>
      obtain ⟨start, sections, others, rfl, -, hothers⟩ := h
      simpa using ⟨rfl, ih hothers⟩

theorem Written.type_eq {o : Outline} {s : Section L.Expr} (h : o.Written sectionType s) :
    s.type = sectionType := congrArg Prod.fst h.heading

theorem StackWritten.heading_mem (h : StackWritten os ss) : ∀ s ∈ ss, s.heading ∈ sequenceSchema.sections := by
  intro s hs
  rw [h.heading s hs]
  decide

omit L in
theorem length_optionalStack_le (o : Option Outline) : (optionalStack o).length ≤ 1 := by
  cases o <;> simp [optionalStack]

mutual

/-- **A section that describes a block is read as the block.** -/
theorem reads_block (hL : L.Faithful) (o : Outline) {sectionType : String} {s : Section L.Expr} (h : o.Written sectionType s) :
    Reads (Hcl.readBlock s) (some o.block) o.Readable := by
  cases o with
  | mk data inputs bodies =>
    cases s with
    | mk type labels start as ss =>
      obtain ⟨-, hlabels, hdata, values, statements, hsections, hinputs, hbodies⟩ := h
      obtain rfl : labels = [data.type] := hlabels
      obtain rfl : ss = values ++ statements := hsections
      have hheadings : ∀ s ∈ values ++ statements, s.heading ∈ blockShape.sections := by
        intro s hs
        rcases mem_append.mp hs with hs | hs
        · rw [InputsWritten.heading hinputs s hs]
          decide
        · rw [BodiesWritten.heading hbodies s hs]
          decide
      have hallows : L.allows blockShape as (values ++ statements) = true := hL.allows_of hdata.names hheadings
      have hsockets := reads_inputs hL inputs hinputs (reads_bodies hL bodies hbodies)
      unfold Hcl.readBlock
      rw [if_pos hallows]
      refine (reads_blockData hL hdata start).bind ?_
      exact hsockets.finish (.done _)

theorem reads_inputs (hL : L.Faithful) (inputs : List InputOutline) {ss rest : List (Section L.Expr)} {sockets : List Socket} {q : Prop}
    (h : InputsWritten inputs ss) (hrest : Reads (Hcl.readSockets rest) sockets q) :
    Reads (Hcl.readSockets (ss ++ rest)) (inputSockets inputs ++ sockets) (InputsReadable inputs ∧ q) := by
  cases inputs with
  | nil =>
    obtain rfl : ss = [] := h
    exact hrest.congr (iff_of_eq (true_and q)).symm
  | cons input inputs =>
    cases input with
    | mk name isValue block shadow =>
      obtain ⟨start, blocks, shadows, others, rfl, hblock, hshadow, hothers⟩ := h
      have hheadings : ∀ s ∈ blocks ++ shadows, s.heading ∈ sequenceSchema.sections := by
        intro s hs
        rcases mem_append.mp hs with hs | hs
        · rw [OptionalWritten.heading hblock s hs]
          decide
        · rw [OptionalWritten.heading hshadow s hs]
          decide
      have hsequence := reads_optionalBlock hL block hblock (reads_optionalShadow hL shadow hshadow)
      have hsocket := reads_socket_value hL name start hheadings hsequence
        (length_optionalStack_le block)
      exact (reads_sockets_cons hsocket (reads_inputs hL inputs hothers hrest)).congr and_assoc.symm

theorem reads_optionalBlock (hL : L.Faithful) (o : Option Outline) {ss rest : List (Section L.Expr)} {shadow : Stack} {q : Prop}
    (h : OptionalWritten "block" o ss) (hrest : Reads (Hcl.readSequence true rest) ([], shadow) q) :
    Reads (Hcl.readSequence true (ss ++ rest)) (optionalStack o, shadow) (OptionalReadable o ∧ q) := by
  cases o with
  | none =>
    obtain rfl : ss = [] := h
    exact hrest.congr (iff_of_eq (true_and q)).symm
  | some o =>
    obtain ⟨s, rfl, hs⟩ := h
    exact reads_sequence_block (Written.type_eq hs) (reads_block hL o hs) hrest

theorem reads_optionalShadow (hL : L.Faithful) (o : Option Outline) {ss : List (Section L.Expr)} (h : OptionalWritten "shadow" o ss) :
    Reads (Hcl.readSequence true ss) ([], optionalStack o) (OptionalReadable o) := by
  cases o with
  | none =>
    obtain rfl : ss = [] := h
    exact .done _
  | some o =>
    obtain ⟨s, rfl, hs⟩ := h
    exact reads_sequence_shadow (Written.type_eq hs) (reads_block hL o hs)

theorem reads_bodies (hL : L.Faithful) (bodies : List BodyOutline) {ss : List (Section L.Expr)} (h : BodiesWritten bodies ss) :
    Reads (Hcl.readSockets ss) (bodySockets bodies) (BodiesReadable bodies) := by
  cases bodies with
  | nil =>
    obtain rfl : ss = [] := h
    exact .done []
  | cons body bodies =>
    cases body with
    | mk name blocks =>
      obtain ⟨start, sections, others, rfl, hblocks, hothers⟩ := h
      have hsocket := reads_socket_statement hL name start (StackWritten.heading_mem hblocks)
        (reads_stack hL blocks hblocks)
      exact reads_sockets_cons hsocket (reads_bodies hL bodies hothers)

theorem reads_stack (hL : L.Faithful) (os : List Outline) {ss : List (Section L.Expr)} (h : StackWritten os ss) :
    Reads (Hcl.readSequence false ss) (stack os, []) (StackReadable os) := by
  cases os with
  | nil =>
    obtain rfl : ss = [] := h
    exact .done _
  | cons o os =>
    obtain ⟨s, others, rfl, hs, hothers⟩ := h
    exact reads_sequence_block (Written.type_eq hs) (reads_block hL o hs) (reads_stack hL os hothers)

end

end Outline

/-! ### Documents -/

namespace WorkspaceOutline

open Hcl

variable (hL : L.Faithful)

include hL in
theorem reads_variable {v : Variable} {s : Section L.Expr} (h : VariableWritten v s) : Reads (readVariable s) v True := by
  have hallows : L.allows variableShape s.attributes s.sections = true :=
    hL.allows_of h.names (by simp [h.sections])
  have hname : Reads (readAttribute s.attributes "name" L.toText v.id) v.name True :=
    reads_attribute (h.name.imp id fun e he => ⟨_, he, hL.toText_string _⟩)
  have htype : Reads (readAttribute s.attributes "type" L.toText "") v.type True :=
    reads_attribute (h.kind.imp id fun e he => ⟨_, he, hL.toText_string _⟩)
  have hlabel : firstLabel s.labels = v.id := by rw [h.labels]; rfl
  unfold readVariable
  simp only [hallows, hlabel, Bool.not_true, Bool.false_eq_true, if_false]
  refine hname.andThen ?_
  refine htype.andThen ?_
  exact .done _

variable {ss : List (Section L.Expr)} {rest : List (Section L.Expr)}

include hL in
theorem reads_variables {vars : List Variable} (h : List.Forall₂ VariableWritten vars ss)
    (hrest : Reads (readVariables rest) [] True) : Reads (readVariables (ss ++ rest)) vars True := by
  induction h with
  | nil => exact hrest
  | @cons v s _ _ hs _ ih =>
    rw [cons_append]
    unfold readVariables
    rw [if_pos hs.type]
    refine (reads_variable hL hs).andThen ?_
    refine ih.andThen ?_
    exact .done _

theorem reads_variables_none (h : ∀ s ∈ ss, s.type ≠ "variable") : Reads (readVariables ss) [] True := by
  induction ss with
  | nil => exact .done []
  | cons s ss ih =>
    unfold readVariables
    rw [if_neg (h s mem_cons_self)]
    exact ih fun s' hs' => h s' (mem_cons_of_mem s hs')

/-- A section that describes a stack is a block or a stack, with the labels that a document
allows. -/
theorem StackWritten.heading_cases {stack : Outline × List Outline} {s : Section L.Expr} (h : StackWritten stack s) :
    s.heading = ("block", 1) ∨ s.heading = ("stack", 0) := by
  rcases h with ⟨-, hblock⟩ | ⟨htype, hlabels, -⟩
  · exact .inl hblock.heading
  · exact .inr (by rw [Section.heading, htype, hlabels]; rfl)

include hL in
theorem reads_forest {forest : List (Outline × List Outline)} (h : List.Forall₂ StackWritten forest ss) :
    Reads (readStacks ss) (forest.map fun s => Outline.stack (s.1 :: s.2))
      (∀ s ∈ forest, Outline.StackReadable (s.1 :: s.2)) := by
  induction h with
  | nil => exact (Reads.done []).congr (by simp)
  | @cons stack s forest ss hs _ ih =>
    refine Reads.congr (p := Outline.StackReadable (stack.1 :: stack.2) ∧
      ∀ s ∈ forest, Outline.StackReadable (s.1 :: s.2)) ?_ (by simp)
    unfold readStacks
    rcases hs with ⟨hnil, hblock⟩ | ⟨htype, -, hattributes, hblocks⟩
    · have hread : Reads (Hcl.readBlock s) (some stack.1.block) (Outline.StackReadable (stack.1 :: stack.2)) :=
        (Outline.reads_block hL stack.1 hblock).congr (by simp [Outline.StackReadable, hnil])
      have hstack : Outline.stack (stack.1 :: stack.2) = [stack.1.block] := by simp [Outline.stack, hnil]
      simp only [hblock.type_eq, if_true, map_cons, hstack]
      refine hread.bind ?_
      refine (Reads.done [stack.1.block]).andThen ?_
      exact ih.finish (.done _)
    · have hallows : L.allows sequenceSchema s.attributes s.sections = true :=
        hL.allows_of (by simp [hattributes]) (Outline.StackWritten.heading_mem hblocks)
      simp only [htype, show ("stack" = "block") = False by decide, if_false, if_true, hallows]
      refine (Outline.reads_stack hL _ hblocks).bind ?_
      refine (Reads.done (Outline.stack (stack.1 :: stack.2))).andThen ?_
      exact ih.finish (.done _)

theorem readStacks_skip (h : ∀ s ∈ ss, s.type ≠ "block" ∧ s.type ≠ "stack")
    {tops : List Stack} {p : Prop} (hrest : Reads (readStacks rest) tops p) :
    Reads (readStacks (ss ++ rest)) tops p := by
  induction ss with
  | nil => exact hrest
  | cons s ss ih =>
    obtain ⟨hblock, hstack⟩ := h s mem_cons_self
    rw [cons_append]
    unfold readStacks
    simp only [hblock, hstack, if_false]
    refine (Reads.done []).andThen ?_
    refine (ih fun s' hs' => h s' (mem_cons_of_mem s hs')).finish ?_
    exact .done _

theorem forall_of_forall₂ {α : Type} {R : α → Section L.Expr → Prop}
    {P : Section L.Expr → Prop} {l : List α} (h : List.Forall₂ R l ss) (hR : ∀ a s, R a s → P s) : ∀ s ∈ ss, P s :=
  ((List.forall₂_and_left _ _).mp (h.flip.imp fun s a hs => ⟨hR a s hs, hs⟩)).1

include hL in
/-- **Reading the configuration document of an outline** gives its workspace, and complains if some
extra state describes no mutation. -/
theorem reads_workspace {w : WorkspaceOutline} {body : Body L.Expr} (h : w.WrittenAsBody body) :
    L.allows documentShape body.attributes body.sections = true ∧ Reads (readWorkspace body) w.workspace w.Readable := by
  obtain ⟨hattributes, vars, developers, forest, hsections, hvars, hdevelopers, hforest⟩ := h
  have hvarHeads : ∀ s ∈ vars, s.heading = ("variable", 1) := forall_of_forall₂ hvars fun v s hs => by
    rw [Section.heading, hs.type, hs.labels]
    rfl
  have hdeveloperHeads : ∀ s ∈ developers, s.heading = ("developer_variable", 1) :=
    forall_of_forall₂ hdevelopers fun name s hs => by
      rw [Section.heading, hs.1, hs.2]
      rfl
  have hforestHeads : ∀ s ∈ forest, s.heading = ("block", 1) ∨ s.heading = ("stack", 0) :=
    forall_of_forall₂ hforest fun _ _ hs => hs.heading_cases
  have htype {s : Section L.Expr} {type : String} {n : Nat} (hs : s.heading = (type, n)) : s.type = type :=
    congrArg Prod.fst hs
  refine ⟨?_, ?_⟩
  · refine hL.allows_of (by simp [hattributes]) fun s hs => ?_
    rw [hsections, mem_append, mem_append] at hs
    rcases hs with hs | hs | hs
    · rw [hvarHeads s hs]
      decide
    · rw [hdeveloperHeads s hs]
      decide
    · rcases hforestHeads s hs with hhead | hhead <;> rw [hhead] <;> decide
  · have hvariables : Reads (readVariables body.sections) w.vars True := by
      rw [hsections]
      refine reads_variables hL hvars (reads_variables_none fun s hs => ?_)
      rcases mem_append.mp hs with hs | hs
      · rw [htype (hdeveloperHeads s hs)]
        decide
      · rcases hforestHeads s hs with hhead | hhead <;> rw [htype hhead] <;> decide
    have htops : Reads (readStacks body.sections) w.workspace.tops w.Readable := by
      rw [hsections, ← append_assoc]
      refine readStacks_skip (fun s hs => ?_) (reads_forest hL hforest)
      rcases mem_append.mp hs with hs | hs
      · rw [htype (hvarHeads s hs)]
        decide
      · rw [htype (hdeveloperHeads s hs)]
        decide
    have hnames : ((body.sections.filter (·.type = "developer_variable")).map fun s => firstLabel s.labels) =
        w.developerVariables := by
      have hnone : vars.filter (·.type = "developer_variable") = [] := by
        refine filter_eq_nil_iff.mpr fun s hs => ?_
        rw [htype (hvarHeads s hs)]
        decide
      have hall : developers.filter (·.type = "developer_variable") = developers :=
        filter_eq_self.mpr fun s hs => decide_eq_true (htype (hdeveloperHeads s hs))
      have hnone' : forest.filter (·.type = "developer_variable") = [] := by
        refine filter_eq_nil_iff.mpr fun s hs => ?_
        rcases hforestHeads s hs with hhead | hhead <;> rw [htype hhead] <;> decide
      have hlabels : List.Forall₂ (· = ·) w.developerVariables (developers.map fun s => firstLabel s.labels) := by
        rw [List.forall₂_map_right_iff]
        exact hdevelopers.imp fun name s hs => by rw [hs.2]; rfl
      rw [hsections, filter_append, filter_append, hnone, hall, hnone', append_nil, nil_append]
      exact (List.forall₂_eq_eq_eq ▸ hlabels).symm
    unfold readWorkspace
    refine hvariables.andThen ?_
    refine htops.finish ?_
    rw [hnames]
    exact .done _

end WorkspaceOutline

end BlockProgram
