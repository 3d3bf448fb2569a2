import BlockProgram.Proofs.Workspace.Outlines

/-! # Outlines in the format of the editor

Loading the JSON document of an outline gives the workspace that is outlined
(`WorkspaceOutline.load_json`), unless some extra state describes no mutation, which makes loading
fail.  Each step of loading is stated by `Loads`, and the steps are put together along the outline:
what is read as the record of a block loads as that block (`Outline.exists_record`).
-/
namespace BlockProgram

open Json

/-- A step of loading gives `a` if `p` holds, and fails otherwise. It draws no ids and declares no
variables. -/
def Loads {α : Type} (m : Loading α) (a : α) (p : Prop) : Prop :=
  ∀ s, (p → m s = (.ok a, s)) ∧ (¬ p → ∃ f, m s = (.error f, s))

namespace Loads

variable {α β : Type} {m : Loading α} {a : α} {p : Prop}

theorem done (a : α) : Loads (.done a) a True := fun _ => ⟨fun _ => rfl, fun h => absurd trivial h⟩

theorem congr {q : Prop} (hm : Loads m a p) (h : p ↔ q) : Loads m a q := propext h ▸ hm

theorem andThen {k : α → Loading β} {b : β} {q : Prop} (hm : Loads m a p) (hk : Loads (k a) b q) :
    Loads (m.andThen k) b (p ∧ q) := by
  intro s
  by_cases hp : p
  · have hfirst : m.andThen k s = k a s := by
      unfold Loading.andThen
      rw [(hm s).1 hp]
    rw [hfirst]
    exact ⟨fun h => (hk s).1 h.2, fun h => (hk s).2 fun hq => h ⟨hp, hq⟩⟩
  · obtain ⟨f, hf⟩ := (hm s).2 hp
    refine ⟨fun h => absurd h.1 hp, fun _ => ⟨f, ?_⟩⟩
    unfold Loading.andThen
    rw [hf]

theorem inBlock (hm : Loads m a p) (id type : String) : Loads (Loading.inBlock id type m) a p := by
  intro s
  unfold Loading.inBlock
  refine ⟨fun hp => by rw [(hm s).1 hp], fun hp => ?_⟩
  obtain ⟨f, hf⟩ := (hm s).2 hp
  exact ⟨.inBlock id type f, by rw [hf]⟩

theorem ofExcept {ε : Type} (wrap : ε → LoadFault) (r : Except ε α) (default : α) :
    Loads (Loading.ofExcept wrap r) (r.toOption.getD default) (r.toOption.isSome = true) := by
  intro s
  cases r with
  | ok a => exact ⟨fun _ => rfl, fun h => absurd rfl h⟩
  | error f => exact ⟨fun h => absurd h Bool.false_ne_true, fun _ => ⟨wrap f, rfl⟩⟩

theorem idOr {id : String} (hid : id ≠ "") : Loads (Loading.idOr id) id True := by
  rw [Loading.idOr, if_neg hid]
  exact done id

end Loads

/-! ### Records of blocks -/

namespace Coordinate

/-- The spelling of a coordinate is read as the coordinate. -/
theorem readDouble?_spelling (c : Coordinate) : Number.readDouble? c.spelling.toList = some c.value := by
  have hdecimal : Number.binary64.ofDecimal c.negative c.decimal.digits c.decimal.exponent = c.value := by
    rcases c.double with ⟨hm, he⟩ | hdouble
    · have hzero : c.decimal.digits = 0 := by
        have hexact := c.exact
        rw [hm, Nat.cast_zero, zero_mul, Number.Decimal.toRat, mul_eq_zero] at hexact
        exact_mod_cast hexact.resolve_right (Number.ten_zpow_pos _).ne'
      rw [Number.Format.ofDecimal, if_pos hzero, value, hm, he]
    · have hpos : 0 < c.decimal.digits := by
        have hrat : (0 : ℚ) < c.decimal.toRat := by
          rw [c.exact]
          exact mul_pos (by exact_mod_cast hdouble.pos) (Number.two_zpow_pos _)
        by_contra hzero
        rw [Number.Decimal.toRat, Nat.eq_zero_of_not_pos hzero, Nat.cast_zero, zero_mul] at hrat
        exact lt_irrefl _ hrat
      exact Number.ofDecimal_of_near c.negative hpos hdouble (c.exact ▸ Number.binary64.near_self _ _)
  unfold Number.readDouble?
  rw [c.spelled]
  dsimp only
  rw [hdecimal]
  rfl

end Coordinate

namespace OutlineData

def entry (d : OutlineData) : BlockEntry where
  type := d.type
  id := d.id
  x := d.x.value
  y := d.y.value
  enabled := some !d.disabled
  comment := d.comment
  fields := .object d.fieldMembers
  extraState := d.extra

theorem readBlockMembers_members (d : OutlineData) (inputs statements : SocketsDoc) (next : Option ConnectionDoc)
    (rest : List (String × Json)) : readBlockMembers (.mk {} inputs statements next) (d.members ++ rest) =
      readBlockMembers (.mk d.entry inputs statements next) rest := by
  simp [members, readBlockMembers, foldKey_keys, BlockEntry.update,
    takeString, takeDouble, takeOption, takeBool, Coordinate.readDouble?_spelling, Except.map]
  rfl

theorem loadField_scalar (name : String) (v : Scalar) : loadField name v.json = .done ⟨name, v.fieldText, ""⟩ := by
  cases v <;> rfl

theorem loadField_reference (name : String) {id : String} (hid : id ≠ "") :
    loadField name (.object [("id", .string id)]) = .done ⟨name, "", id⟩ := by
  have href : VariableRef.ofJson (.object [("id", .string id)]) = .ok { id := id } := by
    simp [VariableRef.ofJson, takeMembers, foldKey_keys, takeString, Except.map, bind, Except.bind, pure, Except.pure]
  funext s
  simp [loadField, href, Loading.ofExcept, Loading.andThen, hid]

theorem loads_loadFieldList {members : List (String × Json)} {fields : List Field}
    (h : List.Forall₂ (fun m f => loadField m.1 m.2 = .done f) members fields) :
    Loads (loadFieldList members) fields True := by
  induction h with
  | nil => exact .done []
  | @cons m f _ _ hm _ ih =>
    unfold loadFieldList
    rw [hm]
    refine Loads.congr (p := True ∧ True ∧ True) ?_ (by simp)
    refine (Loads.done f).andThen ?_
    refine ih.andThen ?_
    exact .done _

theorem loads_fields (d : OutlineData) : Loads (loadFields d.entry.fields) d.blockData.fields True := by
  refine loads_loadFieldList (List.rel_append ?_ ?_)
  · rw [List.forall₂_map_left_iff, List.forall₂_map_right_iff, List.forall₂_same]
    exact fun f _ => loadField_scalar f.1 f.2
  · rw [List.forall₂_map_left_iff, List.forall₂_map_right_iff, List.forall₂_same]
    exact fun r _ => loadField_reference r.1 r.2.2

end OutlineData

/-! ### Blocks -/

namespace Outline

/-- A record, or none, where a value, or none, stands. -/
def RecordOf (v : Option Json) (record : Option BlockDoc) : Prop :=
  v.elim (record = none) fun v => readBlock none v = .ok record

theorem readConnection_connection {block shadow : Option Json} {record shadowRecord : Option BlockDoc}
    (hblock : RecordOf block record) (hshadow : RecordOf shadow shadowRecord) :
    readConnection none (connection block shadow) = .ok (some (.mk record shadowRecord)) := by
  cases block <;> cases shadow <;>
    simp_all [RecordOf, connection, readConnection, readConnectionMembers, ConnectionDoc.empty, foldKey_keys, Except.map]

/-- A value, or none, stands for a stack that is loaded if `p` holds. -/
def StandsFor (v : Option Json) (stack : Stack) (p : Prop) : Prop :=
  ∃ record, RecordOf v record ∧ Loads (loadOptional record) stack p

theorem standsFor_none : StandsFor none [] True := ⟨none, rfl, .done []⟩

/-- Sockets load one after another, each with what is plugged into it and its shadow. -/
theorem loads_connected {kind : String → SocketKind} {block shadow : Option Json} {plugged shadowed : Stack}
    {p q r : Prop} (hblock : StandsFor block plugged p) (hshadow : StandsFor shadow shadowed q)
    {rest : List (String × Json)} {sockets : List Socket}
    (hrest : Loads (loadSockets kind (readSocketMembers rest)) sockets r) (name : String) :
    Loads (loadSockets kind (readSocketMembers ((name, connection block shadow) :: rest)))
      (.mk name (kind name) plugged shadowed :: sockets) ((p ∧ q) ∧ r) := by
  obtain ⟨record, hrecord, hplugged⟩ := hblock
  obtain ⟨shadowRecord, hshadowRecord, hshadowed⟩ := hshadow
  have hsocket : Loads (SocketDoc.load kind (.connected name (.mk record shadowRecord)))
      (.mk name (kind name) plugged shadowed) ((p ∧ q ∧ True) ∧ True) := by
    refine Loads.andThen (a := (plugged, shadowed)) ?_ (.done _)
    exact hplugged.andThen (hshadowed.andThen (.done (plugged, shadowed)))
  unfold readSocketMembers loadSockets
  rw [readConnection_connection hrecord hshadowRecord]
  refine Loads.congr (p := ((p ∧ q ∧ True) ∧ True) ∧ r ∧ True) ?_ (by simp)
  refine hsocket.andThen ?_
  refine hrest.andThen ?_
  exact .done _

/-- The record of a block has the records of its sockets and of what follows it. -/
theorem readBlock_json (data : OutlineData) (inputs : List InputOutline) (bodies : List BodyOutline)
    {following : Option Json} {record : Option BlockDoc} (h : RecordOf following record) :
    ∃ next, readBlock none (json following (.mk data inputs bodies)) =
        .ok (some (.mk data.entry (.members (readSocketMembers (inputMembers inputs)))
    (.members (readSocketMembers (bodyMembers bodies))) next)) ∧ loadNext next = loadOptional record := by
  cases following with
  | none =>
    obtain rfl : record = none := h
    refine ⟨none, ?_, rfl⟩
    simp only [json, readBlock, Option.getD_none, BlockDoc.empty, OutlineData.readBlockMembers_members]
    simp [readBlockMembers, foldKey_keys, readSockets, Except.map]
  | some v =>
    have hconnection : readConnection none (connection (some v) none) = .ok (some (.mk record none)) :=
      readConnection_connection h rfl
    refine ⟨some (.mk record none), ?_, rfl⟩
    simp only [json, readBlock, Option.getD_none, BlockDoc.empty, OutlineData.readBlockMembers_members]
    simp [readBlockMembers, foldKey_keys, hconnection, readSockets, Except.map]

mutual

/-- **The record of a block loads as the block**, and what follows it as its successors. -/
theorem exists_record (o : Outline) {following : Option Json} {after : Stack} {p : Prop}
    (h : StandsFor following after p) : ∃ doc, readBlock none (o.json following) = .ok (some doc) ∧
      Loads doc.load (o.block :: after) (o.Readable ∧ p) := by
  cases o with
  | mk data inputs bodies =>
    obtain ⟨record, hrecord, hafter⟩ := h
    obtain ⟨next, hread, hnext⟩ := readBlock_json data inputs bodies hrecord
    refine ⟨_, hread, ?_⟩
    have hinputs := loads_inputs inputs
    have hbodies := loads_bodies bodies
    have hmutation := Loads.ofExcept LoadFault.mutation (Mutation.ofJson data.type data.extra) {}
    have hdisabled : data.entry.disabled = data.disabled := by
      simp [BlockEntry.disabled, OutlineData.entry]
    refine Loads.congr (p := True ∧ True ∧ data.mutation?.isSome = true ∧ InputsReadable inputs ∧
      BodiesReadable bodies ∧ p ∧ True) ?_ (by simp [Readable, and_assoc])
    refine (Loads.idOr data.id_ne).andThen ?_
    refine (data.loads_fields.inBlock _ _).andThen ?_
    refine (hmutation.inBlock _ _).andThen ?_
    refine (hinputs.inBlock _ _).andThen ?_
    refine (hbodies.inBlock _ _).andThen ?_
    rw [hnext]
    refine hafter.andThen ?_
    rw [hdisabled]
    exact .done _

theorem loads_inputs (inputs : List InputOutline) :
    Loads (loadSockets defaultSocketKind (readSocketMembers (inputMembers inputs))) (inputSockets inputs)
      (InputsReadable inputs) := by
  cases inputs with
  | nil => exact .done []
  | cons input rest =>
    cases input with
    | mk name isValue block shadow =>
      have hloads := loads_connected (standsFor_optional block) (standsFor_optional shadow) (loads_inputs rest) name
      rwa [isValue] at hloads

theorem standsFor_optional (o : Option Outline) :
    StandsFor (optionalJson o) (optionalStack o) (OptionalReadable o) := by
  cases o with
  | none => exact standsFor_none
  | some o =>
    obtain ⟨doc, hread, hloads⟩ := exists_record o standsFor_none
    exact ⟨some doc, hread, hloads.congr (by rw [and_true]; rfl)⟩

theorem loads_bodies (bodies : List BodyOutline) :
    Loads (loadSockets (fun _ => .statement) (readSocketMembers (bodyMembers bodies))) (bodySockets bodies)
      (BodiesReadable bodies) := by
  cases bodies with
  | nil => exact .done []
  | cons body rest =>
    cases body with
    | mk name blocks =>
      have hloads := loads_connected (standsFor_stack blocks) standsFor_none (loads_bodies rest) name
      exact hloads.congr (by rw [and_true]; rfl)

theorem standsFor_stack (os : List Outline) : StandsFor (stackJson os) (stack os) (StackReadable os) := by
  cases os with
  | nil => exact standsFor_none
  | cons o os =>
    obtain ⟨doc, hread, hloads⟩ := exists_record o (standsFor_stack os)
    exact ⟨some doc, hread, hloads⟩

end

end Outline

/-! ### Documents -/

namespace WorkspaceOutline

theorem takeVariable_json (old v : Variable) : takeVariable old (variableJson v) = .ok v := by
  simp [takeVariable, variableJson, takeMembers, foldKey_keys, takeString, Except.map, bind,
    Except.bind, pure, Except.pure]

/-- The stacks of a forest stand in a document, and load one after another. -/
theorem exists_records (forest : List (Outline × List Outline)) :
    ∃ docs, List.Forall₂ (fun v doc => readBlock none v = .ok (some doc))
        (forest.map fun s => s.1.json (Outline.stackJson s.2)) docs ∧
      ∀ i, Loads (loadTops i (docs.map some)) (forest.map fun s => Outline.stack (s.1 :: s.2))
        (∀ s ∈ forest, Outline.StackReadable (s.1 :: s.2)) := by
  induction forest with
  | nil => exact ⟨[], .nil, fun _ => (Loads.done []).congr (by simp)⟩
  | cons s forest ih =>
    obtain ⟨docs, hread, hloads⟩ := ih
    obtain ⟨doc, hfirst, hdoc⟩ := Outline.exists_record s.1 (Outline.standsFor_stack s.2)
    refine ⟨doc :: docs, .cons hfirst hread, fun i => ?_⟩
    refine Loads.congr (p := (s.1.Readable ∧ Outline.StackReadable s.2) ∧
      (∀ s ∈ forest, Outline.StackReadable (s.1 :: s.2)) ∧ True) ?_ (by simp [Outline.StackReadable])
    refine hdoc.andThen ?_
    refine (hloads (i + 1)).andThen ?_
    exact .done _

/-- **Loading the JSON document of an outline** gives its workspace, or fails if some extra state
describes no mutation. -/
theorem load_json {w : WorkspaceOutline} {json : Json} (h : w.WrittenAsJson json) :
    ∃ document, Document.ofJson json = .ok document ∧ ∀ ids, (w.Readable → document.load ids = (.ok w.workspace, ids)) ∧
      (¬ w.Readable → ∃ f, document.load ids = (.error f, ids)) := by
  obtain ⟨blocks, vars, developerVariables, rfl⟩ := h
  obtain ⟨docs, hread, hloads⟩ := exists_records w.forest
  have hblocks : takeList (fun b => readBlock (b.getD none)) {}
      (.array (w.forest.map fun s => s.1.json (Outline.stackJson s.2)) blocks) = .ok ⟨docs.map some, []⟩ := by
    refine takeList_of_forall₂ ?_ blocks
    rwa [List.forall₂_map_right_iff]
  have hvars : takeList (fun x => takeVariable (x.getD ⟨"", "", ""⟩)) {}
      (.array (w.vars.map variableJson) vars) = .ok ⟨w.vars, []⟩ :=
    takeList_fresh (fun v => takeVariable_json _ v) w.vars vars
  have hdevelopers : takeStrings {} (.array (w.developerVariables.map .string) developerVariables) =
      .ok ⟨w.developerVariables, []⟩ :=
    takeList_fresh (fun _ => rfl) w.developerVariables developerVariables
  refine ⟨⟨⟨docs.map some, []⟩, ⟨w.vars, []⟩, ⟨w.developerVariables, []⟩⟩, ?_, fun ids => ?_⟩
  · simp [Document.ofJson, takeMembers, takeSection, foldKey_keys, hblocks, hvars,
      hdevelopers, Except.map, bind, Except.bind, pure, Except.pure]
  · obtain ⟨hok, hfail⟩ := hloads 0 ⟨w.vars, ids⟩
    unfold Document.load
    refine ⟨fun hreadable => ?_, fun hfaulty => ?_⟩
    · rw [hok hreadable]
      rfl
    · obtain ⟨f, hf⟩ := hfail hfaulty
      exact ⟨f, by rw [hf]⟩

end WorkspaceOutline

end BlockProgram
