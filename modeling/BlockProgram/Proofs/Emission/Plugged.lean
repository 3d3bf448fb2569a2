import BlockProgram.Proofs.Emission.Statements

/-! # Values side by side

The same tree is emitted in runs side by side, where hooks and comments may vary (`Variation`).  A
block that is plugged in as a value gives the same code in all of them, unless they all fail
(`Variation.plugs_emit`).  For most blocks that is because their handlers read nothing but values.  A
block with a body gives statements, which cannot be plugged in, so that it does not matter what they
are.
-/
namespace BlockProgram

open List Emit Fragment

/-! ### Reading a value -/

namespace Parallel

variable {K : Type} (S : Parallel K)

/-- From runs in step, the steps give the same code and lead to runs in step, unless every single
one fails or gives a statement. -/
def Plugs (x : K → Emit Fragment) : Prop :=
  ∀ r, S.InStep r →
    (∀ k, (x k (S.setting k) (r k)).2.failure = none →
      ∃ text, (x k (S.setting k) (r k)).1 = .statement text ∧ text ≠ "") ∨
    (∃ c, ∀ k, (x k (S.setting k) (r k)).1 = c) ∧ S.InStep fun k => (x k (S.setting k) (r k)).2

variable {S}

/-- Reading a value is uniform if there is nothing to read, or the code that is plugged in is the
same. -/
theorem uniform_value [Inhabited K] {s : K → Scene} {name : String} (outer : Precedence)
    (h : (∀ k slot, (s k).slot? name = some slot → slot.target = []) ∨
      ∃ (slot : K → Slot) (first : K → Block) (rest : K → Stack), (∀ k, (s k).slot? name = some (slot k)) ∧
        (∀ k, (slot k).target = first k :: rest k) ∧ S.Plugs fun k => (slot k).code) :
    S.Uniform fun k => value (s k) name outer := by
  refine ⟨⟨fun k r hfailed => ?_, fun r hr => ?_⟩⟩
  · rw [value_of_unread (.inr (Option.isSome_iff_ne_none.mpr hfailed))]
    exact hfailed
  · rcases h with hempty | ⟨slot, first, rest, hslot, htarget, hplugs⟩
    · have heq : ∀ k, value (s k) name outer (S.setting k) (r k) = ("", r k) :=
        fun k => value_of_unread (.inl (hempty k))
      simp only [heq]
      exact .inr ⟨⟨"", rfl⟩, hr⟩
    · have heq : ∀ k, value (s k) name outer (S.setting k) (r k) =
          settle (s k) name outer (first k) ((slot k).code (S.setting k) (r k)).1 (S.setting k)
            ((slot k).code (S.setting k) (r k)).2 :=
        fun k => value_of_read (hslot k) (htarget k) (hr.running k)
      simp only [heq, settle_apply]
      rcases hplugs r hr with hsolid | ⟨⟨c, hc⟩, hr'⟩
      · refine .inl fun k => ?_
        by_cases hrunning : ((slot k).code (S.setting k) (r k)).2.failure = none
        · obtain ⟨text, htext, hne⟩ := hsolid k hrunning
          rw [hrunning, htext, if_neg (by simp)]
          dsimp only
          rw [if_neg (show (statement text).text ≠ "" from hne)]
          exact (fail_eq (S.setting k) ..).1
        · rw [if_pos (Option.isSome_iff_ne_none.mpr hrunning)]
          exact hrunning
      · have hrunning : ∀ k, ((slot k).code (S.setting k) (r k)).2.failure.isSome = false := fun k => by
          rw [hr'.running k]
          rfl
        simp only [hc, hrunning, Bool.false_eq_true, if_false]
        cases c with
        | expression | handled => exact .inr ⟨⟨_, rfl⟩, hr'⟩
        | statement text =>
          by_cases hempty : (statement text).text = ""
          · simp only [if_pos hempty]
            exact .inr ⟨⟨_, rfl⟩, hr'⟩
          · simp only [if_neg hempty]
            exact .inl fun k => (fail_eq (S.setting k) ..).1

end Parallel

/-! ### One tree in several runs -/

theorem replaceAll_ne_empty {text old new : String} (htext : text ≠ "") (hnew : new ≠ "") :
    Text.replaceAll text old new ≠ "" := by
  intro hempty
  have hchars : Text.replaceChars old.toList new.toList text.toList.length text.toList = [] := by
    simpa [Text.replaceAll] using congrArg String.toList hempty
  have hne : text.toList ≠ [] := fun h => htext (String.toList_eq_nil_iff.mp h)
  obtain ⟨c, cs, hcs⟩ := exists_cons_of_ne_nil hne
  rw [hcs, length_cons] at hchars
  unfold Text.replaceChars at hchars
  split at hchars
  · exact hnew (String.toList_eq_nil_iff.mp (append_eq_nil_iff.mp hchars).1)
  · exact cons_ne_nil _ _ hchars

theorem Emit.hook_eq_empty_iff {template : String} {b : BlockData} : hook template b = "" ↔ template = "" := by
  unfold hook fillId
  split
  · case isTrue h => exact ⟨fun _ => h, fun _ => rfl⟩
  · case isFalse h => exact ⟨fun hempty => absurd hempty (replaceAll_ne_empty h (by simp)), fun h' => absurd h' h⟩

/-- Runs side by side that emit one tree, where the comments of its blocks vary. -/
structure Variation (K : Type) extends Parallel K where
  vary : K → BlockData → BlockData
  vary_eq : ∀ k d, vary k d = { d with comment := (vary k d).comment }
  /-- Hooks are in use in all runs or in none. -/
  hooked : (∀ k, (setting k).options.statementPrefix = "" ∧ (setting k).options.statementSuffix = "") ∨
    ∀ k, (setting k).options.statementPrefix ≠ "" ∨ (setting k).options.statementSuffix ≠ ""
  /-- The blocks that may be entered. -/
  Enters : BlockData → Prop
  kept_enter : ∀ (r : K → Run) (d : BlockData), Enters d → Kept r →
    Kept fun k => { r k with dispatched := vary k d :: (r k).dispatched }
  /-- The sockets in which comments do not show. -/
  Calm : SocketKind → Prop
  calm : ∀ kind, Calm kind → ∀ (place : K → Place) (b : Block) (flags : HandlerFlags),
    (∀ k, (place k).plugged = decide (kind = .value)) →
      ∃ lines, ∀ k, commentLines (setting k).options flags (place k) (b.mapData (vary k)) = lines

namespace Variation

open Vocabulary

variable {K : Type} (V : Variation K)

/-- The blocks of the tree may be entered and define nothing, and comments do not show in their
sockets unless they have bodies. -/
def Fits (b : Block) : Prop :=
  ∀ b' ∈ b.descendants, V.Enters b'.data ∧ b'.data.defines = false ∧
    (hasBody b'.type = false → ∀ s ∈ b'.sockets, s.target ≠ [] → V.Calm s.kind)

variable {V}

theorem enter_inStep {r : K → Run} (hr : V.InStep r) {d : BlockData} (hd : V.Enters d) :
    V.InStep fun k => { r k with dispatched := V.vary k d :: (r k).dispatched } :=
  ⟨hr.running, fun k k' =>
    have h := hr.agrees k k'
    ⟨h.names, h.helpers, h.panels, h.keys⟩, V.kept_enter r d hd hr.kept⟩

/-- The block in all runs, as its handler sees it. -/
def scene (V : Variation K) (b : Block) (place : K → Place) (k : K) : Scene :=
  (b.mapData (V.vary k)).scene .standard (place k)

theorem data_scene (b : Block) (place : K → Place) (k : K) : (V.scene b place k).data = V.vary k b.data :=
  Block.data_mapData _ b

theorem slot?_scene (b : Block) (place : K → Place) (k : K) (name : String) :
    (V.scene b place k).slot? name = (b.socket? name).map fun s =>
      { name := s.name, kind := s.kind, target := List.map (Block.mapData (V.vary k)) s.target
        code := Stack.emitFirst .standard ((place k).inside (V.vary k b.data) (s.kind = .value))
          (List.map (Block.mapData (V.vary k)) s.target)
        chain := Stack.emit .standard ((place k).inside (V.vary k b.data) (s.kind = .value))
          (List.map (Block.mapData (V.vary k)) s.target) } := by
  unfold scene
  rw [Block.slot?_scene, Block.socket?_mapData, Option.map_map]
  refine congrArg (Option.map · _) (funext fun s => ?_)
  rw [Function.comp_apply, Socket.slot_eq, Block.data_mapData, Socket.name_mapData, Socket.kind_mapData,
    Socket.target_mapData]

variable {b : Block} {place : K → Place} {name : String}

/-- The value in a socket is read alike if the first block there gives the same code. -/
theorem uniform_value_scene [Inhabited K] (outer : Precedence)
    (h : ∀ s, b.socket? name = some s → ∀ first rest, s.target = first :: rest →
      V.Plugs fun k => (first.mapData (V.vary k)).emit .standard
        ((place k).inside (V.vary k b.data) (s.kind = .value))) :
    V.Uniform fun k => value (V.scene b place k) name outer := by
  refine Parallel.uniform_value outer ?_
  simp only [slot?_scene]
  cases hsocket : b.socket? name with
  | none => exact .inl nofun
  | some s =>
    cases htarget : s.target with
    | nil =>
      refine .inl fun k slot hslot => ?_
      obtain rfl := Option.some.inj hslot
      exact congrArg (List.map _) htarget
    | cons first rest =>
      refine .inr ⟨_, fun k => first.mapData (V.vary k), fun k => List.map (Block.mapData (V.vary k)) rest,
        fun k => rfl, fun k => ?_, ?_⟩
      · exact congrArg (List.map _) htarget
      · dsimp only
        rw [htarget]
        unfold Stack.emitFirst
        exact h s hsocket first rest htarget

theorem scenes_of_plugs [Inhabited K] (h : ∀ s ∈ b.sockets, ∀ first rest, s.target = first :: rest →
      V.Plugs fun k => (first.mapData (V.vary k)).emit .standard
        ((place k).inside (V.vary k b.data) (s.kind = .value))) :
    V.Scenes (V.scene b place) b.data where
  data_eq k := by
    rw [data_scene]
    exact V.vary_eq k b.data
  value name outer := uniform_value_scene outer fun s hs => h s (mem_of_find?_eq_some hs)

/-- A block is passed over in all runs, or all of them fail, or it is handed to its handler in all
of them. -/
theorem emit_cases (b : Block) (place : K → Place) {r : K → Run} (hr : V.InStep r) : (b.data.disabled = true ∧
      ∀ k, (b.mapData (V.vary k)).emit .standard (place k) (V.setting k) (r k) = (.empty, r k)) ∨
    (∀ k, ((b.mapData (V.vary k)).emit .standard (place k) (V.setting k) (r k)).2.failure ≠ none) ∨
    ∃ h, b.data.disabled = false ∧ standard.get? b.type = some h ∧
      ∀ k, (b.mapData (V.vary k)).emit .standard (place k) (V.setting k) (r k) =
        let out := h.emit (V.scene b place k) (V.setting k)
          { r k with dispatched := V.vary k b.data :: (r k).dispatched }
        (if out.2.failure.isSome then .empty
          else dressed (V.setting k).options h.flags (V.scene b place k) out.1, out.2) := by
  have hemit : ∀ k, (b.mapData (V.vary k)).emit .standard (place k) = dispatch .standard (V.scene b place k) :=
    fun k => Block.emit_eq .standard (place k) _
  have hdisabled : ∀ k, (V.scene b place k).data.disabled = b.data.disabled := fun k => by
    rw [data_scene, V.vary_eq]
  have htype : ∀ k, (V.scene b place k).data.type = b.type := fun k => by
    rw [data_scene, V.vary_eq]
    rfl
  simp only [hemit]
  cases hb : b.data.disabled with
  | true => exact .inl ⟨rfl, fun k => dispatch_of_idle (.inr ((hdisabled k).trans hb))⟩
  | false =>
    cases hget : standard.get? b.type with
    | none =>
      refine .inr (.inl fun k => ?_)
      rw [dispatch_of_unknown (hr.running k) ((hdisabled k).trans hb) (by rw [htype]; exact hget)]
      exact (fail_eq (V.setting k) ..).1
    | some h =>
      refine .inr (.inr ⟨h, rfl, rfl, fun k => ?_⟩)
      rw [dispatch_of_handled (hr.running k) ((hdisabled k).trans hb) (by rw [htype]; exact hget), data_scene]

theorem hook_vary (k : K) (template : String) (d : BlockData) : hook template (V.vary k d) = hook template d := by
  rw [V.vary_eq]
  rfl

/-- A statement with its hooks is empty in all runs or in none. -/
theorem dressed_statement (flags : HandlerFlags) (text : String) (b : BlockData) :
    (∀ k, (if flags.ownHooks then text else hook (V.setting k).options.statementPrefix b ++ text ++
        hook (V.setting k).options.statementSuffix b) ≠ "") ∨
    ∀ k, (if flags.ownHooks then text else hook (V.setting k).options.statementPrefix b ++ text ++
        hook (V.setting k).options.statementSuffix b) = "" := by
  by_cases htext : text = ""
  · subst htext
    cases flags.ownHooks with
    | true => exact .inr fun _ => rfl
    | false =>
      rcases V.hooked with hnone | hsome
      · exact .inr fun k => by simp [hook, hnone k]
      · refine .inl fun k => ?_
        rw [if_neg Bool.false_ne_true, String.append_empty, Ne, String.append_eq_empty_iff, hook_eq_empty_iff, hook_eq_empty_iff,
          not_and_or]
        exact hsome k
  · refine .inl fun k => ?_
    split
    · exact htext
    · simp [htext]

/-- A block that reads nothing but values gives the same code if comments do not show. -/
theorem plugs_emit_of_scenes [Inhabited K]
    (hscenes : V.Scenes (V.scene b place) b.data) (henters : V.Enters b.data) (hbody : hasBody b.type = false)
    (hcalm : ∀ flags, ∃ lines, ∀ k, commentLines (V.setting k).options flags (place k) (b.mapData (V.vary k)) = lines) :
    V.Plugs fun k => (b.mapData (V.vary k)).emit .standard (place k) := by
  intro r hr
  rcases emit_cases b place hr with ⟨-, hidle⟩ | hfail | ⟨h, -, hget, hemit⟩
  · simp only [hidle]
    exact .inr ⟨⟨_, fun _ => rfl⟩, hr⟩
  · exact .inl fun k hrunning => absurd hrunning (hfail k)
  · simp only [hemit]
    have huniform : V.Uniform fun k => h.emit (V.scene b place k) := Law.holds_reader hget hbody
    rcases huniform.marches _ (enter_inStep hr henters) with hfail | ⟨⟨c, hc⟩, hr'⟩
    · exact .inl fun k hrunning => absurd hrunning (hfail k)
    · have hresult := fun k => congrFun hc k
      have hrunning : ∀ k, (h.emit (V.scene b place k) (V.setting k)
          { r k with dispatched := V.vary k b.data :: (r k).dispatched }).2.failure.isSome = false := fun k => by
        rw [hr'.running k]
        rfl
      obtain ⟨lines, hlines⟩ := hcalm h.flags
      simp only [hresult, hrunning, Bool.false_eq_true, if_false]
      cases c with
      | expression text precedence =>
        exact .inr ⟨⟨.expression (lines ++ text) precedence, fun k =>
          congrArg (fun l => expression (l ++ text) precedence) (hlines k)⟩, hr'⟩
      | handled => exact .inr ⟨⟨.empty, fun _ => rfl⟩, hr'⟩
      | statement text =>
        have hdressed : ∀ k, dressed (V.setting k).options h.flags (V.scene b place k) (.statement text) =
            .statement (lines ++ if h.flags.ownHooks then text else
              hook (V.setting k).options.statementPrefix b.data ++ text ++
                hook (V.setting k).options.statementSuffix b.data) := fun k => by
          unfold dressed
          rw [data_scene, hook_vary, hook_vary]
          exact congrArg (fun l => statement (l ++ _)) (hlines k)
        simp only [hdressed]
        rcases dressed_statement (V := V) h.flags text b.data with hne | hempty
        · exact .inl fun k _ => ⟨_, rfl, by simp [hne k]⟩
        · simp only [hempty]
          exact .inr ⟨⟨_, fun _ => rfl⟩, hr'⟩

/-- **A value is the same in all runs.** -/
theorem plugs_emit [Inhabited K] (b : Block) (hfits : V.Fits b) (kind : SocketKind) (hkind : V.Calm kind)
    (place : K → Place) (hplace : ∀ k, (place k).plugged = decide (kind = .value)) :
    V.Plugs fun k => (b.mapData (V.vary k)).emit .standard (place k) := by
  induction b using Block.induct generalizing kind place with
  | h b ih =>
    intro r hr
    rcases emit_cases b place hr with ⟨-, hidle⟩ | hfail | ⟨h, -, hget, hemit⟩
    · simp only [hidle]
      exact .inr ⟨⟨_, fun _ => rfl⟩, hr⟩
    · exact .inl fun k hrunning => absurd hrunning (hfail k)
    · obtain ⟨henters, hdefines, hcalm⟩ := hfits b b.mem_descendants_self
      cases hbody : hasBody b.type with
      | false =>
        have hscenes : V.Scenes (V.scene b place) b.data := scenes_of_plugs fun s hs first rest htarget => by
          have hfirst : first ∈ s.target := htarget ▸ mem_cons_self
          exact ih s hs first hfirst (fun c hc => hfits c (Block.descendants_subset hs hfirst hc)) s.kind
            (hcalm hbody s hs (ne_nil_of_mem hfirst)) _ fun k => rfl
        exact plugs_emit_of_scenes hscenes henters hbody (fun flags => V.calm kind hkind place b flags hplace) r hr
      | true =>
        refine .inl fun k hrunning => ?_
        have hflags : h.flags.definesProcedure = false :=
          (isProcedureDefinition_eq hget).symm.trans (b.data.defines_eq ▸ hdefines)
        dsimp only at hrunning ⊢
        rw [hemit k] at hrunning ⊢
        dsimp only at hrunning ⊢
        obtain ⟨text, htext, hne⟩ := solid_handler (V.scene b place k) hget hflags (by unfold isStatement; rw [hbody]; rfl) _ hrunning
        rw [hrunning, htext]
        refine ⟨_, rfl, ?_⟩
        split
        · simp [hne]
        · simp [hne]

end Variation

end BlockProgram
