import BlockProgram.Program.Generate
import BlockProgram.Proofs.Expression.Basic
import BlockProgram.Proofs.Names.Table

/-! # Steps of a run

A step of a run hands out identifiers on the way, and what is handed out stays: the runs that follow
only add names.  So the text of a step is a function of the names of the run it leads to, and of
those of every run that follows.  `Gives` says this of a step, with the function.  Steps that give
something compose (`Gives.bind`), and there is one lemma for each elementary step; handlers need no
other access to the state of a run.
-/
namespace BlockProgram

open NameTable

/-- A block as the handlers of the editor see it. -/
abbrev Block.stage (b : Block) (place : Place) : Scene := b.scene .standard place

/-! ### Runs and their names -/

def Word.ofText (s : String) : Word :=
  if h : NameTable.isIdentifier s = true then ⟨s, h⟩ else { text := "_" }

theorem Word.text_ofText {s : String} (h : NameTable.isIdentifier s = true) : (Word.ofText s).text = s := by
  unfold Word.ofText
  rw [dif_pos h]

namespace Run

/-- The names of a run. A variable without an identifier is shown with the one it would be given. -/
def naming (r : Run) : Naming where
  ofVariable x := .ofText (r.names.get x .userVariable).1
  ofHelper key := .ofText ((r.helper? key).getD "")

structure Orderly (r : Run) : Prop where
  names : r.names.Sound
  reserved : reservedWords ⊆ r.names.reserved
  helpers : ∀ p ∈ r.helpers, isIdentifier p.2 = true

structure Good (r : Run) : Prop extends Orderly r where
  running : r.failure = none

/-- What was handed out in `r` still holds in `r'`, which is in order, and a failure stays. -/
structure Extends (r r' : Run) : Prop where
  orderly : r'.Orderly
  vars : r'.names.vars = r.names.vars
  entries : r.names.entries ⊆ r'.names.entries
  helpers : ∀ key name, r.helper? key = some name → r'.helper? key = some name
  running_of : r'.failure = none → r.failure = none

/-- The run `r'` extends `r` and has not failed. -/
structure Follows (r r' : Run) : Prop extends Extends r r' where
  running : r'.failure = none

variable {r r' r'' : Run}

theorem Orderly.extends_self (h : r.Orderly) : r.Extends r :=
  ⟨h, rfl, List.Subset.refl _, fun _ _ => id, id⟩

theorem Extends.trans (h : r.Extends r') (h' : r'.Extends r'') : r.Extends r'' :=
  ⟨h'.orderly, h'.vars.trans h.vars, List.Subset.trans h.entries h'.entries,
    fun key name hname => h'.helpers key name (h.helpers key name hname),
    fun hrunning => h.running_of (h'.running_of hrunning)⟩

theorem Follows.good (h : r.Follows r') : r'.Good := ⟨h.orderly, h.running⟩

theorem Good.follows (h : r.Good) : r.Follows r := ⟨h.toOrderly.extends_self, h.running⟩

theorem Follows.trans (h : r.Follows r') (h' : r'.Follows r'') : r.Follows r'' :=
  ⟨h.toExtends.trans h'.toExtends, h'.running⟩

theorem Follows.resolve (h : r.Follows r') (x : String) (c : Category) :
    r'.names.resolve x c = r.names.resolve x c := by
  unfold NameTable.resolve
  rw [h.vars]

/-- What tells variables apart: the name, in lower case. -/
def variableKey (r : Run) (x : String) : String := Text.lower (r.names.resolve x .userVariable)

def IsEntry (r : Run) (x : String) (e : NameEntry) : Prop :=
  e ∈ r.names.entries ∧ e.category = .userVariable ∧ Text.lower e.logical = r.variableKey x

/-- The variable has been given an identifier. -/
def Settled (r : Run) (x : String) : Prop := ∃ e, r.IsEntry x e

variable {x : String} {e : NameEntry}

theorem Follows.isEntry (h : r.Follows r') (he : r.IsEntry x e) : r'.IsEntry x e :=
  ⟨h.entries he.1, he.2.1, by unfold variableKey; rw [h.resolve]; exact he.2.2⟩

theorem IsEntry.get_eq (hr : r.Good) (he : r.IsEntry x e) : r.names.get x .userVariable = (e.text, r.names) := by
  obtain ⟨hmem, hc, hl⟩ := he
  unfold variableKey at hl
  rw [← hc] at hl ⊢
  exact get_eq_of_mem hr.names hmem hl.symm

theorem IsEntry.text_ofVariable (hr : r.Good) (he : r.IsEntry x e) : (r.naming.ofVariable x).text = e.text := by
  unfold naming
  dsimp only
  rw [he.get_eq hr, Word.text_ofText (hr.names.text_free he.1).1]

theorem Follows.ofHelper (h : r.Follows r') {key name : String} (hk : r.helper? key = some name) :
    r'.naming.ofHelper key = .ofText name := by
  unfold naming
  dsimp only
  rw [h.helpers key name hk]
  rfl

end Run

/-! ### What a step gives -/

section

variable {setting : Setting} {α β : Type}

/-- From every run in order the step leads to one that follows, and its result is in the relation
`P` with all runs from there on. -/
def Yields (setting : Setting) (x : Emit α) (P : α → Run → Prop) : Prop :=
  ∀ r : Run, r.Good → ∃ a r', x setting r = (a, r') ∧ r.Follows r' ∧ ∀ r'', r'.Follows r'' → P a r''

/-- The result of the step is what `f` says of the names of all runs from there on, in which these
variables have their identifiers. -/
def Gives (setting : Setting) (x : Emit α) (vars : List String) (f : Naming → α) : Prop :=
  Yields setting x fun a r => a = f r.naming ∧ ∀ v ∈ vars, r.Settled v

variable {x : Emit α}

theorem Yields.mono {P Q : α → Run → Prop} (h : Yields setting x P)
    (hPQ : ∀ a r, P a r → Q a r) : Yields setting x Q := by
  intro r hr
  obtain ⟨a, r', hx, hf, hP⟩ := h r hr
  exact ⟨a, r', hx, hf, fun r'' h'' => hPQ _ _ (hP r'' h'')⟩

theorem Yields.bind {g : α → Emit β} {P : α → Run → Prop} {Q : α → β → Run → Prop}
    {R : β → Run → Prop} (hx : Yields setting x P) (hg : ∀ a, (∃ r, P a r) → Yields setting (g a) (Q a))
    (hR : ∀ a b r, P a r → Q a b r → R b r) : Yields setting (x >>= g) R := by
  intro r hr
  obtain ⟨a, r₁, hxr, hf₁, hP⟩ := hx r hr
  obtain ⟨b, r₂, hgr, hf₂, hQ⟩ := hg a ⟨_, hP r₁ hf₁.good.follows⟩ r₁ hf₁.good
  refine ⟨b, r₂, ?_, hf₁.trans hf₂, fun r'' h'' => hR a b _ (hP r'' (hf₂.trans h'')) (hQ r'' h'')⟩
  show (match x setting r with | (a, r) => g a setting r) = _
  rw [hxr]
  exact hgr

namespace Gives

variable {vars vars' : List String} {x : Emit α} {f : Naming → α}

theorem congr {g : Naming → α} (h : Gives setting x vars f) (hfg : ∀ ν, f ν = g ν) : Gives setting x vars g :=
  Yields.mono h fun _ _ ha => ⟨ha.1.trans (hfg _), ha.2⟩

theorem mono (h : Gives setting x vars f) (hvars : vars' ⊆ vars) : Gives setting x vars' f :=
  Yields.mono h fun _ _ ha => ⟨ha.1, fun v hv => ha.2 v (hvars hv)⟩

theorem pure (a : α) : Gives setting (Pure.pure a) [] fun _ => a :=
  fun r hr => ⟨a, r, rfl, hr.follows, fun _ _ => ⟨rfl, nofun⟩⟩

variable {g : α → Emit β}

/-- One step after the other, where the second one needs to give something only after a result that
the first one has. -/
theorem bind_image (h : α → Naming → β)
    (hx : Gives setting x vars f) (hg : ∀ ν, Gives setting (g (f ν)) vars' (h (f ν))) :
    Gives setting (x >>= g) (vars ++ vars') fun ν => h (f ν) ν := by
  refine Yields.bind hx (Q := fun a b r => b = h a r.naming ∧ ∀ v ∈ vars', r.Settled v)
    (fun a ha => ?_) fun a b r ha hb => ⟨by rw [hb.1, ha.1], fun v hv => ?_⟩
  · obtain ⟨_, rfl, -⟩ := ha
    exact hg _
  · rcases List.mem_append.mp hv with hv | hv
    · exact ha.2 v hv
    · exact hb.2 v hv

theorem bind {h : α → Naming → β} (hx : Gives setting x vars f) (hg : ∀ a, Gives setting (g a) vars' (h a)) :
    Gives setting (x >>= g) (vars ++ vars') fun ν => h (f ν) ν :=
  bind_image h hx fun _ => hg _

/-- A result that the second step only makes use of. -/
theorem bind_pure (h : α → β) (hx : Gives setting x vars f) (hg : ∀ ν, Gives setting (g (f ν)) [] fun _ => h (f ν)) :
    Gives setting (x >>= g) vars fun ν => h (f ν) :=
  (bind_image (fun a _ => h a) hx hg).mono (List.subset_append_left _ _)

/-- A step after one with a fixed result. -/
theorem bind_const {a : α} {h : Naming → β} (hx : Gives setting x vars fun _ => a) (hg : Gives setting (g a) vars' h) :
    Gives setting (x >>= g) vars' h :=
  (bind_image (fun _ => h) hx fun _ => hg).mono (List.subset_append_right _ _)

end Gives

/-! ### Elementary steps -/

/-- A step that only looks at the run. -/
theorem gives_of_eq {a : α} (h : ∀ r : Run, r.Good → x setting r = (a, r)) : Gives setting x [] fun _ => a :=
  fun r hr => ⟨a, r, h r hr, hr.follows, fun _ _ => ⟨rfl, nofun⟩⟩

theorem gives_failed : Gives setting Emit.failed [] fun _ => false :=
  gives_of_eq fun r hr => by
    show (r.failure.isSome, r) = _
    rw [hr.running]
    rfl

theorem gives_options : Gives setting Emit.options [] fun _ => setting.options :=
  gives_of_eq fun _ _ => rfl

variable {r : Run}

/-- A change to neither names nor helpers that forgets no failure. -/
theorem Run.Orderly.extends_of_eq {r' : Run} (h : r.Orderly) (hn : r'.names = r.names)
    (hh : r'.helpers = r.helpers) (hf : r'.failure = none → r.failure = none) : r.Extends r' := by
  refine ⟨⟨?_, ?_, ?_⟩, ?_, ?_, ?_, hf⟩
  · rw [hn]; exact h.names
  · rw [hn]; exact h.reserved
  · rw [hh]; exact h.helpers
  · rw [hn]
  · rw [hn]; exact List.Subset.refl _
  · unfold Run.helper?
    rw [hh]
    exact fun _ _ => id

theorem Run.Orderly.extends_get (h : r.Orderly) {c : Category} (hc : c.Known) (x : String) :
    r.Extends { r with names := (r.names.get x c).2 } := by
  obtain ⟨hreserved, hvars, hentries⟩ := get_grows h.names hc x
  exact ⟨⟨h.names.get hc x, by rw [hreserved]; exact h.reserved, h.helpers⟩, hvars, hentries, fun _ _ => id, id⟩

theorem Run.Orderly.extends_distinct (h : r.Orderly) (seed : String) (c : Category) :
    r.Extends { r with names := (r.names.distinct seed c).2 } := by
  have hsound := h.names.distinct seed c
  exact ⟨⟨hsound, h.reserved, h.helpers⟩, rfl, List.Subset.refl _, fun _ _ => id, id⟩

/-- A step that changes neither names nor helpers, and does not fail. -/
theorem gives_modify {f : Run → Run}
    (h : ∀ r, (f r).names = r.names ∧ (f r).helpers = r.helpers ∧ (f r).failure = r.failure) :
    Gives setting (modify f) [] fun _ => () := by
  intro r hr
  obtain ⟨hn, hh, hf⟩ := h r
  have hrunning : (f r).failure = none := hf.trans hr.running
  exact ⟨(), f r, rfl, ⟨hr.toOrderly.extends_of_eq hn hh fun _ => hr.running, hrunning⟩, fun _ _ => ⟨rfl, nofun⟩⟩

theorem gives_define (key code : String) : Gives setting (Emit.define key code) [] fun _ => () :=
  gives_modify fun _ => ⟨rfl, rfl, rfl⟩

theorem gives_variableName (x : String) : Gives setting (Emit.variableName x) [x] fun ν => (ν.ofVariable x).text := by
  intro r hr
  have hknown : Category.userVariable.Known := by decide
  obtain ⟨e, he, hc, hl, htext⟩ := exists_entry_get hr.names hknown x
  have hf : r.Follows { r with names := (r.names.get x .userVariable).2 } :=
    ⟨hr.toOrderly.extends_get hknown x, hr.running⟩
  have hentry : ({ r with names := (r.names.get x .userVariable).2 } : Run).IsEntry x e :=
    ⟨he, hc, by unfold Run.variableKey; rw [hf.resolve]; exact hl⟩
  refine ⟨_, _, rfl, hf, fun r'' h'' => ⟨?_, fun v hv => ?_⟩⟩
  · exact ((h''.isEntry hentry).text_ofVariable h''.good |>.trans htext).symm
  · rw [List.mem_singleton.mp hv]
    exact ⟨e, h''.isEntry hentry⟩

theorem helper?_append (r : Run) (key name other : String) (hnew : r.helper? key = none) :
    ({ r with helpers := r.helpers ++ [(key, name)] } : Run).helper? other =
      if other = key then some name else r.helper? other := by
  unfold Run.helper? at *
  rw [List.find?_append]
  by_cases h : other = key
  · subst h
    rw [Option.map_eq_none_iff.mp hnew, if_pos rfl]
    simp
  · rw [if_neg h]
    simp [Ne.symm h]

theorem addHelper_eq (setting : Setting) (key : String) (lines : List String) (r : Run) :
    Emit.addHelper key lines setting r =
      match r.helper? key with
      | some name => (name, r)
      | none => Emit.storeHelper setting key lines r := by
  show Emit.provide (m := Id) setting key (pure lines) r = _
  unfold Emit.provide
  cases r.helper? key <;> rfl

theorem addHelper_cases (setting : Setting) (key : String) (lines : List String) (r : Run) :
    (∃ name, r.helper? key = some name ∧ (∃ k, (k, name) ∈ r.helpers) ∧
      Emit.addHelper key lines setting r = (name, r)) ∨
    (r.helper? key = none ∧ ∃ slot code, Emit.addHelper key lines setting r = ((r.names.distinct key .procedure).1,
        { r with
          names := (r.names.distinct key .procedure).2
          helpers := r.helpers ++ [(key, (r.names.distinct key .procedure).1)]
          definitions := r.definitions.put slot code })) := by
  rw [addHelper_eq]
  cases hkey : r.helper? key with
  | some name =>
    obtain ⟨p, hfind, rfl⟩ := Option.map_eq_some_iff.mp hkey
    exact .inl ⟨p.2, rfl, ⟨p.1, List.mem_of_find?_eq_some hfind⟩, rfl⟩
  | none => exact .inr ⟨rfl, _, _, rfl⟩

theorem Run.Orderly.extends_addHelper (h : r.Orderly) (setting : Setting) (key : String)
    (lines : List String) : r.Extends (Emit.addHelper key lines setting r).2 := by
  rcases addHelper_cases setting key lines r with ⟨name, hkey, -, heq⟩ | ⟨hnew, slot, code, heq⟩
  · rw [heq]
    exact h.extends_self
  · have hdistinct := h.extends_distinct key .procedure
    rw [heq]
    refine ⟨⟨hdistinct.orderly.names, hdistinct.orderly.reserved, ?_⟩, hdistinct.vars, hdistinct.entries, ?_, id⟩
    · intro p hp
      rcases List.mem_append.mp hp with hp | hp
      · exact h.helpers p hp
      · rw [List.mem_singleton.mp hp]
        exact isIdentifier_freeName r.names key .procedure true
    · intro other name hname
      show ({ r with helpers := r.helpers ++ _ } : Run).helper? other = _
      rw [helper?_append r key _ other hnew, if_neg]
      · exact hname
      · rintro rfl
        rw [hnew] at hname
        cases hname

theorem gives_addHelper (key : String) (lines : List String) :
    Gives setting (Emit.addHelper key lines) [] fun ν => (ν.ofHelper key).text := by
  intro r hr
  have hextends := hr.toOrderly.extends_addHelper setting key lines
  rcases addHelper_cases setting key lines r with
    ⟨name, hkey, ⟨k, hmem⟩, heq⟩ | ⟨hnew, slot, code, heq⟩
  · refine ⟨name, r, heq, hr.follows, fun r'' h'' => ⟨?_, nofun⟩⟩
    show name = (r''.naming.ofHelper key).text
    rw [h''.ofHelper hkey, Word.text_ofText (hr.helpers _ hmem)]
  · rw [heq] at hextends
    refine ⟨_, _, heq, ⟨hextends, hr.running⟩, fun r'' h'' => ⟨?_, nofun⟩⟩
    have hkey := helper?_append r key (r.names.freeName key .procedure true) key hnew
    rw [if_pos rfl] at hkey
    show _ = (r''.naming.ofHelper key).text
    rw [h''.ofHelper hkey, Word.text_ofText (isIdentifier_freeName _ _ _ _)]
    rfl

end

/-! ### The start of a run -/

namespace Generator

theorem nameAll_sound (c : Category) (hc : c.Known) (xs : List String) {t : NameTable} (h : t.Sound) :
    (nameAll c xs t).2.Sound ∧ (nameAll c xs t).2.reserved = t.reserved := by
  induction xs generalizing t with
  | nil => exact ⟨h, rfl⟩
  | cons x xs ih =>
    obtain ⟨hsound, hreserved⟩ := ih (h.get hc x)
    exact ⟨hsound, hreserved.trans (get_grows h hc x).1⟩

theorem good_start (g : Generator) (hg : reservedWords ⊆ g.reserved) (w : Workspace) : (g.start w).Good := by
  have hempty := (sound_empty g.reserved).withVars (w.vars.map fun v => (v.id, v.name))
  have hdeveloper := nameAll_sound .developerVariable (by decide) w.developerVariables hempty
  have huser := nameAll_sound .userVariable (by decide) (w.usedVariables.map (·.id)) hdeveloper.1
  have hreserved : (g.start w).names.reserved = g.reserved := huser.2.trans hdeveloper.2
  refine ⟨⟨huser.1, ?_, ?_⟩, rfl⟩
  · rw [hreserved]
    exact hg
  · intro p hp
    cases hp

end Generator

end BlockProgram
