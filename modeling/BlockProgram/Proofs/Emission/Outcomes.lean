import BlockProgram.Proofs.Emission.Handlers

/-! # Results of steps that do not fail

A step that may fail is described by what holds of its result unless it does, and by what makes sure
that it does not (`Leads`).  The result is in a relation with the run, which is to hold from then
on, so that it can be used at any later point.
-/
namespace BlockProgram

variable {setting : Setting} {α β : Type}

/-- The step keeps the run in order, and what was handed out. -/
def Keeps (setting : Setting) (x : Emit α) : Prop := ∀ r : Run, r.Orderly → r.Extends (x setting r).2

theorem Keeps.of_acts (x : Emit α) [hx : Acts setting x] : Keeps setting x :=
  fun _ hr => hx.extends_run hr

theorem Keeps.bind {x : Emit α} {g : α → Emit β} (hx : Keeps setting x)
    (hg : ∀ a, Keeps setting (g a)) : Keeps setting (x >>= g) :=
  fun r hr =>
    have h := hx r hr
    h.trans (hg (x setting r).1 _ h.orderly)

/-- Unless the step fails, its result has the property `P`. -/
def Delivers (setting : Setting) (x : Emit α) (P : α → Prop) : Prop :=
  ∀ r, (x setting r).2.failure = none → P (x setting r).1

namespace Delivers

variable {P Q : α → Prop}

theorem bind {x : Emit β} {g : β → Emit α} (hg : ∀ b, Delivers setting (g b) P) : Delivers setting (x >>= g) P :=
  fun r => hg (x setting r).1 (x setting r).2

theorem pure {a : α} (h : P a) : Delivers setting (Pure.pure a) P := fun _ _ => h

/-- A step that only looks at what stays the same during a run. -/
theorem look {x : Emit β} {g : β → Emit α} {b : β} (hlook : ∀ r, x setting r = (b, r))
    (hg : Delivers setting (g b) P) : Delivers setting (x >>= g) P := by
  intro r hrunning
  rw [bind_apply, hlook] at hrunning ⊢
  exact hg r hrunning

theorem options {g : Options → Emit α} (hg : Delivers setting (g setting.options) P) :
    Delivers setting (Emit.options >>= g) P :=
  look (fun _ => rfl) hg

theorem fail (kind : FailureKind) (block : Option BlockData) (detail : String) {P : Fragment → Prop} :
    Delivers setting (Emit.fail kind block detail) P :=
  fun r hrunning => absurd hrunning (fail_eq setting kind block detail r).1

end Delivers

def Succeeds (setting : Setting) (x : Emit α) : Prop :=
  ∀ r : Run, r.Good → (x setting r).2.failure = none

/-- From the run `r` the step leads to one that extends it. If it is sure to succeed it does not
fail, and unless it fails its result is in the relation `P` with all runs from there on. -/
def LeadsFrom (setting : Setting) (sure : Prop) (r : Run) (x : Emit α) (P : α → Run → Prop) : Prop :=
  ∃ a r', x setting r = (a, r') ∧ r.Extends r' ∧ (sure → r.failure = none → r'.failure = none) ∧
    (r'.failure = none → ∀ r'', r'.Follows r'' → P a r'')

/-- The step leads to `P` from every run in order. -/
def Leads (setting : Setting) (sure : Prop) (x : Emit α) (P : α → Run → Prop) : Prop :=
  ∀ r : Run, r.Orderly → LeadsFrom setting sure r x P

section

variable {sure : Prop} {P Q : α → Run → Prop}

theorem LeadsFrom.mono {r : Run} {x : Emit α} (h : LeadsFrom setting sure r x P)
    (hPQ : ∀ a r, r.Good → P a r → Q a r) : LeadsFrom setting sure r x Q := by
  obtain ⟨a, r', hx, hextends, hsure, hP⟩ := h
  exact ⟨a, r', hx, hextends, hsure, fun hrunning r'' h'' => hPQ a r'' h''.good (hP hrunning r'' h'')⟩

/-- One step after the other, where the second one is looked at only from runs the first one leads
to. -/
theorem LeadsFrom.bind_from {r : Run} {x : Emit α} {g : α → Emit β} {R : α → β → Run → Prop}
    (hx : LeadsFrom setting sure r x P) (hkeeps : ∀ a, Keeps setting (g a))
    (hg : ∀ a r, r.Good → P a r → LeadsFrom setting sure r (g a) (R a)) :
    LeadsFrom setting sure r (x >>= g) fun b r => ∃ a, P a r ∧ R a b r := by
  obtain ⟨a, r₁, hxr, hextends₁, hsure₁, hP⟩ := hx
  have hbind : (x >>= g) setting r = g a setting r₁ := by
    show (match x setting r with | (a, r) => g a setting r) = _
    rw [hxr]
  have hkept := hkeeps a r₁ hextends₁.orderly
  by_cases hrunning : r₁.failure = none
  · have hgood : r₁.Good := ⟨hextends₁.orderly, hrunning⟩
    obtain ⟨b, r₂, hgr, hextends₂, hsure₂, hR⟩ := hg a r₁ hgood (hP hrunning r₁ hgood.follows)
    refine ⟨b, r₂, hbind.trans hgr, hextends₁.trans hextends₂, fun hsure _ => hsure₂ hsure hrunning,
      fun hrunning₂ r'' h'' => ⟨a, ?_, hR hrunning₂ r'' h''⟩⟩
    have hfollows : r₁.Follows r₂ := ⟨hextends₂, hrunning₂⟩
    exact hP hrunning r'' (hfollows.trans h'')
  · -- a run that has failed stays failed
    exact ⟨_, _, hbind, hextends₁.trans hkept, fun hsure h => absurd (hsure₁ hsure h) hrunning,
      fun h => absurd (hkept.running_of h) hrunning⟩

namespace Leads

theorem keeps {x : Emit α} (h : Leads setting sure x P) : Keeps setting x := by
  intro r hr
  obtain ⟨a, r', hx, hextends, -⟩ := h r hr
  rw [hx]
  exact hextends

theorem mono {x : Emit α} (h : Leads setting sure x P) (hPQ : ∀ a r, r.Good → P a r → Q a r) : Leads setting sure x Q :=
  fun r hr => (h r hr).mono hPQ

theorem of_acts (x : Emit α) [hacts : Acts setting x] (h : sure → Succeeds setting x) :
    Leads setting sure x fun _ _ => True :=
  fun r hr => ⟨_, _, rfl, hacts.extends_run hr, fun hsure hrunning => h hsure r ⟨hr, hrunning⟩, fun _ _ _ => trivial⟩

/-- A step that yields something from every run that has not failed. -/
theorem of_yields {x : Emit α} [hacts : Acts setting x] (h : Yields setting x P) : Leads setting sure x P := by
  intro r hr
  by_cases hrunning : r.failure = none
  · obtain ⟨a, r', hx, hfollows, hP⟩ := h r ⟨hr, hrunning⟩
    exact ⟨a, r', hx, hfollows.toExtends, fun _ _ => hfollows.running, fun _ => hP⟩
  · have hextends := hacts.extends_run hr
    exact ⟨_, _, rfl, hextends, fun _ h => absurd h hrunning, fun h => absurd (hextends.running_of h) hrunning⟩

theorem pure (a : α) (h : ∀ r, P a r) : Leads setting sure (Pure.pure a) P :=
  fun r hr => ⟨a, r, rfl, hr.extends_self, fun _ => id, fun _ r'' _ => h r''⟩

/-- Failing leads to all there is, but is never sure to succeed. -/
theorem fail (kind : FailureKind) (block : Option BlockData) (detail : String) (hsure : ¬ sure)
    (P : Fragment → Run → Prop) : Leads setting sure (Emit.fail kind block detail) P := by
  intro r hr
  have hacts : Acts setting (Emit.fail kind block detail) := inferInstance
  exact ⟨_, _, rfl, hacts.extends_run hr, fun h => absurd h hsure,
    fun h => absurd h (fail_eq setting kind block detail r).1⟩

theorem bind {x : Emit α} {g : α → Emit β} {R : α → β → Run → Prop} (hx : Leads setting sure x P)
    (hg : ∀ a, Leads setting sure (g a) (R a)) :
    Leads setting sure (x >>= g) fun b r => ∃ a, P a r ∧ R a b r :=
  fun r hr => (hx r hr).bind_from (fun a => (hg a).keeps) fun a r hr _ => hg a r hr.toOrderly

theorem andThen {x : Emit α} {g : α → Emit β} {R : β → Run → Prop} (hx : Leads setting sure x P)
    (hg : ∀ a, Leads setting sure (g a) R) : Leads setting sure (x >>= g) R :=
  (hx.bind hg).mono fun _ _ _ ⟨_, _, h⟩ => h

end Leads

end

end BlockProgram
