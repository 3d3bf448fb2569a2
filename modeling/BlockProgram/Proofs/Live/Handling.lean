import BlockProgram.Live.Hub
import Mathlib.Data.List.Nodup

/-! # What the hub does about an event

An event first changes the rooms, and may close one outbox; then the hub tells a message to the
members of a room.  For each part there is one equation that says what it does to the members of
every room and to every outbox, so that nothing later has to open the functions of the hub.
-/
namespace BlockProgram.Live

/-! ### One outbox -/

namespace Outbox
variable (o : Outbox) (m : Message)

@[simp] theorem capacity_offer : (o.offer m).capacity = o.capacity := by
  unfold offer
  split
  · rfl
  · split <;> rfl

@[simp] theorem closed_offer : (o.offer m).closed = o.closed := by
  unfold offer
  split
  · rfl
  · split <;> rfl

@[simp] theorem misused_offer : (o.offer m).misused = (o.misused || o.closed) := by
  unfold offer
  split
  · simp_all
  · split <;> simp_all

theorem waiting_offer : (o.offer m).waiting =
    o.waiting ++ if o.closed = false ∧ o.waiting.length < o.capacity then [m] else [] := by
  unfold offer
  split
  · simp_all
  · split <;> simp_all

@[simp] theorem capacity_close : o.close.capacity = o.capacity := by
  unfold close
  split <;> rfl

@[simp] theorem closed_close : o.close.closed = true := by
  unfold close
  split <;> simp_all

@[simp] theorem misused_close : o.close.misused = (o.misused || o.closed) := by
  unfold close
  split <;> simp_all

@[simp] theorem waiting_close : o.close.waiting = o.waiting := by
  unfold close
  split <;> rfl

end Outbox

namespace Hub
variable (h : Hub) (m : Member) (id room : String)

/-! ### The outboxes of a hub -/

@[simp] theorem rooms_changeOutbox (f : Outbox → Outbox) : (h.changeOutbox id f).rooms = h.rooms := by
  unfold changeOutbox
  split <;> rfl

@[simp] theorem members_changeOutbox (f : Outbox → Outbox) : (h.changeOutbox id f).members room = h.members room := by
  simp [members]

@[simp] theorem running_changeOutbox (f : Outbox → Outbox) : (h.changeOutbox id f).running = h.running := by
  unfold changeOutbox
  split <;> rfl

theorem get?_changeOutbox (f : Outbox → Outbox) (x : String) : (h.changeOutbox id f).outboxes.get? x =
      if x = id then (h.outboxes.get? id).map f else h.outboxes.get? x := by
  unfold changeOutbox
  split <;> rename_i ho
  · simp [Shelf.get?_put, ho]
  · by_cases hx : x = id
    · simp [hx, ho]
    · simp [hx]

theorem get?_welcome (capacity : Nat) (x : String) : (h.welcome id capacity).outboxes.get? x =
      if x = id then some ((h.outboxes.get? id).getD { capacity := capacity })
      else h.outboxes.get? x := by
  unfold welcome
  by_cases hx : x = id
  · cases ho : h.outboxes.get? id <;> simp [hx, ho]
  · split <;> simp [Shelf.get?_put, hx]

@[simp] theorem rooms_welcome (capacity : Nat) : (h.welcome id capacity).rooms = h.rooms := by
  unfold welcome
  split <;> rfl

@[simp] theorem members_welcome (capacity : Nat) : (h.welcome id capacity).members room = h.members room := by
  simp [members]

@[simp] theorem running_welcome (capacity : Nat) : (h.welcome id capacity).running = h.running := by
  unfold welcome
  split <;> rfl

@[simp] theorem rooms_offer (message : Message) : (h.offer id message).rooms = h.rooms :=
  h.rooms_changeOutbox id _

@[simp] theorem members_offer (message : Message) : (h.offer id message).members room = h.members room :=
  h.members_changeOutbox id room _

@[simp] theorem running_offer (message : Message) : (h.offer id message).running = h.running :=
  h.running_changeOutbox id _

theorem get?_offer (message : Message) (x : String) : (h.offer id message).outboxes.get? x =
      if x = id then (h.outboxes.get? id).map (·.offer message) else h.outboxes.get? x :=
  h.get?_changeOutbox id _ x

@[simp] theorem rooms_offerAll (ids : List String) (message : Message) : (h.offerAll ids message).rooms = h.rooms := by
  induction ids generalizing h with
  | nil => rfl
  | cons id ids ih => exact (ih (h.offer id message)).trans (h.rooms_offer id message)

/-- Everybody on the list is offered the message once. -/
theorem get?_offerAll {ids : List String} (hids : ids.Nodup) (message : Message) (x : String) :
    (h.offerAll ids message).outboxes.get? x =
      if x ∈ ids then (h.outboxes.get? x).map (·.offer message) else h.outboxes.get? x := by
  induction ids generalizing h with
  | nil => rfl
  | cons id ids ih =>
    obtain ⟨hid, hids⟩ := List.nodup_cons.mp hids
    have hstep := ih (h.offer id message) hids
    rw [get?_offer] at hstep
    refine hstep.trans ?_
    by_cases hx : x = id
    · subst hx
      simp [hid]
    · simp [hx]

@[simp] theorem rooms_broadcast (message : Message) : (h.broadcast message).rooms = h.rooms :=
  h.rooms_offerAll _ message

/-- Writing takes the oldest message out of one outbox. -/
theorem next?_cases : (h.next? id = none ∧ ∀ o ∈ h.outboxes.get? id, o.waiting = []) ∨
      ∃ o message rest, h.outboxes.get? id = some o ∧ o.waiting = message :: rest ∧ h.next? id =
          some (message, { h with outboxes := h.outboxes.put id { o with waiting := rest } }) := by
  cases ho : h.outboxes.get? id with
  | none => exact .inl ⟨by simp [next?, ho], nofun⟩
  | some o =>
    cases hw : o.waiting with
    | nil =>
      refine .inl ⟨by simp [next?, ho, Outbox.next?, hw], ?_⟩
      rintro _ ⟨⟩
      exact hw
    | cons message rest => exact .inr ⟨o, message, rest, rfl, hw, by simp [next?, ho, Outbox.next?, hw]⟩

/-! ### Rooms -/

theorem members_put (ids : List String) (x : String) :
    members { h with rooms := h.rooms.put room ids } x = if x = room then ids else h.members x := by
  unfold members
  rw [Shelf.get?_put]
  split <;> rfl

theorem members_remove (x : String) :
    members { h with rooms := h.rooms.remove room } x = if x = room then [] else h.members x := by
  unfold members
  rw [Shelf.get?_remove]
  split <;> rfl

/-! ### The three events -/

theorem members_handle_register : (h.handle (.register m)).1.members room =
      if room = m.room ∧ m.id ∉ h.members room then h.members room ++ [m.id]
      else h.members room := by
  unfold handle enter
  simp only [members_put]
  by_cases hroom : room = m.room
  · by_cases hid : m.id ∈ h.members m.room <;> simp [hroom, hid]
  · simp [hroom]

theorem message_handle_register : (h.handle (.register m)).2 =
      some (.joined m ((h.handle (.register m)).1.members m.room).length) := by
  unfold handle enter
  simp [members_put]

theorem members_handle_unregister : (h.handle (.unregister m)).1.members room =
      if room = m.room then (h.members room).filter (· ≠ m.id) else h.members room := by
  unfold handle dismiss
  by_cases hid : m.id ∈ h.members m.room
  · simp only [hid, if_true]
    split
    · rename_i hrest
      simp only [members_remove, members_changeOutbox]
      split
      · subst room
        exact (List.isEmpty_iff.mp hrest).symm
      · rfl
    · simp only [members_put, members_changeOutbox]
      split <;> simp_all
  · simp only [hid, if_false]
    split
    · subst room
      refine (List.filter_eq_self.mpr fun x hx => ?_).symm
      exact decide_eq_true fun he => hid (he ▸ hx)
    · rfl

theorem message_handle_unregister : (h.handle (.unregister m)).2 =
      if m.id ∈ h.members m.room ∧ (h.handle (.unregister m)).1.members m.room ≠ [] then
        some (.left m ((h.handle (.unregister m)).1.members m.room).length)
      else none := by
  rw [members_handle_unregister]
  unfold handle dismiss
  by_cases hid : m.id ∈ h.members m.room
  · simp only [hid, if_true, true_and]
    split <;> simp_all
  · simp [hid]

theorem get?_handle_unregister (x : String) : (h.handle (.unregister m)).1.outboxes.get? x =
      if x = m.id ∧ m.id ∈ h.members m.room then (h.outboxes.get? x).map (·.close)
      else h.outboxes.get? x := by
  unfold handle dismiss
  by_cases hid : m.id ∈ h.members m.room
  · simp only [hid, if_true, and_true]
    split <;> · rw [get?_changeOutbox]; split <;> simp_all
  · simp [hid]

/-! ### All of it -/

theorem rooms_step (e : Event) : (h.step e).rooms = (h.handle e).1.rooms := by
  unfold step
  split <;> simp_all

theorem members_step (e : Event) : (h.step e).members room = (h.handle e).1.members room := by
  simp [members, rooms_step]

/-- Besides what the event itself does, every member of the room that the hub talks to is offered
what it says. -/
theorem get?_step {e : Event} (hnodup : ∀ room, ((h.handle e).1.members room).Nodup) (x : String) :
    (h.step e).outboxes.get? x =
      if ∃ message ∈ (h.handle e).2, x ∈ (h.handle e).1.members message.room then
        ((h.handle e).1.outboxes.get? x).bind fun o => (h.handle e).2.map o.offer
      else (h.handle e).1.outboxes.get? x := by
  unfold step
  split <;> rename_i hub message heq
  · rw [heq] at hnodup ⊢
    simp only [broadcast, get?_offerAll hub (hnodup message.room), Option.mem_def, Option.some.injEq,
      exists_eq_left', Option.map_some]
    split
    · cases hub.outboxes.get? x <;> rfl
    · rfl
  · simp [heq]

end Hub

end BlockProgram.Live
