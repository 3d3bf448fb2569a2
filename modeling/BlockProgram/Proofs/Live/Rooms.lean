import BlockProgram.Proofs.Live.Handling
import Mathlib.Data.Set.Card

/-! # Who is in which room

Clients are registered, unregistered and told messages in any order; between the events of the hub,
sessions tell their own clients of problems, and waiting messages are written.  A run is a list of
such moves.  What the hub holds after it can be read off the list: `Attending` says of a client that
it has been registered and not been taken out since.  `Recorded` ties hub and list together, one
move keeps it (`recorded_perform`), and so it holds after every run (`recorded_run`).  If nobody is
registered twice and nobody complains after it was taken out, the hub never uses a closed outbox,
and `run_keeps_rooms` says what follows for rooms, outboxes and notices at every point of the run.
-/
namespace BlockProgram

open List

namespace Shelf
variable {α : Type} {s : Shelf α} {key : String} {value : α}

theorem nodup_remove (h : (s.entries.map Prod.fst).Nodup) : ((s.remove key).entries.map Prod.fst).Nodup :=
  h.sublist ((filter_sublist (l := s.entries)).map Prod.fst)

theorem nodup_put (h : (s.entries.map Prod.fst).Nodup) : ((s.put key value).entries.map Prod.fst).Nodup := by
  refine nodup_cons.mpr ⟨?_, nodup_remove h⟩
  simp [remove]

theorem mem_put {x : String × α} (h : x ∈ (s.put key value).entries) : x = (key, value) ∨ x ∈ s.entries := by
  rcases mem_cons.mp h with h | h
  · exact .inl h
  · exact .inr (mem_of_mem_filter h)

theorem get?_eq_some_iff (h : (s.entries.map Prod.fst).Nodup) : s.get? key = some value ↔ (key, value) ∈ s.entries := by
  obtain ⟨entries⟩ := s
  induction entries with
  | nil => simp [get?]
  | cons x rest ih =>
    obtain ⟨hx, hrest⟩ := nodup_cons.mp h
    have ih := ih hrest
    simp only [get?, List.find?_cons] at ih ⊢
    by_cases hk : x.1 = key
    · have hnot : (key, value) ∉ rest := fun hmem => hx (mem_map.mpr ⟨_, hmem, hk.symm⟩)
      simp [hk, hnot, Prod.ext_iff, eq_comm]
    · have hne : (key, value) ≠ x := fun he => hk (he ▸ rfl)
      simp [hk, hne, ih]

end Shelf

namespace Live

/-! ### Hubs in order -/

/-- A hub in order: it has every room once and none that is empty, no client is twice in a room, and
every member has an outbox. -/
structure Hub.Tidy (h : Hub) : Prop where
  keys_nodup : (h.rooms.entries.map Prod.fst).Nodup
  rooms_ne_nil : ∀ x ∈ h.rooms.entries, x.2 ≠ []
  members_nodup : ∀ room, (h.members room).Nodup
  has_outbox : ∀ room, ∀ id ∈ h.members room, (h.outboxes.get? id).isSome

variable {e : Event} {room : String}

namespace Hub.Tidy
variable {h : Hub} {m : Member}

theorem of_rooms_eq (ht : h.Tidy) {h' : Hub} (hrooms : h'.rooms = h.rooms)
    (hsome : ∀ id, (h.outboxes.get? id).isSome → (h'.outboxes.get? id).isSome) : h'.Tidy := by
  have hmembers : ∀ room, h'.members room = h.members room := fun room => by simp [members, hrooms]
  refine ⟨hrooms ▸ ht.keys_nodup, hrooms ▸ ht.rooms_ne_nil, fun room => ?_, fun room id hid => ?_⟩
  · rw [hmembers]
    exact ht.members_nodup room
  · rw [hmembers] at hid
    exact hsome id (ht.has_outbox room id hid)

theorem welcome (ht : h.Tidy) (id : String) (capacity : Nat) : (h.welcome id capacity).Tidy := by
  refine ht.of_rooms_eq (h.rooms_welcome id capacity) fun x hx => ?_
  rw [get?_welcome]
  split
  · rfl
  · exact hx

theorem handle_register (ht : h.Tidy) (hm : (h.outboxes.get? m.id).isSome) : (h.handle (.register m)).1.Tidy where
  keys_nodup := Shelf.nodup_put ht.keys_nodup
  rooms_ne_nil := by
    intro x hx
    rcases Shelf.mem_put hx with rfl | hx
    · show (if m.id ∈ h.members m.room then h.members m.room else h.members m.room ++ [m.id]) ≠ []
      split
      · exact ne_nil_of_mem ‹_›
      · simp
    · exact ht.rooms_ne_nil x hx
  members_nodup := by
    intro room
    rw [members_handle_register]
    split
    · rename_i hnew
      exact (ht.members_nodup room).append (nodup_singleton _) (by simpa using hnew.2)
    · exact ht.members_nodup room
  has_outbox := by
    intro room id hid
    rw [members_handle_register] at hid
    split at hid
    · rcases mem_append.mp hid with hid | hid
      · exact ht.has_outbox room id hid
      · rw [mem_singleton.mp hid]
        exact hm
    · exact ht.has_outbox room id hid

theorem rooms_handle_unregister : (h.handle (.unregister m)).1.rooms = h.rooms ∨
    (h.handle (.unregister m)).1.rooms = h.rooms.remove m.room ∨
      ∃ ids ≠ [], (h.handle (.unregister m)).1.rooms = h.rooms.put m.room ids := by
  unfold handle dismiss
  grind [rooms_changeOutbox]

theorem handle_unregister (ht : h.Tidy) : (h.handle (.unregister m)).1.Tidy := by
  refine ⟨?_, fun x hx => ?_, fun room => ?_, fun room id hid => ?_⟩
  · obtain hrooms | hrooms | ⟨ids, -, hrooms⟩ := rooms_handle_unregister <;> rw [hrooms]
    · exact ht.keys_nodup
    · exact Shelf.nodup_remove ht.keys_nodup
    · exact Shelf.nodup_put ht.keys_nodup
  · obtain hrooms | hrooms | ⟨ids, hids, hrooms⟩ := rooms_handle_unregister <;> rw [hrooms] at hx
    · exact ht.rooms_ne_nil x hx
    · exact ht.rooms_ne_nil x (mem_of_mem_filter hx)
    · rcases Shelf.mem_put hx with rfl | hx
      · exact hids
      · exact ht.rooms_ne_nil x hx
  · rw [members_handle_unregister]
    split
    · exact (ht.members_nodup room).filter _
    · exact ht.members_nodup room
  · have hold : id ∈ h.members room := by
      rw [members_handle_unregister] at hid
      split at hid
      · exact mem_of_mem_filter hid
      · exact hid
    have hsome := ht.has_outbox room id hold
    rw [get?_handle_unregister]
    split <;> simpa using hsome

theorem step (ht : (h.handle e).1.Tidy) : (h.step e).Tidy := by
  refine ht.of_rooms_eq (h.rooms_step e) fun id hid => ?_
  rw [h.get?_step ht.members_nodup]
  split
  · rename_i htold
    obtain ⟨message, hmessage, -⟩ := htold
    obtain ⟨o, ho⟩ := Option.isSome_iff_exists.mp hid
    simp [ho, Option.mem_def.mp hmessage]
  · exact hid

theorem mem_roomSizes_iff (ht : h.Tidy) {n : Nat} : (room, n) ∈ h.roomSizes ↔ 0 < n ∧ (h.members room).length = n := by
  have hget : ∀ ids, (room, ids) ∈ h.rooms.entries ↔ h.rooms.get? room = some ids :=
    fun ids => (Shelf.get?_eq_some_iff ht.keys_nodup).symm
  constructor
  · intro hmem
    obtain ⟨⟨key, ids⟩, hx, heq⟩ := mem_map.mp hmem
    obtain ⟨rfl, rfl⟩ := Prod.mk.inj heq
    refine ⟨length_pos_of_ne_nil (ht.rooms_ne_nil _ hx), ?_⟩
    simp [members, (hget ids).mp hx]
  · rintro ⟨hpos, hlength⟩
    cases hroom : h.rooms.get? room with
    | none => simp [members, hroom] at hlength; omega
    | some ids =>
      refine mem_map.mpr ⟨(room, ids), (hget ids).mpr hroom, ?_⟩
      simpa [members, hroom] using hlength

end Hub.Tidy

/-! ### Moves -/

/-- The clients: the room each of them belongs to, and how many messages to it may wait. -/
structure Roster where
  room : String → String
  capacity : String → Nat

/-- What happens around a hub: its three events, a problem that a session tells its own client, and
a message that is written to a client. -/
inductive Move where
  | register (id : String)
  | unregister (id : String)
  | broadcast (message : Message)
  | complain (id text : String)
  | write (id : String)

namespace Roster
variable (r : Roster) (h : Hub) (id : String)

def member : Member := ⟨id, r.room id⟩

/-- The hub after a move.  A client has an outbox from the first move on that concerns it. -/
def perform : Move → Hub
  | .register id => (h.welcome id (r.capacity id)).step (.register (r.member id))
  | .unregister id => (h.welcome id (r.capacity id)).step (.unregister (r.member id))
  | .broadcast message => h.step (.broadcast message)
  | .complain id text => (h.welcome id (r.capacity id)).offer id (.problem (r.member id) text)
  | .write id => ((h.next? id).map Prod.snd).getD h

def run (moves : List Move) : Hub := moves.foldl r.perform {}

/-- The outbox of a client; that of a client not heard of yet is empty. -/
def outbox : Outbox := (h.outboxes.get? id).getD { capacity := r.capacity id }

theorem run_append (moves : List Move) (mv : Move) : r.run (moves ++ [mv]) = r.perform (r.run moves) mv := by
  simp [run]

/-- The event that a move is for the hub, if it is one. -/
def event? : Move → Option Event
  | .register id => some (.register (r.member id))
  | .unregister id => some (.unregister (r.member id))
  | .broadcast message => some (.broadcast message)
  | .complain _ _ | .write _ => none

/-- What the hub tells a room because of a move. -/
def told? (mv : Move) : Option Message := (r.event? mv).bind fun e => (h.handle e).2

/-- The outbox of a client when the hub has changed its rooms, and has not told anybody yet. -/
def changed (mv : Move) (x : String) : Outbox :=
  match mv with
  | .unregister id =>
    if x = id ∧ id ∈ h.members (r.room id) then (r.outbox h x).close else r.outbox h x
  | _ => r.outbox h x

@[simp] theorem outbox_welcome (x : String) : r.outbox (h.welcome id (r.capacity id)) x = r.outbox h x := by
  unfold outbox
  rw [Hub.get?_welcome]
  split
  · subst x; rfl
  · rfl

theorem closed_outbox : (r.outbox h id).closed = h.isClosed id := by
  unfold outbox Hub.isClosed
  cases h.outboxes.get? id <;> rfl

/-! ### What each move does -/

theorem members_register (room : String) : (r.perform h (.register id)).members room =
      if room = r.room id ∧ id ∉ h.members room then h.members room ++ [id]
      else h.members room := by
  simp [perform, Hub.members_step, Hub.members_handle_register, member]

theorem mem_members_register {x : String} : x ∈ (r.perform h (.register id)).members room ↔
      x ∈ h.members room ∨ x = id ∧ room = r.room id := by
  rw [members_register]
  split <;> grind

theorem members_unregister (room : String) : (r.perform h (.unregister id)).members room =
      if room = r.room id then (h.members room).filter (· ≠ id) else h.members room := by
  simp [perform, Hub.members_step, Hub.members_handle_unregister, member]

theorem mem_members_unregister {x : String} : x ∈ (r.perform h (.unregister id)).members room ↔
      x ∈ h.members room ∧ ¬ (x = id ∧ room = r.room id) := by
  rw [members_unregister]
  split <;> simp_all

@[simp] theorem members_broadcast (message : Message) (room : String) :
    (r.perform h (.broadcast message)).members room = h.members room := by
  simp [perform, Hub.members_step, Hub.handle]

@[simp] theorem members_complain (text room : String) :
    (r.perform h (.complain id text)).members room = h.members room := by
  simp [perform]

@[simp] theorem members_write (room : String) : (r.perform h (.write id)).members room = h.members room := by
  rcases h.next?_cases id with ⟨hnone, -⟩ | ⟨o, message, rest, -, -, hsome⟩
  · simp [perform, hnone]
  · simp [perform, hsome, Hub.members]

theorem told?_register : r.told? h (.register id) =
      some (.joined (r.member id) ((r.perform h (.register id)).members (r.room id)).length) := by
  simp only [told?, event?, Option.bind_some, Hub.message_handle_register,
    Hub.members_handle_register, members_register]
  rfl

theorem told?_unregister : r.told? h (.unregister id) =
      if id ∈ h.members (r.room id) ∧ (r.perform h (.unregister id)).members (r.room id) ≠ [] then
        some (.left (r.member id) ((r.perform h (.unregister id)).members (r.room id)).length)
      else none := by
  simp only [told?, event?, Option.bind_some, Hub.message_handle_unregister,
    Hub.members_handle_unregister, members_unregister]
  rfl

theorem told?_welcome (mv : Move) : r.told? (h.welcome id (r.capacity id)) mv = r.told? h mv := by
  cases mv with
  | register | unregister => simp [told?_register, told?_unregister, members_register, members_unregister]
  | _ => rfl

variable {h id}

/-- What the hub tells a room is offered to its members, and to nobody else. -/
theorem outbox_step (ht : (h.handle e).1.Tidy) {x : String} {base : Outbox} (hbase : r.outbox (h.handle e).1 x = base) :
    (∃ message, (h.handle e).2 = some message ∧ x ∈ (h.step e).members message.room ∧
        r.outbox (h.step e) x = base.offer message) ∨
      ((∀ message, (h.handle e).2 = some message → x ∉ (h.step e).members message.room) ∧
        r.outbox (h.step e) x = base) := by
  subst hbase
  unfold outbox
  simp only [h.get?_step ht.members_nodup, Hub.members_step]
  split
  · rename_i htold
    obtain ⟨message, hmessage, hx⟩ := htold
    obtain ⟨o, ho⟩ := Option.isSome_iff_exists.mp (ht.has_outbox _ x hx)
    have hmessage : (h.handle e).2 = some message := hmessage
    exact .inl ⟨message, hmessage, hx, by simp [ho, hmessage]⟩
  · rename_i huntold
    exact .inr ⟨fun message hmessage hx => huntold ⟨message, hmessage, hx⟩, rfl⟩

theorem outbox_perform (ht : h.Tidy) {mv : Move} (he : (r.event? mv).isSome) (x : String) :
    (∃ message, r.told? h mv = some message ∧ x ∈ (r.perform h mv).members message.room ∧
        r.outbox (r.perform h mv) x = (r.changed h mv x).offer message) ∨
      ((∀ message, r.told? h mv = some message → x ∉ (r.perform h mv).members message.room) ∧
        r.outbox (r.perform h mv) x = r.changed h mv x) := by
  cases mv with
  | register id =>
    have hsome : ((h.welcome id (r.capacity id)).outboxes.get? (r.member id).id).isSome := by
      simp [Hub.get?_welcome, member]
    rw [← r.told?_welcome h id]
    exact r.outbox_step ((ht.welcome id _).handle_register hsome) (r.outbox_welcome h id x)
  | unregister id =>
    rw [← r.told?_welcome h id]
    refine r.outbox_step (ht.welcome id _).handle_unregister ?_
    unfold outbox
    rw [Hub.get?_handle_unregister, Hub.get?_welcome, Hub.members_welcome]
    simp only [changed, member, outbox]
    by_cases hx : x = id
    · by_cases hid : id ∈ h.members (r.room id) <;> simp [hx, hid]
    · simp [hx]
  | broadcast message => exact r.outbox_step (e := .broadcast message) ht rfl
  | complain | write => cases he

theorem closed_changed (mv : Move) (x : String) : (r.changed h mv x).closed = true ↔
      (r.outbox h x).closed = true ∨ mv = .unregister x ∧ x ∈ h.members (r.room x) := by
  cases mv with
  | unregister id =>
    simp only [changed]
    split <;> grind [Outbox.closed_close]
  | _ => simp [changed]

theorem outbox_complain (text x : String) : r.outbox (r.perform h (.complain id text)) x =
      if x = id then (r.outbox h x).offer (.problem (r.member id) text) else r.outbox h x := by
  unfold outbox perform
  rw [Hub.get?_offer, Hub.get?_welcome, Hub.get?_welcome]
  split <;> simp_all

theorem outbox_write (x : String) : r.outbox (r.perform h (.write id)) x =
      if x = id then { r.outbox h x with waiting := (r.outbox h x).waiting.tail }
      else r.outbox h x := by
  rcases h.next?_cases id with ⟨hnone, hempty⟩ | ⟨o, message, rest, ho, hwaiting, hsome⟩
  · have hsame : r.perform h (.write id) = h := by simp [perform, hnone]
    rw [hsame]
    split
    · subst x
      unfold outbox
      cases ho : h.outboxes.get? id with
      | none => rfl
      | some o =>
        obtain ⟨capacity, waiting, closed, misused⟩ := o
        obtain rfl : waiting = [] := hempty _ ho
        rfl
    · rfl
  · have hwrite : r.perform h (.write id) = { h with outboxes := h.outboxes.put id { o with waiting := rest } } := by
      simp [perform, hsome]
    unfold outbox
    rw [hwrite, Shelf.get?_put]
    split
    · subst x
      simp [ho, hwaiting]
    · rfl

theorem tidy_perform (ht : h.Tidy) (mv : Move) : (r.perform h mv).Tidy := by
  cases mv with
  | register id =>
    exact ((ht.welcome id _).handle_register (by simp [Hub.get?_welcome, member])).step
  | unregister id => exact (ht.welcome id _).handle_unregister.step
  | broadcast message => exact Hub.Tidy.step (e := .broadcast message) ht
  | complain id text =>
    refine (ht.welcome id (r.capacity id)).of_rooms_eq (Hub.rooms_offer ..) fun x hx => ?_
    rw [perform, Hub.get?_offer]
    split
    · simp_all
    · exact hx
  | write id =>
    rcases h.next?_cases id with ⟨hnone, -⟩ | ⟨o, message, rest, ho, -, hsome⟩
    · simpa [perform, hnone] using ht
    · simp only [perform, hsome, Option.map_some, Option.getD_some]
      refine ht.of_rooms_eq rfl fun x hx => ?_
      rw [Shelf.get?_put]
      split
      · rfl
      · exact hx

end Roster

/-! ### What a run says about a client -/

/-- A client has been registered, and unregistered after that. -/
def Removed (moves : List Move) (id : String) : Prop :=
  [Move.register id, Move.unregister id].Sublist moves

/-- A client has been registered, and not been unregistered since. -/
def Attending (moves : List Move) (id : String) : Prop :=
  Move.register id ∈ moves ∧ ¬ Removed moves id

theorem pair_sublist_append {α : Type} {a b c : α} {l : List α} :
    [a, b].Sublist (l ++ [c]) ↔ [a, b].Sublist l ∨ a ∈ l ∧ b = c := by
  constructor
  · intro hsub
    obtain ⟨first, last, heq, hfirst, hlast⟩ := sublist_append_iff.mp hsub
    rcases sublist_singleton.mp hlast with rfl | rfl
    · rw [append_nil] at heq
      exact .inl (heq ▸ hfirst)
    · obtain ⟨rfl, hb⟩ := append_inj' (show [a] ++ [b] = first ++ [c] from heq) rfl
      exact .inr ⟨singleton_sublist.mp hfirst, by simpa using hb⟩
  · rintro (hsub | ⟨ha, rfl⟩)
    · exact hsub.trans (sublist_append_left l [c])
    · exact (singleton_sublist.mpr ha).append (List.Sublist.refl [b])

variable {moves : List Move} {mv : Move} {id : String}

theorem removed_append : Removed (moves ++ [mv]) id ↔
      Removed moves id ∨ .register id ∈ moves ∧ mv = .unregister id := by
  rw [Removed, pair_sublist_append, Removed, eq_comm (a := mv)]

theorem attending_append : Attending (moves ++ [mv]) id ↔ Attending moves id ∧ mv ≠ .unregister id ∨
        mv = .register id ∧ ¬ Removed moves id := by
  unfold Attending
  rw [removed_append, mem_append, mem_singleton, eq_comm (a := Move.register id)]
  grind

/-- Nobody is registered twice, and nobody complains after it was taken out. -/
structure Orderly (moves : List Move) : Prop where
  once : ∀ id, ¬ [Move.register id, .register id].Sublist moves
  quiet : ∀ id text, ¬ [Move.register id, .unregister id, .complain id text].Sublist moves

theorem Orderly.sublist {fewer : List Move} (ho : Orderly moves) (hsub : fewer.Sublist moves) : Orderly fewer where
  once id h := ho.once id (h.trans hsub)
  quiet id text h := ho.quiet id text (h.trans hsub)

namespace Roster
variable {r : Roster} {h : Hub}

/-! ### The hub and the moves it has seen -/

theorem mem_members_perform {x : String} : x ∈ (r.perform h mv).members room ↔
    x ∈ h.members room ∧ ¬ (mv = .unregister x ∧ room = r.room x) ∨ mv = .register x ∧ room = r.room x := by
  cases mv with
  | register id =>
    rw [mem_members_register]
    grind
  | unregister id =>
    rw [mem_members_unregister]
    grind
  | _ => simp

theorem closed_perform (ht : h.Tidy) (x : String) : (r.outbox (r.perform h mv) x).closed = true ↔
      (r.outbox h x).closed = true ∨ mv = .unregister x ∧ x ∈ h.members (r.room x) := by
  by_cases he : (r.event? mv).isSome
  · rw [← closed_changed]
    rcases r.outbox_perform ht he x with ⟨message, -, -, heq⟩ | ⟨-, heq⟩
    · rw [heq, Outbox.closed_offer]
    · rw [heq]
  · cases mv with
    | complain id text =>
      rw [outbox_complain]
      split <;> simp
    | write id =>
      rw [outbox_write]
      split <;> simp
    | _ => exact absurd rfl he

/-- How a hub and the moves it has seen belong together. -/
structure Recorded (r : Roster) (moves : List Move) (h : Hub) : Prop where
  tidy : h.Tidy
  room_eq : ∀ room x, x ∈ h.members room → r.room x = room
  registered : ∀ room x, x ∈ h.members room → .register x ∈ moves
  attends : ∀ x, Attending moves x → x ∈ h.members (r.room x)
  closed_iff : ∀ x, (r.outbox h x).closed = true ↔ Removed moves x

theorem recorded_nil (r : Roster) : r.Recorded [] {} where
  tidy := ⟨nodup_nil, nofun, fun _ => nodup_nil, nofun⟩
  room_eq := nofun
  registered := nofun
  attends x hx := by cases hx.1
  closed_iff x := by simp [outbox, Shelf.get?, Removed]

/-- **One move keeps the record.** -/
theorem recorded_perform (hr : r.Recorded moves h) (mv : Move) : r.Recorded (moves ++ [mv]) (r.perform h mv) where
  tidy := r.tidy_perform hr.tidy mv
  room_eq room x hx := by
    rcases mem_members_perform.mp hx with ⟨hold, -⟩ | ⟨-, hroom⟩
    · exact hr.room_eq room x hold
    · exact hroom.symm
  registered room x hx := by
    rcases mem_members_perform.mp hx with ⟨hold, -⟩ | ⟨rfl, -⟩
    · exact mem_append_left _ (hr.registered room x hold)
    · simp
  attends x hx := by
    refine mem_members_perform.mpr ?_
    rcases attending_append.mp hx with ⟨hold, hmv⟩ | ⟨hmv, -⟩
    · exact .inl ⟨hr.attends x hold, fun hleft => hmv hleft.1⟩
    · exact .inr ⟨hmv, rfl⟩
  closed_iff x := by
    rw [closed_perform hr.tidy, removed_append, hr.closed_iff]
    refine or_congr_right' fun hnot => ?_
    -- a client that has not been taken out is a member exactly if it was registered
    have hmember : x ∈ h.members (r.room x) ↔ .register x ∈ moves :=
      ⟨hr.registered _ x, fun hreg => hr.attends x ⟨hreg, hnot⟩⟩
    rw [hmember, and_comm]

theorem recorded_run (r : Roster) (moves : List Move) : r.Recorded moves (r.run moves) := by
  induction moves using List.reverseRecOn with
  | nil => exact recorded_nil r
  | append_singleton moves mv ih =>
    rw [run_append]
    exact recorded_perform ih mv

/-- A hub that has not used a closed outbox, and will not do so: the outboxes of all members are
open. -/
structure Clean (r : Roster) (h : Hub) : Prop where
  open_of_mem : ∀ room x, x ∈ h.members room → (r.outbox h x).closed = false
  not_misused : ∀ x, (r.outbox h x).misused = false

theorem open_perform (hr : r.Recorded moves h) (hc : r.Clean h) (ho : Orderly (moves ++ [mv]))
    {x : String} (hx : x ∈ (r.perform h mv).members room) : (r.outbox (r.perform h mv) x).closed = false := by
  rw [← Bool.not_eq_true, closed_perform hr.tidy]
  rintro (hclosed | ⟨hmv, hold⟩)
  · rcases mem_members_perform.mp hx with ⟨hold, -⟩ | ⟨hmv, -⟩
    · rw [hc.open_of_mem room x hold] at hclosed
      cases hclosed
    · -- it has been registered before, or it could not have been taken out
      have hremoved : Removed moves x := (hr.closed_iff x).mp hclosed
      have hreg : Move.register x ∈ moves := hremoved.subset mem_cons_self
      exact ho.once x (pair_sublist_append.mpr (.inr ⟨hreg, hmv.symm⟩))
  · rcases mem_members_perform.mp hx with ⟨hold', hstays⟩ | ⟨hreg, -⟩
    · exact hstays ⟨hmv, (hr.room_eq room x hold').symm⟩
    · rw [hmv] at hreg
      cases hreg

theorem misused_changed (hc : r.Clean h) (mv : Move) (x : String) : (r.changed h mv x).misused = false := by
  cases mv with
  | unregister id =>
    simp only [changed]
    split
    · rename_i hid
      rw [Outbox.misused_close, hc.not_misused, hid.1, hc.open_of_mem _ id hid.2]
      rfl
    · exact hc.not_misused x
  | _ => exact hc.not_misused x

theorem clean_perform (hr : r.Recorded moves h) (hc : r.Clean h) (ho : Orderly (moves ++ [mv])) :
    r.Clean (r.perform h mv) := by
  refine ⟨fun room x => open_perform hr hc ho, fun x => ?_⟩
  by_cases he : (r.event? mv).isSome
  · rcases r.outbox_perform hr.tidy he x with ⟨message, -, hx, heq⟩ | ⟨-, heq⟩
    · have hopen := open_perform hr hc ho hx
      rw [heq, Outbox.closed_offer] at hopen
      rw [heq, Outbox.misused_offer, misused_changed hc, hopen]
      rfl
    · rw [heq, misused_changed hc]
  · cases mv with
    | complain id text =>
      rw [outbox_complain]
      split
      · rename_i hx
        have hopen : (r.outbox h x).closed = false := by
          rw [← Bool.not_eq_true, hr.closed_iff, hx]
          intro hremoved
          exact ho.quiet id text (hremoved.append (List.Sublist.refl [Move.complain id text]))
        rw [Outbox.misused_offer, hc.not_misused, hopen]
        rfl
      · exact hc.not_misused x
    | write id =>
      rw [outbox_write]
      split <;> exact hc.not_misused x
    | _ => exact absurd rfl he

theorem clean_run (r : Roster) (ho : Orderly moves) : r.Clean (r.run moves) := by
  induction moves using List.reverseRecOn with
  | nil => exact ⟨nofun, fun _ => rfl⟩
  | append_singleton moves mv ih =>
    rw [run_append]
    exact clean_perform (recorded_run r moves) (ih (ho.sublist (sublist_append_left ..))) ho

/-! ### What follows for rooms, outboxes and notices -/

theorem mem_members_run (ho : Orderly moves) {x : String} :
    x ∈ (r.run moves).members room ↔ r.room x = room ∧ Attending moves x := by
  have hr := recorded_run r moves
  constructor
  · intro hx
    refine ⟨hr.room_eq room x hx, hr.registered room x hx, fun hremoved => ?_⟩
    have hopen := (clean_run r ho).open_of_mem room x hx
    rw [(hr.closed_iff x).mpr hremoved] at hopen
    cases hopen
  · rintro ⟨rfl, hx⟩
    exact hr.attends x hx

noncomputable def attendance (r : Roster) (moves : List Move) (room : String) : Nat :=
  {x | r.room x = room ∧ Attending moves x}.ncard

theorem length_members_run (ho : Orderly moves) (room : String) :
    ((r.run moves).members room).length = r.attendance moves room := by
  have hnodup := (recorded_run r moves).tidy.members_nodup room
  have hset : {x | r.room x = room ∧ Attending moves x} = ((r.run moves).members room).toFinset := by
    ext x
    simp [mem_members_run ho]
  rw [attendance, hset, Set.ncard_coe_finset, toFinset_card_of_nodup hnodup]

/-- What a hub holds after some moves. -/
structure Keeps (r : Roster) (moves : List Move) : Prop where
  /-- A client is in a room exactly if the room is its own and it attends, and it is there once. -/
  mem_members_iff : ∀ room x, x ∈ (r.run moves).members room ↔ r.room x = room ∧ Attending moves x
  members_nodup : ∀ room, ((r.run moves).members room).Nodup
  rooms_ne_nil : ∀ x ∈ (r.run moves).rooms.entries, x.2 ≠ []
  /-- The sizes are those of the rooms that somebody attends, each given once. -/
  mem_roomSizes_iff : ∀ room n, (room, n) ∈ (r.run moves).roomSizes ↔
    0 < n ∧ n = r.attendance moves room
  roomSizes_nodup : ((r.run moves).roomSizes.map Prod.fst).Nodup
  /-- The outboxes that are closed are those of the clients that were taken out. -/
  isClosed_iff : ∀ x, (r.run moves).isClosed x = true ↔ Removed moves x
  /-- No outbox was used after it was closed, be it to send or to close it again. -/
  not_misused : ∀ x o, (r.run moves).outboxes.get? x = some o → o.misused = false

/-- A move makes the hub tell a room a notice: exactly those who attend the room after the move are
offered it.  `before` are the outboxes that it finds. -/
def Tells (r : Roster) (moves : List Move) (mv : Move) (room : String) (notice : Message)
    (before : String → Outbox) : Prop :=
  ∀ x, (r.room x = room ∧ Attending (moves ++ [mv]) x →
      r.outbox (r.run (moves ++ [mv])) x = (before x).offer notice) ∧
    (¬ (r.room x = room ∧ Attending (moves ++ [mv]) x) →
      r.outbox (r.run (moves ++ [mv])) x = before x)

theorem keeps_run (ho : Orderly moves) : r.Keeps moves where
  mem_members_iff _ _ := mem_members_run ho
  members_nodup := (recorded_run r moves).tidy.members_nodup
  rooms_ne_nil := (recorded_run r moves).tidy.rooms_ne_nil
  mem_roomSizes_iff room n := by
    rw [(recorded_run r moves).tidy.mem_roomSizes_iff, length_members_run ho, eq_comm (a := n)]
  roomSizes_nodup := by
    rw [Hub.roomSizes, map_map]
    exact (recorded_run r moves).tidy.keys_nodup
  isClosed_iff x := by
    rw [← r.closed_outbox, (recorded_run r moves).closed_iff]
  not_misused x o hx := by
    have := (clean_run r ho).not_misused x
    rwa [outbox, hx] at this

theorem tells_register (ho : Orderly (moves ++ [.register id])) : r.Tells moves (.register id) (r.room id)
    (.joined (r.member id) (r.attendance (moves ++ [.register id]) (r.room id))) (r.outbox (r.run moves)) := by
  intro x
  have hcases := r.outbox_perform (recorded_run r moves).tidy
    (show (r.event? (.register id)).isSome from rfl) x
  rw [told?_register, ← run_append, length_members_run ho] at hcases
  simp only [Option.some.injEq, exists_eq_left', forall_eq'] at hcases
  rw [← mem_members_run ho]
  rcases hcases with ⟨hx, heq⟩ | ⟨hx, heq⟩
  · exact ⟨fun _ => heq, fun hnot => absurd hx hnot⟩
  · exact ⟨fun hin => absurd hin hx, fun _ => heq⟩

theorem tells_unregister (ho : Orderly (moves ++ [.unregister id])) (hid : Attending moves id) :
    r.Tells moves (.unregister id) (r.room id)
      (.left (r.member id) (r.attendance (moves ++ [.unregister id]) (r.room id)))
      fun x => if x = id then (r.outbox (r.run moves) x).close else r.outbox (r.run moves) x := by
  intro x
  have hmem : id ∈ (r.run moves).members (r.room id) := (recorded_run r moves).attends id hid
  have hbase : r.changed (r.run moves) (.unregister id) x =
      if x = id then (r.outbox (r.run moves) x).close else r.outbox (r.run moves) x := by
    simp [changed, hmem]
  have hcases := r.outbox_perform (recorded_run r moves).tidy
    (show (r.event? (.unregister id)).isSome from rfl) x
  rw [told?_unregister, ← run_append, length_members_run ho, hbase] at hcases
  rw [← mem_members_run ho]
  by_cases hrest : (r.run (moves ++ [.unregister id])).members (r.room id) = []
  · -- nobody is left in the room, and the hub says nothing
    simp only [hrest, ne_eq, not_true_eq_false, and_false, if_false, reduceCtorEq, false_and,
      exists_false, false_or] at hcases
    exact ⟨fun hin => by simp [hrest] at hin, fun _ => hcases.2⟩
  · simp only [hmem, hrest, ne_eq, not_false_eq_true, and_self, if_true, Option.some.injEq,
      exists_eq_left', forall_eq'] at hcases
    rcases hcases with ⟨hx, heq⟩ | ⟨hx, heq⟩
    · exact ⟨fun _ => heq, fun hnot => absurd hx hnot⟩
    · exact ⟨fun hin => absurd hin hx, fun _ => heq⟩

theorem outbox_unregister_of_not_attending (ho : Orderly moves) (hid : ¬ Attending moves id) (x : String) :
    r.outbox (r.run (moves ++ [.unregister id])) x = r.outbox (r.run moves) x := by
  have hmem : id ∉ (r.run moves).members (r.room id) := fun hin => hid ((mem_members_run ho).mp hin).2
  have hcases := r.outbox_perform (recorded_run r moves).tidy
    (show (r.event? (.unregister id)).isSome from rfl) x
  rw [told?_unregister, ← run_append] at hcases
  simp only [hmem, false_and, if_false, reduceCtorEq, exists_false, false_or] at hcases
  simpa [changed, hmem] using hcases.2

/-- **The hub keeps its rooms.**  Along every run in which nobody is registered twice and nobody
complains after it was taken out, the hub holds what the moves say.  A client that is registered is
announced to all who then attend its room, itself included, with their number.  A client that is
unregistered while it attends has its outbox closed, and is announced to those who stay, with their
number.  Unregistering anybody else changes no outbox. -/
theorem run_keeps_rooms (r : Roster) (moves : List Move) (ho : Orderly moves) :
    (∀ before after, moves = before ++ after → r.Keeps before) ∧
    (∀ before id after, moves = before ++ .register id :: after → r.Tells before (.register id) (r.room id)
        (.joined (r.member id) (r.attendance (before ++ [.register id]) (r.room id))) (r.outbox (r.run before))) ∧
    ∀ before id after, moves = before ++ .unregister id :: after → (Attending before id →
        r.Tells before (.unregister id) (r.room id)
          (.left (r.member id) (r.attendance (before ++ [.unregister id]) (r.room id)))
          fun x => if x = id then (r.outbox (r.run before) x).close else r.outbox (r.run before) x) ∧
      (¬ Attending before id → ∀ x, r.outbox (r.run (before ++ [.unregister id])) x = r.outbox (r.run before) x) := by
  have hpart : ∀ before mv after, moves = before ++ mv :: after → Orderly (before ++ [mv]) := by
    rintro before mv after rfl
    exact ho.sublist ((List.Sublist.refl before).append (by simp))
  refine ⟨?_, ?_, ?_⟩
  · rintro before after rfl
    exact keeps_run (ho.sublist (sublist_append_left before after))
  · intro before id after heq
    exact tells_register (hpart before _ after heq)
  · intro before id after heq
    have hbefore : Orderly before :=
      (hpart before _ after heq).sublist (sublist_append_left before _)
    exact ⟨tells_unregister (hpart before _ after heq), outbox_unregister_of_not_attending hbefore⟩

/-- Two rooms, with space for two messages to `a` and for one to everybody else. -/
def redAndBlue : Roster :=
  ⟨fun id => if id = "c" then "blue" else "red", fun id => if id = "a" then 2 else 1⟩

/-- Everybody leaves but `b`: `a` before it has come and twice afterwards, and `c` as the last of
its room. -/
def comingAndGoing : List Move :=
  [.unregister "a", .register "a", .register "b", .register "c", .write "a", .unregister "a",
    .unregister "a", .complain "b" "no space", .unregister "c"]

theorem run_keeps_rooms_comingAndGoing : Orderly comingAndGoing ∧ redAndBlue.Keeps comingAndGoing ∧
      redAndBlue.Tells (comingAndGoing.take 5) (.unregister "a") "red" (.left ⟨"a", "red"⟩ 1)
        (fun x => if x = "a" then (redAndBlue.outbox (redAndBlue.run (comingAndGoing.take 5)) x).close
          else redAndBlue.outbox (redAndBlue.run (comingAndGoing.take 5)) x) ∧
      ∀ x, redAndBlue.outbox (redAndBlue.run (comingAndGoing.take 7)) x =
        redAndBlue.outbox (redAndBlue.run (comingAndGoing.take 6)) x := by
  have ho : Orderly comingAndGoing := by
    constructor
    · intro id
      simp +contextual [comingAndGoing, cons_sublist_cons']
    · intro id text
      simp +contextual [comingAndGoing, cons_sublist_cons']
  obtain ⟨hkeeps, -, hleave⟩ := run_keeps_rooms redAndBlue comingAndGoing ho
  have hpresent : Attending (comingAndGoing.take 5) "a" := by
    simp [comingAndGoing, Attending, Removed, cons_sublist_cons']
  have habsent : ¬ Attending (comingAndGoing.take 6) "a" := by
    simp [comingAndGoing, Attending, Removed, cons_sublist_cons']
  have hone : redAndBlue.attendance (comingAndGoing.take 6) "red" = 1 := by
    rw [← length_members_run (ho.sublist (take_sublist 6 _))]
    decide
  have htold := (hleave (comingAndGoing.take 5) "a" (comingAndGoing.drop 6) rfl).1 hpresent
  refine ⟨ho, hkeeps _ [] (append_nil _).symm, ?_, ?_⟩
  · rw [← hone]
    exact htold
  · exact (hleave (comingAndGoing.take 6) "a" (comingAndGoing.drop 7) rfl).2 habsent

end Roster

end Live

end BlockProgram
