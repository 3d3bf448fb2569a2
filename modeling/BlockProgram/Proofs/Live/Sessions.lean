import BlockProgram.Proofs.Live.Deeds
import BlockProgram.Proofs.Live.Handling
import Mathlib.Data.List.Induction

/-! # Nothing is used after it was closed

Readers, workers and the hub offer messages to the same outboxes, and only the hub closes them; a
reader closes its queue and still shares it with its worker.  Nobody asks whether what it uses is
closed.  That nobody has to rests on the order in which a session ends: its reader closes the queue,
waits for the worker to finish, and only then asks the hub to take the client out.  `Sound` states
this order as an invariant.  Each step keeps it (`sound_step`), and so no run of any number of
sessions uses a closed outbox or queue (`run_uses_nothing_closed`), wherever the hub stops.
-/
namespace BlockProgram.Live

open List

/-! ### Outboxes as far as they are open -/

variable {message : Message}

namespace Hub
variable (h : Hub) (id x : String)

/-- Whether the outbox of a client is closed, and whether it was misused. -/
def marks : Option (Bool × Bool) := (h.outboxes.get? id).map fun o => (o.closed, o.misused)

variable {h id} in
theorem marks_offer (hid : h.marks id = some (false, false)) (message : Message) :
    (h.offer id message).marks x = h.marks x := by
  unfold marks at hid ⊢
  rw [get?_offer]
  split
  · subst x
    obtain ⟨o, ho, hmarks⟩ := Option.map_eq_some_iff.mp hid
    obtain ⟨hclosed, hmisused⟩ := Prod.mk.inj hmarks
    simp [ho, hclosed, hmisused]
  · rfl

theorem marks_welcome (capacity : Nat) : (h.welcome id capacity).marks x =
      if x = id then some ((h.marks id).getD (false, false)) else h.marks x := by
  unfold marks
  rw [get?_welcome]
  split
  · cases h.outboxes.get? id <;> rfl
  · rfl

theorem marks_next? {h' : Hub} (hnext : h.next? id = some (message, h')) :
    h'.marks x = h.marks x ∧ h'.rooms = h.rooms ∧ h'.running = h.running := by
  rcases h.next?_cases id with ⟨hnone, -⟩ | ⟨o, first, rest, ho, -, hsome⟩
  · rw [hnone] at hnext
    cases hnext
  · rw [hsome] at hnext
    obtain ⟨-, rfl⟩ := Prod.mk.inj (Option.some.inj hnext)
    refine ⟨?_, rfl, rfl⟩
    unfold marks
    rw [Shelf.get?_put]
    split
    · subst x
      simp [ho]
    · rfl

theorem marks_handle_unregister (m : Member) : (h.handle (.unregister m)).1.marks x =
      if x = m.id ∧ m.id ∈ h.members m.room then
        (h.marks x).map fun (closed, misused) => (true, misused || closed)
      else h.marks x := by
  unfold marks
  rw [get?_handle_unregister]
  split
  · cases h.outboxes.get? x <;> simp
  · rfl

theorem running_handle (e : Event) : (h.handle e).1.running = h.running := by
  cases e with
  | unregister m =>
    unfold handle dismiss
    simp only
    split
    · split <;> simp
    · rfl
  | _ => rfl

end Hub

/-! ### Sessions that end in order -/

/-- Whether a reader has been let in, and has not gone yet. -/
def Reader.isIn : Reader → Bool
  | .reading | .stopped => true
  | .joining | .turnedAway | .gone => false

/-- What the hub is doing fits the sessions: who is being taken in has not gone, who is being taken
out has, and who is yet to be told something, of whom there is one at least, has an open outbox. -/
def Task.Fits (hub : Hub) (sessions : List Session) : Task → Prop
  | .waiting | .handling (.broadcast _) => True
  | .handling (.register m) => ∃ t ∈ sessions, t.member = m ∧ t.reader.isIn = true
  | .handling (.unregister m) => ∃ t ∈ sessions, t.member = m ∧ t.reader = .gone
  | .telling _ rest => rest ≠ [] ∧ ∀ id ∈ rest, hub.marks id = some (false, false)

variable {hub' : Hub}

theorem Task.Fits.mono {task : Task} {hub : Hub} {sessions sessions' : List Session} (h : task.Fits hub sessions)
    (hopen : ∀ id, hub.marks id = some (false, false) → hub'.marks id = some (false, false))
    (hin : task ≠ .waiting → ∀ m, (∃ t ∈ sessions, t.member = m ∧ t.reader.isIn = true) →
      ∃ t ∈ sessions', t.member = m ∧ t.reader.isIn = true)
    (hgone : ∀ m, (∃ t ∈ sessions, t.member = m ∧ t.reader = .gone) →
      ∃ t ∈ sessions', t.member = m ∧ t.reader = .gone) : task.Fits hub' sessions' := by
  cases task with
  | waiting => trivial
  | telling message rest => exact ⟨h.1, fun id hid => hopen id (h.2 id hid)⟩
  | handling e =>
    cases e with
    | register m => exact hin nofun m h
    | unregister m => exact hgone m h
    | broadcast message => trivial

/-- The sessions of different clients, and the hub between them, use nothing that is closed. -/
structure Sound (hub : Hub) (task : Task) (sessions : List Session) : Prop where
  ids_nodup : (sessions.map (·.member.id)).Nodup
  /-- The outbox of a client is open until its reader has gone, and never misused. -/
  outbox : ∀ t ∈ sessions, hub.marks t.member.id = some (false, false) ∨
    hub.marks t.member.id = some (true, false) ∧ t.reader = .gone
  no_outbox : ∀ id, (∀ t ∈ sessions, t.member.id ≠ id) → hub.marks id = none
  /-- A reader goes only after its worker. -/
  finished : ∀ t ∈ sessions, t.reader = .gone → t.worker = .finished
  /-- A worker is done only when its queue is closed and empty. -/
  drained : ∀ t ∈ sessions, t.worker = .finished → t.queue = [] ∧ t.reader.hasClosed = true
  unspoilt : ∀ t ∈ sessions, t.misused = false
  /-- The hub knows only clients of sessions, each in its own room and with an open outbox. -/
  member : ∀ room, ∀ id ∈ hub.members room,
    hub.marks id = some (false, false) ∧ ∃ t ∈ sessions, t.member = ⟨id, room⟩
  running : task ≠ .waiting → hub.running = true
  fits : task.Fits hub sessions

variable {m : Member}

namespace Sound
variable {hub : Hub} {task : Task} {sessions : List Session} {t : Session}

theorem eq_of_id (hs : Sound hub task sessions) {u : Session} (ht : t ∈ sessions) (hu : u ∈ sessions)
    (hid : t.member.id = u.member.id) : t = u :=
  inj_on_of_nodup_map hs.ids_nodup ht hu hid

theorem open_of_not_gone (hs : Sound hub task sessions) (ht : t ∈ sessions) (hreader : t.reader ≠ .gone) :
    hub.marks t.member.id = some (false, false) :=
  (hs.outbox t ht).resolve_right fun hgone => hreader hgone.2

theorem not_gone_of_worker (hs : Sound hub task sessions) (ht : t ∈ sessions) (hworker : t.worker ≠ .finished) :
    t.reader ≠ .gone :=
  fun hgone => hworker (hs.finished t ht hgone)

theorem exists_outbox (hs : Sound hub task sessions) (ht : t ∈ sessions) :
    ∃ o, hub.outboxes.get? t.member.id = some o ∧ o.misused = false ∧ (o.closed = true → t.reader = .gone) := by
  rcases hs.outbox t ht with hmarks | ⟨hmarks, hgone⟩
  · obtain ⟨o, ho, heq⟩ := Option.map_eq_some_iff.mp hmarks
    obtain ⟨hclosed, hmisused⟩ := Prod.mk.inj heq
    exact ⟨o, ho, hmisused, by simp [hclosed]⟩
  · obtain ⟨o, ho, heq⟩ := Option.map_eq_some_iff.mp hmarks
    exact ⟨o, ho, (Prod.mk.inj heq).2, fun _ => hgone⟩

theorem exists_session (hs : Sound hub task sessions) {id : String} {o : Outbox}
    (ho : hub.outboxes.get? id = some o) : ∃ t ∈ sessions, t.member.id = id := by
  by_contra! hnobody
  have hnone := hs.no_outbox id hnobody
  simp [Hub.marks, ho] at hnone

/-- Only the marks of the outboxes matter, the rooms, and whether the hub is running. -/
theorem of_marks_eq (hs : Sound hub task sessions) (hmarks : ∀ x, hub'.marks x = hub.marks x)
    (hrooms : hub'.rooms = hub.rooms) (hrunning : hub'.running = hub.running) : Sound hub' task sessions where
  ids_nodup := hs.ids_nodup
  outbox := by simpa only [hmarks] using hs.outbox
  no_outbox := by simpa only [hmarks] using hs.no_outbox
  finished := hs.finished
  drained := hs.drained
  unspoilt := hs.unspoilt
  member := by simpa only [hmarks, Hub.members, hrooms] using hs.member
  running := by simpa only [hrunning] using hs.running
  fits := hs.fits.mono (fun x hx => (hmarks x).trans hx) (fun _ _ h => h) (fun _ h => h)

theorem offer (hs : Sound hub task sessions) {id : String} (hid : hub.marks id = some (false, false))
    (message : Message) : Sound (hub.offer id message) task sessions :=
  hs.of_marks_eq (fun x => Hub.marks_offer x hid message) (hub.rooms_offer id message)
    (hub.running_offer id message)

theorem withTask (hs : Sound hub task sessions) {task' : Task} (hrunning : hub.running = true)
    (hfits : task'.Fits hub sessions) : Sound hub task' sessions :=
  { hs with running := fun _ => hrunning, fits := hfits }

theorem wait (hs : Sound hub task sessions) : Sound hub .waiting sessions :=
  { hs with running := fun h => absurd rfl h, fits := trivial }

/-- A session moves on: its reader does not come back, goes only after its worker, which is done
only after its queue, and does not go while the hub takes its client in. -/
theorem replace {σ : Type} {s : System σ} (hs : Sound s.hub s.task s.sessions) (ht : t ∈ s.sessions)
    {new : Session} (hmember : new.member = t.member) (hmisused : new.misused = false)
    (hfinished : new.reader = .gone → new.worker = .finished)
    (hdrained : new.worker = .finished → new.queue = [] ∧ new.reader.hasClosed = true)
    (hgone : t.reader = .gone → new.reader = .gone)
    (hin : t.reader.isIn = true → new.reader.isIn = true ∨ s.task = .waiting) :
    Sound s.hub s.task (s.replace new).sessions := by
  have hall : ∀ {P : Session → Prop}, P new → (∀ u ∈ s.sessions, P u) → ∀ u ∈ (s.replace new).sessions, P u := by
    intro P hnew hold u hu
    obtain ⟨v, hv, rfl⟩ := mem_map.mp hu
    split
    · exact hnew
    · exact hold v hv
  -- every session is still there, and only `t` is another
  have hkept : ∀ {P : Session → Prop}, (P t → P new) →
      (∃ u ∈ s.sessions, P u) → ∃ u ∈ (s.replace new).sessions, P u := by
    rintro P hP ⟨u, hu, hPu⟩
    refine ⟨_, mem_map.mpr ⟨u, hu, rfl⟩, ?_⟩
    split
    · rename_i hid
      rw [hmember] at hid
      exact hP (hs.eq_of_id hu ht hid ▸ hPu)
    · exact hPu
  have hids : (s.replace new).sessions.map (·.member.id) = s.sessions.map (·.member.id) := by
    rw [System.replace, map_map]
    refine map_congr_left fun u _ => ?_
    simp only [Function.comp]
    split <;> simp_all
  exact
    { ids_nodup := hids ▸ hs.ids_nodup
      outbox := hall (hmember ▸ (hs.outbox t ht).imp_right fun h => ⟨h.1, hgone h.2⟩) hs.outbox
      no_outbox := by
        intro id hid
        refine hs.no_outbox id fun u hu heq => ?_
        obtain ⟨v, hv, hvid⟩ := hkept (P := fun v => v.member.id = id) (fun h => hmember ▸ h) ⟨u, hu, heq⟩
        exact hid v hv hvid
      finished := hall hfinished hs.finished
      drained := hall hdrained hs.drained
      unspoilt := hall hmisused hs.unspoilt
      member := by
        intro room id hid
        obtain ⟨hopen, hsession⟩ := hs.member room id hid
        exact ⟨hopen, hkept (fun h => hmember.trans h) hsession⟩
      running := hs.running
      fits := by
        refine hs.fits.mono (fun _ hid => hid) (fun htask m => hkept fun h => ?_) (fun m => hkept fun h => ?_)
        · exact ⟨hmember.trans h.1, (hin h.2).resolve_right htask⟩
        · exact ⟨hmember.trans h.1, hgone h.2⟩ }

/-! ### The hub acts -/

theorem handle_register (hs : Sound hub (.handling (.register m)) sessions) :
    Sound (hub.handle (.register m)).1 .waiting sessions := by
  obtain ⟨t, ht, rfl, hin⟩ := hs.fits
  have hreader : t.reader ≠ .gone := by
    intro hgone
    rw [hgone] at hin
    cases hin
  refine { hs.wait with member := fun room id hid => ?_ }
  rw [Hub.members_handle_register] at hid
  have hid : id ∈ hub.members room ∨ id = t.member.id ∧ room = t.member.room := by
    split at hid
    · rename_i hnew
      rcases mem_append.mp hid with hid | hid
      · exact .inl hid
      · exact .inr ⟨mem_singleton.mp hid, hnew.1⟩
    · exact .inl hid
  rcases hid with hid | ⟨rfl, rfl⟩
  · exact hs.member room id hid
  · exact ⟨hs.open_of_not_gone ht hreader, t, ht, rfl⟩

theorem handle_unregister (hs : Sound hub (.handling (.unregister m)) sessions) :
    Sound (hub.handle (.unregister m)).1 .waiting sessions := by
  obtain ⟨t, ht, rfl, hgone⟩ := hs.fits
  have hmarks := fun x => hub.marks_handle_unregister x t.member
  refine { hs.wait with outbox := ?_, no_outbox := ?_, member := ?_, running := fun h => absurd rfl h }
  · intro u hu
    rw [hmarks]
    split
    · rename_i hid
      obtain rfl : u = t := hs.eq_of_id hu ht hid.1
      rw [(hs.member _ _ hid.2).1]
      exact .inr ⟨rfl, hgone⟩
    · exact hs.outbox u hu
  · intro id hid
    rw [hmarks, hs.no_outbox id hid]
    split <;> rfl
  · intro room id hid
    rw [Hub.members_handle_unregister] at hid
    have hold : id ∈ hub.members room := by
      split at hid
      · exact mem_of_mem_filter hid
      · exact hid
    obtain ⟨hopen, u, hu, hmember⟩ := hs.member room id hold
    refine ⟨?_, u, hu, hmember⟩
    rw [hmarks, if_neg, hopen]
    -- the client that is taken out is in no other room
    rintro ⟨rfl, -⟩
    obtain rfl : u = t := hs.eq_of_id hu ht (by rw [hmember])
    rw [hmember] at hid
    simp at hid

theorem tell (hs : Sound hub task sessions) (hrunning : hub.running = true)
    {ids : List String} (hids : ∀ id ∈ ids, hub.marks id = some (false, false)) :
    Sound hub (.tell message ids) sessions := by
  cases ids with
  | nil => exact hs.wait
  | cons id rest => exact hs.withTask hrunning ⟨nofun, hids⟩

theorem handle {e : Event} (hs : Sound hub (.handling e) sessions) : Sound (hub.handle e).1 .waiting sessions := by
  cases e with
  | register m => exact hs.handle_register
  | unregister m => exact hs.handle_unregister
  | broadcast message => exact hs.wait

end Sound

/-! ### Every step -/

namespace System
variable {σ : Type} {s s' : System σ} {t : Session}

abbrev InOrder (s : System σ) : Prop := Sound s.hub s.task s.sessions

def Keeps (s s' : System σ) : Prop := s'.sessions = s.sessions ∧ Sound s'.hub s'.task s.sessions

theorem sound_connect (hs : s.InOrder) (h : s.connect m = some s') : s'.InOrder := by
  unfold connect at h
  obtain ⟨hnew, ⟨⟩⟩ := Option.ite_none_left_eq_some.mp h
  have hnew : ∀ t ∈ s.sessions, t.member.id ≠ m.id := by
    simpa [session?] using hnew
  -- a client without a session has no outbox yet, so the one it gets is open
  have hmarks : ∀ x, (s.hub.welcome m.id outboxCapacity).marks x =
      if x = m.id then some (false, false) else s.hub.marks x := by
    intro x
    rw [Hub.marks_welcome, hs.no_outbox m.id hnew]
    rfl
  have hold : ∀ {x}, s.hub.marks x = some (false, false) →
      (s.hub.welcome m.id outboxCapacity).marks x = some (false, false) := by
    intro x hx
    rw [hmarks, hx, ite_self]
  have hall : ∀ {P : Session → Prop}, (∀ t ∈ s.sessions, P t) → P { member := m } →
      ∀ t ∈ s.sessions ++ [{ member := m }], P t :=
    fun hold hnew => forall_mem_append.mpr ⟨hold, forall_mem_singleton.mpr hnew⟩
  refine ⟨?_, hall (fun t ht => ?_) (.inl ?_), ?_, hall hs.finished nofun, hall hs.drained nofun, hall hs.unspoilt rfl,
    ?_, ?_, ?_⟩
  · rw [map_append, map_singleton]
    refine hs.ids_nodup.append (nodup_singleton _) ?_
    simpa using fun t ht => hnew t ht
  · rw [hmarks, if_neg (hnew t ht)]
    exact hs.outbox t ht
  · rw [hmarks, if_pos rfl]
  · intro id hid
    have hne : id ≠ m.id := fun he => hid { member := m } (by simp) he.symm
    rw [hmarks, if_neg hne]
    exact hs.no_outbox id fun t ht => hid t (mem_append_left _ ht)
  · intro room id hid
    rw [Hub.members_welcome] at hid
    obtain ⟨hopen, u, hu, hmember⟩ := hs.member room id hid
    exact ⟨hold hopen, u, mem_append_left _ hu, hmember⟩
  · simpa using hs.running
  · have hstays : ∀ {P : Session → Prop}, (∃ t ∈ s.sessions, P t) → ∃ t ∈ s.sessions ++ [{ member := m }], P t := by
      rintro P ⟨t, ht, hP⟩
      exact ⟨t, mem_append_left _ ht, hP⟩
    exact hs.fits.mono (fun _ => hold) (fun _ _ => hstays) (fun _ => hstays)

theorem sound_work (hs : s.InOrder) (ht : t ∈ s.sessions)
    (hworker : t.worker ≠ .finished) {worker : Worker} {queue : List String}
    (hdrained : worker = .finished → queue = [] ∧ t.reader.hasClosed = true) :
    Sound s.hub s.task (s.replace { t with worker := worker, queue := queue }).sessions :=
  have hreader : t.reader ≠ .gone := hs.not_gone_of_worker ht hworker
  hs.replace ht rfl (hs.unspoilt t ht) (fun hgone => absurd hgone hreader) hdrained id (fun hin => .inl hin)

variable {process : Processor σ}

/-- **What a session does keeps the sessions in order.** -/
theorem sound_done (hs : s.InOrder) (ht : t ∈ s.sessions) {d : Deed} (h : d.Done process s t s') : s'.InOrder := by
  have hfresh := hs.unspoilt t ht
  have hdrained := hs.drained t ht
  cases d with
  | joined =>
    obtain ⟨hreader, htask, hrunning, rfl⟩ := h
    rw [hreader] at hdrained
    have hnew : Sound s.hub s.task (s.replace { t with reader := .reading }).sessions :=
      hs.replace ht rfl hfresh nofun (fun h => nomatch (hdrained h).2) (by simp [hreader]) (by simp [Reader.isIn])
    refine hnew.withTask hrunning ⟨{ t with reader := .reading }, ?_, rfl, rfl⟩
    exact mem_map.mpr ⟨t, ht, if_pos rfl⟩
  | turnedAway =>
    obtain ⟨hreader, -, rfl⟩ := h
    exact hs.replace ht rfl hfresh nofun (fun h => ⟨(hdrained h).1, rfl⟩) (by simp [hreader])
      (by simp [hreader, Reader.isIn])
  | hungUp =>
    obtain ⟨hreader, rfl⟩ := h
    exact hs.replace ht rfl hfresh nofun (fun h => ⟨(hdrained h).1, rfl⟩) (by simp [hreader]) (by simp [Reader.isIn])
  | left =>
    obtain ⟨hworker, hreader, htask, hrunning, rfl⟩ := h
    have hnew : Sound s.hub s.task (s.replace { t with reader := .gone }).sessions :=
      hs.replace ht rfl hfresh (fun _ => hworker) (fun h => ⟨(hdrained h).1, rfl⟩) (fun _ => rfl) fun _ => .inr htask
    refine hnew.withTask hrunning ⟨{ t with reader := .gone }, ?_, rfl, rfl⟩
    exact mem_map.mpr ⟨t, ht, if_pos rfl⟩
  | vanished =>
    obtain ⟨hworker, hwhy, rfl⟩ := h
    refine hs.replace ht rfl hfresh (fun _ => hworker) (fun h => ⟨(hdrained h).1, rfl⟩) (fun _ => rfl) fun hin => ?_
    rcases hwhy with ⟨-, hstopped⟩ | hreader
    · -- a hub that has stopped is not taking anybody in
      exact .inr (not_not.mp fun htask => Bool.false_ne_true (hstopped.symm.trans (hs.running htask)))
    · rw [hreader] at hin
      cases hin
  | refused frame problem =>
    obtain ⟨hreader, -, rfl⟩ := h
    have hnew : Sound s.hub s.task (s.replace t).sessions :=
      hs.replace ht rfl hfresh (hs.finished t ht) hdrained id fun hin => .inl hin
    exact hnew.offer (hs.open_of_not_gone ht (by simp [hreader])) _
  | accepted frame data =>
    obtain ⟨hreader, -, rfl⟩ := h
    rw [hreader] at hdrained
    exact hs.replace ht rfl hfresh (hs.finished t ht) (fun h => nomatch (hdrained h).2) id fun hin => .inl hin
  | took data =>
    obtain ⟨hworker, rest, -, rfl⟩ := h
    exact sound_work hs ht (by simp [hworker]) nofun
  | failed data problem =>
    obtain ⟨hworker, -, rfl⟩ := h
    have hbusy : t.worker ≠ .finished := by simp [hworker]
    -- the reader waits for its worker, so the hub has not been asked to close the outbox
    have hopen := hs.open_of_not_gone ht (hs.not_gone_of_worker ht hbusy)
    exact (@sound_work _ _ _ hs ht hbusy .idle t.queue nofun).offer hopen _
  | answered data message | withdrawn message =>
    obtain ⟨hworker, -, rfl⟩ := h
    exact sound_work hs ht (by simp [hworker]) nofun
  | published message =>
    obtain ⟨hworker, rfl⟩ := h
    exact sound_work hs ht (by simp [hworker]) nofun
  | finished =>
    obtain ⟨hworker, hqueue, hclosed, rfl⟩ := h
    exact sound_work hs ht (by simp [hworker]) fun _ => ⟨hqueue, hclosed⟩

theorem sound_collect (hs : s.InOrder) (h : s.collect = some s') : s.Keeps s' := by
  unfold collect at h
  split at h
  case h_2 => cases h
  obtain ⟨hrunning, ⟨⟩⟩ := Option.ite_none_right_eq_some.mp h
  exact ⟨rfl, hs.withTask hrunning trivial⟩

theorem sound_handle (hs : s.InOrder) (h : s.handle = some s') : s.Keeps s' := by
  unfold handle at h
  split at h
  case h_2 => cases h
  rename_i e htask
  cases h
  rw [InOrder, htask] at hs
  have hnew := hs.handle
  have hrunning : (s.hub.handle e).1.running = true := by
    rw [Hub.running_handle]
    exact hs.running nofun
  cases hhub : s.hub.handle e with
  | mk hub message? =>
    rw [hhub] at hnew hrunning
    cases message? with
    | none => exact ⟨rfl, hnew⟩
    | some message => exact ⟨rfl, hnew.tell hrunning fun id hid => (hnew.member _ id hid).1⟩

theorem sound_tell (hs : s.InOrder) {id : String} (h : s.tell id = some s') : s.Keeps s' := by
  unfold tell at h
  split at h
  case h_2 => cases h
  rename_i message rest htask
  obtain ⟨hid, ⟨⟩⟩ := Option.ite_none_right_eq_some.mp h
  have hrunning : s.hub.running = true := hs.running (by simp [htask])
  have hrest : ∀ x ∈ rest, s.hub.marks x = some (false, false) := by
    have hfits := hs.fits
    rw [htask] at hfits
    exact hfits.2
  refine ⟨rfl, (hs.offer (hrest id hid) message).tell ?_ fun x hx => ?_⟩
  · rw [Hub.running_offer]
    exact hrunning
  · rw [Hub.marks_offer x (hrest id hid)]
    exact hrest x (mem_of_mem_erase hx)

theorem sound_write (hs : s.InOrder) {id : String} (h : s.write id = some s') : s.Keeps s' := by
  obtain ⟨⟨message, hub⟩, hnext, rfl⟩ := Option.map_eq_some_iff.mp h
  have hsame := fun x => s.hub.marks_next? id x hnext
  exact ⟨rfl, hs.of_marks_eq (fun x => (hsame x).1) (hsame id).2.1 (hsame id).2.2⟩

theorem sound_stop (hs : s.InOrder) (h : s.stop = some s') : s.Keeps s' := by
  unfold stop at h
  split at h
  case h_2 => cases h
  rename_i htask
  obtain ⟨-, ⟨⟩⟩ := Option.ite_none_right_eq_some.mp h
  exact ⟨rfl, { hs with running := fun hbusy => absurd htask hbusy }⟩

variable {a : Action}

/-- A step of the hub, or one in which a message is written, leaves the sessions as they are. -/
theorem sound_hub (hs : s.InOrder) (ha : a.client? = none)
    (hconnect : ∀ m, a ≠ .connect m) (h : s.step process a = some s') : s.Keeps s' := by
  cases a with
  | join | turnAway | read | hangUp | leave | take | answer | publish | abandon | finish => cases ha
  | connect m => exact absurd rfl (hconnect m)
  | collect => exact sound_collect hs h
  | handle => exact sound_handle hs h
  | tell id => exact sound_tell hs h
  | write id => exact sound_write hs h
  | stop => exact sound_stop hs h

/-- **Each step of a reader, a worker, a writer or the hub keeps the sessions in order.** -/
theorem sound_step (hs : s.InOrder) (h : s.step process a = some s') : s'.InOrder := by
  cases hclient : a.client? with
  | some id =>
    obtain ⟨t, ht, d, -, hdone⟩ := step_done hclient h
    exact sound_done hs (mem_of_find?_eq_some ht) hdone
  | none =>
    by_cases hconnect : ∃ m, a = .connect m
    · obtain ⟨m, rfl⟩ := hconnect
      exact sound_connect hs h
    · obtain ⟨hsame, hnew⟩ := sound_hub hs hclient (fun m hm => hconnect ⟨m, hm⟩) h
      rw [InOrder, hsame]
      exact hnew

theorem sound_perform (process : Processor σ) (hs : s.InOrder) (a : Action) :
    (s.perform process a).InOrder := by
  unfold perform
  cases h : s.step process a with
  | none => exact hs
  | some s' => exact sound_step hs h

/-- The system after a list of actions, when nobody was connected before; actions that are not
possible at their time are left out. -/
def run (process : Processor σ) (world : σ) (actions : List Action) : System σ :=
  actions.foldl (perform process) { world := world }

theorem sound_run (process : Processor σ) (world : σ) (actions : List Action) :
    (run process world actions).InOrder := by
  induction actions using List.reverseRecOn with
  | nil => exact ⟨nodup_nil, nofun, fun _ _ => rfl, nofun, nofun, nofun, nofun, fun h => absurd rfl h, trivial⟩
  | append_singleton actions a ih =>
    rw [run, foldl_append, foldl_cons, foldl_nil, ← run]
    exact sound_perform process ih a

/-- **Nothing is used after it was closed.**  However many clients connect, whatever they send, in
whichever order readers, workers, writers and the hub take their steps, and whenever the hub stops:
no message is offered to a closed outbox and no outbox is closed twice; nothing is put on a queue
after its reader has closed it; and an outbox that is closed belongs to a session whose reader has
gone and whose worker is done. -/
theorem run_uses_nothing_closed (process : Processor σ) (world : σ) (actions : List Action) :
    (∀ id o, (run process world actions).hub.outboxes.get? id = some o → o.misused = false) ∧
    (∀ t ∈ (run process world actions).sessions, t.misused = false) ∧
    (∀ t ∈ (run process world actions).sessions,
      ((run process world actions).hub.outboxes.get? t.member.id).isSome = true) ∧
    ∀ id, (run process world actions).hub.isClosed id = true → ∃ t ∈ (run process world actions).sessions,
        t.member.id = id ∧ t.reader = .gone ∧ t.worker = .finished := by
  have hs := sound_run process world actions
  generalize run process world actions = s at hs
  refine ⟨fun id o ho => ?_, hs.unspoilt, fun t ht => ?_, fun id hclosed => ?_⟩
  · obtain ⟨t, ht, rfl⟩ := hs.exists_session ho
    obtain ⟨o', ho', hmisused, -⟩ := hs.exists_outbox ht
    obtain rfl := Option.some.inj (ho.symm.trans ho')
    exact hmisused
  · obtain ⟨o, ho, -⟩ := hs.exists_outbox ht
    rw [ho]
    rfl
  · cases ho : s.hub.outboxes.get? id with
    | none => simp [Hub.isClosed, ho] at hclosed
    | some o =>
      obtain ⟨t, ht, rfl⟩ := hs.exists_session ho
      obtain ⟨o', ho', -, hgone⟩ := hs.exists_outbox ht
      obtain rfl := Option.some.inj (ho.symm.trans ho')
      have hgone : t.reader = .gone := hgone (by simpa [Hub.isClosed, ho] using hclosed)
      exact ⟨t, ht, rfl, hgone, hs.finished t ht hgone⟩

-- a session from its start to its end, after which its outbox is closed
example : (run (fun world _ => (.failed "", world)) () [.connect ⟨"a", "red"⟩, .join "a", .handle, .tell "a",
    .hangUp "a", .finish "a", .leave "a", .handle]).hub.isClosed "a" = true := by decide

end System

end BlockProgram.Live
