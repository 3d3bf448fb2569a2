import BlockProgram.Proofs.Live.Sessions

/-! # Every frame is answered once, and in order

What a client sends is either refused at once or waits for the worker of its session, which answers
one request after the other.  A session keeps account of its requests: those that wait
(`Session.backlog`) and the message that it is publishing (`Session.announcing`).  Every deed keeps
the account (`account_done`), and so does a run (`account_run`).

Nothing gets stuck: the worker can always go on, or waits for the hub to take a message, which can
(`leads_room`).  So every run goes on to a point at which all that was accepted has been answered
(`leads_drained`).
-/
namespace BlockProgram.Live

open List Session

namespace Deed

def frame? : Deed → Option String
  | refused frame _ | accepted frame _ => some frame
  | _ => none

@[simp] def accepted? : Deed → Option String
  | accepted _ data => some data
  | _ => none

@[simp] def handled? : Deed → Option String
  | failed data _ | answered data _ => some data
  | _ => none

@[simp] def announced? : Deed → Option Message
  | answered _ message => some message
  | _ => none

@[simp] def settled? : Deed → Option Message
  | published message | withdrawn message => some message
  | _ => none

end Deed

/-- The step is one of the worker of a client, or of the hub. -/
def Action.Drives (id : String) : Action → Prop
  | .take x | .answer x | .publish x | .abandon x | .finish x => x = id
  | .collect | .handle | .tell _ => True
  | _ => False

/-- The requests that were accepted and have not been answered, oldest first. -/
def Session.backlog (t : Session) : List String :=
  (match t.worker with
    | .busy data => [data]
    | _ => []) ++ t.queue

variable {σ : Type}

namespace System
variable {process : Processor σ} {s s' : System σ} {t : Session} {a : Action} {id : String}

/-! ### One step -/

theorem session?_congr (h : s'.sessions = s.sessions) (x : String) : s'.session? x = s.session? x := by
  rw [session?, h, session?]

theorem session?_replace (s : System σ) (new : Session) (x : String) :
    (s.replace new).session? x = if x = new.member.id then (s.session? x).map fun _ => new else s.session? x := by
  unfold session? replace
  induction s.sessions with
  | nil => simp
  | cons u rest ih =>
    simp only [map_cons, List.find?_cons, ih]
    by_cases hu : u.member.id = new.member.id <;> by_cases hx : x = new.member.id <;> simp_all [eq_comm]

theorem id_of_session? (h : s.session? id = some t) : t.member.id = id := by
  simpa using List.find?_some h

/-- The session after a step that replaces it. -/
theorem session?_replaced (new : Session) (ht : s.session? id = some t) (hmember : new.member = t.member)
    (hsessions : s'.sessions = (s.replace new).sessions) : s'.session? id = some new := by
  rw [session?_congr hsessions, session?_replace, hmember, id_of_session? ht, if_pos rfl, ht]
  rfl

/-- **Every deed keeps the account of its session.** -/
theorem account_done {d : Deed} (h : d.Done process s t s') :
    ∃ t' : Session, s'.sessions = (s.replace t').sessions ∧ t'.member = t.member ∧
      t.backlog ++ d.accepted?.toList = d.handled?.toList ++ t'.backlog ∧
      t.announcing ++ d.announced?.toList = d.settled?.toList ++ t'.announcing := by
  have hnil := append_nil t.backlog
  have hnone := append_nil t.announcing
  cases d with
  | joined =>
    obtain ⟨-, -, -, rfl⟩ := h
    exact ⟨_, rfl, rfl, hnil, hnone⟩
  | hungUp =>
    obtain ⟨-, rfl⟩ := h
    exact ⟨_, rfl, rfl, hnil, hnone⟩
  | left =>
    obtain ⟨-, -, -, -, rfl⟩ := h
    exact ⟨_, rfl, rfl, hnil, hnone⟩
  | turnedAway | vanished | refused frame problem =>
    obtain ⟨-, -, rfl⟩ := h
    exact ⟨_, rfl, rfl, hnil, hnone⟩
  | accepted frame data =>
    obtain ⟨-, -, rfl⟩ := h
    exact ⟨_, rfl, rfl, append_assoc .., hnone⟩
  | took data =>
    obtain ⟨hworker, rest, hqueue, rfl⟩ := h
    exact ⟨_, rfl, rfl, by simp [backlog, hworker, hqueue], by simp [announcing, hworker]⟩
  | failed data _ | answered data _ | withdrawn _ =>
    obtain ⟨hworker, -, rfl⟩ := h
    exact ⟨_, rfl, rfl, by simp [backlog, hworker], by simp [announcing, hworker]⟩
  | published message =>
    obtain ⟨hworker, rfl⟩ := h
    exact ⟨_, rfl, rfl, by simp [backlog, hworker], by simp [announcing, hworker]⟩
  | finished =>
    obtain ⟨hworker, -, -, rfl⟩ := h
    exact ⟨_, rfl, rfl, by simp [backlog, hworker], by simp [announcing, hworker]⟩

/-- The session of a client after a step that is not its own: it is as before, or it is new. -/
theorem session?_step (hs : s.InOrder) (h : s.step process a = some s')
    (ha : a.client? ≠ some id) : s'.session? id = s.session? id ∨
      s.session? id = none ∧ ∃ m, s'.session? id = some { member := m } := by
  cases hclient : a.client? with
  | some x =>
    obtain ⟨t, ht, d, -, hdone⟩ := step_done hclient h
    obtain ⟨t', hsessions, hmember, -⟩ := account_done hdone
    have hne : id ≠ t'.member.id := by
      rw [hmember, id_of_session? ht]
      exact fun hx => ha (hx ▸ hclient)
    left
    rw [session?_congr hsessions, session?_replace, if_neg hne]
  | none =>
    by_cases hconnect : ∃ m, a = .connect m
    · obtain ⟨m, rfl⟩ := hconnect
      have h : s.connect m = some s' := h
      unfold connect at h
      split at h
      · cases h
      rw [← Option.some.inj h]
      unfold session?
      rw [List.find?_append]
      cases s.sessions.find? (·.member.id = id) with
      | some t => exact .inl rfl
      | none =>
        by_cases hm : m.id = id
        · exact .inr ⟨rfl, m, by simp [hm]⟩
        · exact .inl (by simp [hm])
    · exact .inl (session?_congr (sound_hub hs hclient (fun m hm => hconnect ⟨m, hm⟩) h).1 id)

/-! ### Runs -/

def deed? (process : Processor σ) (id : String) (s : System σ) (a : Action) : Option Deed :=
  if a.client? = some id ∧ (s.step process a).isSome then (s.session? id).bind (·.deed? process s a) else none

def deeds (process : Processor σ) (id : String) : System σ → List Action → List Deed
  | _, [] => []
  | s, a :: rest => (s.deed? process id a).toList ++ deeds process id (s.perform process a) rest

def backlog (id : String) (s : System σ) : List String := ((s.session? id).map Session.backlog).getD []

def announcing (id : String) (s : System σ) : List Message := ((s.session? id).map Session.announcing).getD []

theorem deed?_of_step (ha : a.client? = some id) (h : s.step process a = some s') :
    ∃ t d, s.session? id = some t ∧ t.deed? process s a = some d ∧ s.deed? process id a = some d ∧
      d.Done process s t s' := by
  obtain ⟨t, ht, d, hd, hdone⟩ := step_done ha h
  refine ⟨t, d, ht, hd, ?_, hdone⟩
  rw [deed?, if_pos ⟨ha, by rw [h]; rfl⟩, ht]
  exact hd

/-- **One step keeps the account of every client.** -/
theorem account_perform (process : Processor σ) (hs : s.InOrder) (id : String) (a : Action) :
    s.backlog id ++ ((s.deed? process id a).bind Deed.accepted?).toList =
      ((s.deed? process id a).bind Deed.handled?).toList ++ (s.perform process a).backlog id ∧
    s.announcing id ++ ((s.deed? process id a).bind Deed.announced?).toList =
      ((s.deed? process id a).bind Deed.settled?).toList ++ (s.perform process a).announcing id := by
  by_cases hown : a.client? = some id ∧ (s.step process a).isSome
  · obtain ⟨s', h⟩ := Option.isSome_iff_exists.mp hown.2
    obtain ⟨t, d, ht, -, hdeed, hdone⟩ := deed?_of_step hown.1 h
    obtain ⟨t', hsessions, hmember, haccount⟩ := account_done hdone
    have ht' := session?_replaced t' ht hmember hsessions
    have hperform : s.perform process a = s' := by
      rw [perform, h]
      rfl
    rw [hdeed, hperform, backlog, backlog, announcing, announcing, ht, ht']
    exact haccount
  · have hsame : (s.perform process a).session? id = s.session? id ∨
        s.session? id = none ∧ ∃ m, (s.perform process a).session? id = some { member := m } := by
      unfold perform
      cases h : s.step process a with
      | none => exact .inl rfl
      | some s' => exact session?_step hs h fun ha => hown ⟨ha, by rw [h]; rfl⟩
    rw [deed?, if_neg hown, backlog, backlog, announcing, announcing]
    rcases hsame with heq | ⟨hnone, m, hnew⟩
    · rw [heq]
      exact ⟨append_nil _, append_nil _⟩
    · rw [hnone, hnew]
      exact ⟨rfl, rfl⟩

/-- **A run keeps the account of every client.** -/
theorem account_run (process : Processor σ) (hs : s.InOrder) (id : String) (actions : List Action) :
    s.backlog id ++ (s.deeds process id actions).filterMap Deed.accepted? =
      (s.deeds process id actions).filterMap Deed.handled? ++ (actions.foldl (perform process) s).backlog id ∧
    s.announcing id ++ (s.deeds process id actions).filterMap Deed.announced? =
      (s.deeds process id actions).filterMap Deed.settled? ++ (actions.foldl (perform process) s).announcing id := by
  have hone : ∀ {α : Type} (f : Deed → Option α) (d : Option Deed), d.toList.filterMap f = (d.bind f).toList := by
    intro α f d
    cases d with
    | none => rfl
    | some d => simp only [Option.toList_some, filterMap_cons, Option.bind_some]; cases f d <;> rfl
  induction actions generalizing s with
  | nil => exact ⟨by simp [deeds], by simp [deeds]⟩
  | cons a rest ih =>
    obtain ⟨hbacklog, hannouncing⟩ := account_perform process hs id a
    obtain ⟨ihbacklog, ihannouncing⟩ := ih (sound_perform process hs a)
    simp only [deeds, filterMap_append, hone, foldl_cons]
    refine ⟨?_, ?_⟩
    · rw [← append_assoc, hbacklog, append_assoc, ihbacklog, append_assoc]
    · rw [← append_assoc, hannouncing, append_assoc, ihannouncing, append_assoc]

theorem deeds_append (process : Processor σ) (id : String) (s : System σ) (actions more : List Action) :
    s.deeds process id (actions ++ more) =
      s.deeds process id actions ++ (actions.foldl (perform process) s).deeds process id more := by
  induction actions generalizing s with
  | nil => rfl
  | cons a rest ih => simp only [cons_append, deeds, ih, foldl_cons, append_assoc]

/-- A worker that is done has left nothing behind. -/
theorem quiet_of_finished (hs : s.InOrder) (ht : s.session? id = some t) (hworker : t.worker = .finished) :
    s.backlog id = [] ∧ s.announcing id = [] := by
  have hqueue := (hs.drained t (mem_of_find?_eq_some ht) hworker).1
  simp [backlog, announcing, ht, Session.backlog, Session.announcing, hworker, hqueue]

/-! ### Going on -/

/-- Steps of the worker of a client and of the hub lead from one system to the other. -/
def Leads (process : Processor σ) (id : String) (s s' : System σ) : Prop :=
  ∃ more : List Action, (∀ a ∈ more, a.Drives id) ∧ more.foldl (perform process) s = s'

theorem Leads.refl (s : System σ) : Leads process id s s := ⟨[], nofun, rfl⟩

theorem Leads.trans {s'' : System σ} (h : Leads process id s s') (h' : Leads process id s' s'') :
    Leads process id s s'' := by
  obtain ⟨more, hmore, rfl⟩ := h
  obtain ⟨more', hmore', rfl⟩ := h'
  refine ⟨more ++ more', fun a ha => ?_, foldl_append⟩
  exact (mem_append.mp ha).elim (hmore a) (hmore' a)

theorem Leads.step (h : s.step process a = some s') (ha : a.Drives id) : Leads process id s s' := by
  refine ⟨[a], by simpa using ha, ?_⟩
  rw [foldl_cons, foldl_nil, perform, h]
  rfl

theorem Leads.sound (h : Leads process id s s') (hs : s.InOrder) : s'.InOrder := by
  obtain ⟨more, -, rfl⟩ := h
  induction more generalizing s with
  | nil => exact hs
  | cons a rest ih => exact ih (sound_perform process hs a)

theorem leads_told (process : Processor σ) (id : String) (message : Message) (ids : List String)
    (htask : s.task = .tell message ids) :
    ∃ s', Leads process id s s' ∧ s'.task = .waiting ∧ s'.sessions = s.sessions ∧ s'.pending = s.pending ∧
      s'.hub.running = s.hub.running := by
  induction ids generalizing s with
  | nil => exact ⟨s, .refl s, htask, rfl, rfl, rfl⟩
  | cons x rest ih =>
    have htold : s.step process (.tell x) =
        some { s with hub := s.hub.offer x message, task := .tell message rest } := by
      show s.tell x = _
      simp [tell, htask, Task.tell]
    obtain ⟨s', hleads, hwaits, hsessions, hpending, hrunning⟩ :=
      @ih { s with hub := s.hub.offer x message, task := .tell message rest } rfl
    exact ⟨s', (Leads.step htold trivial).trans hleads, hwaits, hsessions, hpending,
      hrunning.trans (s.hub.running_offer x message)⟩

theorem leads_waiting (process : Processor σ) (id : String) (hs : s.InOrder) :
    ∃ s', Leads process id s s' ∧ s'.task = .waiting ∧ s'.sessions = s.sessions ∧ s'.pending = s.pending ∧
      s'.hub.running = s.hub.running := by
  cases h : s.task with
  | waiting => exact ⟨s, .refl s, h, rfl, rfl, rfl⟩
  | telling message ids =>
    cases ids with
    | nil =>
      have hfits := hs.fits
      rw [h] at hfits
      exact absurd rfl hfits.1
    | cons x rest => exact leads_told process id message (x :: rest) h
  | handling e =>
    have hhandled : s.step process .handle = s.handle := rfl
    unfold handle at hhandled
    simp only [h] at hhandled
    have hrunning := s.hub.running_handle e
    cases hhub : s.hub.handle e with
    | mk hub message? =>
      rw [hhub] at hhandled hrunning
      cases message? with
      | none => exact ⟨_, .step hhandled trivial, rfl, rfl, rfl, hrunning⟩
      | some message =>
        obtain ⟨s', hleads, hwaits, hsessions, hpending, hrun⟩ :=
          @leads_told _ { s with hub, task := .tell message (hub.members message.room) } process id _ _ rfl
        exact ⟨s', (Leads.step hhandled trivial).trans hleads, hwaits, hsessions, hpending, hrun.trans hrunning⟩

/-- The hub makes room for another message, unless it has stopped. -/
theorem leads_room (process : Processor σ) (id : String) (hs : s.InOrder) :
    ∃ s', Leads process id s s' ∧ s'.sessions = s.sessions ∧
      (s'.hub.running = false ∨ s'.pending.length < pendingCapacity) := by
  cases hrunning : s.hub.running with
  | false => exact ⟨s, .refl s, rfl, .inl hrunning⟩
  | true =>
    induction hpending : s.pending generalizing s with
    | nil => exact ⟨s, .refl s, rfl, .inr (by rw [hpending]; decide)⟩
    | cons message rest ih =>
      obtain ⟨s₁, hleads, hwaits, hsessions, hkept, hrun⟩ := leads_waiting process id hs
      rw [hpending] at hkept
      rw [hrunning] at hrun
      have hcollect : s₁.step process .collect =
          some { s₁ with task := .handling (.broadcast message), pending := rest } := by
        show s₁.collect = _
        simp [collect, hwaits, hkept, hrun]
      have hleads' := hleads.trans (.step hcollect trivial)
      obtain ⟨s', hon, hsame, hroom⟩ := ih (hleads'.sound hs) hrun rfl
      exact ⟨s', hleads'.trans hon, hsame.trans hsessions, hroom⟩

theorem leads_published (process : Processor σ) {message : Message} (hs : s.InOrder) (ht : s.session? id = some t)
    (hworker : t.worker = .publishing message) :
    ∃ s', Leads process id s s' ∧ s'.session? id = some { t with worker := .idle } := by
  obtain ⟨s₁, hleads, hsessions, hroom⟩ := leads_room process id hs
  have ht₁ : s₁.session? id = some t := (session?_congr hsessions id).trans ht
  rcases hroom with hstopped | hroom
  · have habandon : s₁.step process (.abandon id) = some (s₁.replace { t with worker := .idle }) := by
      show (s₁.session? id).bind s₁.abandon = _
      simp [ht₁, abandon, hworker, hstopped]
    exact ⟨_, hleads.trans (.step habandon rfl), session?_replaced _ ht₁ rfl rfl⟩
  · have hpublish : s₁.step process (.publish id) =
        some { s₁.replace { t with worker := .idle } with pending := s₁.pending ++ [message] } := by
      show (s₁.session? id).bind s₁.publish = _
      simp [ht₁, publish, hworker, hroom]
    exact ⟨_, hleads.trans (.step hpublish rfl), session?_replaced _ ht₁ rfl rfl⟩

theorem leads_answered (process : Processor σ) {data : String} (hs : s.InOrder) (ht : s.session? id = some t)
    (hworker : t.worker = .busy data) :
    ∃ s', Leads process id s s' ∧ s'.session? id = some { t with worker := .idle } := by
  have hanswer : ∃ s', s.answer process t = some s' := by
    unfold answer
    simp only [hworker]
    exact ⟨_, rfl⟩
  obtain ⟨s₁, h⟩ := hanswer
  have hstep : s.step process (.answer id) = some s₁ := by
    show (s.session? id).bind (s.answer process) = _
    rw [ht]
    exact h
  have hleads : Leads process id s s₁ := .step hstep rfl
  unfold answer at h
  simp only [hworker] at h
  cases h
  cases houtcome : (process s.world data).1 with
  | payload p =>
    rw [houtcome] at hleads
    obtain ⟨s', hon, ht'⟩ :=
      leads_published process (hleads.sound hs)
        (session?_replaced { t with worker := .publishing (.generated t.member p) } ht rfl rfl) rfl
    exact ⟨s', hleads.trans hon, ht'⟩
  | failed text | collapsed text =>
    rw [houtcome] at hleads
    exact ⟨_, hleads, session?_replaced _ ht rfl rfl⟩

theorem leads_emptied (process : Processor σ) (hs : s.InOrder) (ht : s.session? id = some t) (hworker : t.worker = .idle) :
    ∃ s', Leads process id s s' ∧ s'.session? id = some { t with queue := [] } := by
  induction hqueue : t.queue generalizing s t with
  | nil =>
    refine ⟨s, .refl s, ?_⟩
    rw [ht, ← hqueue]
  | cons data rest ih =>
    have htake : s.step process (.take id) = some (s.replace { t with worker := .busy data, queue := rest }) := by
      show (s.session? id).bind s.take = _
      simp [ht, take, hworker, hqueue]
    have hleads : Leads process id s _ := .step htake rfl
    obtain ⟨s₁, hanswered, ht₁⟩ :=
      leads_answered process (hleads.sound hs)
        (session?_replaced { t with worker := .busy data, queue := rest } ht rfl rfl) rfl
    have hleads := hleads.trans hanswered
    obtain ⟨s', hon, ht'⟩ := ih (hleads.sound hs) ht₁ rfl rfl
    refine ⟨s', hleads.trans hon, ?_⟩
    rw [ht', ← hworker]

/-- **From every point of a run the worker gets to the end of its queue**, and is done then if no
request will come. -/
theorem leads_drained (process : Processor σ) (hs : s.InOrder) (id : String) :
    ∃ s', Leads process id s s' ∧ s'.backlog id = [] ∧ s'.announcing id = [] ∧ ∀ t, s.session? id = some t →
      t.reader.hasClosed = true → ∃ t', s'.session? id = some t' ∧ t'.worker = .finished := by
  cases ht : s.session? id with
  | none => exact ⟨s, .refl s, by simp [backlog, ht], by simp [announcing, ht], nofun⟩
  | some t =>
    by_cases hfinished : t.worker = .finished
    · obtain ⟨hbacklog, hannouncing⟩ := quiet_of_finished hs ht hfinished
      refine ⟨s, .refl s, hbacklog, hannouncing, ?_⟩
      rintro _ ⟨⟩ -
      exact ⟨t, ht, hfinished⟩
    · have hidle : ∃ s₁, Leads process id s s₁ ∧ s₁.session? id = some { t with worker := .idle } := by
        cases hworker : t.worker with
        | idle => exact ⟨s, .refl s, by rw [ht, ← hworker]⟩
        | busy data => exact leads_answered process hs ht hworker
        | publishing message => exact leads_published process hs ht hworker
        | finished => exact absurd hworker hfinished
      obtain ⟨s₁, hleads, ht₁⟩ := hidle
      obtain ⟨s₂, hon, ht₂⟩ := leads_emptied process (hleads.sound hs) ht₁ rfl
      have hleads := hleads.trans hon
      by_cases hclosed : t.reader.hasClosed = true
      · have hfinish : s₂.step process (.finish id) = some (s₂.replace { t with worker := .finished, queue := [] }) := by
          show (s₂.session? id).bind s₂.finish = _
          simp [ht₂, finish, hclosed]
        have ht' := session?_replaced { t with worker := .finished, queue := [] } ht₂ rfl rfl
        refine ⟨_, hleads.trans (.step hfinish rfl), ?_, ?_, fun _ _ _ => ⟨_, ht', rfl⟩⟩
        · simp [backlog, ht', Session.backlog]
        · simp [announcing, ht', Session.announcing]
      · refine ⟨s₂, hleads, ?_, ?_, ?_⟩
        · simp [backlog, ht₂, Session.backlog]
        · simp [announcing, ht₂, Session.announcing]
        · rintro _ ⟨⟩ h
          exact absurd h hclosed

/-- The worker and the hub accept nothing. -/
theorem accepted?_of_drives {d : Deed} (ha : a.Drives id) (h : t.deed? process s a = some d) : d.accepted? = none := by
  cases a with
  | connect | join | turnAway | read | hangUp | leave | write | stop => cases ha
  | collect | handle | tell => cases h
  | take | publish | abandon =>
    obtain ⟨_, -, rfl⟩ := Option.map_eq_some_iff.mp h
    rfl
  | finish =>
    cases h
    rfl
  | answer =>
    simp only [Session.deed?] at h
    split at h
    case h_2 => cases h
    rw [← Option.some.inj h]
    unfold answerTo
    split <;> rfl

theorem filterMap_accepted?_of_drives {more : List Action} (hmore : ∀ a ∈ more, a.Drives id) :
    (s.deeds process id more).filterMap Deed.accepted? = [] := by
  induction more generalizing s with
  | nil => rfl
  | cons a rest ih =>
    rw [deeds, filterMap_append, ih fun b hb => hmore b (mem_cons_of_mem a hb), append_nil, filterMap_eq_nil_iff]
    intro d hd
    rw [Option.mem_toList, deed?] at hd
    split at hd
    case isFalse => cases hd
    obtain ⟨t, -, hd⟩ := Option.bind_eq_some_iff.mp hd
    exact accepted?_of_drives (hmore a mem_cons_self) hd

/-- A frame that is read is refused, or accepted. -/
theorem frame?_of_read {x frame : String} {d : Deed} (h : t.deed? process s (.read x frame) = some d) :
    d.frame? = some frame := by
  simp only [Session.deed?] at h
  split at h <;> cases h <;> rfl

/-- **Every frame is answered once, and in order.**  However many clients connect, whatever they
send, in whichever order readers, workers, writers and the hub take their steps, and whenever the
hub stops, for each client:

* every step of its session is one deed, which does to the system exactly what `Deed.Done` says: a
  frame is refused with the text that tells why, or its request waits; a request is answered as its
  outcome alone demands, with a text for the client or with one message for the room, which the hub
  gets unless it has stopped; a request that fails or breaks off changes nothing else;
* the requests are answered in the order in which they were accepted, each once, and what is not
  answered yet still waits;
* messages are published, or given up, in the order of the answers, each once;
* a worker is done only when nothing waits;
* the worker and the hub can always go on until all that was accepted has been answered, and then
  the worker is done if its reader has stopped. -/
theorem run_answers_once (process : Processor σ) (world : σ) (id : String) (actions : List Action) :
    (∀ a s', a.client? = some id → (run process world actions).step process a = some s' →
      ∃ t d, (run process world actions).session? id = some t ∧ d.Done process (run process world actions) t s' ∧
        deeds process id { world := world } (actions ++ [a]) = deeds process id { world := world } actions ++ [d] ∧
        ∀ frame, a = .read id frame → d.frame? = some frame) ∧
    (deeds process id { world := world } actions).filterMap Deed.accepted? =
      (deeds process id { world := world } actions).filterMap Deed.handled? ++ (run process world actions).backlog id ∧
    (deeds process id { world := world } actions).filterMap Deed.announced? =
      (deeds process id { world := world } actions).filterMap Deed.settled? ++
        (run process world actions).announcing id ∧
    (∀ t, (run process world actions).session? id = some t → t.worker = .finished →
      (run process world actions).backlog id = [] ∧ (run process world actions).announcing id = []) ∧
    ∃ more : List Action, (∀ a ∈ more, a.Drives id) ∧
      (deeds process id { world := world } (actions ++ more)).filterMap Deed.handled? =
        (deeds process id { world := world } actions).filterMap Deed.accepted? ∧
      (deeds process id { world := world } (actions ++ more)).filterMap Deed.settled? =
        (deeds process id { world := world } (actions ++ more)).filterMap Deed.announced? ∧
      ∀ t, (run process world actions).session? id = some t → t.reader.hasClosed = true →
        ∃ t', (run process world (actions ++ more)).session? id = some t' ∧ t'.worker = .finished := by
  have hs := sound_run process world actions
  have haccount := @account_run σ { world := world } process (sound_run process world []) id
  obtain ⟨hbacklog, hannouncing⟩ := haccount actions
  refine ⟨fun a s' ha h => ?_, hbacklog, hannouncing, fun t => quiet_of_finished hs, ?_⟩
  · obtain ⟨t, d, ht, hd, hdeed, hdone⟩ := deed?_of_step ha h
    refine ⟨t, d, ht, hdone, ?_, fun frame hread => frame?_of_read (hread ▸ hd)⟩
    rw [deeds_append, ← run, deeds, hdeed]
    rfl
  · obtain ⟨s', ⟨more, hmore, hend⟩, hempty, hquiet, hfinished⟩ := leads_drained process hs id
    have hrun : run process world (actions ++ more) = s' := by
      rw [run, foldl_append]
      exact hend
    obtain ⟨hbacklog', hannouncing'⟩ := haccount (actions ++ more)
    rw [← run, hrun, hempty, append_nil] at hbacklog'
    rw [← run, hrun, hquiet, append_nil] at hannouncing'
    refine ⟨more, hmore, ?_, hannouncing'.symm, hrun ▸ hfinished⟩
    rw [← hbacklog', deeds_append, filterMap_append, ← run, filterMap_accepted?_of_drives hmore, append_nil]
    rfl

end System

end BlockProgram.Live
