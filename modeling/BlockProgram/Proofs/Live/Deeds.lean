import BlockProgram.Live.System

/-! # What a session does in a step

A step of the session of a client is one of a few deeds.  `Deed.Done` says when it can be done and
what it makes of the whole system, and a session step does its deed (`step_done`); so nothing later
has to open the functions of the system.
-/
namespace BlockProgram.Live

open Option Session

/-- What a session does in a step. -/
inductive Deed where
  | joined
  | turnedAway
  | hungUp
  /-- The reader goes, and the hub hears of it. -/
  | left
  /-- The reader goes, and nobody hears of it. -/
  | vanished
  | refused (frame problem : String)
  /-- A frame is read, and the request in it waits for the worker. -/
  | accepted (frame data : String)
  | took (data : String)
  | failed (data problem : String)
  /-- The worker answers a request with a message, which it starts to publish. -/
  | answered (data : String) (message : Message)
  | published (message : Message)
  /-- The message is given up, because the hub has stopped. -/
  | withdrawn (message : Message)
  | finished

def Action.client? : Action → Option String
  | .join id | .turnAway id | .read id _ | .hangUp id | .leave id | .take id | .answer id | .publish id | .abandon id
  | .finish id => some id
  | _ => none

variable {σ : Type}

namespace Session
variable (t : Session)

def announcing : List Message :=
  match t.worker with
  | .publishing message => [message]
  | _ => []

/-- A frame is refused for what it is, or because too many requests wait. -/
def Refuses (frame problem : String) : Prop :=
  match Inbound.read frame with
  | .unreadable => problem = "Invalid message format"
  | .unsupported kind => problem = "Unsupported message type " ++ kind
  | .request _ => queueCapacity ≤ t.queue.length ∧ problem = "Server is busy, please try again"

/-- How the outcome of a request is answered. -/
def answerTo (data : String) : Outcome → Deed
  | .payload p => .answered data (.generated t.member p)
  | .failed text => .failed data text
  | .collapsed text => .failed data ("generation failed: " ++ text)

/-- What the session does in a step that is possible. -/
def deed? (process : Processor σ) (s : System σ) : Action → Option Deed
  | .join _ => some .joined
  | .turnAway _ => some .turnedAway
  | .hangUp _ => some .hungUp
  | .leave _ => some (if t.reader = .stopped ∧ s.hub.running = true then .left else .vanished)
  | .read _ frame =>
    match (t.receive frame).2, Inbound.read frame with
    | some problem, _ => some (.refused frame problem)
    | none, .request data => some (.accepted frame data)
    | none, _ => none
  | .take _ => t.queue.head?.map .took
  | .answer _ =>
    match t.worker with
    | .busy data => some (t.answerTo data (process s.world data).1)
    | _ => none
  | .publish _ => t.announcing.head?.map .published
  | .abandon _ => t.announcing.head?.map .withdrawn
  | .finish _ => some .finished
  | _ => none

end Session

/-- When a session can do a deed, and what becomes of the system by it; all else stays as it is. A
request that fails, or breaks off, leaves nothing behind but a text for its client and what the
processor did to the world. -/
def Deed.Done (process : Processor σ) (s : System σ) (t : Session) (s' : System σ) : Deed → Prop
  | joined =>
    t.reader = .joining ∧ s.task = .waiting ∧ s.hub.running = true ∧
      s' = { s.replace { t with reader := .reading } with task := .handling (.register t.member) }
  | turnedAway => t.reader = .joining ∧ s.hub.running = false ∧ s' = s.replace { t with reader := .turnedAway }
  | hungUp => t.reader = .reading ∧ s' = s.replace { t with reader := .stopped }
  | left =>
    t.worker = .finished ∧ t.reader = .stopped ∧ s.task = .waiting ∧ s.hub.running = true ∧
      s' = { s.replace { t with reader := .gone } with task := .handling (.unregister t.member) }
  | vanished =>
    t.worker = .finished ∧ (t.reader = .stopped ∧ s.hub.running = false ∨ t.reader = .turnedAway) ∧
      s' = s.replace { t with reader := .gone }
  | refused frame problem =>
    t.reader = .reading ∧ t.Refuses frame problem ∧ s' = (s.replace t).complain t.member problem
  | accepted frame data =>
    t.reader = .reading ∧ Inbound.read frame = .request data ∧ s' = s.replace { t with queue := t.queue ++ [data] }
  | took data =>
    t.worker = .idle ∧ ∃ rest, t.queue = data :: rest ∧ s' = s.replace { t with worker := .busy data, queue := rest }
  | failed data problem =>
    t.worker = .busy data ∧ t.answerTo data (process s.world data).1 = failed data problem ∧
      s' = ({ s with world := (process s.world data).2 }.replace { t with worker := .idle }).complain t.member problem
  | answered data message =>
    t.worker = .busy data ∧ t.answerTo data (process s.world data).1 = answered data message ∧
      s' = { s with world := (process s.world data).2 }.replace { t with worker := .publishing message }
  | published message =>
    t.worker = .publishing message ∧
      s' = { s.replace { t with worker := .idle } with pending := s.pending ++ [message] }
  | withdrawn message =>
    t.worker = .publishing message ∧ s.hub.running = false ∧ s' = s.replace { t with worker := .idle }
  | finished =>
    t.worker = .idle ∧ t.queue = [] ∧ t.reader.hasClosed = true ∧ s' = s.replace { t with worker := .finished }

namespace System
variable {process : Processor σ} {s s' : System σ} {t : Session}

/-- The deed of a step that was possible, done. -/
def Does (process : Processor σ) (s : System σ) (a : Action) (t : Session) (s' : System σ) : Prop :=
  ∃ d, t.deed? process s a = some d ∧ d.Done process s t s'

variable {x : String}

theorem does_join (h : s.join t = some s') : s.Does process (.join x) t s' := by
  unfold join at h
  split at h
  case h_2 => cases h
  rename_i hreader htask
  obtain ⟨hrunning, ⟨⟩⟩ := ite_none_right_eq_some.mp h
  exact ⟨_, rfl, hreader, htask, hrunning, rfl⟩

theorem does_turnAway (h : s.turnAway t = some s') : s.Does process (.turnAway x) t s' := by
  unfold turnAway at h
  obtain ⟨hgiven, ⟨⟩⟩ := ite_none_right_eq_some.mp h
  simp only [Bool.and_eq_true, decide_eq_true_eq, Bool.not_eq_true'] at hgiven
  exact ⟨_, rfl, hgiven.1, hgiven.2, rfl⟩

theorem does_hangUp (h : s.hangUp t = some s') : s.Does process (.hangUp x) t s' := by
  unfold hangUp at h
  obtain ⟨hreader, ⟨⟩⟩ := ite_none_right_eq_some.mp h
  exact ⟨_, rfl, hreader, rfl⟩

theorem does_leave (h : s.leave t = some s') : s.Does process (.leave x) t s' := by
  unfold leave at h
  split at h
  · rename_i hworker hreader
    split at h
    · rename_i hrunning
      split at h
      case h_2 => cases h
      rename_i htask
      exact ⟨.left, congrArg some (if_pos ⟨hreader, hrunning⟩), hworker, hreader, htask, hrunning,
        (some.inj h).symm⟩
    · rename_i hstopped
      exact ⟨.vanished, congrArg some (if_neg fun h => hstopped h.2), hworker,
        .inl ⟨hreader, Bool.eq_false_iff.mpr hstopped⟩, (some.inj h).symm⟩
  · rename_i hworker hreader
    exact ⟨.vanished, congrArg some (if_neg (by simp [hreader])), hworker, .inr hreader, (some.inj h).symm⟩
  · cases h

theorem does_read {frame : String} (h : s.read t frame = some s') : s.Does process (.read x frame) t s' := by
  unfold read at h
  split at h
  case isFalse => cases h
  rename_i hreader
  have hrefused : ∀ problem, t.receive frame = (t, some problem) → t.Refuses frame problem →
      s.Does process (.read x frame) t s' := by
    intro problem hreceive hwhy
    rw [hreceive] at h
    refine ⟨.refused frame problem, ?_, hreader, hwhy, (some.inj h).symm⟩
    simp only [deed?, hreceive]
  cases hread : Inbound.read frame with
  | unreadable =>
    refine hrefused "Invalid message format" ?_ ?_
    · simp only [receive, hread]
    · simp only [Refuses, hread]
  | unsupported kind =>
    refine hrefused ("Unsupported message type " ++ kind) ?_ ?_
    · simp only [receive, hread]
    · simp only [Refuses, hread]
  | request data =>
    by_cases hroom : t.queue.length < queueCapacity
    · have hreceive : t.receive frame = ({ t with queue := t.queue ++ [data] }, none) := by
        simp [receive, hread, enqueue?, hreader, Reader.hasClosed, hroom]
      rw [hreceive] at h
      refine ⟨.accepted frame data, ?_, hreader, hread, (some.inj h).symm⟩
      simp only [deed?, hreceive, hread]
    · refine hrefused "Server is busy, please try again" ?_ ?_
      · simp [receive, hread, enqueue?, hreader, Reader.hasClosed, hroom]
      · simpa only [Refuses, hread, and_true] using Nat.le_of_not_lt hroom

theorem does_take (h : s.take t = some s') : s.Does process (.take x) t s' := by
  unfold take at h
  split at h
  case h_2 => cases h
  rename_i data rest hworker hqueue
  refine ⟨.took data, ?_, hworker, rest, hqueue, (some.inj h).symm⟩
  simp only [deed?, hqueue, List.head?_cons, map_some]

theorem does_answer (h : s.answer process t = some s') : s.Does process (.answer x) t s' := by
  unfold answer at h
  split at h
  case h_2 => cases h
  rename_i data hworker
  refine ⟨t.answerTo data (process s.world data).1, by simp only [deed?, hworker], ?_⟩
  rw [← some.inj h]
  cases houtcome : (process s.world data).1 with
  | payload p | failed text | collapsed text => exact ⟨hworker, by rw [houtcome]; rfl, rfl⟩

theorem does_publish (h : s.publish t = some s') : s.Does process (.publish x) t s' := by
  unfold publish at h
  split at h
  case h_2 => cases h
  rename_i message hworker
  obtain ⟨-, ⟨⟩⟩ := ite_none_right_eq_some.mp h
  refine ⟨.published message, ?_, hworker, rfl⟩
  simp only [deed?, announcing, hworker, List.head?_cons, map_some]

theorem does_abandon (h : s.abandon t = some s') : s.Does process (.abandon x) t s' := by
  unfold abandon at h
  split at h
  case h_2 => cases h
  rename_i message hworker
  obtain ⟨hstopped, ⟨⟩⟩ := ite_none_left_eq_some.mp h
  refine ⟨.withdrawn message, ?_, hworker, Bool.eq_false_iff.mpr hstopped, rfl⟩
  simp only [deed?, announcing, hworker, List.head?_cons, map_some]

theorem does_finish (h : s.finish t = some s') : s.Does process (.finish x) t s' := by
  unfold finish at h
  split at h
  case h_2 => cases h
  rename_i hworker hqueue
  obtain ⟨hclosed, ⟨⟩⟩ := ite_none_right_eq_some.mp h
  exact ⟨.finished, rfl, hworker, hqueue, hclosed, rfl⟩

/-- **A step of a session does its deed.** -/
theorem step_done {a : Action} {id : String} (ha : a.client? = some id) (h : s.step process a = some s') :
    ∃ t, s.session? id = some t ∧ s.Does process a t s' := by
  have hown : ∀ x, some x = some id → ∀ f : Session → Option (System σ), (s.session? x).bind f = some s' →
      (∀ t, f t = some s' → s.Does process a t s') → ∃ t, s.session? id = some t ∧ s.Does process a t s' := by
    rintro x ⟨⟩ f h hf
    obtain ⟨t, ht, h⟩ := bind_eq_some_iff.mp h
    exact ⟨t, ht, hf t h⟩
  cases a with
  | connect | collect | handle | tell | write | stop => cases ha
  | join x => exact hown x ha _ h fun _ => does_join
  | turnAway x => exact hown x ha _ h fun _ => does_turnAway
  | hangUp x => exact hown x ha _ h fun _ => does_hangUp
  | leave x => exact hown x ha _ h fun _ => does_leave
  | read x frame => exact hown x ha _ h fun _ => does_read
  | take x => exact hown x ha _ h fun _ => does_take
  | answer x => exact hown x ha _ h fun _ => does_answer
  | publish x => exact hown x ha _ h fun _ => does_publish
  | abandon x => exact hown x ha _ h fun _ => does_abandon
  | finish x => exact hown x ha _ h fun _ => does_finish

end System

end BlockProgram.Live
