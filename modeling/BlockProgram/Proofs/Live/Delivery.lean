import BlockProgram.Proofs.Live.Rooms

/-! # What reaches a client, and in which order

The hub tells rooms one message after the other (`told`).  Some of these messages are meant for a
client: those for its room, told while it attends (`meant`).  `placed` are the messages of the hub
that get into its outbox. What one event places is what it tells, unless the client does not attend
the room or its outbox is full (`arriving_event`); so over a run `placed` is what is left of `meant`
without the moments at which the outbox was full (`placed_eq`).  Both are therefore parts of the one
list `told`, and any two clients agree on the order of what reached both (`run_delivers_in_order`).

Messages carry the time of the move that told them, so a message that is told twice is two messages
here.
-/
namespace BlockProgram.Live

open List

/-! ### Histories -/

/-- What the moves of a run give, one after the other, each with the time of its move.  What a move
gives may depend on the moves before it. -/
def timed {α : Type} (f : List Move → Move → List α) (moves : List Move) : List (Nat × α) :=
  (List.range moves.length).flatMap fun k => (moves[k]?.elim [] (f (moves.take k))).map (k, ·)

section timed
variable {α : Type} {f g : List Move → Move → List α} {moves : List Move}

@[simp] theorem timed_nil : timed f [] = [] := rfl

theorem timed_append (mv : Move) : timed f (moves ++ [mv]) = timed f moves ++ (f moves mv).map (moves.length, ·) := by
  have hold : ∀ k ∈ List.range moves.length,
      ((moves ++ [mv])[k]?.elim [] (f ((moves ++ [mv]).take k))).map (k, ·) =
        (moves[k]?.elim [] (f (moves.take k))).map (k, ·) := by
    intro k hk
    have hk : k < moves.length := mem_range.mp hk
    rw [List.getElem?_append_left hk, take_append_of_le_length hk.le]
  simp only [timed, length_append, length_singleton, range_succ, flatMap_append,
    flatMap_singleton, List.getElem?_concat_length, take_left', Option.elim_some]
  rw [flatMap_congr hold]

theorem timed_congr (h : ∀ before mv, before ++ [mv] <+: moves → f before mv = g before mv) :
    timed f moves = timed g moves := by
  induction moves using List.reverseRecOn with
  | nil => rfl
  | append_singleton moves mv ih =>
    rw [timed_append, timed_append, h moves mv prefix_rfl,
      ih fun before mv' hpre => h before mv' (hpre.trans (prefix_append ..))]

theorem mem_timed {x : Nat × α} : x ∈ timed f moves ↔
      ∃ before mv, before ++ [mv] <+: moves ∧ x.1 = before.length ∧ x.2 ∈ f before mv := by
  induction moves using List.reverseRecOn with
  | nil => simp
  | append_singleton moves mv ih =>
    rw [timed_append, mem_append, ih]
    constructor
    · rintro (⟨before, mv', hpre, htime, hx⟩ | hlast)
      · exact ⟨before, mv', hpre.trans (prefix_append ..), htime, hx⟩
      · obtain ⟨a, ha, rfl⟩ := mem_map.mp hlast
        exact ⟨moves, mv, prefix_rfl, rfl, ha⟩
    · rintro ⟨before, mv', hpre, htime, hx⟩
      rcases prefix_concat_iff.mp hpre with heq | hpre
      · obtain ⟨rfl, hmv⟩ := append_inj' heq rfl
        obtain rfl : mv' = mv := by simpa using hmv
        exact .inr (mem_map.mpr ⟨x.2, hx, by rw [← htime]⟩)
      · exact .inl ⟨before, mv', hpre, htime, hx⟩

theorem timed_sublist (h : ∀ before mv, (f before mv).Sublist (g before mv)) :
    (timed f moves).Sublist (timed g moves) := by
  induction moves using List.reverseRecOn with
  | nil => exact .slnil
  | append_singleton moves mv ih =>
    rw [timed_append, timed_append]
    exact ih.append ((h moves mv).map _)

theorem filter_timed (p : Nat × α → Bool) : (timed f moves).filter p =
      timed (fun before mv => (f before mv).filter fun a => p (before.length, a)) moves := by
  induction moves using List.reverseRecOn with
  | nil => rfl
  | append_singleton moves mv ih =>
    rw [timed_append, timed_append, filter_append, ih, filter_map]
    rfl

/-- If no move gives more than one thing, all times are different, and the list is in their
order. -/
theorem pairwise_timed (h : ∀ before mv, (f before mv).length ≤ 1) : (timed f moves).Pairwise (·.1 < ·.1) := by
  induction moves using List.reverseRecOn with
  | nil => exact .nil
  | append_singleton moves mv ih =>
    rw [timed_append, pairwise_append]
    refine ⟨ih, ?_, fun x hx y hy => ?_⟩
    · match hf : f moves mv, h moves mv with
      | [], _ => exact .nil
      | [a], _ => exact pairwise_singleton ..
      | _ :: _ :: _, hlength => simp at hlength
    · obtain ⟨before, mv', hpre, hx, -⟩ := mem_timed.mp hx
      obtain ⟨a, -, rfl⟩ := mem_map.mp hy
      have := hpre.length_le
      simp at this
      omega

end timed

namespace Roster
variable {r : Roster} {moves before : List Move} {mv : Move} {id : String}

def arriving (r : Roster) (id : String) (before : List Move) (mv : Move) : List Message :=
  (r.outbox (r.run (before ++ [mv])) id).waiting.drop (r.outbox (r.run before) id).waiting.length

def leaving (r : Roster) (id : String) (before : List Move) : Move → List Message
  | .write x => if x = id then (r.outbox (r.run before) id).waiting.head?.toList else []
  | _ => []

/-- What the hub tells rooms along a run. -/
def told (r : Roster) (moves : List Move) : List (Nat × Message) :=
  timed (fun before mv => (r.told? (r.run before) mv).toList) moves

def arrived (r : Roster) (id : String) (moves : List Move) : List (Nat × Message) :=
  timed (r.arriving id) moves

def written (r : Roster) (id : String) (moves : List Move) : List (Nat × Message) :=
  timed (r.leaving id) moves

/-- What of it the hub has put there.  The rest are problems that its own session tells it. -/
def placed (r : Roster) (id : String) (moves : List Move) : List (Nat × Message) :=
  timed (fun before mv => if (r.event? mv).isSome then r.arriving id before mv else []) moves

def Full (r : Roster) (id : String) (before : List Move) : Prop :=
  r.capacity id ≤ (r.outbox (r.run before) id).waiting.length

open Classical in
/-- What the hub tells the room of a client while it attends, from its own registration on. -/
noncomputable def meant (r : Roster) (id : String) (moves : List Move) : List (Nat × Message) :=
  (r.told moves).filter fun x => x.2.room = r.room id ∧ Attending (moves.take (x.1 + 1)) id

/-! ### One move -/

theorem capacity_perform {h : Hub} (ht : h.Tidy) (mv : Move) :
    (r.outbox (r.perform h mv) id).capacity = (r.outbox h id).capacity := by
  by_cases he : (r.event? mv).isSome
  · have hchanged : (r.changed h mv id).capacity = (r.outbox h id).capacity := by
      unfold changed
      split
      · split <;> simp
      · rfl
    rcases r.outbox_perform ht he id with ⟨message, -, -, heq⟩ | ⟨-, heq⟩
    · rw [heq, Outbox.capacity_offer, hchanged]
    · rw [heq, hchanged]
  · cases mv with
    | complain x text =>
      rw [outbox_complain]
      split <;> simp
    | write x =>
      rw [outbox_write]
      split <;> rfl
    | _ => exact absurd rfl he

theorem capacity_run (r : Roster) (moves : List Move) (id : String) :
    (r.outbox (r.run moves) id).capacity = r.capacity id := by
  induction moves using List.reverseRecOn with
  | nil => rfl
  | append_singleton moves mv ih => rw [run_append, capacity_perform (recorded_run r moves).tidy, ih]

theorem waiting_changed {h : Hub} (mv : Move) : (r.changed h mv id).waiting = (r.outbox h id).waiting := by
  unfold changed
  split
  · split <;> simp
  · rfl

/-- A client attends its room exactly if it is there with an open outbox. -/
theorem attending_iff (r : Roster) (moves : List Move) (id : String) : Attending moves id ↔
      id ∈ (r.run moves).members (r.room id) ∧ (r.outbox (r.run moves) id).closed = false := by
  have hr := recorded_run r moves
  rw [← Bool.not_eq_true, hr.closed_iff]
  exact ⟨fun ha => ⟨hr.attends id ha, ha.2⟩, fun ha => ⟨hr.registered _ id ha.1, ha.2⟩⟩

open Classical in
/-- **What an event places** is what the hub tells because of it, if that is for a room the client
attends and there is space left. -/
theorem arriving_event (he : (r.event? mv).isSome) : r.arriving id before mv =
      (r.told? (r.run before) mv).toList.filter fun message =>
        (message.room = r.room id ∧ Attending (before ++ [mv]) id) ∧ ¬ r.Full id before := by
  have hr := recorded_run r (before ++ [mv])
  have hattends := r.attending_iff (before ++ [mv]) id
  have hcases := r.outbox_perform (recorded_run r before).tidy he id
  rw [← run_append] at hcases
  rcases hcases with ⟨message, htold, hmem, heq⟩ | ⟨huntold, heq⟩
  · -- it is in the room that is told; it attends if its outbox is still open
    have hroom : r.room id = message.room := hr.room_eq _ id hmem
    have hclosed : (r.outbox (r.run (before ++ [mv])) id).closed =
        (r.changed (r.run before) mv id).closed := by rw [heq, Outbox.closed_offer]
    have hcapacity : (r.changed (r.run before) mv id).capacity = r.capacity id := by
      rw [← r.capacity_run (before ++ [mv]) id, heq, Outbox.capacity_offer]
    rw [hroom, hclosed] at hattends
    rw [arriving, heq, Outbox.waiting_offer, waiting_changed, drop_left, hcapacity, htold, hroom,
      Option.toList_some, filter_singleton]
    simp [hattends, hmem, Full]
  · rw [arriving, heq, waiting_changed, drop_length, eq_comm, filter_eq_nil_iff]
    intro message hmessage
    have hout := huntold message (Option.mem_toList.mp hmessage)
    simp only [decide_eq_true_eq]
    rintro ⟨⟨hroom, hattending⟩, -⟩
    rw [hroom] at hout
    exact hout (hattends.mp hattending).1

/-- An outbox hands out what it was given in the same order: what a move takes from it was there
first, and what it puts there comes last. -/
theorem leaving_append_waiting (r : Roster) (id : String) (before : List Move) (mv : Move) :
    r.leaving id before mv ++ (r.outbox (r.run (before ++ [mv])) id).waiting =
      (r.outbox (r.run before) id).waiting ++ r.arriving id before mv := by
  -- all moves but writing leave what waits as it is, or offer one message
  have hput : ∀ o : Outbox, r.leaving id before mv = [] → (r.outbox (r.run before) id).waiting = o.waiting →
      (r.outbox (r.run (before ++ [mv])) id = o ∨ ∃ m, r.outbox (r.run (before ++ [mv])) id = o.offer m) →
      r.leaving id before mv ++ (r.outbox (r.run (before ++ [mv])) id).waiting =
        (r.outbox (r.run before) id).waiting ++ r.arriving id before mv := by
    rintro o hnone hsame (heq | ⟨m, heq⟩)
    · rw [arriving, hnone, heq, hsame, drop_length, append_nil, nil_append]
    · rw [arriving, hnone, heq, hsame, Outbox.waiting_offer, drop_left, nil_append]
  by_cases he : (r.event? mv).isSome
  · refine hput (r.changed (r.run before) mv id) ?_ (waiting_changed mv).symm ?_
    · cases mv <;> first | rfl | cases he
    · rw [run_append]
      rcases r.outbox_perform (recorded_run r before).tidy he id with ⟨m, -, -, heq⟩ | ⟨-, heq⟩
      · exact .inr ⟨m, heq⟩
      · exact .inl heq
  · cases mv with
    | complain x text =>
      refine hput (r.outbox (r.run before) id) rfl rfl ?_
      rw [run_append, outbox_complain]
      split
      · exact .inr ⟨_, rfl⟩
      · exact .inl rfl
    | write x =>
      rw [arriving, leaving, run_append, outbox_write]
      by_cases hx : x = id
      · cases (r.outbox (r.run before) id).waiting <;> simp [hx]
      · simp [hx, Ne.symm hx]
    | _ => exact absurd rfl he

/-! ### A run -/

theorem arrived_eq_written_append (r : Roster) (id : String) (moves : List Move) : (r.arrived id moves).map Prod.snd =
      (r.written id moves).map Prod.snd ++ (r.outbox (r.run moves) id).waiting := by
  induction moves using List.reverseRecOn with
  | nil => rfl
  | append_singleton moves mv ih =>
    simp only [arrived, written] at ih
    simp only [arrived, written, timed_append, map_append, map_map, Function.comp_def,
      map_id', ih, append_assoc, leaving_append_waiting]

/-- Of two parts of a list, each has what is also in the other in the same order. -/
theorem filter_mem_filter {α : Type} [BEq α] [LawfulBEq α] (p q : α → Bool) (l : List α) :
    (l.filter p).filter (· ∈ l.filter q) = (l.filter q).filter (· ∈ l.filter p) := by
  rw [filter_filter, filter_filter]
  refine filter_congr fun x hx => ?_
  simp [hx, Bool.and_comm]

open Classical in
theorem placed_eq (r : Roster) (id : String) (moves : List Move) :
    r.placed id moves = (r.meant id moves).filter fun x => ¬ r.Full id (moves.take x.1) := by
  rw [meant, told, filter_filter, filter_timed]
  refine timed_congr fun before mv hpre => ?_
  obtain ⟨after, rfl⟩ := hpre
  by_cases he : (r.event? mv).isSome
  · rw [if_pos he, arriving_event he]
    refine filter_congr fun message _ => ?_
    have hnow : (before ++ [mv] ++ after).take (before.length + 1) = before ++ [mv] :=
      take_left' (by simp)
    rw [hnow, append_assoc, take_left]
    simp [Bool.and_comm]
  · have hnone : r.told? (r.run before) mv = none := by
      rw [told?, Option.not_isSome_iff_eq_none.mp he]
      rfl
    rw [if_neg he, hnone]
    rfl

open Classical in
/-- **Clients agree on the order.**  Along every run of a hub, whatever happens and whoever writes
when:

* the hub tells one message at a time;
* what it places in the outbox of a client is, in the same order, a part of what it tells the room
  of that client while it attends, and all of it if the outbox is never full when something is told;
* nothing it places is for another room;
* a client is written what has got into its outbox, oldest first;
* of what reached two clients, both have got what they share in the same order. -/
theorem run_delivers_in_order (r : Roster) (moves : List Move) : (r.told moves).Pairwise (·.1 < ·.1) ∧
    (∀ id, (r.placed id moves).Sublist (r.meant id moves) ∧ (r.placed id moves).Sublist (r.arrived id moves)) ∧
    (∀ id, (∀ x ∈ r.meant id moves, ¬ r.Full id (moves.take x.1)) → r.placed id moves = r.meant id moves) ∧
    (∀ id, ∀ x ∈ r.placed id moves, x.2.room = r.room id) ∧
    (∀ id, (r.arrived id moves).map Prod.snd =
      (r.written id moves).map Prod.snd ++ (r.outbox (r.run moves) id).waiting) ∧
    ∀ a b, (r.placed a moves).filter (· ∈ r.placed b moves) = (r.placed b moves).filter (· ∈ r.placed a moves) := by
  have hmeant : ∀ id, r.placed id moves = (r.meant id moves).filter fun x => ¬ r.Full id (moves.take x.1) :=
    fun id => r.placed_eq id moves
  refine ⟨?_, fun id => ⟨?_, ?_⟩, fun id hnever => ?_, fun id x hx => ?_, ?_, fun a b => ?_⟩
  · exact pairwise_timed fun before mv => Option.length_toList_le
  · rw [hmeant]
    exact filter_sublist
  · refine timed_sublist fun before mv => ?_
    split
    · exact List.Sublist.refl _
    · exact nil_sublist _
  · rw [hmeant, filter_eq_self]
    exact fun x hx => decide_eq_true (hnever x hx)
  · rw [hmeant] at hx
    have hx := of_mem_filter (mem_of_mem_filter hx)
    exact (of_decide_eq_true hx).1
  · exact fun id => r.arrived_eq_written_append id moves
  · have hpart : ∀ id, ∃ p, r.placed id moves = (r.told moves).filter p :=
      fun id => ⟨_, by rw [hmeant, meant, filter_filter]⟩
    obtain ⟨p, hp⟩ := hpart a
    obtain ⟨q, hq⟩ := hpart b
    rw [hp, hq]
    exact filter_mem_filter p q (r.told moves)

open Classical in
theorem run_delivers_in_order_comingAndGoing :
    redAndBlue.placed "a" comingAndGoing = redAndBlue.meant "a" comingAndGoing ∧
      (redAndBlue.placed "a" comingAndGoing).filter (· ∈ redAndBlue.placed "b" comingAndGoing) =
        [(2, .joined ⟨"b", "red"⟩ 2)] := by
  obtain ⟨-, -, hall, -, -, hshared⟩ := run_delivers_in_order redAndBlue comingAndGoing
  have htold : redAndBlue.told comingAndGoing =
      [(1, .joined ⟨"a", "red"⟩ 1), (2, .joined ⟨"b", "red"⟩ 2), (3, .joined ⟨"c", "blue"⟩ 1),
        (5, .left ⟨"a", "red"⟩ 1)] := rfl
  have ha : redAndBlue.placed "a" comingAndGoing = [(1, .joined ⟨"a", "red"⟩ 1), (2, .joined ⟨"b", "red"⟩ 2)] := rfl
  have hb : redAndBlue.placed "b" comingAndGoing = [(2, .joined ⟨"b", "red"⟩ 2)] := rfl
  refine ⟨hall "a" fun x hx => ?_, ?_⟩
  · obtain ⟨hx, hmeant⟩ := mem_filter.mp hx
    rw [htold] at hx
    have hroom : x.2.room = "red" := (of_decide_eq_true hmeant).1
    rcases mem_cons.mp hx with rfl | hx
    · exact Nat.not_le.mpr (by decide)
    rcases mem_cons.mp hx with rfl | hx
    · exact Nat.not_le.mpr (by decide)
    rcases mem_cons.mp hx with rfl | hx
    · exact absurd hroom (by decide)
    · obtain rfl := mem_singleton.mp hx
      exact Nat.not_le.mpr (by decide)
  · rw [hshared "a" "b", ha, hb]
    simp

end Roster

end BlockProgram.Live
