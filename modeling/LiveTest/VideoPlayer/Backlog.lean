import LiveTest.Queue
import LiveTest.VideoPlayer.Conservation

/-!
# The backlog of the fetches

A message waits in the gossip queue until a tick starts its fetch, one message a
tick. Whether the player stalls makes no difference to that.

* `backlog_of_run`: the fetches are started in the order in which the messages were
  received, none is left out, and the `gossips` field of the metric never exceeds
  `b` exactly when no stretch of the run that ends with a tick has more than `b`
  messages above its ticks.
-/

namespace LiveTest

open Rust Machine

variable {Cid : Type}

/-- The messages received. -/
def receivedMessages (is : List (Player.Action Cid)) : List (StreamerMessage Cid) :=
  is.filterMap fun
    | .gossip _ msg => some msg
    | _ => none

/-- What the actions do to the gossip queue. -/
def queueMoves (is : List (Player.Action Cid)) : List Queue.Move :=
  is.filterMap fun
    | .gossip _ _ => some .join
    | .tick _ => some .leave
    | _ => none

/-- The length of the gossip queue in a metric. -/
def WriteQuery.reportedGossips (query : WriteQuery) : Option ℕ :=
  match query.fields.lookup "gossips" with
  | some (.unsigned v) => some v
  | _ => none

theorem receivedMessages_concat (is : List (Player.Action Cid)) (a : Player.Action Cid) :
    receivedMessages (is ++ [a]) = receivedMessages is ++ receivedMessages [a] :=
  List.filterMap_append

theorem queueMoves_concat (is : List (Player.Action Cid)) (a : Player.Action Cid) :
    queueMoves (is ++ [a]) = queueMoves is ++ queueMoves [a] := List.filterMap_append

theorem advances_concat (tr : List (Player.Action Cid × Player.Event Cid))
    (e : Player.Action Cid × Player.Event Cid) :
    advances (tr ++ [e]) = advances tr ++ advances [e] := List.filterMap_append

/-! ## The metric -/

/-- Every branch of `advance_stream` reports the length of the queue, and leaves it as it is. -/
theorem VideoStream.advanceStream_reports {s s' : VideoStream Cid} {now : Int64} {advance : Advance}
    (h : s.advanceStream .wraps now = .ok (s', advance)) :
    s'.gossips = s.gossips ∧ advance.query.reportedGossips = some s.gossips.length := by
  unfold advanceStream at h
  dsimp only at h
  split_ifs at h
  · cases h
    exact ⟨rfl, rfl⟩
  · cases h
    exact ⟨rfl, rfl⟩
  · obtain ⟨head, -, h⟩ := bind_eq_ok.mp h
    cases h
    exact ⟨rfl, rfl⟩

/-- `play` takes the first message, and reports what it leaves in the queue. -/
theorem VideoStream.play_reports {s s' : VideoStream Cid} {now : Int64}
    {fetch : Option (StreamerMessage Cid)} {advance : Advance}
    (h : s.play .wraps now = .ok (s', fetch, advance)) :
    s'.gossips = s.gossips.tail ∧ advance.query.reportedGossips = some s'.gossips.length := by
  unfold play at h
  cases hgossips : s.gossips with
  | nil =>
    simp only [hgossips] at h
    obtain ⟨⟨stream, advance'⟩, hadvance, h⟩ := bind_eq_ok.mp h
    cases h
    obtain ⟨hkeep, hreported⟩ := advanceStream_reports hadvance
    rw [hreported, hkeep, hgossips]
    exact ⟨rfl, rfl⟩
  | cons msg gossips =>
    simp only [hgossips] at h
    obtain ⟨⟨stream, advance'⟩, hadvance, h⟩ := bind_eq_ok.mp h
    cases h
    obtain ⟨hkeep, hreported⟩ := advanceStream_reports hadvance
    rw [hreported, hkeep]
    exact ⟨rfl, rfl⟩

theorem Player.tick_reports {p p' : Player Cid} {now : Int64} {advance : VideoStream.Advance}
    (h : p.step .wraps (.tick now) = .ok (p', .advanced advance)) :
    p'.stream.gossips = p.stream.gossips.tail ∧
      advance.query.reportedGossips = some p'.stream.gossips.length := by
  obtain ⟨⟨stream, fetch, advance'⟩, hplay, h⟩ := bind_eq_ok.mp h
  cases fetch <;> cases h <;> exact VideoStream.play_reports hplay

/-! ## The invariant -/

/-- The queue has the messages whose fetch was not started, and a task has the message of its
    number. -/
structure Queued (p : Player Cid) (tr : List (Player.Action Cid × Player.Event Cid)) : Prop where
  bufferOk : p.stream.BufferOk
  spawned_le : p.spawned ≤ (receivedMessages (tr.map Prod.fst)).length
  gossips_eq : p.stream.gossips = (receivedMessages (tr.map Prod.fst)).drop p.spawned
  tasks_eq : ∀ t ∈ p.tasks, (receivedMessages (tr.map Prod.fst))[t.1]? = some t.2
  length_eq : p.stream.gossips.length = Queue.level (queueMoves (tr.map Prod.fst))
  reported_iff : ∀ b, (∀ advance ∈ advances tr, ∃ v ≤ b, advance.query.reportedGossips = some v) ↔
    Queue.Balanced b (queueMoves (tr.map Prod.fst))

theorem Queued.init (segmentLength simId : UInt64) :
    Queued (Player.new segmentLength simId : Player Cid) [] where
  bufferOk := VideoStream.bufferOk_new segmentLength simId
  spawned_le := le_rfl
  gossips_eq := rfl
  tasks_eq _ h := nomatch h
  length_eq := rfl
  reported_iff b := iff_of_true (by simp [advances]) (Queue.balanced_nil b)

section Step

variable {p p' : Player Cid} {tr : List (Player.Action Cid × Player.Event Cid)}
  {a : Player.Action Cid} {e : Player.Event Cid}

/-- A message joins the queue. -/
theorem Queued.receive (h : Queued p tr) (receiveTime : Int64) (msg : StreamerMessage Cid) :
    ∃ p' e, p.step .wraps (.gossip receiveTime msg) = .ok (p', e) ∧
      Queued p' (tr ++ [(.gossip receiveTime msg, e)]) := by
  obtain ⟨query, hs⟩ := p.step_gossip receiveTime msg
  refine ⟨_, _, hs, ⟨h.bufferOk.length_eq, h.bufferOk.sorted⟩, ?_, ?_, ?_, ?_, ?_⟩
  · rw [List.map_append, List.map_singleton, receivedMessages_concat, List.length_append]
    exact h.spawned_le.trans (Nat.le_add_right _ _)
  · rw [List.map_append, List.map_singleton, receivedMessages_concat,
      List.drop_append_of_le_length h.spawned_le, ← h.gossips_eq]
    rfl
  · intro t ht
    rw [List.map_append, List.map_singleton, receivedMessages_concat]
    have hmsg := h.tasks_eq t ht
    rwa [List.getElem?_append_left (List.getElem?_eq_some_iff.mp hmsg).1]
  · rw [List.map_append, List.map_singleton, queueMoves_concat]
    refine Eq.trans ?_ (Queue.level_concat _ .join).symm
    rw [← h.length_eq]
    exact List.length_append
  · intro b
    rw [List.map_append, List.map_singleton, queueMoves_concat, advances_concat]
    refine Iff.trans ?_ Queue.balanced_concat_join.symm
    rw [← h.reported_iff b]
    exact Iff.of_eq (by rw [show advances [_] = [] from rfl, List.append_nil])

/-- A tick starts the fetch of the first message, if there is one, and reports the others. -/
theorem Queued.tick (h : Queued p tr) (now : Int64) :
    ∃ p' e, p.step .wraps (.tick now) = .ok (p', e) ∧ Queued p' (tr ++ [(.tick now, e)]) := by
  obtain ⟨stream, fetch, advance, hs, hok, hgossips, -⟩ := Player.step_tick h.bufferOk now
  obtain ⟨htail, hreported⟩ := Player.tick_reports hs
  have hmessages (e : Player.Event Cid) :
      receivedMessages ((tr ++ [(Player.Action.tick now, e)]).map Prod.fst) =
        receivedMessages (tr.map Prod.fst) := by
    rw [List.map_append, List.map_singleton, receivedMessages_concat]
    exact List.append_nil _
  have hmoves (e : Player.Event Cid) :
      queueMoves ((tr ++ [(Player.Action.tick now, e)]).map Prod.fst) =
        queueMoves (tr.map Prod.fst) ++ [.leave] := by
    rw [List.map_append, List.map_singleton, queueMoves_concat]
    rfl
  have hlevel : stream.gossips.length = Queue.level (queueMoves (tr.map Prod.fst) ++ [.leave]) := by
    rw [Queue.level_concat, ← h.length_eq]
    exact (congrArg List.length htail).trans List.length_tail
  have hdrop := h.gossips_eq
  refine ⟨_, _, hs, hok, ?_, ?_, ?_, ?_, ?_⟩
  · have hlen := congrArg List.length (hgossips.symm.trans hdrop)
    have := h.spawned_le
    rw [List.length_append, List.length_drop] at hlen
    rw [hmessages]
    dsimp only
    omega
  · rw [hmessages]
    dsimp only
    rw [← List.drop_drop, ← hdrop, hgossips, List.drop_left]
  · intro t ht
    rw [hmessages]
    rcases List.mem_append.mp ht with ht | ht
    · exact h.tasks_eq t ht
    · obtain ⟨msg, hmsg, rfl⟩ := List.mem_map.mp ht
      obtain rfl : fetch = some msg := by simpa using hmsg
      rw [← List.head?_drop, ← hdrop, hgossips]
      rfl
  · rw [hmoves]
    exact hlevel
  · intro b
    rw [hmoves, Queue.balanced_concat_leave, ← h.reported_iff b, ← hlevel, advances_concat,
      List.forall_mem_append]
    refine and_congr_right fun _ => ?_
    simp [advances, hreported]

/-- A step that is no tick and receives no message. -/
theorem Queued.of_quiet (h : Queued p tr) (hok : p'.stream.BufferOk)
    (hgossips : p'.stream.gossips = p.stream.gossips) (hspawned : p'.spawned = p.spawned)
    (htasks : ∀ t ∈ p'.tasks, t ∈ p.tasks) (hmessages : receivedMessages [a] = [])
    (hmoves : queueMoves [a] = []) (he : ∀ advance, e ≠ .advanced advance) :
    Queued p' (tr ++ [(a, e)]) := by
  have hadvances : advances (tr ++ [(a, e)]) = advances tr := by
    rw [advances_concat]
    cases e with
    | advanced advance => exact absurd rfl (he advance)
    | _ => exact List.append_nil _
  have hmessages' : receivedMessages ((tr ++ [(a, e)]).map Prod.fst) =
      receivedMessages (tr.map Prod.fst) := by
    rw [List.map_append, List.map_singleton, receivedMessages_concat, hmessages, List.append_nil]
  have hmoves' : queueMoves ((tr ++ [(a, e)]).map Prod.fst) = queueMoves (tr.map Prod.fst) := by
    rw [List.map_append, List.map_singleton, queueMoves_concat, hmoves, List.append_nil]
  refine ⟨hok, ?_, ?_, ?_, ?_, ?_⟩
  · rw [hmessages', hspawned]
    exact h.spawned_le
  · rw [hmessages', hspawned, hgossips]
    exact h.gossips_eq
  · rw [hmessages']
    exact fun t ht => h.tasks_eq t (htasks t ht)
  · rw [hmoves', hgossips]
    exact h.length_eq
  · rw [hmoves', hadvances]
    exact h.reported_iff

/-- One action keeps the invariant. -/
theorem Queued.step (h : Queued p tr) (a : Player.Action Cid) :
    ∃ p' e, p.step .wraps a = .ok (p', e) ∧ Queued p' (tr ++ [(a, e)]) := by
  cases a with
  | gossip receiveTime msg => exact h.receive receiveTime msg
  | tick now => exact h.tick now
  | finish task =>
    rcases Player.finish_cases p task with hs | ⟨before, msg, after, htasks, hs⟩
    · exact ⟨_, _, hs, h.of_quiet h.bufferOk rfl rfl (fun _ => id) rfl rfl (by simp)⟩
    · refine ⟨_, _, hs, h.of_quiet h.bufferOk rfl rfl (fun t ht => ?_) rfl rfl (by simp)⟩
      rw [htasks]
      simp only [List.mem_append, List.mem_cons] at ht ⊢
      tauto
  | recv receiveTime =>
    cases hchannel : p.channel with
    | nil =>
      exact ⟨_, _, Player.step_recv_nil hchannel receiveTime,
        h.of_quiet h.bufferOk rfl rfl (fun _ => id) rfl rfl (by simp)⟩
    | cons msg channel =>
      obtain ⟨stream, query, hs, hok, hgossips, -⟩ :=
        Player.step_recv h.bufferOk hchannel receiveTime
      exact ⟨_, _, hs, h.of_quiet hok hgossips rfl (fun _ => id) rfl rfl (by simp)⟩

end Step

/-- In every run the fetches are started in the order of the messages, and the backlog is what the
    messages and the ticks make it. -/
theorem backlog_of_run (segmentLength simId : UInt64) (is : List (Player.Action Cid)) :
    ∃ p tr, run (Player.step .wraps) (Player.new segmentLength simId) is = .ok (p, tr) ∧
      p.stream.gossips = (receivedMessages is).drop p.spawned ∧
      (∀ t ∈ p.tasks, (receivedMessages is)[t.1]? = some t.2) ∧
      p.stream.gossips.length = Queue.level (queueMoves is) ∧
      ∀ b, (∀ advance ∈ advances tr, ∃ v ≤ b, advance.query.reportedGossips = some v) ↔
        Queue.Balanced b (queueMoves is) := by
  obtain ⟨p, tr, hrun, h⟩ := run_induction (P := fun _ _ => True) (fun _ => True) Queued
    (fun _ _ _ => trivial) (Queued.init segmentLength simId)
    (fun p tr a h _ _ => h.step a) trivial (meets_true is)
  obtain rfl := trace_inputs hrun
  exact ⟨p, tr, hrun, h.gossips_eq, h.tasks_eq, h.length_eq, h.reported_iff⟩

end LiveTest
