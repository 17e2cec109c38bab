import LiveTest.Lifetimes
import LiveTest.VideoPlayer.Conservation

/-!
# The fetches in progress

`play` starts the fetch of a message and notes its count in `fetching`;
`add_segment` takes it out again, and so does a call of `advance_stream` that
plays a segment with a larger index.

* `mem_fetching_iff`: when the messages carry distinct counts, `fetching` has in
  every reachable state exactly the counts that are live in the history of the
  player.
-/

namespace LiveTest

open Rust Machine Lifetimes

variable {Cid : Type}

namespace Player

/-- The count that `add_segment` ran for. -/
def Event.bufferedCounts : Event Cid → List UInt64
  | .buffered msg _ => [msg.count]
  | _ => []

/-- `advance_stream` ran and overtook the count. -/
def Event.overtakes : Event Cid → UInt64 → Bool
  | .advanced advance, count => advance.overtakes count
  | _, _ => false

/-- What a step from `p` to `p'` does to the fetches: the counts of the tasks that it adds, the
    count of the segment that it buffers and those below the segment that it plays. -/
def effect (p p' : Player Cid) (e : Event Cid) : Lifetimes.Step UInt64 where
  opens := (p'.tasks.drop p.tasks.length).map fun t => t.2.count
  closes := e.bufferedCounts
  cuts := e.overtakes

/-- A step of the player, with what it does to the fetches. -/
def observe (p : Player Cid) (a : Action Cid) :
    Except Panic (Player Cid × Lifetimes.Step UInt64) := do
  let (p', e) ← p.step .wraps a
  return (p', p.effect p' e)

theorem observe_eq_ok {p p' : Player Cid} {a : Action Cid} {e : Event Cid}
    (h : p.step .wraps a = .ok (p', e)) : p.observe a = .ok (p', p.effect p' e) := by
  rw [observe, h]
  rfl

end Player

/-- The counts of the messages received. -/
def receivedCounts (is : List (Player.Action Cid)) : List UInt64 :=
  is.flatMap fun
    | .gossip _ msg => [msg.count]
    | _ => []

theorem receivedCounts_concat (is : List (Player.Action Cid)) (a : Player.Action Cid) :
    receivedCounts (is ++ [a]) = receivedCounts is ++ receivedCounts [a] := List.flatMap_append

/-! ## The invariant -/

/-- The counts that wait in the queue, in the tasks and in the channel. -/
def Player.waiting (p : Player Cid) : Multiset UInt64 :=
  ↑(p.stream.gossips.map StreamerMessage.count) + ↑(p.tasks.map fun t => t.2.count) +
    ↑(p.channel.map StreamerMessage.count)

/-- Every count received waits or has been added to the buffer, and `fetching` has those that are
    live. -/
structure FetchesTracked (p : Player Cid)
    (tr : List (Player.Action Cid × Lifetimes.Step UInt64)) : Prop where
  bufferOk : p.stream.BufferOk
  counts_eq : (receivedCounts (tr.map Prod.fst) : Multiset UInt64) =
    p.waiting + ↑(closed (tr.map Prod.snd))
  mem_iff : ∀ count, count ∈ p.stream.fetching ↔ Live (tr.map Prod.snd) count

theorem FetchesTracked.init (segmentLength simId : UInt64) :
    FetchesTracked (Player.new segmentLength simId : Player Cid) [] where
  bufferOk := VideoStream.bufferOk_new segmentLength simId
  counts_eq := rfl
  mem_iff count := by
    constructor
    · intro h
      exact absurd h (Finset.notMem_empty count)
    · intro h
      exact absurd h (not_live_nil count)

section Step

variable {p p' : Player Cid} {tr : List (Player.Action Cid × Lifetimes.Step UInt64)}
  {a : Player.Action Cid} {e : Player.Event Cid}

/-- With distinct counts, what waits in the queue has not been added. -/
theorem FetchesTracked.not_mem_closed (h : FetchesTracked p tr)
    (hnodup : (receivedCounts (tr.map Prod.fst)).Nodup) {msg : StreamerMessage Cid}
    (hmsg : msg ∈ p.stream.gossips) : msg.count ∉ closed (tr.map Prod.snd) := by
  have hall : (p.waiting + ↑(closed (tr.map Prod.snd))).Nodup := by
    rw [← h.counts_eq]
    exact Multiset.coe_nodup.mpr hnodup
  have hdisjoint := (Multiset.nodup_add.mp hall).2.2
  refine fun hmem => Multiset.disjoint_left.mp hdisjoint ?_ (Multiset.mem_coe.mpr hmem)
  rw [Player.waiting, Multiset.mem_add, Multiset.mem_add]
  exact .inl (.inl (List.mem_map_of_mem hmsg))

/-- One step keeps the invariant, if the counts stay accounted for and `fetching` follows what the
    step does. -/
theorem FetchesTracked.concat (h : FetchesTracked p tr) (hok : p'.stream.BufferOk)
    (hcounts : p.waiting + ↑(receivedCounts [a]) = p'.waiting + ↑(p.effect p' e).closes)
    (hfresh : ∀ count ∈ (p.effect p' e).opens, count ∉ closed (tr.map Prod.snd))
    (hmem : ∀ count, count ∈ p'.stream.fetching ↔
      (count ∈ p.stream.fetching ∨ count ∈ (p.effect p' e).opens) ∧
        count ∉ (p.effect p' e).closes ∧ (p.effect p' e).cuts count = false) :
    FetchesTracked p' (tr ++ [(a, p.effect p' e)]) where
  bufferOk := hok
  counts_eq := by
    rw [List.map_append, List.map_append, List.map_singleton, List.map_singleton,
      receivedCounts_concat, closed_concat, ← Multiset.coe_add, ← Multiset.coe_add, h.counts_eq,
      add_right_comm, hcounts, add_right_comm, add_assoc]
  mem_iff count := by
    rw [List.map_append, List.map_singleton, live_concat (hfresh count), hmem, h.mem_iff]

/-- A step that starts no fetch and ends none. -/
theorem FetchesTracked.of_quiet (h : FetchesTracked p tr) (hok : p'.stream.BufferOk)
    (hfetching : p'.stream.fetching = p.stream.fetching)
    (htasks : p'.tasks.length ≤ p.tasks.length) (hbuffered : ∀ msg query, e ≠ .buffered msg query)
    (hadvanced : ∀ advance, e ≠ .advanced advance)
    (hcounts : p.waiting + ↑(receivedCounts [a]) = p'.waiting) :
    FetchesTracked p' (tr ++ [(a, p.effect p' e)]) := by
  have hopens : (p.effect p' e).opens = [] := by
    have hdrop : p'.tasks.drop p.tasks.length = [] := List.drop_eq_nil_of_le htasks
    simp [Player.effect, hdrop]
  have hcloses : (p.effect p' e).closes = [] := by
    cases e with
    | buffered msg query => exact absurd rfl (hbuffered msg query)
    | _ => rfl
  have hcuts : ∀ count, (p.effect p' e).cuts count = false := by
    intro count
    cases e with
    | advanced advance => exact absurd rfl (hadvanced advance)
    | _ => rfl
  refine h.concat hok ?_ ?_ ?_
  · rw [hcounts, hcloses]
    exact (add_zero _).symm
  · rw [hopens]
    simp
  · intro count
    rw [hopens, hcloses, hcuts, hfetching]
    simp

theorem FetchesTracked.step (h : FetchesTracked p tr) (a : Player.Action Cid)
    (hnodup : (receivedCounts (tr.map Prod.fst)).Nodup) :
    ∃ p' r, p.observe a = .ok (p', r) ∧ FetchesTracked p' (tr ++ [(a, r)]) := by
  cases a with
  | gossip receiveTime msg =>
    obtain ⟨query, hs⟩ := p.step_gossip receiveTime msg
    refine ⟨_, _, Player.observe_eq_ok hs, h.of_quiet ⟨h.bufferOk.length_eq, h.bufferOk.sorted⟩ rfl
      le_rfl (by simp) (by simp) ?_⟩
    simp only [Player.waiting, receivedCounts, List.map_append, List.map_cons, List.map_nil,
      List.flatMap_singleton, ← Multiset.coe_add]
    abel
  | tick now =>
    obtain ⟨stream, fetch, advance, hs, hok, hgossips, -, -, hfetching⟩ :=
      Player.step_tick h.bufferOk now
    refine ⟨_, _, Player.observe_eq_ok hs, ?_⟩
    have hcounts : (fetch.toList.map fun msg => (p.spawned, msg)).map (fun t => t.2.count) =
        fetch.toList.map StreamerMessage.count := by
      rw [List.map_map]
      rfl
    have hopens : (p.effect { p with
        stream
        spawned := p.spawned + fetch.toList.length
        tasks := p.tasks ++ fetch.toList.map fun msg => (p.spawned, msg) }
        (.advanced advance)).opens = fetch.toList.map StreamerMessage.count := by
      rw [← hcounts]
      simp [Player.effect]
    refine h.concat hok ?_ ?_ ?_
    · simp only [Player.waiting, hgossips, List.map_append, hcounts, ← Multiset.coe_add,
        receivedCounts, List.flatMap_singleton, Player.effect, Player.Event.bufferedCounts,
        Multiset.coe_nil]
      abel
    · rw [hopens]
      intro count hcount
      obtain ⟨msg, hmsg, rfl⟩ := List.mem_map.mp hcount
      apply h.not_mem_closed hnodup
      rw [hgossips]
      exact List.mem_append_left _ hmsg
    · intro count
      rw [hopens, hfetching]
      simp [Player.effect, Player.Event.bufferedCounts, Player.Event.overtakes]
  | finish task =>
    rcases p.finish_cases task with hs | ⟨before, msg, after, htasks, hs⟩
    · exact ⟨_, _, Player.observe_eq_ok hs, h.of_quiet h.bufferOk rfl le_rfl (by simp) (by simp)
        (add_zero _)⟩
    · refine ⟨_, _, Player.observe_eq_ok hs, h.of_quiet h.bufferOk rfl ?_ (by simp) (by simp) ?_⟩
      · rw [htasks]
        simp
      · simp only [Player.waiting, htasks, List.map_append, List.map_cons, List.map_nil,
          ← Multiset.coe_add, ← Multiset.cons_coe, ← Multiset.singleton_add, receivedCounts,
          List.flatMap_singleton, Multiset.coe_nil]
        abel
  | recv receiveTime =>
    cases hchannel : p.channel with
    | nil =>
      exact ⟨_, _, Player.observe_eq_ok (Player.step_recv_nil hchannel receiveTime),
        h.of_quiet h.bufferOk rfl le_rfl (by simp) (by simp) (add_zero _)⟩
    | cons msg channel =>
      obtain ⟨stream, query, hs, hok, hgossips, hfetching, -⟩ :=
        Player.step_recv h.bufferOk hchannel receiveTime
      refine ⟨_, _, Player.observe_eq_ok hs, h.concat hok ?_ ?_ ?_⟩
      · simp only [Player.waiting, hgossips, hchannel, List.map_cons, ← Multiset.cons_coe,
          ← Multiset.singleton_add, receivedCounts, List.flatMap_singleton, Player.effect,
          Player.Event.bufferedCounts, Multiset.coe_nil]
        abel
      · simp [Player.effect]
      · intro count
        rw [hfetching]
        simp [Player.effect, Player.Event.bufferedCounts, Player.Event.overtakes, and_comm]

end Step

/-- In every reachable state, when the messages received carry distinct counts, `fetching` is the
    set of the counts whose fetch `play` started, whose `add_segment` has not run, and which no call
    of `advance_stream` has overtaken, from the one in the tick that started the fetch on. -/
theorem mem_fetching_iff (segmentLength simId : UInt64) {is : List (Player.Action Cid)}
    (hnodup : (receivedCounts is).Nodup) :
    ∃ p tr, run Player.observe (Player.new segmentLength simId) is = .ok (p, tr) ∧
      ∀ count, count ∈ p.stream.fetching ↔ Live (tr.map Prod.snd) count := by
  have hadm : ∀ (is : List (Player.Action Cid)) (a : Player.Action Cid),
      (receivedCounts (is ++ [a])).Nodup → (receivedCounts is).Nodup := by
    intro is a h
    rw [receivedCounts_concat] at h
    exact (List.nodup_append.mp h).1
  obtain ⟨p, tr, hrun, h⟩ := run_induction (fun is => (receivedCounts is).Nodup) FetchesTracked hadm
    (FetchesTracked.init segmentLength simId)
    (fun p tr a h hadm' _ => h.step a (hadm _ a hadm')) hnodup (meets_true is)
  exact ⟨p, tr, hrun, h.mem_iff⟩

/-- Segments 5 and 3 are fetched, segment 5 is played while the fetch of 3 is in progress. -/
theorem mem_fetching_iff_example :
    ∃ p tr, run Player.observe (Player.new 1 1) [.gossip 0 (⟨5, 0, [7]⟩ : StreamerMessage ℕ),
        .gossip 0 ⟨3, 0, [8]⟩, .tick 0, .finish 0, .recv 0, .tick 0, .tick 0, .tick 0] =
        .ok (p, tr) ∧
      ∀ count, count ∈ p.stream.fetching ↔ Live (tr.map Prod.snd) count :=
  mem_fetching_iff 1 1 (by decide)

end LiveTest
