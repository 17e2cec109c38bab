import LiveTest.Machine
import LiveTest.VideoPlayer.Builds
import Mathlib.Algebra.BigOperators.Group.List.Basic
import Mathlib.Algebra.Order.Group.Multiset
import Mathlib.Tactic.Abel

/-!
# No segment is lost

A message goes from the gossip queue to a fetch task, to the channel, to the
buffer, and is played or skipped. The buffer is the two queues zipped.

* `addSegment_spec`, `advanceStream_spec`: what the two methods do with the
  buffer; neither panics on queues of equal length.
* `conservation`: in every reachable state the messages received are the
  disjoint union of those in the six places, each with its own timestamp.
-/

namespace LiveTest

open Rust Machine

variable {Cid : Type}

/-- The pair that stands for a message. -/
def StreamerMessage.pair (msg : StreamerMessage Cid) : UInt64 × UInt64 := (msg.count, msg.timestamp)

/-- The skip count in a metric. -/
def WriteQuery.reportedSkip (query : WriteQuery) : Option ℤ :=
  match query.fields.lookup "skip" with
  | some (.signed v) => some v
  | _ => none

namespace VideoStream

/-- The buffer, as pairs of a segment index and a timestamp. -/
def buffer (s : VideoStream Cid) : List (UInt64 × UInt64) := s.segments.zip s.timestamps

/-- The invariant of the buffer: two queues of one length, the indices sorted. -/
structure BufferOk (s : VideoStream Cid) : Prop where
  length_eq : s.segments.length = s.timestamps.length
  sorted : s.segments.Pairwise (· ≤ ·)

/-- `new` has no segment. -/
theorem bufferOk_new (segmentLength simId : UInt64) :
    (new segmentLength simId : VideoStream Cid).BufferOk := ⟨rfl, List.Pairwise.nil⟩

/-- The call played a segment with a larger index. -/
def Advance.overtakes (advance : Advance) (count : UInt64) : Bool :=
  advance.played.any fun x => count < x.1

/-! ## The methods -/

theorem addSegment_eq {s : VideoStream Cid} (h : s.segments.length = s.timestamps.length)
    (receiveTime : Int64) (segmentIndex timestamp : UInt64) :
    ∃ query, s.addSegment .wraps receiveTime segmentIndex timestamp = .ok ({ s with
      fetching := s.fetching.erase segmentIndex
      lastSegmentTime := receiveTime.toUInt64
      segments := (stableSort (s.buffer ++ [(segmentIndex, timestamp)])).unzip.1
      timestamps := (stableSort (s.buffer ++ [(segmentIndex, timestamp)])).unzip.2 }, query) := by
  have hlen : (s.segments ++ [segmentIndex]).length = (s.timestamps ++ [timestamp]).length := by
    simp [h]
  have hzip : (s.segments ++ [segmentIndex]).zip (s.timestamps ++ [timestamp]) =
      s.buffer ++ [(segmentIndex, timestamp)] := by
    rw [buffer, List.zip_append h]
    rfl
  obtain ⟨query, hquery⟩ :=
    s.exists_arrivalQuery "blocks" receiveTime s.lastSegmentTime segmentIndex timestamp
  exact ⟨query, by simp only [addSegment, hquery, pairSort_eq hlen, hzip, ok_bind, pure_eq_ok]⟩

/-- A segment goes into the buffer with its own timestamp, and is fetched no longer. -/
theorem addSegment_spec {s : VideoStream Cid} (h : s.BufferOk) (receiveTime : Int64)
    (segmentIndex timestamp : UInt64) :
    ∃ s' query, s.addSegment .wraps receiveTime segmentIndex timestamp = .ok (s', query) ∧
      s'.BufferOk ∧
      s'.gossips = s.gossips ∧ s'.fetching = s.fetching.erase segmentIndex ∧
      s'.buffer.Perm (s.buffer ++ [(segmentIndex, timestamp)]) := by
  have hsorted := stableSort_sorted (s.buffer ++ [(segmentIndex, timestamp)])
  obtain ⟨query, hadd⟩ := addSegment_eq h.length_eq receiveTime segmentIndex timestamp
  refine ⟨_, query, hadd, ⟨by simp, ?_⟩, rfl, rfl, ?_⟩
  · simpa [List.unzip_eq_map, List.pairwise_map] using hsorted
  · rw [buffer, List.zip_unzip]
    exact stableSort_perm _

/-- The pairs that the skip loop has in hand: those it overwrote, the current one and the rest. -/
def Head.pairs (h : Head) : List (UInt64 × UInt64) :=
  h.skipped ++ (h.segmentIdx, h.timestamp) :: h.segments.zip h.timestamps

/-- The skip count is the number of the pairs that were overwritten, as an `i32`. -/
def Head.Counted (h : Head) : Prop := h.skippedSegments = Int32.ofNat h.skipped.length

/-- The loop only moves on in the buffer and counts the pairs it overwrites. -/
theorem skipLoop_spec (half : UInt64) (h : Head) (hlen : h.segments.length = h.timestamps.length)
    (hcount : h.Counted) :
    ∃ h', skipLoop .wraps half h.segments h = .ok h' ∧
      h'.segments.length = h'.timestamps.length ∧ h'.Counted ∧ h'.segments <:+ h.segments ∧
      h'.pairs = h.pairs := by
  obtain ⟨segmentIdx, timestamp, skippedSegments, segments, timestamps, skipped⟩ := h
  dsimp only [Head.Counted] at hlen hcount ⊢
  induction segments generalizing segmentIdx timestamp skippedSegments timestamps skipped with
  | nil => exact ⟨_, rfl, hlen, hcount, List.suffix_refl _, rfl⟩
  | cons segment segments ih =>
    by_cases hfar : segmentIdx < (segment :: segments).getLast (by simp) - half
    · cases timestamps with
      | nil => simp at hlen
      | cons time timestamps =>
        obtain ⟨h', hloop, hlen', hcount', hsuf, hpairs⟩ := ih segment time (skippedSegments + 1)
          timestamps (skipped ++ [(segmentIdx, timestamp)]) (by simpa using hlen)
          (by simp [hcount])
        refine ⟨h', ?_, hlen', hcount', hsuf.trans (List.suffix_cons _ _), ?_⟩
        · rw [skipLoop_cons, if_pos hfar]
          exact hloop
        · rw [hpairs]
          simp [Head.pairs]
    · refine ⟨_, ?_, hlen, hcount, List.suffix_refl _, rfl⟩
      rw [skipLoop_cons, if_neg hfar]

theorem skipAhead_spec (s : VideoStream Cid) (h : Head)
    (hlen : h.segments.length = h.timestamps.length)
    (hcount : h.Counted) :
    ∃ h', s.skipAhead .wraps h = .ok h' ∧ h'.segments.length = h'.timestamps.length ∧
      h'.Counted ∧ h'.segments <:+ h.segments ∧ h'.pairs = h.pairs := by
  rw [skipAhead_eq]
  split
  · split_ifs
    · exact skipLoop_spec _ h hlen hcount
    · exact ⟨h, rfl, hlen, hcount, List.suffix_refl _, rfl⟩
  · exact ⟨h, rfl, hlen, hcount, List.suffix_refl _, rfl⟩

/-- `advance_stream` takes the pairs it skips and the pair it plays off the front of the buffer,
    reports the number of the pairs it skips and drops the fetches it overtakes. -/
theorem advanceStream_spec {s : VideoStream Cid} (h : s.BufferOk) (now : Int64) :
    ∃ s' advance, s.advanceStream .wraps now = .ok (s', advance) ∧ s'.BufferOk ∧
      s'.gossips = s.gossips ∧ s.buffer = advance.skipped ++ advance.played.toList ++ s'.buffer ∧
      advance.query.reportedSkip.getD 0 = (Int32.ofNat advance.skipped.length).toInt ∧
      ∀ count, count ∈ s'.fetching ↔ count ∈ s.fetching ∧ advance.overtakes count = false := by
  unfold advanceStream
  dsimp only
  split_ifs with hbuf hempty
  · exact ⟨_, _, rfl, ⟨h.length_eq, h.sorted⟩, rfl, rfl, rfl, by simp [Advance.overtakes]⟩
  · exact ⟨_, _, rfl, ⟨h.length_eq, h.sorted⟩, rfl, rfl, rfl, by simp [Advance.overtakes]⟩
  · obtain ⟨hlen, hsorted⟩ := h
    cases hsegs : s.segments with
    | nil => simp [hsegs] at hempty
    | cons segment segments =>
      cases htimes : s.timestamps with
      | nil => simp [hsegs, htimes] at hlen
      | cons timestamp timestamps =>
        rw [hsegs, htimes] at hlen
        rw [hsegs] at hsorted
        obtain ⟨head, hskip, hlen', hcount, hsuf, hpairs⟩ :=
          s.skipAhead_spec ⟨segment, timestamp, 0, segments, timestamps, []⟩
            (Nat.succ.inj hlen) rfl
        have hnext : s.nextSegment .wraps = .ok head := by
          rw [nextSegment, hsegs, htimes]
          exact hskip
        simp only [hnext, Overflow.sub, Overflow.check, ok_bind, pure_eq_ok]
        refine ⟨_, _, rfl, ⟨hlen', (List.pairwise_cons.mp hsorted).2.sublist hsuf.sublist⟩, rfl,
          ?_, ?_, by simp [Advance.overtakes]⟩
        · rw [buffer, hsegs, htimes]
          simpa [Head.pairs, buffer] using hpairs.symm
        · rw [← hcount]
          rfl

/-- `play` takes the next message off the gossip queue, starts its fetch and advances. -/
theorem play_spec {s : VideoStream Cid} (h : s.BufferOk) (now : Int64) :
    ∃ s' fetch advance, s.play .wraps now = .ok (s', fetch, advance) ∧ s'.BufferOk ∧
      s.gossips = fetch.toList ++ s'.gossips ∧
      s.buffer = advance.skipped ++ advance.played.toList ++ s'.buffer ∧
      advance.query.reportedSkip.getD 0 = (Int32.ofNat advance.skipped.length).toInt ∧
      ∀ count, count ∈ s'.fetching ↔
        (count ∈ s.fetching ∨ count ∈ fetch.toList.map StreamerMessage.count) ∧
          advance.overtakes count = false := by
  unfold play
  cases hgossips : s.gossips with
  | nil =>
    obtain ⟨s', advance, hadv, hok, hkeep, hbuffer, hskip, hfetching⟩ := advanceStream_spec h now
    refine ⟨s', none, advance, by simp only [hadv, ok_bind, pure_eq_ok], hok, ?_, hbuffer, hskip, ?_⟩
    · rw [hkeep, hgossips]
      rfl
    · simpa using hfetching
  | cons msg gossips =>
    have h' : ({ s with gossips, fetching := insert msg.count s.fetching } :
      VideoStream Cid).BufferOk := ⟨h.length_eq, h.sorted⟩
    obtain ⟨s', advance, hadv, hok, hkeep, hbuffer, hskip, hfetching⟩ := advanceStream_spec h' now
    refine ⟨s', some msg, advance, by simp only [hadv, ok_bind, pure_eq_ok], hok, ?_, hbuffer, hskip,
      ?_⟩
    · rw [hkeep]
      rfl
    · simpa [or_comm] using hfetching

end VideoStream

/-! ## Steps of the player -/

namespace Player

variable {p : Player Cid}

/-- A tick spawns a task for the next message, if there is one, and advances the stream. -/
theorem step_tick (h : p.stream.BufferOk) (now : Int64) :
    ∃ stream, ∃ fetch : Option (StreamerMessage Cid), ∃ advance,
      p.step .wraps (.tick now) = .ok ({ p with
        stream
        spawned := p.spawned + fetch.toList.length
        tasks := p.tasks ++ fetch.toList.map fun msg => (p.spawned, msg) }, .advanced advance) ∧
      stream.BufferOk ∧ p.stream.gossips = fetch.toList ++ stream.gossips ∧
      p.stream.buffer = advance.skipped ++ advance.played.toList ++ stream.buffer ∧
      advance.query.reportedSkip.getD 0 = (Int32.ofNat advance.skipped.length).toInt ∧
      ∀ count, count ∈ stream.fetching ↔
        (count ∈ p.stream.fetching ∨ count ∈ fetch.toList.map StreamerMessage.count) ∧
          advance.overtakes count = false := by
  obtain ⟨stream, fetch, advance, hplay, hspec⟩ := VideoStream.play_spec h now
  refine ⟨stream, fetch, advance, ?_, hspec⟩
  cases fetch with
  | none => simp [Player.step, hplay]
  | some msg => simp [Player.step, hplay]

/-- A task that reports leaves, and its message goes into the channel. -/
theorem step_finish {task : ℕ} {msg : StreamerMessage Cid}
    (hfind : p.tasks.find? (fun t => t.1 = task) = some (task, msg)) :
    p.step .wraps (.finish task) = .ok ({ p with
      tasks := p.tasks.eraseP fun t => t.1 = task
      channel := p.channel ++ [msg] }, .finished msg) := by
  simp only [Player.step, hfind, pure_eq_ok]

/-- `finish` does nothing, or takes one task out and puts its message into the channel. -/
theorem finish_cases (p : Player Cid) (task : ℕ) :
    p.step .wraps (.finish task) = .ok (p, .none) ∨
      ∃ before msg after, p.tasks = before ++ (task, msg) :: after ∧
        p.step .wraps (.finish task) = .ok ({ p with
          tasks := before ++ after
          channel := p.channel ++ [msg] }, .finished msg) := by
  cases hfind : p.tasks.find? fun t => t.1 = task with
  | none =>
    left
    simp only [Player.step, hfind, pure_eq_ok]
  | some t =>
    right
    obtain ⟨id, msg⟩ := t
    obtain ⟨hid, before, after, htasks, hbefore⟩ := List.find?_eq_some_iff_append.mp hfind
    obtain rfl : id = task := by simpa using hid
    refine ⟨before, msg, after, htasks, ?_⟩
    have herase : p.tasks.eraseP (fun t => decide (t.1 = id)) = before ++ after := by
      rw [htasks, List.eraseP_append_right _ (by simpa using hbefore), List.eraseP_cons, hid]
      rfl
    rw [step_finish hfind, herase]

theorem step_recv_nil (hchannel : p.channel = []) (receiveTime : Int64) :
    p.step .wraps (.recv receiveTime) = .ok (p, .none) := by
  simp only [Player.step, hchannel, pure_eq_ok]

/-- The first message in the channel goes into the buffer. -/
theorem step_recv (h : p.stream.BufferOk) {msg : StreamerMessage Cid}
    {channel : List (StreamerMessage Cid)} (hchannel : p.channel = msg :: channel)
    (receiveTime : Int64) :
    ∃ stream query, p.step .wraps (.recv receiveTime) = .ok ({ p with stream, channel },
        .buffered msg query) ∧
      stream.BufferOk ∧ stream.gossips = p.stream.gossips ∧
      stream.fetching = p.stream.fetching.erase msg.count ∧
      stream.buffer.Perm (p.stream.buffer ++ [msg.pair]) := by
  obtain ⟨stream, query, hadd, hspec⟩ :=
    VideoStream.addSegment_spec h receiveTime msg.count msg.timestamp
  refine ⟨stream, query, ?_, hspec⟩
  simp only [Player.step, hchannel, hadd, ok_bind, pure_eq_ok]

end Player

/-! ## Runs of the player -/

/-- The pairs of the messages received. -/
def receivedPairs (is : List (Player.Action Cid)) : List (UInt64 × UInt64) :=
  is.filterMap fun
    | .gossip _ msg => some msg.pair
    | _ => none

/-- The calls of `advance_stream` in a trace. -/
def advances (tr : List (Player.Action Cid × Player.Event Cid)) : List VideoStream.Advance :=
  tr.filterMap fun
    | (_, .advanced advance) => some advance
    | _ => none

/-- The pairs that were played. -/
def playedPairs (tr : List (Player.Action Cid × Player.Event Cid)) : List (UInt64 × UInt64) :=
  (advances tr).filterMap VideoStream.Advance.played

/-- The pairs that were skipped. -/
def skippedPairs (tr : List (Player.Action Cid × Player.Event Cid)) : List (UInt64 × UInt64) :=
  (advances tr).flatMap VideoStream.Advance.skipped

/-- The skip counts in the metrics. -/
def reportedSkips (tr : List (Player.Action Cid × Player.Event Cid)) : List ℤ :=
  (advances tr).filterMap fun advance => advance.query.reportedSkip

/-- The pairs in the five places of the player. -/
def Player.pairs (p : Player Cid) : Multiset (UInt64 × UInt64) :=
  ↑(p.stream.gossips.map StreamerMessage.pair) + ↑(p.tasks.map fun t => t.2.pair) +
    ↑(p.channel.map StreamerMessage.pair) + ↑p.stream.buffer

/-- The invariant. -/
structure Conserved (p : Player Cid) (tr : List (Player.Action Cid × Player.Event Cid)) :
    Prop where
  bufferOk : p.stream.BufferOk
  pairs_eq : (receivedPairs (tr.map Prod.fst) : Multiset (UInt64 × UInt64)) =
    p.pairs + ↑(playedPairs tr) + ↑(skippedPairs tr)
  skips_eq : (∀ advance ∈ advances tr, advance.skipped.length < 2 ^ 31) →
    (reportedSkips tr).sum = (skippedPairs tr).length

theorem Conserved.init (segmentLength simId : UInt64) :
    Conserved (Player.new segmentLength simId : Player Cid) [] :=
  ⟨VideoStream.bufferOk_new segmentLength simId, rfl, fun _ => rfl⟩

section Step

variable {p p' : Player Cid} {tr : List (Player.Action Cid × Player.Event Cid)}
  {a : Player.Action Cid} {e : Player.Event Cid}

theorem receivedPairs_concat (is : List (Player.Action Cid)) (a : Player.Action Cid) :
    receivedPairs (is ++ [a]) = receivedPairs is ++ receivedPairs [a] := List.filterMap_append

/-- A step that is no tick only moves pairs. -/
theorem Conserved.of_move (h : Conserved p tr) (he : ∀ advance, e ≠ .advanced advance)
    (hok : p'.stream.BufferOk) (hpairs : p'.pairs = p.pairs + ↑(receivedPairs [a])) :
    Conserved p' (tr ++ [(a, e)]) := by
  have hadv : advances (tr ++ [(a, e)]) = advances tr := by
    rw [advances, List.filterMap_append]
    cases e with
    | advanced advance => exact absurd rfl (he advance)
    | _ => exact List.append_nil _
  refine ⟨hok, ?_, ?_⟩
  · have hplayed : playedPairs (tr ++ [(a, e)]) = playedPairs tr := by
      rw [playedPairs, hadv, playedPairs]
    have hskipped : skippedPairs (tr ++ [(a, e)]) = skippedPairs tr := by
      rw [skippedPairs, hadv, skippedPairs]
    rw [List.map_append, List.map_singleton, receivedPairs_concat, ← Multiset.coe_add, h.pairs_eq,
      hpairs, hplayed, hskipped]
    abel
  · rw [reportedSkips, skippedPairs, hadv]
    exact h.skips_eq

/-- A tick takes what it plays and skips out of the player. -/
theorem Conserved.of_advance (h : Conserved p tr) {now : Int64} {advance : VideoStream.Advance}
    (hok : p'.stream.BufferOk)
    (hpairs : p.pairs = p'.pairs + ↑advance.played.toList + ↑advance.skipped)
    (hskip : advance.query.reportedSkip.getD 0 = (Int32.ofNat advance.skipped.length).toInt) :
    Conserved p' (tr ++ [(.tick now, .advanced advance)]) := by
  have hadv : advances (tr ++ [(.tick now, .advanced advance)]) = advances tr ++ [advance] :=
    List.filterMap_append
  refine ⟨hok, ?_, ?_⟩
  · have hplayed : playedPairs (tr ++ [(.tick now, .advanced advance)]) =
        playedPairs tr ++ advance.played.toList := by
      rw [playedPairs, hadv, List.filterMap_append, playedPairs]
      cases hp : advance.played <;> simp [hp]
    have hskipped : skippedPairs (tr ++ [(.tick now, .advanced advance)]) =
        skippedPairs tr ++ advance.skipped := by
      rw [skippedPairs, hadv, List.flatMap_append, List.flatMap_singleton, skippedPairs]
    rw [List.map_append, List.map_singleton, receivedPairs_concat, ← Multiset.coe_add, h.pairs_eq,
      hpairs, hplayed, hskipped, ← Multiset.coe_add, ← Multiset.coe_add]
    simp only [receivedPairs, List.filterMap_cons, List.filterMap_nil, Multiset.coe_nil]
    abel
  · rw [hadv, List.forall_mem_append]
    rintro ⟨hbefore, hlt⟩
    rw [skippedPairs, reportedSkips, hadv, List.filterMap_append, List.flatMap_append,
      List.sum_append, List.length_append, Nat.cast_add, List.flatMap_singleton]
    refine congrArg₂ _ (h.skips_eq hbefore) ?_
    rw [← Int32.toInt_ofNat_of_lt (hlt advance (List.mem_singleton_self _)), ← hskip]
    cases hr : advance.query.reportedSkip <;> simp [hr]

theorem Conserved.step (h : Conserved p tr) (a : Player.Action Cid) :
    ∃ p' e, p.step .wraps a = .ok (p', e) ∧ Conserved p' (tr ++ [(a, e)]) := by
  cases a with
  | gossip receiveTime msg =>
    obtain ⟨query, hs⟩ := p.step_gossip receiveTime msg
    refine ⟨_, _, hs, h.of_move (by simp) ⟨h.bufferOk.length_eq, h.bufferOk.sorted⟩ ?_⟩
    simp only [Player.pairs, VideoStream.buffer, receivedPairs, List.map_append, List.map_cons,
      List.map_nil, ← Multiset.coe_add, List.filterMap_cons, List.filterMap_nil]
    abel
  | tick now =>
    obtain ⟨stream, fetch, advance, hs, hok, hgossips, hbuffer, hskip, -⟩ :=
      Player.step_tick h.bufferOk now
    refine ⟨_, _, hs, h.of_advance hok ?_ hskip⟩
    simp only [Player.pairs, hgossips, hbuffer, List.map_append, List.map_map, Function.comp_def,
      ← Multiset.coe_add]
    abel
  | finish task =>
    rcases Player.finish_cases p task with hs | ⟨before, msg, after, htasks, hs⟩
    · refine ⟨p, .none, hs, h.of_move (by simp) h.bufferOk ?_⟩
      simp [receivedPairs]
    · refine ⟨_, _, hs, h.of_move (by simp) h.bufferOk ?_⟩
      simp only [Player.pairs, htasks, List.map_append, List.map_cons, List.map_nil,
        ← Multiset.coe_add, ← Multiset.cons_coe, ← Multiset.singleton_add, receivedPairs,
        List.filterMap_cons, List.filterMap_nil, Multiset.coe_nil]
      abel
  | recv receiveTime =>
    cases hchannel : p.channel with
    | nil =>
      refine ⟨p, .none, Player.step_recv_nil hchannel receiveTime,
        h.of_move (by simp) h.bufferOk ?_⟩
      simp [receivedPairs]
    | cons msg channel =>
      obtain ⟨stream, query, hs, hok, hgossips, -, hperm⟩ :=
        Player.step_recv h.bufferOk hchannel receiveTime
      refine ⟨_, _, hs, h.of_move (by simp) hok ?_⟩
      simp only [Player.pairs, hgossips, Multiset.coe_eq_coe.mpr hperm, hchannel, List.map_cons,
        ← Multiset.coe_add, ← Multiset.cons_coe, ← Multiset.singleton_add, receivedPairs,
        List.filterMap_cons, List.filterMap_nil, Multiset.coe_nil]
      abel

end Step

/-- In every reachable state the messages received are the disjoint union, with multiplicity, of
    those in the gossip queue, in unfinished fetch tasks, in the channel and in the buffer, and of
    those played and skipped; the buffer is sorted, and the reported skip counts add up to the
    number of the skipped pairs, if each of them fits in an `i32`. -/
theorem conservation (segmentLength simId : UInt64) (is : List (Player.Action Cid)) :
    ∃ p tr, run (Player.step .wraps) (Player.new segmentLength simId) is = .ok (p, tr) ∧
      (receivedPairs is : Multiset (UInt64 × UInt64)) =
        ↑(p.stream.gossips.map StreamerMessage.pair) + ↑(p.tasks.map fun t => t.2.pair) +
          ↑(p.channel.map StreamerMessage.pair) + ↑(p.stream.segments.zip p.stream.timestamps) +
          ↑(playedPairs tr) + ↑(skippedPairs tr) ∧
      p.stream.segments.length = p.stream.timestamps.length ∧
      p.stream.segments.Pairwise (· ≤ ·) ∧
      ((∀ advance ∈ advances tr, advance.skipped.length < 2 ^ 31) →
        (reportedSkips tr).sum = (skippedPairs tr).length) := by
  obtain ⟨p, tr, hrun, h⟩ := run_induction (fun _ => True) Conserved (fun _ _ _ => trivial)
    (Conserved.init segmentLength simId) (fun p tr a h _ _ => h.step a) trivial (meets_true is)
  refine ⟨p, tr, hrun, ?_, h.bufferOk.length_eq, h.bufferOk.sorted, h.skips_eq⟩
  rw [← trace_inputs hrun]
  exact h.pairs_eq

end LiveTest
