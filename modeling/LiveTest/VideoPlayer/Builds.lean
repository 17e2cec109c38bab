import LiveTest.VideoPlayer.Basic

/-!
# The two builds of the player

* `skipLoop_cons`, `skipAhead_eq`, `addGossip_eq`: the methods of the release build, in
  which no arithmetic panics.
* `advanceStream_refines`, `Player.step_refines`: where the build with overflow checks
  does not panic, the other one does the same.
-/

namespace LiveTest

open Rust

variable {Cid : Type}

namespace VideoStream

/-! ## The release build -/

theorem skipLoop_cons (half segment : UInt64) (segments : List UInt64) (h : Head) :
    skipLoop .wraps half (segment :: segments) h =
      if h.segmentIdx < (segment :: segments).getLast (by simp) - half then do
        let (timestamp, timestamps) ← popFront h.timestamps
        skipLoop .wraps half segments
          ⟨segment, timestamp, h.skippedSegments + 1, segments, timestamps,
            h.skipped ++ [(h.segmentIdx, h.timestamp)]⟩
      else .ok h := rfl

theorem skipAhead_eq (s : VideoStream Cid) (h : Head) :
    s.skipAhead .wraps h =
      match h.segments.getLast? with
      | some last =>
        if h.segmentIdx < last - s.bufferSize then
          skipLoop .wraps (s.bufferSize / 2) h.segments h
        else .ok h
      | none => .ok h := by
  unfold skipAhead
  cases h.segments.getLast? <;> rfl

theorem jitter_eq (s : VideoStream Cid) (receiveTime : Int64) (lastTime : UInt64) :
    s.jitter .wraps receiveTime lastTime = .ok (if lastTime = 0 then 0
      else (receiveTime - lastTime.toInt64) - (s.segmentLength * 1000).toInt64) := by
  unfold jitter
  split_ifs <;> rfl

theorem exists_arrivalQuery (s : VideoStream Cid) (name : String) (receiveTime : Int64)
    (lastTime segmentIndex timestamp : UInt64) :
    ∃ query,
      s.arrivalQuery .wraps name receiveTime lastTime segmentIndex timestamp = .ok query := by
  unfold arrivalQuery
  rw [jitter_eq]
  exact ⟨_, rfl⟩

/-- A message goes into the gossip queue. -/
theorem addGossip_eq (s : VideoStream Cid) (receiveTime : Int64) (msg : StreamerMessage Cid) :
    ∃ query, s.addGossip .wraps receiveTime (some msg) = .ok ({ s with
      lastGossipTime := receiveTime.toUInt64
      gossips := s.gossips ++ [msg] }, query) := by
  obtain ⟨query, hquery⟩ :=
    s.exists_arrivalQuery "gossips" receiveTime s.lastGossipTime msg.count msg.timestamp
  exact ⟨query, by rw [addGossip, hquery]; rfl⟩

/-! ## The build with overflow checks -/

theorem jitter_refines (overflow : Overflow) (s : VideoStream Cid) (receiveTime : Int64)
    (lastTime : UInt64) :
    Refines (s.jitter overflow receiveTime lastTime) (s.jitter .wraps receiveTime lastTime) :=
  .ite (.refl _) (.bind (.check ..) fun _ => .bind (.check ..) fun _ => .check ..)

theorem arrivalQuery_refines (overflow : Overflow) (s : VideoStream Cid) (name : String)
    (receiveTime : Int64) (lastTime segmentIndex timestamp : UInt64) :
    Refines (s.arrivalQuery overflow name receiveTime lastTime segmentIndex timestamp)
      (s.arrivalQuery .wraps name receiveTime lastTime segmentIndex timestamp) :=
  .bind (.check ..) fun _ => .bind (jitter_refines ..) fun _ => .refl _

theorem addGossip_refines (overflow : Overflow) (s : VideoStream Cid) (receiveTime : Int64)
    (message : Option (StreamerMessage Cid)) :
    Refines (s.addGossip overflow receiveTime message)
      (s.addGossip .wraps receiveTime message) := by
  cases message with
  | none => exact .refl _
  | some msg => exact .bind (arrivalQuery_refines ..) fun _ => .refl _

theorem addSegment_refines (overflow : Overflow) (s : VideoStream Cid) (receiveTime : Int64)
    (segmentIndex timestamp : UInt64) :
    Refines (s.addSegment overflow receiveTime segmentIndex timestamp)
      (s.addSegment .wraps receiveTime segmentIndex timestamp) :=
  .bind (arrivalQuery_refines ..) fun _ => .refl _

theorem skipLoop_refines (overflow : Overflow) (half : UInt64) (segments : List UInt64) (h : Head) :
    Refines (skipLoop overflow half segments h) (skipLoop .wraps half segments h) := by
  induction segments generalizing h with
  | nil => exact .refl _
  | cons segment segments ih =>
    refine .bind (.check ..) fun limit => .ite (.bind (.refl _) fun _ => ?_) (.refl _)
    exact .bind (.check ..) fun _ => ih _

theorem skipAhead_refines (overflow : Overflow) (s : VideoStream Cid) (h : Head) :
    Refines (s.skipAhead overflow h) (s.skipAhead .wraps h) := by
  unfold skipAhead
  split
  · exact .bind (.check ..) fun _ => .ite (skipLoop_refines ..) (.refl _)
  · exact .refl _

theorem nextSegment_refines (overflow : Overflow) (s : VideoStream Cid) :
    Refines (s.nextSegment overflow) (s.nextSegment .wraps) :=
  .bind (.refl _) fun _ => .bind (.refl _) fun _ => skipAhead_refines ..

theorem advanceStream_refines (overflow : Overflow) (s : VideoStream Cid) (now : Int64) :
    Refines (s.advanceStream overflow now) (s.advanceStream .wraps now) := by
  refine .ite (.refl _) (.ite (.refl _) ?_)
  exact .bind (nextSegment_refines ..) fun _ => .bind (.check ..) fun _ => .refl _

theorem play_refines (overflow : Overflow) (s : VideoStream Cid) (now : Int64) :
    Refines (s.play overflow now) (s.play .wraps now) := by
  unfold play
  cases s.gossips <;> exact .bind (advanceStream_refines ..) fun _ => .refl _

end VideoStream

/-- A step of the player that does not panic is a step of the player of the release build. -/
theorem Player.step_refines (overflow : Overflow) (p : Player Cid) (a : Action Cid) :
    Refines (p.step overflow a) (p.step .wraps a) := by
  cases a with
  | gossip receiveTime msg => exact .bind (VideoStream.addGossip_refines ..) fun _ => .refl _
  | tick now => exact .bind (VideoStream.play_refines ..) fun _ => .refl _
  | finish task => exact .refl _
  | recv receiveTime =>
    cases hchannel : p.channel with
    | nil =>
      simp only [step, hchannel]
      exact .refl _
    | cons msg channel =>
      simp only [step, hchannel]
      exact .bind (VideoStream.addSegment_refines ..) fun _ => .refl _

/-- A message goes into the gossip queue. -/
theorem Player.step_gossip (p : Player Cid) (receiveTime : Int64) (msg : StreamerMessage Cid) :
    ∃ query, p.step .wraps (.gossip receiveTime msg) = .ok ({ p with
      stream := { p.stream with
        lastGossipTime := receiveTime.toUInt64
        gossips := p.stream.gossips ++ [msg] } }, .received msg query) := by
  obtain ⟨query, hquery⟩ := p.stream.addGossip_eq receiveTime msg
  exact ⟨query, by rw [step, hquery]; rfl⟩

end LiveTest
