import LiveTest.VideoPlayer.CatchUp

/-!
# When a step of the player panics

The build with overflow checks panics in the metrics of `add_gossip`, `add_segment`
and `advance_stream`, and in the skip of the latter. `Player.Fits` says of a
player when a step of it does not.

* `VideoStream.addGossip_returns_iff`, `VideoStream.addSegment_returns_iff`,
  `VideoStream.play_returns_iff`: the methods that the player calls.
* `Player.step_returns_iff`: a step of the player comes to a result in the release
  build, and in the other one exactly when what it computes fits.
-/

namespace LiveTest

open Rust

variable {Cid : Type}

namespace VideoStream

/-! ## What the methods compute -/

/-- The message or segment was sent before it came, and the two differences of its jitter fit in an
    `i64`. -/
def ArrivalFits (s : VideoStream Cid) (receiveTime : Int64) (lastTime timestamp : UInt64) : Prop :=
  timestamp ≤ receiveTime.toUInt64 ∧ (lastTime ≠ 0 →
    SubFits receiveTime lastTime.toInt64 ∧ MulFits s.segmentLength 1000 ∧
      SubFits (receiveTime - lastTime.toInt64) (s.segmentLength * 1000).toInt64)

/-- A call of `advance_stream` that plays has one entry or a tail of at least `buffer_size`, skips
    fewer than 2^31 entries, and plays one that was sent before `now`. -/
def TickFits (s : VideoStream Cid) (now : Int64) : Prop :=
  s.buffering = 0 → s.segments ≠ [] →
    (s.segments.length = 1 ∨ s.bufferSize ≤ s.segments.getLastD 0) ∧
      ∀ head, s.nextSegment .wraps = .ok head →
        head.skipped.length < 2 ^ 31 ∧ head.timestamp ≤ now.toUInt64

variable {s : VideoStream Cid}

theorem jitter_returns_iff (receiveTime : Int64) (lastTime : UInt64) :
    (∃ jitter, s.jitter .panics receiveTime lastTime = .ok jitter) ↔ (lastTime ≠ 0 →
      SubFits receiveTime lastTime.toInt64 ∧ MulFits s.segmentLength 1000 ∧
        SubFits (receiveTime - lastTime.toInt64) (s.segmentLength * 1000).toInt64) := by
  unfold jitter
  split_ifs with hzero
  · exact iff_of_true ⟨0, rfl⟩ fun hne => absurd hzero hne
  · simp [bind_eq_ok, Overflow.subSigned_eq_ok, Overflow.mul_eq_ok, hzero]

theorem arrivalQuery_returns_iff (overflow : Overflow) (name : String) (receiveTime : Int64)
    (lastTime segmentIndex timestamp : UInt64) :
    (∃ query, s.arrivalQuery overflow name receiveTime lastTime segmentIndex timestamp =
        .ok query) ↔ overflow = .wraps ∨ s.ArrivalFits receiveTime lastTime timestamp := by
  cases overflow with
  | wraps => exact iff_of_true (s.exists_arrivalQuery ..) (.inl rfl)
  | panics =>
    rw [ArrivalFits, ← jitter_returns_iff]
    simp [arrivalQuery, bind_eq_ok, Overflow.sub_eq_ok]

theorem addGossip_returns_iff (overflow : Overflow) (receiveTime : Int64)
    (msg : StreamerMessage Cid) :
    (∃ r, s.addGossip overflow receiveTime (some msg) = .ok r) ↔
      overflow = .wraps ∨ s.ArrivalFits receiveTime s.lastGossipTime msg.timestamp := by
  rw [← arrivalQuery_returns_iff overflow "gossips" receiveTime s.lastGossipTime msg.count]
  exact bind_returns_iff fun _ => ⟨_, rfl⟩

theorem addSegment_returns_iff (h : s.BufferOk) (overflow : Overflow) (receiveTime : Int64)
    (segmentIndex timestamp : UInt64) :
    (∃ r, s.addSegment overflow receiveTime segmentIndex timestamp = .ok r) ↔
      overflow = .wraps ∨ s.ArrivalFits receiveTime s.lastSegmentTime timestamp := by
  have hlen : (s.segments ++ [segmentIndex]).length = (s.timestamps ++ [timestamp]).length := by
    simp [h.length_eq]
  rw [← arrivalQuery_returns_iff overflow "blocks" receiveTime s.lastSegmentTime segmentIndex]
  refine bind_returns_iff fun query => ?_
  rw [pairSort_eq hlen]
  exact ⟨_, rfl⟩

/-- The checks are in `nextSegment` and in the latency. -/
theorem advanceStream_returns_iff (h : s.BufferOk) (overflow : Overflow) (now : Int64) :
    (∃ r, s.advanceStream overflow now = .ok r) ↔ overflow = .wraps ∨ s.TickFits now := by
  by_cases hbuffering : s.buffering = 0
  swap
  · exact iff_of_true ⟨_, if_pos (Nat.pos_of_ne_zero hbuffering)⟩
      (.inr fun hzero => absurd hzero hbuffering)
  have hplaying : ¬ s.buffering > 0 := by omega
  by_cases hempty : s.segments = []
  · exact iff_of_true ⟨_, (if_neg hplaying).trans (if_pos (by simp [hempty]))⟩
      (.inr fun _ hne => absurd hempty hne)
  obtain ⟨s', advance, x, hadv, -, hplays⟩ := advanceStream_play h hbuffering hempty now
  cases overflow with
  | wraps => exact iff_of_true ⟨_, hadv⟩ (.inl rfl)
  | panics =>
    obtain ⟨head, hnext, -⟩ := hplays.next
    have htick : s.TickFits now ↔
        (s.segments.length = 1 ∨ s.bufferSize ≤ s.segments.getLastD 0) ∧
          head.skipped.length < 2 ^ 31 ∧ head.timestamp ≤ now.toUInt64 := by
      simp [TickFits, hbuffering, hempty, hnext]
    have hreturns : (∃ r, s.advanceStream .panics now = .ok r) ↔
        ∃ head, s.nextSegment .panics = .ok head ∧ head.timestamp ≤ now.toUInt64 := by
      unfold advanceStream
      rw [if_neg hplaying, if_neg (by simp [hempty])]
      simp [bind_eq_ok, Overflow.sub_eq_ok]
    simp only [hreturns, htick, nextSegment_panics_iff, hnext, reduceCtorEq, false_or,
      Except.ok.injEq]
    constructor
    · rintro ⟨_, ⟨rfl, hcase, hlt⟩, hle⟩
      exact ⟨hcase, hlt, hle⟩
    · rintro ⟨hcase, hlt, hle⟩
      exact ⟨head, ⟨rfl, hcase, hlt⟩, hle⟩

theorem play_returns_iff (h : s.BufferOk) (overflow : Overflow) (now : Int64) :
    (∃ r, s.play overflow now = .ok r) ↔ overflow = .wraps ∨ s.TickFits now := by
  have hadvance : ∀ (gossips : List (StreamerMessage Cid)) (fetching : Finset UInt64),
      (∃ r, advanceStream overflow { s with gossips, fetching } now = .ok r) ↔
        overflow = .wraps ∨ s.TickFits now :=
    fun gossips fetching => advanceStream_returns_iff (s := { s with gossips, fetching })
      ⟨h.length_eq, h.sorted⟩ overflow now
  unfold play
  cases hgossips : s.gossips with
  | nil =>
    refine Iff.trans ?_ (hadvance s.gossips s.fetching)
    exact bind_returns_iff fun _ => ⟨_, rfl⟩
  | cons msg gossips =>
    refine Iff.trans ?_ (hadvance gossips (insert msg.count s.fetching))
    exact bind_returns_iff fun _ => ⟨_, rfl⟩

end VideoStream

/-! ## A step -/

namespace Player

/-- What the step computes fits. -/
def Fits (p : Player Cid) : Action Cid → Prop
  | .gossip receiveTime msg =>
    p.stream.ArrivalFits receiveTime p.stream.lastGossipTime msg.timestamp
  | .tick now => p.stream.TickFits now
  | .finish _ => True
  | .recv receiveTime => ∀ msg ∈ p.channel.head?,
    p.stream.ArrivalFits receiveTime p.stream.lastSegmentTime msg.timestamp

variable {p : Player Cid}

theorem step_returns_iff (h : p.stream.BufferOk) (overflow : Overflow) (a : Action Cid) :
    (∃ r, p.step overflow a = .ok r) ↔ overflow = .wraps ∨ p.Fits a := by
  cases a with
  | gossip receiveTime msg =>
    rw [Fits, ← VideoStream.addGossip_returns_iff]
    exact bind_returns_iff fun _ => ⟨_, rfl⟩
  | tick now =>
    rw [Fits, ← VideoStream.play_returns_iff h overflow now]
    refine bind_returns_iff fun ⟨stream, fetch, advance⟩ => ?_
    cases fetch <;> exact ⟨_, rfl⟩
  | finish task =>
    refine iff_of_true ?_ (.inr trivial)
    rcases p.finish_cases task with hs | ⟨_, _, _, -, hs⟩
    · exact ⟨_, hs⟩
    · exact ⟨_, hs⟩
  | recv receiveTime =>
    cases hchannel : p.channel with
    | nil =>
      simp [step, Fits, hchannel]
    | cons msg channel =>
      have hfits : p.Fits (.recv receiveTime) ↔
          p.stream.ArrivalFits receiveTime p.stream.lastSegmentTime msg.timestamp := by
        simp [Fits, hchannel]
      rw [hfits, ← VideoStream.addSegment_returns_iff h overflow receiveTime msg.count, step,
        hchannel]
      exact bind_returns_iff fun _ => ⟨_, rfl⟩

end Player

end LiveTest
