import LiveTest.VideoPlayer.CatchUp

/-!
# Runs of the video stream

A run calls the methods of a `VideoStream` in any order, starting from `new`:
the fetches end in any order, so `add_segment` comes with any index.

* `tick_cases`: what one call of `advance_stream` does, alone or from `play`.
* `Plays.le_iff`: the call plays nothing below a given index exactly when the
  skip passes every buffered entry below it.
* `forward_iff`: playback never goes backwards exactly in the runs in which
  every tick skips the buffered entries below the played segment.
* `forward_of_inOrder`: it never does as long as no segment arrives below the
  one played last.
-/

namespace LiveTest.VideoStream

open Rust Machine

variable {Cid : Type}

/-- A call of one of the methods. -/
inductive Call (Cid : Type) where
  | addGossip (receiveTime : Int64) (msg : StreamerMessage Cid)
  | addSegment (receiveTime : Int64) (segmentIndex timestamp : UInt64)
  | advanceStream (now : Int64)
  | play (now : Int64)

/-- One call in the release build, with what `advance_stream` did in it. -/
def call (s : VideoStream Cid) : Call Cid → Except Panic (VideoStream Cid × Option Advance)
  | .addGossip receiveTime msg => do
    let (s, _) ← s.addGossip .wraps receiveTime (some msg)
    return (s, none)
  | .addSegment receiveTime segmentIndex timestamp => do
    let (s, _) ← s.addSegment .wraps receiveTime segmentIndex timestamp
    return (s, none)
  | .advanceStream now => do
    let (s, advance) ← s.advanceStream .wraps now
    return (s, some advance)
  | .play now => do
    let (s, _, advance) ← s.play .wraps now
    return (s, some advance)

/-- The calls that run `advance_stream`. -/
def Call.Ticks : Call Cid → Prop
  | .advanceStream _ => True
  | .play _ => True
  | _ => False

instance : DecidablePred (Call.Ticks : Call Cid → Prop) := fun c => by
  cases c <;> unfold Call.Ticks <;> infer_instance

/-- The indices played, in the order of the calls that played them. -/
def playedIndices (tr : List (Call Cid × Option Advance)) : List UInt64 :=
  tr.filterMap fun r => r.2.bind fun advance => advance.played.map Prod.fst

/-! ## One tick -/

/-- What a call that stalls does. -/
structure Stalls (s s' : VideoStream Cid) (advance : Advance) : Prop where
  idle : 0 < s.buffering ∨ s.segments = []
  played : advance.played = none
  skipped : advance.skipped = []
  state_eq : s' = { s with
    stopped := s.stopped + 1
    buffering := if 0 < s.buffering then s.buffering - 1 else 2 }

theorem advanceStream_stall {s : VideoStream Cid} (h : 0 < s.buffering ∨ s.segments = [])
    (now : Int64) :
    ∃ s' advance, s.advanceStream .wraps now = .ok (s', advance) ∧ s.Stalls s' advance := by
  unfold advanceStream
  dsimp only
  by_cases hbuf : 0 < s.buffering
  · rw [if_pos hbuf]
    exact ⟨_, _, rfl, h, rfl, rfl, by rw [if_pos hbuf]⟩
  · have hnil : s.segments = [] := h.resolve_left hbuf
    rw [if_neg hbuf, if_pos (by rw [hnil]; rfl)]
    exact ⟨_, _, rfl, h, rfl, rfl, by rw [if_neg hbuf]⟩

/-- A call of `advance_stream` stalls or plays. -/
theorem advanceStream_cases {s : VideoStream Cid} (h : s.BufferOk) (now : Int64) :
    ∃ s' advance, s.advanceStream .wraps now = .ok (s', advance) ∧ s'.BufferOk ∧
      (s.Stalls s' advance ∨ s.buffering = 0 ∧ s.segments ≠ [] ∧ ∃ x, s.Plays s' advance x) := by
  by_cases hidle : 0 < s.buffering ∨ s.segments = []
  · obtain ⟨s', advance, hadv, hstall⟩ := advanceStream_stall hidle now
    refine ⟨s', advance, hadv, ?_, .inl hstall⟩
    rw [hstall.state_eq]
    exact ⟨h.length_eq, h.sorted⟩
  · push Not at hidle
    obtain ⟨s', advance, x, hadv, hok, hplays⟩ :=
      advanceStream_play h (Nat.le_zero.mp hidle.1) hidle.2 now
    exact ⟨s', advance, hadv, hok, .inr ⟨Nat.le_zero.mp hidle.1, hidle.2, x, hplays⟩⟩

/-- The stream as `advance_stream` finds it: `play` has taken a message off the gossip queue. -/
def atTick (s : VideoStream Cid) : Call Cid → VideoStream Cid
  | .play _ =>
    match s.gossips with
    | msg :: gossips => { s with gossips, fetching := insert msg.count s.fetching }
    | [] => s
  | _ => s

/-- `play` only takes a message into `fetching` before it advances. -/
theorem atTick_eq (s : VideoStream Cid) (c : Call Cid) :
    s.atTick c = { s with gossips := (s.atTick c).gossips, fetching := (s.atTick c).fetching } := by
  unfold atTick
  split
  · split <;> rfl
  · rfl

theorem BufferOk.atTick {s : VideoStream Cid} (h : s.BufferOk) (c : Call Cid) :
    (s.atTick c).BufferOk := by
  rw [atTick_eq]
  exact ⟨h.length_eq, h.sorted⟩

/-- `play` advances the stream from there. -/
theorem play_eq (s : VideoStream Cid) (now : Int64) :
    s.play .wraps now = do
      let (s', advance) ← (s.atTick (.play now)).advanceStream .wraps now
      return (s', s.gossips.head?, advance) := by
  unfold VideoStream.play atTick
  cases s.gossips <;> rfl

/-- Every call that ticks stalls or plays, from the stream as `advance_stream` finds it. -/
theorem tick_cases {s : VideoStream Cid} (h : s.BufferOk) {c : Call Cid} (hc : c.Ticks) :
    ∃ s' advance, call s c = .ok (s', some advance) ∧ s'.BufferOk ∧
      ((s.atTick c).Stalls s' advance ∨
        s.buffering = 0 ∧ s.segments ≠ [] ∧ ∃ x, (s.atTick c).Plays s' advance x) := by
  have hok := h.atTick c
  have hbuf : (s.atTick c).buffering = s.buffering := by rw [atTick_eq]
  have hsegs : (s.atTick c).segments = s.segments := by rw [atTick_eq]
  cases c with
  | addGossip _ _ => exact absurd hc id
  | addSegment _ _ _ => exact absurd hc id
  | advanceStream now =>
    obtain ⟨s', advance, hadv, hok', hcases⟩ := advanceStream_cases hok now
    rw [hbuf, hsegs] at hcases
    have hadv' : s.advanceStream .wraps now = .ok (s', advance) := hadv
    exact ⟨s', advance, by rw [call, hadv']; rfl, hok', hcases⟩
  | play now =>
    obtain ⟨s', advance, hadv, hok', hcases⟩ := advanceStream_cases hok now
    rw [hbuf, hsegs] at hcases
    refine ⟨s', advance, ?_, hok', hcases⟩
    rw [call, play_eq, hadv]
    rfl

theorem call_addSegment {s : VideoStream Cid} (h : s.segments.length = s.timestamps.length)
    (receiveTime : Int64) (segmentIndex timestamp : UInt64) :
    call s (.addSegment receiveTime segmentIndex timestamp) = .ok ({ s with
      fetching := s.fetching.erase segmentIndex
      lastSegmentTime := receiveTime.toUInt64
      segments := (stableSort (s.buffer ++ [(segmentIndex, timestamp)])).unzip.1
      timestamps := (stableSort (s.buffer ++ [(segmentIndex, timestamp)])).unzip.2 }, none) := by
  obtain ⟨query, hadd⟩ := addSegment_eq h receiveTime segmentIndex timestamp
  rw [call, hadd]
  rfl

theorem call_addGossip (s : VideoStream Cid) (receiveTime : Int64) (msg : StreamerMessage Cid) :
    call s (.addGossip receiveTime msg) = .ok ({ s with
      lastGossipTime := receiveTime.toUInt64
      gossips := s.gossips ++ [msg] }, none) := by
  obtain ⟨query, hquery⟩ := s.addGossip_eq receiveTime msg
  rw [call, hquery]
  rfl

/-- The other calls do not advance the stream. -/
theorem call_of_not_ticks {s : VideoStream Cid} (h : s.BufferOk) {c : Call Cid} (hc : ¬ c.Ticks) :
    ∃ s', call s c = .ok (s', none) ∧ s'.BufferOk ∧ s'.currentSegment = s.currentSegment ∧
      s'.stopped = s.stopped ∧ s'.buffering = s.buffering ∧
      ∀ e ∈ s'.segments, e ∈ s.segments ∨ ∃ r t, c = .addSegment r e t := by
  cases c with
  | addGossip receiveTime msg =>
    exact ⟨_, call_addGossip s receiveTime msg, ⟨h.length_eq, h.sorted⟩, rfl, rfl, rfl,
      fun e he => .inl he⟩
  | addSegment receiveTime segmentIndex timestamp =>
    obtain ⟨s', query, hadd, hok, -, -, hperm⟩ :=
      addSegment_spec h receiveTime segmentIndex timestamp
    obtain ⟨query', hadd'⟩ := addSegment_eq h.length_eq receiveTime segmentIndex timestamp
    rw [hadd] at hadd'
    cases hadd'
    refine ⟨_, call_addSegment h.length_eq _ _ _, hok, rfl, rfl, rfl, fun e he => ?_⟩
    have hmem : e ∈ (s.buffer ++ [(segmentIndex, timestamp)]).map Prod.fst := by
      rw [← (hperm.map Prod.fst).mem_iff, hok.buffer_map_fst]
      exact he
    rw [List.map_append, h.buffer_map_fst] at hmem
    rcases List.mem_append.mp hmem with hmem | hmem
    · exact .inl hmem
    · exact .inr ⟨receiveTime, timestamp, by rw [List.mem_singleton.mp hmem]⟩
  | advanceStream now => exact absurd trivial hc
  | play now => exact absurd trivial hc

/-! ## What a tick plays -/

/-- A sorted buffer is bounded by its last index. -/
theorem BufferOk.le_getLastD {s : VideoStream Cid} (h : s.BufferOk) {e : UInt64}
    (he : e ∈ s.segments) : e ≤ s.segments.getLastD 0 := by
  obtain ⟨init, last, hsplit⟩ :=
    (List.eq_nil_or_concat' s.segments).resolve_left (List.ne_nil_of_mem he)
  have hsorted := h.sorted
  rw [hsplit] at hsorted he ⊢
  rw [List.getLastD_eq_getLast?, List.getLast?_concat]
  rcases List.mem_append.mp he with he | he
  · exact (List.pairwise_append.mp hsorted).2.2 e he last (by simp)
  · exact (List.mem_singleton.mp he).le

/-- The skip passes `e`: it is below the middle of the buffer and is not the last index. -/
def PassedOver (s : VideoStream Cid) (e : UInt64) : Prop :=
  s.HeadTooFar ∧ e < s.segments.getLastD 0 - s.bufferSize / 2 ∧ e < s.segments.getLastD 0

instance (s : VideoStream Cid) : DecidablePred s.PassedOver :=
  fun _ => inferInstanceAs (Decidable (_ ∧ _ ∧ _))

/-- What a call plays is not below `c` exactly when the skip passes every buffered index that is. -/
theorem Plays.le_iff {s s' : VideoStream Cid} {advance : Advance} {x : UInt64 × UInt64}
    (h : s.Plays s' advance x) (hok : s.BufferOk) (c : UInt64) :
    c ≤ x.1 ↔ ∀ e ∈ s.segments, e < c → s.PassedOver e := by
  have hsegs : s.segments = advance.skipped.map Prod.fst ++ x.1 :: s'.buffer.map Prod.fst := by
    rw [← hok.buffer_map_fst, h.buffer_eq, List.map_append, List.map_cons]
  have hsorted := hok.sorted
  rw [hsegs] at hsorted
  obtain ⟨-, hrest, -⟩ := List.pairwise_append.mp hsorted
  constructor
  · intro hc e he hlt
    have hskipped : e ∈ advance.skipped.map Prod.fst := by
      rw [hsegs] at he
      rcases List.mem_append.mp he with he | he
      · exact he
      · rcases List.mem_cons.mp he with rfl | he
        · exact absurd hlt (not_lt.mpr hc)
        · have := (List.pairwise_cons.mp hrest).1 e he
          exact absurd hlt (not_lt.mpr (hc.trans this))
    obtain ⟨y, hy, rfl⟩ := List.mem_map.mp hskipped
    have hfar : s.HeadTooFar := by
      by_contra hnear
      rw [h.stay hnear] at hy
      cases hy
    have hx : x.1 ≤ s.segments.getLastD 0 := hok.le_getLastD (by rw [hsegs]; simp)
    exact ⟨hfar, (h.jump hfar).1 y hy, lt_of_lt_of_le hlt (hc.trans hx)⟩
  · intro hall
    by_contra hc
    have hlt : x.1 < c := not_le.mp hc
    obtain ⟨hfar, hhalf, hlast⟩ := hall x.1 (by rw [hsegs]; simp) hlt
    rcases (h.jump hfar).2 with hnil | hle
    · -- the skip reached the last index
      rw [hsegs, hnil, List.map_nil, List.getLastD_eq_getLast?, List.getLast?_concat] at hlast
      exact absurd hlast (lt_irrefl _)
    · exact absurd hhalf (not_lt.mpr hle)

/-! ## Playback goes forward -/

/-- The calls run without a panic, `current_segment` is the index played last, and the indices
    played never decrease. -/
def Forward (segmentLength simId : UInt64) (calls : List (Call Cid)) : Prop :=
  ∃ s tr, run call (new segmentLength simId) calls = .ok (s, tr) ∧
    s.currentSegment = (playedIndices tr).getLastD 0 ∧ (playedIndices tr).Pairwise (· ≤ ·)

/-- The tick stalls, or the skip passes every buffered entry below the segment played last. -/
def OvertakenSkipped (s : VideoStream Cid) (c : Call Cid) : Prop :=
  c.Ticks → s.buffering = 0 → ∀ e ∈ s.segments, e < s.currentSegment → s.PassedOver e

instance (s : VideoStream Cid) (c : Call Cid) : Decidable (s.OvertakenSkipped c) :=
  inferInstanceAs (Decidable (_ → _ → _))

/-- What holds at every point of a run that goes forward. -/
structure Forwarded (s : VideoStream Cid) (tr : List (Call Cid × Option Advance)) : Prop where
  bufferOk : s.BufferOk
  current : s.currentSegment = (playedIndices tr).getLastD 0
  sorted : (playedIndices tr).Pairwise (· ≤ ·)

theorem Forwarded.init (segmentLength simId : UInt64) :
    Forwarded (new segmentLength simId : VideoStream Cid) [] :=
  ⟨bufferOk_new segmentLength simId, rfl, List.Pairwise.nil⟩

theorem playedIndices_concat (tr : List (Call Cid × Option Advance)) (c : Call Cid)
    (r : Option Advance) : playedIndices (tr ++ [(c, r)]) =
      playedIndices tr ++ (r.bind fun advance => advance.played.map Prod.fst).toList := by
  rw [playedIndices, List.filterMap_append]
  cases h : r.bind fun advance => advance.played.map Prod.fst <;> simp [playedIndices, h]

/-- A sorted list stays sorted when the new last entry is not below the old one. -/
theorem pairwise_concat_iff {l : List UInt64} (h : l.Pairwise (· ≤ ·)) (x : UInt64) :
    (l ++ [x]).Pairwise (· ≤ ·) ↔ l.getLastD 0 ≤ x := by
  rw [List.pairwise_append]
  simp only [h, List.pairwise_singleton, List.mem_singleton, forall_eq, true_and]
  rcases List.eq_nil_or_concat' l with rfl | ⟨init, last, rfl⟩
  · simp
  · rw [List.getLastD_eq_getLast?, List.getLast?_concat]
    constructor
    · intro hall
      exact hall last (by simp)
    · intro hle a ha
      rcases List.mem_append.mp ha with ha | ha
      · exact ((List.pairwise_append.mp h).2.2 a ha last (by simp)).trans hle
      · rw [List.mem_singleton.mp ha]
        exact hle

section Step

variable {s : VideoStream Cid} {tr : List (Call Cid × Option Advance)}

/-- A tick that plays `x` keeps playback going forward exactly when `x` is not below the segment
    played last, and that is when the skip passes what is. -/
theorem Forwarded.play_iff (h : Forwarded s tr) {c : Call Cid} {s' : VideoStream Cid}
    {advance : Advance} {x : UInt64 × UInt64} (hplays : (s.atTick c).Plays s' advance x) :
    (playedIndices (tr ++ [(c, some advance)])).Pairwise (· ≤ ·) ↔
      ∀ e ∈ s.segments, e < s.currentSegment → s.PassedOver e := by
  have hiff := hplays.le_iff (h.bufferOk.atTick c) s.currentSegment
  rw [atTick_eq] at hiff
  rw [playedIndices_concat, Option.bind_some, hplays.played, Option.map_some, Option.toList_some,
    pairwise_concat_iff h.sorted, ← h.current]
  exact hiff

theorem Forwarded.step (h : Forwarded s tr) {c : Call Cid} (hc : s.OvertakenSkipped c) :
    ∃ s' r, call s c = .ok (s', r) ∧ Forwarded s' (tr ++ [(c, r)]) := by
  by_cases hticks : c.Ticks
  · obtain ⟨s', advance, hcall, hok, hcases⟩ := tick_cases h.bufferOk hticks
    refine ⟨s', some advance, hcall, hok, ?_, ?_⟩
    · rw [playedIndices_concat, Option.bind_some]
      rcases hcases with hstall | ⟨-, -, x, hplays⟩
      · rw [hstall.played, hstall.state_eq, atTick_eq]
        simpa using h.current
      · rw [hplays.played, hplays.state_eq]
        simp [List.getLastD_eq_getLast?]
    · rcases hcases with hstall | ⟨hbuf, -, x, hplays⟩
      · rw [playedIndices_concat, Option.bind_some, hstall.played]
        simpa using h.sorted
      · exact (h.play_iff hplays).mpr (hc hticks hbuf)
  · obtain ⟨s', hcall, hok, hcurrent, -⟩ := call_of_not_ticks h.bufferOk hticks
    refine ⟨s', none, hcall, hok, ?_, ?_⟩
    · rw [hcurrent, h.current, playedIndices_concat]
      simp
    · rw [playedIndices_concat]
      simpa using h.sorted

/-- A tick that misses the condition plays a segment below the one played last. -/
theorem Forwarded.not_pairwise (h : Forwarded s tr) {c : Call Cid}
    (hc : ¬ s.OvertakenSkipped c) : ∃ s' r, call s c = .ok (s', r) ∧
      ¬ (playedIndices (tr ++ [(c, r)])).Pairwise (· ≤ ·) := by
  rw [OvertakenSkipped] at hc
  push Not at hc
  obtain ⟨hticks, hbuf, e, he, hlt, hnot⟩ := hc
  obtain ⟨s', advance, hcall, -, hcases⟩ := tick_cases h.bufferOk hticks
  refine ⟨s', some advance, hcall, ?_⟩
  rcases hcases with hstall | ⟨-, -, x, hplays⟩
  · have hidle := hstall.idle
    rw [atTick_eq] at hidle
    rcases hidle with hpos | hnil
    · exact absurd hbuf (Nat.ne_of_gt hpos)
    · have hnil' : s.segments = [] := hnil
      rw [hnil'] at he
      cases he
  · rw [h.play_iff hplays]
    exact fun hall => hnot (hall e he hlt)

end Step

/-- Playback never goes backwards, at any point of a run, exactly when at every tick of it that
    plays the skip passes every buffered entry below the segment played last. -/
theorem forward_iff (segmentLength simId : UInt64) (calls : List (Call Cid)) :
    (∀ pre, pre <+: calls → Forward segmentLength simId pre) ↔
      Meets call OvertakenSkipped (new segmentLength simId) calls := by
  refine forall_prefix_iff_meets (fun _ => True) Forwarded (fun _ _ _ => trivial)
    (Forwarded.init segmentLength simId) ?_ ?_ ?_ trivial
  · intro s tr c h _ hc
    exact h.step hc
  · intro calls s tr hrun h
    exact ⟨s, tr, hrun, h.current, h.sorted⟩
  · rintro calls s tr c hrun h _ hc ⟨s', tr', hrun', -, hsorted⟩
    obtain ⟨s'', r, hcall, hnot⟩ := h.not_pairwise hc
    rw [run_concat_eq_ok.mpr ⟨s, tr, r, hrun, hcall, rfl⟩] at hrun'
    cases hrun'
    exact hnot hsorted

/-- Segment 5 is fetched before segment 3: it is played, and then segment 3 is. -/
theorem not_forward_example :
    ¬ Forward 1 1 [Call.addGossip 0 (⟨3, 0, [7]⟩ : StreamerMessage ℕ), .addGossip 0 ⟨5, 0, [8]⟩,
      .play 0, .play 0, .play 0, .addSegment 0 5 0, .play 0, .addSegment 0 3 0, .play 0] := by
  rintro ⟨s, tr, hrun, -, hsorted⟩
  have hplayed : (run call (new 1 1) [Call.addGossip 0 (⟨3, 0, [7]⟩ : StreamerMessage ℕ),
      .addGossip 0 ⟨5, 0, [8]⟩, .play 0, .play 0, .play 0, .addSegment 0 5 0, .play 0,
      .addSegment 0 3 0, .play 0]).toOption.map (fun r => playedIndices r.2) = some [5, 3] := by
    decide +kernel
  rw [hrun, Except.toOption, Option.map_some, Option.some.injEq] at hplayed
  rw [hplayed] at hsorted
  revert hsorted
  decide

/-! ## Segments that arrive in time -/

/-- No segment below the one played last arrives. -/
def InOrder (s : VideoStream Cid) : Call Cid → Prop
  | .addSegment _ segmentIndex _ => s.currentSegment ≤ segmentIndex
  | _ => True

/-- Playback goes forward as long as no segment arrives below the one played last: what a check
    of the index in `add_segment` would ensure. -/
theorem forward_of_inOrder {segmentLength simId : UInt64} {calls : List (Call Cid)}
    (h : Meets call InOrder (new segmentLength simId) calls) :
    Forward segmentLength simId calls := by
  have hInv := run_induction (fun _ => True)
    (fun s tr => Forwarded s tr ∧ ∀ e ∈ s.segments, s.currentSegment ≤ e)
    (fun _ _ _ => trivial) ⟨Forwarded.init segmentLength simId, by simp [new]⟩ ?_ trivial h
  · obtain ⟨s, tr, hrun, hforw, -⟩ := hInv
    exact ⟨s, tr, hrun, hforw.current, hforw.sorted⟩
  rintro s tr c ⟨hforw, hlow⟩ _ hc
  have hguard : s.OvertakenSkipped c :=
    fun _ _ e he hlt => absurd hlt (not_lt.mpr (hlow e he))
  obtain ⟨s', r, hcall, hforw'⟩ := hforw.step hguard
  refine ⟨s', r, hcall, hforw', ?_⟩
  by_cases hticks : c.Ticks
  · obtain ⟨s'', advance, hcall', hok, hcases⟩ := tick_cases hforw.bufferOk hticks
    rw [hcall] at hcall'
    cases hcall'
    rcases hcases with hstall | ⟨-, -, x, hplays⟩
    · rw [hstall.state_eq, atTick_eq]
      exact hlow
    · intro e he
      have hcurrent : s'.currentSegment = x.1 := by rw [hplays.state_eq]
      have hsorted : s.segments.Pairwise (· ≤ ·) := hforw.bufferOk.sorted
      have hbuffer : s.buffer = advance.skipped ++ x :: s'.buffer := by
        have := hplays.buffer_eq
        rwa [atTick_eq] at this
      rw [← hforw.bufferOk.buffer_map_fst, hbuffer, List.map_append, List.map_cons,
        hok.buffer_map_fst] at hsorted
      rw [hcurrent]
      exact (List.pairwise_cons.mp (List.pairwise_append.mp hsorted).2.1).1 e he
  · obtain ⟨s'', hcall', -, hcurrent, -, -, hmem⟩ := call_of_not_ticks hforw.bufferOk hticks
    rw [hcall] at hcall'
    cases hcall'
    intro e he
    rw [hcurrent]
    rcases hmem e he with he | ⟨r, t, rfl⟩
    · exact hlow e he
    · exact hc

end LiveTest.VideoStream
