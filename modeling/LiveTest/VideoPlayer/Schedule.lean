import LiveTest.VideoPlayer.Loop
import LiveTest.VideoPlayer.Stalls

/-!
# When a tick plays

* `VideoStream.Scheduled.step`: a call of `advance_stream` plays exactly when the ticks
  of the stall are a multiple of 3 and some segment that was added is neither
  played nor skipped.
* `PlayerLoop.run_calls`: the loop is one way to call the methods of a `VideoStream`.
* `schedule_of_run`: so in the loop a due tick plays exactly when the ticks of the stall
  are a multiple of 3 and some fetch that has reported is neither played nor skipped.
-/

namespace LiveTest

open Rust Machine Streaks

variable {Cid : Type}

namespace VideoStream

/-- The calls of `add_segment` in a trace. -/
def added (tr : List (Call Cid × Option Advance)) : ℕ :=
  tr.countP fun
    | (.addSegment .., _) => true
    | _ => false

/-- The segments that a call of `advance_stream` takes out of the buffer. -/
def Advance.taken (advance : Advance) : ℕ := advance.skipped.length + advance.played.toList.length

/-- The segments that were played or skipped. -/
def gone (tr : List (Call Cid × Option Advance)) : ℕ :=
  (tr.map fun e => (e.2.map Advance.taken).getD 0).sum

/-- A tick plays exactly when the stall may end and the buffer is not empty. -/
def PlaysWhen (before : List (Call Cid × Option Advance)) (_ : Call Cid) (r : Option Advance) :
    Prop :=
  ∀ advance, r = some advance →
    (advance.played.isSome ↔ 3 ∣ current (ticks before) ∧ gone before < added before)

/-- The invariant. -/
structure Scheduled (s : VideoStream Cid) (tr : List (Call Cid × Option Advance)) : Prop where
  stalls : StallsCounted s tr
  buffering_le : s.buffering ≤ 2
  added_eq : added tr = gone tr + s.segments.length
  playsWhen : EachStep PlaysWhen tr

theorem Scheduled.init (segmentLength simId : UInt64) :
    Scheduled (new segmentLength simId : VideoStream Cid) [] where
  stalls := StallsCounted.init segmentLength simId
  buffering_le := Nat.zero_le 2
  added_eq := rfl
  playsWhen := eachStep_nil _

theorem gone_concat (tr : List (Call Cid × Option Advance)) (c : Call Cid) (r : Option Advance) :
    gone (tr ++ [(c, r)]) = gone tr + (r.map Advance.taken).getD 0 := by
  simp [gone]

section Step

variable {s s' : VideoStream Cid} {tr : List (Call Cid × Option Advance)} {c : Call Cid}
  {advance : Advance}

theorem added_concat_tick (hc : c.Ticks) (r : Option Advance) : added (tr ++ [(c, r)]) = added tr := by
  cases c with
  | addGossip _ _ => exact absurd hc id
  | addSegment _ _ _ => exact absurd hc id
  | _ => simp [added]

/-- In a tick that stalls the buffer is empty, or the stall is not over. -/
theorem Scheduled.of_stalls (h : Scheduled s tr) (hc : c.Ticks) (hok : s'.BufferOk)
    (hstall : (s.atTick c).Stalls s' advance) : Scheduled s' (tr ++ [(c, some advance)]) := by
  have hstate := hstall.state_eq
  have hidle := hstall.idle
  rw [atTick_eq] at hstate hidle
  refine ⟨h.stalls.of_stalls hok hstall, ?_, ?_, eachStep_concat.mpr ⟨h.playsWhen, ?_⟩⟩
  · have := h.buffering_le
    rw [hstate]
    dsimp only
    split_ifs <;> omega
  · rw [added_concat_tick hc, gone_concat, h.added_eq, hstate]
    simp [Advance.taken, hstall.played, hstall.skipped]
  · rintro _ ⟨⟩
    rw [hstall.played]
    refine iff_of_false Bool.false_ne_true ?_
    rintro ⟨hdvd, hlt⟩
    rcases hidle with hbuffering | hsegments
    · have := h.stalls.dvd_sum
      have := h.buffering_le
      rw [← h.stalls.stopped_eq] at hdvd
      dsimp only at hbuffering
      omega
    · have := h.added_eq
      rw [hsegments, List.length_nil] at this
      omega

/-- A tick that plays takes the played segment and those it skips out of the buffer. -/
theorem Scheduled.of_plays (h : Scheduled s tr) (hc : c.Ticks) (hok : s'.BufferOk)
    (hbuffering : s.buffering = 0) (hne : s.segments ≠ []) {x : UInt64 × UInt64}
    (hplays : (s.atTick c).Plays s' advance x) : Scheduled s' (tr ++ [(c, some advance)]) := by
  have hlength : s.segments.length = advance.taken + s'.segments.length := by
    have hbuffer := congrArg List.length hplays.buffer_eq
    have hok' := h.stalls.bufferOk.atTick c
    rw [buffer, List.length_zip, ← hok'.length_eq, Nat.min_self, List.length_append,
      List.length_cons, buffer, List.length_zip, ← hok.length_eq, Nat.min_self, atTick_eq] at hbuffer
    rw [Advance.taken, hplays.played]
    simp only [Option.toList_some, List.length_singleton]
    dsimp only at hbuffer
    omega
  have hsum := h.stalls.dvd_sum
  rw [hbuffering, Nat.add_zero, h.stalls.stopped_eq] at hsum
  refine ⟨h.stalls.of_plays hok hbuffering hplays, ?_, ?_, eachStep_concat.mpr ⟨h.playsWhen, ?_⟩⟩
  · rw [hplays.state_eq, atTick_eq]
    exact h.buffering_le
  · rw [added_concat_tick hc, gone_concat, h.added_eq, hlength]
    simp only [Option.map_some, Option.getD_some]
    omega
  · rintro _ ⟨⟩
    rw [hplays.played]
    refine iff_of_true rfl ⟨hsum, ?_⟩
    rw [h.added_eq]
    exact Nat.lt_add_of_pos_right (List.length_pos_of_ne_nil hne)

/-- One call keeps the invariant. -/
theorem Scheduled.step (h : Scheduled s tr) (c : Call Cid) :
    ∃ s' r, call s c = .ok (s', r) ∧ Scheduled s' (tr ++ [(c, r)]) := by
  by_cases hticks : c.Ticks
  · obtain ⟨s', advance, hcall, hok, hcases⟩ := tick_cases h.stalls.bufferOk hticks
    refine ⟨s', some advance, hcall, ?_⟩
    rcases hcases with hstall | ⟨hbuffering, hne, x, hplays⟩
    · exact h.of_stalls hticks hok hstall
    · exact h.of_plays hticks hok hbuffering hne hplays
  · obtain ⟨s', r, hcall, hstalls⟩ := h.stalls.step c
    have hquiet : r = none ∧ s'.buffering = s.buffering ∧
        added (tr ++ [(c, r)]) + s.segments.length = added tr + s'.segments.length := by
      cases c with
      | addGossip receiveTime msg =>
        rw [call_addGossip] at hcall
        cases hcall
        exact ⟨rfl, rfl, by simp [added]⟩
      | addSegment receiveTime segmentIndex timestamp =>
        have hlength := h.stalls.bufferOk.length_eq
        have hadd := call_addSegment hlength receiveTime segmentIndex timestamp
        rw [hcall] at hadd
        cases hadd
        refine ⟨rfl, rfl, ?_⟩
        simp [added, (stableSort_perm _).length_eq, buffer, ← hlength]
        omega
      | advanceStream now => exact absurd trivial hticks
      | play now => exact absurd trivial hticks
    obtain ⟨rfl, hbuffering, hadded⟩ := hquiet
    refine ⟨s', none, hcall, hstalls, ?_, ?_, eachStep_concat.mpr ⟨h.playsWhen, ?_⟩⟩
    · rw [hbuffering]
      exact h.buffering_le
    · have hgone : gone (tr ++ [(c, none)]) = gone tr := gone_concat tr c none
      have := h.added_eq
      omega
    · rintro _ ⟨⟩

end Step

theorem scheduled_of_run (segmentLength simId : UInt64) {calls : List (Call Cid)}
    {s : VideoStream Cid} {tr : List (Call Cid × Option Advance)}
    (hrun : run call (new segmentLength simId) calls = .ok (s, tr)) : Scheduled s tr := by
  refine inv_of_run Scheduled (Scheduled.init segmentLength simId) (fun s tr c s' r h hs => ?_) hrun
  obtain ⟨s'', r', hs', h'⟩ := h.step c
  rw [hs] at hs'
  cases hs'
  exact h'

end VideoStream

/-! ## The methods that the player calls -/

/-- The call of a method in an action of the player. -/
def Player.callEntry (entry : Player.Action Cid × Player.Event Cid) :
    Option (VideoStream.Call Cid × Option VideoStream.Advance) :=
  match entry with
  | (.gossip receiveTime msg, .received _ _) => some (.addGossip receiveTime msg, none)
  | (.tick now, .advanced advance) => some (.play now, some advance)
  | (.recv receiveTime, .buffered msg _) =>
    some (.addSegment receiveTime msg.count msg.timestamp, none)
  | _ => none

/-- The player calls the methods of its stream. -/
theorem Player.run_calls {p p' : Player Cid} {is : List (Player.Action Cid)}
    {tr : List (Player.Action Cid × Player.Event Cid)}
    (hrun : run (Player.step .wraps) p is = .ok (p', tr)) :
    run VideoStream.call p.stream ((tr.filterMap callEntry).map Prod.fst) =
      .ok (p'.stream, tr.filterMap callEntry) := by
  refine run_project Player.stream callEntry (fun p a p' e hs hnone => ?_)
    (fun p a p' e c r hs hsome => ?_) hrun
  · cases a with
    | gossip receiveTime msg =>
      obtain ⟨query, hgossip⟩ := p.step_gossip receiveTime msg
      rw [hgossip] at hs
      cases hs
      cases hnone
    | tick now =>
      obtain ⟨⟨stream, fetch, advance⟩, -, hs⟩ := bind_eq_ok.mp hs
      cases fetch <;> cases hs <;> cases hnone
    | finish task =>
      rcases Player.finish_cases p task with hs' | ⟨before, msg, after, -, hs'⟩ <;> rw [hs'] at hs <;>
        cases hs <;> rfl
    | recv receiveTime =>
      cases hchannel : p.channel with
      | nil =>
        rw [Player.step_recv_nil hchannel] at hs
        cases hs
        rfl
      | cons msg channel =>
        simp only [Player.step, hchannel] at hs
        obtain ⟨⟨stream, query⟩, -, hs⟩ := bind_eq_ok.mp hs
        cases hs
        cases hnone
  · cases a with
    | gossip receiveTime msg =>
      obtain ⟨query, hgossip⟩ := p.step_gossip receiveTime msg
      rw [hgossip] at hs
      cases hs
      cases hsome
      exact VideoStream.call_addGossip ..
    | tick now =>
      obtain ⟨⟨stream, fetch, advance⟩, hplay, hs⟩ := bind_eq_ok.mp hs
      cases fetch <;> cases hs <;> cases hsome <;> simp only [VideoStream.call, hplay] <;> rfl
    | finish task =>
      rcases Player.finish_cases p task with hs' | ⟨before, msg, after, -, hs'⟩ <;> rw [hs'] at hs <;>
        cases hs <;> cases hsome
    | recv receiveTime =>
      cases hchannel : p.channel with
      | nil =>
        rw [Player.step_recv_nil hchannel] at hs
        cases hs
        cases hsome
      | cons msg channel =>
        simp only [Player.step, hchannel] at hs
        obtain ⟨⟨stream, query⟩, hadd, hs⟩ := bind_eq_ok.mp hs
        cases hs
        cases hsome
        simp only [VideoStream.call, hadd]
        rfl

/-! ## The loop -/

namespace PlayerLoop

/-- The calls of the methods in the loop. -/
def calls (tr : List (Action Cid × Player.Event Cid)) :
    List (VideoStream.Call Cid × Option VideoStream.Advance) :=
  (tr.filterMap playerEntry).filterMap Player.callEntry

theorem calls_concat (tr : List (Action Cid × Player.Event Cid))
    (entry : Action Cid × Player.Event Cid) : calls (tr ++ [entry]) = calls tr ++ calls [entry] := by
  rw [calls, List.filterMap_append, List.filterMap_append]
  rfl

theorem run_calls {l l' : PlayerLoop Cid} {is : List (Action Cid)}
    {tr : List (Action Cid × Player.Event Cid)} (hrun : run step l is = .ok (l', tr)) :
    run VideoStream.call l.player.stream ((calls tr).map Prod.fst) =
      .ok (l'.player.stream, calls tr) := Player.run_calls (run_player hrun)

/-- `add_segment` ran for the segments that were buffered. -/
theorem added_calls {tr : List (Action Cid × Player.Event Cid)} (h : EachStep Prioritised tr) :
    VideoStream.added (calls tr) = (buffered tr).length := by
  induction tr using List.reverseRecOn with
  | nil => rfl
  | append_singleton tr entry ih =>
    obtain ⟨a, e⟩ := entry
    obtain ⟨hbefore, hstep⟩ := eachStep_concat.mp h
    rw [calls_concat, VideoStream.added, List.countP_append, ← VideoStream.added,
      ← VideoStream.added, ih hbefore, buffered, buffered, List.filterMap_append, List.length_append]
    congr 1
    cases hstep <;> rfl

/-- In every run of the loop its player calls the methods of a `VideoStream`, and a tick plays
    exactly when the ticks since the last one that played are a multiple of 3 and more fetches have
    reported than segments were played or skipped. -/
theorem schedule_of_run (segmentLength simId : UInt64) {is : List (Action Cid)}
    {l : PlayerLoop Cid} {tr : List (Action Cid × Player.Event Cid)}
    (hrun : run PlayerLoop.step (.new segmentLength simId) is = .ok (l, tr)) :
    run VideoStream.call (VideoStream.new segmentLength simId) ((calls tr).map Prod.fst) =
        .ok (l.player.stream, calls tr) ∧
      EachStep (fun before _ e => ∀ advance, e = .advanced advance →
        (advance.played.isSome ↔ 3 ∣ current (VideoStream.ticks (calls before)) ∧
          VideoStream.gone (calls before) < (reported before).length)) tr := by
  have hcalls := run_calls hrun
  refine ⟨hcalls, ?_⟩
  have hplays := eachStep_of_filterMap playerEntry
    (eachStep_of_filterMap Player.callEntry (VideoStream.scheduled_of_run _ _ hcalls).playsWhen)
  have hprioritised := (accounted_of_run segmentLength simId hrun).prioritised
  rintro before a _ after rfl advance rfl
  cases hprioritised before a _ after rfl with
  | play now _ awake drained due =>
    -- the fetches that have reported are in the buffer
    have hadded := added_calls (eachStep_of_append hprioritised)
    rw [show reported before = buffered before from drained, ← hadded]
    exact hplays before _ _ after rfl (.tick now) _ rfl (.play now) _ rfl advance rfl

/-- The segment is there at the second tick, and is played at the fourth. -/
theorem schedule_of_run_example :
    ∃ l tr, run PlayerLoop.step (.new 1 0 : PlayerLoop ℕ)
        [.arrive (some ⟨1, 0, [7]⟩), .poll 0, .elapse, .poll 0, .finish 0, .elapse, .elapse, .elapse,
          .poll 0, .poll 0, .poll 0, .poll 0] = .ok (l, tr) ∧
      VideoStream.ticks (calls tr) = [false, false, false, true] ∧
      EachStep (fun before _ e => ∀ advance, e = .advanced advance →
        (advance.played.isSome ↔ 3 ∣ current (VideoStream.ticks (calls before)) ∧
          VideoStream.gone (calls before) < (reported before).length)) tr := by
  have hrun : run PlayerLoop.step (.new 1 0 : PlayerLoop ℕ)
      [.arrive (some ⟨1, 0, [7]⟩), .poll 0, .elapse, .poll 0, .finish 0, .elapse, .elapse, .elapse,
        .poll 0, .poll 0, .poll 0, .poll 0] = .ok (_, _) := rfl
  exact ⟨_, _, hrun, rfl, (schedule_of_run 1 0 hrun).2⟩

end PlayerLoop

end LiveTest
