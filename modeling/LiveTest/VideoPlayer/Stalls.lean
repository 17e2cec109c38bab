import LiveTest.Streaks
import LiveTest.VideoPlayer.Playback

/-!
# Stalls

`advance_stream` without a segment stalls for three ticks: the one that finds
the buffer empty and two more, in which it counts `buffering` down. `stopped`
counts the ticks of a stall.

* `stall_accounting`: in every run, `stopped` is the number of the ticks since
  the last one that played, `stopped + buffering` is a multiple of 3, and so is
  the length of every stall that has ended.
-/

namespace LiveTest.VideoStream

open Rust Machine Streaks

variable {Cid : Type}

/-- The calls of `advance_stream` in a trace, with whether they played a segment. -/
def ticks (tr : List (Call Cid × Option Advance)) : List Bool :=
  tr.filterMap fun r => r.2.map fun advance => advance.played.isSome

theorem ticks_concat_some (tr : List (Call Cid × Option Advance)) (c : Call Cid)
    (advance : Advance) :
    ticks (tr ++ [(c, some advance)]) = ticks tr ++ [advance.played.isSome] :=
  List.filterMap_append

theorem ticks_concat_none (tr : List (Call Cid × Option Advance)) (c : Call Cid) :
    ticks (tr ++ [(c, none)]) = ticks tr := by
  rw [ticks, List.filterMap_append]
  exact List.append_nil _

/-- The invariant. -/
structure StallsCounted (s : VideoStream Cid) (tr : List (Call Cid × Option Advance)) : Prop where
  bufferOk : s.BufferOk
  stopped_eq : s.stopped = current (ticks tr)
  dvd_sum : 3 ∣ s.stopped + s.buffering
  dvd_ended : ∀ k, Ended (ticks tr) k → 3 ∣ k

theorem StallsCounted.init (segmentLength simId : UInt64) :
    StallsCounted (new segmentLength simId : VideoStream Cid) [] where
  bufferOk := bufferOk_new segmentLength simId
  stopped_eq := rfl
  dvd_sum := dvd_zero 3
  dvd_ended k hk := absurd hk (not_ended_nil k)

section Step

variable {s s' : VideoStream Cid} {tr : List (Call Cid × Option Advance)} {c : Call Cid}
  {advance : Advance}

/-- A tick that stalls counts `stopped` up, and either counts `buffering` down or sets it to 2. -/
theorem StallsCounted.of_stalls (h : StallsCounted s tr) (hok : s'.BufferOk)
    (hstall : (s.atTick c).Stalls s' advance) :
    StallsCounted s' (tr ++ [(c, some advance)]) := by
  have hstopped : s'.stopped = s.stopped + 1 := by
    rw [hstall.state_eq, atTick_eq]
  have hbuffering : s'.buffering = if 0 < s.buffering then s.buffering - 1 else 2 := by
    rw [hstall.state_eq, atTick_eq]
  have hticks : ticks (tr ++ [(c, some advance)]) = ticks tr ++ [false] := by
    rw [ticks_concat_some, hstall.played]
    rfl
  refine ⟨hok, ?_, ?_, ?_⟩
  · rw [hstopped, hticks, current_concat_false, h.stopped_eq]
  · have hsum := h.dvd_sum
    rw [hstopped, hbuffering]
    split_ifs <;> omega
  · rw [hticks]
    exact dvd_of_ended_concat h.dvd_ended (fun hb => absurd hb Bool.false_ne_true)

/-- A tick that plays ends the stall, with `buffering` at zero. -/
theorem StallsCounted.of_plays (h : StallsCounted s tr) (hok : s'.BufferOk)
    (hbuffering : s.buffering = 0) {x : UInt64 × UInt64}
    (hplays : (s.atTick c).Plays s' advance x) :
    StallsCounted s' (tr ++ [(c, some advance)]) := by
  have hstopped : s'.stopped = 0 := by rw [hplays.state_eq]
  have hbuffering' : s'.buffering = 0 := by
    rw [hplays.state_eq, atTick_eq]
    exact hbuffering
  have hticks : ticks (tr ++ [(c, some advance)]) = ticks tr ++ [true] := by
    rw [ticks_concat_some, hplays.played]
    rfl
  refine ⟨hok, ?_, ?_, ?_⟩
  · rw [hstopped, hticks, current_concat_true]
  · rw [hstopped, hbuffering']
    exact dvd_zero 3
  · rw [hticks]
    refine dvd_of_ended_concat h.dvd_ended fun _ => ?_
    have hsum := h.dvd_sum
    rwa [hbuffering, Nat.add_zero, h.stopped_eq] at hsum

theorem StallsCounted.step (h : StallsCounted s tr) (c : Call Cid) :
    ∃ s' r, call s c = .ok (s', r) ∧ StallsCounted s' (tr ++ [(c, r)]) := by
  by_cases hticks : c.Ticks
  · obtain ⟨s', advance, hcall, hok, hcases⟩ := tick_cases h.bufferOk hticks
    refine ⟨s', some advance, hcall, ?_⟩
    rcases hcases with hstall | ⟨hbuffering, -, x, hplays⟩
    · exact h.of_stalls hok hstall
    · exact h.of_plays hok hbuffering hplays
  · obtain ⟨s', hcall, hok, -, hstopped, hbuffering, -⟩ := call_of_not_ticks h.bufferOk hticks
    refine ⟨s', none, hcall, hok, ?_, ?_, ?_⟩
    · rw [hstopped, ticks_concat_none, h.stopped_eq]
    · rw [hstopped, hbuffering]
      exact h.dvd_sum
    · rw [ticks_concat_none]
      exact h.dvd_ended

end Step

/-- In every reachable state `stopped` is the number of the calls of `advance_stream` since the last
    one that played a segment, or since the start, and `stopped + buffering` is a multiple of 3.
    Every stall that has ended took a positive multiple of 3 ticks. -/
theorem stall_accounting (segmentLength simId : UInt64) (calls : List (Call Cid)) :
    ∃ s tr, run call (new segmentLength simId) calls = .ok (s, tr) ∧
      s.stopped = current (ticks tr) ∧ 3 ∣ s.stopped + s.buffering ∧
      ∀ k, Ended (ticks tr) k → 0 < k ∧ 3 ∣ k := by
  obtain ⟨s, tr, hrun, h⟩ := run_induction (fun _ => True) StallsCounted (fun _ _ _ => trivial)
    (StallsCounted.init segmentLength simId) (fun s tr c h _ _ => h.step c) trivial
    (meets_true calls)
  exact ⟨s, tr, hrun, h.stopped_eq, h.dvd_sum, fun k hk => ⟨hk.1, h.dvd_ended k hk⟩⟩

end LiveTest.VideoStream
