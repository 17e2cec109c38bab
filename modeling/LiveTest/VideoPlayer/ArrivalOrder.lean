import LiveTest.VideoPlayer.Playback

/-!
# The order of arrival

Between two ticks the fetches end in any order. `add_segment` sorts each segment
in, so the order is not seen: only `last_segment_time` depends on it, which
`advance_stream` does not read.

* `run_arrivals`: the state after any number of arrivals.
* `arrivalOrder_irrelevant`: two orders of the same arrivals lead to the same
  queues and the same fetches, and to runs that cannot be told apart.
-/

namespace LiveTest.VideoStream

open Rust Machine

variable {Cid : Type}

/-- What a call of `add_segment` is made with: the time it reads off the clock and its arguments. -/
structure Arrival where
  receiveTime : Int64
  segmentIndex : UInt64
  timestamp : UInt64

/-- The arguments. -/
def Arrival.pair (a : Arrival) : UInt64 × UInt64 := (a.segmentIndex, a.timestamp)

/-- The calls, one for each arrival. -/
def arrivalCalls (as : List Arrival) : List (Call Cid) :=
  as.map fun a => .addSegment a.receiveTime a.segmentIndex a.timestamp

/-! ## The state after the arrivals -/

/-- A sorted buffer is its own sort. -/
theorem BufferOk.stableSort_buffer {s : VideoStream Cid} (h : s.BufferOk) :
    stableSort s.buffer = s.buffer := by
  have hsorted := h.sorted
  rw [← h.buffer_map_fst, List.pairwise_map] at hsorted
  exact stableSort_of_sorted hsorted

/-- The segments are sorted in and no longer fetched. -/
theorem run_arrivals {s : VideoStream Cid} (h : s.BufferOk) (as : List Arrival) :
    ∃ s' tr, run call s (arrivalCalls as) = .ok (s', tr) ∧ s'.BufferOk ∧
      s'.buffer = stableSort (s.buffer ++ as.map Arrival.pair) ∧
      s' = { s with
        fetching := s.fetching \ (as.map Arrival.segmentIndex).toFinset
        lastSegmentTime := s'.lastSegmentTime
        segments := s'.segments
        timestamps := s'.timestamps } := by
  induction as using List.reverseRecOn with
  | nil =>
    refine ⟨s, [], rfl, h, ?_, ?_⟩
    · rw [List.map_nil, List.append_nil, h.stableSort_buffer]
    · simp
  | append_singleton as a ih =>
    obtain ⟨t, tr, hrun, hok, hbuffer, hstate⟩ := ih
    have hcall := call_addSegment hok.length_eq a.receiveTime a.segmentIndex a.timestamp
    obtain ⟨s', query, hadd, hok', -⟩ :=
      addSegment_spec hok a.receiveTime a.segmentIndex a.timestamp
    obtain ⟨query', hadd'⟩ :=
      addSegment_eq hok.length_eq a.receiveTime a.segmentIndex a.timestamp
    rw [hadd] at hadd'
    cases hadd'
    refine ⟨_, tr ++ [(.addSegment a.receiveTime a.segmentIndex a.timestamp, none)], ?_, hok', ?_,
      ?_⟩
    · rw [arrivalCalls, List.map_append]
      exact run_concat_eq_ok.mpr ⟨t, tr, none, hrun, hcall, rfl⟩
    · rw [buffer, List.zip_unzip, hbuffer, stableSort_append_stableSort, List.append_assoc,
        List.map_append]
      rfl
    · have hfetching : (s.fetching \ (as.map Arrival.segmentIndex).toFinset).erase a.segmentIndex =
          s.fetching \ ((as ++ [a]).map Arrival.segmentIndex).toFinset := by
        ext index
        simp [and_left_comm]
      rw [hstate, ← hfetching]

/-! ## What the stream does not see -/

/-- The streams are the same but for the time of the last arrival. -/
def SameButTime (s t : VideoStream Cid) : Prop := ∃ time, t = { s with lastSegmentTime := time }

theorem advanceStream_sameButTime {s s' : VideoStream Cid} {now : Int64} {advance : Advance}
    (h : s.advanceStream .wraps now = .ok (s', advance)) (time : UInt64) :
    ({ s with lastSegmentTime := time } : VideoStream Cid).advanceStream .wraps now =
      .ok ({ s' with lastSegmentTime := time }, advance) := by
  unfold advanceStream at h ⊢
  dsimp only at h ⊢
  split_ifs at h ⊢ with hbuf hempty
  · cases h
    rfl
  · cases h
    rfl
  · obtain ⟨head, hhead, h⟩ := bind_eq_ok.mp h
    have hhead' : ({ s with lastSegmentTime := time } : VideoStream Cid).nextSegment .wraps =
        .ok head := hhead
    rw [hhead', ok_bind]
    cases h
    rfl

/-- A call does the same on both, and they stay the same but for that time. -/
theorem call_sameButTime {s t s' : VideoStream Cid} (h : s.SameButTime t) (hok : s.BufferOk)
    {c : Call Cid} {r : Option Advance} (hcall : call s c = .ok (s', r)) :
    ∃ t', call t c = .ok (t', r) ∧ s'.SameButTime t' := by
  obtain ⟨time, rfl⟩ := h
  cases c with
  | addGossip receiveTime msg =>
    rw [call_addGossip] at hcall
    cases hcall
    exact ⟨_, call_addGossip _ receiveTime msg, time, rfl⟩
  | addSegment receiveTime segmentIndex timestamp =>
    rw [call_addSegment hok.length_eq] at hcall
    cases hcall
    exact ⟨_, call_addSegment (s := { s with lastSegmentTime := time }) hok.length_eq _ _ _,
      receiveTime.toUInt64, rfl⟩
  | advanceStream now =>
    obtain ⟨⟨t, advance⟩, hadv, hcall⟩ := bind_eq_ok.mp hcall
    cases hcall
    exact ⟨_, by rw [call, advanceStream_sameButTime hadv]; rfl, time, rfl⟩
  | play now =>
    rw [call, play_eq] at hcall
    obtain ⟨⟨t, fetch, advance⟩, hplay, hcall⟩ := bind_eq_ok.mp hcall
    obtain ⟨⟨u, a⟩, hadv, hplay⟩ := bind_eq_ok.mp hplay
    cases hplay
    cases hcall
    have hsame : ({ s with lastSegmentTime := time } : VideoStream Cid).atTick (.play now) =
        { s.atTick (.play now) with lastSegmentTime := time } := by
      obtain ⟨_, _, _, gossips⟩ := s
      cases gossips <;> rfl
    refine ⟨{ s' with lastSegmentTime := time }, ?_, time, rfl⟩
    rw [call, play_eq, hsame, advanceStream_sameButTime hadv]
    rfl

/-! ## Any order -/

/-- No call panics. -/
theorem exists_call {s : VideoStream Cid} (h : s.BufferOk) (c : Call Cid) :
    ∃ s' r, call s c = .ok (s', r) ∧ s'.BufferOk := by
  by_cases hticks : c.Ticks
  · obtain ⟨s', advance, hcall, hok, -⟩ := tick_cases h hticks
    exact ⟨s', some advance, hcall, hok⟩
  · obtain ⟨s', hcall, hok, -⟩ := call_of_not_ticks h hticks
    exact ⟨s', none, hcall, hok⟩

/-- Every state that calls lead to from `new` has a sorted buffer. -/
theorem bufferOk_of_run {segmentLength simId : UInt64} {calls : List (Call Cid)}
    {s : VideoStream Cid} {tr : List (Call Cid × Option Advance)}
    (h : run call (new segmentLength simId) calls = .ok (s, tr)) : s.BufferOk := by
  refine inv_of_run (fun s _ => s.BufferOk) (bufferOk_new segmentLength simId) ?_ h
  intro s _ c s' r hok hcall
  obtain ⟨s'', r', hcall', hok'⟩ := exists_call hok c
  rw [hcall] at hcall'
  cases hcall'
  exact hok'

/-- The same arrivals in another order, at whatever times, lead to a stream that is the same but for
    the time of the last arrival. -/
theorem sameButTime_of_perm {s : VideoStream Cid} (h : s.BufferOk) {as bs : List Arrival}
    (hperm : (as.map Arrival.pair).Perm (bs.map Arrival.pair))
    (hnodup : (as.map Arrival.segmentIndex).Nodup) :
    ∃ s₁ tr₁ s₂ tr₂, run call s (arrivalCalls as) = .ok (s₁, tr₁) ∧
      run call s (arrivalCalls bs) = .ok (s₂, tr₂) ∧ s₁.BufferOk ∧ s₁.SameButTime s₂ := by
  obtain ⟨s₁, tr₁, hrun₁, hok₁, hbuffer₁, hstate₁⟩ := run_arrivals h as
  obtain ⟨s₂, tr₂, hrun₂, hok₂, hbuffer₂, hstate₂⟩ := run_arrivals h bs
  refine ⟨s₁, tr₁, s₂, tr₂, hrun₁, hrun₂, hok₁, s₂.lastSegmentTime, ?_⟩
  have hkeys : ∀ cs : List Arrival,
      (cs.map Arrival.pair).map Prod.fst = cs.map Arrival.segmentIndex := by
    intro cs
    rw [List.map_map]
    rfl
  have hbuffer : s₁.buffer = s₂.buffer := by
    rw [hbuffer₁, hbuffer₂]
    apply stableSort_append_congr _ hperm
    rwa [hkeys]
  have hsegments : s₁.segments = s₂.segments := by
    rw [← hok₁.buffer_map_fst, ← hok₂.buffer_map_fst, hbuffer]
  have htimestamps : s₁.timestamps = s₂.timestamps := by
    rw [← hok₁.buffer_map_snd, ← hok₂.buffer_map_snd, hbuffer]
  have hfetched : (as.map Arrival.segmentIndex).toFinset =
      (bs.map Arrival.segmentIndex).toFinset := by
    rw [← hkeys, ← hkeys]
    exact List.toFinset_eq_of_perm _ _ (hperm.map Prod.fst)
  rw [hstate₁, hstate₂, hsegments, htimestamps, hfetched]

/-- From every reachable state, two sequences of arrivals that are permutations of one another, with
    distinct segment indices, lead to the same queues and the same fetches; and every later run of
    calls, of `advance_stream` or of the other methods, plays, skips and stalls the same after both,
    with the same metrics. Indices that are buffered already may arrive again, and the arrivals may
    read other times off the clock. -/
theorem arrivalOrder_irrelevant {segmentLength simId : UInt64} {calls : List (Call Cid)}
    {s : VideoStream Cid} {tr : List (Call Cid × Option Advance)}
    (hrun : run call (new segmentLength simId) calls = .ok (s, tr)) {as bs : List Arrival}
    (hperm : (as.map Arrival.pair).Perm (bs.map Arrival.pair))
    (hnodup : (as.map Arrival.segmentIndex).Nodup) :
    ∃ s₁ tr₁ s₂ tr₂, run call s (arrivalCalls as) = .ok (s₁, tr₁) ∧
      run call s (arrivalCalls bs) = .ok (s₂, tr₂) ∧
      s₁.segments = s₂.segments ∧ s₁.timestamps = s₂.timestamps ∧ s₁.fetching = s₂.fetching ∧
      ∀ later, ∃ t₁ t₂ tr', run call s₁ later = .ok (t₁, tr') ∧
        run call s₂ later = .ok (t₂, tr') := by
  obtain ⟨s₁, tr₁, s₂, tr₂, hrun₁, hrun₂, hok, hsame⟩ :=
    sameButTime_of_perm (bufferOk_of_run hrun) hperm hnodup
  refine ⟨s₁, tr₁, s₂, tr₂, hrun₁, hrun₂, ?_, ?_, ?_, ?_⟩
  · obtain ⟨time, rfl⟩ := hsame
    rfl
  · obtain ⟨time, rfl⟩ := hsame
    rfl
  · obtain ⟨time, rfl⟩ := hsame
    rfl
  · refine exists_same_trace (R := fun s t => s.BufferOk ∧ s.SameButTime t) ?_ ⟨hok, hsame⟩
    rintro s t c ⟨hok, hsame⟩
    obtain ⟨s', r, hcall, hok'⟩ := exists_call hok c
    obtain ⟨t', hcall', hsame'⟩ := call_sameButTime hsame hok hcall
    exact ⟨s', t', r, hcall, hcall', hok', hsame'⟩

/-- With the segments 2 and 5 in the buffer, 3, 4 and once more 2 arrive in two orders. -/
theorem arrivalOrder_irrelevant_example :
    ∃ s tr s₁ tr₁ s₂ tr₂,
      run call (new 1 1 : VideoStream ℕ) (arrivalCalls [⟨0, 5, 4⟩, ⟨0, 2, 1⟩]) = .ok (s, tr) ∧
      s.segments = [2, 5] ∧
      run call s (arrivalCalls [⟨0, 3, 7⟩, ⟨1, 4, 8⟩, ⟨2, 2, 9⟩]) = .ok (s₁, tr₁) ∧
      run call s (arrivalCalls [⟨0, 2, 9⟩, ⟨0, 3, 7⟩, ⟨0, 4, 8⟩]) = .ok (s₂, tr₂) ∧
      s₁.segments = s₂.segments ∧ s₁.timestamps = s₂.timestamps ∧ s₁.fetching = s₂.fetching ∧
      ∀ later, ∃ t₁ t₂ tr', run call s₁ later = .ok (t₁, tr') ∧
        run call s₂ later = .ok (t₂, tr') := by
  obtain ⟨⟨s, tr⟩, hrun, hsegments⟩ := (by decide +kernel :
    ∃ r, run call (new 1 1 : VideoStream ℕ) (arrivalCalls [⟨0, 5, 4⟩, ⟨0, 2, 1⟩]) = .ok r ∧
      r.1.segments = [2, 5])
  have hperm : (List.map Arrival.pair [⟨0, 3, 7⟩, ⟨1, 4, 8⟩, ⟨2, 2, 9⟩]).Perm
      (List.map Arrival.pair [⟨0, 2, 9⟩, ⟨0, 3, 7⟩, ⟨0, 4, 8⟩]) := by decide
  obtain ⟨s₁, tr₁, s₂, tr₂, hsame⟩ := arrivalOrder_irrelevant hrun hperm (by decide)
  exact ⟨s, tr, s₁, tr₁, s₂, tr₂, hrun, hsegments, hsame⟩

end LiveTest.VideoStream
