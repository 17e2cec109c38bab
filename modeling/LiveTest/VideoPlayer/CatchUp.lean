import LiveTest.VideoPlayer.Conservation

/-!
# The catch-up skip of `advance_stream`

When the head of the buffer is too far from its tail, `advance_stream` skips to
mid buffer. The two subtractions from the tail are on `u64`, so they wrap for a
tail below 30 or below 15. The skip count is an `i32`.

* `advanceStream_play`: what a call plays and skips, whatever the indices, in
  terms of the wrapping subtractions.
* `nextSegment_panics_iff`: when the build with overflow checks comes to the same.
* `catchesUp_iff`: the skip is the one over the integers, with no subtraction
  below zero, exactly when the buffer has one entry or its tail is at least 30, and
  the number of the skipped entries fits in an `i32`.
* `advanceStream_of_lt_fifteen`: with a tail below 15 the call skips the whole
  buffer but for its tail.
-/

namespace LiveTest.VideoStream

open Rust

variable {Cid : Type}

/-- The test of lines 194–196: another entry is left, and the head is too far from the last. -/
def HeadTooFar (s : VideoStream Cid) : Prop :=
  2 ≤ s.segments.length ∧ s.segments.headD 0 < s.segments.getLastD 0 - s.bufferSize

instance (s : VideoStream Cid) : Decidable s.HeadTooFar := inferInstanceAs (Decidable (_ ∧ _))

/-! ## Where the skip stops -/

/-- The loop passes only entries below `limit`, its tail less `half`, and stops at an entry that is
    not below it or at the tail. -/
theorem skipLoop_stop {half limit : UInt64} {h h' : Head}
    (hlimit : ∀ last ∈ h.segments.getLast?, last - half = limit)
    (hloop : skipLoop .wraps half h.segments h = .ok h') :
    ∃ passed, h'.skipped = h.skipped ++ passed ∧ (∀ y ∈ passed, y.1 < limit) ∧
      (h'.segments = [] ∨ limit ≤ h'.segmentIdx) := by
  obtain ⟨segmentIdx, timestamp, skippedSegments, segments, timestamps, skipped⟩ := h
  dsimp only at hlimit hloop ⊢
  induction segments generalizing segmentIdx timestamp skippedSegments timestamps skipped with
  | nil =>
    rw [skipLoop, Except.ok.injEq] at hloop
    exact ⟨[], by simp [← hloop], by simp, .inl (by rw [← hloop])⟩
  | cons segment segments ih =>
    have hlast : (segment :: segments).getLast (by simp) - half = limit :=
      hlimit _ (List.getLast?_eq_getLast_of_ne_nil _)
    rw [skipLoop_cons, hlast] at hloop
    by_cases hfar : segmentIdx < limit
    · rw [if_pos hfar] at hloop
      obtain ⟨⟨time, timestamps'⟩, -, hloop⟩ := bind_eq_ok.mp hloop
      have hlimit' : ∀ last ∈ segments.getLast?, last - half = limit := by
        intro last hmem
        refine hlimit last ?_
        rw [Option.mem_def] at hmem ⊢
        rw [List.getLast?_cons, hmem]
        rfl
      obtain ⟨passed, hskipped, hpassed, hstop⟩ := ih _ _ _ _ _ hlimit' hloop
      refine ⟨(segmentIdx, timestamp) :: passed, by rw [hskipped]; simp, ?_, hstop⟩
      intro y hy
      rcases List.mem_cons.mp hy with rfl | hy
      · exact hfar
      · exact hpassed y hy
    · rw [if_neg hfar, Except.ok.injEq] at hloop
      refine ⟨[], by simp [← hloop], by simp, .inr ?_⟩
      rw [← hloop]
      exact not_lt.mp hfar

/-- What the two branches on the tail skip, for the head of the buffer of `s`. -/
theorem skipAhead_stop {s : VideoStream Cid} {h h' : Head} (hskip : s.skipAhead .wraps h = .ok h')
    (hsegs : s.segments = h.segmentIdx :: h.segments) (hnil : h.skipped = []) :
    (¬ s.HeadTooFar → h'.skipped = []) ∧
      (s.HeadTooFar → (∀ y ∈ h'.skipped, y.1 < s.segments.getLastD 0 - s.bufferSize / 2) ∧
        (h'.segments = [] ∨ s.segments.getLastD 0 - s.bufferSize / 2 ≤ h'.segmentIdx)) := by
  rw [skipAhead_eq] at hskip
  rw [HeadTooFar, hsegs, List.headD_cons]
  cases hlast : h.segments.getLast? with
  | none =>
    have hone : h.segments = [] := List.getLast?_eq_none_iff.mp hlast
    rw [hlast] at hskip
    cases hskip
    simp [hone, hnil]
  | some last =>
    have htail : (h.segmentIdx :: h.segments).getLastD 0 = last := by
      rw [List.getLastD_eq_getLast?, List.getLast?_cons, hlast]
      rfl
    have htwo : 2 ≤ (h.segmentIdx :: h.segments).length := by
      have hne : h.segments ≠ [] := by intro hone; rw [hone] at hlast; cases hlast
      have := List.length_pos_iff.mpr hne
      rw [List.length_cons]
      omega
    rw [hlast] at hskip
    dsimp only at hskip
    rw [htail]
    by_cases hfar : h.segmentIdx < last - s.bufferSize
    · rw [if_pos hfar] at hskip
      have hlimit : ∀ l ∈ h.segments.getLast?, l - s.bufferSize / 2 = last - s.bufferSize / 2 := by
        intro l hl
        rw [Option.mem_def, hlast] at hl
        cases hl
        rfl
      obtain ⟨passed, hpassed, hlt, hend⟩ := skipLoop_stop hlimit hskip
      rw [hnil, List.nil_append] at hpassed
      rw [hpassed]
      exact ⟨fun hnot => absurd ⟨htwo, hfar⟩ hnot, fun _ => ⟨hlt, hend⟩⟩
    · rw [if_neg hfar] at hskip
      cases hskip
      exact ⟨fun _ => hnil, fun hfar' => absurd hfar'.2 hfar⟩

/-- What a call that plays does. -/
structure Plays (s s' : VideoStream Cid) (advance : Advance) (x : UInt64 × UInt64) : Prop where
  played : advance.played = some x
  buffer_eq : s.buffer = advance.skipped ++ x :: s'.buffer
  reported : advance.query.reportedSkip = some (Int32.ofNat advance.skipped.length).toInt
  next : ∃ head, s.nextSegment .wraps = .ok head ∧ head.skipped = advance.skipped ∧
    head.timestamp = x.2
  /-- Everything but the queues, the played segment and the overtaken fetches stays. -/
  state_eq : s' = { s with
    segments := s'.segments
    timestamps := s'.timestamps
    stopped := 0
    currentSegment := x.1
    fetching := s.fetching.filter fun index => ¬ index < x.1 }
  stay : ¬ s.HeadTooFar → advance.skipped = []
  jump : s.HeadTooFar →
    (∀ y ∈ advance.skipped, y.1 < s.segments.getLastD 0 - s.bufferSize / 2) ∧
      (s'.buffer = [] ∨ s.segments.getLastD 0 - s.bufferSize / 2 ≤ x.1)

/-- A call that does not stall plays an entry of the buffer. -/
theorem advanceStream_play {s : VideoStream Cid} (h : s.BufferOk) (hbuf : s.buffering = 0)
    (hne : s.segments ≠ []) (now : Int64) :
    ∃ s' advance x, s.advanceStream .wraps now = .ok (s', advance) ∧ s'.BufferOk ∧
      s.Plays s' advance x := by
  obtain ⟨hlen, hsorted⟩ := h
  obtain ⟨segment, segments, hsegs⟩ := List.exists_cons_of_ne_nil hne
  obtain ⟨timestamp, timestamps, htimes⟩ := List.exists_cons_of_length_pos
    (l := s.timestamps) (by rw [← hlen, hsegs]; simp)
  obtain ⟨head, hskip, hlen', hcount, hsuf, hpairs⟩ :=
    s.skipAhead_spec ⟨segment, timestamp, 0, segments, timestamps, []⟩
      (by simpa [hsegs, htimes] using hlen) rfl
  obtain ⟨hstay, hjump⟩ := skipAhead_stop hskip hsegs rfl
  have hsorted' : head.segments.Pairwise (· ≤ ·) := by
    rw [hsegs] at hsorted
    exact (List.pairwise_cons.mp hsorted).2.sublist hsuf.sublist
  unfold advanceStream
  dsimp only
  rw [if_neg (by omega), if_neg (by simp [hsegs])]
  have hnext : s.nextSegment .wraps = .ok head := by
    rw [nextSegment, hsegs, htimes]
    exact hskip
  simp only [hnext, Overflow.sub, Overflow.check, ok_bind, pure_eq_ok]
  refine ⟨_, _, (head.segmentIdx, head.timestamp), rfl, ⟨hlen', hsorted'⟩, rfl, ?_, ?_,
    ⟨head, hnext, rfl, rfl⟩, rfl, hstay, ?_⟩
  · rw [buffer, hsegs, htimes]
    simpa [Head.pairs, buffer] using hpairs.symm
  · rw [← hcount]
    rfl
  · intro hfar
    refine ⟨(hjump hfar).1, (hjump hfar).2.imp_left fun hnil => ?_⟩
    simp [buffer, hnil]

/-! ## The decision of the checked build -/

/-- With a tail that no subtraction takes below zero, the checked loop only fails to count. -/
theorem skipLoop_panics_iff {half : UInt64} {h h' : Head}
    (hlast : ∀ last ∈ h.segments.getLast?, half ≤ last) (hcount : h.Counted)
    (hlt : h.skipped.length < 2 ^ 31) :
    skipLoop .panics half h.segments h = .ok h' ↔
      skipLoop .wraps half h.segments h = .ok h' ∧ h'.skipped.length < 2 ^ 31 := by
  obtain ⟨segmentIdx, timestamp, skippedSegments, segments, timestamps, skipped⟩ := h
  dsimp only [Head.Counted] at hlast hcount hlt ⊢
  induction segments generalizing segmentIdx timestamp skippedSegments timestamps skipped with
  | nil =>
    rw [skipLoop, skipLoop]
    refine ⟨fun h => ⟨h, ?_⟩, And.left⟩
    rw [← Except.ok.inj h]
    exact hlt
  | cons segment segments ih =>
    have htail : half ≤ (segment :: segments).getLast (by simp) :=
      hlast _ (List.getLast?_eq_getLast_of_ne_nil _)
    have hlast' : ∀ last ∈ segments.getLast?, half ≤ last := by
      intro last hmem
      refine hlast last ?_
      rw [Option.mem_def] at hmem ⊢
      rw [List.getLast?_cons, hmem]
      rfl
    rw [skipLoop, Overflow.sub_of_le _ htail, ok_bind, skipLoop_cons]
    by_cases hfar : segmentIdx < (segment :: segments).getLast (by simp) - half
    · rw [if_pos hfar, if_pos hfar]
      cases timestamps with
      | nil => simp [popFront]
      | cons time timestamps =>
        have htoInt := Int32.toInt_ofNat_of_lt hlt
        rw [← hcount] at htoInt
        simp only [popFront, ok_bind]
        by_cases hnext : skipped.length + 1 < 2 ^ 31
        · have hone : Overflow.panics.increment skippedSegments = .ok (skippedSegments + 1) :=
            Overflow.check_of_fits (by omega)
          rw [hone, ok_bind]
          exact ih segment time _ timestamps (skipped ++ [(segmentIdx, timestamp)]) hlast'
            (by simp [hcount]) (by simpa using hnext)
        · have hone : Overflow.panics.increment skippedSegments = .error .addOverflow :=
            if_neg (by omega)
          rw [hone, error_bind]
          refine iff_of_false (by simp) ?_
          rintro ⟨hloop, hlt'⟩
          -- the loop of the other build has passed more entries than an `i32` counts
          have hlimit : ∀ last ∈ segments.getLast?, last - half = segments.getLastD 0 - half := by
            intro last hmem
            rw [List.getLastD_eq_getLast?, Option.mem_def.mp hmem]
            rfl
          obtain ⟨passed, hpassed, -⟩ := skipLoop_stop (h := ⟨segment, time, skippedSegments + 1,
            segments, timestamps, skipped ++ [(segmentIdx, timestamp)]⟩) hlimit hloop
          rw [hpassed] at hlt'
          simp only [List.length_append, List.length_singleton] at hlt'
          omega
    · rw [if_neg hfar, if_neg hfar]
      refine ⟨fun h => ⟨h, ?_⟩, And.left⟩
      rw [← Except.ok.inj h]
      exact hlt

/-- The checked build decides as the other one does exactly when it has nothing to decide or can
    subtract `buffer_size` from the tail, and can count the skipped entries. -/
theorem nextSegment_panics_iff {s : VideoStream Cid} {head : Head} :
    s.nextSegment .panics = .ok head ↔ s.nextSegment .wraps = .ok head ∧
      (s.segments.length = 1 ∨ s.bufferSize ≤ s.segments.getLastD 0) ∧
      head.skipped.length < 2 ^ 31 := by
  unfold nextSegment
  cases hsegs : s.segments with
  | nil => simp [popFront]
  | cons segmentIdx segments =>
    cases htimes : s.timestamps with
    | nil => simp [popFront]
    | cons timestamp timestamps =>
      simp only [popFront, ok_bind]
      rw [skipAhead, skipAhead_eq]
      cases hlast : segments.getLast? with
      | none =>
        obtain rfl := List.getLast?_eq_none_iff.mp hlast
        simp only [pure_eq_ok, List.length_singleton, true_or, true_and]
        refine ⟨fun h => ⟨h, ?_⟩, And.left⟩
        rw [← Except.ok.inj h]
        simp
      | some last =>
        have hone : (segmentIdx :: segments).length ≠ 1 := by
          rintro hone
          rw [List.length_cons, Nat.add_eq_right, List.length_eq_zero_iff] at hone
          rw [hone] at hlast
          cases hlast
        have htail : (segmentIdx :: segments).getLastD 0 = last := by
          rw [List.getLastD_eq_getLast?, List.getLast?_cons, hlast]
          rfl
        simp only [hone, htail, false_or]
        by_cases hsize : s.bufferSize ≤ last
        · have hhalf : ∀ l ∈ segments.getLast?, s.bufferSize / 2 ≤ l := by
            intro l hl
            rw [Option.mem_def, hlast] at hl
            cases hl
            refine le_trans ?_ hsize
            rw [UInt64.le_iff_toNat_le, UInt64.toNat_div]
            exact Nat.div_le_self _ _
          rw [Overflow.sub_of_le _ hsize, ok_bind]
          simp only [hsize, true_and]
          split_ifs
          · exact skipLoop_panics_iff (h := ⟨segmentIdx, timestamp, 0, segments, timestamps, []⟩)
              hhalf rfl (by simp)
          · refine ⟨fun h => ⟨h, ?_⟩, And.left⟩
            rw [← Except.ok.inj h]
            simp
        · have hsub : Overflow.panics.sub last s.bufferSize = .error .subtractOverflow :=
            if_neg hsize
          simp [hsub, hsize]

/-! ## The skip over the integers -/

/-- The catch-up skip over the integers, for a buffer with head `h` and tail `t`: the call skips
    nothing if the head is within 30 of the tail, else it skips the entries more than 15 below the
    tail; it plays the next one, keeps the rest and reports the number of the skipped ones. Nothing
    in the decision overflows: the checked build comes to one as well. -/
def CatchesUp (s : VideoStream Cid) (now : Int64) (h t : UInt64) : Prop :=
  (∃ s' advance before x, s.advanceStream .wraps now = .ok (s', advance) ∧
    s.buffer = before ++ x :: s'.buffer ∧
    advance.played = some x ∧ s'.currentSegment = x.1 ∧
    advance.query.reportedSkip = some (before.length : ℤ) ∧
    (t.toNat ≤ h.toNat + 30 → before = []) ∧
    (h.toNat + 30 < t.toNat →
      (∀ y ∈ before, y.1.toNat + 15 < t.toNat) ∧ t.toNat ≤ x.1.toNat + 15)) ∧
  ∃ head, s.nextSegment .panics = .ok head

/-- So many entries are more than 15 below `t`. -/
def belowMiddle (s : VideoStream Cid) (t : UInt64) : ℕ :=
  s.segments.countP fun index => index.toNat + 15 < t.toNat

/-- The buffer's indices are those of `segments`. -/
theorem BufferOk.buffer_map_fst {s : VideoStream Cid} (h : s.BufferOk) :
    s.buffer.map Prod.fst = s.segments := List.map_fst_zip h.length_eq.le

/-- Its timestamps are those of `timestamps`. -/
theorem BufferOk.buffer_map_snd {s : VideoStream Cid} (h : s.BufferOk) :
    s.buffer.map Prod.snd = s.timestamps := List.map_snd_zip h.length_eq.ge

section CatchUp

variable {s : VideoStream Cid} {h t : UInt64}

/-- The wrapping test is the one over the integers when the tail is at least 30. -/
theorem headTooFar_iff (hsize : s.bufferSize = 30) (hh : s.segments.head? = some h)
    (ht : s.segments.getLast? = some t) (h30 : 30 ≤ t) :
    s.HeadTooFar ↔ h.toNat + 30 < t.toNat := by
  have hhead : s.segments.headD 0 = h := by rw [List.headD_eq_head?_getD, hh]; rfl
  have htail : s.segments.getLastD 0 = t := by rw [List.getLastD_eq_getLast?, ht]; rfl
  have hsub : (t - 30).toNat = t.toNat - 30 := UInt64.toNat_sub_of_le _ _ h30
  rw [HeadTooFar, hhead, htail, hsize, UInt64.lt_iff_toNat_lt, hsub]
  constructor
  · rintro ⟨-, hlt⟩
    omega
  · intro hlt
    refine ⟨?_, by omega⟩
    by_contra hshort
    obtain ⟨a, hone⟩ : ∃ a, s.segments = [a] := by
      refine List.length_eq_one_iff.mp ?_
      have : s.segments ≠ [] := by intro hnil; rw [hnil] at hh; cases hh
      have := List.length_pos_iff.mpr this
      omega
    obtain rfl : a = h := by simpa [hone] using hh
    obtain rfl : a = t := by simpa [hone] using ht
    omega

/-- The skipped entries are not more than those below the middle. -/
theorem length_le_belowMiddle (hok : s.BufferOk) {before rest : List (UInt64 × UInt64)}
    (hbuffer : s.buffer = before ++ rest) (hbefore : ∀ y ∈ before, y.1.toNat + 15 < t.toNat) :
    before.length ≤ s.belowMiddle t := by
  have hall : (before.map Prod.fst).countP (fun index => index.toNat + 15 < t.toNat) =
      before.length := by
    rw [← List.length_map Prod.fst, List.countP_eq_length]
    intro index hindex
    obtain ⟨y, hy, rfl⟩ := List.mem_map.mp hindex
    exact decide_eq_true (hbefore y hy)
  rw [belowMiddle, ← hok.buffer_map_fst, hbuffer, List.map_append, List.countP_append, hall]
  exact Nat.le_add_right _ _

/-- They are just those, if the next entry is not below the middle. -/
theorem belowMiddle_eq (hok : s.BufferOk) {before rest : List (UInt64 × UInt64)}
    {x : UInt64 × UInt64} (hbuffer : s.buffer = before ++ x :: rest)
    (hbefore : ∀ y ∈ before, y.1.toNat + 15 < t.toNat) (hx : t.toNat ≤ x.1.toNat + 15) :
    s.belowMiddle t = before.length := by
  refine le_antisymm ?_ (length_le_belowMiddle hok hbuffer hbefore)
  have hsorted := hok.sorted
  rw [← hok.buffer_map_fst, hbuffer, List.map_append, List.map_cons] at hsorted
  obtain ⟨-, hrest, -⟩ := List.pairwise_append.mp hsorted
  have hnone : (x.1 :: rest.map Prod.fst).countP (fun index => index.toNat + 15 < t.toNat) = 0 := by
    rw [List.countP_eq_zero]
    intro index hindex
    have hle : x.1.toNat ≤ index.toNat := by
      rcases List.mem_cons.mp hindex with rfl | hindex
      · exact le_rfl
      · exact UInt64.le_iff_toNat_le.mp ((List.pairwise_cons.mp hrest).1 index hindex)
    rw [decide_eq_true_iff]
    omega
  rw [belowMiddle, ← hok.buffer_map_fst, hbuffer, List.map_append, List.map_cons,
    List.countP_append, hnone, Nat.add_zero]
  exact List.countP_le_length.trans_eq (List.length_map _)

/-- What the call skips is what it skips over the integers, when the tail is at least 30 or there is
    one entry. -/
theorem Plays.skips (hok : s.BufferOk) (hsize : s.bufferSize = 30)
    (hh : s.segments.head? = some h) (ht : s.segments.getLast? = some t)
    (hcase : s.segments.length = 1 ∨ 30 ≤ t) {s' : VideoStream Cid} {advance : Advance}
    {x : UInt64 × UInt64} (hplays : s.Plays s' advance x) :
    (t.toNat ≤ h.toNat + 30 → advance.skipped = []) ∧
      (h.toNat + 30 < t.toNat →
        (∀ y ∈ advance.skipped, y.1.toNat + 15 < t.toNat) ∧ t.toNat ≤ x.1.toNat + 15) := by
  have htail : s.segments.getLastD 0 = t := by rw [List.getLastD_eq_getLast?, ht]; rfl
  constructor
  · intro hnear
    apply hplays.stay
    rcases hcase with hone | h30
    · rintro ⟨htwo, -⟩
      omega
    · rw [headTooFar_iff hsize hh ht h30]
      omega
  · intro hfar
    have h30 : 30 ≤ t := by
      rw [UInt64.le_iff_toNat_le]
      change 30 ≤ t.toNat
      omega
    obtain ⟨hbefore, hstop⟩ := hplays.jump ((headTooFar_iff hsize hh ht h30).mpr hfar)
    have hsub : (t - 15).toNat = t.toNat - 15 :=
      UInt64.toNat_sub_of_le _ _ (le_trans (by decide : (15 : UInt64) ≤ 30) h30)
    have hhalf : s.bufferSize / 2 = 15 := by rw [hsize]; rfl
    rw [htail, hhalf] at hbefore hstop
    refine ⟨fun y hy => ?_, ?_⟩
    · have := UInt64.lt_iff_toNat_lt.mp (hbefore y hy)
      omega
    · rcases hstop with hnil | hle
      · -- nothing is left behind the played entry, so it is the tail
        have hlast : s.segments.getLast? = some x.1 := by
          rw [← hok.buffer_map_fst, hplays.buffer_eq, hnil, List.map_append]
          exact List.getLast?_concat
        rw [hlast, Option.some.injEq] at ht
        rw [ht]
        omega
      · have := UInt64.le_iff_toNat_le.mp hle
        omega

/-- `advance_stream` skips as it does over the integers exactly when the buffer has one entry or
    its tail is at least 30, and where it has to skip, it skips fewer than 2^31 entries. -/
theorem catchesUp_iff (hok : s.BufferOk) (hsize : s.bufferSize = 30) (hbuf : s.buffering = 0)
    (hh : s.segments.head? = some h) (ht : s.segments.getLast? = some t) (now : Int64) :
    s.CatchesUp now h t ↔ (s.segments.length = 1 ∨ 30 ≤ t) ∧
      (h.toNat + 30 < t.toNat → s.belowMiddle t < 2 ^ 31) := by
  have hne : s.segments ≠ [] := by intro hnil; rw [hnil] at hh; cases hh
  have htail : s.segments.getLastD 0 = t := by rw [List.getLastD_eq_getLast?, ht]; rfl
  obtain ⟨s', advance, x, hadv, -, hplays⟩ := advanceStream_play hok hbuf hne now
  constructor
  · rintro ⟨⟨s'', advance', before, x', hadv', hbuffer, -, -, hreported, -, hfar⟩, head, hchecked⟩
    obtain ⟨-, hcase, -⟩ := nextSegment_panics_iff.mp hchecked
    rw [hsize, htail] at hcase
    refine ⟨hcase, fun hlt => ?_⟩
    rw [hadv] at hadv'
    cases hadv'
    obtain ⟨hbefore, hx⟩ := hfar hlt
    rw [belowMiddle_eq hok hbuffer hbefore hx]
    rw [hplays.reported, Option.some.injEq] at hreported
    have := (Int32.ofNat advance.skipped.length).toInt_lt
    omega
  · rintro ⟨hcase, hcount⟩
    have hcurrent : s'.currentSegment = x.1 := by rw [hplays.state_eq]
    obtain ⟨hnear, hfar⟩ := hplays.skips hok hsize hh ht hcase
    have hlt : advance.skipped.length < 2 ^ 31 := by
      rcases Nat.lt_or_ge (h.toNat + 30) t.toNat with hlt | hle
      · exact (length_le_belowMiddle hok hplays.buffer_eq (hfar hlt).1).trans_lt (hcount hlt)
      · rw [hnear hle]
        decide
    obtain ⟨head, hnext, hskipped, -⟩ := hplays.next
    refine ⟨⟨s', advance, advance.skipped, x, hadv, hplays.buffer_eq, hplays.played, hcurrent, ?_,
      hnear, hfar⟩, head, nextSegment_panics_iff.mpr ⟨hnext, ?_, ?_⟩⟩
    · rw [hplays.reported, Int32.toInt_ofNat_of_lt hlt]
    · rw [hsize, htail]
      exact hcase
    · rw [hskipped]
      exact hlt

/-- With another entry and a tail below 15 both subtractions wrap: the call skips everything
    before the tail, although no entry is 30 below it. -/
theorem advanceStream_of_lt_fifteen (hok : s.BufferOk) (hsize : s.bufferSize = 30)
    (hbuf : s.buffering = 0) (ht : s.segments.getLast? = some t) (htwo : 2 ≤ s.segments.length)
    (hlt : t < 15) (now : Int64) :
    ∃ s' advance, s.advanceStream .wraps now = .ok (s', advance) ∧ s'.currentSegment = t ∧
      s'.segments = [] ∧
      advance.query.reportedSkip = some (Int32.ofNat (s.segments.length - 1)).toInt := by
  have hne : s.segments ≠ [] := by intro hnil; rw [hnil] at ht; cases ht
  obtain ⟨s', advance, x, hadv, hok', hplays⟩ := advanceStream_play hok hbuf hne now
  have htail : s.segments.getLastD 0 = t := by rw [List.getLastD_eq_getLast?, ht]; rfl
  have hall : ∀ a ∈ s.segments, a ≤ t := by
    obtain ⟨init, hinit⟩ := List.getLast?_eq_some_iff.mp ht
    intro a ha
    have hsorted := hok.sorted
    rw [hinit] at hsorted ha
    rcases List.mem_append.mp ha with ha | ha
    · exact (List.pairwise_append.mp hsorted).2.2 a ha t (by simp)
    · rw [List.mem_singleton.mp ha]
  have hwrap : ∀ size : UInt64, size = 30 ∨ size = 15 → ∀ a ∈ s.segments, a < t - size := by
    intro size hsz a ha
    have hlow := UInt64.le_iff_toNat_le.mp (hall a ha)
    have hlt' : t.toNat < 15 := UInt64.lt_iff_toNat_lt.mp hlt
    rw [UInt64.lt_iff_toNat_lt, UInt64.toNat_sub]
    rcases hsz with rfl | rfl
    · change a.toNat < (2 ^ 64 - 30 + t.toNat) % 2 ^ 64
      omega
    · change a.toNat < (2 ^ 64 - 15 + t.toNat) % 2 ^ 64
      omega
  have hmem : x.1 ∈ s.segments := by
    rw [← hok.buffer_map_fst, hplays.buffer_eq]
    simp
  have hfar : s.HeadTooFar := by
    refine ⟨htwo, ?_⟩
    rw [htail, hsize]
    obtain ⟨a, rest, hcons⟩ := List.exists_cons_of_ne_nil hne
    exact hwrap 30 (.inl rfl) _ (by rw [hcons]; simp)
  have hrest : s'.buffer = [] := by
    refine (hplays.jump hfar).2.resolve_right fun hle => ?_
    rw [htail, hsize] at hle
    exact absurd (hwrap 15 (.inr rfl) x.1 hmem) (not_lt.mpr hle)
  have hsegs : s.segments = advance.skipped.map Prod.fst ++ [x.1] := by
    rw [← hok.buffer_map_fst, hplays.buffer_eq, hrest]
    simp
  have hx : x.1 = t := by
    rw [hsegs, List.getLast?_concat, Option.some.injEq] at ht
    exact ht
  refine ⟨s', advance, hadv, ?_, ?_, ?_⟩
  · rw [hplays.state_eq]
    exact hx
  · rw [← hok'.buffer_map_fst, hrest]
    rfl
  · rw [hplays.reported, hsegs]
    simp

end CatchUp

/-- The segments 1 and 2 are buffered: the call skips segment 1, since 2 - 30 wraps. -/
theorem not_catchesUp_example :
    ¬ CatchesUp { (new 1 1 : VideoStream ℕ) with segments := [1, 2], timestamps := [0, 0] } 0 1 2 := by
  rintro ⟨⟨s', advance, before, x, hadv, hbuffer, hplayed, -, -, hnear, -⟩, -⟩
  obtain rfl := hnear (by decide)
  have hcall : ({ (new 1 1 : VideoStream ℕ) with segments := [1, 2], timestamps := [0, 0] } :
      VideoStream ℕ).advanceStream .wraps 0 = .ok (s', advance) := hadv
  have hfirst : advance.played = some (1, 0) := by
    rw [hplayed]
    have := congrArg List.head? hbuffer
    exact this.symm
  have hsecond : (({ (new 1 1 : VideoStream ℕ) with segments := [1, 2], timestamps := [0, 0] } :
      VideoStream ℕ).advanceStream .wraps 0).toOption.map (fun r => r.2.played) =
        some (some (2, 0)) := by
    decide +kernel
  rw [hcall] at hsecond
  rw [Except.toOption, Option.map_some, hfirst] at hsecond
  cases hsecond

/-- A buffer from 10 to 50: the entries below 35 are skipped. -/
theorem catchesUp_iff_example :
    CatchesUp { (new 1 1 : VideoStream ℕ) with
      segments := [10, 34, 35, 50], timestamps := [0, 1, 2, 3] } 0 10 50 :=
  (catchesUp_iff ⟨rfl, by decide⟩ rfl rfl rfl rfl 0).mpr ⟨.inr (by decide), by decide⟩

end LiveTest.VideoStream
