import LiveTest.Service.Schedule

/-!
# The sends over whole runs

Runs of the service over `BlockAdd` commands and bitswap events. The history of
a run is its trace: `InFlight` is read off the sends and the cancels in it, and
`calls` are the calls that it makes on the block exchange.

* `sendSlots`: `pending_send_block` is what is in flight, never more than the
  cap, and no pair is sent twice.
* `inFlight_wanted`: what is in flight is still yielded by the store.
* `sends_answer_oldest`: where no block is added while another cid waits for
  data, every send is the oldest eligible want, with the right bytes.
* `noneStranded_iff`: a want for a held block is left with nothing in flight
  exactly when a `BlockAdd` made it eligible, because `BlockAdd` does not send.
-/

namespace LiveTest

open Rust Machine

variable {L : Libp2p}

/-! ## The history -/

/-- The calls that the inputs make on the block exchange. -/
def calls (is : List (Input L)) : List (BlockExchange.Op L.PeerId L.Cid) := is.filterMap Input.op

/-- The pairs of the blocks that a step sends. -/
def sentPairs (out : List (Output L)) : List (L.PeerId × L.Cid) :=
  out.filterMap fun
    | .sendBlock peer block => some (peer, block.cid)
    | _ => none

theorem mem_sentPairs {out : List (Output L)} {w : L.PeerId × L.Cid} :
    w ∈ sentPairs out ↔ ∃ block, .sendBlock w.1 block ∈ out ∧ block.cid = w.2 := by
  unfold sentPairs
  rw [List.mem_filterMap]
  constructor
  · rintro ⟨o, ho, heq⟩
    cases o with
    | sendBlock peer block =>
      cases heq
      exact ⟨block, ho, rfl⟩
    | _ => cases heq
  · rintro ⟨block, ho, hcid⟩
    exact ⟨_, ho, congrArg some (Prod.ext rfl hcid)⟩

/-- A block was sent for the pair, with no `ReceivedCancel` of it since. -/
def InFlight (tr : List (Input L × List (Output L))) (w : L.PeerId × L.Cid) : Prop :=
  ∃ tr₁ i out tr₂, tr = tr₁ ++ (i, out) :: tr₂ ∧ w ∈ sentPairs out ∧ ∀ e ∈ tr₂, ¬ e.1.Cancels w

/-- The pair is in flight when the step of `i` sends: a cancel has already taken effect. -/
def InFlightAt (before : List (Input L × List (Output L))) (i : Input L)
    (w : L.PeerId × L.Cid) : Prop := InFlight before w ∧ ¬ i.Cancels w

theorem calls_concat {is : List (Input L)} {i : Input L} {op : BlockExchange.Op L.PeerId L.Cid}
    (hi : i.op = some op) : calls (is ++ [i]) = calls is ++ [op] := by
  rw [calls, List.filterMap_append, List.filterMap_cons_some hi]
  rfl

theorem mem_calls {is : List (Input L)} {op : BlockExchange.Op L.PeerId L.Cid} :
    op ∈ calls is ↔ ∃ i ∈ is, i.op = some op := List.mem_filterMap

theorem sort_not_mem_calls (is : List (Input L)) : .insertionSortWants ∉ calls is := by
  rw [mem_calls]
  rintro ⟨i, -, hi⟩
  unfold Input.op at hi
  split at hi <;> cases hi

theorem not_inFlight_nil (w : L.PeerId × L.Cid) : ¬ InFlight [] w := by
  rintro ⟨tr₁, i, out, tr₂, h, -⟩
  simp at h

/-- A step adds the pairs it sends, after its cancel has taken effect. -/
theorem inFlight_concat {tr : List (Input L × List (Output L))} {i : Input L}
    {out : List (Output L)} {w : L.PeerId × L.Cid} :
    InFlight (tr ++ [(i, out)]) w ↔ w ∈ sentPairs out ∨ InFlightAt tr i w := by
  constructor
  · rintro ⟨tr₁, j, out', tr₂, htr, hw, hno⟩
    induction tr₂ using List.reverseRecOn with
    | nil =>
      obtain ⟨rfl, h⟩ := List.append_inj' htr rfl
      cases h
      exact .inl hw
    | append_singleton tr₂ e _ =>
      rw [← List.cons_append, ← List.append_assoc] at htr
      obtain ⟨rfl, h⟩ := List.append_inj' htr rfl
      cases h
      refine .inr ⟨⟨tr₁, j, out', tr₂, rfl, hw, fun e he => hno e ?_⟩, hno (i, out) ?_⟩
      · exact List.mem_append_left _ he
      · simp
  · rintro (hw | ⟨⟨tr₁, j, out', tr₂, rfl, hw, hno⟩, hi⟩)
    · exact ⟨tr, i, out, [], rfl, hw, by simp⟩
    · refine ⟨tr₁, j, out', tr₂ ++ [(i, out)], by simp, hw, fun e he => ?_⟩
      rcases List.mem_append.mp he with he | he
      · exact hno e he
      · rw [List.mem_singleton.mp he]
        exact hi

/-! ## The invariant -/

/-- A step sends each pair once, and no pair that is in flight. -/
def SendsNew (before : List (Input L × List (Output L))) (i : Input L) (out : List (Output L)) :
    Prop := (sentPairs out).Nodup ∧ ∀ w ∈ sentPairs out, ¬ InFlightAt before i w

/-- The invariant of the runs over the inputs of the block exchange. -/
structure Sending (maxConcurrentSend : ℕ) (s : System L) (tr : List (Input L × List (Output L))) :
    Prop where
  wellFormed : s.service.blockExchange.WellFormed
  noWaiter : ∀ c, s.service.pendingGetBlock c = none
  cap_eq : s.service.maxConcurrentSend = maxConcurrentSend
  mem_pending : ∀ w, w ∈ s.service.pendingSendBlock ↔ InFlight tr w
  card_le : s.service.pendingSendBlock.card ≤ maxConcurrentSend
  held : ∀ w ∈ s.service.pendingSendBlock,
    w ∈ s.service.blockExchange.wants ∧ s.service.blockExchange.getBlock w.2 ≠ none
  sends_new : EachStep SendsNew tr

theorem Sending.init (maxConcurrentSend : ℕ) :
    Sending maxConcurrentSend (System.new maxConcurrentSend : System L) [] where
  wellFormed := BlockExchange.WellFormed.default
  noWaiter := fun _ => rfl
  cap_eq := rfl
  mem_pending := fun w => iff_of_false (Finset.notMem_empty w) (not_inFlight_nil w)
  card_le := Nat.zero_le _
  held := fun w hw => absurd hw (Finset.notMem_empty w)
  sends_new := eachStep_nil _

section Step

variable {maxConcurrentSend : ℕ} {s : System L} {tr : List (Input L × List (Output L))}
  {i : Input L} {op : BlockExchange.Op L.PeerId L.Cid}
  {store : BlockExchange L.PeerId L.Cid} {r : Option Bool}
  {wanted : List (L.PeerId × Block L.Cid)} {pending : Finset (L.PeerId × L.Cid)}
  {out : List (Output L)}

theorem Sending.mem_freed (h : Sending maxConcurrentSend s tr) {w : L.PeerId × L.Cid} :
    w ∈ i.freed s.service.pendingSendBlock ↔ InFlightAt tr i w := by
  rw [LiveTest.mem_freed, h.mem_pending, InFlightAt]

/-- A pair that stays in flight stays wanted, and its block held. -/
theorem Sending.freed_held (h : Sending maxConcurrentSend s tr) (hi : i.op = some op)
    (hstep : BlockExchange.step s.service.blockExchange op = .ok (store, r))
    {w : L.PeerId × L.Cid} (hw : w ∈ i.freed s.service.pendingSendBlock) :
    w ∈ store.wants ∧ store.getBlock w.2 ≠ none := by
  obtain ⟨hpend, hcancel⟩ := LiveTest.mem_freed.mp hw
  obtain ⟨hwant, hheld⟩ := h.held w hpend
  refine BlockExchange.step_keeps_held h.wellFormed hstep hwant hheld ?_ ?_ ?_
  · rintro rfl
    unfold Input.op at hi
    split at hi <;> cases hi
  · rintro rfl
    exact hcancel hi
  · rintro rfl
    unfold Input.op at hi
    split at hi <;> cases hi

/-- The step of an input of the block exchange keeps the invariant. -/
theorem Sending.exchange (h : Sending maxConcurrentSend s tr) (hi : i.op = some op)
    (hstep : BlockExchange.step s.service.blockExchange op = .ok (store, r))
    (hwf : store.WellFormed) (hwanted : store.iterWantedBlocks = .ok wanted)
    (hsch : Scheduled i s.service.maxConcurrentSend s.service.pendingSendBlock wanted pending out) :
    Sending maxConcurrentSend { s with service := { s.service with
      blockExchange := store, pendingSendBlock := pending } } (tr ++ [(i, out)]) := by
  have hheld := fun w => h.freed_held (w := w) hi hstep
  have hcap := h.card_le
  cases hsch with
  | idle _ =>
    refine ⟨hwf, h.noWaiter, h.cap_eq, fun w => ?_, ?_, hheld, ?_⟩
    · rw [inFlight_concat, ← h.mem_freed]
      simp [sentPairs]
    · exact (Finset.card_filter_le _ _).trans hcap
    · exact eachStep_concat.mpr ⟨h.sends_new, by simp [SendsNew, sentPairs]⟩
  | sends before after peer block tries hw first new =>
    refine ⟨hwf, h.noWaiter, h.cap_eq, fun w => ?_, ?_, ?_, ?_⟩
    · rw [inFlight_concat, ← h.mem_freed]
      simp [sentPairs]
    · have hlt := card_freed_lt (h.cap_eq.symm ▸ hcap) tries
      rw [h.cap_eq] at hlt
      exact (Finset.card_insert_le _ _).trans hlt
    · intro w hmem
      rcases Finset.mem_insert.mp hmem with rfl | hmem
      · have := (BlockExchange.mem_iterWantedBlocks hwf hwanted).mp
          (show (peer, block) ∈ wanted by rw [hw]; simp)
        exact ⟨this.1, by rw [this.2]; simp⟩
      · exact hheld w hmem
    · refine eachStep_concat.mpr ⟨h.sends_new, by simp [sentPairs], ?_⟩
      intro w hmem
      rw [← h.mem_freed]
      simp only [sentPairs, List.filterMap_cons, List.filterMap_nil, List.mem_singleton] at hmem
      rwa [hmem]

theorem Sending.step (h : Sending maxConcurrentSend s tr) (hi : i.IsExchange) :
    ∃ s' out, s.step i = .ok (s', out) ∧ Sending maxConcurrentSend s' (tr ++ [(i, out)]) := by
  obtain ⟨op, hop⟩ := Option.ne_none_iff_exists'.mp hi
  obtain ⟨store, r, wanted, pending, out, hstep, hwf, hwanted, hsch, hs⟩ :=
    step_exchange h.wellFormed h.noWaiter hop
  exact ⟨_, out, hs, h.exchange hop hstep hwf hwanted hsch⟩

end Step

theorem exchange_concat (is : List (Input L)) (i : Input L)
    (h : ∀ j ∈ is ++ [i], j.IsExchange) : ∀ j ∈ is, j.IsExchange :=
  fun j hj => h j (List.mem_append_left _ hj)

/-- Runs over the inputs of the block exchange do not panic and keep the invariant. -/
theorem exists_sending_run (maxConcurrentSend : ℕ) {is : List (Input L)}
    (his : ∀ i ∈ is, i.IsExchange) :
    ∃ s tr, run System.step (System.new maxConcurrentSend) is = .ok (s, tr) ∧
      Sending maxConcurrentSend s tr :=
  run_induction (fun is => ∀ i ∈ is, i.IsExchange) (Sending maxConcurrentSend) exchange_concat
    (Sending.init maxConcurrentSend) (fun s tr i h hadm _ => h.step (hadm i (by simp))) his
    (meets_true is)

/-! ## Slots -/

/-- `pending_send_block` is exactly what is in flight, it never exceeds the cap, and no block is
    sent for a pair that is in flight. -/
theorem sendSlots (maxConcurrentSend : ℕ) {is : List (Input L)} (his : ∀ i ∈ is, i.IsExchange) :
    ∃ s tr, run System.step (System.new maxConcurrentSend) is = .ok (s, tr) ∧
      (∀ w, w ∈ s.service.pendingSendBlock ↔ InFlight tr w) ∧
      s.service.pendingSendBlock.card ≤ maxConcurrentSend ∧ EachStep SendsNew tr := by
  obtain ⟨s, tr, hrun, h⟩ := exists_sending_run maxConcurrentSend his
  exact ⟨s, tr, hrun, h.mem_pending, h.card_le, h.sends_new⟩

theorem sendSlots_example : ∃ s tr,
    run System.step (System.new 1 : System Libp2p.nat)
      [.receivedWant 0 1 0, .receivedWant 2 1 0, .receivedBlock 5 ⟨[7], 1⟩, .receivedCancel 0 1] =
        .ok (s, tr) ∧
      (∀ w, w ∈ s.service.pendingSendBlock ↔ InFlight tr w) ∧
      s.service.pendingSendBlock.card ≤ 1 ∧ EachStep SendsNew tr :=
  sendSlots 1 (by decide)

/-! ## In flight and wanted -/

/-- After a `ReceivedCancel` the store has no want of the pair. -/
theorem not_wanted_of_cancel {maxConcurrentSend : ℕ} {is : List (Input L)}
    (his : ∀ i ∈ is, i.IsExchange) {p : L.PeerId} {c : L.Cid} {s : System L}
    {tr : List (Input L × List (Output L))}
    (hrun : run System.step (System.new maxConcurrentSend) (is ++ [.receivedCancel p c]) =
      .ok (s, tr)) : (p, c) ∉ s.service.blockExchange.wants := by
  obtain ⟨t, tr', out, hrun', hs, -⟩ := run_concat_eq_ok.mp hrun
  obtain ⟨t', tr'', hrun'', h⟩ := exists_sending_run maxConcurrentSend his
  rw [hrun'] at hrun''
  cases hrun''
  obtain ⟨store, r, wanted, pending, out', hstep, -, -, -, hs'⟩ :=
    step_exchange h.wellFormed h.noWaiter (i := .receivedCancel p c) rfl
  rw [hs'] at hs
  cases hs
  obtain ⟨store', hstep', -, -, hwants⟩ :=
    BlockExchange.step_of_not_addBlock h.wellFormed (.removeWant p c) (by simp)
  rw [hstep'] at hstep
  cases hstep
  rw [hwants (by simp), BlockExchange.Op.wantsAfter, List.mem_filter]
  simp

/-- Every pair in flight is yielded by `iter_wanted_blocks`, its want and its block are in the
    store, and right after its `ReceivedCancel` it is neither in flight nor wanted. -/
theorem inFlight_wanted (maxConcurrentSend : ℕ) {is : List (Input L)}
    (his : ∀ i ∈ is, i.IsExchange) :
    ∃ s tr wanted, run System.step (System.new maxConcurrentSend) is = .ok (s, tr) ∧
      s.service.blockExchange.iterWantedBlocks = .ok wanted ∧
      ∀ p c, ∃ who, s.service.blockExchange.iterWhoWantBlock c = .ok who ∧
        ((p, c) ∈ s.service.pendingSendBlock → p ∈ who ∧
          ∃ b, (p, b) ∈ wanted ∧ b.cid = c ∧ s.service.blockExchange.getBlock c = some b) ∧
        (is.getLast? = some (.receivedCancel p c) →
          (p, c) ∉ s.service.pendingSendBlock ∧ p ∉ who ∧ ∀ b, (p, b) ∈ wanted → b.cid ≠ c) := by
  obtain ⟨s, tr, hrun, h⟩ := exists_sending_run maxConcurrentSend his
  have hwanted := BlockExchange.iterWantedBlocks_eq h.wellFormed
  refine ⟨s, tr, _, hrun, hwanted, fun p c =>
    ⟨_, BlockExchange.iterWhoWantBlock_eq h.wellFormed c, fun hmem => ?_, fun hlast => ?_⟩⟩
  · obtain ⟨hwant, hheld⟩ := h.held (p, c) hmem
    exact ⟨List.mem_map.mpr ⟨(p, c), by simpa using hwant, rfl⟩,
      BlockExchange.exists_mem_iterWantedBlocks h.wellFormed hwanted hwant hheld⟩
  · obtain ⟨earlier, rfl⟩ := List.getLast?_eq_some_iff.mp hlast
    have hnot := not_wanted_of_cancel (exchange_concat _ _ his) hrun
    refine ⟨fun hmem => hnot (h.held _ hmem).1, fun hwho => ?_, fun b hb hc => ?_⟩
    · obtain ⟨⟨p', c'⟩, hw, rfl⟩ := List.mem_map.mp hwho
      obtain ⟨hmem, hc⟩ := List.mem_filter.mp hw
      obtain rfl : c' = c := of_decide_eq_true hc
      exact hnot hmem
    · have := ((BlockExchange.mem_iterWantedBlocks h.wellFormed hwanted).mp hb).1
      exact hnot (hc ▸ this)

/-- The peer that cancels gives its slot to the other one. -/
theorem inFlight_wanted_example : ∃ s tr,
    run System.step (System.new 1 : System Libp2p.nat)
      [.receivedWant 0 1 0, .receivedWant 2 1 0, .receivedBlock 5 ⟨[7], 1⟩, .receivedCancel 0 1] =
        .ok (s, tr) ∧ (0, 1) ∉ s.service.pendingSendBlock := by
  have his : ∀ i ∈ ([.receivedWant 0 1 0, .receivedWant 2 1 0, .receivedBlock 5 ⟨[7], 1⟩,
      .receivedCancel 0 1] : List (Input Libp2p.nat)), i.IsExchange := by decide
  obtain ⟨s, tr, wanted, hrun, -, h⟩ := inFlight_wanted 1 his
  obtain ⟨who, -, -, hcancel⟩ := h 0 1
  exact ⟨s, tr, hrun, (hcancel rfl).1⟩

/-! ## The oldest eligible want -/

/-- What a send should be: the peer's want has been received and not cancelled, the block was added
    or received, the pair is not in flight, and every earlier outstanding want for a block that was
    added or received is. -/
def AnswersOldest (before : List (Input L × List (Output L))) (i : Input L)
    (out : List (Output L)) : Prop :=
  ∀ p b, .sendBlock p b ∈ out →
    .addBlock b ∈ calls (before.map Prod.fst ++ [i]) ∧ ¬ InFlightAt before i (p, b.cid) ∧
    ∃ earlier later,
      BlockExchange.outstanding (calls (before.map Prod.fst ++ [i])) =
        earlier ++ (p, b.cid) :: later ∧
      ∀ w ∈ earlier, (∃ b', .addBlock b' ∈ calls (before.map Prod.fst ++ [i]) ∧ b'.cid = w.2) →
        InFlightAt before i w

/-- The guard of a step: a `BlockAdd` or `ReceivedBlock` is of a block that is held, or no cid
    other than the block's waits for data. -/
def StoreAligned (s : System L) (i : Input L) : Prop :=
  ∀ op ∈ i.op, BlockExchange.DataAligned s.service.blockExchange op

instance (s : System L) (i : Input L) : Decidable (StoreAligned s i) :=
  inferInstanceAs (Decidable (∀ op ∈ i.op, _))

/-- The invariant of the aligned runs: the store is what the calls say. -/
structure Tracking (maxConcurrentSend : ℕ) (s : System L)
    (tr : List (Input L × List (Output L))) : Prop extends Sending maxConcurrentSend s tr where
  aligned : ∃ ctr, BlockExchange.Aligned s.service.blockExchange ctr ∧
    ctr.map Prod.fst = calls (tr.map Prod.fst)
  wants_eq : s.service.blockExchange.wants = BlockExchange.outstanding (calls (tr.map Prod.fst))
  answers : EachStep AnswersOldest tr

/-- The store after a guarded call is what the calls say. -/
theorem Tracking.store {maxConcurrentSend : ℕ} {s : System L}
    {tr : List (Input L × List (Output L))} (h : Tracking maxConcurrentSend s tr) {i : Input L}
    {op : BlockExchange.Op L.PeerId L.Cid} (hi : i.op = some op) (hguard : StoreAligned s i)
    {store : BlockExchange L.PeerId L.Cid} {r : Option Bool}
    (hstep : BlockExchange.step s.service.blockExchange op = .ok (store, r)) :
    (∃ ctr, BlockExchange.Aligned store ctr ∧
      ctr.map Prod.fst = calls (tr.map Prod.fst ++ [i])) ∧
    store.wants = BlockExchange.outstanding (calls (tr.map Prod.fst ++ [i])) := by
  have hop := hguard op hi
  have hsort : op ≠ .insertionSortWants := by
    rintro rfl
    exact sort_not_mem_calls [i] (mem_calls.mpr ⟨i, by simp, hi⟩)
  obtain ⟨ctr, hal, hctr⟩ := h.aligned
  obtain ⟨store', r', hstep', hal'⟩ := hal.step hop
  obtain ⟨store'', r'', hstep'', -, hwants⟩ :=
    BlockExchange.step_wants h.wellFormed hsort (hop.wantsKept h.wellFormed)
  rw [hstep'] at hstep
  cases hstep
  rw [hstep'] at hstep''
  cases hstep''
  rw [calls_concat hi]
  refine ⟨⟨_, hal', by rw [List.map_append, hctr]; rfl⟩, ?_⟩
  rw [hwants, BlockExchange.outstanding_concat, h.wants_eq]

/-- What the step sends, when the store is what the calls say. -/
theorem Scheduled.answersOldest {maxConcurrentSend : ℕ} {s : System L}
    {tr : List (Input L × List (Output L))} (h : Sending maxConcurrentSend s tr) {i : Input L}
    {store : BlockExchange L.PeerId L.Cid} {wanted : List (L.PeerId × Block L.Cid)}
    {pending : Finset (L.PeerId × L.Cid)} {out : List (Output L)}
    {ctr : List (BlockExchange.Op L.PeerId L.Cid × Option Bool)}
    (hal : BlockExchange.Aligned store ctr)
    (hctr : ctr.map Prod.fst = calls (tr.map Prod.fst ++ [i]))
    (hwants : store.wants = BlockExchange.outstanding (calls (tr.map Prod.fst ++ [i])))
    (hwanted : store.iterWantedBlocks = .ok wanted)
    (hsch : Scheduled i s.service.maxConcurrentSend s.service.pendingSendBlock wanted pending out) :
    AnswersOldest tr i out := by
  cases hsch with
  | idle _ => intro p b hmem; simp at hmem
  | sends before after peer block tries hw first new =>
    intro p b hmem
    obtain ⟨rfl, rfl⟩ : p = peer ∧ b = block := by simpa using hmem
    rw [hw] at hwanted
    obtain ⟨-, hget⟩ := (BlockExchange.mem_iterWantedBlocks hal.wellFormed hwanted).mp
      (show (p, b) ∈ before ++ (p, b) :: after by simp)
    obtain ⟨earlier, later, hsplit, hbefore⟩ :=
      BlockExchange.iterWantedBlocks_split hal.wellFormed hwanted
    refine ⟨?_, fun hfl => new (h.mem_freed.mpr hfl), earlier, later, hwants ▸ hsplit, ?_⟩
    · -- the stored block is the first one added with that cid
      rw [hal.getBlock_eq, hctr] at hget
      obtain ⟨data, hdata, heq⟩ := Option.map_eq_some_iff.mp hget
      obtain ⟨b', hb', hc, rfl⟩ := BlockExchange.exists_of_firstAdded hdata
      rwa [show b = b' by rw [← heq, ← hc]]
    · rintro w hw' ⟨b', hb', hc⟩
      have hheld : store.getBlock w.2 ≠ none := fun hnone => by
        rw [hal.getBlock_eq_none_iff, hctr] at hnone
        exact hnone b' hb' hc
      obtain ⟨b'', hmem'', hc''⟩ := hbefore w hw' hheld
      have := first _ hmem''
      rw [hc''] at this
      exact h.mem_freed.mp this

theorem Tracking.init (maxConcurrentSend : ℕ) :
    Tracking maxConcurrentSend (System.new maxConcurrentSend : System L) [] where
  toSending := Sending.init maxConcurrentSend
  aligned := ⟨[], BlockExchange.Aligned.init, rfl⟩
  wants_eq := rfl
  answers := eachStep_nil _

theorem Tracking.step {maxConcurrentSend : ℕ} {s : System L}
    {tr : List (Input L × List (Output L))} (h : Tracking maxConcurrentSend s tr) {i : Input L}
    (hi : i.IsExchange) (hguard : StoreAligned s i) :
    ∃ s' out, s.step i = .ok (s', out) ∧ Tracking maxConcurrentSend s' (tr ++ [(i, out)]) := by
  obtain ⟨op, hop⟩ := Option.ne_none_iff_exists'.mp hi
  obtain ⟨store, r, wanted, pending, out, hstep, hwf, hwanted, hsch, hs⟩ :=
    step_exchange h.wellFormed h.noWaiter hop
  obtain ⟨⟨ctr, hal, hctr⟩, hwants⟩ := h.store hop hguard hstep
  have hcalls : (tr ++ [(i, out)]).map Prod.fst = tr.map Prod.fst ++ [i] := List.map_append
  refine ⟨_, out, hs, h.toSending.exchange hop hstep hwf hwanted hsch, ⟨ctr, hal, ?_⟩, ?_, ?_⟩
  · rw [hcalls, hctr]
  · rw [hcalls]
    exact hwants
  · exact eachStep_concat.mpr
      ⟨h.answers, hsch.answersOldest h.toSending hal hctr hwants hwanted⟩

/-- In every run in which no block is added while another cid waits for data, every send answers
    the oldest outstanding want that can be answered, with the bytes of a block that was added or
    received under that cid. -/
theorem sends_answer_oldest (maxConcurrentSend : ℕ) {is : List (Input L)}
    (his : ∀ i ∈ is, i.IsExchange)
    (hguard : Meets System.step StoreAligned (System.new maxConcurrentSend) is) :
    ∃ s tr, run System.step (System.new maxConcurrentSend) is = .ok (s, tr) ∧
      EachStep AnswersOldest tr := by
  obtain ⟨s, tr, hrun, h⟩ := run_induction (fun is => ∀ i ∈ is, i.IsExchange)
    (Tracking maxConcurrentSend) exchange_concat (Tracking.init maxConcurrentSend)
    (fun s tr i h hadm hP => h.step (hadm i (by simp)) hP) his hguard
  exact ⟨s, tr, hrun, h.answers⟩

/-- Peer 0 wants cid 1 and a block with cid 2 arrives: peer 0 is sent its bytes as cid 1. -/
theorem not_answersOldest_example :
    ¬ ∃ s tr, run System.step (System.new 1 : System Libp2p.nat)
        [.receivedWant 0 1 0, .receivedBlock 5 ⟨[7], 2⟩] = .ok (s, tr) ∧
      EachStep AnswersOldest tr := by
  rintro ⟨s, tr, hrun, h⟩
  obtain ⟨s', tr', hrun', rfl⟩ : ∃ s' tr', run System.step (System.new 1 : System Libp2p.nat)
      [.receivedWant 0 1 0, .receivedBlock 5 ⟨[7], 2⟩] = .ok (s', tr') ∧
        tr' = [(.receivedWant 0 1 0, []),
          (.receivedBlock 5 ⟨[7], 2⟩, [.sendBlock 0 ⟨[7], 1⟩])] := ⟨_, _, rfl, rfl⟩
  rw [hrun'] at hrun
  cases hrun
  have hadded := (h [(.receivedWant 0 1 0, [])] _ _ [] rfl 0 ⟨[7], 1⟩ (by simp)).1
  revert hadded
  decide

theorem sends_answer_oldest_example : ∃ s tr,
    run System.step (System.new 1 : System Libp2p.nat)
      [.receivedWant 0 1 0, .receivedWant 2 1 0, .receivedBlock 5 ⟨[7], 1⟩] =
        .ok (s, tr) ∧ EachStep AnswersOldest tr :=
  sends_answer_oldest 1 (by decide) (by decide)

/-! ## Stranded wants -/

/-- After the inputs, some send is in flight if `iter_wanted_blocks` yields anything. -/
def NoneStranded (maxConcurrentSend : ℕ) (is : List (Input L)) : Prop :=
  ∃ s tr wanted, run System.step (System.new maxConcurrentSend) is = .ok (s, tr) ∧
    s.service.blockExchange.iterWantedBlocks = .ok wanted ∧
    (wanted ≠ [] → s.service.pendingSendBlock.Nonempty)

/-- The guard of a step: a `BlockAdd` finds a send in flight, or adds a block that is held, or
    nobody wants the cid that its data will be paired with. -/
def WantAttended (s : System L) : Input L → Prop
  | .blockAdd _ block => s.service.pendingSendBlock ≠ ∅ ∨
      s.service.blockExchange.getBlock block.cid ≠ none ∨
      s.service.blockExchange.SlotUnwanted block.cid
  | _ => True

/-- The invariant of the guarded runs: with nothing in flight, no want is for a held block. -/
structure Attending (maxConcurrentSend : ℕ) (s : System L)
    (tr : List (Input L × List (Output L))) : Prop extends Sending maxConcurrentSend s tr where
  attended : s.service.pendingSendBlock = ∅ →
    ∀ w ∈ s.service.blockExchange.wants, s.service.blockExchange.getBlock w.2 = none

theorem tries_of_freed_eq_empty {i : Input L} {maxConcurrentSend : ℕ}
    {pending : Finset (L.PeerId × L.Cid)} (hne : pending ≠ ∅) (hfreed : i.freed pending = ∅) :
    i.Tries maxConcurrentSend pending := by
  obtain ⟨w, hw⟩ := Finset.nonempty_iff_ne_empty.mpr hne
  have hcancel : i.Cancels w := by
    by_contra hno
    exact Finset.notMem_empty w (hfreed ▸ mem_freed.mpr ⟨hw, hno⟩)
  unfold Input.Cancels Input.op at hcancel
  split at hcancel <;> cases hcancel
  exact hw

/-- A step that does not reach the loop makes no want eligible, if it meets the guard. -/
theorem Attending.store {maxConcurrentSend : ℕ} (hmax : 1 ≤ maxConcurrentSend) {s : System L}
    {tr : List (Input L × List (Output L))} (h : Attending maxConcurrentSend s tr)
    (hnone : s.service.pendingSendBlock = ∅) {i : Input L}
    {op : BlockExchange.Op L.PeerId L.Cid} (hi : i.op = some op) (hguard : WantAttended s i)
    (htries : ¬ i.Tries maxConcurrentSend s.service.pendingSendBlock)
    {store : BlockExchange L.PeerId L.Cid} {r : Option Bool}
    (hstep : BlockExchange.step s.service.blockExchange op = .ok (store, r)) :
    ∀ w ∈ store.wants, store.getBlock w.2 = none := by
  have hwf := h.wellFormed
  have hbefore := h.attended hnone
  have hcard : s.service.pendingSendBlock.card < maxConcurrentSend := by
    rw [hnone, Finset.card_empty]
    omega
  unfold Input.op at hi
  split at hi <;> cases hi
  · rename_i answers block
    by_cases hb : s.service.blockExchange.getBlock block.cid = none
    · obtain ⟨store', hstep', -, hget, hwants⟩ := BlockExchange.step_addBlock_new hwf hb
      rw [hstep'] at hstep
      cases hstep
      have hslot : s.service.blockExchange.SlotUnwanted block.cid :=
        (hguard.resolve_left (not_not.mpr hnone)).resolve_left (not_not.mpr hb)
      intro w' hw'
      rw [hwants] at hw'
      obtain ⟨w, hw, rfl⟩ := List.mem_map.mp hw'
      rw [hget, if_neg]
      · exact BlockExchange.redirect_not_held hwf hw (hbefore w hw) _
      · exact fun heq => (BlockExchange.exists_redirect_iff hwf hb).mp ⟨w, hw, heq⟩ hslot
    · rw [BlockExchange.step_addBlock_held hwf hb] at hstep
      cases hstep
      exact hbefore
  · exact absurd hcard htries
  · exact absurd hcard htries
  · rename_i peerId cid
    obtain ⟨store', hstep', -, hget, hwants⟩ :=
      BlockExchange.step_of_not_addBlock hwf (.removeWant peerId cid) (by simp)
    rw [hstep'] at hstep
    cases hstep
    rw [hwants (by simp), hget]
    intro w hw
    exact hbefore w (List.mem_filter.mp hw).1

theorem Attending.step {maxConcurrentSend : ℕ} (hmax : 1 ≤ maxConcurrentSend) {s : System L}
    {tr : List (Input L × List (Output L))} (h : Attending maxConcurrentSend s tr) {i : Input L}
    (hi : i.IsExchange) (hguard : WantAttended s i) :
    ∃ s' out, s.step i = .ok (s', out) ∧ Attending maxConcurrentSend s' (tr ++ [(i, out)]) := by
  obtain ⟨op, hop⟩ := Option.ne_none_iff_exists'.mp hi
  obtain ⟨store, r, wanted, pending, out, hstep, hwf, hwanted, hsch, hs⟩ :=
    step_exchange h.wellFormed h.noWaiter hop
  refine ⟨_, out, hs, h.toSending.exchange hop hstep hwf hwanted hsch, fun hnone => ?_⟩
  cases hsch with
  | idle hall =>
    by_cases htries : i.Tries s.service.maxConcurrentSend s.service.pendingSendBlock
    · -- the loop found every wanted pair in flight, so there was none
      refine (BlockExchange.iterWantedBlocks_eq_nil_iff hwf hwanted).mp ?_
      refine List.eq_nil_iff_forall_not_mem.mpr fun w hw => ?_
      have hmem := hall htries w hw
      rw [show i.freed s.service.pendingSendBlock = ∅ from hnone] at hmem
      exact Finset.notMem_empty _ hmem
    · have hempty : s.service.pendingSendBlock = ∅ := by
        by_contra hne
        exact htries (tries_of_freed_eq_empty hne hnone)
      exact h.store hmax hempty hop hguard (h.cap_eq ▸ htries) hstep
  | sends before after peer block tries hw first new =>
    exact absurd hnone (Finset.insert_ne_empty _ _)

/-- A `BlockAdd` that misses the guard makes a want eligible and sends nothing. -/
theorem not_noneStranded_of_unattended {maxConcurrentSend : ℕ} {is : List (Input L)} {s : System L}
    {tr : List (Input L × List (Output L))}
    (hrun : run System.step (System.new maxConcurrentSend) is = .ok (s, tr))
    (h : Attending maxConcurrentSend s tr) {i : Input L} (hguard : ¬ WantAttended s i) :
    ¬ NoneStranded maxConcurrentSend (is ++ [i]) := by
  unfold WantAttended at hguard
  split at hguard
  · rename_i answers block
    rw [not_or, not_or, not_not, not_not] at hguard
    obtain ⟨hnone, hb, hslot⟩ := hguard
    obtain ⟨store, r, wanted, pending, out, hstep, hwf, hwanted, hsch, hs⟩ :=
      step_exchange h.wellFormed h.noWaiter (i := .blockAdd answers block) rfl
    obtain ⟨store', hstep', -, hget, hwants⟩ := BlockExchange.step_addBlock_new h.wellFormed hb
    rw [hstep'] at hstep
    cases hstep
    obtain ⟨w, hw, heq⟩ := (BlockExchange.exists_redirect_iff h.wellFormed hb).mpr hslot
    rintro ⟨s', tr', wanted', hrun', hwanted', hsome⟩
    rw [run_concat_eq_ok.mpr ⟨s, tr, out, hrun, hs, rfl⟩] at hrun'
    cases hrun'
    rw [hwanted] at hwanted'
    cases hwanted'
    have hne : wanted ≠ [] := by
      rw [ne_eq, BlockExchange.iterWantedBlocks_eq_nil_iff hwf hwanted, hwants]
      intro hall
      have := hall _ (List.mem_map.mpr ⟨w, hw, rfl⟩)
      rw [hget, heq, if_pos rfl] at this
      cases this
    cases hsch with
    | idle _ =>
      obtain ⟨v, hv⟩ := hsome hne
      have := (mem_freed.mp hv).1
      rw [hnone] at this
      exact Finset.notMem_empty v this
    | sends before after peer block tries hw first new => exact tries
  · exact absurd trivial hguard

theorem Attending.noneStranded {maxConcurrentSend : ℕ} {is : List (Input L)} {s : System L}
    {tr : List (Input L × List (Output L))}
    (hrun : run System.step (System.new maxConcurrentSend) is = .ok (s, tr))
    (h : Attending maxConcurrentSend s tr) : NoneStranded maxConcurrentSend is := by
  have hwanted := BlockExchange.iterWantedBlocks_eq h.wellFormed
  refine ⟨s, tr, _, hrun, hwanted, fun hne => ?_⟩
  rw [Finset.nonempty_iff_ne_empty]
  intro hnone
  exact hne ((BlockExchange.iterWantedBlocks_eq_nil_iff h.wellFormed hwanted).mpr
    (h.attended hnone))

/-- No want for a held block is left with nothing in flight, at any point of a run, exactly when no
    `BlockAdd` of the run makes a want eligible while nothing is in flight. -/
theorem noneStranded_iff {maxConcurrentSend : ℕ} (hmax : 1 ≤ maxConcurrentSend)
    {is : List (Input L)} (his : ∀ i ∈ is, i.IsExchange) :
    (∀ pre, pre <+: is → NoneStranded maxConcurrentSend pre) ↔
      Meets System.step WantAttended (System.new maxConcurrentSend) is :=
  forall_prefix_iff_meets (fun is => ∀ i ∈ is, i.IsExchange) (Attending maxConcurrentSend)
    exchange_concat ⟨Sending.init maxConcurrentSend, fun _ w hw => by cases hw⟩
    (fun s tr i h hadm hP => h.step hmax (hadm i (by simp)) hP)
    (fun is s tr hrun h => h.noneStranded hrun)
    (fun is s tr i hrun h _ hP => not_noneStranded_of_unattended hrun h hP) his

/-- Peer 0 wants cid 1 and its block is added by command: nothing is sent. -/
theorem not_noneStranded_example :
    ¬ NoneStranded 1 ([.receivedWant 0 1 0, .blockAdd Answers.nat ⟨[7], 1⟩] :
      List (Input Libp2p.nat)) := by
  rintro ⟨s, tr, wanted, hrun, hwanted, hsome⟩
  obtain ⟨s', tr', hrun', hstore, hpending⟩ : ∃ s' tr',
      run System.step (System.new 1 : System Libp2p.nat)
        [.receivedWant 0 1 0, .blockAdd Answers.nat ⟨[7], 1⟩] = .ok (s', tr') ∧
      s'.service.blockExchange = ⟨[0], [0], [0], [1], [[7]]⟩ ∧ s'.service.pendingSendBlock = ∅ :=
    ⟨_, _, rfl, rfl, rfl⟩
  rw [hrun'] at hrun
  cases hrun
  rw [hstore] at hwanted
  cases hwanted
  rw [hpending] at hsome
  simp at hsome

/-- The same block, received from a peer. -/
theorem noneStranded_iff_example :
    NoneStranded 1 ([.receivedWant 0 1 0, .receivedBlock 5 ⟨[7], 1⟩] :
      List (Input Libp2p.nat)) := by
  have hguard : Meets System.step WantAttended (System.new 1)
      ([.receivedWant 0 1 0, .receivedBlock 5 ⟨[7], 1⟩] : List (Input Libp2p.nat)) :=
    ⟨trivial, trivial, trivial⟩
  exact (noneStranded_iff le_rfl (by decide)).mpr hguard _ (List.prefix_refl _)

end LiveTest
