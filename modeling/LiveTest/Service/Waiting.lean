import LiveTest.Queue
import LiveTest.Service.Isolation

/-!
# How long a want waits

A want for a block that the store has waits for a slot, and a slot is freed by
the cancel of a pair in flight. The wants are a queue, in which a pair in flight
is being served.

* `waits_bounded`: while a want waits, every cancel of a pair in flight makes a
  send, and every send is of a want that was ahead of it in the queue. So it is
  sent before as many pairs are cancelled as were ahead of it, and one more.
* `drained`: once nothing but the cancels of pairs in flight arrives, each pair
  whose block the store has is sent and cancelled once, and then nothing waits.
-/

namespace LiveTest

open Rust Machine Queue

variable {L : Libp2p}

/-- The input is the cancel of a pair in flight. -/
def Acks (s : System L) (i : Input L) : Prop := ∃ w ∈ s.service.pendingSendBlock, i.Cancels w

instance (s : System L) (i : Input L) : Decidable (Acks s i) :=
  inferInstanceAs (Decidable (∃ w ∈ s.service.pendingSendBlock, i.Cancels w))

/-- The wants before the first one of `w` that are not in flight. -/
def System.ahead (s : System L) (w : L.PeerId × L.Cid) : ℕ :=
  Queue.ahead s.service.blockExchange.wants s.service.pendingSendBlock w

/-- How many blocks a step sends. -/
def sendCount (out : List (Output L)) : ℕ := (sentPairs out).length

/-! ## One step -/

/-- A want for a block that the store has, not in flight, in a state that a run can reach. -/
structure Waits (maxConcurrentSend : ℕ) (w : L.PeerId × L.Cid) (s : System L) : Prop where
  sending : ∃ tr, Sending maxConcurrentSend s.exchangePart tr
  wanted : w ∈ s.service.blockExchange.wants
  held : s.service.blockExchange.getBlock w.2 ≠ none
  waiting : w ∉ s.service.pendingSendBlock

theorem Acks.tries {s : System L} {i : Input L} (h : Acks s i) (maxConcurrentSend : ℕ) :
    i.Tries maxConcurrentSend s.service.pendingSendBlock := by
  obtain ⟨w, hw, hcancel⟩ := h
  unfold Input.Cancels Input.op at hcancel
  split at hcancel <;> cases hcancel
  exact hw

/-- The call on the store keeps a want for a block that it has, unless the input cancels it. -/
theorem wanted_step {store : BlockExchange L.PeerId L.Cid} (hwf : store.WellFormed)
    {w : L.PeerId × L.Cid} (hw : w ∈ store.wants) (hheld : store.getBlock w.2 ≠ none) {i : Input L}
    {op : BlockExchange.Op L.PeerId L.Cid} (hi : i.op = some op) (hcancel : ¬ i.Cancels w)
    {store' : BlockExchange L.PeerId L.Cid} {r : Option Bool}
    (hstep : BlockExchange.step store op = .ok (store', r)) :
    w ∈ store'.wants ∧ store'.getBlock w.2 ≠ none := by
  apply BlockExchange.step_keeps_held hwf hstep hw hheld
  · rintro rfl
    unfold Input.op at hi
    split at hi <;> cases hi
  · rintro rfl
    exact hcancel hi
  · rintro rfl
    unfold Input.op at hi
    split at hi <;> cases hi

/-- A block that is added renames wants for blocks that the store does not have. -/
theorem ahead_addBlock {store : BlockExchange L.PeerId L.Cid} (hwf : store.WellFormed)
    {pending : Finset (L.PeerId × L.Cid)}
    (hpending : ∀ v ∈ pending, store.getBlock v.2 ≠ none) {w : L.PeerId × L.Cid}
    (hheld : store.getBlock w.2 ≠ none) {block : Block L.Cid}
    {store' : BlockExchange L.PeerId L.Cid} {r : Option Bool}
    (hstep : BlockExchange.step store (.addBlock block) = .ok (store', r)) :
    Queue.ahead store'.wants pending w = Queue.ahead store.wants pending w := by
  by_cases hb : store.getBlock block.cid = none
  · obtain ⟨store'', hstep', -, -, hwants⟩ := BlockExchange.step_addBlock_new hwf hb
    rw [hstep'] at hstep
    cases hstep
    rw [hwants]
    -- a want that is renamed is for a block that is not there, before and after
    have hkeep : ∀ x ∈ store.wants, ∀ v, store.getBlock v.2 ≠ none →
        (store.redirect block.cid x = v ↔ x = v) := by
      intro x hx v hv
      by_cases hx' : store.getBlock x.2 = none
      · have hnot := BlockExchange.redirect_not_held hwf hx hx' block.cid
        exact iff_of_false (fun h => hv (h ▸ hnot)) (fun h => hv (h ▸ hx'))
      · have hne : x.2 ≠ block.cid := fun h => hx' (h ▸ hb)
        rw [BlockExchange.redirect, if_neg hne]
    refine ahead_map _ (fun x hx => hkeep x hx w hheld) fun x hx => ⟨fun h => ?_, fun h => ?_⟩
    · rwa [← (hkeep x hx _ (hpending _ h)).mp rfl] at h
    · rwa [(hkeep x hx x (hpending x h)).mpr rfl]
  · rw [BlockExchange.step_addBlock_held hwf hb] at hstep
    cases hstep
    rfl

/-- The call on the store puts nobody ahead of a want for a block that it has. -/
theorem ahead_step_le {s : System L} {tr : List (Input L × List (Output L))} {maxConcurrentSend : ℕ}
    (h : Sending maxConcurrentSend s tr) {w : L.PeerId × L.Cid}
    (hw : w ∈ s.service.blockExchange.wants) (hheld : s.service.blockExchange.getBlock w.2 ≠ none)
    {i : Input L} {op : BlockExchange.Op L.PeerId L.Cid} (hi : i.op = some op)
    (hcancel : ¬ i.Cancels w) {store : BlockExchange L.PeerId L.Cid} {r : Option Bool}
    (hstep : BlockExchange.step s.service.blockExchange op = .ok (store, r)) :
    Queue.ahead store.wants (i.freed s.service.pendingSendBlock) w ≤ s.ahead w := by
  have hwf := h.wellFormed
  have hpending := fun v hv => (h.held v hv).2
  unfold System.ahead
  unfold Input.op at hi
  split at hi <;> cases hi
  · rw [freed_of_not_cancel (by simp [Input.Cancels, Input.op]), ahead_addBlock hwf hpending hheld hstep]
  · rw [freed_of_not_cancel (by simp [Input.Cancels, Input.op]), ahead_addBlock hwf hpending hheld hstep]
  · rename_i peerId cid priority
    rw [freed_of_not_cancel (by simp [Input.Cancels, Input.op])]
    obtain ⟨store', hstep', -, -, hwants⟩ :=
      BlockExchange.step_of_not_addBlock hwf (.addWant peerId cid) (by simp)
    rw [hstep'] at hstep
    cases hstep
    rw [hwants (by simp), BlockExchange.Op.wantsAfter, ahead_append hw]
  · rename_i peerId cid
    have hne : (peerId, cid) ≠ w := by
      rintro rfl
      exact hcancel rfl
    obtain ⟨store', hstep', -, -, hwants⟩ :=
      BlockExchange.step_of_not_addBlock hwf (.removeWant peerId cid) (by simp)
    rw [hstep'] at hstep
    cases hstep
    rw [hwants (by simp), BlockExchange.Op.wantsAfter, freed_cancel]
    exact ahead_filter_le _ hne

/-- What the loop does for a want that it does not send: when it is reached it sends one that is
    ahead. -/
theorem Scheduled.ahead_le {s : System L} {i : Input L} {w : L.PeerId × L.Cid}
    {store : BlockExchange L.PeerId L.Cid} {wanted : List (L.PeerId × Block L.Cid)}
    {pending : Finset (L.PeerId × L.Cid)} {out : List (Output L)} (hwf : store.WellFormed)
    (hwanted : store.iterWantedBlocks = .ok wanted) (hw : w ∈ store.wants)
    (hheld : store.getBlock w.2 ≠ none) (hwait : w ∉ i.freed s.service.pendingSendBlock)
    (hsent : w ∉ sentPairs out)
    (hsch : Scheduled i s.service.maxConcurrentSend s.service.pendingSendBlock wanted pending out) :
    w ∉ pending ∧ (i.Tries s.service.maxConcurrentSend s.service.pendingSendBlock →
      1 ≤ sendCount out) ∧ sendCount out + Queue.ahead store.wants pending w ≤
        Queue.ahead store.wants (i.freed s.service.pendingSendBlock) w := by
  obtain ⟨b, hb, hbc, -⟩ := BlockExchange.exists_mem_iterWantedBlocks hwf hwanted hw hheld
  cases hsch with
  | idle hall =>
    refine ⟨hwait, fun htries => ?_, by simp [sendCount, sentPairs]⟩
    -- the loop would have found it
    have := hall htries _ hb
    rw [hbc] at this
    exact absurd this hwait
  | sends before after peer block tries hsplit first new =>
    have hv : (peer, block.cid) ≠ w := fun h => hsent (by simp [sentPairs, h])
    rw [hsplit] at hwanted
    obtain ⟨earlier, later, hwants, hbefore⟩ :=
      BlockExchange.iterWantedBlocks_split hwf hwanted
    have hearlier : w ∉ earlier := by
      intro hmem
      obtain ⟨b', hb', hc⟩ := hbefore w hmem hheld
      have := first _ hb'
      rw [hc] at this
      exact hwait this
    refine ⟨?_, fun _ => by simp [sendCount, sentPairs], ?_⟩
    · rw [Finset.mem_insert, not_or]
      exact ⟨hv.symm, hwait⟩
    · have hone : sendCount [(.sendBlock peer block : Output L)] = 1 := rfl
      have := ahead_insert_lt hwants hearlier hv new
      omega

/-- One step while a want waits. -/
theorem Waits.step {maxConcurrentSend : ℕ} {w : L.PeerId × L.Cid} {s s' : System L} {i : Input L}
    {out : List (Output L)} (h : Waits maxConcurrentSend w s) (hcancel : ¬ i.Cancels w)
    (hsent : w ∉ sentPairs out) (hstep : s.step i = .ok (s', out)) :
    Waits maxConcurrentSend w s' ∧ (Acks s i → 1 ≤ sendCount out) ∧
      sendCount out + s'.ahead w ≤ s.ahead w := by
  obtain ⟨tr, hsending⟩ := h.sending
  by_cases hi : i.IsExchange
  · obtain ⟨op, hop⟩ := Option.ne_none_iff_exists'.mp hi
    obtain ⟨r, wanted, hcall, hwf, hwanted, hsch, hnext⟩ := exchange_of_step hsending hop hstep
    have hwait : w ∉ i.freed s.service.pendingSendBlock := fun hmem =>
      h.waiting (mem_freed.mp hmem).1
    have hkeep := wanted_step hsending.wellFormed h.wanted h.held hop hcancel hcall
    rw [← sentPairs_filter] at hsent
    have hcount : sendCount (out.filter Output.isSend) = sendCount out := by
      rw [sendCount, sentPairs_filter, sendCount]
    have hahead := ahead_step_le hsending h.wanted h.held hop hcancel hcall
    obtain ⟨hnot, hacks, hle⟩ := hsch.ahead_le hwf hwanted hkeep.1 hkeep.2 hwait hsent
    rw [hcount] at hacks hle
    exact ⟨⟨⟨_, hnext⟩, hkeep.1, hkeep.2, hnot⟩, fun hack => hacks (hack.tries _),
      hle.trans hahead⟩
  · have hapart := step_apart hi hstep
    have hnone : sendCount out = 0 := by
      rw [sendCount, ← sentPairs_filter, sends_of_not_exchange hi hstep]
      rfl
    refine ⟨⟨⟨tr, hapart.exchangePart ▸ hsending⟩, ?_, ?_, ?_⟩, ?_, ?_⟩
    · exact hapart.blockExchange ▸ h.wanted
    · exact hapart.blockExchange ▸ h.held
    · exact hapart.pendingSendBlock ▸ h.waiting
    · rintro ⟨v, -, hv⟩
      exact absurd hv.isExchange hi
    · rw [hnone, System.ahead, System.ahead, hapart.blockExchange, hapart.pendingSendBlock]
      omega

/-! ## Whole runs -/

/-- From any state that a run can reach, while a want for a block that the store has waits: each
    cancel of a pair in flight makes a send, and each send is of a want that was ahead. So the want
    is sent, if it is not cancelled, before more pairs in flight are cancelled than were ahead. -/
theorem waits_bounded (maxConcurrentSend : ℕ) {is js : List (Input L)} {s t : System L}
    {tr tr' : List (Input L × List (Output L))}
    (hrun : run System.step (System.new maxConcurrentSend) is = .ok (s, tr))
    (hrun' : run System.step s js = .ok (t, tr')) {w : L.PeerId × L.Cid}
    (hwanted : w ∈ s.service.blockExchange.wants)
    (hheld : s.service.blockExchange.getBlock w.2 ≠ none) (hwaits : w ∉ s.service.pendingSendBlock)
    (hcancel : ∀ j ∈ js, ¬ j.Cancels w) :
    ((∀ e ∈ tr', w ∉ sentPairs e.2) →
      tally System.step Acks s js ≤ total sendCount tr' ∧
        total sendCount tr' + t.ahead w ≤ s.ahead w) ∧
      (s.ahead w < tally System.step Acks s js → ∃ e ∈ tr', w ∈ sentPairs e.2) := by
  have hbound : (∀ e ∈ tr', w ∉ sentPairs e.2) →
      tally System.step Acks s js ≤ total sendCount tr' ∧
        total sendCount tr' + t.ahead w ≤ s.ahead w := by
    intro hsent
    have hinit : Waits maxConcurrentSend w s :=
      ⟨⟨_, sending_of_run hrun⟩, hwanted, hheld, hwaits⟩
    have hkeep : ∀ u i u' out, Waits maxConcurrentSend w u → (¬ i.Cancels w ∧ w ∉ sentPairs out) →
        u.step i = .ok (u', out) → Waits maxConcurrentSend w u' ∧ (Acks u i → 1 ≤ sendCount out) ∧
          sendCount out + u'.ahead w ≤ u.ahead w :=
      fun u i u' out h hok hstep => h.step hok.1 hok.2 hstep
    refine (amortised sendCount (System.ahead · w) hkeep hinit hrun' ?_).2
    intro e he
    refine ⟨hcancel e.1 ?_, hsent e he⟩
    rw [← trace_inputs hrun']
    exact List.mem_map_of_mem he
  refine ⟨hbound, fun hlt => ?_⟩
  by_contra hno
  push Not at hno
  obtain ⟨htally, htotal⟩ := hbound hno
  omega

/-- Two peers want the block and there is one slot: when the first cancels, the second is sent it. -/
theorem waits_bounded_example : ∃ s t tr tr',
    run System.step (System.new 1 : System Libp2p.nat)
      [.receivedWant 0 1 0, .receivedWant 2 1 0, .receivedBlock 5 ⟨[7], 1⟩] = .ok (s, tr) ∧
    run System.step s [.receivedCancel 0 1] = .ok (t, tr') ∧ ∃ e ∈ tr', (2, 1) ∈ sentPairs e.2 := by
  have his : ∀ i ∈ ([.receivedWant 0 1 0, .receivedWant 2 1 0, .receivedBlock 5 ⟨[7], 1⟩] ++
      [.receivedCancel 0 1] : List (Input Libp2p.nat)), i.IsExchange := by decide
  obtain ⟨t, tr₁, h, -⟩ := exists_sending_run 1 his
  obtain ⟨s, tr, out, hrun, hstep, rfl⟩ := run_concat_eq_ok.mp h
  have hrun' : run System.step s [.receivedCancel 0 1] = .ok (t, [(.receivedCancel 0 1, out)]) :=
    run_cons_eq_ok.mpr ⟨t, out, [], hstep, rfl, rfl⟩
  obtain ⟨hstore, hslots⟩ : s.service.blockExchange = ⟨[0, 2], [0, 1], [0, 0], [1], [[7]]⟩ ∧
      s.service.pendingSendBlock = {(0, 1)} := by
    obtain ⟨s', tr', hrun', hs'⟩ : ∃ s' tr', run System.step (System.new 1 : System Libp2p.nat)
        [.receivedWant 0 1 0, .receivedWant 2 1 0, .receivedBlock 5 ⟨[7], 1⟩] = .ok (s', tr') ∧
      s'.service.blockExchange = ⟨[0, 2], [0, 1], [0, 0], [1], [[7]]⟩ ∧
      s'.service.pendingSendBlock = {(0, 1)} := ⟨_, _, rfl, rfl, rfl⟩
    rw [hrun] at hrun'
    cases hrun'
    exact hs'
  have hahead : s.ahead (2, 1) = 0 := by
    unfold System.ahead
    rw [hstore, hslots]
    decide
  have htally : 1 ≤ tally System.step Acks s [.receivedCancel 0 1] := by
    rw [tally, if_pos ⟨(0, 1), by rw [hslots]; decide, rfl⟩]
    omega
  refine ⟨s, t, tr, _, hrun, hrun', (waits_bounded 1 hrun hrun' ?_ ?_ ?_ ?_).2 (by omega)⟩
  · rw [hstore]
    decide
  · rw [hstore]
    decide
  · rw [hslots]
    decide
  · decide

/-! ## Draining -/

/-- The wants for blocks that the store has, each once. -/
def System.answerable (s : System L) : Finset (L.PeerId × L.Cid) :=
  (s.service.blockExchange.wants.filter fun w =>
    (s.service.blockExchange.getBlock w.2).isSome).toFinset

theorem mem_answerable {s : System L} {w : L.PeerId × L.Cid} : w ∈ s.answerable ↔
    w ∈ s.service.blockExchange.wants ∧ s.service.blockExchange.getBlock w.2 ≠ none := by
  rw [System.answerable, List.mem_toFinset, List.mem_filter, Option.isSome_iff_ne_none]

/-- A `BlockAdd` that makes a want answerable finds a send in flight. -/
theorem attending_of_run {maxConcurrentSend : ℕ} (hmax : 1 ≤ maxConcurrentSend)
    {is : List (Input L)} {s : System L} {tr : List (Input L × List (Output L))}
    (hrun : run System.step (System.new maxConcurrentSend) is = .ok (s, tr))
    (hguard : Meets System.step WantAttended (System.new maxConcurrentSend) is) :
    Attending maxConcurrentSend s.exchangePart (exchangeTrace tr) := by
  induction is using List.reverseRecOn generalizing s tr with
  | nil =>
    cases hrun
    exact ⟨Sending.init maxConcurrentSend, fun _ w hw => by cases hw⟩
  | append_singleton is i ih =>
    obtain ⟨u, tr', out, hrun', hstep, rfl⟩ := run_concat_eq_ok.mp hrun
    obtain ⟨hbefore, hat⟩ := meets_concat.mp hguard
    have hu := ih hrun' hbefore
    rw [exchangeTrace_concat]
    by_cases hi : i.IsExchange
    · have hP : WantAttended u.exchangePart i := hat u tr' hrun'
      obtain ⟨s', out', hstep', hs'⟩ := hu.step hmax hi hP
      rw [step_exchangePart hi hstep] at hstep'
      cases hstep'
      rw [if_pos hi]
      exact hs'
    · rw [if_neg hi, List.append_nil, (step_apart hi hstep).exchangePart]
      exact hu

/-- The cancel of a pair in flight takes that pair off the answerable wants, and nothing else. -/
theorem cancel_answerable {maxConcurrentSend : ℕ} {s s' : System L}
    {tr : List (Input L × List (Output L))} (h : Sending maxConcurrentSend s.exchangePart tr)
    {w : L.PeerId × L.Cid} {out : List (Output L)}
    (hstep : s.step (.receivedCancel w.1 w.2) = .ok (s', out)) :
    s'.answerable = s.answerable.erase w ∧
      ∀ v ∈ s'.service.pendingSendBlock, v ∈ s.service.pendingSendBlock ∨ v ∈ sentPairs out := by
  have hop : (Input.receivedCancel w.1 w.2).op = some (.removeWant w.1 w.2) := rfl
  obtain ⟨r, wanted, hcall, -, -, hsch, -⟩ := exchange_of_step h hop hstep
  obtain ⟨store, hcall', -, hget, hwants⟩ :=
    BlockExchange.step_of_not_addBlock h.wellFormed (.removeWant w.1 w.2) (by simp)
  have hstore : s'.service.blockExchange = store := by
    have := hcall.symm.trans hcall'
    exact (Prod.mk.inj (Except.ok.inj this)).1
  constructor
  · ext v
    rw [mem_answerable, Finset.mem_erase, mem_answerable, hstore, hwants (by simp), hget,
      BlockExchange.Op.wantsAfter, List.mem_filter, decide_eq_true_iff]
    constructor
    · rintro ⟨⟨hv, hne⟩, hheld⟩
      exact ⟨hne, hv, hheld⟩
    · rintro ⟨hne, hv, hheld⟩
      exact ⟨⟨hv, hne⟩, hheld⟩
  · intro v hv
    rw [← sentPairs_filter]
    generalize out.filter Output.isSend = sent at hsch ⊢
    generalize s'.service.pendingSendBlock = pending at hsch hv
    cases hsch with
    | idle _ => exact .inl (mem_freed.mp hv).1
    | sends before after peer block _ _ _ _ =>
      rcases Finset.mem_insert.mp hv with rfl | hv
      · exact .inr (by simp [sentPairs])
      · exact .inl (mem_freed.mp hv).1

/-- The pairs `ws` were in flight and have been cancelled, one after the other, from the state `s` to
    the state `t`. -/
structure Draining (maxConcurrentSend : ℕ) (s : System L) (ws : List (L.PeerId × L.Cid))
    (t : System L) (tr : List (Input L × List (Output L))) : Prop where
  attending : ∃ tr₀, Attending maxConcurrentSend t.exchangePart tr₀
  nodup : ws.Nodup
  mem : ∀ w ∈ ws, w ∈ s.answerable
  answerable : t.answerable = s.answerable \ ws.toFinset
  sent : ∀ w, w ∈ ws ∨ w ∈ t.service.pendingSendBlock →
    w ∈ s.service.pendingSendBlock ∨ ∃ e ∈ tr, w ∈ sentPairs e.2

/-- The next cancel. -/
theorem Draining.step {maxConcurrentSend : ℕ} (hmax : 1 ≤ maxConcurrentSend) {s t u : System L}
    {ws : List (L.PeerId × L.Cid)} {tr : List (Input L × List (Output L))}
    (h : Draining maxConcurrentSend s ws t tr) {w : L.PeerId × L.Cid} {out : List (Output L)}
    (hack : Acks t (.receivedCancel w.1 w.2))
    (hstep : t.step (.receivedCancel w.1 w.2) = .ok (u, out)) :
    Draining maxConcurrentSend s (ws ++ [w]) u (tr ++ [(.receivedCancel w.1 w.2, out)]) := by
  obtain ⟨tr₀, hat⟩ := h.attending
  obtain ⟨hanswerable, hsent⟩ := cancel_answerable hat.toSending hstep
  have hw : w ∈ t.service.pendingSendBlock := hack.tries maxConcurrentSend
  have hmem : w ∈ s.answerable ∧ w ∉ ws := by
    have := mem_answerable.mpr (hat.held w hw)
    rw [show t.exchangePart.answerable = t.answerable from rfl, h.answerable, Finset.mem_sdiff,
      List.mem_toFinset] at this
    exact this
  refine ⟨?_, ?_, ?_, ?_, ?_⟩
  · obtain ⟨u', out', hstep', hat'⟩ := hat.step hmax
      (show (Input.receivedCancel w.1 w.2).IsExchange by simp [Input.IsExchange, Input.op]) trivial
    rw [step_exchangePart (by simp [Input.IsExchange, Input.op]) hstep] at hstep'
    cases hstep'
    exact ⟨_, hat'⟩
  · rw [List.nodup_append]
    refine ⟨h.nodup, List.nodup_singleton w, ?_⟩
    rintro a ha b hb rfl
    exact hmem.2 (List.mem_singleton.mp hb ▸ ha)
  · intro v hv
    rcases List.mem_append.mp hv with hv | hv
    · exact h.mem v hv
    · rw [List.mem_singleton.mp hv]
      exact hmem.1
  · rw [hanswerable, h.answerable]
    ext v
    simp only [Finset.mem_erase, Finset.mem_sdiff, List.mem_toFinset, List.mem_append,
      List.mem_singleton]
    tauto
  · have hbefore : ∀ v, v ∈ ws ∨ v ∈ t.service.pendingSendBlock → v ∈ s.service.pendingSendBlock ∨
        ∃ e ∈ tr ++ [(Input.receivedCancel w.1 w.2, out)], v ∈ sentPairs e.2 := by
      intro v hv
      refine (h.sent v hv).imp_right ?_
      rintro ⟨e, he, hve⟩
      exact ⟨e, List.mem_append_left _ he, hve⟩
    rintro v (hv | hv)
    · rcases List.mem_append.mp hv with hv | hv
      · exact hbefore v (.inl hv)
      · rw [List.mem_singleton.mp hv]
        exact hbefore w (.inr hw)
    · rcases hsent v hv with hv | hv
      · exact hbefore v (.inr hv)
      · exact .inr ⟨_, List.mem_append_right _ (List.mem_singleton_self _), hv⟩

/-- From any state that a run can reach, if each `BlockAdd` of the run that made a want answerable
    found a send in flight: when the pairs in flight are cancelled, one after the other, each was
    sent, none comes twice, and only pairs that were answerable come; and there is nothing left in
    flight exactly when they have all come. -/
theorem drained {maxConcurrentSend : ℕ} (hmax : 1 ≤ maxConcurrentSend) {is : List (Input L)}
    {s t : System L} {tr tr' : List (Input L × List (Output L))}
    (hrun : run System.step (System.new maxConcurrentSend) is = .ok (s, tr))
    (hguard : Meets System.step WantAttended (System.new maxConcurrentSend) is)
    {ws : List (L.PeerId × L.Cid)}
    (hrun' : run System.step s (ws.map fun w => .receivedCancel w.1 w.2) = .ok (t, tr'))
    (hacks : Meets System.step Acks s (ws.map fun w => .receivedCancel w.1 w.2)) :
    ws.Nodup ∧ (∀ w ∈ ws, w ∈ s.answerable ∧
      (w ∈ s.service.pendingSendBlock ∨ ∃ e ∈ tr', w ∈ sentPairs e.2)) ∧
    (t.service.pendingSendBlock = ∅ ↔ ws.toFinset = s.answerable) := by
  have h : Draining maxConcurrentSend s ws t tr' := by
    induction ws using List.reverseRecOn generalizing t tr' with
    | nil =>
      cases hrun'
      exact ⟨⟨_, attending_of_run hmax hrun hguard⟩, List.nodup_nil, by simp, by simp, by simp⟩
    | append_singleton ws w ih =>
      rw [List.map_append, List.map_singleton] at hrun' hacks
      obtain ⟨u, tr₁, out, hu, hstep, rfl⟩ := run_concat_eq_ok.mp hrun'
      obtain ⟨hbefore, hack⟩ := meets_concat.mp hacks
      exact (ih hu hbefore).step hmax (hack u tr₁ hu) hstep
  obtain ⟨tr₀, hat⟩ := h.attending
  have hsub : ws.toFinset ⊆ s.answerable := fun w hw => h.mem w (List.mem_toFinset.mp hw)
  refine ⟨h.nodup, fun w hw => ⟨h.mem w hw, h.sent w (.inl hw)⟩, ?_⟩
  constructor
  · intro hnone
    have hempty : t.answerable = ∅ := by
      refine Finset.eq_empty_of_forall_notMem fun w hw => ?_
      obtain ⟨hwant, hheld⟩ := mem_answerable.mp hw
      exact hheld (hat.attended hnone w hwant)
    rw [h.answerable, Finset.sdiff_eq_empty_iff_subset] at hempty
    exact Finset.Subset.antisymm hsub hempty
  · intro heq
    have hempty : t.answerable = ∅ := by rw [h.answerable, heq, Finset.sdiff_self]
    refine Finset.eq_empty_of_forall_notMem fun w hw => ?_
    have := mem_answerable.mpr (hat.held w hw)
    rw [show t.exchangePart.answerable = t.answerable from rfl, hempty] at this
    exact Finset.notMem_empty w this

/-- Two peers want a block each. The second is added by command while the first is in flight; it is
    sent when the first is cancelled, and its own cancel leaves nothing in flight. -/
theorem drained_example : ∃ s t tr tr',
    run System.step (System.new 1 : System Libp2p.nat)
      [.receivedWant 0 1 0, .receivedBlock 5 ⟨[7], 1⟩, .receivedWant 2 3 0,
        .blockAdd Answers.nat ⟨[8], 3⟩] = .ok (s, tr) ∧
    s.service.pendingSendBlock = {(0, 1)} ∧
    run System.step s [.receivedCancel 0 1, .receivedCancel 2 3] = .ok (t, tr') ∧
    (∃ e ∈ tr', (2, 3) ∈ sentPairs e.2) ∧ t.service.pendingSendBlock = ∅ := by
  obtain ⟨⟨s, tr⟩, hrun, hslots, hanswerable, hacks, ⟨t, tr'⟩, hrun'⟩ := (by decide +kernel :
    ∃ r, run System.step (System.new 1 : System Libp2p.nat)
        [.receivedWant 0 1 0, .receivedBlock 5 ⟨[7], 1⟩, .receivedWant 2 3 0,
          .blockAdd Answers.nat ⟨[8], 3⟩] = .ok r ∧
      r.1.service.pendingSendBlock = {((0 : ℕ), (1 : ℕ))} ∧
      List.toFinset [((0 : ℕ), (1 : ℕ)), (2, 3)] = r.1.answerable ∧
      Meets System.step Acks r.1
        ([((0 : ℕ), (1 : ℕ)), (2, 3)].map fun w => .receivedCancel w.1 w.2) ∧
      ∃ r', run System.step r.1
        ([((0 : ℕ), (1 : ℕ)), (2, 3)].map fun w => .receivedCancel w.1 w.2) = .ok r')
  have hguard : Meets System.step WantAttended (System.new 1 : System Libp2p.nat)
      [.receivedWant 0 1 0, .receivedBlock 5 ⟨[7], 1⟩, .receivedWant 2 3 0,
        .blockAdd Answers.nat ⟨[8], 3⟩] :=
    ⟨trivial, trivial, trivial, .inl (Finset.singleton_ne_empty _), trivial⟩
  obtain ⟨-, hsent, hempty⟩ := drained le_rfl hrun hguard hrun' hacks
  refine ⟨s, t, tr, tr', hrun, hslots, hrun', ?_, hempty.mpr hanswerable⟩
  refine (hsent (2, 3) (by decide)).2.resolve_left fun hmem => ?_
  rw [hslots] at hmem
  exact absurd hmem (by decide)

end LiveTest
