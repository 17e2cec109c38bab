import LiveTest.BlockExchange.Runs
import LiveTest.Service.Basic

/-!
# What one input does to the sends in flight

The inputs that reach the block exchange are `BlockAdd`, `ReceivedBlock`,
`ReceivedWant` and `ReceivedCancel`. Each makes one call on the store, and all
but `BlockAdd` may then send one block.

* `Input.op`: the call an input makes on the store.
* `Scheduled`: what the step does to the in-flight set and what it sends.
* `step_exchange`: the step in these terms; it cannot panic.
-/

namespace LiveTest

open Rust

variable {L : Libp2p}

/-! ## The inputs of the block exchange -/

/-- The call that the input makes on the block exchange, when it makes one. -/
def Input.op : Input L → Option (BlockExchange.Op L.PeerId L.Cid)
  | .blockAdd _ block => some (.addBlock block)
  | .receivedBlock _ block => some (.addBlock block)
  | .receivedWant peerId cid _ => some (.addWant peerId cid)
  | .receivedCancel peerId cid => some (.removeWant peerId cid)
  | _ => none

/-- A `BlockAdd` command, or a `ReceivedBlock`, `ReceivedWant` or `ReceivedCancel` event. -/
def Input.IsExchange (i : Input L) : Prop := i.op ≠ none

/-- The input is the `ReceivedCancel` of the pair. -/
def Input.Cancels (i : Input L) (w : L.PeerId × L.Cid) : Prop := i.op = some (.removeWant w.1 w.2)

instance (i : Input L) : Decidable i.IsExchange := inferInstanceAs (Decidable (i.op ≠ none))

instance (i : Input L) (w : L.PeerId × L.Cid) : Decidable (i.Cancels w) :=
  inferInstanceAs (Decidable (i.op = _))

/-- The in-flight set after the slot of a cancelled pair is freed. -/
def Input.freed (i : Input L) (pending : Finset (L.PeerId × L.Cid)) :
    Finset (L.PeerId × L.Cid) := pending.filter fun w => ¬ i.Cancels w

/-- The step reaches the loop over the wanted blocks. -/
def Input.Tries (maxConcurrentSend : ℕ) (pending : Finset (L.PeerId × L.Cid)) : Input L → Prop
  | .receivedBlock _ _ => pending.card < maxConcurrentSend
  | .receivedWant _ _ _ => pending.card < maxConcurrentSend
  | .receivedCancel peerId cid => (peerId, cid) ∈ pending
  | _ => False

theorem mem_freed {i : Input L} {pending : Finset (L.PeerId × L.Cid)} {w : L.PeerId × L.Cid} :
    w ∈ i.freed pending ↔ w ∈ pending ∧ ¬ i.Cancels w := Finset.mem_filter

theorem freed_of_not_cancel {i : Input L} (h : ∀ w, ¬ i.Cancels w)
    (pending : Finset (L.PeerId × L.Cid)) : i.freed pending = pending :=
  Finset.filter_true_of_mem fun w _ => h w

theorem freed_cancel (peerId : L.PeerId) (cid : L.Cid) (pending : Finset (L.PeerId × L.Cid)) :
    (Input.receivedCancel peerId cid).freed pending = pending.erase (peerId, cid) := by
  ext w
  rw [mem_freed, Finset.mem_erase, and_comm]
  refine and_congr_left fun _ => not_congr ?_
  simp [Input.Cancels, Input.op, Prod.ext_iff, eq_comm]

/-- The loop is only reached with a free slot. -/
theorem card_freed_lt {i : Input L} {maxConcurrentSend : ℕ} {pending : Finset (L.PeerId × L.Cid)}
    (hcap : pending.card ≤ maxConcurrentSend) (h : i.Tries maxConcurrentSend pending) :
    (i.freed pending).card < maxConcurrentSend := by
  by_cases hc : ∃ peerId cid, i = .receivedCancel peerId cid
  · -- a cancel does not look at the cap, but has just freed a slot
    obtain ⟨peerId, cid, rfl⟩ := hc
    rw [freed_cancel, Finset.card_erase_of_mem h]
    have := Finset.card_pos.mpr ⟨_, h⟩
    omega
  · have hlt : pending.card < maxConcurrentSend := by
      unfold Input.Tries at h
      split at h
      · exact h
      · exact h
      · exact absurd ⟨_, _, rfl⟩ hc
      · exact h.elim
    exact lt_of_le_of_lt (Finset.card_filter_le _ _) hlt

/-! ## The loop -/

/-- What a step does with the in-flight set `pending` and the wanted blocks: it sends the first one
    that is not in flight, or sends nothing. -/
inductive Scheduled (i : Input L) (maxConcurrentSend : ℕ) (pending : Finset (L.PeerId × L.Cid))
    (wanted : List (L.PeerId × Block L.Cid)) :
    Finset (L.PeerId × L.Cid) → List (Output L) → Prop where
  | idle (h : i.Tries maxConcurrentSend pending →
        ∀ w ∈ wanted, (w.1, w.2.cid) ∈ i.freed pending) :
      Scheduled i maxConcurrentSend pending wanted (i.freed pending) []
  | sends (before after : List (L.PeerId × Block L.Cid)) (peer : L.PeerId) (block : Block L.Cid)
      (tries : i.Tries maxConcurrentSend pending) (hw : wanted = before ++ (peer, block) :: after)
      (first : ∀ w ∈ before, (w.1, w.2.cid) ∈ i.freed pending)
      (new : (peer, block.cid) ∉ i.freed pending) :
      Scheduled i maxConcurrentSend pending wanted (insert (peer, block.cid) (i.freed pending))
        [.sendBlock peer block]

theorem sendFirst_cases (pending : Finset (L.PeerId × L.Cid))
    (wanted : List (L.PeerId × Block L.Cid)) :
    (Service.sendFirst pending wanted = (pending, []) ∧
      ∀ w ∈ wanted, (w.1, w.2.cid) ∈ pending) ∨
    ∃ before peer block after, wanted = before ++ (peer, block) :: after ∧
      (∀ w ∈ before, (w.1, w.2.cid) ∈ pending) ∧ (peer, block.cid) ∉ pending ∧
      Service.sendFirst pending wanted =
        (insert (peer, block.cid) pending, [.sendBlock peer block]) := by
  induction wanted with
  | nil => exact .inl ⟨rfl, by simp⟩
  | cons w wanted ih =>
    obtain ⟨p, b⟩ := w
    by_cases hw : (p, b.cid) ∈ pending
    · rw [Service.sendFirst, if_pos hw]
      rcases ih with ⟨heq, hall⟩ | ⟨l, peer, block, l', hl, hbefore, hnew, heq⟩
      · exact .inl ⟨heq, List.forall_mem_cons.mpr ⟨hw, hall⟩⟩
      · exact .inr ⟨(p, b) :: l, peer, block, l', by rw [hl]; rfl,
          List.forall_mem_cons.mpr ⟨hw, hbefore⟩, hnew, heq⟩
    · exact .inr ⟨[], p, b, wanted, rfl, by simp, hw, by rw [Service.sendFirst, if_neg hw]⟩

/-- The loop of a step that reaches it. -/
theorem scheduled_sendFirst {i : Input L} {maxConcurrentSend : ℕ}
    {pending : Finset (L.PeerId × L.Cid)} (h : i.Tries maxConcurrentSend pending)
    (wanted : List (L.PeerId × Block L.Cid)) :
    Scheduled i maxConcurrentSend pending wanted
      (Service.sendFirst (i.freed pending) wanted).1
      (Service.sendFirst (i.freed pending) wanted).2 := by
  rcases sendFirst_cases (i.freed pending) wanted with
    ⟨heq, hall⟩ | ⟨l, peer, block, l', hl, hbefore, hnew, heq⟩
  · rw [heq]
    exact .idle fun _ => hall
  · rw [heq]
    exact .sends l l' peer block h hl hbefore hnew

/-! ## One step -/

/-- What the step of an input does, when it makes the call `op` and no `get_block` waits: the call
    on the store, then what `Scheduled` says, and nothing else. -/
def Exchanges (s : System L) (i : Input L) (op : BlockExchange.Op L.PeerId L.Cid) : Prop :=
  ∃ store r wanted pending out,
    BlockExchange.step s.service.blockExchange op = .ok (store, r) ∧ store.WellFormed ∧
    store.iterWantedBlocks = .ok wanted ∧
    Scheduled i s.service.maxConcurrentSend s.service.pendingSendBlock wanted pending out ∧
    s.step i = .ok ({ s with service := { s.service with
      blockExchange := store, pendingSendBlock := pending } }, out)

section Steps

variable {s : System L} {store : BlockExchange L.PeerId L.Cid}
  {wanted : List (L.PeerId × Block L.Cid)}

theorem exchanges_blockAdd (answers : Answers L) {block : Block L.Cid} {added : Bool}
    (hadd : s.service.blockExchange.addBlock block = .ok (store, added)) (hwf : store.WellFormed)
    (hwanted : store.iterWantedBlocks = .ok wanted) :
    Exchanges s (.blockAdd answers block) (.addBlock block) := by
  have hfree : (Input.blockAdd answers block).freed s.service.pendingSendBlock =
      s.service.pendingSendBlock := freed_of_not_cancel (by simp [Input.Cancels, Input.op]) _
  refine ⟨store, _, wanted, _, [], by rw [BlockExchange.step, hadd]; rfl, hwf, hwanted,
    .idle False.elim, ?_⟩
  simp [System.step, Service.command, hadd, hfree]

theorem exchanges_receivedBlock (peerId : L.PeerId) {block : Block L.Cid} {added : Bool}
    (hget : ∀ c, s.service.pendingGetBlock c = none)
    (hadd : s.service.blockExchange.addBlock block = .ok (store, added)) (hwf : store.WellFormed)
    (hwanted : store.iterWantedBlocks = .ok wanted) :
    Exchanges s (.receivedBlock peerId block) (.addBlock block) := by
  have hupd : Function.update s.service.pendingGetBlock block.cid none =
      s.service.pendingGetBlock := by rw [← hget block.cid, Function.update_eq_self]
  have hfree : (Input.receivedBlock peerId block).freed s.service.pendingSendBlock =
      s.service.pendingSendBlock := freed_of_not_cancel (by simp [Input.Cancels, Input.op]) _
  have hop : BlockExchange.step s.service.blockExchange (.addBlock block) =
      .ok (store, some added) := by rw [BlockExchange.step, hadd]; rfl
  by_cases hcap : s.service.pendingSendBlock.card < s.service.maxConcurrentSend
  · have htries : (Input.receivedBlock peerId block).Tries s.service.maxConcurrentSend
        s.service.pendingSendBlock := hcap
    refine ⟨store, _, wanted, _, _, hop, hwf, hwanted, scheduled_sendFirst htries wanted, ?_⟩
    simp [System.step, Service.event, Service.bitswap, Service.expectSend, hadd, hget, hupd,
      Nat.not_le_of_lt hcap, Service.sendWanted, hwanted, hfree]
  · refine ⟨store, _, wanted, _, [], hop, hwf, hwanted, .idle fun h => absurd h hcap, ?_⟩
    simp [System.step, Service.event, Service.bitswap, Service.expectSend, hadd, hget, hupd,
      Nat.le_of_not_lt hcap, hfree]

theorem exchanges_receivedWant (peerId : L.PeerId) (cid : L.Cid) (priority : ℤ)
    (hstore : s.service.blockExchange.addWant peerId cid = store) (hwf : store.WellFormed)
    (hwanted : store.iterWantedBlocks = .ok wanted) :
    Exchanges s (.receivedWant peerId cid priority) (.addWant peerId cid) := by
  have hfree : (Input.receivedWant peerId cid priority).freed s.service.pendingSendBlock =
      s.service.pendingSendBlock := freed_of_not_cancel (by simp [Input.Cancels, Input.op]) _
  have hop : BlockExchange.step s.service.blockExchange (.addWant peerId cid) =
      .ok (store, none) := by rw [BlockExchange.step, hstore]
  by_cases hcap : s.service.pendingSendBlock.card < s.service.maxConcurrentSend
  · have htries : (Input.receivedWant peerId cid priority).Tries s.service.maxConcurrentSend
        s.service.pendingSendBlock := hcap
    refine ⟨store, _, wanted, _, _, hop, hwf, hwanted, scheduled_sendFirst htries wanted, ?_⟩
    simp [System.step, Service.event, Service.bitswap, hstore, Nat.not_le_of_lt hcap,
      Service.sendWanted, hwanted, hfree]
  · refine ⟨store, _, wanted, _, [], hop, hwf, hwanted, .idle fun h => absurd h hcap, ?_⟩
    simp [System.step, Service.event, Service.bitswap, hstore, Nat.le_of_not_lt hcap, hfree]

theorem exchanges_receivedCancel (peerId : L.PeerId) (cid : L.Cid)
    (hrem : s.service.blockExchange.removeWant peerId cid = .ok store) (hwf : store.WellFormed)
    (hwanted : store.iterWantedBlocks = .ok wanted) :
    Exchanges s (.receivedCancel peerId cid) (.removeWant peerId cid) := by
  have hfree := freed_cancel peerId cid s.service.pendingSendBlock
  have hop : BlockExchange.step s.service.blockExchange (.removeWant peerId cid) =
      .ok (store, none) := by rw [BlockExchange.step, hrem]; rfl
  by_cases hsent : (peerId, cid) ∈ s.service.pendingSendBlock
  · have htries : (Input.receivedCancel peerId cid).Tries s.service.maxConcurrentSend
        s.service.pendingSendBlock := hsent
    refine ⟨store, _, wanted, _, _, hop, hwf, hwanted, scheduled_sendFirst htries wanted, ?_⟩
    simp [System.step, Service.event, Service.bitswap, hrem, hsent, Service.sendWanted, hwanted,
      hfree]
  · refine ⟨store, _, wanted, _, [], hop, hwf, hwanted, .idle fun h => absurd h hsent, ?_⟩
    simp [System.step, Service.event, Service.bitswap, hrem, hsent, hfree]

/-- With no `get_block` waiting, an input of the block exchange cannot panic. -/
theorem step_exchange (hwf : s.service.blockExchange.WellFormed)
    (hget : ∀ c, s.service.pendingGetBlock c = none) {i : Input L}
    {op : BlockExchange.Op L.PeerId L.Cid} (hi : i.op = some op) : Exchanges s i op := by
  obtain ⟨store, r, hstep, hwf'⟩ := BlockExchange.step_wellFormed hwf op
  have hwanted := BlockExchange.iterWantedBlocks_eq hwf'
  unfold Input.op at hi
  split at hi <;> cases hi
  · obtain ⟨⟨_, added⟩, hadd, h⟩ := bind_eq_ok.mp hstep
    cases h
    exact exchanges_blockAdd _ hadd hwf' hwanted
  · obtain ⟨⟨_, added⟩, hadd, h⟩ := bind_eq_ok.mp hstep
    cases h
    exact exchanges_receivedBlock _ hget hadd hwf' hwanted
  · cases hstep
    exact exchanges_receivedWant _ _ _ rfl hwf' hwanted
  · obtain ⟨_, hrem, h⟩ := bind_eq_ok.mp hstep
    cases h
    exact exchanges_receivedCancel _ _ hrem hwf' hwanted

end Steps

end LiveTest
