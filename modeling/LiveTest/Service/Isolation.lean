import LiveTest.Service.Outputs
import LiveTest.Service.Sends

/-!
# The block exchange beside the rest of the service

The service runs its block exchange in the same loop as its topics, its DHT and
its reply senders. The inputs of the others leave the store and the slots as
they are and send no block, and the inputs of the exchange do not look at the
tables for what they send.

* `run_exchangePart`: in every run that does not panic, the store, the slots and
  the sends are those of the run over the inputs of the exchange alone.
* `slots_of_run`: so the slots are kept, and no pair is sent twice, whatever else
  the service is given to do.
-/

namespace LiveTest

open Rust Machine

variable {L : Libp2p}

/-- A block is sent. -/
def Output.isSend : Output L → Bool
  | .sendBlock _ _ => true
  | _ => false

/-- The store and the slots, in a service that does nothing else. -/
def System.exchangePart (s : System L) : System L where
  service := { Service.new s.service.maxConcurrentSend with
    blockExchange := s.service.blockExchange
    pendingSendBlock := s.service.pendingSendBlock }
  dropped := ∅

/-! ## The other inputs -/

/-- The step changes neither the store nor the slots. -/
structure Service.Apart (s s' : Service L) : Prop where
  blockExchange : s'.blockExchange = s.blockExchange
  pendingSendBlock : s'.pendingSendBlock = s.pendingSendBlock
  maxConcurrentSend : s'.maxConcurrentSend = s.maxConcurrentSend

theorem command_apart {dropped : Finset ChanId} {answers : Answers L} {s s' : Service L}
    {cmd : Command L} {out : List (Output L)} (hcmd : ∀ block, cmd ≠ .blockAdd block)
    (h : s.command dropped answers cmd = .ok (s', out)) : s.Apart s' := by
  cases cmd with
  | publish topic data sender =>
    cases h
    exact ⟨rfl, rfl, rfl⟩
  | subscribe topic sender stream =>
    simp only [Service.command] at h
    split at h
    · obtain ⟨_, -, h⟩ := bind_eq_ok.mp h
      cases h
      exact ⟨rfl, rfl, rfl⟩
    · obtain ⟨_, -, h⟩ := bind_eq_ok.mp h
      split at h <;> cases h <;> exact ⟨rfl, rfl, rfl⟩
  | dhtAdd peerId multiAddr sender =>
    cases h
    exact ⟨rfl, rfl, rfl⟩
  | bootstrap sender =>
    simp only [Service.command] at h
    split at h <;> cases h <;> exact ⟨rfl, rfl, rfl⟩
  | listenOn multiAddr sender =>
    simp only [Service.command] at h
    split at h
    · obtain ⟨_, -, h⟩ := bind_eq_ok.mp h
      cases h
      exact ⟨rfl, rfl, rfl⟩
    · cases h
      exact ⟨rfl, rfl, rfl⟩
  | blockGet cid sender =>
    obtain ⟨_, -, h⟩ := bind_eq_ok.mp h
    cases h
    exact ⟨rfl, rfl, rfl⟩
  | blockAdd block => exact absurd rfl (hcmd block)
  | dial multiAddr =>
    cases h
    exact ⟨rfl, rfl, rfl⟩

theorem kademlia_apart {dropped : Finset ChanId} {s s' : Service L} {event : KademliaEvent L}
    {out : List (Output L)} (h : s.kademlia dropped event = .ok (s', out)) : s.Apart s' := by
  unfold Service.kademlia at h
  split at h
  · split at h
    · obtain ⟨_, -, h⟩ := bind_eq_ok.mp h
      cases h
      exact ⟨rfl, rfl, rfl⟩
    · cases h
      exact ⟨rfl, rfl, rfl⟩
  · obtain ⟨_, -, h⟩ := bind_eq_ok.mp h
    cases h
    exact ⟨rfl, rfl, rfl⟩
  · obtain ⟨_, -, h⟩ := bind_eq_ok.mp h
    cases h
    exact ⟨rfl, rfl, rfl⟩
  all_goals
    cases h
    exact ⟨rfl, rfl, rfl⟩

/-- The events other than those of bitswap. -/
theorem event_apart {dropped : Finset ChanId} {s s' : Service L} {event : SwarmEvent L}
    {out : List (Output L)} (hevent : ∀ e, event ≠ .behaviour (.bitswap e))
    (h : s.event dropped (some event) = .ok (s', out)) : s.Apart s' := by
  cases event with
  | behaviour event =>
    cases event with
    | ping =>
      cases h
      exact ⟨rfl, rfl, rfl⟩
    | kademlia event => exact kademlia_apart h
    | gossipsub event =>
      cases event with
      | message message =>
        obtain ⟨_, -, h⟩ := bind_eq_ok.mp h
        cases h
        exact ⟨rfl, rfl, rfl⟩
      | _ =>
        cases h
        exact ⟨rfl, rfl, rfl⟩
    | bitswap event => exact absurd rfl (hevent event)
  | newListenAddr listenerId address =>
    obtain ⟨_, -, h⟩ := bind_eq_ok.mp h
    cases h
    exact ⟨rfl, rfl, rfl⟩
  | _ =>
    cases h
    exact ⟨rfl, rfl, rfl⟩

theorem Service.Apart.exchangePart {s s' : System L} (h : s.service.Apart s'.service) :
    s'.exchangePart = s.exchangePart := by
  unfold System.exchangePart
  rw [h.blockExchange, h.pendingSendBlock, h.maxConcurrentSend]

/-- An input that is not one of the exchange leaves it alone. -/
theorem step_apart {s s' : System L} {i : Input L} {out : List (Output L)} (hi : ¬ i.IsExchange)
    (h : s.step i = .ok (s', out)) : s.service.Apart s'.service := by
  cases i with
  | command answers cmd =>
    obtain ⟨_, hcmd, h⟩ := bind_eq_ok.mp h
    cases h
    refine command_apart ?_ hcmd
    rintro block rfl
    exact hi (by simp [Input.IsExchange, Input.op])
  | event event =>
    obtain ⟨_, hevent, h⟩ := bind_eq_ok.mp h
    cases h
    refine event_apart ?_ hevent
    rintro (_ | _ | _) rfl <;> exact hi (by simp [Input.IsExchange, Input.op])
  | drop chan =>
    cases h
    exact ⟨rfl, rfl, rfl⟩

/-- Nor does it send a block. -/
theorem sends_of_not_exchange {s s' : System L} {i : Input L} {out : List (Output L)}
    (hi : ¬ i.IsExchange) (h : s.step i = .ok (s', out)) : out.filter Output.isSend = [] := by
  refine List.filter_eq_nil_iff.mpr fun o ho => ?_
  have hcaused := step_causedBy h o ho
  cases o with
  | sendBlock peer block => exact absurd hcaused hi
  | _ => simp [Output.isSend]

/-! ## The inputs of the exchange -/

theorem expectSend_sends {dropped : Finset ChanId} {sender : Option ChanId}
    {reply : ChanId → Reply L} {out : List (Output L)}
    (h : Service.expectSend dropped sender (fun chan => .reply chan (reply chan)) = .ok out) :
    out.filter Output.isSend = [] := by
  unfold Service.expectSend at h
  split at h
  · split at h
    · cases h
    · cases h
      rfl
  · cases h
    rfl

/-- The loop over the wanted blocks looks at the store and the slots only, and changes the slots. -/
theorem sendWanted_view {s s' : Service L} {out : List (Output L)}
    (h : s.sendWanted = .ok (s', out)) (t : Service L)
    (hstore : t.blockExchange = s.blockExchange)
    (hslots : t.pendingSendBlock = s.pendingSendBlock) :
    s' = { s with pendingSendBlock := s'.pendingSendBlock } ∧ out.filter Output.isSend = out ∧
      t.sendWanted = .ok ({ t with pendingSendBlock := s'.pendingSendBlock }, out) := by
  obtain ⟨wanted, hwanted, h⟩ := bind_eq_ok.mp h
  cases h
  refine ⟨rfl, ?_, ?_⟩
  · rcases sendFirst_cases s.pendingSendBlock wanted with ⟨heq, -⟩ | ⟨_, _, _, _, -, -, -, heq⟩ <;>
      rw [heq] <;> rfl
  · simp only [Service.sendWanted, hstore, hslots, hwanted, ok_bind, pure_eq_ok]

theorem blockAdd_exchangePart {s s' : System L} {answers : Answers L} {block : Block L.Cid}
    {out : List (Output L)} (h : s.step (.blockAdd answers block) = .ok (s', out)) :
    s.exchangePart.step (.blockAdd answers block) =
      .ok (s'.exchangePart, out.filter Output.isSend) := by
  obtain ⟨_, hcmd, h⟩ := bind_eq_ok.mp h
  cases h
  obtain ⟨⟨store, added⟩, hadd, h⟩ := bind_eq_ok.mp hcmd
  cases h
  simp [System.step, Service.command, System.exchangePart, hadd]

theorem receivedBlock_exchangePart {s s' : System L} {peerId : L.PeerId} {block : Block L.Cid}
    {out : List (Output L)} (h : s.step (.receivedBlock peerId block) = .ok (s', out)) :
    s.exchangePart.step (.receivedBlock peerId block) =
      .ok (s'.exchangePart, out.filter Output.isSend) := by
  obtain ⟨⟨service, out'⟩, hevent, h⟩ := bind_eq_ok.mp h
  cases h
  obtain ⟨⟨store, added⟩, hadd, h⟩ := bind_eq_ok.mp hevent
  obtain ⟨replies, hreplies, h⟩ := bind_eq_ok.mp h
  have hnone := expectSend_sends hreplies
  dsimp only at h
  split at h
  · rename_i hcap
    cases h
    simp [System.step, Service.event, Service.bitswap, Service.expectSend, System.exchangePart,
      Service.new, hadd, hnone, Nat.le_of_not_lt (not_lt.mpr hcap)]
  · rename_i hcap
    have hnot : ¬ s.service.maxConcurrentSend ≤ s.service.pendingSendBlock.card := hcap
    obtain ⟨⟨service', sent⟩, hsend, h⟩ := bind_eq_ok.mp h
    cases h
    obtain ⟨heq, hall, hview⟩ := sendWanted_view hsend
      { s.exchangePart.service with blockExchange := store } rfl rfl
    rw [List.filter_append, hnone, hall, heq]
    simp only [System.exchangePart, Service.new] at hview
    simp [System.step, Service.event, Service.bitswap, Service.expectSend, System.exchangePart,
      Service.new, hadd, hnot, hview]

theorem receivedWant_exchangePart {s s' : System L} {peerId : L.PeerId} {cid : L.Cid}
    {priority : ℤ} {out : List (Output L)}
    (h : s.step (.receivedWant peerId cid priority) = .ok (s', out)) :
    s.exchangePart.step (.receivedWant peerId cid priority) =
      .ok (s'.exchangePart, out.filter Output.isSend) := by
  obtain ⟨⟨service, out'⟩, hevent, h⟩ := bind_eq_ok.mp h
  cases h
  simp only [Service.event, Service.bitswap] at hevent
  split at hevent
  · rename_i hcap
    cases hevent
    simp [System.step, Service.event, Service.bitswap, System.exchangePart, Service.new,
      Nat.le_of_not_lt (not_lt.mpr hcap)]
  · rename_i hcap
    have hnot : ¬ s.service.maxConcurrentSend ≤ s.service.pendingSendBlock.card := hcap
    obtain ⟨heq, hall, hview⟩ := sendWanted_view hevent { s.exchangePart.service with
      blockExchange := s.service.blockExchange.addWant peerId cid } rfl rfl
    rw [hall, heq]
    simp only [System.exchangePart, Service.new] at hview
    simp [System.step, Service.event, Service.bitswap, System.exchangePart, Service.new,
      hnot, hview]

theorem receivedCancel_exchangePart {s s' : System L} {peerId : L.PeerId} {cid : L.Cid}
    {out : List (Output L)} (h : s.step (.receivedCancel peerId cid) = .ok (s', out)) :
    s.exchangePart.step (.receivedCancel peerId cid) =
      .ok (s'.exchangePart, out.filter Output.isSend) := by
  obtain ⟨⟨service, out'⟩, hevent, h⟩ := bind_eq_ok.mp h
  cases h
  obtain ⟨store, hremove, h⟩ := bind_eq_ok.mp hevent
  dsimp only at h
  split at h
  · rename_i hnot
    cases h
    simp [System.step, Service.event, Service.bitswap, System.exchangePart, Service.new, hremove,
      hnot]
  · rename_i hmem
    rw [not_not] at hmem
    obtain ⟨heq, hall, hview⟩ := sendWanted_view h { s.exchangePart.service with
      blockExchange := store
      pendingSendBlock := s.service.pendingSendBlock.erase (peerId, cid) } rfl rfl
    rw [hall, heq]
    simp only [System.exchangePart, Service.new] at hview
    simp [System.step, Service.event, Service.bitswap, System.exchangePart, Service.new, hremove,
      hmem, hview]

/-- An input of the exchange does in the service what it does in the exchange alone. -/
theorem step_exchangePart {s s' : System L} {i : Input L} {out : List (Output L)}
    (hi : i.IsExchange) (h : s.step i = .ok (s', out)) :
    s.exchangePart.step i = .ok (s'.exchangePart, out.filter Output.isSend) := by
  unfold Input.IsExchange Input.op at hi
  split at hi
  · exact blockAdd_exchangePart h
  · exact receivedBlock_exchangePart h
  · exact receivedWant_exchangePart h
  · exact receivedCancel_exchangePart h
  · exact absurd rfl hi

/-- What an input of the exchange does in a state that a run can reach. -/
theorem exchange_of_step {maxConcurrentSend : ℕ} {s s' : System L} {i : Input L}
    {tr : List (Input L × List (Output L))} {out : List (Output L)}
    (h : Sending maxConcurrentSend s.exchangePart tr) {op : BlockExchange.Op L.PeerId L.Cid}
    (hop : i.op = some op) (hstep : s.step i = .ok (s', out)) :
    ∃ r wanted, BlockExchange.step s.service.blockExchange op =
        .ok (s'.service.blockExchange, r) ∧ s'.service.blockExchange.WellFormed ∧
      s'.service.blockExchange.iterWantedBlocks = .ok wanted ∧
      Scheduled i s.service.maxConcurrentSend s.service.pendingSendBlock wanted
        s'.service.pendingSendBlock (out.filter Output.isSend) ∧
      Sending maxConcurrentSend s'.exchangePart (tr ++ [(i, out.filter Output.isSend)]) := by
  have hi : i.IsExchange := by
    unfold Input.IsExchange
    rw [hop]
    simp
  obtain ⟨store, r, wanted, pending, out', hcall, hwf, hwanted, hsch, hs⟩ :=
    step_exchange h.wellFormed h.noWaiter hop
  have hnext := h.exchange hop hcall hwf hwanted hsch
  rw [step_exchangePart hi hstep] at hs
  obtain ⟨hs', rfl⟩ := Prod.mk.inj (Except.ok.inj hs)
  rw [← hs'] at hnext
  have hstore : s'.service.blockExchange = store :=
    congrArg (fun t : System L => t.service.blockExchange) hs'
  have hpending : s'.service.pendingSendBlock = pending :=
    congrArg (fun t : System L => t.service.pendingSendBlock) hs'
  subst hstore hpending
  exact ⟨r, wanted, hcall, hwf, hwanted, hsch, hnext⟩

/-! ## Whole runs -/

/-- What a trace shows of the exchange. -/
def exchangeTrace (tr : List (Input L × List (Output L))) : List (Input L × List (Output L)) :=
  (tr.filter fun e => decide e.1.IsExchange).map fun e => (e.1, e.2.filter Output.isSend)

/-- The exchange runs on its own. -/
theorem run_view_exchangePart {is : List (Input L)} {s t : System L}
    {tr : List (Input L × List (Output L))} (hrun : run System.step s is = .ok (t, tr)) :
    run System.step s.exchangePart (is.filter fun i => decide i.IsExchange) =
      .ok (t.exchangePart, exchangeTrace tr) :=
  run_filter (fun i : Input L => decide i.IsExchange) System.exchangePart (List.filter Output.isSend)
    (fun _ _ _ _ hi h => (step_apart (of_decide_eq_false hi) h).exchangePart)
    (fun _ _ _ _ hi h => step_exchangePart (of_decide_eq_true hi) h) hrun

theorem sentPairs_filter (out : List (Output L)) :
    sentPairs (out.filter Output.isSend) = sentPairs out := by
  unfold sentPairs
  rw [List.filterMap_filter]
  apply List.filterMap_congr
  intro o _
  cases o <;> rfl

/-- Only the inputs of the exchange send blocks. -/
def ExchangeSends (tr : List (Input L × List (Output L))) : Prop :=
  EachStep (fun _ i out => ¬ i.IsExchange → sentPairs out = []) tr

theorem exchangeSends_of_run {is : List (Input L)} {s t : System L}
    {tr : List (Input L × List (Output L))} (hrun : run System.step s is = .ok (t, tr)) :
    ExchangeSends tr := by
  refine inv_of_run (fun _ tr => ExchangeSends tr) (eachStep_nil _) ?_ hrun
  intro s tr i s' out h hstep
  refine eachStep_concat.mpr ⟨h, fun hi => ?_⟩
  rw [← sentPairs_filter, sends_of_not_exchange hi hstep]
  rfl

/-- Whatever commands and events come between, and whatever replies and messages they cause, a run
    that does not panic has the store, the slots and the sends of the run over the inputs of the
    exchange alone: no other input sends a block. -/
theorem run_exchangePart (maxConcurrentSend : ℕ) {is : List (Input L)} {s : System L}
    {tr : List (Input L × List (Output L))}
    (hrun : run System.step (System.new maxConcurrentSend) is = .ok (s, tr)) :
    run System.step (System.new maxConcurrentSend) (is.filter fun i => decide i.IsExchange) =
        .ok (s.exchangePart, exchangeTrace tr) ∧
      ExchangeSends tr := ⟨run_view_exchangePart hrun, exchangeSends_of_run hrun⟩

/-- A `get_block` that waits is answered by the block that is sent on. -/
theorem run_exchangePart_example :
    run System.step (System.new 1 : System Libp2p.nat)
      [.receivedWant 0 1 0, .receivedBlock 5 ⟨[7], 1⟩] =
        .ok (System.exchangePart ⟨{ Service.new 1 with
            blockExchange := ⟨[0], [0], [0], [1], [[7]]⟩
            pendingSendBlock := {(0, 1)} }, {9}⟩,
          [(.receivedWant 0 1 0, []), (.receivedBlock 5 ⟨[7], 1⟩, [.sendBlock 0 ⟨[7], 1⟩])]) ∧
      ExchangeSends (L := Libp2p.nat) [(.receivedWant 0 1 0, []),
        (.command Answers.nat (.blockGet 1 3), [.wantBlock 1 0]), (.drop 9, []),
        (.receivedBlock 5 ⟨[7], 1⟩,
          [.reply 3 (.blockGet (.ok ⟨[7], 1⟩)), .sendBlock 0 ⟨[7], 1⟩])] := by
  have hrun : run System.step (System.new 1 : System Libp2p.nat)
      [.receivedWant 0 1 0, .command Answers.nat (.blockGet 1 3), .drop 9,
        .receivedBlock 5 ⟨[7], 1⟩] =
      .ok (⟨{ Service.new 1 with
            blockExchange := ⟨[0], [0], [0], [1], [[7]]⟩
            pendingGetBlock := Function.update (Function.update (fun _ => none) 1 (some 3)) 1 none
            pendingSendBlock := {(0, 1)} }, {9}⟩,
          [(.receivedWant 0 1 0, []), (.command Answers.nat (.blockGet 1 3), [.wantBlock 1 0]),
            (.drop 9, []), (.receivedBlock 5 ⟨[7], 1⟩,
              [.reply 3 (.blockGet (.ok ⟨[7], 1⟩)), .sendBlock 0 ⟨[7], 1⟩])]) := rfl
  exact run_exchangePart 1 hrun

/-! ## The history of the sends -/

theorem Input.Cancels.isExchange {i : Input L} {w : L.PeerId × L.Cid} (h : i.Cancels w) :
    i.IsExchange := by
  unfold Input.IsExchange
  rw [h]
  simp

theorem exchangeTrace_concat (tr : List (Input L × List (Output L))) (i : Input L)
    (out : List (Output L)) :
    exchangeTrace (tr ++ [(i, out)]) =
      exchangeTrace tr ++ if i.IsExchange then [(i, out.filter Output.isSend)] else [] := by
  unfold exchangeTrace
  by_cases hi : i.IsExchange <;> simp [hi]

/-- The store and the sends are followed through a step of the whole service. -/
theorem Tracking.step_service {maxConcurrentSend : ℕ} {s s' : System L}
    {tr : List (Input L × List (Output L))} {i : Input L} {out : List (Output L)}
    (h : Tracking maxConcurrentSend s.exchangePart (exchangeTrace tr)) (hguard : StoreAligned s i)
    (hstep : s.step i = .ok (s', out)) :
    Tracking maxConcurrentSend s'.exchangePart (exchangeTrace (tr ++ [(i, out)])) := by
  rw [exchangeTrace_concat]
  by_cases hi : i.IsExchange
  · obtain ⟨t, out', ht, htracking⟩ := h.step hi hguard
    rw [step_exchangePart hi hstep] at ht
    cases ht
    rwa [if_pos hi]
  · rwa [if_neg hi, List.append_nil, (step_apart hi hstep).exchangePart]

theorem calls_exchangeTrace (tr : List (Input L × List (Output L))) :
    calls ((exchangeTrace tr).map Prod.fst) = calls (tr.map Prod.fst) := by
  unfold calls exchangeTrace
  rw [List.map_map, List.filterMap_map, List.filterMap_map, List.filterMap_filter]
  apply List.filterMap_congr
  intro e _
  by_cases hi : e.1.IsExchange
  · simp [hi]
  · have hnone : e.1.op = none := not_not.mp hi
    simp [hi, hnone]

/-- The store has the first data that was added or received under each cid. -/
theorem Tracking.getBlock_eq_firstAdded {maxConcurrentSend : ℕ} {s : System L}
    {tr : List (Input L × List (Output L))}
    (h : Tracking maxConcurrentSend s.exchangePart (exchangeTrace tr)) (c : L.Cid) :
    s.service.blockExchange.getBlock c =
      (BlockExchange.firstAdded (calls (tr.map Prod.fst)) c).map fun data => ⟨data, c⟩ := by
  obtain ⟨ctr, haligned, hctr⟩ := h.aligned
  rw [← calls_exchangeTrace, ← hctr]
  exact haligned.getBlock_eq c

/-- The want list is the outstanding wants. -/
theorem Tracking.wants_eq_outstanding {maxConcurrentSend : ℕ} {s : System L}
    {tr : List (Input L × List (Output L))}
    (h : Tracking maxConcurrentSend s.exchangePart (exchangeTrace tr)) :
    s.service.blockExchange.wants = BlockExchange.outstanding (calls (tr.map Prod.fst)) := by
  rw [← calls_exchangeTrace]
  exact h.wants_eq

/-- What is in flight is seen in the trace of the exchange. -/
theorem inFlight_exchangeTrace {tr : List (Input L × List (Output L))} (h : ExchangeSends tr)
    (w : L.PeerId × L.Cid) : InFlight (exchangeTrace tr) w ↔ InFlight tr w := by
  induction tr using List.reverseRecOn with
  | nil => rfl
  | append_singleton tr e ih =>
    obtain ⟨i, out⟩ := e
    obtain ⟨htr, hout⟩ := eachStep_concat.mp h
    rw [exchangeTrace_concat, inFlight_concat, InFlightAt, ← ih htr]
    by_cases hi : i.IsExchange
    · rw [if_pos hi, inFlight_concat, InFlightAt, sentPairs_filter]
    · have hno : ¬ i.Cancels w := fun hc => hi hc.isExchange
      rw [if_neg hi, hout hi, List.append_nil]
      simp [hno]

theorem inFlightAt_exchangeTrace {tr : List (Input L × List (Output L))} (h : ExchangeSends tr)
    (i : Input L) (w : L.PeerId × L.Cid) :
    InFlightAt (exchangeTrace tr) i w ↔ InFlightAt tr i w :=
  and_congr_left fun _ => inFlight_exchangeTrace h w

theorem calls_exchangeTrace_concat (tr : List (Input L × List (Output L))) (i : Input L) :
    calls ((exchangeTrace tr).map Prod.fst ++ [i]) = calls (tr.map Prod.fst ++ [i]) := by
  have happend : ∀ is : List (Input L), calls (is ++ [i]) = calls is ++ calls [i] :=
    fun is => List.filterMap_append
  rw [happend, happend, calls_exchangeTrace]

theorem sendsNew_exchangeTrace {tr : List (Input L × List (Output L))} (h : ExchangeSends tr)
    (hnew : EachStep SendsNew (exchangeTrace tr)) : EachStep SendsNew tr := by
  induction tr using List.reverseRecOn with
  | nil => exact eachStep_nil _
  | append_singleton tr e ih =>
    obtain ⟨i, out⟩ := e
    obtain ⟨htr, hout⟩ := eachStep_concat.mp h
    rw [exchangeTrace_concat] at hnew
    by_cases hi : i.IsExchange
    · rw [if_pos hi, eachStep_concat] at hnew
      obtain ⟨hbefore, hnodup, hfresh⟩ := hnew
      rw [sentPairs_filter] at hnodup hfresh
      refine eachStep_concat.mpr ⟨ih htr hbefore, hnodup, fun w hw hfl => hfresh w hw ?_⟩
      exact (inFlightAt_exchangeTrace htr i w).mpr hfl
    · rw [if_neg hi, List.append_nil] at hnew
      refine eachStep_concat.mpr ⟨ih htr hnew, ?_⟩
      rw [SendsNew, hout hi]
      simp

/-- What the sends of the exchange answer is what those of the service do. -/
theorem answersOldest_exchangeTrace {tr : List (Input L × List (Output L))} (h : ExchangeSends tr)
    (hanswers : EachStep AnswersOldest (exchangeTrace tr)) : EachStep AnswersOldest tr := by
  induction tr using List.reverseRecOn with
  | nil => exact eachStep_nil _
  | append_singleton tr e ih =>
    obtain ⟨i, out⟩ := e
    obtain ⟨htr, hout⟩ := eachStep_concat.mp h
    rw [exchangeTrace_concat] at hanswers
    by_cases hi : i.IsExchange
    · rw [if_pos hi, eachStep_concat] at hanswers
      obtain ⟨hbefore, hlast⟩ := hanswers
      refine eachStep_concat.mpr ⟨ih htr hbefore, fun p b hsend => ?_⟩
      have hlast' := hlast p b (List.mem_filter.mpr ⟨hsend, rfl⟩)
      simpa only [calls_exchangeTrace_concat, inFlightAt_exchangeTrace htr] using hlast'
    · rw [if_neg hi, List.append_nil] at hanswers
      refine eachStep_concat.mpr ⟨ih htr hanswers, fun p b hsend => ?_⟩
      have hpair : (p, b.cid) ∈ sentPairs out := mem_sentPairs.mpr ⟨b, hsend, rfl⟩
      rw [hout hi] at hpair
      cases hpair

/-- The invariant of the sends holds of the exchange part of any run. -/
theorem sending_of_run {maxConcurrentSend : ℕ} {is : List (Input L)} {s : System L}
    {tr : List (Input L × List (Output L))}
    (hrun : run System.step (System.new maxConcurrentSend) is = .ok (s, tr)) :
    Sending maxConcurrentSend s.exchangePart (exchangeTrace tr) := by
  have his : ∀ i ∈ is.filter fun i => decide i.IsExchange, i.IsExchange :=
    fun i hi => of_decide_eq_true (List.mem_filter.mp hi).2
  obtain ⟨s', tr', hrun', h⟩ := exists_sending_run maxConcurrentSend his
  have hview : run System.step (System.new maxConcurrentSend)
      (is.filter fun i => decide i.IsExchange) = .ok (s.exchangePart, exchangeTrace tr) :=
    run_view_exchangePart hrun
  rw [hview] at hrun'
  cases hrun'
  exact h

/-- In every run that does not panic, over any commands, events and departures: the slots are what
    is in flight, never more than the cap, no pair is sent twice, and each pair in flight is a want
    for a block that the store has. -/
theorem slots_of_run (maxConcurrentSend : ℕ) {is : List (Input L)} {s : System L}
    {tr : List (Input L × List (Output L))}
    (hrun : run System.step (System.new maxConcurrentSend) is = .ok (s, tr)) :
    (∀ w, w ∈ s.service.pendingSendBlock ↔ InFlight tr w) ∧
      s.service.pendingSendBlock.card ≤ maxConcurrentSend ∧ EachStep SendsNew tr ∧
      ∀ w ∈ s.service.pendingSendBlock, w ∈ s.service.blockExchange.wants ∧
        s.service.blockExchange.getBlock w.2 ≠ none := by
  have hsends := exchangeSends_of_run hrun
  have h := sending_of_run hrun
  refine ⟨fun w => ?_, h.card_le, sendsNew_exchangeTrace hsends h.sends_new, h.held⟩
  rw [← inFlight_exchangeTrace hsends]
  exact h.mem_pending w

/-- With a cap of one, and a `get_block` and a client that leaves beside the sends. -/
theorem slots_of_run_example : ∃ s tr,
    run System.step (System.new 1 : System Libp2p.nat)
      [.receivedWant 0 1 0, .command Answers.nat (.blockGet 1 3), .receivedBlock 5 ⟨[7], 1⟩,
        .drop 9, .receivedWant 2 1 0] = .ok (s, tr) ∧ s.service.pendingSendBlock.card ≤ 1 := by
  have hrun : ∃ s tr, run System.step (System.new 1 : System Libp2p.nat)
      [.receivedWant 0 1 0, .command Answers.nat (.blockGet 1 3), .receivedBlock 5 ⟨[7], 1⟩,
        .drop 9, .receivedWant 2 1 0] = .ok (s, tr) := ⟨_, _, rfl⟩
  obtain ⟨s, tr, hrun⟩ := hrun
  exact ⟨s, tr, hrun, (slots_of_run 1 hrun).2.1⟩

end LiveTest
