import LiveTest.Ledger
import LiveTest.Service.Schedule

/-!
# Replies over whole runs

A reply sender is a one-shot token: it arrives with a command, waits in one of
four tables, and is used for one reply. `Input.effect` says what an input does
with it, and `step_replies` that the step does just that, unless the client it
answers is gone.

* `repliesKept_iff`: no sender is lost exactly when no `Bootstrap` fails and no
  request takes the table entry of a waiting one, `BlockGet` apart.
* `unharmed_iff`: no handler panics exactly when no client has left that a
  handler answers with `expect`.
-/

namespace LiveTest

open Rust Machine Ledger

variable {L : Libp2p}

/-! ## The tables -/

/-- An entry of one of the four tables of reply senders. -/
inductive Slot (L : Libp2p) where
  | routing (peer : L.PeerId)
  | bootstap (id : L.QueryId)
  | listen (id : L.ListenerId)
  | getBlock (cid : L.Cid)
  deriving DecidableEq

/-- The reply senders in the tables. -/
def Service.stored (s : Service L) : Slot L → Option ChanId
  | .routing peer => s.routingUpdates peer
  | .bootstap id => s.pendingBootstap id
  | .listen id => s.pendingListen id
  | .getBlock cid => s.pendingGetBlock cid

/-- The senders that a step uses for a reply. -/
def repliedTo (out : List (Output L)) : List ChanId :=
  out.filterMap fun
    | .reply sender _ => some sender
    | _ => none

/-- What the input does with reply senders. -/
def Input.effect : Input L → Effect (Slot L) ChanId
  | .command _ (.publish _ _ sender) => .spend sender
  | .command _ (.subscribe _ sender _) => .spend sender
  | .command _ (.dhtAdd peerId _ sender) => .park (.routing peerId) sender false
  | .command answers (.bootstrap sender) =>
    match answers.bootstrap with
    | .error _ => .lose sender
    | .ok id => .park (.bootstap id) sender false
  | .command answers (.listenOn multiAddr sender) =>
    match answers.listenOn multiAddr with
    | .error _ => .spend sender
    | .ok id => .park (.listen id) sender false
  -- the one table whose displaced sender is answered
  | .command _ (.blockGet cid sender) => .park (.getBlock cid) sender true
  | .event (.newListenAddr listenerId _) => .take (.listen listenerId)
  | .event (.behaviour (.kademlia (.outboundQueryCompleted id (.bootstrap (.ok bootstrapOk))))) =>
    if bootstrapOk.numRemaining = 0 then .take (.bootstap id) else .skip
  | .event (.behaviour (.kademlia (.outboundQueryCompleted id (.bootstrap (.error _))))) =>
    .take (.bootstap id)
  | .event (.behaviour (.kademlia (.routingUpdated peer))) => .take (.routing peer)
  | .event (.behaviour (.bitswap (.receivedBlock _ block))) => .take (.getBlock block.cid)
  | _ => .skip

/-- The channel on which the step sends with `expect`. -/
def Input.addressee (s : Service L) : Input L → Option ChanId
  | .command _ (.subscribe _ sender _) => some sender
  | .command answers (.listenOn multiAddr sender) =>
    match answers.listenOn multiAddr with
    | .error _ => some sender
    | .ok _ => none
  | .command _ (.blockGet cid _) => s.pendingGetBlock cid
  | .event (.behaviour (.gossipsub (.message message))) => s.pendingSubscribe message.topic
  | i =>
    match i.effect with
    | .take slot => s.stored slot
    | _ => none

/-- The channels whose receiver is gone after the input. -/
def Input.droppedAfter (dropped : Finset ChanId) : Input L → Finset ChanId
  | .drop chan => insert chan dropped
  | _ => dropped

/-- Set an entry. -/
def Service.setStored (s : Service L) (v : Option ChanId) : Slot L → Service L
  | .routing peer => { s with routingUpdates := Function.update s.routingUpdates peer v }
  | .bootstap id => { s with pendingBootstap := Function.update s.pendingBootstap id v }
  | .listen id => { s with pendingListen := Function.update s.pendingListen id v }
  | .getBlock cid => { s with pendingGetBlock := Function.update s.pendingGetBlock cid v }

theorem stored_setStored (s : Service L) (v : Option ChanId) (slot : Slot L) :
    (s.setStored v slot).stored = Function.update s.stored slot v := by
  ext1 slot'
  cases slot <;> cases slot' <;> simp [Service.setStored, Service.stored, Function.update_apply]

theorem setStored_blockExchange (s : Service L) (v : Option ChanId) (slot : Slot L) :
    (s.setStored v slot).blockExchange = s.blockExchange := by
  cases slot <;> rfl

theorem expectSend_ok {dropped : Finset ChanId} {sender : Option ChanId}
    (h : ∀ chan ∈ sender, chan ∉ dropped) (out : ChanId → Output L) :
    Service.expectSend dropped sender out = .ok (sender.toList.map out) := by
  cases sender with
  | none => rfl
  | some chan => simp [Service.expectSend, h chan rfl]

theorem expectSend_panics {dropped : Finset ChanId} {sender : Option ChanId} {chan : ChanId}
    (h : chan ∈ sender) (hd : chan ∈ dropped) (out : ChanId → Output L) :
    Service.expectSend dropped sender out = .error (.expect "Receiver not dropped") := by
  obtain rfl := Option.mem_def.mp h
  simp [Service.expectSend, hd]

theorem repliedTo_sendFirst (pending : Finset (L.PeerId × L.Cid))
    (wanted : List (L.PeerId × Block L.Cid)) :
    repliedTo (Service.sendFirst pending wanted).2 = [] := by
  rcases sendFirst_cases pending wanted with ⟨h, -⟩ | ⟨_, _, _, _, -, -, -, h⟩ <;>
    rw [h] <;> rfl

theorem repliedTo_map (senders : List ChanId) (reply : Reply L) :
    repliedTo (senders.map (.reply · reply)) = senders := by
  simp [repliedTo, List.filterMap_map]

theorem repliedTo_append (out out' : List (Output L)) :
    repliedTo (out ++ out') = repliedTo out ++ repliedTo out' := List.filterMap_append

/-! ## One step -/

/-- The step goes to `s'` and does with the reply senders what `Input.effect` says; only a `Publish`
    gets so far that its client is gone, and is then not answered. -/
structure ReplyStep (s : System L) (i : Input L) (s' : System L) (out : List (Output L)) :
    Prop where
  step : s.step i = .ok (s', out)
  wellFormed : s'.service.blockExchange.WellFormed
  stored : s'.service.stored = i.effect.after s.service.stored
  replied : repliedTo out = (i.effect.spent s.service.stored).filter fun chan => chan ∉ s.dropped
  dropped : s'.dropped = i.droppedAfter s.dropped

section Steps

variable {s : System L} {i : Input L} (t : Service L) (out : List (Output L)) {slot : Slot L}

theorem filter_addressee {dropped : Finset ChanId} {sender : Option ChanId}
    (h : ∀ chan ∈ sender, chan ∉ dropped) :
    (sender.toList.filter fun chan => chan ∉ dropped) = sender.toList :=
  List.filter_eq_self.mpr fun chan hc => by
    simpa using h chan (Option.mem_toList.mp hc)

/-- An input that has nothing to do with reply senders. -/
theorem replyStep_skip (heff : i.effect = .skip) (hd : i.droppedAfter s.dropped = s.dropped)
    (hs : s.step i = .ok ({ s with service := t }, out)) (hwf : t.blockExchange.WellFormed)
    (hstored : t.stored = s.service.stored) (hout : repliedTo out = []) :
    ∃ s' out, ReplyStep s i s' out :=
  ⟨_, out, hs, hwf, by rw [heff]; exact hstored, by rw [heff, hout]; rfl, hd.symm⟩

/-- A command that is answered at once, unless its client is gone. -/
theorem replyStep_spend {sender : ChanId} (heff : i.effect = .spend sender)
    (hd : i.droppedAfter s.dropped = s.dropped)
    (hs : s.step i = .ok ({ s with service := t }, out)) (hwf : t.blockExchange.WellFormed)
    (hstored : t.stored = s.service.stored)
    (hout : repliedTo out = [sender].filter fun chan => chan ∉ s.dropped) :
    ∃ s' out, ReplyStep s i s' out :=
  ⟨_, out, hs, hwf, by rw [heff]; exact hstored, by rw [heff]; exact hout, hd.symm⟩

/-- A command whose sender is put in a table, over what was there. -/
theorem replyStep_park {sender : ChanId} (heff : i.effect = .park slot sender false)
    (hd : i.droppedAfter s.dropped = s.dropped)
    (hs : s.step i = .ok ({ s with service := s.service.setStored (some sender) slot }, out))
    (hwf : s.service.blockExchange.WellFormed) (hout : repliedTo out = []) :
    ∃ s' out, ReplyStep s i s' out :=
  ⟨_, out, hs, by rwa [setStored_blockExchange], by rw [heff]; exact stored_setStored _ _ _,
    by rw [heff, hout]; rfl, hd.symm⟩

/-- An event that answers the sender in a table, and may change `s.service` to `t` besides. -/
theorem replyStep_take (heff : i.effect = .take slot) (hd : i.droppedAfter s.dropped = s.dropped)
    (hs : s.step i = .ok ({ s with service := t.setStored none slot }, out))
    (hwf : t.blockExchange.WellFormed) (hstored : t.stored = s.service.stored)
    (h : ∀ chan ∈ s.service.stored slot, chan ∉ s.dropped)
    (hout : repliedTo out = (s.service.stored slot).toList) : ∃ s' out, ReplyStep s i s' out := by
  refine ⟨_, out, hs, by rwa [setStored_blockExchange], ?_, ?_, hd.symm⟩
  · rw [heff, stored_setStored, hstored]
    rfl
  · rw [heff, hout]
    exact (filter_addressee h).symm

theorem replyStep_command (hwf : s.service.blockExchange.WellFormed) (answers : Answers L)
    (cmd : Command L)
    (h : ∀ chan ∈ (Input.command answers cmd).addressee s.service, chan ∉ s.dropped) :
    ∃ s' out, ReplyStep s (.command answers cmd) s' out := by
  cases cmd with
  | publish topic data sender =>
    refine replyStep_spend _ _ rfl rfl rfl hwf rfl ?_
    by_cases hd : sender ∈ s.dropped <;> simp [repliedTo, hd]
  | subscribe topic sender stream =>
    have hd : sender ∉ s.dropped := h sender rfl
    cases hans : answers.subscribe topic with
    | error e =>
      refine replyStep_spend s.service [.reply sender (.subscribe (.error e))] rfl rfl ?_ hwf rfl ?_
      · simp [System.step, Service.command, hans, Service.expectSend, hd]
      · simp [repliedTo, hd]
    | ok status =>
      cases status with
      | false =>
        refine replyStep_spend s.service [.reply sender (.subscribe (.ok false))] rfl rfl ?_ hwf rfl
          ?_
        · simp [System.step, Service.command, hans, Service.expectSend, hd]
        · simp [repliedTo, hd]
      | true =>
        refine replyStep_spend { s.service with
            pendingSubscribe := Function.update s.service.pendingSubscribe (L.topicHash topic)
              (some stream) }
          [.reply sender (.subscribe (.ok true))] rfl rfl ?_ hwf rfl ?_
        · simp [System.step, Service.command, hans, Service.expectSend, hd]
        · simp [repliedTo, hd]
  | dhtAdd peerId multiAddr sender =>
    exact replyStep_park _ rfl rfl rfl hwf rfl
  | bootstrap sender =>
    cases hans : answers.bootstrap with
    | error e =>
      refine ⟨s, [], ?_, hwf, ?_, ?_, rfl⟩
      · simp [System.step, Service.command, hans]
      · simp [Input.effect, hans, Effect.after]
      · simp [Input.effect, hans, Effect.spent, repliedTo]
    | ok id =>
      have heff : (Input.command answers (.bootstrap sender)).effect =
          .park (.bootstap id) sender false := by simp only [Input.effect, hans]
      refine replyStep_park [] heff rfl ?_ hwf rfl
      simp [System.step, Service.command, hans, Service.setStored]
  | listenOn multiAddr sender =>
    cases hans : answers.listenOn multiAddr with
    | error e =>
      have hd : sender ∉ s.dropped := h sender (by simp [Input.addressee, hans])
      refine replyStep_spend s.service [.reply sender (.listenOn (.error e))]
        (by simp only [Input.effect, hans]; rfl) rfl ?_ hwf rfl ?_
      · simp [System.step, Service.command, hans, Service.expectSend, hd]
      · simp [repliedTo, hd]
    | ok id =>
      have heff : (Input.command answers (.listenOn multiAddr sender)).effect =
          .park (.listen id) sender false := by simp only [Input.effect, hans]
      refine replyStep_park [] heff rfl ?_ hwf rfl
      simp [System.step, Service.command, hans, Service.setStored]
  | blockGet cid sender =>
    have h' : ∀ chan ∈ s.service.pendingGetBlock cid, chan ∉ s.dropped := h
    refine ⟨{ s with service := s.service.setStored (some sender) (.getBlock cid) },
      (s.service.pendingGetBlock cid).toList.map (.reply ·
        (.blockGet (.error ⟨.alreadyExists, "Already Getting Block"⟩))) ++ [.wantBlock cid 0],
      ?_, hwf, stored_setStored s.service (some sender) (.getBlock cid), ?_, rfl⟩
    · simp only [System.step, Service.command, expectSend_ok h', ok_bind, pure_eq_ok,
        Service.setStored]
    · rw [repliedTo_append, repliedTo_map]
      exact (List.append_nil _).trans (filter_addressee h').symm
  | blockAdd block =>
    obtain ⟨store, r, hstep, hwf'⟩ := BlockExchange.step_wellFormed hwf (.addBlock block)
    obtain ⟨⟨_, added⟩, hadd, h⟩ := bind_eq_ok.mp hstep
    cases h
    refine replyStep_skip { s.service with blockExchange := store } [] rfl rfl ?_ hwf' rfl rfl
    simp only [System.step, Service.command, hadd, ok_bind, pure_eq_ok]
  | dial multiAddr => exact replyStep_skip _ _ rfl rfl rfl hwf rfl rfl

theorem replyStep_kademlia (hwf : s.service.blockExchange.WellFormed) (event : KademliaEvent L)
    (h : ∀ chan ∈ (Input.event (.behaviour (.kademlia event))).addressee s.service,
      chan ∉ s.dropped) :
    ∃ s' out, ReplyStep s (.event (.behaviour (.kademlia event))) s' out := by
  cases event with
  | outboundQueryCompleted id result =>
    cases result with
    | other => exact replyStep_skip _ _ rfl rfl rfl hwf rfl rfl
    | bootstrap result =>
      cases result with
      | error e =>
        have h' : ∀ chan ∈ s.service.pendingBootstap id, chan ∉ s.dropped := h
        refine replyStep_take s.service
          ((s.service.pendingBootstap id).toList.map (.reply · (.bootstrap (.error e))))
          rfl rfl ?_ hwf rfl h (repliedTo_map _ _)
        simp only [System.step, Service.event, Service.kademlia, expectSend_ok h', ok_bind,
          pure_eq_ok, Service.setStored]
      | ok bootstrapOk =>
        by_cases hrem : bootstrapOk.numRemaining = 0
        · have heff : (Input.event (.behaviour (.kademlia (.outboundQueryCompleted id
              (.bootstrap (.ok bootstrapOk)))))).effect = .take (.bootstap id) := if_pos hrem
          have h' : ∀ chan ∈ s.service.pendingBootstap id, chan ∉ s.dropped := by
            simpa [Input.addressee, heff, Service.stored] using h
          refine replyStep_take s.service
            ((s.service.pendingBootstap id).toList.map (.reply · (.bootstrap (.ok bootstrapOk))))
            heff rfl ?_ hwf rfl h' (repliedTo_map _ _)
          simp only [System.step, Service.event, Service.kademlia, if_pos hrem,
            expectSend_ok h', ok_bind, pure_eq_ok, Service.setStored]
        · refine replyStep_skip s.service [] (if_neg hrem) rfl ?_ hwf rfl rfl
          simp [System.step, Service.event, Service.kademlia, hrem]
  | routingUpdated peer =>
    have h' : ∀ chan ∈ s.service.routingUpdates peer, chan ∉ s.dropped := h
    refine replyStep_take s.service ((s.service.routingUpdates peer).toList.map (.reply · .dhtAdd))
      rfl rfl ?_ hwf rfl h (repliedTo_map _ _)
    simp only [System.step, Service.event, Service.kademlia, expectSend_ok h', ok_bind, pure_eq_ok,
      Service.setStored]
  | inboundRequest => exact replyStep_skip _ _ rfl rfl rfl hwf rfl rfl
  | unroutablePeer => exact replyStep_skip _ _ rfl rfl rfl hwf rfl rfl
  | routablePeer => exact replyStep_skip _ _ rfl rfl rfl hwf rfl rfl
  | pendingRoutablePeer => exact replyStep_skip _ _ rfl rfl rfl hwf rfl rfl

/-- The loop changes no table and sends no reply. -/
theorem sendWanted_ok {s : Service L} (hwf : s.blockExchange.WellFormed) :
    ∃ pendingSendBlock out, s.sendWanted = .ok ({ s with pendingSendBlock }, out) ∧
      repliedTo out = [] := by
  obtain ⟨wanted, hwanted⟩ : ∃ wanted, s.blockExchange.iterWantedBlocks = .ok wanted :=
    ⟨_, BlockExchange.iterWantedBlocks_eq hwf⟩
  refine ⟨(Service.sendFirst s.pendingSendBlock wanted).1, _, ?_,
    repliedTo_sendFirst s.pendingSendBlock wanted⟩
  simp only [Service.sendWanted, hwanted, ok_bind, pure_eq_ok]

theorem replyStep_bitswap (hwf : s.service.blockExchange.WellFormed) (event : BitswapEvent L)
    (h : ∀ chan ∈ (Input.event (.behaviour (.bitswap event))).addressee s.service,
      chan ∉ s.dropped) :
    ∃ s' out, ReplyStep s (.event (.behaviour (.bitswap event))) s' out := by
  cases event with
  | receivedBlock peerId block =>
    have h' : ∀ chan ∈ s.service.pendingGetBlock block.cid, chan ∉ s.dropped := h
    obtain ⟨store, r, hstep, hwf'⟩ := BlockExchange.step_wellFormed hwf (.addBlock block)
    obtain ⟨⟨_, added⟩, hadd, heq⟩ := bind_eq_ok.mp hstep
    cases heq
    by_cases hcap : s.service.maxConcurrentSend ≤ s.service.pendingSendBlock.card
    · refine replyStep_take { s.service with blockExchange := store }
        ((s.service.pendingGetBlock block.cid).toList.map (.reply · (.blockGet (.ok block))))
        rfl rfl ?_ hwf' rfl h (repliedTo_map _ _)
      simp only [System.step, Service.event, Service.bitswap, hadd, expectSend_ok h', ok_bind,
        ge_iff_le, if_pos hcap, pure_eq_ok, Service.setStored]
    · obtain ⟨pendingSendBlock, sent, hsend, hnone⟩ := sendWanted_ok (s := { s.service with
        blockExchange := store
        pendingGetBlock := Function.update s.service.pendingGetBlock block.cid none }) hwf'
      refine replyStep_take { s.service with blockExchange := store, pendingSendBlock }
        ((s.service.pendingGetBlock block.cid).toList.map (.reply · (.blockGet (.ok block))) ++ sent)
        rfl rfl ?_ hwf' rfl h ?_
      · simp only [System.step, Service.event, Service.bitswap, hadd, expectSend_ok h', ok_bind,
          ge_iff_le, if_neg hcap, hsend, pure_eq_ok, Service.setStored]
      · rw [repliedTo_append, repliedTo_map, hnone, List.append_nil]
        rfl
  | receivedWant peerId cid priority =>
    obtain ⟨store, r, hstep, hwf'⟩ := BlockExchange.step_wellFormed hwf (.addWant peerId cid)
    cases hstep
    by_cases hcap : s.service.maxConcurrentSend ≤ s.service.pendingSendBlock.card
    · refine replyStep_skip { s.service with
          blockExchange := s.service.blockExchange.addWant peerId cid } [] rfl rfl ?_ hwf' rfl rfl
      simp only [System.step, Service.event, Service.bitswap, ge_iff_le, if_pos hcap, pure_eq_ok,
        ok_bind]
    · obtain ⟨pendingSendBlock, sent, hsend, hnone⟩ := sendWanted_ok (s := { s.service with
        blockExchange := s.service.blockExchange.addWant peerId cid }) hwf'
      refine replyStep_skip { s.service with
          blockExchange := s.service.blockExchange.addWant peerId cid
          pendingSendBlock } sent rfl rfl ?_ hwf' rfl hnone
      simp only [System.step, Service.event, Service.bitswap, ge_iff_le, if_neg hcap, hsend,
        ok_bind, pure_eq_ok]
  | receivedCancel peerId cid =>
    obtain ⟨store, r, hstep, hwf'⟩ := BlockExchange.step_wellFormed hwf (.removeWant peerId cid)
    obtain ⟨_, hrem, heq⟩ := bind_eq_ok.mp hstep
    cases heq
    by_cases hsent : (peerId, cid) ∈ s.service.pendingSendBlock
    · obtain ⟨pendingSendBlock, sent, hsend, hnone⟩ := sendWanted_ok (s := { s.service with
        blockExchange := store
        pendingSendBlock := s.service.pendingSendBlock.erase (peerId, cid) }) hwf'
      refine replyStep_skip { s.service with blockExchange := store, pendingSendBlock } sent
        rfl rfl ?_ hwf' rfl hnone
      simp only [System.step, Service.event, Service.bitswap, hrem, ok_bind, not_true_eq_false,
        hsent, if_false, hsend, pure_eq_ok]
    · refine replyStep_skip { s.service with blockExchange := store } [] rfl rfl ?_ hwf' rfl rfl
      simp only [System.step, Service.event, Service.bitswap, hrem, ok_bind, hsent,
        not_false_eq_true, if_true, pure_eq_ok]

/-- A step none of whose `expect`s meets a dropped receiver. -/
theorem step_replies (hwf : s.service.blockExchange.WellFormed) (i : Input L)
    (h : ∀ chan ∈ i.addressee s.service, chan ∉ s.dropped) : ∃ s' out, ReplyStep s i s' out := by
  cases i with
  | command answers cmd => exact replyStep_command hwf answers cmd h
  | drop chan => exact ⟨{ s with dropped := insert chan s.dropped }, [], rfl, hwf, rfl, rfl, rfl⟩
  | event event =>
    cases event with
    | behaviour event =>
      cases event with
      | ping => exact replyStep_skip _ _ rfl rfl rfl hwf rfl rfl
      | kademlia event => exact replyStep_kademlia hwf event h
      | bitswap event => exact replyStep_bitswap hwf event h
      | gossipsub event =>
        cases event with
        | message message =>
          have h' : ∀ chan ∈ s.service.pendingSubscribe message.topic, chan ∉ s.dropped := h
          refine replyStep_skip s.service
            ((s.service.pendingSubscribe message.topic).toList.map (.message · message))
            rfl rfl ?_ hwf rfl ?_
          · simp only [System.step, Service.event, Service.gossipsub, expectSend_ok h', ok_bind,
              pure_eq_ok]
          · cases s.service.pendingSubscribe message.topic <;> rfl
        | subscribed => exact replyStep_skip _ _ rfl rfl rfl hwf rfl rfl
        | unsubscribed => exact replyStep_skip _ _ rfl rfl rfl hwf rfl rfl
        | gossipsubNotSupported => exact replyStep_skip _ _ rfl rfl rfl hwf rfl rfl
    | newListenAddr listenerId address =>
      have h' : ∀ chan ∈ s.service.pendingListen listenerId, chan ∉ s.dropped := h
      refine replyStep_take s.service
        ((s.service.pendingListen listenerId).toList.map (.reply · (.listenOn (.ok address))))
        rfl rfl ?_ hwf rfl h (repliedTo_map _ _)
      simp only [System.step, Service.event, expectSend_ok h', ok_bind, pure_eq_ok,
        Service.setStored]
    | _ => exact replyStep_skip _ _ rfl rfl rfl hwf rfl rfl

/-- The events that answer the sender in a table. -/
theorem effect_eq_take (h : i.effect = .take slot) :
    (∃ listenerId address, i = .event (.newListenAddr listenerId address) ∧
      slot = .listen listenerId) ∨
    (∃ id bootstrapOk, i = .event (.behaviour (.kademlia (.outboundQueryCompleted id
      (.bootstrap (.ok bootstrapOk))))) ∧ bootstrapOk.numRemaining = 0 ∧ slot = .bootstap id) ∨
    (∃ id e, i = .event (.behaviour (.kademlia (.outboundQueryCompleted id
      (.bootstrap (.error e))))) ∧ slot = .bootstap id) ∨
    (∃ peer, i = .event (.behaviour (.kademlia (.routingUpdated peer))) ∧ slot = .routing peer) ∨
    (∃ peerId block, i = .receivedBlock peerId block ∧ slot = .getBlock block.cid) := by
  unfold Input.effect at h
  split at h
  · cases h
  · cases h
  · cases h
  · split at h <;> cases h
  · split at h <;> cases h
  · cases h
  · cases h
    exact .inl ⟨_, _, rfl, rfl⟩
  · split at h
    · rename_i hrem
      cases h
      exact .inr (.inl ⟨_, _, rfl, hrem, rfl⟩)
    · cases h
  · cases h
    exact .inr (.inr (.inl ⟨_, _, rfl, rfl⟩))
  · cases h
    exact .inr (.inr (.inr (.inl ⟨_, rfl, rfl⟩)))
  · cases h
    exact .inr (.inr (.inr (.inr ⟨_, _, rfl, rfl⟩)))
  · cases h

/-- A step whose `expect` meets a dropped receiver. -/
theorem step_panics (hwf : s.service.blockExchange.WellFormed) {chan : ChanId}
    (h : chan ∈ i.addressee s.service) (hd : chan ∈ s.dropped) :
    s.step i = .error (.expect "Receiver not dropped") := by
  unfold Input.addressee at h
  split at h
  · rename_i answers topic sender stream
    cases hans : answers.subscribe topic <;>
      simp [System.step, Service.command, hans, expectSend_panics h hd]
  · split at h
    · rename_i answers multiAddr sender _ e hans
      simp [System.step, Service.command, hans, expectSend_panics h hd]
    · cases h
  · simp [System.step, Service.command, expectSend_panics h hd]
  · simp [System.step, Service.event, Service.gossipsub, expectSend_panics h hd]
  · split at h
    · rename_i slot heff
      rcases effect_eq_take heff with ⟨id, address, rfl, rfl⟩ | ⟨id, bootstrapOk, rfl, hrem, rfl⟩ |
        ⟨id, e, rfl, rfl⟩ | ⟨peer, rfl, rfl⟩ | ⟨peerId, block, rfl, rfl⟩ <;>
        simp only [Service.stored] at h
      · simp [System.step, Service.event, expectSend_panics h hd]
      · simp [System.step, Service.event, Service.kademlia, hrem, expectSend_panics h hd]
      · simp [System.step, Service.event, Service.kademlia, expectSend_panics h hd]
      · simp [System.step, Service.event, Service.kademlia, expectSend_panics h hd]
      · obtain ⟨store, r, hstep, -⟩ := BlockExchange.step_wellFormed hwf (.addBlock block)
        obtain ⟨⟨_, added⟩, hadd, -⟩ := bind_eq_ok.mp hstep
        simp [System.step, Service.event, Service.bitswap, hadd, expectSend_panics h hd]
    · cases h

end Steps

/-! ## No reply is lost -/

/-- The reply sender that a command carries. -/
def Command.sender : Command L → Option ChanId
  | .publish _ _ sender | .subscribe _ sender _ | .dhtAdd _ _ sender | .bootstrap sender
  | .listenOn _ sender | .blockGet _ sender => some sender
  | .blockAdd _ | .dial _ => none

/-- The reply senders received with the inputs. -/
def received (is : List (Input L)) : List ChanId :=
  is.filterMap fun
    | .command _ cmd => cmd.sender
    | _ => none

/-- The senders used for a reply in the steps of a trace. -/
def replied (tr : List (Input L × List (Output L))) : List ChanId :=
  tr.flatMap fun e => repliedTo e.2

/-- The account of the reply senders after a run. -/
def account (s : System L) (tr : List (Input L × List (Output L))) : Account (Slot L) ChanId :=
  ⟨s.service.stored, received (tr.map Prod.fst), replied tr⟩

/-- After the inputs, every reply sender received so far was used for one reply and is in no table,
    or was used for none and is in one. -/
def RepliesKept (maxConcurrentSend : ℕ) (is : List (Input L)) : Prop :=
  ∃ s tr, run System.step (System.new maxConcurrentSend) is = .ok (s, tr) ∧
    ∀ sender ∈ received is,
      ((replied tr).count sender = 1 ∧ ∀ slot, s.service.stored slot ≠ some sender) ∨
      ((replied tr).count sender = 0 ∧ ∃ slot, s.service.stored slot = some sender)

/-- The guard of a step: `kademlia.bootstrap()` returns an id that is not in its table, no other
    `DhtAdd` of the peer waits, and `listen_on` returns no id that is in its table. -/
def KeepsReply (s : System L) : Input L → Prop
  | .command answers (.bootstrap _) =>
    ∃ id, answers.bootstrap = .ok id ∧ s.service.pendingBootstap id = none
  | .command _ (.dhtAdd peerId _ _) => s.service.routingUpdates peerId = none
  | .command answers (.listenOn multiAddr _) =>
    ∀ id, answers.listenOn multiAddr = .ok id → s.service.pendingListen id = none
  | _ => True

/-- An event receives no sender. -/
theorem effect_event (event : SwarmEvent L) :
    (Input.event event).effect = .skip ∨ ∃ slot, (Input.event event).effect = .take slot := by
  cases event with
  | newListenAddr listenerId address => exact .inr ⟨_, rfl⟩
  | behaviour event =>
    cases event with
    | kademlia event =>
      cases event with
      | outboundQueryCompleted id result =>
        cases result with
        | bootstrap result =>
          cases result with
          | ok bootstrapOk =>
            by_cases hrem : bootstrapOk.numRemaining = 0
            · exact .inr ⟨_, if_pos hrem⟩
            · exact .inl (if_neg hrem)
          | error e => exact .inr ⟨_, rfl⟩
        | other => exact .inl rfl
      | routingUpdated peer => exact .inr ⟨_, rfl⟩
      | _ => exact .inl rfl
    | bitswap event =>
      cases event with
      | receivedBlock peerId block => exact .inr ⟨_, rfl⟩
      | _ => exact .inl rfl
    | _ => exact .inl rfl
  | _ => exact .inl rfl

theorem effect_received (i : Input L) : i.effect.received =
    match i with
    | .command _ cmd => cmd.sender
    | _ => none := by
  cases i with
  | command answers cmd =>
    cases cmd with
    | bootstrap sender =>
      cases h : answers.bootstrap <;> simp [Input.effect, h, Effect.received, Command.sender]
    | listenOn multiAddr sender =>
      cases h : answers.listenOn multiAddr <;>
        simp [Input.effect, h, Effect.received, Command.sender]
    | _ => rfl
  | drop chan => rfl
  | event event => rcases effect_event event with h | ⟨slot, h⟩ <;> rw [h] <;> rfl

theorem received_concat (is : List (Input L)) (i : Input L) :
    received (is ++ [i]) = received is ++ i.effect.received.toList := by
  rw [received, List.filterMap_append, effect_received]
  cases i with
  | command answers cmd => cases hc : cmd.sender <;> simp [received, hc]
  | drop chan => simp [received]
  | event event => simp [received]

theorem keeps_effect_iff {s : System L} {i : Input L} :
    i.effect.Keeps s.service.stored ↔ KeepsReply s i := by
  cases i with
  | command answers cmd =>
    cases cmd with
    | bootstrap sender =>
      cases h : answers.bootstrap <;>
        simp [Input.effect, h, Effect.Keeps, KeepsReply, Service.stored]
    | listenOn multiAddr sender =>
      cases h : answers.listenOn multiAddr <;>
        simp [Input.effect, h, Effect.Keeps, KeepsReply, Service.stored]
    | _ => exact Iff.rfl
  | drop chan => exact Iff.rfl
  | event event =>
    refine iff_of_true ?_ trivial
    rcases effect_event event with h | ⟨slot, h⟩ <;> rw [h] <;> trivial

/-- A step does to the account what its effect says. -/
theorem ReplyStep.account_eq {s s' : System L} {i : Input L} {out : List (Output L)}
    (h : ReplyStep s i s' out) (hdropped : s.dropped = ∅)
    (tr : List (Input L × List (Output L))) :
    account s' (tr ++ [(i, out)]) = i.effect.apply (account s tr) := by
  have hreplied : repliedTo out = i.effect.spent s.service.stored := by
    rw [h.replied, hdropped]
    exact List.filter_eq_self.mpr (by simp)
  rw [account, Effect.apply, List.map_append, List.map_singleton, received_concat,
    LiveTest.replied, List.flatMap_append, h.stored]
  simp only [List.flatMap_singleton, hreplied]
  rfl

theorem account_init (maxConcurrentSend : ℕ) :
    account (System.new maxConcurrentSend : System L) [] = ⟨fun _ => none, [], []⟩ := by
  have hstored : (Service.new maxConcurrentSend : Service L).stored = fun _ => none := by
    ext1 slot
    cases slot <;> rfl
  rw [account, System.new, hstored]
  rfl

/-- The invariant of the runs that lose no reply. -/
structure Replying (s : System L) (tr : List (Input L × List (Output L))) : Prop where
  wellFormed : s.service.blockExchange.WellFormed
  dropped_eq : s.dropped = ∅
  sound : (account s tr).Sound

/-- Every client waits, and every request has a reply sender of its own. -/
def ClientsWait (is : List (Input L)) : Prop :=
  (∀ i ∈ is, ∀ chan, i ≠ .drop chan) ∧ (received is).Nodup

theorem ClientsWait.of_concat (is : List (Input L)) (i : Input L) (h : ClientsWait (is ++ [i])) :
    ClientsWait is := by
  refine ⟨fun j hj => h.1 j (List.mem_append_left _ hj), ?_⟩
  have := h.2
  rw [received_concat] at this
  exact (List.nodup_append.mp this).1

/-- The sender of the next request is a new one. -/
theorem ClientsWait.fresh {is : List (Input L)} {i : Input L} (h : ClientsWait (is ++ [i])) :
    ∀ sender ∈ i.effect.received, sender ∉ received is := by
  intro sender hs hmem
  have := h.2
  rw [received_concat, List.nodup_append] at this
  exact this.2.2 sender hmem sender (Option.mem_toList.mpr hs) rfl

theorem Replying.step {s : System L} {tr : List (Input L × List (Output L))} (h : Replying s tr)
    {i : Input L} (hwait : ClientsWait (tr.map Prod.fst ++ [i])) :
    ∃ s' out, s.step i = .ok (s', out) ∧
      account s' (tr ++ [(i, out)]) = i.effect.apply (account s tr) ∧
      (KeepsReply s i → Replying s' (tr ++ [(i, out)])) := by
  have hno : ∀ chan ∈ i.addressee s.service, chan ∉ s.dropped := by simp [h.dropped_eq]
  obtain ⟨s', out, hstep⟩ := step_replies h.wellFormed i hno
  have hacc := hstep.account_eq h.dropped_eq tr
  refine ⟨s', out, hstep.step, hacc, fun hkeeps => ⟨hstep.wellFormed, ?_, ?_⟩⟩
  · rw [hstep.dropped, h.dropped_eq]
    cases i with
    | drop chan => exact absurd rfl (hwait.1 _ (by simp) chan)
    | _ => rfl
  · rw [hacc]
    exact h.sound.apply hwait.fresh (keeps_effect_iff.mpr hkeeps)

/-- No reply sender is ever lost exactly when no `Bootstrap` fails, and no request takes the table
    entry of a waiting one. `BlockGet` may: there the displaced sender is answered. -/
theorem repliesKept_iff (maxConcurrentSend : ℕ) {is : List (Input L)} (hwait : ClientsWait is) :
    (∀ pre, pre <+: is → RepliesKept maxConcurrentSend pre) ↔
      Meets System.step KeepsReply (System.new maxConcurrentSend) is := by
  refine forall_prefix_iff_meets ClientsWait Replying ClientsWait.of_concat ?_ ?_ ?_ ?_ hwait
  · exact ⟨BlockExchange.WellFormed.default, rfl, by rw [account_init]; exact Account.Sound.init⟩
  · intro s tr i h hwait hkeeps
    obtain ⟨s', out, hs, -, hnext⟩ := h.step hwait
    exact ⟨s', out, hs, hnext hkeeps⟩
  · intro is s tr hrun h
    refine ⟨s, tr, hrun, ?_⟩
    rw [← trace_inputs hrun]
    exact h.sound.balanced
  · intro is s tr i hrun h hwait hkeeps
    rw [← trace_inputs hrun] at hwait
    obtain ⟨s', out, hs, hacc, -⟩ := h.step hwait
    have hbad := not_balanced_of_not_keeps h.sound hwait.fresh (mt keeps_effect_iff.mp hkeeps)
    rintro ⟨s'', tr'', hrun', hkept⟩
    have hrun'' := run_concat_eq_ok.mpr ⟨s, tr, out, hrun, hs, rfl⟩
    rw [hrun''] at hrun'
    cases hrun'
    rw [← trace_inputs hrun''] at hkept
    rw [← hacc] at hbad
    exact hbad hkept

/-- A `Bootstrap` without known peers: the sender is dropped. -/
theorem not_repliesKept_example :
    ¬ RepliesKept 1 ([.command { Answers.nat with bootstrap := .error 0 } (.bootstrap 0)] :
      List (Input Libp2p.nat)) := by
  rintro ⟨s, tr, hrun, hkept⟩
  obtain ⟨s', tr', hrun', hreplied, hstored⟩ : ∃ s' tr',
      run System.step (System.new 1 : System Libp2p.nat)
        [.command { Answers.nat with bootstrap := .error 0 } (.bootstrap 0)] = .ok (s', tr') ∧
      replied tr' = [] ∧ ∀ slot, s'.service.stored slot = none :=
    ⟨_, _, rfl, rfl, fun slot => by cases slot <;> rfl⟩
  rw [hrun'] at hrun
  cases hrun
  rcases hkept 0 (by simp [received, Command.sender]) with ⟨hcount, -⟩ | ⟨-, slot, hslot⟩
  · simp [hreplied] at hcount
  · simp [hstored] at hslot

/-- A `ListenOn` that is answered, and two `BlockGet`s of one cid. -/
theorem repliesKept_iff_example :
    RepliesKept 1 ([.command Answers.nat (.listenOn 5 0), .event (.newListenAddr 0 5),
      .command Answers.nat (.blockGet 1 1), .command Answers.nat (.blockGet 1 2)] :
      List (Input Libp2p.nat)) := by
  have hwait : ClientsWait ([.command Answers.nat (.listenOn 5 0), .event (.newListenAddr 0 5),
      .command Answers.nat (.blockGet 1 1), .command Answers.nat (.blockGet 1 2)] :
      List (Input Libp2p.nat)) := ⟨by simp, by decide⟩
  refine (repliesKept_iff 1 hwait).mpr ⟨?_, trivial, trivial, trivial, trivial⟩ _
    (List.prefix_refl _)
  exact fun _ _ => rfl

/-! ## Clients that give up -/

/-- The channel on which the step sends. -/
def Input.recipient (s : Service L) : Input L → Option ChanId
  | .command _ (.publish _ _ sender) => some sender
  | i => i.addressee s

/-- Every pending request and every stream but those of `chan` are as they were. -/
def OthersKept (chan : ChanId) (s s' : Service L) : Prop :=
  (∀ slot, s'.stored slot = s.stored slot ∨ s.stored slot = some chan) ∧
  ∀ topic, s'.pendingSubscribe topic = s.pendingSubscribe topic ∨
    s.pendingSubscribe topic = some chan

/-- No handler panicked, and if the last one sent to a client that is gone, it left the pending
    requests and the streams of the others alone. -/
def Unharmed (maxConcurrentSend : ℕ) (is : List (Input L)) : Prop :=
  ∃ s tr, run System.step (System.new maxConcurrentSend) is = .ok (s, tr) ∧
    ∀ earlier i t tr', is = earlier ++ [i] →
      run System.step (System.new maxConcurrentSend) earlier = .ok (t, tr') →
      ∀ chan ∈ i.recipient t.service, chan ∈ t.dropped → OthersKept chan t.service s.service

/-- The guard of a step: the client that it answers with `expect` is still there. -/
def ReceiverThere (s : System L) (i : Input L) : Prop :=
  ∀ chan ∈ i.addressee s.service, chan ∉ s.dropped

/-- A step that does not panic met its guard. -/
theorem receiverThere_of_step {s s' : System L} (hwf : s.service.blockExchange.WellFormed)
    {i : Input L} {out : List (Output L)} (hs : s.step i = .ok (s', out)) : ReceiverThere s i := by
  intro chan hc hd
  rw [step_panics hwf hc hd] at hs
  cases hs

theorem wellFormed_of_run {maxConcurrentSend : ℕ} {is : List (Input L)} {s : System L}
    {tr : List (Input L × List (Output L))}
    (hrun : run System.step (System.new maxConcurrentSend) is = .ok (s, tr)) :
    s.service.blockExchange.WellFormed := by
  refine inv_of_run (fun s _ => s.service.blockExchange.WellFormed)
    BlockExchange.WellFormed.default ?_ hrun
  intro t tr i u out hwf hs
  obtain ⟨u', out', h⟩ := step_replies hwf i (receiverThere_of_step hwf hs)
  rw [h.step] at hs
  cases hs
  exact h.wellFormed

/-- Only a `Publish` gets to send to a client that is gone; it changes nothing. -/
theorem othersKept_of_step {s s' : System L} (hwf : s.service.blockExchange.WellFormed)
    {i : Input L} {out : List (Output L)} (hs : s.step i = .ok (s', out)) {chan : ChanId}
    (hc : chan ∈ i.recipient s.service) (hd : chan ∈ s.dropped) :
    OthersKept chan s.service s'.service := by
  have hguard := receiverThere_of_step hwf hs
  unfold Input.recipient at hc
  split at hc
  · cases hs
    exact ⟨fun _ => .inl rfl, fun _ => .inl rfl⟩
  · exact absurd hd (hguard chan hc)

/-- No handler panics, and none harms the other clients, exactly when no client is gone that a
    handler answers with `expect`. -/
theorem unharmed_iff (maxConcurrentSend : ℕ) (is : List (Input L)) :
    (∀ pre, pre <+: is → Unharmed maxConcurrentSend pre) ↔
      Meets System.step ReceiverThere (System.new maxConcurrentSend) is := by
  refine forall_prefix_iff_meets (fun _ => True)
    (fun s _ => s.service.blockExchange.WellFormed) (fun _ _ _ => trivial)
    BlockExchange.WellFormed.default ?_ ?_ ?_ trivial
  · intro s tr i hwf _ hguard
    obtain ⟨s', out, h⟩ := step_replies hwf i hguard
    exact ⟨s', out, h.step, h.wellFormed⟩
  · rintro is s tr hrun -
    refine ⟨s, tr, hrun, ?_⟩
    rintro earlier i t tr' rfl hrun' chan hc hd
    obtain ⟨t', tr'', out, hr, hs, -⟩ := run_concat_eq_ok.mp hrun
    rw [hrun'] at hr
    cases hr
    exact othersKept_of_step (wellFormed_of_run hrun') hs hc hd
  · rintro is s tr i hrun hwf - hguard ⟨s', tr', hrun', -⟩
    obtain ⟨t, tr'', out, hr, hs, -⟩ := run_concat_eq_ok.mp hrun'
    rw [hrun] at hr
    cases hr
    exact hguard (receiverThere_of_step hwf hs)

/-- A client subscribes, drops its stream, and a message on its topic arrives. -/
theorem not_unharmed_example :
    ¬ Unharmed 1 ([.command Answers.nat (.subscribe "video" 0 1), .drop 1,
      .event (.behaviour (.gossipsub (.message ⟨"video", [7]⟩)))] : List (Input Libp2p.nat)) := by
  rintro ⟨s, tr, hrun, -⟩
  have hpanic : run System.step (System.new 1 : System Libp2p.nat)
      [.command Answers.nat (.subscribe "video" 0 1), .drop 1,
        .event (.behaviour (.gossipsub (.message ⟨"video", [7]⟩)))] =
      .error (.expect "Receiver not dropped") := rfl
  rw [hpanic] at hrun
  cases hrun

end LiveTest
