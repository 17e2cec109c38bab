import LiveTest.Service.Schedule

/-!
# What causes an output

A block is sent for an input of the exchange, a message is passed on when it
arrives, a block is wanted when a client asks for it, and the replies of a step
all say the same.

* `step_causedBy`: every output of a step is one that its input causes.
-/

namespace LiveTest

open Rust

variable {L : Libp2p}

/-- What the step of an input replies, if it replies. -/
def Input.reply : Input L → Option (Reply L)
  | .command answers (.publish topic data _) => some (.publish (answers.publish topic data))
  | .command answers (.subscribe topic _ _) => some (.subscribe (answers.subscribe topic))
  | .command answers (.listenOn multiAddr _) =>
    match answers.listenOn multiAddr with
    | .error e => some (.listenOn (.error e))
    | .ok _ => none
  | .command _ (.blockGet _ _) =>
    some (.blockGet (.error ⟨.alreadyExists, "Already Getting Block"⟩))
  | .event (.newListenAddr _ address) => some (.listenOn (.ok address))
  | .event (.behaviour (.kademlia (.outboundQueryCompleted _ (.bootstrap (.ok bootstrapOk))))) =>
    if bootstrapOk.numRemaining = 0 then some (.bootstrap (.ok bootstrapOk)) else none
  | .event (.behaviour (.kademlia (.outboundQueryCompleted _ (.bootstrap (.error e))))) =>
    some (.bootstrap (.error e))
  | .event (.behaviour (.kademlia (.routingUpdated _))) => some .dhtAdd
  | .receivedBlock _ block => some (.blockGet (.ok block))
  | _ => none

/-- The input is one that the output can come from. -/
def Output.CausedBy (i : Input L) : Output L → Prop
  | .sendBlock _ _ => i.IsExchange
  | .message _ m => i = .event (.behaviour (.gossipsub (.message m)))
  | .wantBlock cid _ => ∃ answers sender, i = .command answers (.blockGet cid sender)
  | .reply _ r => i.reply = some r
  | _ => True

theorem expectSend_causedBy {dropped : Finset ChanId} {sender : Option ChanId}
    {f : ChanId → Output L} {out : List (Output L)} {i : Input L}
    (h : Service.expectSend dropped sender f = .ok out) (hf : ∀ chan, (f chan).CausedBy i) :
    ∀ o ∈ out, o.CausedBy i := by
  unfold Service.expectSend at h
  split at h
  · split at h
    · cases h
    · cases h
      simpa using hf _
  · cases h
    simp

theorem sendFirst_causedBy {i : Input L} (hi : i.IsExchange) (pending : Finset (L.PeerId × L.Cid))
    (wanted : List (L.PeerId × Block L.Cid)) :
    ∀ o ∈ (Service.sendFirst pending wanted).2, o.CausedBy i := by
  rcases sendFirst_cases pending wanted with ⟨heq, -⟩ | ⟨_, _, _, _, -, -, -, heq⟩
  · rw [heq]
    simp
  · rw [heq]
    simpa [Output.CausedBy] using hi

theorem command_causedBy {dropped : Finset ChanId} {answers : Answers L} {s s' : Service L}
    {cmd : Command L} {out : List (Output L)} (h : s.command dropped answers cmd = .ok (s', out)) :
    ∀ o ∈ out, o.CausedBy (.command answers cmd) := by
  cases cmd with
  | publish topic data sender =>
    cases h
    split_ifs
    · simp
    · simp [Output.CausedBy, Input.reply]
  | subscribe topic sender stream =>
    have hreply : ∀ res, answers.subscribe topic = res → ∀ chan : ChanId,
        (Output.reply chan (.subscribe res)).CausedBy
          (.command answers (.subscribe topic sender stream)) := by
      rintro res rfl chan
      rfl
    simp only [Service.command] at h
    split at h
    · next e he =>
      obtain ⟨_, hsend, h⟩ := bind_eq_ok.mp h
      cases h
      exact expectSend_causedBy hsend (hreply _ he)
    · next status hstatus =>
      obtain ⟨_, hsend, h⟩ := bind_eq_ok.mp h
      split at h <;> cases h <;> exact expectSend_causedBy hsend (hreply _ hstatus)
  | dhtAdd peerId multiAddr sender =>
    cases h
    simp [Output.CausedBy]
  | bootstrap sender =>
    simp only [Service.command] at h
    split at h <;> cases h <;> simp
  | listenOn multiAddr sender =>
    simp only [Service.command] at h
    split at h
    · next e he =>
      obtain ⟨_, hsend, h⟩ := bind_eq_ok.mp h
      cases h
      exact expectSend_causedBy hsend fun chan => by simp [Output.CausedBy, Input.reply, he]
    · cases h
      simp
  | blockGet cid sender =>
    obtain ⟨replies, hsend, h⟩ := bind_eq_ok.mp h
    cases h
    have hcaused : ∀ o ∈ replies, o.CausedBy (.command answers (.blockGet cid sender)) :=
      expectSend_causedBy hsend (fun _ => rfl)
    intro o ho
    rcases List.mem_append.mp ho with ho | ho
    · exact hcaused o ho
    · rw [List.mem_singleton.mp ho]
      exact ⟨answers, sender, rfl⟩
  | blockAdd block =>
    obtain ⟨_, -, h⟩ := bind_eq_ok.mp h
    cases h
    simp
  | dial multiAddr =>
    cases h
    simp [Output.CausedBy]

theorem kademlia_causedBy {dropped : Finset ChanId} {s s' : Service L} {event : KademliaEvent L}
    {out : List (Output L)} (h : s.kademlia dropped event = .ok (s', out)) :
    ∀ o ∈ out, o.CausedBy (.event (.behaviour (.kademlia event))) := by
  unfold Service.kademlia at h
  split at h
  · split at h
    · next hlast =>
      obtain ⟨_, hsend, h⟩ := bind_eq_ok.mp h
      cases h
      exact expectSend_causedBy hsend fun _ => if_pos hlast
    · cases h
      simp
  · obtain ⟨_, hsend, h⟩ := bind_eq_ok.mp h
    cases h
    exact expectSend_causedBy hsend (fun _ => rfl)
  · obtain ⟨_, hsend, h⟩ := bind_eq_ok.mp h
    cases h
    exact expectSend_causedBy hsend (fun _ => rfl)
  all_goals
    cases h
    simp

theorem gossipsub_causedBy {dropped : Finset ChanId} {s s' : Service L} {event : GossipsubEvent L}
    {out : List (Output L)} (h : s.gossipsub dropped event = .ok (s', out)) :
    ∀ o ∈ out, o.CausedBy (.event (.behaviour (.gossipsub event))) := by
  unfold Service.gossipsub at h
  split at h
  · obtain ⟨_, hsend, h⟩ := bind_eq_ok.mp h
    cases h
    exact expectSend_causedBy hsend (fun _ => rfl)
  all_goals
    cases h
    simp

theorem sendWanted_causedBy {s s' : Service L} {out : List (Output L)} {i : Input L}
    (hi : i.IsExchange) (h : s.sendWanted = .ok (s', out)) : ∀ o ∈ out, o.CausedBy i := by
  obtain ⟨wanted, -, h⟩ := bind_eq_ok.mp h
  cases h
  exact sendFirst_causedBy hi _ _

theorem bitswap_causedBy {dropped : Finset ChanId} {s s' : Service L} {event : BitswapEvent L}
    {out : List (Output L)} (h : s.bitswap dropped event = .ok (s', out)) :
    ∀ o ∈ out, o.CausedBy (.event (.behaviour (.bitswap event))) := by
  have hi : (Input.event (.behaviour (.bitswap event)) : Input L).IsExchange := by
    cases event <;> simp [Input.IsExchange, Input.op]
  cases event with
  | receivedBlock peerId block =>
    obtain ⟨_, -, h⟩ := bind_eq_ok.mp h
    obtain ⟨replies, hreplies, h⟩ := bind_eq_ok.mp h
    have hcaused : ∀ o ∈ replies, o.CausedBy (.receivedBlock peerId block) :=
      expectSend_causedBy hreplies (fun _ => rfl)
    dsimp only at h
    split at h
    · cases h
      exact hcaused
    · obtain ⟨⟨_, sent⟩, hsend, h⟩ := bind_eq_ok.mp h
      cases h
      intro o ho
      rcases List.mem_append.mp ho with ho | ho
      · exact hcaused o ho
      · exact sendWanted_causedBy hi hsend o ho
  | receivedWant peerId cid priority =>
    simp only [Service.bitswap] at h
    split at h
    · cases h
      simp
    · exact sendWanted_causedBy hi h
  | receivedCancel peerId cid =>
    obtain ⟨_, -, h⟩ := bind_eq_ok.mp h
    dsimp only at h
    split at h
    · cases h
      simp
    · exact sendWanted_causedBy hi h

theorem event_causedBy {dropped : Finset ChanId} {s s' : Service L} {event : SwarmEvent L}
    {out : List (Output L)} (h : s.event dropped (some event) = .ok (s', out)) :
    ∀ o ∈ out, o.CausedBy (.event event) := by
  cases event with
  | behaviour event =>
    cases event with
    | ping =>
      cases h
      simp
    | kademlia event => exact kademlia_causedBy h
    | gossipsub event => exact gossipsub_causedBy h
    | bitswap event => exact bitswap_causedBy h
  | newListenAddr listenerId address =>
    obtain ⟨_, hsend, h⟩ := bind_eq_ok.mp h
    cases h
    exact expectSend_causedBy hsend (fun _ => rfl)
  | _ =>
    cases h
    simp

/-- Every output of a step is one that its input causes. -/
theorem step_causedBy {s s' : System L} {i : Input L} {out : List (Output L)}
    (h : s.step i = .ok (s', out)) : ∀ o ∈ out, o.CausedBy i := by
  cases i with
  | command answers cmd =>
    obtain ⟨_, hcmd, h⟩ := bind_eq_ok.mp h
    cases h
    exact command_causedBy hcmd
  | event event =>
    obtain ⟨_, hevent, h⟩ := bind_eq_ok.mp h
    cases h
    exact event_causedBy hevent
  | drop chan =>
    cases h
    simp

/-- Only a received block is handed to a client. -/
theorem eq_receivedBlock_of_reply {i : Input L} {block : Block L.Cid}
    (h : i.reply = some (.blockGet (.ok block))) : ∃ peerId, i = .receivedBlock peerId block := by
  unfold Input.reply at h
  split at h <;> try cases h
  · split at h <;> cases h
  · split_ifs at h
    cases h
  · exact ⟨_, rfl⟩

/-! ## Calls of bitswap -/

/-- The calls of `want_block`. -/
def askedCids (out : List (Output L)) : List L.Cid :=
  out.filterMap fun
    | .wantBlock cid _ => some cid
    | _ => none

theorem mem_askedCids {out : List (Output L)} {cid : L.Cid} :
    cid ∈ askedCids out ↔ ∃ priority, .wantBlock cid priority ∈ out := by
  unfold askedCids
  rw [List.mem_filterMap]
  constructor
  · rintro ⟨o, ho, heq⟩
    cases o with
    | wantBlock cid' priority =>
      cases heq
      exact ⟨priority, ho⟩
    | _ => cases heq
  · rintro ⟨priority, ho⟩
    exact ⟨_, ho, rfl⟩

/-- The calls of `send_block`. -/
def sentBlocks (out : List (Output L)) : List (L.PeerId × Block L.Cid) :=
  out.filterMap fun
    | .sendBlock peer block => some (peer, block)
    | _ => none

theorem mem_sentBlocks {out : List (Output L)} {peer : L.PeerId} {block : Block L.Cid} :
    (peer, block) ∈ sentBlocks out ↔ .sendBlock peer block ∈ out := by
  unfold sentBlocks
  rw [List.mem_filterMap]
  constructor
  · rintro ⟨o, ho, heq⟩
    cases o with
    | sendBlock peer' block' =>
      cases heq
      exact ho
    | _ => cases heq
  · intro ho
    exact ⟨_, ho, rfl⟩

end LiveTest
