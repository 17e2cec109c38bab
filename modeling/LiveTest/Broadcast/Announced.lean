import LiveTest.Broadcast.Steady
import LiveTest.Service.Serving

/-!
# Blocks are stored before they are announced

`generate_video` sends the `BlockAdd`s of a segment before its `Publish`, into one
channel, so when a viewer learns of a cid the streamer has the block.

* `announced_of_run`: in every run, over any interleaving of the nodes, the blocks
  that a message names or a viewer asks for are in the store of the streamer.
* `streamer_serving`: its store, its wants and its sends are therefore what the
  inputs say, and no want is stranded.
-/

namespace LiveTest

open Rust Machine

variable {L : Libp2p} {σ : Type}

/-! ## The channel of the commands -/

/-- A message names known blocks only. -/
def Vouched (setting : Setting L σ) (known : L.Cid → Prop) (data : Bytes) : Prop :=
  ∀ msg, setting.fromSlice data = some msg → ∀ cid ∈ msg.cids, known cid

/-- In the channel, every message comes behind the blocks that it names. -/
def Announces (setting : Setting L σ) (known : L.Cid → Prop) : List (Command L) → Prop
  | [] => True
  | .blockAdd block :: commands =>
    Announces setting (fun cid => known cid ∨ cid = block.cid) commands
  | .publish _ data _ :: commands => Vouched setting known data ∧ Announces setting known commands
  | _ :: commands => Announces setting known commands

section Announces

variable {setting : Setting L σ} {known known' : L.Cid → Prop} {cmd : Command L}
  {commands commands' : List (Command L)}

theorem Vouched.mono {data : Bytes} (h : Vouched setting known data)
    (hmono : ∀ cid, known cid → known' cid) : Vouched setting known' data :=
  fun msg hmsg cid hcid => hmono cid (h msg hmsg cid hcid)

theorem Announces.mono (h : Announces setting known commands)
    (hmono : ∀ cid, known cid → known' cid) : Announces setting known' commands := by
  induction commands generalizing known known' with
  | nil => trivial
  | cons cmd commands ih =>
    cases cmd with
    | blockAdd block => exact ih h fun cid => Or.imp_left (hmono cid)
    | publish topic data sender => exact ⟨h.1.mono hmono, ih h.2 hmono⟩
    | _ => exact ih h hmono

/-- The rest of the channel, when the service has taken a command. -/
theorem Announces.tail (h : Announces setting known (cmd :: commands))
    (hmono : ∀ cid, known cid → known' cid)
    (hadded : ∀ block, cmd = .blockAdd block → known' block.cid) :
    Announces setting known' commands := by
  cases cmd with
  | blockAdd block =>
    refine Announces.mono h fun cid hcid => ?_
    rcases hcid with hcid | rfl
    · exact hmono cid hcid
    · exact hadded block rfl
  | publish topic data sender => exact h.2.mono hmono
  | _ => exact Announces.mono h hmono

theorem Announces.append (h : Announces setting known commands)
    (h' : ∀ known', (∀ cid, known cid → known' cid) → Announces setting known' commands') :
    Announces setting known (commands ++ commands') := by
  induction commands generalizing known with
  | nil => exact h' known fun _ => id
  | cons cmd commands ih =>
    cases cmd with
    | blockAdd block =>
      exact ih h fun known' hmono => h' known' fun cid hcid => hmono cid (.inl hcid)
    | publish topic data sender => exact ⟨h.1, ih h.2 h'⟩
    | _ => exact ih h h'

/-- The blocks of a segment and then its message. -/
theorem announces_segment {topic : String} {data : Bytes} {sender : ChanId}
    {blocks : List (Block L.Cid)}
    (h : Vouched setting (fun cid => known cid ∨ cid ∈ blocks.map Block.cid) data) :
    Announces setting known (blocks.map .blockAdd ++ [.publish topic data sender]) := by
  induction blocks generalizing known with
  | nil => exact ⟨h.mono fun cid hcid => hcid.resolve_right List.not_mem_nil, trivial⟩
  | cons block blocks ih =>
    refine ih (h.mono fun cid hcid => ?_)
    rwa [List.map_cons, List.mem_cons, ← or_assoc] at hcid

/-- What gossipsub accepts of a command. -/
theorem Announces.accepted (h : Announces setting known (cmd :: commands)) (answers : Answers L) :
    ∀ message ∈ accepted answers cmd, Vouched setting known message.data := by
  cases cmd with
  | publish topic data sender =>
    simp only [LiveTest.accepted]
    split
    · simpa using h.1
    · simp
  | _ => exact fun _ hmessage => absurd hmessage List.not_mem_nil

end Announces

/-- A segment that is generated goes into the channel announced. -/
theorem Streamer.announces_generateVideo {setting : Setting L σ} {known : L.Cid → Prop}
    {s s' : Streamer L σ} {now : Int64}
    (hcodec : ∀ msg, setting.fromSlice (setting.toVec msg) = some msg)
    (h : Announces setting known s.commands) (hmade : s.generateVideo setting now = .ok s') :
    Announces setting known s'.commands := by
  obtain ⟨counter, blocks, rng, -, -, rfl⟩ := generateVideo_eq_ok.mp hmade
  dsimp only
  rw [List.append_assoc]
  refine h.append fun known' _ => announces_segment fun msg hmsg cid hcid => ?_
  rw [hcodec] at hmsg
  cases hmsg
  exact .inr hcid

/-! ## A viewer -/

/-- What a viewer has heard of is known. -/
structure Audience.Knows (setting : Setting L σ) (known : L.Cid → Prop) (a : Audience L) :
    Prop where
  bufferOk : a.viewer.player.stream.BufferOk
  stream : ∀ message ∈ a.stream, Vouched setting known message.data
  messages : ∀ msg ∈ a.viewer.player.messages, ∀ cid ∈ msg.cids, known cid
  commands : ∀ cid sender, .blockGet cid sender ∈ a.viewer.commands → known cid
  asked : ∀ cid ∈ a.asked, known cid

section Knows

variable {setting : Setting L σ} {known known' : L.Cid → Prop} {a a' : Audience L}
  {va : Viewer.Action L} {e : Player.Event L.Cid}

theorem Audience.Knows.mono (h : a.Knows setting known) (hmono : ∀ cid, known cid → known' cid) :
    a.Knows setting known' where
  bufferOk := h.bufferOk
  stream := fun message hmessage => (h.stream message hmessage).mono hmono
  messages := fun msg hmsg cid hcid => hmono cid (h.messages msg hmsg cid hcid)
  commands := fun cid sender hcmd => hmono cid (h.commands cid sender hcmd)
  asked := fun cid hcid => hmono cid (h.asked cid hcid)

theorem Audience.Knows.viewer (h : a.Knows setting known) {viewer : Viewer L}
    (hgossip : ∀ receiveTime msg, va = .gossip receiveTime msg → ∀ cid ∈ msg.cids, known cid)
    (hs : a.viewer.step .wraps va = .ok (viewer, e)) :
    Audience.Knows setting known { a with viewer } := by
  cases Viewer.took_of_step hs with
  | idle => exact h
  | played hown hs =>
    obtain ⟨hok, hmessages⟩ := Player.messages_of_step h.bufferOk hs
    refine ⟨hok, h.stream, fun msg hmsg => ?_, h.commands, h.asked⟩
    rcases hmessages msg hmsg with hmsg | ⟨receiveTime, rfl⟩
    · exact h.messages msg hmsg
    · refine hgossip receiveTime msg ?_
      cases va <;> cases hown
      rfl
  | requested hfound hnext =>
    refine ⟨h.bufferOk, h.stream, h.messages, fun cid sender hcmd => ?_, h.asked⟩
    rcases List.mem_append.mp hcmd with hcmd | hcmd
    · exact h.commands cid sender hcmd
    · cases List.mem_singleton.mp hcmd
      have htask := List.mem_of_find?_eq_some (Viewer.message_eq_some.mp hfound)
      exact h.messages _ (List.mem_append_right _ (List.mem_map_of_mem htask)) _
        (List.mem_of_getElem? hnext)
  | served hfirst hs =>
    refine ⟨h.bufferOk, h.stream, h.messages, fun cid sender hcmd => h.commands cid sender ?_,
      h.asked⟩
    rw [hfirst]
    exact List.mem_cons_of_mem _ hcmd
  | notified hs => exact ⟨h.bufferOk, h.stream, h.messages, h.commands, h.asked⟩

/-- A viewer learns of blocks from the messages it takes and those that come to its service. -/
theorem Audience.Knows.step (h : a.Knows setting known)
    (hgossip : ∀ receiveTime msg, va = .gossip receiveTime msg → ∀ cid ∈ msg.cids, known cid)
    (hmessage : ∀ message, va = .event (.behaviour (.gossipsub (.message message))) →
      Vouched setting known message.data)
    (hs : a.stepViewer .wraps va = .ok (a', e)) : a'.Knows setting known := by
  have hstream := Audience.mem_stream_of_step hs
  have hasked := Audience.mem_asked_of_step hs
  obtain ⟨viewer, hstep, rfl⟩ := Audience.stepViewer_eq_ok.mp hs
  have hviewer := h.viewer hgossip hstep
  refine ⟨hviewer.bufferOk, fun message hmem => ?_, hviewer.messages, hviewer.commands,
    fun cid hmem => ?_⟩
  · rcases hstream message hmem with hmem | heq
    · exact h.stream message hmem
    · exact hmessage message heq
  · rcases hasked cid hmem with hmem | ⟨sender, hcmd⟩
    · exact h.asked cid hmem
    · exact h.commands cid sender hcmd

end Knows

/-! ## The live stream -/

/-- The streamer's service has taken the `BlockAdd` of a block. -/
def Added (tr : List (Broadcast.Action L × Broadcast.Seen L)) (cid : L.Cid) : Prop :=
  ∃ answers block, .blockAdd answers block ∈ (Broadcast.serviceTrace tr).map Prod.fst ∧
    block.cid = cid

/-- The invariant. -/
structure Announced (setting : Setting L σ) (b : Broadcast L σ)
    (tr : List (Broadcast.Action L × Broadcast.Seen L)) : Prop where
  serving : Serving (2 * setting.maxConcurrentSend).toNat b.streamer.system
    (Broadcast.serviceTrace tr)
  commands : Announces setting (Added tr) b.streamer.commands
  published : ∀ message ∈ b.published, Vouched setting (Added tr) message.data
  audience : ∀ peer, (b.audience peer).Knows setting (Added tr)

section Step

open Broadcast

variable {setting : Setting L σ} {b b' : Broadcast L σ}
  {tr : List (Broadcast.Action L × Broadcast.Seen L)} {action : Broadcast.Action L}
  {seen : Broadcast.Seen L}

theorem Announced.init {rng : σ} {simId : L.PeerId → UInt64}
    (h : Broadcast.new setting rng simId = .ok b) : Announced setting b [] := by
  obtain ⟨streamer, hstreamer, rfl⟩ := new_eq_ok h
  obtain rfl := Streamer.new_eq_ok hstreamer
  refine ⟨Serving.init _, trivial, fun _ hmessage => absurd hmessage List.not_mem_nil,
    fun peer => ?_⟩
  refine ⟨VideoStream.bufferOk_new _ _, ?_, ?_, ?_, ?_⟩ <;>
    simp [Audience.new, Viewer.new, Player.new, Player.messages, VideoStream.new]

theorem serviceTrace_concat (tr : List (Broadcast.Action L × Broadcast.Seen L))
    (action : Broadcast.Action L) (seen : Broadcast.Seen L) :
    serviceTrace (tr ++ [(action, seen)]) =
      serviceTrace tr ++ (serviceEntry (action, seen)).toList := by
  rw [serviceTrace, List.filterMap_append]
  cases h : serviceEntry (action, seen) <;> simp [h, serviceTrace]

theorem Added.concat {cid : L.Cid} (h : Added tr cid) (action : Broadcast.Action L)
    (seen : Broadcast.Seen L) : Added (tr ++ [(action, seen)]) cid := by
  obtain ⟨answers, block, hmem, hblock⟩ := h
  refine ⟨answers, block, ?_, hblock⟩
  rw [serviceTrace_concat, List.map_append]
  exact List.mem_append_left _ hmem

theorem Announced.held_of_added (h : Announced setting b tr) {cid : L.Cid} (hadded : Added tr cid) :
    b.streamer.system.service.blockExchange.getBlock cid ≠ none := by
  obtain ⟨answers, block, hmem, rfl⟩ := hadded
  exact h.serving.held_of_added (List.mem_filterMap.mpr ⟨_, hmem, rfl⟩)

/-- An action that does nothing to the streamer's service, and after which everything that is known
    was added before. -/
theorem Announced.concat (h : Announced setting b tr) (hentry : serviceEntry (action, seen) = none)
    (hsystem : b'.streamer.system = b.streamer.system)
    (hcommands : Announces setting (Added tr) b'.streamer.commands)
    (hpublished : b'.published = b.published)
    (haudience : ∀ peer, (b'.audience peer).Knows setting (Added tr)) :
    Announced setting b' (tr ++ [(action, seen)]) where
  serving := by
    rw [serviceTrace_concat, hentry, hsystem]
    simpa using h.serving
  commands := hcommands.mono fun cid hcid => hcid.concat action seen
  published := by
    rw [hpublished]
    exact fun message hmem => (h.published message hmem).mono fun cid hcid => hcid.concat _ _
  audience := fun peer => (haudience peer).mono fun cid hcid => hcid.concat action seen

/-- A step of the streamer's service for what it has in its store. -/
theorem Announced.served (h : Announced setting b tr) {i : Input L} {system : System L}
    {out : List (Output L)} (hguard : WantsHeld b.streamer.system i)
    (hs : b.streamer.system.step i = .ok (system, out))
    (hsystem : b'.streamer.system = system)
    (hcommands : Announces setting (Added (tr ++ [(action, .served i out)])) b'.streamer.commands)
    (hpublished : ∀ message ∈ b'.published, Vouched setting (Added tr) message.data)
    (haudience : b'.audience = b.audience) :
    Announced setting b' (tr ++ [(action, .served i out)]) where
  serving := by
    rw [serviceTrace_concat, hsystem]
    exact h.serving.step hguard hs
  commands := hcommands
  published := fun message hmem => (hpublished message hmem).mono fun cid hcid => hcid.concat _ _
  audience := fun peer => by
    rw [haudience]
    exact (h.audience peer).mono fun cid hcid => hcid.concat _ _

/-- A viewer asks for nothing that was not added. -/
theorem Announced.wantsHeld (h : Announced setting b tr) {event : SwarmEvent L}
    (hallows : b.Allows event) : WantsHeld b.streamer.system (.event event) := by
  unfold WantsHeld
  split
  · next heq =>
    cases heq
    exact h.held_of_added ((h.audience _).asked _ hallows)
  · trivial

/-- What a viewer is offered names only blocks that were added. -/
theorem Announced.offered (h : Announced setting b tr) {peer : L.PeerId} {a : Audience L}
    {va : Viewer.Action L} (offered : Offers setting b action peer a va) :
    a.Knows setting (Added tr) ∧
    (∀ receiveTime msg, va = .gossip receiveTime msg → ∀ cid ∈ msg.cids, Added tr cid) ∧
    ∀ message, va = .event (.behaviour (.gossipsub (.message message))) →
      Vouched setting (Added tr) message.data := by
  have hpeer := h.audience peer
  cases offered with
  | hand hpublished hnew =>
    refine ⟨⟨hpeer.bufferOk, hpeer.stream, hpeer.messages, hpeer.commands, hpeer.asked⟩,
      fun _ _ heq => (nomatch heq), fun message heq => ?_⟩
    cases heq
    exact h.published _ (List.mem_of_getElem? hpublished)
  | listen hfirst hdecoded =>
    have hstream := hpeer.stream
    rw [hfirst, List.forall_mem_cons] at hstream
    refine ⟨⟨hpeer.bufferOk, hstream.2, hpeer.messages, hpeer.commands, hpeer.asked⟩,
      fun receiveTime msg heq => ?_, fun _ heq => nomatch heq⟩
    cases heq
    exact hstream.1 _ hdecoded
  | view hmay =>
    refine ⟨hpeer, fun receiveTime msg heq => ?_, fun message heq => ?_⟩ <;> subst heq <;>
      cases hmay

theorem Announced.step (hcodec : ∀ msg, setting.fromSlice (setting.toVec msg) = some msg)
    (h : Announced setting b tr) (hs : b.step setting action = .ok (b', seen)) :
    Announced setting b' (tr ++ [(action, seen)]) := by
  have hviewer := (took_of_step hs).viewer
  cases took_of_step hs with
  | idle action => exact h.concat rfl rfl h.commands rfl h.audience
  | generate hready hmade =>
    have hcommands := Streamer.announces_generateVideo hcodec h.commands hmade
    obtain ⟨_, _, _, -, -, rfl⟩ := Streamer.generateVideo_eq_ok.mp hmade
    exact h.concat rfl rfl hcommands rfl h.audience
  | serve hfirst hstep =>
    rename_i answers cmd commands streamer out
    obtain ⟨system, hsystem, rfl⟩ := Streamer.stepSystem_eq_ok.mp hstep
    have hcommands := h.commands
    rw [hfirst] at hcommands
    refine h.served trivial hsystem rfl (hcommands.tail (fun cid hcid => hcid.concat _ _) ?_) ?_ rfl
    · rintro block rfl
      refine ⟨answers, block, ?_, rfl⟩
      rw [serviceTrace_concat]
      simp [serviceEntry]
    · intro message hmem
      rcases List.mem_append.mp hmem with hmem | hmem
      · exact h.published message hmem
      · exact hcommands.accepted answers message hmem
  | event hallows hstep =>
    obtain ⟨system, hsystem, rfl⟩ := Streamer.stepSystem_eq_ok.mp hstep
    exact h.served (h.wantsHeld hallows) hsystem rfl
      (h.commands.mono fun cid hcid => hcid.concat _ _) h.published rfl
  | hangUp hreplied hstep =>
    obtain ⟨system, hsystem, rfl⟩ := Streamer.stepSystem_eq_ok.mp hstep
    exact h.served trivial hsystem rfl (h.commands.mono fun cid hcid => hcid.concat _ _)
      h.published rfl
  | viewed offered hstep =>
    refine h.concat rfl rfl h.commands rfl fun peer => ?_
    rcases hviewer peer with ⟨-, heq⟩ | ⟨a, va, e, hoffered, -, hstepped⟩
    · rw [heq]
      exact h.audience peer
    · obtain ⟨hknows, hgossip, hmessage⟩ := h.offered hoffered
      exact hknows.step hgossip hmessage hstepped

end Step

/-! ## Runs -/

section Runs

variable {setting : Setting L σ} {rng : σ} {simId : L.PeerId → UInt64} {b : Broadcast L σ}
  {is : List (Broadcast.Action L)} {tr : List (Broadcast.Action L × Broadcast.Seen L)}

theorem announced (hcodec : ∀ msg, setting.fromSlice (setting.toVec msg) = some msg)
    (hrun : Broadcast.live setting rng simId is = .ok (b, tr)) : Announced setting b tr :=
  Broadcast.inv_of_live _ (fun _ => Announced.init) (fun _ _ _ _ _ h hs => h.step hcodec hs) hrun

/-- In every run of the live stream, the `BlockAdd` of a block comes before gossipsub accepts a
    message that names it and before a viewer asks for it, and the streamer has the block from
    then on. -/
theorem announced_of_run (hcodec : ∀ msg, setting.fromSlice (setting.toVec msg) = some msg)
    (hrun : Broadcast.live setting rng simId is = .ok (b, tr)) :
    (∀ cid, Added tr cid → b.streamer.system.service.blockExchange.getBlock cid ≠ none) ∧
    (∀ message ∈ b.published, ∀ msg, setting.fromSlice message.data = some msg →
      ∀ cid ∈ msg.cids, Added tr cid) ∧
    ∀ peer, ∀ cid ∈ (b.audience peer).asked, Added tr cid := by
  have h := announced hcodec hrun
  exact ⟨fun cid => h.held_of_added, h.published, fun peer => (h.audience peer).asked⟩

/-- The viewer of the segment asked for its block. -/
theorem announced_of_run_example :
    ∃ b tr, Broadcast.live Setting.nat () UInt64.ofNat Broadcast.oneSegment = .ok (b, tr) ∧
      (∀ cid, Added tr cid → b.streamer.system.service.blockExchange.getBlock cid ≠ none) ∧
      ∀ peer, ∀ cid ∈ (b.audience peer).asked, Added tr cid := by
  obtain ⟨b, tr, hrun⟩ := Broadcast.exists_live_oneSegment
  obtain ⟨hheld, -, hasked⟩ := announced_of_run Setting.nat_codec hrun
  exact ⟨b, tr, hrun, hheld, hasked⟩

/-- In every run of the live stream, the streamer's store has the first data that was added or
    received under each cid, its want list is the outstanding wants, every send of its service
    answers the oldest of them, and with nothing in flight there are none, if its cap is not 0. -/
theorem streamer_serving (hcodec : ∀ msg, setting.fromSlice (setting.toVec msg) = some msg)
    (hrun : Broadcast.live setting rng simId is = .ok (b, tr)) :
    let service := b.streamer.system.service
    let is := (Broadcast.serviceTrace tr).map Prod.fst
    (∀ cid, service.blockExchange.getBlock cid =
      (BlockExchange.firstAdded (calls is) cid).map fun data => ⟨data, cid⟩) ∧
    service.blockExchange.wants = BlockExchange.outstanding (calls is) ∧
    EachStep AnswersOldest (Broadcast.serviceTrace tr) ∧
    (1 ≤ 2 * setting.maxConcurrentSend → service.pendingSendBlock = ∅ →
      service.blockExchange.wants = []) := by
  have h := (announced hcodec hrun).serving
  have hsends := exchangeSends_of_run (Broadcast.run_service hrun)
  exact ⟨h.getBlock_eq, h.wants_eq, answersOldest_exchangeTrace hsends h.tracking.answers,
    fun hmax => h.wants_eq_nil (UInt64.le_iff_toNat_le.mp hmax)⟩

theorem streamer_serving_example :
    ∃ b tr, Broadcast.live Setting.nat () UInt64.ofNat Broadcast.oneSegment = .ok (b, tr) ∧
      b.streamer.system.service.blockExchange.wants =
        BlockExchange.outstanding (calls ((Broadcast.serviceTrace tr).map Prod.fst)) ∧
      EachStep AnswersOldest (Broadcast.serviceTrace tr) := by
  obtain ⟨b, tr, hrun⟩ := Broadcast.exists_live_oneSegment
  obtain ⟨-, hwants, hsends, -⟩ := streamer_serving Setting.nat_codec hrun
  exact ⟨b, tr, hrun, hwants, hsends⟩

end Runs

end LiveTest
