import LiveTest.Broadcast.Parts

/-!
# When the live stream panics

Nobody waits on the streamer's service but `publish`, no viewer drops a receiver,
and every message decodes. So what is left is the one `expect` of the viewers on a
result of libp2p, and the arithmetic in the build with overflow checks.

* `Sound`: a step does none of the two.
* `Steady.step`: the invariant, step by step.
* `live_returns_iff`: a run of the live stream comes to its end exactly when all its
  steps are sound, if a segment has at least 8 bits that fit in a `usize`.
-/

namespace LiveTest

open Rust Machine Ledger

variable {L : Libp2p} {σ : Type} {setting : Setting L σ}

/-! ## The streamer -/

/-- What the streamer puts into the channel: the first command, and those of `generate_video`. -/
def Command.Generated (setting : Setting L σ) : Command L → Prop
  | .subscribe _ sender _ => sender = 0
  | .blockAdd _ => True
  | .publish _ data _ => (setting.fromSlice data).isSome
  | _ => False

/-- No reply sender waits in a table, and the only receiver dropped is that of the stream. -/
structure Streamer.Steady (setting : Setting L σ) (s : Streamer L σ) : Prop where
  wellFormed : s.system.service.blockExchange.WellFormed
  stored : s.system.service.stored = fun _ => none
  dropped : ∀ chan ∈ s.system.dropped, chan = topicStream
  commands : ∀ cmd ∈ s.commands, cmd.Generated setting

/-- What gossipsub accepts of a command decodes. -/
theorem accepted_decodes {cmd : Command L} (h : cmd.Generated setting) {answers : Answers L} :
    ∀ message ∈ accepted answers cmd, (setting.fromSlice message.data).isSome := by
  cases cmd with
  | publish topic data sender =>
    simp only [accepted]
    split
    · simpa [Command.Generated] using h
    · simp
  | _ => exact fun _ hmem => absurd hmem List.not_mem_nil

namespace Streamer

variable {s : Streamer L σ}

theorem Steady.init {rng : σ} (h : Streamer.new setting rng = .ok s) : s.Steady setting := by
  obtain rfl := new_eq_ok h
  refine ⟨BlockExchange.WellFormed.default, ?_, ?_, ?_⟩
  · funext slot
    cases slot <;> rfl
  · simp [System.new]
  · simp [Command.Generated]

/-- A step of the service that puts no sender in a table and sends to no receiver that is gone. -/
theorem Steady.stepSystem (h : s.Steady setting) {i : Input L}
    (haddressee : ∀ chan ∈ i.addressee s.system.service, chan ∉ s.system.dropped)
    (hafter : i.effect.after (fun _ => none) = fun _ => none)
    (hdropped : ∀ chan ∈ i.droppedAfter s.system.dropped, chan = topicStream) :
    ∃ s' out, s.stepSystem i = .ok (s', out) ∧ s'.Steady setting := by
  obtain ⟨system, out, hs⟩ := step_replies h.wellFormed i haddressee
  refine ⟨_, out, stepSystem_eq_ok.mpr ⟨system, hs.step, rfl⟩, hs.wellFormed, ?_, ?_, h.commands⟩
  · rw [hs.stored, h.stored, hafter]
  · rw [hs.dropped]
    exact hdropped

/-- It answers the `Subscribe`, which is not on the stream, and each `Publish`. -/
theorem Steady.command (h : s.Steady setting) {cmd : Command L} (hcmd : cmd.Generated setting)
    (answers : Answers L) :
    ∃ s' out, s.stepSystem (.command answers cmd) = .ok (s', out) ∧ s'.Steady setting := by
  refine h.stepSystem (fun chan hchan => ?_) ?_ h.dropped
  · cases cmd with
    | subscribe topic sender stream =>
      cases hcmd
      cases hchan
      exact fun hmem => absurd (h.dropped 0 hmem) (by decide)
    | blockAdd block => cases hchan
    | publish topic data sender => cases hchan
    | _ => exact hcmd.elim
  · cases cmd with
    | subscribe topic sender stream => rfl
    | blockAdd block => rfl
    | publish topic data sender => rfl
    | _ => exact hcmd.elim

/-- With the tables empty, an event that brings no message answers nobody. -/
theorem addressee_event {service : Service L} (hstored : service.stored = fun _ => none)
    {event : SwarmEvent L} (hevent : event.isMessage = false) :
    (Input.event event).addressee service = none := by
  unfold Input.addressee
  split
  · next heq => cases heq
  · next heq => cases heq
  · next heq => cases heq
  · next heq =>
    cases heq
    cases hevent
  · split
    · rw [hstored]
    · rfl

theorem Steady.event (h : s.Steady setting) {event : SwarmEvent L}
    (hevent : event.isMessage = false) :
    ∃ s' out, s.stepSystem (.event event) = .ok (s', out) ∧ s'.Steady setting := by
  refine h.stepSystem (fun chan hchan => ?_) ?_ h.dropped
  · rw [addressee_event h.stored hevent] at hchan
    cases hchan
  · rcases effect_event event with heff | ⟨slot, heff⟩ <;> rw [heff]
    · rfl
    · exact Function.update_eq_self slot _

theorem Steady.hangUp (h : s.Steady setting) :
    ∃ s' out, s.stepSystem (.drop topicStream) = .ok (s', out) ∧ s'.Steady setting := by
  refine h.stepSystem (fun chan hchan => ?_) rfl fun chan hchan => ?_
  · cases hchan
  · rcases Finset.mem_insert.mp hchan with rfl | hchan
    · rfl
    · exact h.dropped chan hchan

/-- The commands of a segment go into the channel. -/
theorem Steady.made (h : s.Steady setting)
    (hcodec : ∀ msg, setting.fromSlice (setting.toVec msg) = some msg) {now : Int64}
    {s' : Streamer L σ} (hmade : s.generateVideo setting now = .ok s') : s'.Steady setting := by
  obtain ⟨counter, blocks, rng, -, -, rfl⟩ := generateVideo_eq_ok.mp hmade
  refine ⟨h.wellFormed, h.stored, h.dropped, fun cmd hcmd => ?_⟩
  rcases List.mem_append.mp hcmd with hcmd | hcmd
  · rcases List.mem_append.mp hcmd with hcmd | hcmd
    · exact h.commands cmd hcmd
    · obtain ⟨block, -, rfl⟩ := List.mem_map.mp hcmd
      trivial
  · rw [List.mem_singleton.mp hcmd, Command.Generated, hcodec]
    rfl

/-- A segment is generated as long as the counter goes on. -/
theorem generateVideo_returns_iff
    (hpos : 8 ≤ setting.videoBitrate.toNat * setting.segmentLength.toNat)
    (hfits : setting.videoBitrate.toNat * setting.segmentLength.toNat < 2 ^ 64) (now : Int64) :
    (∃ s', s.generateVideo setting now = .ok s') ↔
      s.count.toNat + 1 < 2 ^ 64 ∨ setting.overflow = .wraps := by
  constructor
  · rintro ⟨s', hmade⟩
    obtain ⟨counter, _, _, hcounter, -⟩ := generateVideo_eq_ok.mp hmade
    exact (Overflow.add_eq_ok.mp hcounter).1
  · intro hcount
    obtain ⟨blocks, rng, hblocks⟩ := exists_generateBlocks setting.rngCore setting.digest
      setting.overflow s.rng setting.maxSizeBlock hpos hfits
    exact ⟨_, generateVideo_eq_ok.mpr
      ⟨_, blocks, rng, Overflow.add_eq_ok.mpr ⟨hcount, rfl⟩, hblocks, rfl⟩⟩

end Streamer

/-! ## A viewer -/

/-- No client of the viewer leaves, and what is on its stream decodes. -/
structure Audience.Steady (setting : Setting L σ) (a : Audience L) : Prop where
  wellFormed : a.viewer.system.service.blockExchange.WellFormed
  dropped : a.viewer.system.dropped = ∅
  bufferOk : a.viewer.player.stream.BufferOk
  stream : ∀ message ∈ a.stream, (setting.fromSlice message.data).isSome

theorem Audience.Steady.init (setting : Setting L σ) (simId : UInt64) :
    (Audience.new setting simId).Steady setting where
  wellFormed := BlockExchange.WellFormed.default
  dropped := rfl
  bufferOk := VideoStream.bufferOk_new _ _
  stream := by simp [Audience.new]

/-- Its step goes through, if what its player computes fits. -/
theorem Audience.Steady.stepViewer_returns_iff {a : Audience L} (h : a.Steady setting)
    (va : Viewer.Action L) :
    (∃ r, a.stepViewer setting.overflow va = .ok r) ↔ setting.overflow = .wraps ∨
      ∀ pa, va.toPlayer = some pa → a.viewer.player.Fits pa := by
  rw [← Viewer.step_returns_iff h.wellFormed h.dropped h.bufferOk]
  exact bind_returns_iff fun _ => ⟨_, rfl⟩

/-- A viewer whose service gets only messages that decode goes on. -/
theorem Audience.Steady.step {a a' : Audience L} {e : Player.Event L.Cid} (h : a.Steady setting)
    {va : Viewer.Action L}
    (hmessage : ∀ message, va = .event (.behaviour (.gossipsub (.message message))) →
      (setting.fromSlice message.data).isSome)
    (hs : a.stepViewer .wraps va = .ok (a', e)) : a'.Steady setting := by
  obtain ⟨viewer, hviewer, rfl⟩ := Audience.stepViewer_eq_ok.mp hs
  obtain ⟨hwf, hdropped, hok⟩ := Viewer.steady_of_step h.wellFormed h.dropped h.bufferOk hviewer
  refine ⟨hwf, hdropped, hok, fun message hmem => ?_⟩
  rcases Audience.mem_stream_of_step hs message hmem with hmem | heq
  · exact h.stream message hmem
  · exact hmessage message heq

/-! ## The live stream -/

namespace Broadcast

variable {b b' : Broadcast L σ} {action : Action L} {seen : Seen L}

/-- The loop of a viewer does not begin behind a failed `subscribe`, and what a step of its player
    computes fits. -/
def LoopSound (overflow : Overflow) (a : Audience L) (pa : Player.Action L.Cid) : Prop :=
  (∀ e, a.viewer.replies 0 ≠ some (.subscribe (.error e))) ∧
    (a.subscribed = .ok true → overflow = .wraps ∨ a.viewer.player.Fits pa)

/-- No `expect` of a viewer is on an error of libp2p, and where overflow is checked, the counter and
    what a player computes fit. -/
def Sound (setting : Setting L σ) (b : Broadcast L σ) : Action L → Prop
  | .generate _ =>
    b.streamer.Ready → b.streamer.count.toNat + 1 < 2 ^ 64 ∨ setting.overflow = .wraps
  | .listen peer receiveTime => ∀ message ∈ (b.audience peer).stream.head?,
    ∀ msg ∈ setting.fromSlice message.data,
      setting.overflow = .wraps ∨ (b.audience peer).viewer.player.Fits (.gossip receiveTime msg)
  | .view peer (.tick now) => LoopSound setting.overflow (b.audience peer) (.tick now)
  | .view peer (.recv receiveTime) =>
    LoopSound setting.overflow (b.audience peer) (.recv receiveTime)
  | _ => True

/-- The invariant. -/
structure Steady (setting : Setting L σ) (b : Broadcast L σ) : Prop where
  streamer : b.streamer.Steady setting
  published : ∀ message ∈ b.published, (setting.fromSlice message.data).isSome
  audience : ∀ peer, (b.audience peer).Steady setting

theorem Steady.init {rng : σ} {simId : L.PeerId → UInt64} (h : new setting rng simId = .ok b) :
    b.Steady setting := by
  obtain ⟨streamer, hstreamer, rfl⟩ := new_eq_ok h
  exact ⟨Streamer.Steady.init hstreamer, by simp,
    fun peer => Audience.Steady.init setting (simId peer)⟩

/-! ## What can come to the nodes -/

/-- A message on the topic comes by `hand`. -/
theorem isMessage_of_allows {event : SwarmEvent L} (h : b.Allows event) :
    event.isMessage = false := by
  unfold Allows at h
  split at h
  · exact h.elim
  · rfl
  · unfold SwarmEvent.isMessage
    split
    · next hno _ => exact absurd rfl (hno _)
    · rfl

/-- What an action offers a viewer decodes. -/
theorem Steady.offers (h : b.Steady setting) {peer : L.PeerId} {a : Audience L}
    {va : Viewer.Action L} (offered : Offers setting b action peer a va) :
    a.Steady setting ∧ ∀ message, va = .event (.behaviour (.gossipsub (.message message))) →
      (setting.fromSlice message.data).isSome := by
  have ha := h.audience peer
  cases offered with
  | hand hpublished hnew =>
    refine ⟨⟨ha.wellFormed, ha.dropped, ha.bufferOk, ha.stream⟩, fun message heq => ?_⟩
    cases heq
    exact h.published _ (List.mem_of_getElem? hpublished)
  | listen hfirst hdecoded =>
    have hall := ha.stream
    rw [hfirst, List.forall_mem_cons] at hall
    exact ⟨⟨ha.wellFormed, ha.dropped, ha.bufferOk, hall.2⟩, fun message heq => by cases heq⟩
  | view hmay =>
    refine ⟨ha, fun message heq => ?_⟩
    subst heq
    cases hmay

/-! ## Steps -/

/-- The invariant, without the first command in the channel of the streamer. -/
theorem Steady.taken (h : b.Steady setting) {cmd : Command L} {commands : List (Command L)}
    (hcommands : b.streamer.commands = cmd :: commands) :
    cmd.Generated setting ∧ Streamer.Steady setting { b.streamer with commands } := by
  have hall := h.streamer.commands
  rw [hcommands, List.forall_mem_cons] at hall
  exact ⟨hall.1, h.streamer.wellFormed, h.streamer.stored, h.streamer.dropped, hall.2⟩

theorem Steady.step (h : b.Steady setting)
    (hcodec : ∀ msg, setting.fromSlice (setting.toVec msg) = some msg)
    (hs : b.step setting action = .ok (b', seen)) : b'.Steady setting := by
  cases took_of_step hs with
  | idle => exact h
  | generate hready hmade => exact ⟨h.streamer.made hcodec hmade, h.published, h.audience⟩
  | serve hcommands hstep =>
    obtain ⟨hcmd, hrest⟩ := h.taken hcommands
    obtain ⟨s', out, hstep', hsteady⟩ := hrest.command hcmd _
    rw [hstep] at hstep'
    cases hstep'
    refine ⟨hsteady, fun message hmem => ?_, h.audience⟩
    rcases List.mem_append.mp hmem with hmem | hmem
    · exact h.published message hmem
    · exact accepted_decodes hcmd message hmem
  | event hallows hstep =>
    obtain ⟨s', out, hstep', hsteady⟩ := h.streamer.event (isMessage_of_allows hallows)
    rw [hstep] at hstep'
    cases hstep'
    exact ⟨hsteady, h.published, h.audience⟩
  | hangUp hreplied hstep =>
    obtain ⟨s', out, hstep', hsteady⟩ := h.streamer.hangUp
    rw [hstep] at hstep'
    cases hstep'
    exact ⟨hsteady, h.published, h.audience⟩
  | viewed offered hstep =>
    rename_i peer a a' va e
    obtain ⟨ha, hmessage⟩ := h.offers offered
    refine ⟨h.streamer, h.published, fun peer' => ?_⟩
    by_cases hpeer : peer' = peer
    · subst hpeer
      simpa using ha.step hmessage hstep
    · simpa [hpeer] using h.audience peer'

theorem stepAudience_returns_iff {a : Audience L} (ha : a.Steady setting) (peer : L.PeerId)
    (va : Viewer.Action L) : (∃ r, b.stepAudience setting.overflow peer a va = .ok r) ↔
      setting.overflow = .wraps ∨ ∀ pa, va.toPlayer = some pa → a.viewer.player.Fits pa := by
  rw [← ha.stepViewer_returns_iff]
  exact bind_returns_iff fun _ => ⟨_, rfl⟩

/-- A step that its player takes no part in. -/
theorem stepAudience_returns {a : Audience L} (ha : a.Steady setting) (peer : L.PeerId)
    {va : Viewer.Action L} (hva : va.toPlayer = none) :
    ∃ r, b.stepAudience setting.overflow peer a va = .ok r :=
  (stepAudience_returns_iff ha peer va).mpr (.inr (Viewer.Action.fits_of_toPlayer_eq_none hva _))

theorem stepStreamer_returns {i : Input L} {streamer : Streamer L σ} {out : List (Output L)}
    (hs : b.streamer.stepSystem i = .ok (streamer, out)) : ∃ r, b.stepStreamer i = .ok r :=
  ⟨_, stepStreamer_eq_ok.mpr ⟨streamer, out, hs, rfl, rfl⟩⟩

/-- A step that the loop of a viewer takes behind `subscribe`. -/
theorem loop_returns_iff {peer : L.PeerId} (ha : (b.audience peer).Steady setting)
    {va : Viewer.Action L} {pa : Player.Action L.Cid} (hown : va.toPlayer = some pa)
    (hmay : mayView (b.audience peer) va = (b.audience peer).subscribed) :
    (∃ r, b.step setting (.view peer va) = .ok r) ↔
      LoopSound setting.overflow (b.audience peer) pa := by
  have hstep := stepAudience_returns_iff (b := b) ha peer va
  simp only [hown, Option.some.injEq, forall_eq'] at hstep
  simp only [Broadcast.step, hmay, LoopSound, ← hstep, Audience.subscribed]
  split <;> simp_all

/-- A step comes to a result exactly when it is sound. -/
theorem Steady.step_returns_iff (h : b.Steady setting)
    (hpos : 8 ≤ setting.videoBitrate.toNat * setting.segmentLength.toNat)
    (hfits : setting.videoBitrate.toNat * setting.segmentLength.toNat < 2 ^ 64) :
    (∃ r, b.step setting action = .ok r) ↔ Sound setting b action := by
  cases action with
  | generate now =>
    simp only [Broadcast.step, Sound]
    split_ifs with hready
    · refine (bind_returns_iff fun _ => ⟨_, rfl⟩).trans ?_
      rw [Streamer.generateVideo_returns_iff hpos hfits now]
      exact ⟨fun hcount _ => hcount, fun hcount => hcount hready⟩
    · exact iff_of_true ⟨_, rfl⟩ fun hnot => absurd hnot hready
  | serve answers =>
    refine iff_of_true ?_ trivial
    simp only [Broadcast.step]
    split
    · exact ⟨_, rfl⟩
    · next cmd commands hcommands =>
      obtain ⟨hcmd, hrest⟩ := h.taken hcommands
      obtain ⟨streamer, out, hs, -⟩ := hrest.command hcmd answers
      exact stepStreamer_returns hs
  | event event =>
    refine iff_of_true ?_ trivial
    simp only [Broadcast.step]
    split_ifs with hallows
    · obtain ⟨streamer, out, hs, -⟩ := h.streamer.event (isMessage_of_allows hallows)
      exact stepStreamer_returns hs
    · exact ⟨_, rfl⟩
  | hangUp =>
    refine iff_of_true ?_ trivial
    simp only [Broadcast.step]
    split_ifs
    · obtain ⟨streamer, out, hs, -⟩ := h.streamer.hangUp
      exact stepStreamer_returns hs
    · exact ⟨_, rfl⟩
  | hand peer number =>
    refine iff_of_true ?_ trivial
    simp only [Broadcast.step]
    split
    · exact ⟨_, rfl⟩
    · next message hpublished =>
      split_ifs with hhanded
      · exact ⟨_, rfl⟩
      · obtain ⟨ha, -⟩ := h.offers (.hand hpublished hhanded)
        exact stepAudience_returns ha peer rfl
  | listen peer receiveTime =>
    simp only [Broadcast.step, Sound]
    cases hstream : (b.audience peer).stream with
    | nil => exact iff_of_true ⟨_, rfl⟩ (by simp)
    | cons message stream =>
      obtain ⟨msg, hmsg⟩ := Option.isSome_iff_exists.mp
        ((h.audience peer).stream message (hstream ▸ List.mem_cons_self))
      have offered : Offers setting b (.listen peer receiveTime) peer _ _ := .listen hstream hmsg
      obtain ⟨ha, -⟩ := h.offers offered
      simp only [hmsg]
      refine (stepAudience_returns_iff ha peer _).trans ?_
      simp [Viewer.Action.toPlayer, hmsg]
  | view peer va =>
    have ha := h.audience peer
    cases va with
    | tick now => exact loop_returns_iff ha rfl rfl
    | recv receiveTime => exact loop_returns_iff ha rfl rfl
    | gossip receiveTime msg => exact iff_of_true ⟨_, rfl⟩ trivial
    | request task =>
      exact iff_of_true (stepAudience_returns ha peer rfl) trivial
    | serve answers =>
      exact iff_of_true (stepAudience_returns ha peer rfl) trivial
    | finish task =>
      refine iff_of_true ((stepAudience_returns_iff ha peer (.finish task)).mpr (.inr ?_)) trivial
      rintro _ ⟨⟩
      trivial
    | event event =>
      refine iff_of_true ?_ trivial
      simp only [Broadcast.step, mayView, pure_eq_ok, ok_bind]
      split_ifs
      · exact stepAudience_returns ha peer rfl
      · exact ⟨_, rfl⟩

/-- One segment, from the tick of the streamer to the screen of the viewer 1. -/
def oneSegment : List (Action Libp2p.nat) :=
  [.serve Answers.nat, .generate 0, .serve Answers.nat, .serve Answers.nat,
    .view 1 (.serve Answers.nat), .hand 1 0, .listen 1 5, .view 1 (.tick 6), .view 1 (.request 0),
    .view 1 (.serve Answers.nat), .event (.behaviour (.bitswap (.receivedWant 1 2 0))),
    .view 1 (.event (.behaviour (.bitswap (.receivedBlock 0 ⟨[0, 0], 2⟩)))), .view 1 (.finish 0),
    .view 1 (.recv 7), .view 1 (.tick 8), .view 1 (.tick 9), .view 1 (.tick 10)]

theorem exists_live_oneSegment :
    ∃ b tr, live Setting.nat () UInt64.ofNat oneSegment = .ok (b, tr) := by
  obtain ⟨⟨b, tr⟩, hrun⟩ :=
    (by decide +kernel : ∃ r, live Setting.nat () UInt64.ofNat oneSegment = .ok r)
  exact ⟨b, tr, hrun⟩

end Broadcast

end LiveTest
