import LiveTest.Broadcast.Basic
import LiveTest.Viewer.Steps

/-!
# The nodes of a live stream

What one action does, and what each node does in a run.

* `took_of_step`: an action is a step of one node, or nothing.
* `run_service`, `run_viewer`, `run_player`: in a run of the live stream, the
  service of the streamer, every viewer and every player run on their own.
-/

namespace LiveTest

open Rust Machine

variable {L : Libp2p} {σ : Type}

/-! ## One action -/

theorem Streamer.stepSystem_eq_ok {s s' : Streamer L σ} {i : Input L} {out : List (Output L)} :
    s.stepSystem i = .ok (s', out) ↔ ∃ system, s.system.step i = .ok (system, out) ∧
      s' = { s with system, replies := Viewer.deliver s.replies out } := by
  rw [Streamer.stepSystem, bind_eq_ok]
  constructor
  · rintro ⟨⟨system, out'⟩, hs, h⟩
    cases h
    exact ⟨system, hs, rfl⟩
  · rintro ⟨system, hs, rfl⟩
    exact ⟨(system, out), hs, rfl⟩

theorem Audience.stepViewer_eq_ok {overflow : Overflow} {a a' : Audience L}
    {action : Viewer.Action L} {e : Player.Event L.Cid} :
    a.stepViewer overflow action = .ok (a', e) ↔
      ∃ viewer, a.viewer.step overflow action = .ok (viewer, e) ∧
      a' = { a with
        viewer
        stream := a.stream ++ messagesOn topicStream (a.viewer.outputs action)
        asked := a.asked ++ askedCids (a.viewer.outputs action) } := by
  rw [Audience.stepViewer, bind_eq_ok]
  constructor
  · rintro ⟨⟨viewer, e'⟩, hs, h⟩
    cases h
    exact ⟨viewer, hs, rfl⟩
  · rintro ⟨viewer, hs, rfl⟩
    exact ⟨(viewer, e), hs, rfl⟩

/-- A step of a viewer that does not panic is one of the release build. -/
theorem Audience.stepViewer_refines (overflow : Overflow) (a : Audience L)
    (action : Viewer.Action L) :
    Refines (a.stepViewer overflow action) (a.stepViewer .wraps action) :=
  .bind (a.viewer.step_refines overflow action) fun _ => .refl _

/-! ## What a viewer hears and asks for -/

theorem mem_messagesOn {stream : ChanId} {out : List (Output L)} {message : GossipsubMessage L} :
    message ∈ messagesOn stream out ↔ .message stream message ∈ out := by
  unfold messagesOn
  rw [List.mem_filterMap]
  constructor
  · rintro ⟨o, ho, heq⟩
    cases o with
    | message chan message' =>
      dsimp only at heq
      split_ifs at heq with hchan
      cases heq
      rwa [← hchan]
    | _ => cases heq
  · intro ho
    exact ⟨_, ho, if_pos rfl⟩

/-- An output of a viewer's service comes from the command that it took, or from the event. -/
theorem Viewer.causedBy_of_mem_outputs {v : Viewer L} {a : Viewer.Action L} {o : Output L}
    (h : o ∈ v.outputs a) :
    (∃ answers cmd commands, a = .serve answers ∧ v.commands = cmd :: commands ∧
      o.CausedBy (.command answers cmd)) ∨
    ∃ event, a = .event event ∧ o.CausedBy (.event event) := by
  cases a with
  | serve answers =>
    simp only [Viewer.outputs] at h
    split at h
    · cases h
    · next cmd commands hcommands =>
      split at h
      · next system out hs => exact .inl ⟨answers, cmd, commands, rfl, hcommands,
          step_causedBy hs o h⟩
      · cases h
  | event event =>
    simp only [Viewer.outputs] at h
    split at h
    · next system out hs => exact .inr ⟨event, rfl, step_causedBy hs o h⟩
    · cases h
  | _ => cases h

/-- A message on the stream has come to the service. -/
theorem Audience.mem_stream_of_step {overflow : Overflow} {a a' : Audience L}
    {va : Viewer.Action L} {e : Player.Event L.Cid} (hs : a.stepViewer overflow va = .ok (a', e)) :
    ∀ message ∈ a'.stream, message ∈ a.stream ∨
      va = .event (.behaviour (.gossipsub (.message message))) := by
  obtain ⟨viewer, -, rfl⟩ := Audience.stepViewer_eq_ok.mp hs
  intro message hmem
  refine (List.mem_append.mp hmem).imp_right fun hmem => ?_
  rcases Viewer.causedBy_of_mem_outputs (mem_messagesOn.mp hmem) with
    ⟨answers, cmd, commands, rfl, -, hcaused⟩ | ⟨event, rfl, hcaused⟩ <;>
    cases hcaused
  rfl

/-- A block that a viewer asks for was asked for by the next command. -/
theorem Audience.mem_asked_of_step {overflow : Overflow} {a a' : Audience L}
    {va : Viewer.Action L} {e : Player.Event L.Cid} (hs : a.stepViewer overflow va = .ok (a', e)) :
    ∀ cid ∈ a'.asked, cid ∈ a.asked ∨ ∃ sender, .blockGet cid sender ∈ a.viewer.commands := by
  obtain ⟨viewer, -, rfl⟩ := Audience.stepViewer_eq_ok.mp hs
  intro cid hmem
  refine (List.mem_append.mp hmem).imp_right fun hmem => ?_
  obtain ⟨priority, hmem⟩ := mem_askedCids.mp hmem
  rcases Viewer.causedBy_of_mem_outputs hmem with
    ⟨answers, cmd, commands, rfl, hcommands, hcaused⟩ | ⟨event, rfl, hcaused⟩ <;>
    obtain ⟨answers', sender, heq⟩ := hcaused <;>
    cases heq
  exact ⟨sender, hcommands ▸ List.mem_cons_self⟩

namespace Broadcast

variable {setting : Setting L σ} {b b' : Broadcast L σ} {action : Action L} {seen : Seen L}

/-- What a viewer is before a step that the action makes it take. -/
inductive Offers (setting : Setting L σ) (b : Broadcast L σ) :
    Action L → L.PeerId → Audience L → Viewer.Action L → Prop where
  | hand {peer : L.PeerId} {number : ℕ} {message : GossipsubMessage L}
      (published : b.published[number]? = some message)
      (new : number ∉ (b.audience peer).handed) :
      Offers setting b (.hand peer number) peer
        { b.audience peer with handed := (b.audience peer).handed ++ [number] }
        (.event (.behaviour (.gossipsub (.message message))))
  | listen {peer : L.PeerId} {receiveTime : Int64} {message : GossipsubMessage L}
      {stream : List (GossipsubMessage L)} {msg : StreamerMessage L.Cid}
      (first : (b.audience peer).stream = message :: stream)
      (decoded : setting.fromSlice message.data = some msg) :
      Offers setting b (.listen peer receiveTime) peer { b.audience peer with stream }
        (.gossip receiveTime msg)
  | view {peer : L.PeerId} {action : Viewer.Action L}
      (may : mayView (b.audience peer) action = .ok true) :
      Offers setting b (.view peer action) peer (b.audience peer) action

/-- What an action does, in the release build where that is a step of a viewer. -/
inductive Took (setting : Setting L σ) (b : Broadcast L σ) :
    Action L → Broadcast L σ → Seen L → Prop where
  | idle (action : Action L) : Took setting b action b .none
  | generate {now : Int64} {streamer : Streamer L σ} (ready : b.streamer.Ready)
      (made : b.streamer.generateVideo setting now = .ok streamer) :
      Took setting b (.generate now) { b with streamer } .none
  | serve {answers : Answers L} {cmd : Command L} {commands : List (Command L)}
      {streamer : Streamer L σ} {out : List (Output L)}
      (first : b.streamer.commands = cmd :: commands)
      (stepped : Streamer.stepSystem { b.streamer with commands } (.command answers cmd) =
        .ok (streamer, out)) :
      Took setting b (.serve answers)
        { b with streamer, published := b.published ++ accepted answers cmd }
        (.served (.command answers cmd) out)
  | event {event : SwarmEvent L} {streamer : Streamer L σ} {out : List (Output L)}
      (allowed : b.Allows event)
      (stepped : b.streamer.stepSystem (.event event) = .ok (streamer, out)) :
      Took setting b (.event event) { b with streamer } (.served (.event event) out)
  | hangUp {streamer : Streamer L σ} {out : List (Output L)}
      (subscribed : (b.streamer.replies 0).isSome)
      (stepped : b.streamer.stepSystem (.drop Streamer.topicStream) = .ok (streamer, out)) :
      Took setting b .hangUp { b with streamer } (.served (.drop Streamer.topicStream) out)
  | viewed {action : Action L} {peer : L.PeerId} {a a' : Audience L} {va : Viewer.Action L}
      {e : Player.Event L.Cid} (offered : Offers setting b action peer a va)
      (stepped : a.stepViewer .wraps va = .ok (a', e)) :
      Took setting b action { b with audience := Function.update b.audience peer a' }
        (.viewed peer va e)

theorem stepStreamer_eq_ok {i : Input L} :
    b.stepStreamer i = .ok (b', seen) ↔ ∃ streamer out,
      b.streamer.stepSystem i = .ok (streamer, out) ∧ b' = { b with streamer } ∧
        seen = .served i out := by
  rw [stepStreamer, bind_eq_ok]
  constructor
  · rintro ⟨⟨streamer, out⟩, hs, h⟩
    cases h
    exact ⟨streamer, out, hs, rfl, rfl⟩
  · rintro ⟨streamer, out, hs, rfl, rfl⟩
    exact ⟨(streamer, out), hs, rfl⟩

theorem stepAudience_eq_ok {overflow : Overflow} {peer : L.PeerId} {a : Audience L}
    {va : Viewer.Action L} :
    b.stepAudience overflow peer a va = .ok (b', seen) ↔ ∃ a' e,
      a.stepViewer overflow va = .ok (a', e) ∧
        b' = { b with audience := Function.update b.audience peer a' } ∧
        seen = .viewed peer va e := by
  rw [stepAudience, bind_eq_ok]
  constructor
  · rintro ⟨⟨a', e⟩, hs, h⟩
    cases h
    exact ⟨a', e, hs, rfl, rfl⟩
  · rintro ⟨a', e, hs, rfl, rfl⟩
    exact ⟨(a', e), hs, rfl⟩

theorem Took.of_offer {overflow : Overflow} {peer : L.PeerId} {a : Audience L}
    {va : Viewer.Action L} (offered : Offers setting b action peer a va)
    (h : b.stepAudience overflow peer a va = .ok (b', seen)) : Took setting b action b' seen := by
  obtain ⟨a', e, hs, rfl, rfl⟩ := stepAudience_eq_ok.mp h
  exact .viewed offered ((a.stepViewer_refines overflow va).eq_ok hs)

/-- An action is a step of one node, or nothing. -/
theorem took_of_step (h : b.step setting action = .ok (b', seen)) :
    Took setting b action b' seen := by
  cases action with
  | generate now =>
    simp only [step] at h
    split_ifs at h with hready
    · obtain ⟨streamer, hmade, h⟩ := bind_eq_ok.mp h
      cases h
      exact .generate hready hmade
    · cases h
      exact .idle _
  | serve answers =>
    simp only [step] at h
    split at h
    · cases h
      exact .idle _
    · next cmd commands hcommands =>
      obtain ⟨streamer, out, hs, rfl, rfl⟩ := stepStreamer_eq_ok.mp h
      exact .serve hcommands hs
  | event event =>
    simp only [step] at h
    split_ifs at h with hallows
    · obtain ⟨streamer, out, hs, rfl, rfl⟩ := stepStreamer_eq_ok.mp h
      exact .event hallows hs
    · cases h
      exact .idle _
  | hangUp =>
    simp only [step] at h
    split_ifs at h with hreplied
    · obtain ⟨streamer, out, hs, rfl, rfl⟩ := stepStreamer_eq_ok.mp h
      exact .hangUp hreplied hs
    · cases h
      exact .idle _
  | hand peer number =>
    simp only [step] at h
    split at h
    · cases h
      exact .idle _
    · next message hpublished =>
      split_ifs at h with hhanded
      · cases h
        exact .idle _
      · exact .of_offer (.hand hpublished hhanded) h
  | listen peer receiveTime =>
    simp only [step] at h
    split at h
    · cases h
      exact .idle _
    · next message stream hstream =>
      split at h
      · cases h
      · next msg hdecoded => exact .of_offer (.listen hstream hdecoded) h
  | view peer va =>
    obtain ⟨may, hmay, h⟩ := bind_eq_ok.mp h
    cases may with
    | true => exact .of_offer (.view hmay) h
    | false =>
      cases h
      exact .idle _

/-! ## The parts of a run -/

/-- What the streamer's service did in an action. -/
def serviceEntry : Action L × Seen L → Option (Input L × List (Output L))
  | (_, .served i out) => some (i, out)
  | _ => none

/-- What the viewer of a peer did in an action. -/
def viewerEntry (peer : L.PeerId) :
    Action L × Seen L → Option (Viewer.Action L × Player.Event L.Cid)
  | (_, .viewed peer' action e) => if peer' = peer then some (action, e) else none
  | _ => none

/-- The inputs of the streamer's service, with what it did. -/
def serviceTrace (tr : List (Action L × Seen L)) : List (Input L × List (Output L)) :=
  tr.filterMap serviceEntry

/-- The actions of the viewer of a peer. -/
def viewerTrace (peer : L.PeerId) (tr : List (Action L × Seen L)) :
    List (Viewer.Action L × Player.Event L.Cid) := tr.filterMap (viewerEntry peer)

theorem Took.service (h : Took setting b action b' seen) :
    (serviceEntry (action, seen) = none ∧ b'.streamer.system = b.streamer.system) ∨
    ∃ i out, seen = .served i out ∧
      b.streamer.system.step i = .ok (b'.streamer.system, out) := by
  cases h with
  | idle action => exact .inl ⟨rfl, rfl⟩
  | generate hready hmade =>
    obtain ⟨_, _, _, -, -, rfl⟩ := Streamer.generateVideo_eq_ok.mp hmade
    exact .inl ⟨rfl, rfl⟩
  | serve hcommands hs =>
    obtain ⟨system, hstep, rfl⟩ := Streamer.stepSystem_eq_ok.mp hs
    exact .inr ⟨_, _, rfl, hstep⟩
  | event hallows hs =>
    obtain ⟨system, hstep, rfl⟩ := Streamer.stepSystem_eq_ok.mp hs
    exact .inr ⟨_, _, rfl, hstep⟩
  | hangUp hreplied hs =>
    obtain ⟨system, hstep, rfl⟩ := Streamer.stepSystem_eq_ok.mp hs
    exact .inr ⟨_, _, rfl, hstep⟩
  | viewed offered hs => exact .inl ⟨rfl, rfl⟩

/-- The viewer, as the action finds it, is the one from before. -/
theorem Offers.viewer_eq {peer : L.PeerId} {a : Audience L} {va : Viewer.Action L}
    (h : Offers setting b action peer a va) : a.viewer = (b.audience peer).viewer := by
  cases h <;> rfl

theorem Took.viewer (h : Took setting b action b' seen) (peer : L.PeerId) :
    (viewerEntry peer (action, seen) = none ∧ b'.audience peer = b.audience peer) ∨
    ∃ a va e, Offers setting b action peer a va ∧ seen = .viewed peer va e ∧
      a.stepViewer .wraps va = .ok (b'.audience peer, e) := by
  cases h with
  | viewed offered hs =>
    rename_i peer' a a' va e
    by_cases hpeer : peer' = peer
    · subst hpeer
      refine .inr ⟨a, va, e, offered, rfl, ?_⟩
      rw [hs]
      simp
    · refine .inl ⟨if_neg hpeer, ?_⟩
      simp [Ne.symm hpeer]
  | _ => exact .inl ⟨rfl, rfl⟩

/-- The ticks of the streamer's loop. -/
def ticks (is : List (Action L)) : ℕ :=
  is.countP fun
    | .generate _ => true
    | _ => false

theorem ticks_concat (is : List (Action L)) (action : Action L) :
    ticks (is ++ [action]) = ticks is + ticks [action] := List.countP_append ..

section Runs

variable {rng : σ} {simId : L.PeerId → UInt64} {is : List (Action L)} {tr : List (Action L × Seen L)}

theorem new_eq_ok (h : new setting rng simId = .ok b) : ∃ streamer,
    Streamer.new setting rng = .ok streamer ∧ b = {
      streamer
      audience := fun peer => Audience.new setting (simId peer)
      published := [] } := by
  obtain ⟨streamer, hstreamer, h⟩ := bind_eq_ok.mp h
  exact ⟨streamer, hstreamer, (Except.ok.inj h).symm⟩

theorem live_eq_ok : live setting rng simId is = .ok (b, tr) ↔
    ∃ b₀, new setting rng simId = .ok b₀ ∧ run (step setting) b₀ is = .ok (b, tr) := bind_eq_ok

/-- What every step keeps holds at the end of every run of the live stream. -/
theorem inv_of_live (Inv : Broadcast L σ → List (Action L × Seen L) → Prop)
    (init : ∀ b, new setting rng simId = .ok b → Inv b [])
    (keep : ∀ b tr action b' seen, Inv b tr → b.step setting action = .ok (b', seen) →
      Inv b' (tr ++ [(action, seen)]))
    (hrun : live setting rng simId is = .ok (b, tr)) : Inv b tr := by
  obtain ⟨b₀, hnew, hrun⟩ := live_eq_ok.mp hrun
  exact inv_of_run Inv (init b₀ hnew) keep hrun

/-- The service of the streamer runs on its own. -/
theorem run_service (hrun : live setting rng simId is = .ok (b, tr)) :
    run System.step (System.new (2 * setting.maxConcurrentSend).toNat)
        ((serviceTrace tr).map Prod.fst) =
      .ok (b.streamer.system, serviceTrace tr) := by
  obtain ⟨b₀, hnew, hrun⟩ := live_eq_ok.mp hrun
  obtain ⟨streamer, hstreamer, rfl⟩ := new_eq_ok hnew
  obtain rfl := Streamer.new_eq_ok hstreamer
  refine run_project (fun b : Broadcast L σ => b.streamer.system) serviceEntry
    (fun b action b' seen hs hnone => ?_) (fun b action b' seen i out hs hsome => ?_) hrun
  · rcases (took_of_step hs).service with ⟨-, heq⟩ | ⟨i, out, rfl, -⟩
    · exact heq
    · cases hnone
  · rcases (took_of_step hs).service with ⟨hnone, -⟩ | ⟨i, out, rfl, hstep⟩
    · rw [hnone] at hsome
      cases hsome
    · cases hsome
      exact hstep

/-- Every viewer runs on its own. -/
theorem run_viewer (hrun : live setting rng simId is = .ok (b, tr)) (peer : L.PeerId) :
    run (Viewer.step .wraps) (Audience.new setting (simId peer)).viewer
        ((viewerTrace peer tr).map Prod.fst) =
      .ok ((b.audience peer).viewer, viewerTrace peer tr) := by
  obtain ⟨b₀, hnew, hrun⟩ := live_eq_ok.mp hrun
  obtain ⟨streamer, -, rfl⟩ := new_eq_ok hnew
  refine run_project (fun b : Broadcast L σ => (b.audience peer).viewer) (viewerEntry peer)
    (fun b action b' seen hs hnone => ?_) (fun b action b' seen va e hs hsome => ?_) hrun
  · rcases (took_of_step hs).viewer peer with ⟨-, heq⟩ | ⟨a, va, e, -, rfl, -⟩
    · rw [heq]
    · simp [viewerEntry] at hnone
  · rcases (took_of_step hs).viewer peer with ⟨hnone, -⟩ | ⟨a, va, e, offered, rfl, hstep⟩
    · rw [hnone] at hsome
      cases hsome
    · simp only [viewerEntry, if_true, Option.some.injEq, Prod.mk.injEq] at hsome
      obtain ⟨rfl, rfl⟩ := hsome
      obtain ⟨viewer, hstep, heq⟩ := Audience.stepViewer_eq_ok.mp hstep
      rw [← offered.viewer_eq, hstep, heq]

/-- What the player of the viewer of a peer did. -/
def playerTrace (peer : L.PeerId) (tr : List (Action L × Seen L)) :
    List (Player.Action L.Cid × Player.Event L.Cid) := (viewerTrace peer tr).filterMap playerEntry

/-- Every player runs on its own. -/
theorem run_player (hrun : live setting rng simId is = .ok (b, tr)) (peer : L.PeerId) :
    run (Player.step .wraps) (Player.new setting.segmentLength (simId peer))
        ((playerTrace peer tr).map Prod.fst) =
      .ok ((b.audience peer).viewer.player, playerTrace peer tr) :=
  Viewer.run_player (run_viewer hrun peer)

end Runs

end Broadcast

end LiveTest
