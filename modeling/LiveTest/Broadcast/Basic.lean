import LiveTest.Service.Outputs
import LiveTest.Streamer.Task

/-!
# Model of a live stream

One streamer and a viewer under every other peer id, behind the barriers of
`roles/`: each node is in its call of `subscribe` or behind it. An action is a
step of one node, or gossipsub hands a message to the service of a viewer.

What libp2p does between the nodes is in the guards of `step`:

* gossipsub hands a message that was published to a viewer at most once, in any
  order, or never; nobody but the streamer publishes on the topic, and a node
  does not get its own messages;
* a `ReceivedWant` of a viewer comes to the streamer only after that viewer has
  called `want_block`. The other events of bitswap and all those of a viewer are
  arbitrary.

A panic of one node ends the run. The end of the test is left out: no loop breaks,
so no stream of a viewer is dropped.
-/

namespace LiveTest

open Rust

/-- A viewer, with what libp2p knows of it. -/
structure Audience (L : Libp2p) where
  viewer : Viewer L
  /-- Sent on the stream of the subscription, and not yet taken by `run`. -/
  stream : List (GossipsubMessage L)
  /-- The calls of `want_block`. -/
  asked : List L.Cid
  /-- The messages that gossipsub has handed to the service, by their number. -/
  handed : List ℕ

/-- The nodes, and the messages that gossipsub has accepted. -/
structure Broadcast (L : Libp2p) (σ : Type) where
  streamer : Streamer L σ
  audience : L.PeerId → Audience L
  published : List (GossipsubMessage L)

variable {L : Libp2p} {σ : Type}

/-- The messages sent on a stream. -/
def messagesOn (stream : ChanId) (out : List (Output L)) : List (GossipsubMessage L) :=
  out.filterMap fun
    | .message chan message => if chan = stream then some message else none
    | _ => none

/-- What gossipsub accepts, when the service handles the command. -/
def accepted (answers : Answers L) : Command L → List (GossipsubMessage L)
  | .publish topic data _ =>
    match answers.publish topic data with
    | .ok _ => [⟨L.topicHash topic, data⟩]
    | .error _ => []
  | _ => []

/-- What the service of a viewer does in an action. -/
def Viewer.outputs (v : Viewer L) : Viewer.Action L → List (Output L)
  | .serve answers =>
    match v.commands with
    | [] => []
    | cmd :: _ =>
      match v.system.step (.command answers cmd) with
      | .ok (_, out) => out
      | .error _ => []
  | .event event =>
    match v.system.step (.event event) with
    | .ok (_, out) => out
    | .error _ => []
  | _ => []

namespace Audience

/-- The viewer in `subscribe` (`video_player.rs`, lines 250–254). -/
def new (setting : Setting L σ) (simId : UInt64) : Audience L where
  viewer := { Viewer.new setting.maxConcurrentSend.toNat setting.segmentLength simId with
    commands := [.subscribe gossipsubTopic 0 1]
    nextChan := 2 }
  stream := []
  asked := []
  handed := []

/-- The stream of the subscription. -/
def topicStream : ChanId := 1

/-- `run` is behind its call of `subscribe`, or still waits for it. -/
def subscribed (a : Audience L) : Except Panic Bool :=
  match a.viewer.replies 0 with
  | some (.subscribe (.ok _)) => return true
  | some (.subscribe (.error _)) => .error (.expect "GossipSub Subcribe")
  | _ => return false

/-- A step of the viewer, with what its service does. -/
def stepViewer (overflow : Overflow) (a : Audience L) (action : Viewer.Action L) :
    Except Panic (Audience L × Player.Event L.Cid) := do
  let (viewer, e) ← a.viewer.step overflow action
  return ({ a with
    viewer
    stream := a.stream ++ messagesOn topicStream (a.viewer.outputs action)
    asked := a.asked ++ askedCids (a.viewer.outputs action) }, e)

end Audience

/-- A message of gossipsub. -/
def SwarmEvent.isMessage : SwarmEvent L → Bool
  | .behaviour (.gossipsub (.message _)) => true
  | _ => false

namespace Broadcast

/-- A step of one node, or gossipsub hands the message with a number to a viewer. -/
inductive Action (L : Libp2p) where
  /-- The streamer's loop takes a tick (`streamer.rs`, line 167). -/
  | generate (now : Int64)
  /-- Its service takes a command. -/
  | serve (answers : Answers L)
  /-- Its service takes an event. -/
  | event (event : SwarmEvent L)
  /-- It drops its own subscription. -/
  | hangUp
  | hand (peer : L.PeerId) (number : ℕ)
  /-- A viewer's loop takes a message of its stream (`video_player.rs`, line 266). -/
  | listen (peer : L.PeerId) (receiveTime : Int64)
  | view (peer : L.PeerId) (action : Viewer.Action L)

/-- What an action did. -/
inductive Seen (L : Libp2p) where
  | none
  /-- The streamer's service took an input. -/
  | served (i : Input L) (out : List (Output L))
  /-- A viewer did something. -/
  | viewed (peer : L.PeerId) (action : Viewer.Action L) (e : Player.Event L.Cid)

/-- All nodes in `subscribe`. -/
def new (setting : Setting L σ) (rng : σ) (simId : L.PeerId → UInt64) :
    Except Panic (Broadcast L σ) := do
  let streamer ← Streamer.new setting rng
  return { streamer, audience := fun peer => Audience.new setting (simId peer), published := [] }

/-- The events that can come to the streamer. -/
def Allows (b : Broadcast L σ) : SwarmEvent L → Prop
  | .behaviour (.gossipsub (.message _)) => False
  | .behaviour (.bitswap (.receivedWant peerId cid _)) => cid ∈ (b.audience peerId).asked
  | _ => True

instance (b : Broadcast L σ) : ∀ event, Decidable (b.Allows event)
  | .behaviour (.gossipsub (.message _)) => isFalse id
  | .behaviour (.bitswap (.receivedWant peerId cid _)) =>
    inferInstanceAs (Decidable (cid ∈ (b.audience peerId).asked))
  | .behaviour (.bitswap (.receivedBlock _ _)) | .behaviour (.bitswap (.receivedCancel _ _))
  | .behaviour (.gossipsub .subscribed) | .behaviour (.gossipsub .unsubscribed)
  | .behaviour (.gossipsub .gossipsubNotSupported) | .behaviour .ping | .behaviour (.kademlia _)
  | .connectionEstablished | .connectionClosed | .incomingConnection | .incomingConnectionError
  | .outgoingConnectionError | .bannedPeer | .newListenAddr _ _ | .expiredListenAddr
  | .listenerClosed | .listenerError | .dialing => isTrue trivial

/-- The steps that a viewer takes by itself: a message comes by `hand`, and into its loop by
    `listen`; the loop begins behind `subscribe`. -/
def mayView (a : Audience L) : Viewer.Action L → Except Panic Bool
  | .gossip _ _ => return false
  | .event event => return !event.isMessage
  | .tick _ | .recv _ => a.subscribed
  | .request _ | .serve _ | .finish _ => return true

/-- A step of the streamer's service. -/
def stepStreamer (b : Broadcast L σ) (i : Input L) : Except Panic (Broadcast L σ × Seen L) := do
  let (streamer, out) ← b.streamer.stepSystem i
  return ({ b with streamer }, .served i out)

/-- A step of a viewer. -/
def stepAudience (overflow : Overflow) (b : Broadcast L σ) (peer : L.PeerId) (a : Audience L)
    (action : Viewer.Action L) : Except Panic (Broadcast L σ × Seen L) := do
  let (a, e) ← a.stepViewer overflow action
  return ({ b with audience := Function.update b.audience peer a }, .viewed peer action e)

/-- One action; an action that is not possible does nothing. -/
def step (setting : Setting L σ) (b : Broadcast L σ) :
    Action L → Except Panic (Broadcast L σ × Seen L)
  | .generate now =>
    if b.streamer.Ready then do
      let streamer ← b.streamer.generateVideo setting now
      return ({ b with streamer }, .none)
    else return (b, .none)
  | .serve answers =>
    match b.streamer.commands with
    | [] => return (b, .none)
    | cmd :: commands =>
      { b with
        streamer := { b.streamer with commands }
        published := b.published ++ accepted answers cmd }.stepStreamer (.command answers cmd)
  | .event event => if b.Allows event then b.stepStreamer (.event event) else return (b, .none)
  | .hangUp =>
    if (b.streamer.replies 0).isSome then b.stepStreamer (.drop Streamer.topicStream)
    else return (b, .none)
  | .hand peer number =>
    match b.published[number]? with
    | none => return (b, .none)
    | some message =>
      if number ∈ (b.audience peer).handed then return (b, .none)
      else b.stepAudience setting.overflow peer
        { b.audience peer with handed := (b.audience peer).handed ++ [number] }
        (.event (.behaviour (.gossipsub (.message message))))
  | .listen peer receiveTime =>
    match (b.audience peer).stream with
    | [] => return (b, .none)
    | message :: stream =>
      match setting.fromSlice message.data with
      | none => .error (.expect "Message Deserialization")
      | some msg =>
        b.stepAudience setting.overflow peer { b.audience peer with stream }
          (.gossip receiveTime msg)
  | .view peer action => do
    if ← mayView (b.audience peer) action then
      b.stepAudience setting.overflow peer (b.audience peer) action
    else return (b, .none)

/-- A run of the live stream. -/
def live (setting : Setting L σ) (rng : σ) (simId : L.PeerId → UInt64) (actions : List (Action L)) :
    Except Panic (Broadcast L σ × List (Action L × Seen L)) := do
  let b ← new setting rng simId
  Machine.run (step setting) b actions

end Broadcast

end LiveTest
