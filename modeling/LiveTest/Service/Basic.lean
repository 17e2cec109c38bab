import LiveTest.BlockExchange.Basic
import Mathlib.Data.Finset.Card

/-!
# Model of `IpfsBackgroundService`

The service of `ipfs/background.rs`: one handler for the commands of
`ipfs/client.rs` and one for the events of the swarm.

* A `HashMap` is a function to `Option`; `insert` and `remove` are
  `Function.update`. The `HashSet` of sends in flight is a `Finset`.
* A channel is named by a number. Whether its receiver is still there is a
  property of the environment: `dropped` is the set of the channels whose
  receiver is gone, and a `send` on one of those is an `Err`.
* What a swarm call returns is not in the repository: `Answers` holds the
  results, one record for each command. The calls without a result that matters
  here, the replies and the forwarded messages are the outputs of a step.
* Log lines are left out.
-/

namespace LiveTest

open Rust

/-- The types of the crates that pass through the service, and `IdentTopic::new(name).hash()`. -/
structure Libp2p where
  PeerId : Type
  Cid : Type
  TopicHash : Type
  QueryId : Type
  ListenerId : Type
  Multiaddr : Type
  MessageId : Type
  PublishError : Type
  SubscriptionError : Type
  NoKnownPeers : Type
  BootstrapError : Type
  TransportError : Type
  topicHash : String → TopicHash
  [peerIdEq : DecidableEq PeerId]
  [cidEq : DecidableEq Cid]
  [topicHashEq : DecidableEq TopicHash]
  [queryIdEq : DecidableEq QueryId]
  [listenerIdEq : DecidableEq ListenerId]

attribute [instance] Libp2p.peerIdEq Libp2p.cidEq Libp2p.topicHashEq Libp2p.queryIdEq
  Libp2p.listenerIdEq

/-- Every type is `ℕ`, and a topic is its own hash. -/
abbrev Libp2p.nat : Libp2p where
  PeerId := ℕ
  Cid := ℕ
  TopicHash := String
  QueryId := ℕ
  ListenerId := ℕ
  Multiaddr := ℕ
  MessageId := ℕ
  PublishError := ℕ
  SubscriptionError := ℕ
  NoKnownPeers := ℕ
  BootstrapError := ℕ
  TransportError := ℕ
  topicHash := id

/-- A `oneshot` or an unbounded `mpsc` channel. -/
abbrev ChanId := ℕ

/-- The part of `GossipsubMessage` that is read. -/
structure GossipsubMessage (L : Libp2p) where
  topic : L.TopicHash
  data : Bytes

/-- `libp2p::kad::BootstrapOk`. -/
structure BootstrapOk (L : Libp2p) where
  peer : L.PeerId
  numRemaining : ℕ

/-- `io::ErrorKind`, the one kind the service makes. -/
inductive ErrorKind where
  | alreadyExists
  deriving DecidableEq, Repr

/-- `io::Error::new(kind, msg)`. -/
structure IoError where
  kind : ErrorKind
  msg : String
  deriving DecidableEq, Repr

/-- `enum Command` (`client.rs`, lines 20–57). -/
inductive Command (L : Libp2p) where
  | listenOn (multiAddr : L.Multiaddr) (sender : ChanId)
  | dhtAdd (peerId : L.PeerId) (multiAddr : L.Multiaddr) (sender : ChanId)
  | bootstrap (sender : ChanId)
  | publish (topic : String) (data : Bytes) (sender : ChanId)
  | subscribe (topic : String) (sender stream : ChanId)
  | blockGet (cid : L.Cid) (sender : ChanId)
  | blockAdd (block : Block L.Cid)
  | dial (multiAddr : L.Multiaddr)

/-- What a reply sender carries. -/
inductive Reply (L : Libp2p) where
  | listenOn (res : Except L.TransportError L.Multiaddr)
  | dhtAdd
  | bootstrap (res : Except L.BootstrapError (BootstrapOk L))
  | publish (res : Except L.PublishError L.MessageId)
  | subscribe (res : Except L.SubscriptionError Bool)
  | blockGet (res : Except IoError (Block L.Cid))

/-- What a step does outside the state of the service. -/
inductive Output (L : Libp2p) where
  /-- `sender.send(reply)`, received. -/
  | reply (sender : ChanId) (reply : Reply L)
  /-- A message sent on a stream, received. -/
  | message (stream : ChanId) (message : GossipsubMessage L)
  /-- `kademlia.add_address`. -/
  | addAddress (peerId : L.PeerId) (multiAddr : L.Multiaddr)
  /-- `bitswap.want_block`. -/
  | wantBlock (cid : L.Cid) (priority : ℤ)
  /-- `bitswap.send_block`. -/
  | sendBlock (peer : L.PeerId) (block : Block L.Cid)
  /-- `swarm.dial`, its result unused. -/
  | dial (multiAddr : L.Multiaddr)

/-- The results of the swarm calls that can fail. -/
structure Answers (L : Libp2p) where
  publish : String → Bytes → Except L.PublishError L.MessageId
  subscribe : String → Except L.SubscriptionError Bool
  bootstrap : Except L.NoKnownPeers L.QueryId
  listenOn : L.Multiaddr → Except L.TransportError L.ListenerId

/-- Every call succeeds. -/
def Answers.nat : Answers Libp2p.nat where
  publish := fun _ _ => .ok 0
  subscribe := fun _ => .ok true
  bootstrap := .ok 0
  listenOn := fun _ => .ok 0

/-- `ipfs_bitswap::BitswapEvent`. -/
inductive BitswapEvent (L : Libp2p) where
  | receivedBlock (peerId : L.PeerId) (block : Block L.Cid)
  | receivedWant (peerId : L.PeerId) (cid : L.Cid) (priority : ℤ)
  | receivedCancel (peerId : L.PeerId) (cid : L.Cid)

/-- `libp2p::gossipsub::GossipsubEvent`. -/
inductive GossipsubEvent (L : Libp2p) where
  | message (message : GossipsubMessage L)
  | subscribed
  | unsubscribed
  | gossipsubNotSupported

/-- `libp2p::kad::QueryResult`; the results of the other queries are not read. -/
inductive QueryResult (L : Libp2p) where
  | bootstrap (result : Except L.BootstrapError (BootstrapOk L))
  | other

/-- `libp2p::kad::KademliaEvent`. -/
inductive KademliaEvent (L : Libp2p) where
  | inboundRequest
  | outboundQueryCompleted (id : L.QueryId) (result : QueryResult L)
  | routingUpdated (peer : L.PeerId)
  | unroutablePeer
  | routablePeer
  | pendingRoutablePeer

/-- `enum ComposedEvent` (`composition.rs`, lines 22–29). -/
inductive ComposedEvent (L : Libp2p) where
  | ping
  | kademlia (event : KademliaEvent L)
  | gossipsub (event : GossipsubEvent L)
  | bitswap (event : BitswapEvent L)

/-- `libp2p::swarm::SwarmEvent`. -/
inductive SwarmEvent (L : Libp2p) where
  | behaviour (event : ComposedEvent L)
  | connectionEstablished
  | connectionClosed
  | incomingConnection
  | incomingConnectionError
  | outgoingConnectionError
  | bannedPeer
  | newListenAddr (listenerId : L.ListenerId) (address : L.Multiaddr)
  | expiredListenAddr
  | listenerClosed
  | listenerError
  | dialing

/-- `struct IpfsBackgroundService` (lines 29–47), without the command receiver and the swarm. -/
structure Service (L : Libp2p) where
  blockExchange : BlockExchange L.PeerId L.Cid
  pendingSubscribe : L.TopicHash → Option ChanId
  routingUpdates : L.PeerId → Option ChanId
  pendingBootstap : L.QueryId → Option ChanId
  pendingListen : L.ListenerId → Option ChanId
  pendingGetBlock : L.Cid → Option ChanId
  pendingSendBlock : Finset (L.PeerId × L.Cid)
  maxConcurrentSend : ℕ

namespace Service

variable {L : Libp2p}

/-- `IpfsBackgroundService::new` (lines 50–71). -/
def new (maxConcurrentSend : ℕ) : Service L where
  blockExchange := BlockExchange.default
  pendingSubscribe := fun _ => none
  routingUpdates := fun _ => none
  pendingBootstap := fun _ => none
  pendingListen := fun _ => none
  pendingGetBlock := fun _ => none
  pendingSendBlock := ∅
  maxConcurrentSend := maxConcurrentSend

/-- `sender.send(…).expect("Receiver not dropped")`, where a table had a `sender`. -/
def expectSend (dropped : Finset ChanId) (sender : Option ChanId) (out : ChanId → Output L) :
    Except Panic (List (Output L)) :=
  match sender with
  | some chan => if chan ∈ dropped then .error (.expect "Receiver not dropped") else .ok [out chan]
  | none => .ok []

/-! ## Commands -/

/-- `command` (lines 88–181). -/
def command (dropped : Finset ChanId) (answers : Answers L) (s : Service L) :
    Command L → Except Panic (Service L × List (Output L))
  | .publish topic data sender =>
    let res := answers.publish topic data
    -- the only reply whose receiver may be gone: "Receiver hung up" is printed
    return (s, if sender ∈ dropped then [] else [.reply sender (.publish res)])
  | .subscribe topic sender stream =>
    match answers.subscribe topic with
    | .error e => do
      let out ← expectSend dropped sender (.reply · (.subscribe (.error e)))
      return (s, out)
    | .ok status => do
      let out ← expectSend dropped sender (.reply · (.subscribe (.ok status)))
      if !status then return (s, out)
      let topic := L.topicHash topic
      return ({ s with pendingSubscribe := Function.update s.pendingSubscribe topic (some stream) },
        out)
  | .dhtAdd peerId multiAddr sender =>
    return ({ s with routingUpdates := Function.update s.routingUpdates peerId (some sender) },
      [.addAddress peerId multiAddr])
  | .bootstrap sender =>
    match answers.bootstrap with
    -- `sender` is dropped here
    | .error _ => return (s, [])
    | .ok id =>
      return ({ s with pendingBootstap := Function.update s.pendingBootstap id (some sender) }, [])
  | .listenOn multiAddr sender =>
    match answers.listenOn multiAddr with
    | .error e => do
      let out ← expectSend dropped sender (.reply · (.listenOn (.error e)))
      return (s, out)
    | .ok id =>
      return ({ s with pendingListen := Function.update s.pendingListen id (some sender) }, [])
  | .blockGet cid sender => do
    let out ← expectSend dropped (s.pendingGetBlock cid)
      (.reply · (.blockGet (.error ⟨.alreadyExists, "Already Getting Block"⟩)))
    return ({ s with pendingGetBlock := Function.update s.pendingGetBlock cid (some sender) },
      out ++ [.wantBlock cid 0])
  | .blockAdd block => do
    let (blockExchange, _) ← s.blockExchange.addBlock block
    return ({ s with blockExchange }, [])
  | .dial multiAddr => return (s, [.dial multiAddr])

/-! ## Bitswap events -/

/-- The `for` loop over `iter_wanted_blocks` of the three arms of `bitswap` (lines 363–389,
    406–432 and 449–475, the same text): `insert` each pair, `continue` when it was in the set
    already, else send the block and `break`. -/
def sendFirst (pending : Finset (L.PeerId × L.Cid)) :
    List (L.PeerId × Block L.Cid) → Finset (L.PeerId × L.Cid) × List (Output L)
  | [] => (pending, [])
  | (peer, block) :: rest =>
    if (peer, block.cid) ∈ pending then sendFirst pending rest
    else (insert (peer, block.cid) pending, [.sendBlock peer block])

/-- The loop as a step of the service. -/
def sendWanted (s : Service L) : Except Panic (Service L × List (Output L)) := do
  let wanted ← s.blockExchange.iterWantedBlocks
  let (pendingSendBlock, out) := sendFirst s.pendingSendBlock wanted
  return ({ s with pendingSendBlock }, out)

/-- `bitswap` (lines 338–478). -/
def bitswap (dropped : Finset ChanId) (s : Service L) :
    BitswapEvent L → Except Panic (Service L × List (Output L))
  | .receivedBlock _ block => do
    let (blockExchange, _) ← s.blockExchange.addBlock block
    let s := { s with blockExchange }
    let out ← expectSend dropped (s.pendingGetBlock block.cid) (.reply · (.blockGet (.ok block)))
    let s := { s with pendingGetBlock := Function.update s.pendingGetBlock block.cid none }
    if s.pendingSendBlock.card ≥ s.maxConcurrentSend then
      -- if already sending too many blocks
      return (s, out)
    let (s, sent) ← s.sendWanted
    return (s, out ++ sent)
  | .receivedWant peerId cid _ =>
    let s := { s with blockExchange := s.blockExchange.addWant peerId cid }
    if s.pendingSendBlock.card ≥ s.maxConcurrentSend then
      -- if already sending too many blocks
      return (s, [])
    else s.sendWanted
  | .receivedCancel peerId cid => do
    let blockExchange ← s.blockExchange.removeWant peerId cid
    let s := { s with blockExchange }
    if (peerId, cid) ∉ s.pendingSendBlock then
      -- if was not sending this peer this block
      return (s, [])
    { s with pendingSendBlock := s.pendingSendBlock.erase (peerId, cid) }.sendWanted

/-! ## The other events -/

/-- `gossipsub` (lines 259–283). -/
def gossipsub (dropped : Finset ChanId) (s : Service L) :
    GossipsubEvent L → Except Panic (Service L × List (Output L))
  | .message message => do
    let out ← expectSend dropped (s.pendingSubscribe message.topic) (.message · message)
    return (s, out)
  | .subscribed | .unsubscribed | .gossipsubNotSupported => return (s, [])

/-- `kademlia` (lines 285–336). -/
def kademlia (dropped : Finset ChanId) (s : Service L) :
    KademliaEvent L → Except Panic (Service L × List (Output L))
  | .outboundQueryCompleted id (.bootstrap (.ok bootstrapOk)) =>
    if bootstrapOk.numRemaining = 0 then do
      let out ← expectSend dropped (s.pendingBootstap id) (.reply · (.bootstrap (.ok bootstrapOk)))
      return ({ s with pendingBootstap := Function.update s.pendingBootstap id none }, out)
    else return (s, [])
  | .outboundQueryCompleted id (.bootstrap (.error e)) => do
    let out ← expectSend dropped (s.pendingBootstap id) (.reply · (.bootstrap (.error e)))
    return ({ s with pendingBootstap := Function.update s.pendingBootstap id none }, out)
  | .routingUpdated peer => do
    let out ← expectSend dropped (s.routingUpdates peer) (.reply · .dhtAdd)
    return ({ s with routingUpdates := Function.update s.routingUpdates peer none }, out)
  | .outboundQueryCompleted _ .other | .inboundRequest | .unroutablePeer | .routablePeer
  | .pendingRoutablePeer => return (s, [])

/-- `event` (lines 183–257). -/
def event (dropped : Finset ChanId) (s : Service L) :
    Option (SwarmEvent L) → Except Panic (Service L × List (Output L))
  | none => .error (.expect "Infinite Swarm Stream")
  | some (.behaviour (.kademlia event)) => s.kademlia dropped event
  | some (.behaviour (.gossipsub event)) => s.gossipsub dropped event
  | some (.behaviour (.bitswap event)) => s.bitswap dropped event
  | some (.newListenAddr listenerId address) => do
    let out ← expectSend dropped (s.pendingListen listenerId) (.reply · (.listenOn (.ok address)))
    return ({ s with pendingListen := Function.update s.pendingListen listenerId none }, out)
  | some (.behaviour .ping) | some .connectionEstablished | some .connectionClosed
  | some .incomingConnection | some .incomingConnectionError | some .outgoingConnectionError
  | some .bannedPeer | some .expiredListenAddr | some .listenerClosed | some .listenerError
  | some .dialing => return (s, [])

end Service

/-! ## The service and its clients -/

/-- The service, and the channels whose receiver a client has dropped. -/
structure System (L : Libp2p) where
  service : Service L
  dropped : Finset ChanId

/-- What can happen next: an iteration of `run` (lines 73–86) takes a command or an event of the
    swarm, or a client drops a receiver. -/
inductive Input (L : Libp2p) where
  | command (answers : Answers L) (cmd : Command L)
  | event (event : SwarmEvent L)
  | drop (chan : ChanId)

namespace Input

variable {L : Libp2p}

/-! The inputs that reach the block exchange. -/

@[match_pattern] abbrev blockAdd (answers : Answers L) (block : Block L.Cid) : Input L :=
  .command answers (.blockAdd block)

@[match_pattern] abbrev receivedBlock (peerId : L.PeerId) (block : Block L.Cid) : Input L :=
  .event (.behaviour (.bitswap (.receivedBlock peerId block)))

@[match_pattern] abbrev receivedWant (peerId : L.PeerId) (cid : L.Cid) (priority : ℤ) : Input L :=
  .event (.behaviour (.bitswap (.receivedWant peerId cid priority)))

@[match_pattern] abbrev receivedCancel (peerId : L.PeerId) (cid : L.Cid) : Input L :=
  .event (.behaviour (.bitswap (.receivedCancel peerId cid)))

end Input

namespace System

variable {L : Libp2p}

/-- A new service, all of whose future clients are waiting. -/
def new (maxConcurrentSend : ℕ) : System L := ⟨Service.new maxConcurrentSend, ∅⟩

/-- One input. -/
def step (s : System L) : Input L → Except Panic (System L × List (Output L))
  | .command answers cmd => do
    let (service, out) ← s.service.command s.dropped answers cmd
    return ({ s with service }, out)
  | .event event => do
    let (service, out) ← s.service.event s.dropped (some event)
    return ({ s with service }, out)
  | .drop chan => return ({ s with dropped := insert chan s.dropped }, [])

end System

end LiveTest
