import LiveTest.Rust.Panic
import Mathlib.Data.Fintype.Basic
import Mathlib.Logic.Function.Basic

/-!
# Model of a run of the test plan

The nodes of `main.rs`, from the subscription to the topic of the addresses to
the start of the stream. `streamer` (`roles/streamer.rs`, lines 76–170) and
`viewer` (`roles/viewer.rs`, lines 70–140) have the same text up to the last
barrier; line numbers are those of `streamer`.

A step is one step of one node, in any order. Testground is modelled by what it
promises: a signal is counted, a barrier opens when the count reaches its
target, and a published message is delivered once to every subscriber, at any
time later and in any order. A call of testground can also fail, and then the
node returns from `main`.
-/

namespace LiveTest

open Rust

/-- The text of a message. -/
abbrev Payload := List Char

/-- The types of `libp2p` with their conversions to and from text, and what each node knows of
    itself. -/
structure Net (n : ℕ) where
  PeerId : Type
  Multiaddr : Type
  toBase58 : PeerId → Payload
  parsePeerId : Payload → Option PeerId
  addrToString : Multiaddr → Payload
  parseMultiaddr : Payload → Option Multiaddr
  localPeerId : Fin n → PeerId
  localMultiAddr : Fin n → Multiaddr
  [peerIdEq : DecidableEq PeerId]

attribute [instance] Net.peerIdEq

/-- The text of a peer id or an address has no blank and parses to what it is the text of, and no
    two nodes have the same peer id. -/
structure Net.Lawful {n : ℕ} (net : Net n) : Prop where
  parse_toBase58 : ∀ p, net.parsePeerId (net.toBase58 p) = some p
  parse_addrToString : ∀ a, net.parseMultiaddr (net.addrToString a) = some a
  blank_toBase58 : ∀ p, ' ' ∉ net.toBase58 p
  blank_addrToString : ∀ a, ' ' ∉ net.addrToString a
  localPeerId_inj : Function.Injective net.localPeerId

namespace Net

variable {n : ℕ} (net : Net n)

/-- `format!("{} {}", …)` (lines 82–86). -/
def payload (i : Fin n) : Payload :=
  [' '].intercalate [net.toBase58 (net.localPeerId i), net.addrToString (net.localMultiAddr i)]

/-- `parse().unwrap()`. -/
def unwrap {α : Type} : Option α → Except Panic α
  | some a => .ok a
  | none => .error .unwrapNone

/-- What a node takes a message apart into (lines 105–108). -/
def parsePayload (payload : Payload) : Except Panic (net.PeerId × net.Multiaddr) := do
  let parts := payload.splitOn ' '
  let peerId ← unwrap (net.parsePeerId (← index parts 0))
  let multiAddr ← unwrap (net.parseMultiaddr (← index parts 1))
  return (peerId, multiAddr)

end Net

/-- The states of the barriers (`main.rs`, lines 13–15). -/
inductive SyncState where
  | init
  | net
  | bootstrap
  deriving DecidableEq, Repr

/-- How far a node has come. -/
inductive Stage where
  | start
  /-- Behind `subscribe(REDIS_TOPIC)` (line 76). -/
  | subscribed
  /-- In `signal_and_wait(INIT_STATE)` (line 79), after its signal. -/
  | initSignalled
  | initPassed
  /-- Behind `publish` (line 89). -/
  | published
  /-- Behind `signal(NET_STATE)` (line 94), in the `while let`. -/
  | collecting
  /-- Behind the `break` (line 118), at `barrier(NET_STATE)`. -/
  | collected
  /-- In the `for` loop (line 128). -/
  | dialing
  /-- In `signal_and_wait(BOOTSTRAP_STATE)` (line 145), after its signal. -/
  | bootstrapSignalled
  | bootstrapPassed
  /-- Behind `subscribe(GOSSIPSUB_TOPIC)` (line 148; `video_player.rs`, line 252). -/
  | live
  deriving DecidableEq, Repr

/-- The stages are passed in this order. -/
def Stage.rank : Stage → ℕ
  | .start => 0
  | .subscribed => 1
  | .initSignalled => 2
  | .initPassed => 3
  | .published => 4
  | .collecting => 5
  | .collected => 6
  | .dialing => 7
  | .bootstrapSignalled => 8
  | .bootstrapPassed => 9
  | .live => 10

/-- The stage of a node that has just signalled the state. -/
def SyncState.signalled : SyncState → Stage
  | .init => .initSignalled
  | .net => .collecting
  | .bootstrap => .bootstrapSignalled

/-- A node. -/
structure Node {n : ℕ} (net : Net n) where
  stage : Stage
  /-- A call of testground returned an `Err`, and so did `main`. -/
  failed : Bool
  /-- The messages on `REDIS_TOPIC` that its stream has not yielded yet. -/
  inbox : List Payload
  peerIds : List net.PeerId
  addresses : List net.Multiaddr
  /-- What is left of the zipped iterator of the `for` loop. -/
  remaining : List (net.PeerId × net.Multiaddr)
  /-- The addresses dialled. -/
  dials : List net.Multiaddr
  /-- The number of `StreamerMessage`s published. -/
  videos : ℕ

/-- The nodes and testground. -/
structure Exchange {n : ℕ} (net : Net n) where
  nodes : Fin n → Node net
  signals : SyncState → ℕ
  /-- The messages published on `REDIS_TOPIC`. -/
  log : List Payload

namespace Node

variable {n : ℕ} {net : Net n}

/-- The node has come to the stage, or further. -/
def Past (node : Node net) (stage : Stage) : Prop := stage.rank ≤ node.stage.rank

instance (node : Node net) (stage : Stage) : Decidable (node.Past stage) :=
  inferInstanceAs (Decidable (_ ≤ _))

/-- A published message, for a node that has subscribed. -/
def deliver (node : Node net) (payload : Payload) : Node net :=
  if node.Past .subscribed then { node with inbox := node.inbox ++ [payload] } else node

end Node

/-- `testground.signal("id")` numbers the nodes from 1 (`main.rs`, line 25). -/
def simId {n : ℕ} (i : Fin n) : ℕ := i.val + 1

/-- The role that `main` gives to a node (`main.rs`, lines 27–33). -/
def isStreamer {n : ℕ} (i : Fin n) : Prop := simId i = 1

instance {n : ℕ} : DecidablePred (isStreamer : Fin n → Prop) :=
  fun _ => inferInstanceAs (Decidable (_ = _))

/-- What can happen next. -/
inductive Action (n : ℕ) where
  /-- `subscribe(REDIS_TOPIC)` returns. Of the messages published before, testground may deliver
      some as well. -/
  | subscribe (node : Fin n) (replayed : List Payload)
  /-- The next step of a node that waits for no message. -/
  | next (node : Fin n)
  /-- The stream of the node yields the message at this place of its inbox. -/
  | receive (node : Fin n) (place : ℕ)
  /-- A call of testground fails. -/
  | fail (node : Fin n)
  deriving DecidableEq

namespace Exchange

variable {n : ℕ} {net : Net n}

/-- No node has made a step. -/
def new : Exchange net where
  nodes := fun _ => ⟨.start, false, [], [], [], [], [], 0⟩
  signals := fun _ => 0
  log := []

/-- The exchange with another node `i`. -/
def setNode (s : Exchange net) (i : Fin n) (node : Node net) : Exchange net :=
  { s with nodes := Function.update s.nodes i node }

/-- `signal`, by which node `i` gets to the stage. -/
def signal (s : Exchange net) (i : Fin n) (state : SyncState) : Exchange net :=
  { s.setNode i { s.nodes i with stage := state.signalled } with
    signals := Function.update s.signals state (s.signals state + 1) }

/-- `barrier`, or the second half of `signal_and_wait`: node `i` goes on as `node` once there are
    `n` signals. -/
def barrier (s : Exchange net) (i : Fin n) (state : SyncState) (node : Node net) : Exchange net :=
  if n ≤ s.signals state then s.setNode i node else s

/-- `publish(REDIS_TOPIC)`, behind which node `i` is at `published`. -/
def publish (s : Exchange net) (i : Fin n) : Exchange net :=
  let s := s.setNode i { s.nodes i with stage := .published }
  { s with
    nodes := fun j => (s.nodes j).deliver (net.payload i)
    log := s.log ++ [net.payload i] }

/-- The body of the `while let` (lines 96–120), for the message at `place`. -/
def receive (s : Exchange net) (i : Fin n) (place : ℕ) : Except Panic (Exchange net) :=
  let node := s.nodes i
  match node.inbox[place]? with
  | none => return s
  | some payload => do
    let node := { node with inbox := node.inbox.eraseIdx place }
    let (peerId, multiAddr) ← net.parsePayload payload
    if peerId = net.localPeerId i then return s.setNode i node
    else
      let node := { node with
        peerIds := node.peerIds ++ [peerId]
        addresses := node.addresses ++ [multiAddr] }
      if node.peerIds.length ≥ n - 1 then return s.setNode i { node with stage := .collected }
      else return s.setNode i node

/-- The next step of node `i`, if it waits for no message. -/
def next (s : Exchange net) (i : Fin n) : Exchange net :=
  let node := s.nodes i
  match node.stage with
  | .start | .collecting => s
  | .subscribed => s.signal i .init
  | .initSignalled => s.barrier i .init { node with stage := .initPassed }
  | .initPassed => s.publish i
  | .published => s.signal i .net
  | .collected => s.barrier i .net { node with
      stage := .dialing
      remaining := node.peerIds.zip node.addresses }
  | .dialing =>
    match node.remaining with
    | (_, addr) :: remaining =>
      s.setNode i { node with remaining, dials := node.dials ++ [addr] }
    | [] => s.signal i .bootstrap
  | .bootstrapSignalled => s.barrier i .bootstrap { node with stage := .bootstrapPassed }
  | .bootstrapPassed => s.setNode i { node with stage := .live }
  | .live =>
    -- a tick of the streamer's interval: `generate_video` (lines 184–225)
    if isStreamer i then s.setNode i { node with videos := node.videos + 1 } else s

/-- One action; one that is not possible does nothing. -/
def step (s : Exchange net) : Action n → Except Panic (Exchange net × Unit)
  | .subscribe i replayed =>
    let node := s.nodes i
    if ¬ node.failed ∧ node.stage = .start ∧ replayed.Sublist s.log then
      return (s.setNode i { node with stage := .subscribed, inbox := replayed }, ())
    else return (s, ())
  | .next i => return (if (s.nodes i).failed then s else s.next i, ())
  | .receive i place =>
    if ¬ (s.nodes i).failed ∧ (s.nodes i).stage = .collecting then do
      let s ← s.receive i place
      return (s, ())
    else return (s, ())
  | .fail i => return (s.setNode i { s.nodes i with failed := true }, ())

end Exchange

end LiveTest
