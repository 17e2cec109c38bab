import LiveTest.Service.Basic
import LiveTest.VideoPlayer.Basic

/-!
# Model of a viewer

The player of `video_player.rs` over the client and the service of `ipfs/`. A
fetch task calls `get_block` once for each cid of its message, and reports when
`join_all` has all the results; it does not look at them.

The tasks run beside each other, so each call of `get_block` is an action of
its own. The other commands of a viewer (it listens, dials and subscribes before
it plays) put nothing where a `BlockGet` looks, and are left out.
-/

namespace LiveTest

open Rust

/-- The player, the service and what is between them. -/
structure Viewer (L : Libp2p) where
  player : Player L.Cid
  system : System L
  /-- The calls of `get_block` each task has made, with the one-shot channel of each. -/
  handles : ℕ → List (L.Cid × ChanId)
  /-- The channel of the commands. -/
  commands : List (Command L)
  /-- The one-shot channels made so far are those below. -/
  nextChan : ChanId
  /-- What was sent on the one-shot channels. -/
  replies : ChanId → Option (Reply L)
  /-- The cids of the blocks that the node has received; no part of the viewer reads it. -/
  received : List L.Cid

namespace Viewer

variable {L : Libp2p}

/-- What can happen to a viewer: something to its player, a task calls `get_block` for the next cid,
    or the service takes a command or an event. -/
inductive Action (L : Libp2p) where
  | gossip (receiveTime : Int64) (msg : StreamerMessage L.Cid)
  | tick (now : Int64)
  | request (task : ℕ)
  | serve (answers : Answers L)
  | event (event : SwarmEvent L)
  | finish (task : ℕ)
  | recv (receiveTime : Int64)

/-- The cid of the block that an event brings. -/
def receivedCid : SwarmEvent L → Option L.Cid
  | .behaviour (.bitswap (.receivedBlock _ block)) => some block.cid
  | _ => none

/-- The replies of a step go into their channels. -/
def deliver (replies : ChanId → Option (Reply L)) : List (Output L) → ChanId → Option (Reply L)
  | [] => replies
  | .reply sender reply :: out => deliver (Function.update replies sender (some reply)) out
  | _ :: out => deliver replies out

/-- A viewer that has received nothing. -/
def new (maxConcurrentSend : ℕ) (segmentLength simId : UInt64) : Viewer L where
  player := Player.new segmentLength simId
  system := System.new maxConcurrentSend
  handles := fun _ => []
  commands := []
  nextChan := 0
  replies := fun _ => none
  received := []

/-- A step of the player. -/
def stepPlayer (overflow : Overflow) (v : Viewer L) (a : Player.Action L.Cid) :
    Except Panic (Viewer L × Player.Event L.Cid) := do
  let (player, e) ← v.player.step overflow a
  return ({ v with player }, e)

/-- A step of the service. -/
def stepSystem (v : Viewer L) (i : Input L) : Except Panic (Viewer L × Player.Event L.Cid) := do
  let (system, out) ← v.system.step i
  return ({ v with system, replies := deliver v.replies out }, .none)

/-- `get_block` (`client.rs`, lines 165–173), called by a task, up to its `await`. -/
def getBlock (v : Viewer L) (task : ℕ) (cid : L.Cid) : Viewer L :=
  { v with
    handles := Function.update v.handles task (v.handles task ++ [(cid, v.nextChan)])
    commands := v.commands ++ [.blockGet cid v.nextChan]
    nextChan := v.nextChan + 1 }

/-- All the `get_block` calls of a task for `msg` have returned, so its `join_all` has. -/
def Joined (v : Viewer L) (task : ℕ) (msg : StreamerMessage L.Cid) : Prop :=
  (v.handles task).length = msg.cids.length ∧ ∀ h ∈ v.handles task, (v.replies h.2).isSome

instance (v : Viewer L) (task : ℕ) (msg : StreamerMessage L.Cid) : Decidable (v.Joined task msg) :=
  inferInstanceAs (Decidable (_ ∧ _))

/-- The message whose blocks the task gets. -/
def message (v : Viewer L) (task : ℕ) : Option (StreamerMessage L.Cid) :=
  (v.player.tasks.find? fun t => t.1 = task).map Prod.snd

/-- One action; an action that is not possible does nothing. The task of `play` is lines 283–296 of
    `video_player.rs`. -/
def step (overflow : Overflow) (v : Viewer L) :
    Action L → Except Panic (Viewer L × Player.Event L.Cid)
  | .gossip receiveTime msg => v.stepPlayer overflow (.gossip receiveTime msg)
  | .tick now => v.stepPlayer overflow (.tick now)
  | .request task =>
    match v.message task with
    | none => return (v, .none)
    | some msg =>
      match msg.cids[(v.handles task).length]? with
      | none => return (v, .none)
      | some cid => return (v.getBlock task cid, .none)
  | .serve answers =>
    match v.commands with
    | [] => return (v, .none)
    | cmd :: commands => { v with commands }.stepSystem (.command answers cmd)
  | .event event =>
    { v with received := v.received ++ (receivedCid event).toList }.stepSystem (.event event)
  | .finish task =>
    match v.message task with
    | none => return (v, .none)
    | some msg =>
      -- the results are not looked at
      if v.Joined task msg then v.stepPlayer overflow (.finish task) else return (v, .none)
  | .recv receiveTime => v.stepPlayer overflow (.recv receiveTime)

end Viewer

end LiveTest
