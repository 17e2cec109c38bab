import LiveTest.Rust.Overflow
import LiveTest.Rust.PairSort
import Mathlib.Data.Finset.Card

/-!
# Model of `VideoStream`

The player of `video_player.rs`. The two queues of the buffer are lists, the
indices and timestamps are `UInt64` and the skip count is an `Int32`. A method
is told what an overflow does, since that depends on the build; the release
build, the one that the Dockerfile makes, wraps. `stopped` and `buffering` are
incremented by one at a time and are natural numbers. A reading of the clock is
an argument of the method that takes it, and so is what `serde_json` makes of a
message.

Next to what the source returns, `advance_stream` returns the pair it plays and
the pairs it skips, so that a run can be asked about them. `Player` is the
player with the tasks that `play` spawns and the channel they report on.
-/

namespace LiveTest

open Rust

instance uint64LinearOrder : LinearOrder UInt64 where
  le_refl := UInt64.le_refl
  le_trans := fun _ _ _ => UInt64.le_trans
  lt_iff_le_not_ge := fun a b => by
    rw [UInt64.not_le]
    exact ⟨fun h => ⟨UInt64.le_of_lt h, h⟩, fun h => h.2⟩
  le_antisymm := fun _ _ => UInt64.le_antisymm
  le_total := UInt64.le_total
  toDecidableLE := inferInstance
  toDecidableEq := inferInstance
  toDecidableLT := inferInstance

/-- `struct StreamerMessage` (`utils.rs`, lines 46–54). -/
structure StreamerMessage (Cid : Type) where
  count : UInt64
  timestamp : UInt64
  cids : List Cid
  deriving DecidableEq, Repr

/-- `influxdb::Timestamp`: in milliseconds, or made from the `DateTime` with that
    `timestamp_millis`. -/
inductive Timestamp where
  | milliseconds (ms : UInt64)
  | utc (now : Int64)
  deriving DecidableEq

/-- The value of a field or a tag. -/
inductive Value where
  | unsigned (v : ℕ)
  | signed (v : ℤ)
  deriving DecidableEq

/-- `influxdb::WriteQuery`, its fields and tags in the order they were added. -/
structure WriteQuery where
  timestamp : Timestamp
  name : String
  fields : List (String × Value)
  tags : List (String × Value)
  deriving DecidableEq

/-- `query.add_field(name, value)`. -/
def WriteQuery.addField (query : WriteQuery) (name : String) (value : Value) : WriteQuery :=
  { query with fields := query.fields ++ [(name, value)] }

/-- `struct VideoStream` (lines 24–47), without the handles `ipfs`, `testground` and
    `block_sender`; of `params` only the segment length is read. -/
structure VideoStream (Cid : Type) where
  segmentLength : UInt64
  simId : UInt64
  lastGossipTime : UInt64
  gossips : List (StreamerMessage Cid)
  /-- Segment indices -/
  fetching : Finset UInt64
  lastSegmentTime : UInt64
  timestamps : List UInt64
  segments : List UInt64
  currentSegment : UInt64
  stopped : ℕ
  buffering : ℕ
  bufferSize : UInt64

namespace VideoStream

variable {Cid : Type}

/-- `VideoStream::new` (lines 50–79). -/
def new (segmentLength simId : UInt64) : VideoStream Cid where
  segmentLength := segmentLength
  simId := simId
  lastGossipTime := 0
  gossips := []
  fetching := ∅
  lastSegmentTime := 0
  timestamps := []
  segments := []
  currentSegment := 0
  stopped := 0
  buffering := 0
  bufferSize := 30

/-- The jitter of `add_gossip` and `add_segment` (lines 88–93 and 122–127). -/
def jitter (overflow : Overflow) (s : VideoStream Cid) (receiveTime : Int64) (lastTime : UInt64) :
    Except Panic Int64 :=
  if lastTime = 0 then return 0
  else do
    let elapsed ← overflow.subSigned receiveTime lastTime.toInt64
    let length ← overflow.mul s.segmentLength 1000
    overflow.subSigned elapsed length.toInt64

/-- The metric that `add_gossip` and `add_segment` record (lines 87–101 and 121–135). -/
def arrivalQuery (overflow : Overflow) (s : VideoStream Cid) (name : String) (receiveTime : Int64)
    (lastTime segmentIndex timestamp : UInt64) : Except Panic WriteQuery := do
  let latency ← overflow.sub receiveTime.toUInt64 timestamp
  let jitter ← s.jitter overflow receiveTime lastTime
  return {
    timestamp := .milliseconds timestamp
    name := name
    fields := [("latency", .unsigned latency.toNat), ("jitter", .signed jitter.toInt)]
    tags := [("sim_id", .unsigned s.simId.toNat),
      ("segment_number", .unsigned segmentIndex.toNat)] }

/-- `add_gossip` (lines 81–114); `message` is the result of `serde_json::from_slice`, with `none`
    for an `Err`. -/
def addGossip (overflow : Overflow) (s : VideoStream Cid) (receiveTime : Int64)
    (message : Option (StreamerMessage Cid)) : Except Panic (VideoStream Cid × WriteQuery) :=
  match message with
  | none => .error (.expect "Message Deserialization")
  | some msg => do
    let query ←
      s.arrivalQuery overflow "gossips" receiveTime s.lastGossipTime msg.count msg.timestamp
    return ({ s with
      lastGossipTime := receiveTime.toUInt64
      gossips := s.gossips ++ [msg] }, query)

/-- `add_segment` (lines 116–164). -/
def addSegment (overflow : Overflow) (s : VideoStream Cid) (receiveTime : Int64)
    (segmentIndex timestamp : UInt64) : Except Panic (VideoStream Cid × WriteQuery) := do
  let query ←
    s.arrivalQuery overflow "blocks" receiveTime s.lastSegmentTime segmentIndex timestamp
  let (segments, timestamps) ←
    pairSort (s.segments ++ [segmentIndex]) (s.timestamps ++ [timestamp])
  return ({ s with
    fetching := s.fetching.erase segmentIndex
    lastSegmentTime := receiveTime.toUInt64
    segments, timestamps }, query)

/-- `queue.pop_front().unwrap()`. -/
def popFront (queue : List UInt64) : Except Panic (UInt64 × List UInt64) :=
  match queue with
  | [] => .error .unwrapNone
  | a :: queue => .ok (a, queue)

/-- The locals of `advance_stream` that the skip loop changes, with the two queues, and the pairs
    that the loop overwrote. -/
structure Head where
  segmentIdx : UInt64
  timestamp : UInt64
  skippedSegments : Int32
  segments : List UInt64
  timestamps : List UInt64
  skipped : List (UInt64 × UInt64)

/-- The `while` loop of `advance_stream` (lines 198–205), over the segments. -/
def skipLoop (overflow : Overflow) (half : UInt64) : List UInt64 → Head → Except Panic Head
  | [], h => .ok h
  | segment :: segments, h => do
    let limit ← overflow.sub ((segment :: segments).getLast (by simp)) half
    if h.segmentIdx < limit then
      let (timestamp, timestamps) ← popFront h.timestamps
      let skippedSegments ← overflow.increment h.skippedSegments
      skipLoop overflow half segments
        ⟨segment, timestamp, skippedSegments, segments, timestamps,
          h.skipped ++ [(h.segmentIdx, h.timestamp)]⟩
    else return h

/-- The two branches on the tail of the buffer (lines 194–206): if the head is too far from it, skip
    to mid buffer. -/
def skipAhead (overflow : Overflow) (s : VideoStream Cid) (h : Head) : Except Panic Head :=
  match h.segments.getLast? with
  | some last => do
    let limit ← overflow.sub last s.bufferSize
    if h.segmentIdx < limit then skipLoop overflow (s.bufferSize / 2) h.segments h
    else return h
  | none => return h

/-- The entry that `advance_stream` takes off a buffer that is not empty (lines 191–206). -/
def nextSegment (overflow : Overflow) (s : VideoStream Cid) : Except Panic Head := do
  let (segmentIdx, segments) ← popFront s.segments
  let (timestamp, timestamps) ← popFront s.timestamps
  s.skipAhead overflow ⟨segmentIdx, timestamp, 0, segments, timestamps, []⟩

/-- What `advance_stream` did: the metric it returns, the pair it played and those it skipped. -/
structure Advance where
  query : WriteQuery
  played : Option (UInt64 × UInt64)
  skipped : List (UInt64 × UInt64)

/-- `advance_stream` (lines 166–238). -/
def advanceStream (overflow : Overflow) (s : VideoStream Cid) (now : Int64) :
    Except Panic (VideoStream Cid × Advance) :=
  let query : WriteQuery := ⟨.utc now, "video",
    [("gossips", .unsigned s.gossips.length), ("fetch", .unsigned s.fetching.card),
      ("buffer", .unsigned s.segments.length)], [("sim_id", .unsigned s.simId.toNat)]⟩
  if s.buffering > 0 then
    let s := { s with buffering := s.buffering - 1, stopped := s.stopped + 1 }
    return (s, ⟨query.addField "stop" (.unsigned s.stopped), none, []⟩)
  else if s.segments.isEmpty then
    let s := { s with stopped := s.stopped + 1, buffering := 2 }
    return (s, ⟨query.addField "stop" (.unsigned s.stopped), none, []⟩)
  else do
    let head ← s.nextSegment overflow
    let latency ← overflow.sub now.toUInt64 head.timestamp
    let s := { s with
      segments := head.segments
      timestamps := head.timestamps
      stopped := 0
      currentSegment := head.segmentIdx
      -- clean up
      fetching := s.fetching.filter fun index => ¬ index < head.segmentIdx }
    let query := query.addField "latency" (.unsigned latency.toNat)
    let query := query.addField "stop" (.unsigned s.stopped)
    let query := query.addField "skip" (.signed head.skippedSegments.toInt)
    return (s, ⟨query, some (head.segmentIdx, head.timestamp), head.skipped⟩)

/-- `play` (lines 271–308): the message whose blocks the spawned task gets, if there is one, and
    what `advance_stream` did. -/
def play (overflow : Overflow) (s : VideoStream Cid) (now : Int64) :
    Except Panic (VideoStream Cid × Option (StreamerMessage Cid) × Advance) := do
  let (s, msg) := match s.gossips with
    | msg :: gossips => ({ s with gossips, fetching := insert msg.count s.fetching }, some msg)
    | [] => (s, none)
  let (s, advance) ← s.advanceStream overflow now
  return (s, msg, advance)

end VideoStream

/-! ## The player and its tasks -/

/-- The player with the fetch tasks that have not reported, each under the number of its spawn, and
    the channel they report on. The code sends `(count, timestamp)`; the entry keeps the whole
    message, to say which one it is for. -/
structure Player (Cid : Type) where
  stream : VideoStream Cid
  spawned : ℕ
  tasks : List (ℕ × StreamerMessage Cid)
  channel : List (StreamerMessage Cid)

namespace Player

variable {Cid : Type}

/-- What can happen to the player: `run` (lines 244–269) takes a message of the stream, a tick or
    an entry of the channel, or a task reports. -/
inductive Action (Cid : Type) where
  | gossip (receiveTime : Int64) (msg : StreamerMessage Cid)
  | tick (now : Int64)
  | finish (task : ℕ)
  | recv (receiveTime : Int64)

/-- What a step did. -/
inductive Event (Cid : Type) where
  | none
  | received (msg : StreamerMessage Cid) (query : WriteQuery)
  | advanced (advance : VideoStream.Advance)
  | finished (msg : StreamerMessage Cid)
  | buffered (msg : StreamerMessage Cid) (query : WriteQuery)

/-- `VideoStream::new`, before `run`. -/
def new (segmentLength simId : UInt64) : Player Cid := ⟨.new segmentLength simId, 0, [], []⟩

/-- One action; an action that is not possible does nothing. -/
def step (overflow : Overflow) (p : Player Cid) : Action Cid → Except Panic (Player Cid × Event Cid)
  | .gossip receiveTime msg => do
    let (stream, query) ← p.stream.addGossip overflow receiveTime (some msg)
    return ({ p with stream }, .received msg query)
  | .tick now => do
    let (stream, fetch, advance) ← p.stream.play overflow now
    match fetch with
    | some msg =>
      return ({ p with stream, spawned := p.spawned + 1, tasks := p.tasks ++ [(p.spawned, msg)] },
        .advanced advance)
    | none => return ({ p with stream }, .advanced advance)
  | .finish task =>
    match p.tasks.find? fun t => t.1 = task with
    | some (_, msg) =>
      return ({ p with
        tasks := p.tasks.eraseP fun t => t.1 = task
        channel := p.channel ++ [msg] }, .finished msg)
    | none => return (p, .none)
  | .recv receiveTime =>
    match p.channel with
    | msg :: channel => do
      let (stream, query) ← p.stream.addSegment overflow receiveTime msg.count msg.timestamp
      return ({ p with stream, channel }, .buffered msg query)
    | [] => return (p, .none)

end Player

end LiveTest
