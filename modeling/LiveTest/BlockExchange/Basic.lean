import LiveTest.Rust.PairSort

/-!
# Model of `BlockExchange`

The block store and want list of `ipfs/block_exchange.rs`. A `Vec` is a list,
and every indexing, removal, swap and subtraction of the source is the checked
operation of `LiveTest.Rust.Panic`, so a method that can panic returns an
`Except Panic`.

The source stores a want as a pair of indices, into `peers` and into `cids`.
One vector `cids` holds the cids with data, in the order of `datums`, and
behind them the wanted cids without data.
-/

namespace LiveTest

open Rust

/-- `Box<[u8]>` and `Vec<u8>`. -/
abbrev Bytes := List UInt8

/-- `ipfs_bitswap::Block`. -/
structure Block (Cid : Type) where
  data : Bytes
  cid : Cid
  deriving DecidableEq, Repr

/-- `struct BlockExchange` (lines 11–23). -/
structure BlockExchange (PeerId Cid : Type) where
  peers : List PeerId
  /-- peers idx mapped to cids idx. -/
  peerIndices : List ℕ
  /-- cids idx mapped to peers idx -/
  cidIndices : List ℕ
  /-- First Cids with data then starting at index == datums.len(), Cids without data -/
  cids : List Cid
  datums : List Bytes
  deriving DecidableEq, Repr

namespace BlockExchange

variable {PeerId Cid : Type}

/-- `BlockExchange::default()`. -/
def default : BlockExchange PeerId Cid := ⟨[], [], [], [], []⟩

/-- `insertion_sort_wants` (lines 26–41). -/
def insertionSortWants (s : BlockExchange PeerId Cid) :
    Except Panic (BlockExchange PeerId Cid) := do
  let (peerIndices, cidIndices) ← pairSort s.peerIndices s.cidIndices
  return { s with peerIndices, cidIndices }

/-- `iter_wanted_blocks` (lines 44–64), collected. -/
def iterWantedBlocks (s : BlockExchange PeerId Cid) : Except Panic (List (PeerId × Block Cid)) :=
  filterMap (fun (peerIndex, cidIndex) =>
    if cidIndex ≥ s.datums.length then
      -- Dont have block
      return none
    else do
      let peer ← index s.peers peerIndex
      let data ← index s.datums cidIndex
      let cid ← index s.cids cidIndex
      return some (peer, ⟨data, cid⟩))
    (s.peerIndices.zip s.cidIndices)

variable [DecidableEq PeerId] [DecidableEq Cid]

/-- `iter_who_want_block` (lines 66–78), collected. -/
def iterWhoWantBlock (s : BlockExchange PeerId Cid) (cid : Cid) : Except Panic (List PeerId) :=
  filterMap (fun (idx, i) => do
    if (← index s.cids idx) = cid then
      let peerIdx ← index s.peerIndices i
      let peer ← index s.peers peerIdx
      return some peer
    else return none)
    s.cidIndices.zipIdx

/-- `position`, and where it finds nothing, `len` and a `push` (lines 81–92, once for `peers` and
    once for `cids`). -/
def positionOrPush {α : Type} [DecidableEq α] (v : List α) (a : α) : ℕ × List α :=
  match v.findIdx? (· = a) with
  | some i => (i, v)
  | none => (v.length, v ++ [a])

/-- `add_want` (lines 80–96). Neither `unwrap` can fail: both options are `Some` by then. -/
def addWant (s : BlockExchange PeerId Cid) (peerId : PeerId) (cid : Cid) :
    BlockExchange PeerId Cid :=
  let (peerIndex, peers) := positionOrPush s.peers peerId
  let (cidIndex, cids) := positionOrPush s.cids cid
  { s with
    peers, cids
    peerIndices := s.peerIndices ++ [peerIndex]
    cidIndices := s.cidIndices ++ [cidIndex] }

/-- The reverse `loop` of `remove_wants` and `remove_want`, entered with `i`: where `hit`
    holds of position `i`, it is removed from both index vectors, preserving the order. -/
def removeLoop (hit : BlockExchange PeerId Cid → ℕ → Except Panic Bool) :
    ℕ → BlockExchange PeerId Cid → Except Panic (BlockExchange PeerId Cid)
  | i, s => do
    let s ← if ← hit s i then do
        let peerIndices ← remove s.peerIndices i
        let cidIndices ← remove s.cidIndices i
        pure { s with peerIndices, cidIndices }
      else pure s
    match i with
    | 0 => return s
    | i + 1 => removeLoop hit i s

/-- The shape `remove_wants` and `remove_want` share: return on an empty index vector or when
    `position` finds nothing, else the reverse loop from `len() - 1`. -/
def removeFrom (s : BlockExchange PeerId Cid) (indices : List ℕ) (position : Option ℕ)
    (hit : ℕ → BlockExchange PeerId Cid → ℕ → Except Panic Bool) :
    Except Panic (BlockExchange PeerId Cid) :=
  if indices.isEmpty then return s
  else match position with
    | none => return s
    | some k => do
      let i ← sub indices.length 1
      removeLoop (hit k) i s

/-- The test of `remove_wants` (line 110). -/
def removeWantsHit (cidIndex : ℕ) (s : BlockExchange PeerId Cid) (i : ℕ) : Except Panic Bool := do
  return (← index s.cidIndices i) = cidIndex

/-- The test of `remove_want` (line 139); `&&` reads `cids` only where the peers are equal. -/
def removeWantHit (cid : Cid) (peerIdx : ℕ) (s : BlockExchange PeerId Cid) (i : ℕ) :
    Except Panic Bool := do
  if peerIdx = (← index s.peerIndices i) then
    return cid = (← index s.cids (← index s.cidIndices i))
  else return false

/-- `remove_wants` (lines 98–124). -/
def removeWants (s : BlockExchange PeerId Cid) (cid : Cid) :
    Except Panic (BlockExchange PeerId Cid) :=
  removeFrom s s.cidIndices (s.cids.findIdx? (· = cid)) removeWantsHit

/-- `remove_want` (lines 126–153). -/
def removeWant (s : BlockExchange PeerId Cid) (peerId : PeerId) (cid : Cid) :
    Except Panic (BlockExchange PeerId Cid) :=
  removeFrom s s.peerIndices (s.peers.findIdx? (· = peerId)) (removeWantHit cid)

/-- `get_block` (lines 155–165). -/
def getBlock (s : BlockExchange PeerId Cid) (cid : Cid) : Option (Block Cid) :=
  ((s.cids.zip s.datums).find? fun (id, _) => cid = id).map fun (id, data) => ⟨data, id⟩

/-- The `for` loop of `add_block` (lines 172–185) over `ids`, entered at position `i` with the
    current value of `index`; `held` is `datums.len()`. `none` is the early `return false`. -/
def addBlockScan (cid : Cid) (held : ℕ) : List Cid → ℕ → Option ℕ → Option (Option ℕ)
  | [], _, index => some index
  | id :: ids, i, index =>
    -- Case: cid not found
    if id ≠ cid then addBlockScan cid held ids (i + 1) index
    -- Case: cid & data are present
    else if i < held then none
    -- Case: cid is present but not data
    else addBlockScan cid held ids (i + 1) (some i)

/-- The body of the `iter_mut` loop of `add_block` (lines 191–199): the second `if` sees the
    value written by the first. -/
def renameIndex (i lastIndex cidIndex : ℕ) : ℕ :=
  let cidIndex := if cidIndex = i then lastIndex else cidIndex
  if cidIndex = lastIndex then i else cidIndex

/-- `add_block` (lines 167–207). -/
def addBlock (s : BlockExchange PeerId Cid) (block : Block Cid) :
    Except Panic (BlockExchange PeerId Cid × Bool) :=
  match addBlockScan block.cid s.datums.length s.cids 0 none with
  | none => return (s, false)
  | some index => do
    let s ← match index with
      | some i => do
        let lastIndex ← sub s.cids.length 1
        let cids ← swap s.cids lastIndex i
        pure { s with cids, cidIndices := s.cidIndices.map (renameIndex i lastIndex) }
      | none => pure { s with cids := s.cids ++ [block.cid] }
    return ({ s with datums := s.datums ++ [block.data] }, true)

end BlockExchange

end LiveTest
