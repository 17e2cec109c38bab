import LiveTest.BlockExchange.Basic
import LiveTest.Rust.Overflow
import Mathlib.Algebra.BigOperators.Group.List.Basic

/-!
# `generate_blocks`

The blocks of one video segment (`utils.rs`, lines 57–117). The random source
and the digest are parameters; memory is not bounded.

* `blocksLoop_sizes`: the sizes of the blocks that the loop generates.
* `generateBlocks_partitions_iff`: in either build, the blocks partition the
  segment exactly when the segment has a byte.
-/

namespace LiveTest

open Rust

/-- `trait RngCore`: `fill_bytes` fills a buffer of `n` bytes. -/
structure RngCore (σ : Type) where
  fillBytes : σ → (n : ℕ) → { data : Bytes // data.length = n } × σ

/-- `MAX_BLOCK_SIZE` (line 105). -/
def maxBlockSize : UInt64 := 524288

/-- `STANDARD_BLOCK_SIZE` (line 106). -/
def standardBlockSize : UInt64 := 262144

namespace Streamer

variable {σ Cid : Type} (rngCore : RngCore σ) (digest : Bytes → Cid)

/-- `random_block` (lines 108–117); `digest` is the cid of the data, `Cid::new_v1(0x00, …)`. -/
def randomBlock (rng : σ) (blockSize : ℕ) : Block Cid × σ :=
  let (data, rng) := rngCore.fillBytes rng blockSize
  (⟨data.val, digest data.val⟩, rng)

/-- The `loop` (lines 84–100) from behind its first line, where `num_blocks` is one less; the
    subtraction of the next round is from a positive number. -/
def blocksLoop (blockSize remainderBytes : ℕ) : ℕ → σ → List (Block Cid) × σ
  | 0, rng =>
    let (block, rng) :=
      randomBlock rngCore digest rng (if remainderBytes > 0 then remainderBytes else blockSize)
    ([block], rng)
  | numBlocks + 1, rng =>
    let (block, rng) := randomBlock rngCore digest rng blockSize
    let (blocks, rng) := blocksLoop blockSize remainderBytes numBlocks rng
    (block :: blocks, rng)

/-- `block_size` (lines 65–69). -/
def blockSize (maxSize : Bool) : UInt64 := if maxSize then maxBlockSize else standardBlockSize

/-- `num_blocks` and `remainder_bytes` (lines 71–80). -/
def countBlocks (totalBytes blockSize : UInt64) : UInt64 × UInt64 :=
  let div := totalBytes / blockSize
  let rem := totalBytes % blockSize
  (if rem > 0 then div + 1 else div, rem)

/-- `generate_blocks` (lines 57–103). -/
def generateBlocks (overflow : Overflow) (rng : σ) (bitrate segmentLength : UInt64)
    (maxSize : Bool) : Except Panic (List (Block Cid) × σ) := do
  let totalBytes := (← overflow.mul bitrate segmentLength) / 8
  let blockSize := blockSize maxSize
  let (numBlocks, remainderBytes) := countBlocks totalBytes blockSize
  let numBlocks ← overflow.sub numBlocks 1
  return blocksLoop rngCore digest blockSize.toNat remainderBytes.toNat numBlocks.toNat rng

/-! ## The loop -/

/-- The sizes of blocks. -/
def sizes (blocks : List (Block Cid)) : List ℕ := blocks.map fun block => block.data.length

/-- Every block but the last is full, and the last one has the remainder, if there is one. -/
theorem blocksLoop_sizes (blockSize remainderBytes n : ℕ) (rng : σ) :
    sizes (blocksLoop rngCore digest blockSize remainderBytes n rng).1 =
      List.replicate n blockSize ++
        [if remainderBytes > 0 then remainderBytes else blockSize] := by
  induction n generalizing rng with
  | zero => simp [blocksLoop, randomBlock, sizes, (rngCore.fillBytes rng _).1.property]
  | succ n ih =>
    have hfirst : (rngCore.fillBytes rng blockSize).1.val.length = blockSize :=
      (rngCore.fillBytes rng blockSize).1.property
    have hrest := ih (rngCore.fillBytes rng blockSize).2
    rw [List.replicate_succ, List.cons_append, ← hrest]
    simp [blocksLoop, randomBlock, sizes, hfirst]

/-! ## The partition -/

/-- `generate_blocks` returns `⌈total / block_size⌉` blocks, all but the last of `block_size`
    bytes and the last of between 1 and `block_size`, with `total` bytes together. -/
def Partitions (overflow : Overflow) (rng : σ) (bitrate segmentLength : UInt64)
    (maxSize : Bool) : Prop :=
  let total := bitrate.toNat * segmentLength.toNat / 8
  let size := (blockSize maxSize).toNat
  ∃ blocks rng', generateBlocks rngCore digest overflow rng bitrate segmentLength maxSize =
      .ok (blocks, rng') ∧
    blocks.length = (total + size - 1) / size ∧
    (∀ block ∈ blocks.dropLast, block.data.length = size) ∧
    (∀ block ∈ blocks.getLast?, 1 ≤ block.data.length ∧ block.data.length ≤ size) ∧
    (sizes blocks).sum = total

theorem blockSize_pos (maxSize : Bool) : 0 < (blockSize maxSize).toNat := by
  cases maxSize <;> decide

/-- Full blocks and a last one are a partition of the bytes they have. -/
theorem partition_of_sizes {blocks : List (Block Cid)} {n size last : ℕ}
    (h : sizes blocks = List.replicate n size ++ [last]) (hpos : 1 ≤ last) (hle : last ≤ size) :
    blocks.length = (n * size + last + size - 1) / size ∧
      (∀ block ∈ blocks.dropLast, block.data.length = size) ∧
      (∀ block ∈ blocks.getLast?, 1 ≤ block.data.length ∧ block.data.length ≤ size) ∧
      (sizes blocks).sum = n * size + last := by
  refine ⟨?_, ?_, ?_, ?_⟩
  · have hlen : blocks.length = n + 1 := by
      have := congrArg List.length h
      simpa [sizes] using this
    have : n * size + last + size - 1 = (last - 1) + size * (n + 1) := by
      have : size * (n + 1) = n * size + size := by ring
      omega
    rw [hlen, this, Nat.add_mul_div_left _ _ (by omega), Nat.div_eq_of_lt (by omega), Nat.zero_add]
  · have hinit : sizes blocks.dropLast = List.replicate n size := by
      rw [sizes, List.map_dropLast, ← sizes, h, List.dropLast_concat]
    intro block hblock
    have hmem : block.data.length ∈ sizes blocks.dropLast := List.mem_map.mpr ⟨block, hblock, rfl⟩
    rw [hinit] at hmem
    exact List.eq_of_mem_replicate hmem
  · intro block hblock
    have hlast : (sizes blocks).getLast? = some block.data.length := by
      rw [sizes, List.getLast?_map, Option.mem_def.mp hblock]
      rfl
    rw [h, List.getLast?_concat, Option.some.injEq] at hlast
    rw [← hlast]
    exact ⟨hpos, hle⟩
  · rw [h, List.sum_append, List.sum_replicate]
    simp

/-! ## The count of the blocks -/

section Count

variable {bitrate segmentLength : UInt64} {maxSize : Bool}

theorem generateBlocks_eq (overflow : Overflow) (rng : σ)
    (h : bitrate.toNat * segmentLength.toNat < 2 ^ 64) :
    generateBlocks rngCore digest overflow rng bitrate segmentLength maxSize = (do
      let (numBlocks, remainderBytes) :=
        countBlocks (bitrate * segmentLength / 8) (blockSize maxSize)
      let numBlocks ← overflow.sub numBlocks 1
      return blocksLoop rngCore digest (blockSize maxSize).toNat remainderBytes.toNat
        numBlocks.toNat rng) := by
  unfold generateBlocks
  rw [overflow.mul_of_fits h]
  rfl

theorem toNat_totalBytes (h : bitrate.toNat * segmentLength.toNat < 2 ^ 64) :
    (bitrate * segmentLength / 8).toNat = bitrate.toNat * segmentLength.toNat / 8 := by
  rw [UInt64.toNat_div, UInt64.toNat_mul, Nat.mod_eq_of_lt h]
  rfl

/-- For a segment with a byte the count is positive, and so many full blocks less one, with the
    last block, make the segment. -/
theorem countBlocks_spec (maxSize : Bool) {totalBytes : UInt64} (hpos : 0 < totalBytes.toNat) :
    ∃ numBlocks remainderBytes : UInt64,
      countBlocks totalBytes (blockSize maxSize) = (numBlocks, remainderBytes) ∧ 1 ≤ numBlocks ∧
      remainderBytes.toNat ≤ (blockSize maxSize).toNat ∧
      totalBytes.toNat = (numBlocks.toNat - 1) * (blockSize maxSize).toNat +
        if remainderBytes.toNat > 0 then remainderBytes.toNat else (blockSize maxSize).toNat := by
  refine ⟨_, _, rfl, ?_⟩
  have hsize := blockSize_pos maxSize
  have hrem : (totalBytes % blockSize maxSize).toNat =
      totalBytes.toNat % (blockSize maxSize).toNat := UInt64.toNat_mod _ _
  have hdiv : (totalBytes / blockSize maxSize).toNat =
      totalBytes.toNat / (blockSize maxSize).toNat := UInt64.toNat_div _ _
  have hsplit := Nat.div_add_mod' totalBytes.toNat (blockSize maxSize).toNat
  have hlt := Nat.mod_lt totalBytes.toNat hsize
  by_cases hzero : totalBytes.toNat % (blockSize maxSize).toNat = 0
  · have hnot : ¬ totalBytes % blockSize maxSize > 0 := by
      rw [gt_iff_lt, UInt64.lt_iff_toNat_lt, hrem, hzero]
      decide
    have hq : 1 ≤ totalBytes.toNat / (blockSize maxSize).toNat := by
      by_contra hq
      have : totalBytes.toNat / (blockSize maxSize).toNat = 0 := by omega
      rw [this, Nat.zero_mul] at hsplit
      omega
    rw [if_neg hnot, hrem, hdiv, if_neg (by omega)]
    refine ⟨?_, by omega, ?_⟩
    · rw [UInt64.le_iff_toNat_le, hdiv]
      exact hq
    · rw [Nat.sub_mul, Nat.one_mul]
      have := Nat.mul_le_mul_right (blockSize maxSize).toNat hq
      omega
  · have hpos' : totalBytes % blockSize maxSize > 0 := by
      rw [gt_iff_lt, UInt64.lt_iff_toNat_lt, hrem]
      exact Nat.pos_of_ne_zero hzero
    -- the quotient is far from the largest `usize`
    have hsmall : totalBytes.toNat / (blockSize maxSize).toNat < 2 ^ 63 := by
      have htwo : 2 ≤ (blockSize maxSize).toNat := by cases maxSize <;> decide
      have := Nat.div_le_div_left htwo (by decide : 0 < 2) (a := totalBytes.toNat)
      have := totalBytes.toNat_lt
      omega
    have hadd : (totalBytes / blockSize maxSize + 1).toNat =
        totalBytes.toNat / (blockSize maxSize).toNat + 1 := by
      rw [UInt64.toNat_add, hdiv]
      exact Nat.mod_eq_of_lt (by change _ + 1 < _; omega)
    rw [if_pos hpos', hrem, hadd, if_pos (Nat.pos_of_ne_zero hzero)]
    refine ⟨?_, by omega, ?_⟩
    · rw [UInt64.le_iff_toNat_le, hadd]
      change 1 ≤ _
      omega
    · rw [Nat.add_sub_cancel]
      exact hsplit.symm

/-- A segment without a byte has no partition: the subtraction panics, or it wraps and the loop
    generates 2^64 blocks. -/
theorem not_partitions_of_lt (overflow : Overflow) (rng : σ)
    (h : bitrate.toNat * segmentLength.toNat < 8) :
    ¬ Partitions rngCore digest overflow rng bitrate segmentLength maxSize := by
  rintro ⟨blocks, rng', hgen, hlen, -⟩
  have hzero : bitrate * segmentLength / 8 = 0 := by
    rw [← UInt64.toNat_inj, toNat_totalBytes (by omega), Nat.div_eq_of_lt h]
    rfl
  have hcount : countBlocks 0 (blockSize maxSize) = (0, 0) := by cases maxSize <;> rfl
  rw [generateBlocks_eq rngCore digest overflow rng (by omega), hzero, hcount] at hgen
  cases overflow with
  | panics => cases hgen
  | wraps =>
    have hloop := blocksLoop_sizes rngCore digest (blockSize maxSize).toNat 0 (2 ^ 64 - 1) rng
    have hblocks : blocks = (blocksLoop rngCore digest (blockSize maxSize).toNat 0 (2 ^ 64 - 1)
        rng).1 := by
      have := Except.ok.inj hgen
      exact (congrArg Prod.fst this).symm
    rw [← hblocks] at hloop
    have hlong := congrArg List.length hloop
    rw [sizes, List.length_map, List.length_append, List.length_replicate] at hlong
    have hnone : bitrate.toNat * segmentLength.toNat / 8 = 0 := Nat.div_eq_of_lt h
    rw [hnone, Nat.zero_add, Nat.div_eq_of_lt (by have := blockSize_pos maxSize; omega)] at hlen
    rw [hlen] at hlong
    simp at hlong

/-- In either build, `generate_blocks` partitions a segment, of a size that fits in a `usize`,
    exactly when the segment has at least 8 bits. -/
theorem generateBlocks_partitions_iff (overflow : Overflow) (rng : σ) (maxSize : Bool)
    (h : bitrate.toNat * segmentLength.toNat < 2 ^ 64) :
    Partitions rngCore digest overflow rng bitrate segmentLength maxSize ↔
      8 ≤ bitrate.toNat * segmentLength.toNat := by
  constructor
  · intro hpart
    by_contra hlt
    exact not_partitions_of_lt rngCore digest overflow rng (not_le.mp hlt) hpart
  · intro h8
    have htotal := toNat_totalBytes h
    have hpos : 0 < (bitrate * segmentLength / 8).toNat := by
      rw [htotal]
      exact Nat.div_pos h8 (by decide)
    obtain ⟨numBlocks, remainderBytes, hcount, hone, hle, hsplit⟩ :=
      countBlocks_spec maxSize hpos
    have hpred : (numBlocks - 1).toNat = numBlocks.toNat - 1 :=
      UInt64.toNat_sub_of_le _ _ hone
    have hsizes := blocksLoop_sizes rngCore digest (blockSize maxSize).toNat remainderBytes.toNat
      (numBlocks.toNat - 1) rng
    obtain ⟨blocks, rng', hloop⟩ : ∃ blocks rng', blocksLoop rngCore digest (blockSize maxSize).toNat
      remainderBytes.toNat (numBlocks.toNat - 1) rng = (blocks, rng') := ⟨_, _, rfl⟩
    rw [hloop] at hsizes
    obtain ⟨hlen, hinit, hlast, hsum⟩ := partition_of_sizes hsizes
      (by split_ifs <;> have := blockSize_pos maxSize <;> omega)
      (by split_ifs <;> omega)
    rw [← hsplit, htotal] at hlen hsum
    refine ⟨blocks, rng', ?_, hlen, hinit, hlast, hsum⟩
    rw [generateBlocks_eq rngCore digest overflow rng h, hcount]
    simp only [overflow.sub_of_le hone, ok_bind, hpred, hloop, pure_eq_ok]

end Count

/-- Seven bits: the subtraction panics in the debug build, and wraps in the release build. -/
theorem not_partitions_example :
    ¬ Partitions (⟨fun _ n => (⟨List.replicate n 0, List.length_replicate⟩, ())⟩ : RngCore Unit)
        List.length .panics () 7 1 false ∧
      ¬ Partitions (⟨fun _ n => (⟨List.replicate n 0, List.length_replicate⟩, ())⟩ : RngCore Unit)
        List.length .wraps () 7 1 false :=
  ⟨not_partitions_of_lt _ _ .panics () (by decide), not_partitions_of_lt _ _ .wraps () (by decide)⟩

/-- The blocks of four seconds at 6 Mbit/s. -/
theorem generateBlocks_partitions_iff_example :
    Partitions (⟨fun _ n => (⟨List.replicate n 0, List.length_replicate⟩, ())⟩ : RngCore Unit)
      List.length .wraps () 6000000 4 false :=
  (generateBlocks_partitions_iff _ _ .wraps () false (by decide)).mpr (by decide)

end Streamer

end LiveTest
