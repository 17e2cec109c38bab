import LiveTest.Streamer.Blocks
import LiveTest.Viewer.Basic

/-!
# Model of the streamer

The loop of `roles/streamer.rs` over the client and the service of `ipfs/`. A
tick generates a segment: its blocks and then its message go into the channel
of the commands, and the next tick waits for the reply to the `Publish`.

* The random source, the digest, the encoding of a message and the parameters
  of the test are a `Setting`.
* The streamer listens and dials before it subscribes; neither command puts
  anything where the later ones look, and both are left out.
* Its subscription is dropped as soon as it has it (lines 148–150).

`generateVideo_eq_ok` says what a segment leaves behind.
-/

namespace LiveTest

open Rust

/-- `GOSSIPSUB_TOPIC` (`main.rs`, line 17). -/
def gossipsubTopic : String := "live"

/-- What the nodes are given: the crates they call and the parameters of the test. -/
structure Setting (L : Libp2p) (σ : Type) where
  rngCore : RngCore σ
  digest : Bytes → L.Cid
  overflow : Overflow
  /-- `serde_json::to_vec`. -/
  toVec : StreamerMessage L.Cid → Bytes
  /-- `serde_json::from_slice`, `none` for an `Err`. -/
  fromSlice : Bytes → Option (StreamerMessage L.Cid)
  videoBitrate : UInt64
  segmentLength : UInt64
  maxSizeBlock : Bool
  maxConcurrentSend : UInt64

/-- The task, the service and what is between them. -/
structure Streamer (L : Libp2p) (σ : Type) where
  rng : σ
  count : UInt64
  system : System L
  /-- The channel of the commands. -/
  commands : List (Command L)
  /-- The one-shot channels made so far are those below. -/
  nextChan : ChanId
  /-- What was sent on the one-shot channels. -/
  replies : ChanId → Option (Reply L)
  /-- The one whose reply the task waits for. -/
  awaits : ChanId

namespace Streamer

variable {L : Libp2p} {σ : Type}

/-- The stream of the subscription. -/
def topicStream : ChanId := 1

/-- The streamer in `subscribe` (lines 148–150 and 157); its service sends twice as much as that of a
    viewer (line 39). -/
def new (setting : Setting L σ) (rng : σ) : Except Panic (Streamer L σ) := do
  let maxConcurrentSend ← setting.overflow.mul 2 setting.maxConcurrentSend
  return {
    rng := rng
    count := 1
    system := System.new maxConcurrentSend.toNat
    commands := [.subscribe gossipsubTopic 0 topicStream]
    nextChan := 2
    replies := fun _ => none
    awaits := 0 }

/-- The reply to the last command has come. -/
def Ready (s : Streamer L σ) : Prop := (s.replies s.awaits).isSome

instance (s : Streamer L σ) : Decidable s.Ready := inferInstanceAs (Decidable (_ = true))

/-- `generate_video` (lines 184–225), up to the `await` of `publish`. Each `add_block` sends its
    command when `join_all` first polls it. -/
def generateVideo (setting : Setting L σ) (s : Streamer L σ) (now : Int64) :
    Except Panic (Streamer L σ) := do
  let count := s.count
  let counter ← setting.overflow.add s.count 1
  let (blocks, rng) ← generateBlocks setting.rngCore setting.digest setting.overflow s.rng
    setting.videoBitrate setting.segmentLength setting.maxSizeBlock
  let msg : StreamerMessage L.Cid := ⟨count, now.toUInt64, blocks.map Block.cid⟩
  return { s with
    rng
    count := counter
    commands := s.commands ++ blocks.map .blockAdd ++
      [.publish gossipsubTopic (setting.toVec msg) s.nextChan]
    nextChan := s.nextChan + 1
    awaits := s.nextChan }

/-- A step of the service, with what it did. -/
def stepSystem (s : Streamer L σ) (i : Input L) :
    Except Panic (Streamer L σ × List (Output L)) := do
  let (system, out) ← s.system.step i
  return ({ s with system, replies := Viewer.deliver s.replies out }, out)

/-! ## Its first state -/

theorem new_eq_ok {setting : Setting L σ} {rng : σ} {s : Streamer L σ}
    (h : new setting rng = .ok s) :
    s = {
      rng := rng
      count := 1
      system := System.new (2 * setting.maxConcurrentSend).toNat
      commands := [.subscribe gossipsubTopic 0 topicStream]
      nextChan := 2
      replies := fun _ => none
      awaits := 0 } := by
  obtain ⟨maxConcurrentSend, hmax, h⟩ := bind_eq_ok.mp h
  obtain ⟨-, rfl⟩ := Overflow.mul_eq_ok.mp hmax
  exact (Except.ok.inj h).symm

/-! ## A segment -/

/-- What `generate_video` leaves behind. -/
theorem generateVideo_eq_ok {setting : Setting L σ} {s s' : Streamer L σ} {now : Int64} :
    s.generateVideo setting now = .ok s' ↔ ∃ counter blocks rng,
      setting.overflow.add s.count 1 = .ok counter ∧
      generateBlocks setting.rngCore setting.digest setting.overflow s.rng setting.videoBitrate
        setting.segmentLength setting.maxSizeBlock = .ok (blocks, rng) ∧
      s' = { s with
        rng
        count := counter
        commands := s.commands ++ blocks.map .blockAdd ++
          [.publish gossipsubTopic
            (setting.toVec ⟨s.count, now.toUInt64, blocks.map Block.cid⟩) s.nextChan]
        nextChan := s.nextChan + 1
        awaits := s.nextChan } := by
  unfold generateVideo
  constructor
  · intro h
    obtain ⟨counter, hcounter, h⟩ := bind_eq_ok.mp h
    obtain ⟨⟨blocks, rng⟩, hblocks, h⟩ := bind_eq_ok.mp h
    cases h
    exact ⟨counter, blocks, rng, hcounter, hblocks, rfl⟩
  · rintro ⟨counter, blocks, rng, hcounter, hblocks, rfl⟩
    simp only [hcounter, hblocks, ok_bind, pure_eq_ok]

/-- A segment of at least 8 bits, whose size fits in a `usize`, is generated. -/
theorem exists_generateBlocks {Cid : Type} (rngCore : RngCore σ) (digest : Bytes → Cid)
    (overflow : Overflow) (rng : σ) (maxSize : Bool) {bitrate segmentLength : UInt64}
    (hpos : 8 ≤ bitrate.toNat * segmentLength.toNat)
    (hfits : bitrate.toNat * segmentLength.toNat < 2 ^ 64) :
    ∃ blocks rng', generateBlocks rngCore digest overflow rng bitrate segmentLength maxSize =
      .ok (blocks, rng') := by
  have htotal : 0 < (bitrate * segmentLength / 8).toNat := by
    rw [toNat_totalBytes hfits]
    exact Nat.div_pos hpos (by decide)
  obtain ⟨numBlocks, remainderBytes, hcount, hone, -⟩ := countBlocks_spec maxSize htotal
  obtain ⟨blocks, rng', hloop⟩ : ∃ blocks rng', blocksLoop rngCore digest (blockSize maxSize).toNat
    remainderBytes.toNat (numBlocks - 1).toNat rng = (blocks, rng') := ⟨_, _, rfl⟩
  refine ⟨blocks, rng', ?_⟩
  rw [generateBlocks_eq rngCore digest overflow rng hfits, hcount]
  simp only [overflow.sub_of_le hone, ok_bind, hloop, pure_eq_ok]

end Streamer

/-! ## A setting -/

/-- Numbers in ones, with a zero behind each. -/
def unary (numbers : List ℕ) : Bytes := numbers.flatMap fun n => List.replicate n 1 ++ [0]

/-- The numbers again; of the first, `n` ones are read. -/
def ofUnary (n : ℕ) : Bytes → List ℕ
  | [] => []
  | byte :: bytes => if byte = 0 then n :: ofUnary 0 bytes else ofUnary (n + 1) bytes

theorem ofUnary_replicate (n m : ℕ) (bytes : Bytes) :
    ofUnary n (List.replicate m 1 ++ 0 :: bytes) = (n + m) :: ofUnary 0 bytes := by
  induction m generalizing n with
  | zero => rfl
  | succ m ih =>
    rw [List.replicate_succ, List.cons_append, ofUnary, if_neg (by decide), ih]
    congr 1
    omega

theorem ofUnary_unary (numbers : List ℕ) : ofUnary 0 (unary numbers) = numbers := by
  induction numbers with
  | nil => rfl
  | cons n numbers ih =>
    rw [unary, List.flatMap_cons, List.append_assoc, List.singleton_append, ofUnary_replicate,
      Nat.zero_add, ← unary, ih]

/-- Every block is zeros and its length is its cid; a segment has two bytes. -/
def Setting.nat : Setting Libp2p.nat Unit where
  rngCore := ⟨fun _ n => (⟨List.replicate n 0, List.length_replicate⟩, ())⟩
  digest := List.length
  overflow := .panics
  toVec := fun msg => unary (msg.count.toNat :: msg.timestamp.toNat :: msg.cids)
  fromSlice := fun data =>
    match ofUnary 0 data with
    | count :: timestamp :: cids => some ⟨.ofNat count, .ofNat timestamp, cids⟩
    | _ => none
  videoBitrate := 16
  segmentLength := 1
  maxSizeBlock := false
  maxConcurrentSend := 1

theorem Setting.nat_codec (msg : StreamerMessage ℕ) :
    Setting.nat.fromSlice (Setting.nat.toVec msg) = some msg := by
  simp [Setting.nat, ofUnary_unary]

end LiveTest
