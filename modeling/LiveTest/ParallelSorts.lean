import LiveTest.BlockExchange.Wants
import LiveTest.VideoPlayer.Conservation

/-!
# The two sorts of parallel vectors

`insertion_sort_wants` of `BlockExchange` sorts `peer_indices` and moves
`cid_indices` along; `add_segment` of `VideoStream` sorts `segments` and moves
`timestamps` along. Both have the loops of `pairSort`.

* `parallelSorts_stable`: on vectors of equal length both end, without a panic,
  with the stable sort of the pairs; `insertion_sort_wants` keeps who wants a
  cid, and the order in which a peer wants its cids.
-/

namespace LiveTest

open Rust

/-- The vectors, zipped, are the stable sort of `pairs` by the first component: sorted, the same
    pairs with multiplicity, and those of one key in their order. -/
structure StablySorted {K V : Type} [LinearOrder K] (pairs : List (K × V)) (keys : List K)
    (vals : List V) : Prop where
  length_eq : keys.length = vals.length
  sorted : keys.Pairwise (· ≤ ·)
  perm : (keys.zip vals).Perm pairs
  stable : ∀ k, (keys.zip vals).filter (·.1 = k) = pairs.filter (·.1 = k)

variable {K V : Type} [LinearOrder K]

theorem stablySorted_stableSort (pairs : List (K × V)) :
    StablySorted pairs (stableSort pairs).unzip.1 (stableSort pairs).unzip.2 where
  length_eq := by simp
  sorted := by simpa [List.unzip_eq_map, List.pairwise_map] using stableSort_sorted pairs
  perm := by
    rw [List.zip_unzip]
    exact stableSort_perm pairs
  stable k := by
    rw [List.zip_unzip]
    exact stableSort_filter k pairs

/-- The loops end with the vectors `keys'` and `vals'`, however much fuel is left to them. -/
def LoopsEnd (keys : List K) (vals : List V) (keys' : List K) (vals' : List V) : Prop :=
  ∀ fuel, 2 * keys.length < fuel → pairSortWhile fuel 1 keys vals = .ok (some (keys', vals'))

theorem loopsEnd_stableSort {keys : List K} {vals : List V} (h : keys.length = vals.length) :
    LoopsEnd keys vals (stableSort (keys.zip vals)).unzip.1
      (stableSort (keys.zip vals)).unzip.2 := by
  intro fuel hfuel
  rw [pairSortWhile_eq keys vals hfuel, pairSort_eq h]
  rfl

/-! ## The want list -/

namespace BlockExchange

variable {PeerId Cid : Type} [DecidableEq PeerId] [DecidableEq Cid]

/-- The peers that want a cid. -/
def wantersOf (s : BlockExchange PeerId Cid) (cid : Cid) : List PeerId :=
  (s.wants.filter (·.2 = cid)).map Prod.fst

/-- The cids that a peer wants, in their order. -/
def wantedBy (s : BlockExchange PeerId Cid) (peerId : PeerId) : List Cid :=
  (s.wants.filter (·.1 = peerId)).map Prod.snd

omit [DecidableEq Cid] in
/-- When no peer is listed twice, the wants of a peer are the entries under its index. -/
theorem wants_filter_fst {s : BlockExchange PeerId Cid} (h : s.peers.Nodup) {k : ℕ} {p : PeerId}
    (hk : s.peers[k]? = some p) :
    s.wants.filter (·.1 = p) = (s.entries.filter (·.1 = k)).filterMap s.entry := by
  rw [wants, List.filter_filterMap, List.filterMap_filter]
  refine List.filterMap_congr fun e _ => ?_
  cases he : s.entry e with
  | none => simp
  | some w =>
    obtain ⟨hp, -⟩ := entry_eq_some.mp he
    have hiff : w.1 = p ↔ e.1 = k := by
      constructor
      · rintro rfl
        exact index_unique h hp hk
      · rintro rfl
        rw [hk] at hp
        exact (Option.some.inj hp).symm
    by_cases hw : w.1 = p
    · simp [hw, hiff.mp hw]
    · simp [hw, mt hiff.mpr hw]

omit [DecidableEq Cid] in
/-- Entries sorted by the peer index are wanted by each peer in the order they had. -/
theorem wantedBy_setEntries {s : BlockExchange PeerId Cid} (h : s.peers.Nodup) {es : List (ℕ × ℕ)}
    (hes : ∀ k, es.filter (·.1 = k) = s.entries.filter (·.1 = k)) (peerId : PeerId) :
    (s.setEntries es).wantedBy peerId = s.wantedBy peerId := by
  unfold wantedBy
  by_cases hmem : peerId ∈ s.peers
  · obtain ⟨k, hk⟩ := List.mem_iff_getElem?.mp hmem
    rw [wants_filter_fst h hk, wants_filter_fst (s := s.setEntries es) h hk, entries_setEntries,
      entry_setEntries, hes]
  · have hnone : ∀ t : BlockExchange PeerId Cid, t.peers = s.peers →
        t.wants.filter (·.1 = peerId) = [] := by
      intro t ht
      rw [List.filter_eq_nil_iff]
      intro w hw
      obtain ⟨e, -, he⟩ := List.mem_filterMap.mp hw
      have hpeer := List.mem_of_getElem? (entry_eq_some.mp he).1
      rw [ht] at hpeer
      rw [decide_eq_true_eq]
      rintro rfl
      exact hmem hpeer
    rw [hnone s rfl, hnone (s.setEntries es) rfl]

end BlockExchange

/-- On sequences of equal length the loops of `insertion_sort_wants` and of `add_segment` end
    without a panic and leave the stable sort of the zipped pairs by the key. The first change
    neither who wants a cid nor the order in which a peer wants its cids. -/
theorem parallelSorts_stable {PeerId Cid : Type} [DecidableEq PeerId] [DecidableEq Cid] :
    (∀ s : BlockExchange PeerId Cid, s.peerIndices.length = s.cidIndices.length →
      ∃ s', s.insertionSortWants = .ok s' ∧
        LoopsEnd s.peerIndices s.cidIndices s'.peerIndices s'.cidIndices ∧
        StablySorted (s.peerIndices.zip s.cidIndices) s'.peerIndices s'.cidIndices ∧
        s' = { s with peerIndices := s'.peerIndices, cidIndices := s'.cidIndices } ∧
        (∀ cid, (s'.wantersOf cid).Perm (s.wantersOf cid)) ∧
        (s.peers.Nodup → ∀ peerId, s'.wantedBy peerId = s.wantedBy peerId)) ∧
    ∀ s : VideoStream Cid, s.segments.length = s.timestamps.length →
      ∀ (receiveTime : Int64) (segmentIndex timestamp : UInt64),
      ∃ s' query, s.addSegment .wraps receiveTime segmentIndex timestamp = .ok (s', query) ∧
        LoopsEnd (s.segments ++ [segmentIndex]) (s.timestamps ++ [timestamp])
          s'.segments s'.timestamps ∧
        StablySorted ((s.segments ++ [segmentIndex]).zip (s.timestamps ++ [timestamp]))
          s'.segments s'.timestamps := by
  constructor
  · intro s hlen
    have hsort : s.insertionSortWants = .ok (s.setEntries (stableSort s.entries)) := by
      rw [BlockExchange.insertionSortWants, pairSort_eq hlen]
      rfl
    refine ⟨_, hsort, loopsEnd_stableSort hlen, stablySorted_stableSort _, rfl, ?_, ?_⟩
    · intro cid
      have hperm : (s.setEntries (stableSort s.entries)).wants.Perm s.wants := by
        rw [BlockExchange.wants_setEntries]
        exact (stableSort_perm _).filterMap _
      exact (hperm.filter _).map _
    · intro hnodup peerId
      exact BlockExchange.wantedBy_setEntries hnodup (fun k => stableSort_filter k _) peerId
  · intro s hlen receiveTime segmentIndex timestamp
    have hlen' : (s.segments ++ [segmentIndex]).length = (s.timestamps ++ [timestamp]).length := by
      rw [List.length_append, List.length_append, hlen]
      rfl
    have hzip : (s.segments ++ [segmentIndex]).zip (s.timestamps ++ [timestamp]) =
        s.buffer ++ [(segmentIndex, timestamp)] := List.zip_append hlen
    obtain ⟨query, hadd⟩ := VideoStream.addSegment_eq hlen receiveTime segmentIndex timestamp
    refine ⟨_, query, hadd, ?_, ?_⟩
    · rw [← hzip]
      exact loopsEnd_stableSort hlen'
    · rw [hzip]
      exact stablySorted_stableSort _

/-- Peer 1 wants cids 5 and 6, peer 0 wants cid 5: its want moves to the front. Segment 3 arrives
    after segment 5. -/
theorem parallelSorts_stable_example :
    (∃ s', (⟨[10, 11], [1, 1, 0], [0, 1, 0], [5, 6], []⟩ : BlockExchange ℕ ℕ).insertionSortWants =
        .ok s' ∧ s'.peerIndices = [0, 1, 1] ∧ s'.cidIndices = [0, 0, 1] ∧
      s'.wantedBy 11 = [5, 6]) ∧
    ∃ s' query, ({ (VideoStream.new 1 1 : VideoStream ℕ) with segments := [5], timestamps := [8] } :
        VideoStream ℕ).addSegment .wraps 0 3 7 = .ok (s', query) ∧
      StablySorted [(5, 8), (3, 7)] s'.segments s'.timestamps := by
  constructor
  · obtain ⟨s', hsort, -, -, -, -, hwanted⟩ := parallelSorts_stable.1
      (⟨[10, 11], [1, 1, 0], [0, 1, 0], [5, 6], []⟩ : BlockExchange ℕ ℕ) rfl
    refine ⟨s', hsort, ?_, ?_, ?_⟩
    · cases hsort
      rfl
    · cases hsort
      rfl
    · rw [hwanted (by decide)]
      decide
  · obtain ⟨s', query, hadd, -, hsorted⟩ := (@parallelSorts_stable ℕ ℕ _ _).2
      ({ (VideoStream.new 1 1 : VideoStream ℕ) with segments := [5], timestamps := [8] } :
        VideoStream ℕ) rfl 0 3 7
    exact ⟨s', query, hadd, hsorted⟩

end LiveTest
