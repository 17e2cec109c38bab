import LiveTest.BlockExchange.Basic
import Mathlib.Data.List.Nodup

/-!
# Well-formed exchanges and the want list

The invariant of the five parallel vectors, and what the read methods return
under it.

* `wants`: the want list as the pairs `(peer, cid)` its indices stand for.
* `WellFormed.getBlock_eq_some`, `getBlock_eq_none_iff`: `get_block` finds the
  cids of the prefix as long as `datums`.
* `iterWantedBlocks_eq`, `iterWhoWantBlock_eq`: the iterators do not panic, and
  what they yield in terms of `wants` and `get_block`.
-/

namespace LiveTest.BlockExchange

open Rust

variable {PeerId Cid : Type}

/-- The invariant of the five vectors. -/
structure WellFormed (s : BlockExchange PeerId Cid) : Prop where
  indices_length : s.peerIndices.length = s.cidIndices.length
  peerIndices_lt : ∀ i ∈ s.peerIndices, i < s.peers.length
  cidIndices_lt : ∀ i ∈ s.cidIndices, i < s.cids.length
  peers_nodup : s.peers.Nodup
  cids_nodup : s.cids.Nodup
  datums_le : s.datums.length ≤ s.cids.length

theorem WellFormed.default : WellFormed (default : BlockExchange PeerId Cid) := by
  constructor <;> simp [BlockExchange.default]

/-! ## Entries -/

/-- The want list as it is stored. -/
def entries (s : BlockExchange PeerId Cid) : List (ℕ × ℕ) := s.peerIndices.zip s.cidIndices

/-- The same store with another stored want list. -/
def setEntries (s : BlockExchange PeerId Cid) (es : List (ℕ × ℕ)) : BlockExchange PeerId Cid :=
  { s with peerIndices := es.unzip.1, cidIndices := es.unzip.2 }

/-- The peer and the cid that a stored entry stands for. -/
def entry (s : BlockExchange PeerId Cid) (e : ℕ × ℕ) : Option (PeerId × Cid) :=
  s.peers[e.1]?.bind fun peer => s.cids[e.2]?.map fun cid => (peer, cid)

/-- The want list as pairs of a peer and a cid, in the stored order. -/
def wants (s : BlockExchange PeerId Cid) : List (PeerId × Cid) := s.entries.filterMap s.entry

@[simp] theorem entries_setEntries (s : BlockExchange PeerId Cid) (es : List (ℕ × ℕ)) :
    (s.setEntries es).entries = es := List.zip_unzip es

@[simp] theorem entry_setEntries (s : BlockExchange PeerId Cid) (es : List (ℕ × ℕ)) :
    (s.setEntries es).entry = s.entry := rfl

theorem wants_setEntries (s : BlockExchange PeerId Cid) (es : List (ℕ × ℕ)) :
    (s.setEntries es).wants = es.filterMap s.entry := by
  rw [wants, entries_setEntries, entry_setEntries]

theorem WellFormed.setEntries_entries {s : BlockExchange PeerId Cid} (h : s.WellFormed) :
    s.setEntries s.entries = s := by
  simp only [setEntries, entries, List.unzip_zip h.indices_length]

theorem WellFormed.entry_lt {s : BlockExchange PeerId Cid} (h : s.WellFormed) {e : ℕ × ℕ}
    (he : e ∈ s.entries) : e.1 < s.peers.length ∧ e.2 < s.cids.length := by
  have := List.of_mem_zip (a := e.1) (b := e.2) he
  exact ⟨h.peerIndices_lt _ this.1, h.cidIndices_lt _ this.2⟩

/-- Any list of entries in range keeps the invariant. -/
theorem WellFormed.setEntries {s : BlockExchange PeerId Cid} (h : s.WellFormed)
    {es : List (ℕ × ℕ)} (hes : ∀ e ∈ es, e.1 < s.peers.length ∧ e.2 < s.cids.length) :
    (s.setEntries es).WellFormed where
  indices_length := by simp [BlockExchange.setEntries]
  peerIndices_lt i hi := by
    simp only [BlockExchange.setEntries, List.unzip_fst, List.mem_map] at hi
    obtain ⟨e, he, rfl⟩ := hi
    exact (hes e he).1
  cidIndices_lt i hi := by
    simp only [BlockExchange.setEntries, List.unzip_snd, List.mem_map] at hi
    obtain ⟨e, he, rfl⟩ := hi
    exact (hes e he).2
  peers_nodup := h.peers_nodup
  cids_nodup := h.cids_nodup
  datums_le := h.datums_le

theorem entry_eq_some {s : BlockExchange PeerId Cid} {e : ℕ × ℕ} {w : PeerId × Cid} :
    s.entry e = some w ↔ s.peers[e.1]? = some w.1 ∧ s.cids[e.2]? = some w.2 := by
  obtain ⟨p, c⟩ := w
  simp [entry, Option.bind_eq_some_iff]

/-- Every stored entry stands for a pair. -/
theorem WellFormed.entry_of_mem {s : BlockExchange PeerId Cid} (h : s.WellFormed) {e : ℕ × ℕ}
    (he : e ∈ s.entries) : ∃ w, s.entry e = some w := by
  obtain ⟨h1, h2⟩ := h.entry_lt he
  exact ⟨(s.peers[e.1], s.cids[e.2]), entry_eq_some.mpr ⟨by simp, by simp⟩⟩

/-! ## Distinct entries of a vector -/

theorem index_unique {α : Type} {l : List α} (h : l.Nodup) {i j : ℕ} {a : α}
    (hi : l[i]? = some a) (hj : l[j]? = some a) : i = j := by
  obtain ⟨hi', rfl⟩ := List.getElem?_eq_some_iff.mp hi
  obtain ⟨hj', hij⟩ := List.getElem?_eq_some_iff.mp hj
  exact (h.getElem_inj_iff.mp hij).symm

theorem getElem?_of_findIdx? {α : Type} [DecidableEq α] {l : List α} {a : α} {i : ℕ}
    (h : l.findIdx? (· = a) = some i) : l[i]? = some a := by
  obtain ⟨hi, ha, -⟩ := List.findIdx?_eq_some_iff_getElem.mp h
  rw [List.getElem?_eq_getElem hi, of_decide_eq_true ha]

theorem not_mem_of_findIdx? {α : Type} [DecidableEq α] {l : List α} {a : α}
    (h : l.findIdx? (· = a) = none) : a ∉ l := fun ha => by
  simpa using List.findIdx?_eq_none_iff.mp h a ha

variable [DecidableEq Cid]

/-! ## `get_block` -/

theorem find?_zip_eq_some {c : Cid} {cids : List Cid} {datums : List Bytes} (h : cids.Nodup)
    {k : ℕ} {d : Bytes} (hc : cids[k]? = some c) (hd : datums[k]? = some d) :
    (cids.zip datums).find? (fun (id, _) => c = id) = some (c, d) := by
  induction cids generalizing datums k with
  | nil => simp at hc
  | cons id cids ih =>
    cases datums with
    | nil => simp at hd
    | cons x datums =>
      cases k with
      | zero => simp_all
      | succ k =>
        have hne : c ≠ id := by
          rintro rfl
          exact (List.nodup_cons.mp h).1 (List.mem_of_getElem? hc)
        simpa [hne] using ih (List.nodup_cons.mp h).2 hc hd

/-- A cid of the prefix that has data is found with its own data. -/
theorem WellFormed.getBlock_eq_some {s : BlockExchange PeerId Cid} (h : s.WellFormed) {k : ℕ}
    {c : Cid} {d : Bytes} (hc : s.cids[k]? = some c) (hd : s.datums[k]? = some d) :
    s.getBlock c = some ⟨d, c⟩ := by
  rw [getBlock, find?_zip_eq_some h.cids_nodup hc hd]
  rfl

theorem getBlock_eq_none_iff {s : BlockExchange PeerId Cid} {c : Cid} :
    s.getBlock c = none ↔ ∀ k, s.cids[k]? = some c → s.datums.length ≤ k := by
  rw [getBlock, Option.map_eq_none_iff, List.find?_eq_none]
  constructor
  · intro h k hk
    by_contra hlt
    have hd : s.datums[k]? = some s.datums[k] := List.getElem?_eq_getElem (by omega)
    have := h (c, s.datums[k]) (List.mem_of_getElem? (List.getElem?_zip_eq_some.mpr ⟨hk, hd⟩))
    simp at this
  · rintro h ⟨id, d⟩ hmem
    obtain ⟨k, hk⟩ := List.mem_iff_getElem?.mp hmem
    obtain ⟨hc, hd⟩ := List.getElem?_zip_eq_some.mp hk
    have hlt : k < s.datums.length := (List.getElem?_eq_some_iff.mp hd).1
    simp only [decide_eq_true_eq]
    rintro rfl
    have := h k hc
    omega

theorem exists_of_getBlock {s : BlockExchange PeerId Cid} {c : Cid} (h : s.getBlock c ≠ none) :
    ∃ k, s.cids[k]? = some c ∧ k < s.datums.length := by
  rw [ne_eq, getBlock_eq_none_iff] at h
  push Not at h
  exact h

theorem getBlock_cid {s : BlockExchange PeerId Cid} {c : Cid} {b : Block Cid}
    (h : s.getBlock c = some b) : b.cid = c := by
  obtain ⟨⟨id, d⟩, hf, rfl⟩ := Option.map_eq_some_iff.mp h
  simpa [eq_comm] using List.find?_some hf

/-! ## The iterators -/

/-- `iter_wanted_blocks` pairs every want for a held block with that block. -/
theorem iterWantedBlocks_eq {s : BlockExchange PeerId Cid} (h : s.WellFormed) :
    s.iterWantedBlocks =
      .ok (s.wants.filterMap fun w => (s.getBlock w.2).map fun b => (w.1, b)) := by
  rw [wants, List.filterMap_filterMap]
  refine filterMap_eq fun e he => ?_
  obtain ⟨hp, hc⟩ := h.entry_lt he
  have hw : s.entry e = some (s.peers[e.1], s.cids[e.2]) :=
    entry_eq_some.mpr ⟨List.getElem?_eq_getElem hp, List.getElem?_eq_getElem hc⟩
  simp only [hw, Option.bind_some]
  by_cases hd : e.2 < s.datums.length
  · rw [if_neg (by omega), index_of_lt hp, index_of_lt hd, index_of_lt hc]
    rw [h.getBlock_eq_some (List.getElem?_eq_getElem hc) (List.getElem?_eq_getElem hd)]
    rfl
  · have hnone : s.getBlock s.cids[e.2] = none := by
      refine getBlock_eq_none_iff.mpr fun k hk => ?_
      have := index_unique h.cids_nodup hk (List.getElem?_eq_getElem hc)
      omega
    rw [if_pos (by omega), hnone]
    rfl

theorem mem_iterWantedBlocks {s : BlockExchange PeerId Cid} (h : s.WellFormed)
    {wanted : List (PeerId × Block Cid)} (hw : s.iterWantedBlocks = .ok wanted) {p : PeerId}
    {b : Block Cid} : (p, b) ∈ wanted ↔ (p, b.cid) ∈ s.wants ∧ s.getBlock b.cid = some b := by
  rw [iterWantedBlocks_eq h, Except.ok.injEq] at hw
  rw [← hw, List.mem_filterMap]
  constructor
  · rintro ⟨⟨p', c⟩, hmem, hsome⟩
    obtain ⟨b', hb', heq⟩ := Option.map_eq_some_iff.mp hsome
    cases heq
    obtain rfl := getBlock_cid hb'
    exact ⟨hmem, hb'⟩
  · rintro ⟨hmem, hb⟩
    exact ⟨_, hmem, by rw [hb]; rfl⟩

/-- A want for a held block is yielded with that block. -/
theorem exists_mem_iterWantedBlocks {s : BlockExchange PeerId Cid} (h : s.WellFormed)
    {wanted : List (PeerId × Block Cid)} (hw : s.iterWantedBlocks = .ok wanted)
    {w : PeerId × Cid} (hmem : w ∈ s.wants) (hheld : s.getBlock w.2 ≠ none) :
    ∃ b, (w.1, b) ∈ wanted ∧ b.cid = w.2 ∧ s.getBlock w.2 = some b := by
  obtain ⟨b, hb⟩ := Option.ne_none_iff_exists'.mp hheld
  have hc := getBlock_cid hb
  exact ⟨b, (mem_iterWantedBlocks h hw).mpr (by rw [hc]; exact ⟨hmem, hb⟩), hc, hb⟩

theorem iterWantedBlocks_eq_nil_iff {s : BlockExchange PeerId Cid} (h : s.WellFormed)
    {wanted : List (PeerId × Block Cid)} (hw : s.iterWantedBlocks = .ok wanted) :
    wanted = [] ↔ ∀ w ∈ s.wants, s.getBlock w.2 = none := by
  rw [iterWantedBlocks_eq h, Except.ok.injEq] at hw
  rw [← hw, List.filterMap_eq_nil_iff]
  simp only [Option.map_eq_none_iff]

/-- The place of a yielded pair in the want list: the wants for held blocks that stand before it
    were yielded before it. -/
theorem iterWantedBlocks_split {s : BlockExchange PeerId Cid} (h : s.WellFormed)
    {before after : List (PeerId × Block Cid)} {p : PeerId} {b : Block Cid}
    (hw : s.iterWantedBlocks = .ok (before ++ (p, b) :: after)) :
    ∃ earlier later, s.wants = earlier ++ (p, b.cid) :: later ∧
      ∀ w ∈ earlier, s.getBlock w.2 ≠ none → ∃ b', (w.1, b') ∈ before ∧ b'.cid = w.2 := by
  rw [iterWantedBlocks_eq h, Except.ok.injEq] at hw
  obtain ⟨earlier, rest, hrest, hbefore, hmid⟩ := List.filterMap_eq_append_iff.mp hw
  obtain ⟨skipped, w, later, rfl, hskip, hsome, -⟩ := List.filterMap_eq_cons_iff.mp hmid
  obtain ⟨b', hb', heq⟩ := Option.map_eq_some_iff.mp hsome
  cases heq
  have hc := getBlock_cid hb'
  refine ⟨earlier ++ skipped, later, by rw [hrest, hc]; simp, fun v hv hheld => ?_⟩
  obtain ⟨b', hb'⟩ := Option.ne_none_iff_exists'.mp hheld
  rcases List.mem_append.mp hv with hv | hv
  · refine ⟨b', ?_, getBlock_cid hb'⟩
    rw [← hbefore, List.mem_filterMap]
    exact ⟨v, hv, by rw [hb']; rfl⟩
  · have := hskip v hv
    rw [hb'] at this
    cases this

omit [DecidableEq Cid] in
/-- The positions that `iter_who_want_block` walks, with the peer index it reads there. -/
theorem WellFormed.entries_eq_zipIdx {s : BlockExchange PeerId Cid} (h : s.WellFormed) :
    s.entries = s.cidIndices.zipIdx.map fun x => (s.peerIndices.getD x.2 0, x.1) := by
  apply List.ext_getElem
  · simp [entries, h.indices_length]
  · intro k h1 h2
    have hk : k < s.peerIndices.length := by simpa [h.indices_length] using h2
    simp [entries, hk]

/-- `iter_who_want_block` lists the peers of the wants for the cid. -/
theorem iterWhoWantBlock_eq {s : BlockExchange PeerId Cid} (h : s.WellFormed) (c : Cid) :
    s.iterWhoWantBlock c = .ok ((s.wants.filter fun w => w.2 = c).map Prod.fst) := by
  have hmap : (s.wants.filter fun w => w.2 = c).map Prod.fst =
      s.cidIndices.zipIdx.filterMap fun x =>
        (s.entry (s.peerIndices.getD x.2 0, x.1)).bind fun w =>
          if w.2 = c then some w.1 else none := by
    rw [wants, h.entries_eq_zipIdx, List.filterMap_map, List.filter_filterMap, List.map_filterMap]
    refine List.filterMap_congr fun x _ => ?_
    simp only [Function.comp_apply]
    cases s.entry (s.peerIndices.getD x.2 0, x.1) with
    | none => rfl
    | some w => by_cases hc : w.2 = c <;> simp [Option.filter, hc]
  rw [hmap]
  refine filterMap_eq fun x hx => ?_
  have hi : x.2 < s.peerIndices.length := by
    rw [h.indices_length]
    exact (List.getElem?_eq_some_iff.mp (List.mk_mem_zipIdx_iff_getElem?.mp hx)).1
  have hD : s.peerIndices.getD x.2 0 = s.peerIndices[x.2] := by simp [hi]
  have he : (s.peerIndices[x.2], x.1) ∈ s.entries := by
    rw [h.entries_eq_zipIdx, ← hD]
    exact List.mem_map.mpr ⟨x, hx, rfl⟩
  obtain ⟨hp, hc⟩ := h.entry_lt he
  have hw : s.entry (s.peerIndices[x.2], x.1) = some (s.peers[s.peerIndices[x.2]], s.cids[x.1]) :=
    entry_eq_some.mpr ⟨List.getElem?_eq_getElem hp, List.getElem?_eq_getElem hc⟩
  simp only [hD, hw, Option.bind_some, index_of_lt hc, ok_bind]
  split_ifs with hcid
  · rw [index_of_lt hi, ok_bind, index_of_lt hp]
    rfl
  · rfl

end LiveTest.BlockExchange
