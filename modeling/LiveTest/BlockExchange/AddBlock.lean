import LiveTest.BlockExchange.Wants

/-!
# What `add_block` does

`add_block` pushes the data behind `datums`, so it belongs to the cid that is
at position `datums.len()` afterwards. That is the block's own cid only when no
other cid waits for data: the swap goes to the last position instead of
`datums.len()`, and a new cid is pushed behind all waiting ones. The renaming
pass turns both swapped positions into the lower one, because its second `if`
sees the value the first one wrote.

* `addBlock_held`, `addBlock_present`, `addBlock_absent`: the results of the call.
* `slotCid`: the cid that the data is paired with; `slotCid_eq_iff` says when
  it is the block's own.
* `addBlock_spec`: the wants for the added cid are redirected to `lastCid`.
* `exists_redirect_iff`: when a want points at `slotCid` afterwards.
-/

namespace LiveTest.BlockExchange

open Rust

variable {PeerId Cid : Type} [DecidableEq Cid]

/-! ## The scan -/

theorem addBlockScan_absent {cid : Cid} {held : ℕ} {ids : List Cid} (h : cid ∉ ids) (i : ℕ)
    (index : Option ℕ) : addBlockScan cid held ids i index = some index := by
  induction ids generalizing i with
  | nil => rfl
  | cons id ids ih =>
    rw [List.mem_cons, not_or] at h
    rw [addBlockScan, if_pos (Ne.symm h.1), ih h.2]

theorem addBlockScan_present {cid : Cid} {held : ℕ} {ids : List Cid} (hn : ids.Nodup) {k : ℕ}
    (hk : ids[k]? = some cid) (i : ℕ) (index : Option ℕ) :
    addBlockScan cid held ids i index = if i + k < held then none else some (some (i + k)) := by
  induction ids generalizing i k with
  | nil => simp at hk
  | cons id ids ih =>
    obtain ⟨hmem, hn⟩ := List.nodup_cons.mp hn
    cases k with
    | zero =>
      cases hk
      rw [addBlockScan, if_neg (by simp), addBlockScan_absent hmem]
      rfl
    | succ k =>
      have hne : id ≠ cid := by
        rintro rfl
        exact hmem (List.mem_of_getElem? hk)
      rw [addBlockScan, if_pos hne, ih hn hk]
      simp [Nat.add_comm, Nat.add_left_comm]

/-! ## The two results -/

/-- The last cid, to which the wants for an added cid are redirected. -/
def lastCid (s : BlockExchange PeerId Cid) (cid : Cid) : Cid := s.cids.getLast?.getD cid

/-- The cid at position `datums.len()` after `add_block` of a block with `cid` that is not held. -/
def slotCid (s : BlockExchange PeerId Cid) (cid : Cid) : Cid :=
  match s.cids[s.datums.length]? with
  | none => cid
  | some g => if g = cid then s.lastCid cid else g

omit [DecidableEq Cid] in
theorem lastCid_at {s : BlockExchange PeerId Cid} (h : s.cids ≠ []) (cid : Cid) :
    s.cids[s.cids.length - 1]? = some (s.lastCid cid) := by
  rw [lastCid, ← List.getLast?_eq_getElem?, List.getLast?_eq_some_getLast h]
  rfl

/-- A block that is held is refused. -/
theorem addBlock_held {s : BlockExchange PeerId Cid} (h : s.WellFormed) {b : Block Cid}
    (hb : s.getBlock b.cid ≠ none) : s.addBlock b = .ok (s, false) := by
  obtain ⟨k, hk, hlt⟩ := exists_of_getBlock hb
  rw [addBlock, addBlockScan_present h.cids_nodup hk, if_pos (by omega)]
  rfl

/-- What adding a block with `cid` that is not held makes of `cids`, and what becomes of a position
    in it: nothing moves below `datums.len()`, `slotCid` is the cid there, and the position of a
    want still has its cid, or `lastCid` for `cid` itself. -/
structure Added (s : BlockExchange PeerId Cid) (cid : Cid) (cids : List Cid) (rename : ℕ → ℕ) :
    Prop where
  nodup : cids.Nodup
  datums_lt : s.datums.length < cids.length
  below : ∀ k < s.datums.length, cids[k]? = s.cids[k]?
  slot : cids[s.datums.length]? = some (s.slotCid cid)
  renamed : ∀ k < s.cids.length, cids[rename k]? =
    if s.cids[k]? = some cid then some (s.lastCid cid) else s.cids[k]?

/-- The cid is known and without data: it is swapped with the last one. -/
theorem addBlock_present {s : BlockExchange PeerId Cid} (h : s.WellFormed) {b : Block Cid} {i : ℕ}
    (hi : s.cids[i]? = some b.cid) (hni : s.datums.length ≤ i) :
    ∃ cids, s.addBlock b = .ok (⟨s.peers, s.peerIndices,
        s.cidIndices.map (renameIndex i (s.cids.length - 1)), cids, s.datums ++ [b.data]⟩, true) ∧
      s.Added b.cid cids (renameIndex i (s.cids.length - 1)) := by
  obtain ⟨hlt, -⟩ := List.getElem?_eq_some_iff.mp hi
  have hlast : s.cids.length - 1 < s.cids.length := by omega
  have hlc := lastCid_at (List.ne_nil_of_length_pos (by omega)) (s := s) b.cid
  obtain ⟨cids, hswap⟩ : ∃ cids, swap s.cids (s.cids.length - 1) i = .ok cids :=
    ⟨_, swap_of_lt hlast hlt⟩
  have hlen := length_of_swap hswap
  have hswap' := getElem?_of_swap hswap
  refine ⟨cids, ?_, nodup_of_swap hswap h.cids_nodup, by omega, ?_, ?_, ?_⟩
  · rw [addBlock, addBlockScan_present h.cids_nodup hi, if_neg (by omega)]
    simp only [Nat.zero_add, sub_of_le (show 1 ≤ s.cids.length by omega), ok_bind, hswap,
      pure_eq_ok]
  · intro k hk
    rw [hswap', Equiv.swap_apply_of_ne_of_ne (by omega) (by omega)]
  · rw [hswap', slotCid]
    by_cases hin : i = s.datums.length
    · subst hin
      rw [Equiv.swap_apply_right, hi, hlc]
      simp
    · have hn : s.datums.length < s.cids.length := by omega
      rw [Equiv.swap_apply_of_ne_of_ne (by omega) (Ne.symm hin), List.getElem?_eq_getElem hn]
      have hne : s.cids[s.datums.length] ≠ b.cid := fun he =>
        hin (index_unique h.cids_nodup hi (he ▸ List.getElem?_eq_getElem hn))
      simp [hne]
  · intro k hk
    have hcid : s.cids[k]? = some b.cid ↔ k = i :=
      ⟨fun hk' => index_unique h.cids_nodup hk' hi, fun hk' => hk' ▸ hi⟩
    rw [hswap', if_congr hcid rfl rfl, renameIndex]
    by_cases hki : k = i
    · simp [hki, hlc]
    · by_cases hkl : k = s.cids.length - 1
      · rw [hkl] at hki
        simp [hki, hkl]
      · simp [hki, hkl, Equiv.swap_apply_of_ne_of_ne]

/-- The cid is not known: it is pushed behind all others. -/
theorem addBlock_absent {s : BlockExchange PeerId Cid} (h : s.WellFormed) {b : Block Cid}
    (hmem : b.cid ∉ s.cids) :
    s.addBlock b = .ok (⟨s.peers, s.peerIndices, s.cidIndices.map id, s.cids ++ [b.cid],
        s.datums ++ [b.data]⟩, true) ∧
      s.Added b.cid (s.cids ++ [b.cid]) id := by
  have hle := h.datums_le
  refine ⟨?_, ?_, by simp; omega, ?_, ?_, ?_⟩
  · rw [addBlock, addBlockScan_absent hmem]
    simp
  · simp [List.nodup_append, h.cids_nodup]
    exact fun a ha hab => hmem (hab ▸ ha)
  · intro k hk
    exact List.getElem?_append_left (by omega)
  · rw [slotCid]
    rcases Nat.lt_or_ge s.datums.length s.cids.length with hlt | hge
    · rw [List.getElem?_append_left hlt, List.getElem?_eq_getElem hlt]
      have hne : s.cids[s.datums.length] ≠ b.cid := fun he =>
        hmem (he ▸ List.getElem_mem hlt)
      simp [hne]
    · rw [show s.datums.length = s.cids.length by omega]
      simp
  · intro k hk
    have hne : s.cids[k]? ≠ some b.cid := fun he => hmem (List.mem_of_getElem? he)
    rw [if_neg hne]
    exact List.getElem?_append_left hk

/-- A block that is not held: the state after the call. -/
theorem addBlock_new {s : BlockExchange PeerId Cid} (h : s.WellFormed) {b : Block Cid}
    (hb : s.getBlock b.cid = none) :
    ∃ cids rename, s.addBlock b = .ok (⟨s.peers, s.peerIndices, s.cidIndices.map rename, cids,
        s.datums ++ [b.data]⟩, true) ∧ s.Added b.cid cids rename := by
  by_cases hmem : b.cid ∈ s.cids
  · obtain ⟨i, hi⟩ := List.mem_iff_getElem?.mp hmem
    obtain ⟨cids, hadd, hadded⟩ := addBlock_present h hi (getBlock_eq_none_iff.mp hb i hi)
    exact ⟨cids, _, hadd, hadded⟩
  · exact ⟨_, _, addBlock_absent h hmem⟩

/-! ## The store and the want list afterwards -/

/-- The want that a want turns into when a block with `cid` is added. -/
def redirect (s : BlockExchange PeerId Cid) (cid : Cid) (w : PeerId × Cid) : PeerId × Cid :=
  if w.2 = cid then (w.1, s.lastCid cid) else w

theorem WellFormed.getBlock_eq_none {s : BlockExchange PeerId Cid} (h : s.WellFormed) {i : ℕ}
    {c : Cid} (hc : s.cids[i]? = some c) (hi : s.datums.length ≤ i) : s.getBlock c = none :=
  getBlock_eq_none_iff.mpr fun k hk => by rw [index_unique h.cids_nodup hk hc]; exact hi

/-- The last cid is not held when another one of `cids` is not. -/
theorem lastCid_not_held {s : BlockExchange PeerId Cid} (h : s.WellFormed) {cid : Cid}
    (hb : s.getBlock cid = none) (hmem : cid ∈ s.cids) : s.getBlock (s.lastCid cid) = none := by
  obtain ⟨i, hi⟩ := List.mem_iff_getElem?.mp hmem
  have hlt : i < s.cids.length := (List.getElem?_eq_some_iff.mp hi).1
  have hge := getBlock_eq_none_iff.mp hb i hi
  exact h.getBlock_eq_none (lastCid_at (List.ne_nil_of_mem hmem) cid) (by omega)

theorem slotCid_not_held {s : BlockExchange PeerId Cid} (h : s.WellFormed) {cid : Cid}
    (hb : s.getBlock cid = none) : s.getBlock (s.slotCid cid) = none := by
  cases hg : s.cids[s.datums.length]? with
  | none => rwa [slotCid, hg]
  | some g =>
    rw [slotCid, hg]
    dsimp only
    split_ifs with hc
    · exact lastCid_not_held h hb (hc ▸ List.mem_of_getElem? hg)
    · exact h.getBlock_eq_none hg le_rfl

section Added

variable {s : BlockExchange PeerId Cid} {cid : Cid} {cids : List Cid} {rename : ℕ → ℕ}

theorem Added.wellFormed (ha : s.Added cid cids rename) (h : s.WellFormed) (data : Bytes) :
    (⟨s.peers, s.peerIndices, s.cidIndices.map rename, cids, s.datums ++ [data]⟩ :
      BlockExchange PeerId Cid).WellFormed := by
  refine ⟨by simpa using h.indices_length, h.peerIndices_lt, ?_, h.peers_nodup, ha.nodup,
    by simpa using Nat.succ_le_of_lt ha.datums_lt⟩
  intro i hi
  obtain ⟨k, hk, rfl⟩ := List.mem_map.mp hi
  have hk := h.cidIndices_lt k hk
  have hsome : ∃ x, cids[rename k]? = some x := by
    rw [ha.renamed k hk, List.getElem?_eq_getElem hk]
    split_ifs
    · exact ⟨_, rfl⟩
    · exact ⟨_, rfl⟩
  obtain ⟨x, hx⟩ := hsome
  exact (List.getElem?_eq_some_iff.mp hx).1

/-- The data is paired with `slotCid`; what was held is held as before. -/
theorem Added.getBlock_eq (ha : s.Added cid cids rename) (h : s.WellFormed) (data : Bytes)
    (c : Cid) :
    (⟨s.peers, s.peerIndices, s.cidIndices.map rename, cids, s.datums ++ [data]⟩ :
      BlockExchange PeerId Cid).getBlock c =
      if c = s.slotCid cid then some ⟨data, c⟩ else s.getBlock c := by
  have hwf := ha.wellFormed h data
  split_ifs with hc
  · subst hc
    exact hwf.getBlock_eq_some ha.slot (by simp)
  · by_cases hheld : s.getBlock c = none
    · rw [hheld, getBlock_eq_none_iff]
      rw [getBlock_eq_none_iff] at hheld
      intro k hk
      by_contra hk'
      rw [List.length_append, List.length_singleton] at hk'
      rcases Nat.lt_or_ge k s.datums.length with hlt | hge
      · have := hheld k (by rw [← ha.below k hlt]; exact hk)
        omega
      · rw [show k = s.datums.length by omega] at hk
        exact hc (Option.some.inj (hk.symm.trans ha.slot))
    · obtain ⟨k, hk, hlt⟩ := exists_of_getBlock hheld
      have hd : s.datums[k]? = some s.datums[k] := List.getElem?_eq_getElem hlt
      rw [h.getBlock_eq_some hk hd]
      refine hwf.getBlock_eq_some (by rw [ha.below k hlt]; exact hk) ?_
      rw [List.getElem?_append_left hlt, hd]

/-- The wants for the added cid are redirected. -/
theorem Added.wants_eq (ha : s.Added cid cids rename) (h : s.WellFormed) (data : Bytes) :
    (⟨s.peers, s.peerIndices, s.cidIndices.map rename, cids, s.datums ++ [data]⟩ :
      BlockExchange PeerId Cid).wants = s.wants.map (s.redirect cid) := by
  have hentries : s.peerIndices.zip (s.cidIndices.map rename) =
      s.entries.map fun e => (e.1, rename e.2) := by
    rw [entries, List.zip_map_right]
    rfl
  rw [wants, entries, hentries, wants, List.filterMap_map, List.map_filterMap]
  refine List.filterMap_congr fun e he => ?_
  have hlt := (h.entry_lt he).2
  simp only [Function.comp_apply, entry, ha.renamed e.2 hlt, List.getElem?_eq_getElem hlt]
  cases s.peers[e.1]? with
  | none => rfl
  | some p =>
    by_cases hc : s.cids[e.2] = cid
    · simp [redirect, hc]
    · simp [redirect, hc]

end Added

/-- A block that is not held: its data is paired with `slotCid`, every other result of `get_block`
    stays, and the want list is redirected. -/
theorem addBlock_spec {s : BlockExchange PeerId Cid} (h : s.WellFormed) {b : Block Cid}
    (hb : s.getBlock b.cid = none) :
    ∃ s', s.addBlock b = .ok (s', true) ∧ s'.WellFormed ∧
      (∀ c, s'.getBlock c = if c = s.slotCid b.cid then some ⟨b.data, c⟩ else s.getBlock c) ∧
      s'.wants = s.wants.map (s.redirect b.cid) := by
  obtain ⟨cids, rename, hadd, hadded⟩ := addBlock_new h hb
  exact ⟨_, hadd, hadded.wellFormed h b.data, hadded.getBlock_eq h b.data, hadded.wants_eq h b.data⟩

/-! ## When the data lands at its own cid -/

/-- The data is paired with the block's own cid exactly when no other cid waits for data. -/
theorem slotCid_eq_iff {s : BlockExchange PeerId Cid} (h : s.WellFormed) {cid : Cid} :
    s.slotCid cid = cid ↔ ∀ c ∈ s.cids.drop s.datums.length, c = cid := by
  rcases Nat.lt_or_ge s.datums.length s.cids.length with hlt | hge
  · have hg : s.cids[s.datums.length]? = some s.cids[s.datums.length] :=
      List.getElem?_eq_getElem hlt
    rw [slotCid, hg, List.drop_eq_getElem_cons hlt]
    by_cases hc : s.cids[s.datums.length] = cid
    · have hlast := lastCid_at (List.ne_nil_of_length_pos (by omega)) (s := s) cid
      simp only [hc, if_true, List.mem_cons, forall_eq_or_imp, true_and]
      rw [hc] at hg
      constructor
      · intro hl c hmem
        rw [hl] at hlast
        have := index_unique h.cids_nodup hg hlast
        rw [List.drop_eq_nil_of_le (by omega)] at hmem
        simp at hmem
      · intro hall
        rcases Nat.eq_or_lt_of_le (show s.datums.length + 1 ≤ s.cids.length from hlt) with he | hlt'
        · rw [show s.cids.length - 1 = s.datums.length by omega, hg] at hlast
          exact (Option.some.inj hlast).symm
        · refine hall _ (List.mem_iff_getElem?.mpr ⟨s.cids.length - 1 - (s.datums.length + 1), ?_⟩)
          rw [List.getElem?_drop, show s.datums.length + 1 + (s.cids.length - 1 -
            (s.datums.length + 1)) = s.cids.length - 1 by omega]
          exact hlast
    · simp only [hc, if_false, List.mem_cons, forall_eq_or_imp, false_and]
  · rw [slotCid, List.getElem?_eq_none hge, List.drop_eq_nil_of_le hge]
    simp

/-- No want will point at `datums.len()` after `add_block` of a block with `cid`. -/
def SlotUnwanted (s : BlockExchange PeerId Cid) (cid : Cid) : Prop :=
  s.datums.length ∉ s.cidIndices ∧
    (s.cids[s.datums.length]? = some cid → s.cids.length - 1 ∉ s.cidIndices)

instance (s : BlockExchange PeerId Cid) (cid : Cid) : Decidable (s.SlotUnwanted cid) :=
  inferInstanceAs (Decidable (_ ∧ _))

/-- The positions whose cid turns into `slotCid`: `datums.len()`, and the last one when the block's
    own cid is at `datums.len()`. -/
theorem redirected_eq_slotCid_iff {s : BlockExchange PeerId Cid} (h : s.WellFormed) {cid c : Cid}
    (hb : s.getBlock cid = none) {i : ℕ} (hi : s.cids[i]? = some c) :
    (if c = cid then s.lastCid cid else c) = s.slotCid cid ↔
      i = s.datums.length ∨ s.cids[s.datums.length]? = some cid ∧ i = s.cids.length - 1 := by
  have hlt : i < s.cids.length := (List.getElem?_eq_some_iff.mp hi).1
  have hlast := lastCid_at (List.ne_nil_of_length_pos (by omega)) (s := s) cid
  have hge : c = cid → s.datums.length ≤ i := fun hc =>
    getBlock_eq_none_iff.mp hb i (hc ▸ hi)
  cases hg : s.cids[s.datums.length]? with
  | none =>
    have hle := List.getElem?_eq_none_iff.mp hg
    have hne : c ≠ cid := fun hc => by have := hge hc; omega
    rw [slotCid, hg, if_neg hne]
    refine iff_of_false hne ?_
    rintro (hin | ⟨⟨⟩, -⟩)
    omega
  | some g =>
    by_cases hgc : g = cid
    · subst hgc
      simp only [slotCid, hg, true_and, if_true]
      by_cases hc : c = g
      · simp only [hc, if_true, true_iff]
        exact .inl (index_unique h.cids_nodup (hc ▸ hi) hg)
      · rw [if_neg hc]
        constructor
        · rintro rfl
          exact .inr (index_unique h.cids_nodup hi hlast)
        · rintro (rfl | rfl)
          · exact absurd (Option.some.inj (hi.symm.trans hg)) hc
          · exact Option.some.inj (hi.symm.trans hlast)
    · have hgc' : some g ≠ some cid := fun he => hgc (Option.some.inj he)
      simp only [slotCid, hg, if_neg hgc, hgc', false_and, or_false]
      by_cases hc : c = cid
      · -- the block's own cid stands behind `datums.len()`, so that is not the last position
        have hin : i ≠ s.datums.length := by
          rintro rfl
          exact hgc (Option.some.inj (hg.symm.trans (hc ▸ hi)))
        have := hge hc
        simp only [hc, if_true]
        refine iff_of_false (fun hl => ?_) hin
        rw [hl] at hlast
        have := index_unique h.cids_nodup hg hlast
        omega
      · rw [if_neg hc]
        constructor
        · rintro rfl
          exact index_unique h.cids_nodup hi hg
        · rintro rfl
          exact Option.some.inj (hi.symm.trans hg)

/-- The want list stays as it is when the added cid is the last one or nobody wants it. -/
theorem map_redirect {s : BlockExchange PeerId Cid} {cid : Cid}
    (hkeep : s.cids.getLast? = some cid ∨ ∀ w ∈ s.wants, w.2 ≠ cid) :
    s.wants.map (s.redirect cid) = s.wants := by
  rw [List.map_congr_left (g := id), List.map_id]
  intro w hw
  unfold redirect
  split_ifs with hc
  · rcases hkeep with hl | hno
    · rw [lastCid, hl, Option.getD_some, ← hc]
      rfl
    · exact absurd hc (hno w hw)
  · rfl

omit [DecidableEq Cid] in
/-- The cid of a want is one of `cids`, at the position its entry names. -/
theorem exists_index_of_mem_wants {s : BlockExchange PeerId Cid} {w : PeerId × Cid}
    (hw : w ∈ s.wants) : ∃ i ∈ s.cidIndices, s.cids[i]? = some w.2 := by
  obtain ⟨e, he, hew⟩ := List.mem_filterMap.mp hw
  exact ⟨e.2, (List.of_mem_zip (a := e.1) (b := e.2) he).2, (entry_eq_some.mp hew).2⟩

omit [DecidableEq Cid] in
theorem WellFormed.exists_want {s : BlockExchange PeerId Cid} (h : s.WellFormed) {i : ℕ} {c : Cid}
    (hi : i ∈ s.cidIndices) (hc : s.cids[i]? = some c) : ∃ p, (p, c) ∈ s.wants := by
  obtain ⟨k, hk⟩ := List.mem_iff_getElem?.mp hi
  have hlt : k < s.peerIndices.length := by
    rw [h.indices_length]; exact (List.getElem?_eq_some_iff.mp hk).1
  have hmem : (s.peerIndices[k], i) ∈ s.entries :=
    List.mem_of_getElem? (List.getElem?_zip_eq_some.mpr ⟨List.getElem?_eq_getElem hlt, hk⟩)
  obtain ⟨⟨p, c'⟩, hw⟩ := h.entry_of_mem hmem
  have hc' : c' = c := Option.some.inj ((entry_eq_some.mp hw).2.symm.trans hc)
  subst hc'
  exact ⟨p, List.mem_filterMap.mpr ⟨_, hmem, hw⟩⟩

/-- After the call some want is for `slotCid` exactly when an index points at its place before. -/
theorem exists_redirect_iff {s : BlockExchange PeerId Cid} (h : s.WellFormed) {cid : Cid}
    (hb : s.getBlock cid = none) :
    (∃ w ∈ s.wants, (s.redirect cid w).2 = s.slotCid cid) ↔ ¬ s.SlotUnwanted cid := by
  have hred : ∀ w, (s.redirect cid w).2 = if w.2 = cid then s.lastCid cid else w.2 := by
    intro w
    unfold redirect
    split_ifs <;> rfl
  simp only [hred, SlotUnwanted, not_and_or, not_not, Classical.not_imp]
  constructor
  · rintro ⟨w, hw, heq⟩
    obtain ⟨i, hi, hc⟩ := exists_index_of_mem_wants hw
    rcases (redirected_eq_slotCid_iff h hb hc).mp heq with rfl | ⟨hg, rfl⟩
    · exact .inl hi
    · exact .inr ⟨hg, hi⟩
  · intro hor
    obtain ⟨i, hi, hpos⟩ : ∃ i ∈ s.cidIndices,
        i = s.datums.length ∨ s.cids[s.datums.length]? = some cid ∧ i = s.cids.length - 1 := by
      rcases hor with hn | ⟨hg, hl⟩
      · exact ⟨_, hn, .inl rfl⟩
      · exact ⟨_, hl, .inr ⟨hg, rfl⟩⟩
    have hc := List.getElem?_eq_getElem (h.cidIndices_lt i hi)
    obtain ⟨p, hp⟩ := h.exists_want hi hc
    exact ⟨_, hp, (redirected_eq_slotCid_iff h hb hc).mpr hpos⟩

/-- A want for a block that is not held is turned into another such want. -/
theorem redirect_not_held {s : BlockExchange PeerId Cid} (h : s.WellFormed) {w : PeerId × Cid}
    (hw : w ∈ s.wants) (hb : s.getBlock w.2 = none) (cid : Cid) :
    s.getBlock (s.redirect cid w).2 = none := by
  unfold redirect
  split_ifs with hc
  · obtain ⟨i, -, hi⟩ := exists_index_of_mem_wants hw
    rw [hc] at hi hb
    exact lastCid_not_held h hb (List.mem_of_getElem? hi)
  · exact hb

/-- Where no other cid waits for data, a wanted cid that is not held is the last one. -/
theorem getLast?_of_aligned {s : BlockExchange PeerId Cid} {cid : Cid}
    (hb : s.getBlock cid = none) (halign : ∀ c ∈ s.cids.drop s.datums.length, c = cid) :
    s.cids.getLast? = some cid ∨ ∀ w ∈ s.wants, w.2 ≠ cid := by
  by_cases hmem : cid ∈ s.cids
  · left
    obtain ⟨i, hi⟩ := List.mem_iff_getElem?.mp hmem
    have hlt : i < s.cids.length := (List.getElem?_eq_some_iff.mp hi).1
    have hge := getBlock_eq_none_iff.mp hb i hi
    have hlast : s.cids[s.cids.length - 1]? = some s.cids[s.cids.length - 1] :=
      List.getElem?_eq_getElem (by omega)
    have hdrop : s.cids[s.cids.length - 1] ∈ s.cids.drop s.datums.length := by
      refine List.mem_iff_getElem?.mpr ⟨s.cids.length - 1 - s.datums.length, ?_⟩
      rw [List.getElem?_drop, Nat.add_sub_cancel' (by omega), hlast]
    rw [List.getLast?_eq_getElem?, hlast, halign _ hdrop]
  · right
    rintro w hw rfl
    obtain ⟨i, -, hi⟩ := exists_index_of_mem_wants hw
    exact hmem (List.mem_of_getElem? hi)

end LiveTest.BlockExchange
