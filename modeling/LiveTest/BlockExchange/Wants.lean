import LiveTest.BlockExchange.WellFormed

/-!
# The methods that change the want list

`add_want`, `remove_want`, `remove_wants` and `insertion_sort_wants`: they do
not panic, they keep the invariant and every `get_block` result, and on the
want list they append, filter and sort.
-/

namespace LiveTest.BlockExchange

open Rust

variable {PeerId Cid : Type}

/-! ## `add_want` -/

theorem positionOrPush_spec {α : Type} [DecidableEq α] {l : List α} (hl : l.Nodup) (a : α) :
    ∃ i l', positionOrPush l a = (i, l') ∧ l'[i]? = some a ∧ l <+: l' ∧ l'.Nodup := by
  unfold positionOrPush
  cases h : l.findIdx? (· = a) with
  | some i => exact ⟨i, l, rfl, getElem?_of_findIdx? h, List.prefix_refl l, hl⟩
  | none =>
    refine ⟨l.length, l ++ [a], rfl, by simp, List.prefix_append l [a], ?_⟩
    have ha := not_mem_of_findIdx? h
    simp [List.nodup_append, hl]
    exact fun b hb hba => ha (hba ▸ hb)

theorem getElem?_of_isPrefix {α : Type} {l l' : List α} (h : l <+: l') {i : ℕ} (hi : i < l.length) :
    l'[i]? = l[i]? := by
  obtain ⟨m, rfl⟩ := h
  exact List.getElem?_append_left hi

/-- Cids pushed behind the prefix that has data do not take part in the zip. -/
theorem zip_of_isPrefix {α β : Type} {l l' : List α} {m : List β} (h : l <+: l')
    (hm : m.length ≤ l.length) : l'.zip m = l.zip m := by
  obtain ⟨k, rfl⟩ := h
  apply List.ext_getElem
  · simp; omega
  · intro i h1 h2
    have : i < l.length := by simp at h2; omega
    simp [List.getElem_append_left this]

variable [DecidableEq PeerId] [DecidableEq Cid]

/-- What `add_want` does: it appends `(peer, cid)` to the want list. -/
theorem addWant_spec {s : BlockExchange PeerId Cid} (h : s.WellFormed) (p : PeerId) (c : Cid) :
    (s.addWant p c).WellFormed ∧ (s.addWant p c).wants = s.wants ++ [(p, c)] ∧
      (s.addWant p c).getBlock = s.getBlock ∧ (s.addWant p c).datums = s.datums ∧
      s.cids <+: (s.addWant p c).cids := by
  obtain ⟨pi, peers, hpe, hpi, hpp, hpn⟩ := positionOrPush_spec h.peers_nodup p
  obtain ⟨ci, cids, hce, hci, hcp, hcn⟩ := positionOrPush_spec h.cids_nodup c
  have heq : s.addWant p c =
      ⟨peers, s.peerIndices ++ [pi], s.cidIndices ++ [ci], cids, s.datums⟩ := by
    unfold addWant
    rw [hpe, hce]
  have hentries : (s.addWant p c).entries = s.entries ++ [(pi, ci)] := by
    rw [heq, entries, entries, List.zip_append h.indices_length]
    rfl
  have hlast : (s.addWant p c).entry (pi, ci) = some (p, c) := by
    rw [heq, entry_eq_some]
    exact ⟨hpi, hci⟩
  have hold : ∀ e ∈ s.entries, (s.addWant p c).entry e = s.entry e := by
    intro e he
    obtain ⟨h1, h2⟩ := h.entry_lt he
    rw [heq, entry, entry, getElem?_of_isPrefix hpp h1, getElem?_of_isPrefix hcp h2]
  refine ⟨?_, ?_, ?_, by rw [heq], by rw [heq]; exact hcp⟩
  · rw [heq]
    refine ⟨by simp [h.indices_length], ?_, ?_, hpn, hcn, h.datums_le.trans hcp.length_le⟩
    · intro i hi
      rcases List.mem_append.mp hi with hi | hi
      · exact (h.peerIndices_lt i hi).trans_le hpp.length_le
      · rw [List.mem_singleton.mp hi]
        exact (List.getElem?_eq_some_iff.mp hpi).1
    · intro i hi
      rcases List.mem_append.mp hi with hi | hi
      · exact (h.cidIndices_lt i hi).trans_le hcp.length_le
      · rw [List.mem_singleton.mp hi]
        exact (List.getElem?_eq_some_iff.mp hci).1
  · rw [wants, hentries, List.filterMap_append, List.filterMap_congr hold, List.filterMap_cons,
      hlast]
    rfl
  · funext x
    rw [heq, getBlock, getBlock, zip_of_isPrefix hcp h.datums_le]

/-! ## The reverse loops -/

omit [DecidableEq PeerId] [DecidableEq Cid] in
/-- The loop entered at `x`, with `l` before it and `m` behind it: where `hit` decides `test` on
    entries in range, the entries up to `x` are filtered and those behind it stay. -/
theorem removeLoop_eq {hit : BlockExchange PeerId Cid → ℕ → Except Panic Bool}
    {s : BlockExchange PeerId Cid} {test : ℕ × ℕ → Bool}
    (hhit : ∀ (es : List (ℕ × ℕ)) (i : ℕ) (e : ℕ × ℕ), es[i]? = some e → e.2 < s.cids.length →
      hit (s.setEntries es) i = .ok (test e))
    (l : List (ℕ × ℕ)) (x : ℕ × ℕ) (m : List (ℕ × ℕ)) (hl : ∀ e ∈ l ++ [x], e.2 < s.cids.length) :
    removeLoop hit l.length (s.setEntries (l ++ x :: m)) =
      .ok (s.setEntries ((l ++ [x]).filter (fun e => ¬ test e) ++ m)) := by
  induction l using List.reverseRecOn generalizing x m with
  | nil =>
    have hx : x.2 < s.cids.length := hl x (by simp)
    rw [List.nil_append, List.length_nil, removeLoop, hhit _ 0 x rfl hx, ok_bind]
    by_cases ht : test x
    · rw [if_pos ht]
      simp [setEntries, remove, ht]
    · rw [if_neg ht]
      simp [ht]
  | append_singleton l y ih =>
    have hx : x.2 < s.cids.length := hl x (by simp)
    have hl' : ∀ e ∈ l ++ [y], e.2 < s.cids.length := fun e he => hl e (by simp at he ⊢; tauto)
    have hget : (l ++ [y] ++ x :: m)[(l ++ [y]).length]? = some x := by
      rw [List.getElem?_append_right (le_refl _), Nat.sub_self]
      rfl
    rw [removeLoop, hhit _ _ x hget hx, ok_bind]
    have hlen : (l ++ [y]).length = l.length + 1 := by simp
    by_cases ht : test x
    · have hp : remove (s.setEntries (l ++ [y] ++ x :: m)).peerIndices (l ++ [y]).length =
          .ok (s.setEntries (l ++ y :: m)).peerIndices := by
        rw [remove_of_lt (by simp [setEntries])]
        simp [setEntries, List.eraseIdx_append_of_length_le]
      have hc : remove (s.setEntries (l ++ [y] ++ x :: m)).cidIndices (l ++ [y]).length =
          .ok (s.setEntries (l ++ y :: m)).cidIndices := by
        rw [remove_of_lt (by simp [setEntries])]
        simp [setEntries, List.eraseIdx_append_of_length_le]
      rw [if_pos ht, hp, hc]
      simp only [hlen, ok_bind, pure_eq_ok]
      change removeLoop hit l.length (s.setEntries (l ++ y :: m)) = _
      rw [ih y m hl', List.filter_append (l ++ [y]) [x]]
      simp [ht]
    · rw [if_neg ht]
      simp only [hlen, ok_bind, pure_eq_ok]
      rw [List.append_assoc, List.singleton_append, ih y (x :: m) hl',
        List.filter_append (l ++ [y]) [x]]
      simp [ht]

omit [DecidableEq PeerId] [DecidableEq Cid] in
/-- The loop entered at the last position filters the whole want list. -/
theorem removeLoop_entries {hit : BlockExchange PeerId Cid → ℕ → Except Panic Bool}
    {s : BlockExchange PeerId Cid} (h : s.WellFormed) {test : ℕ × ℕ → Bool}
    (hhit : ∀ (es : List (ℕ × ℕ)) (i : ℕ) (e : ℕ × ℕ), es[i]? = some e → e.2 < s.cids.length →
      hit (s.setEntries es) i = .ok (test e))
    (hne : s.entries ≠ []) :
    removeLoop hit (s.entries.length - 1) s =
      .ok (s.setEntries (s.entries.filter fun e => ¬ test e)) := by
  obtain ⟨l, x, hx⟩ := (List.eq_nil_or_concat' s.entries).resolve_left hne
  have := removeLoop_eq hhit l x [] (fun e he => (h.entry_lt (hx ▸ he)).2)
  rw [List.append_nil, ← hx, h.setEntries_entries] at this
  simpa [hx] using this

omit [DecidableEq PeerId] [DecidableEq Cid] in
theorem WellFormed.length_entries {s : BlockExchange PeerId Cid} (h : s.WellFormed) :
    s.entries.length = s.peerIndices.length ∧ s.entries.length = s.cidIndices.length := by
  have := h.indices_length
  simp [entries, this]

omit [DecidableEq PeerId] [DecidableEq Cid] in
/-- Dropping entries drops the same pairs from the want list. -/
theorem wants_filter (s : BlockExchange PeerId Cid) (q : PeerId × Cid → Bool) {test : ℕ × ℕ → Bool}
    (htest : ∀ e ∈ s.entries, ∀ w, s.entry e = some w → test e = q w) :
    (s.setEntries (s.entries.filter test)).wants = s.wants.filter q := by
  rw [wants_setEntries, wants, List.filter_filterMap, List.filterMap_filter]
  refine List.filterMap_congr fun e he => ?_
  cases hw : s.entry e with
  | none => simp
  | some w => rw [htest e he w hw]; rfl

omit [DecidableEq PeerId] [DecidableEq Cid] in
/-- Both removals filter the want list: `q` says which pairs go, and `hit` tests for it. -/
theorem removeFrom_spec {s : BlockExchange PeerId Cid} (h : s.WellFormed) {indices : List ℕ}
    (hlen : s.entries.length = indices.length) (position : Option ℕ)
    (hit : ℕ → BlockExchange PeerId Cid → ℕ → Except Panic Bool) (test : ℕ → ℕ × ℕ → Bool)
    (q : PeerId × Cid → Bool) (habsent : position = none → ∀ w ∈ s.wants, q w = false)
    (hhit : ∀ (k : ℕ) (es : List (ℕ × ℕ)) (i : ℕ) (e : ℕ × ℕ), es[i]? = some e →
      e.2 < s.cids.length → hit k (s.setEntries es) i = .ok (test k e))
    (htest : ∀ k, position = some k → ∀ e ∈ s.entries, ∀ w, s.entry e = some w → test k e = q w) :
    ∃ es, removeFrom s indices position hit = .ok (s.setEntries es) ∧
      (s.setEntries es).WellFormed ∧ (s.setEntries es).wants = s.wants.filter fun w => ¬ q w := by
  by_cases hne : s.entries = []
  · refine ⟨s.entries, ?_, by rwa [h.setEntries_entries], ?_⟩
    · have : indices.isEmpty = true := by
        rw [List.isEmpty_iff_length_eq_zero, ← hlen, hne]; rfl
      rw [h.setEntries_entries]
      unfold removeFrom
      rw [if_pos this]
      rfl
    · rw [h.setEntries_entries, wants, hne]; rfl
  have hpos : 1 ≤ indices.length := by rw [← hlen]; exact List.length_pos_iff.mpr hne
  have hempty : indices.isEmpty ≠ true := by
    rw [Ne, List.isEmpty_iff]; exact List.length_pos_iff.mp hpos
  unfold removeFrom
  rw [if_neg hempty]
  cases hp : position with
  | none =>
    refine ⟨s.entries, by rw [h.setEntries_entries]; rfl, by rwa [h.setEntries_entries], ?_⟩
    rw [h.setEntries_entries, List.filter_eq_self.mpr]
    intro w hw
    simp [habsent hp w hw]
  | some k =>
    refine ⟨s.entries.filter fun e => ¬ test k e, ?_, ?_, ?_⟩
    · simp only [sub_of_le hpos, ok_bind]
      rw [← hlen]
      exact removeLoop_entries h (hhit k) hne
    · exact h.setEntries fun e he => h.entry_lt (List.mem_filter.mp he).1
    · refine wants_filter s _ fun e he w hw => ?_
      rw [htest k hp e he w hw]

omit [DecidableEq PeerId] in
/-- `remove_wants` drops every want for the cid and keeps the order of the others. -/
theorem removeWants_spec {s : BlockExchange PeerId Cid} (h : s.WellFormed) (c : Cid) :
    ∃ es, s.removeWants c = .ok (s.setEntries es) ∧ (s.setEntries es).WellFormed ∧
      (s.setEntries es).wants = s.wants.filter fun w => w.2 ≠ c := by
  have := removeFrom_spec h h.length_entries.2 (s.cids.findIdx? (· = c)) removeWantsHit
    (fun k e => e.2 = k) (fun w => w.2 = c) ?_ ?_ ?_
  · simpa [removeWants] using this
  · intro hpos w hw
    obtain ⟨e, -, hew⟩ := List.mem_filterMap.mp hw
    have hmem := List.mem_of_getElem? (entry_eq_some.mp hew).2
    have hnot := not_mem_of_findIdx? hpos
    simp only [decide_eq_false_iff_not]
    rintro rfl
    exact hnot hmem
  · intro k es i e he _
    have : index (s.setEntries es).cidIndices i = .ok e.2 := by
      rw [index_eq_ok]; simp [setEntries, he]
    rw [removeWantsHit, this]
    rfl
  · intro k hpos e _ w hw
    have hk := getElem?_of_findIdx? hpos
    have hc := (entry_eq_some.mp hw).2
    have hiff : e.2 = k ↔ w.2 = c := by
      constructor
      · rintro rfl; rw [hk] at hc; exact (Option.some.inj hc).symm
      · rintro rfl; exact index_unique h.cids_nodup hc hk
    simp [hiff]

/-- `remove_want` drops every copy of the want and keeps the order of the others. -/
theorem removeWant_spec {s : BlockExchange PeerId Cid} (h : s.WellFormed) (p : PeerId) (c : Cid) :
    ∃ es, s.removeWant p c = .ok (s.setEntries es) ∧ (s.setEntries es).WellFormed ∧
      (s.setEntries es).wants = s.wants.filter fun w => w ≠ (p, c) := by
  have := removeFrom_spec h h.length_entries.1 (s.peers.findIdx? (· = p)) (removeWantHit c)
    (fun k e => k = e.1 ∧ s.cids[e.2]? = some c) (fun w => w = (p, c)) ?_ ?_ ?_
  · simpa [removeWant] using this
  · intro hpos w hw
    obtain ⟨e, -, hew⟩ := List.mem_filterMap.mp hw
    have hmem := List.mem_of_getElem? (entry_eq_some.mp hew).1
    have hnot := not_mem_of_findIdx? hpos
    simp only [decide_eq_false_iff_not]
    rintro rfl
    exact hnot hmem
  · intro k es i e he hlt
    have hpi : index (s.setEntries es).peerIndices i = .ok e.1 := by
      rw [index_eq_ok]; simp [setEntries, he]
    have hci : index (s.setEntries es).cidIndices i = .ok e.2 := by
      rw [index_eq_ok]; simp [setEntries, he]
    have hcid : index (s.setEntries es).cids e.2 = .ok s.cids[e.2] := index_of_lt hlt
    rw [removeWantHit, hpi, ok_bind, hci, ok_bind, hcid]
    by_cases hke : k = e.1
    · simp [hke, List.getElem?_eq_getElem hlt, eq_comm]
    · simp [hke]
  · intro k hpos e _ w hw
    have hk := getElem?_of_findIdx? hpos
    obtain ⟨hp, hc⟩ := entry_eq_some.mp hw
    have hiff : k = e.1 ∧ s.cids[e.2]? = some c ↔ w = (p, c) := by
      rw [hc, Prod.ext_iff, Option.some_inj]
      refine and_congr_left fun _ => ⟨?_, ?_⟩
      · rintro rfl; rw [hk] at hp; exact (Option.some.inj hp).symm
      · rintro rfl; exact index_unique h.peers_nodup hk hp
    simp [hiff]

/-! ## `insertion_sort_wants` -/

omit [DecidableEq PeerId] [DecidableEq Cid] in
/-- `insertion_sort_wants` sorts the stored entries, stably, by the peer index. -/
theorem insertionSortWants_spec {s : BlockExchange PeerId Cid} (h : s.WellFormed) :
    s.insertionSortWants = .ok (s.setEntries (stableSort s.entries)) ∧
      (s.setEntries (stableSort s.entries)).WellFormed ∧
      (s.setEntries (stableSort s.entries)).wants.Perm s.wants := by
  refine ⟨?_, ?_, ?_⟩
  · rw [insertionSortWants, pairSort_eq h.indices_length]
    rfl
  · exact h.setEntries fun e he => h.entry_lt ((stableSort_perm _).mem_iff.mp he)
  · rw [wants_setEntries]
    exact (stableSort_perm _).filterMap _

end LiveTest.BlockExchange
