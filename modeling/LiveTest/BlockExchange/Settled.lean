import LiveTest.BlockExchange.Runs

/-!
# A store in which no cid waits for data

`add_want` of a cid that is not held leaves a cid without data behind, and then
`add_block` may pair data with the wrong cid and redirect wants. In a store
without such a cid neither can happen.

* `Settled.step`: a call that wants no cid that is not held keeps the store so.
* `Settled.dataAligned`, `Settled.slotUnwanted`: every call on it is one that
  `storeIntegrity_iff` and the sends of the service ask for.
-/

namespace LiveTest.BlockExchange

open Rust

variable {PeerId Cid : Type} {s : BlockExchange PeerId Cid}

/-- Every cid has its data. -/
def Settled (s : BlockExchange PeerId Cid) : Prop := s.cids.length = s.datums.length

theorem Settled.default : Settled (default : BlockExchange PeerId Cid) := rfl

variable [DecidableEq Cid]

/-- The cids are those of the blocks held. -/
theorem Settled.mem_cids_iff (h : s.Settled) {c : Cid} :
    c ∈ s.cids ↔ s.getBlock c ≠ none := by
  constructor
  · intro hc hnone
    obtain ⟨k, hk⟩ := List.mem_iff_getElem?.mp hc
    have hlt := (List.getElem?_eq_some_iff.mp hk).1
    have hge := getBlock_eq_none_iff.mp hnone k hk
    unfold Settled at h
    omega
  · intro hheld
    obtain ⟨k, hk, -⟩ := exists_of_getBlock hheld
    exact List.mem_of_getElem? hk

theorem Settled.dataAligned (h : s.Settled) (op : Op PeerId Cid) : DataAligned s op := by
  cases op with
  | addBlock b =>
    right
    rw [List.drop_eq_nil_of_le h.le]
    simp
  | _ => trivial

omit [DecidableEq Cid] in
/-- Nobody wants a block that is not held. -/
theorem Settled.slotUnwanted (h : s.Settled) (hwf : s.WellFormed) (cid : Cid) :
    s.SlotUnwanted cid := by
  have hnot : s.datums.length ∉ s.cidIndices := by
    intro hmem
    have := hwf.cidIndices_lt _ hmem
    unfold Settled at h
    omega
  refine ⟨hnot, fun hcid => ?_⟩
  have := (List.getElem?_eq_some_iff.mp hcid).1
  unfold Settled at h
  omega

variable [DecidableEq PeerId]

/-- The cid of the block that a call adds. -/
def Op.adds (c : Cid) : Op PeerId Cid → Prop
  | .addBlock b => b.cid = c
  | _ => False

theorem Settled.addWant (h : s.Settled) (hwf : s.WellFormed) (p : PeerId) {c : Cid}
    (hc : s.getBlock c ≠ none) : (s.addWant p c).Settled := by
  have hmem := h.mem_cids_iff.mpr hc
  obtain ⟨i, hi⟩ : ∃ i, s.cids.findIdx? (· = c) = some i := by
    cases hfind : s.cids.findIdx? (· = c) with
    | some i => exact ⟨i, rfl⟩
    | none => exact absurd hmem (not_mem_of_findIdx? hfind)
  have hcids : (s.addWant p c).cids = s.cids := by
    simp only [BlockExchange.addWant, positionOrPush, hi]
  have hdatums := (addWant_spec hwf p c).2.2.2.1
  unfold Settled at h ⊢
  rw [hcids, hdatums, h]

/-- A call that wants no cid that is not held leaves none behind, and what is held afterwards is
    what was held, and the block that it adds. -/
theorem Settled.step (h : s.Settled) (hwf : s.WellFormed) {op : Op PeerId Cid}
    (hop : ∀ p c, op = .addWant p c → s.getBlock c ≠ none) {s' : BlockExchange PeerId Cid}
    {r : Option Bool} (hs : BlockExchange.step s op = .ok (s', r)) :
    s'.Settled ∧ ∀ c, s'.getBlock c ≠ none ↔ s.getBlock c ≠ none ∨ op.adds c := by
  unfold Settled
  cases op with
  | addWant p c =>
    cases hs
    have hget := (addWant_spec hwf p c).2.2.1
    exact ⟨h.addWant hwf p (hop p c rfl), fun c => by simp [hget, Op.adds]⟩
  | removeWant p c =>
    obtain ⟨es, hes, -, -⟩ := removeWant_spec hwf p c
    obtain ⟨_, hrem, heq⟩ := bind_eq_ok.mp hs
    rw [hes] at hrem
    cases hrem
    cases heq
    exact ⟨h, fun c => by simp [Op.adds, getBlock, setEntries]⟩
  | removeWants c =>
    obtain ⟨es, hes, -, -⟩ := removeWants_spec hwf c
    obtain ⟨_, hrem, heq⟩ := bind_eq_ok.mp hs
    rw [hes] at hrem
    cases hrem
    cases heq
    exact ⟨h, fun c => by simp [Op.adds, getBlock, setEntries]⟩
  | insertionSortWants =>
    obtain ⟨_, hsort, heq⟩ := bind_eq_ok.mp hs
    rw [(insertionSortWants_spec hwf).1] at hsort
    cases hsort
    cases heq
    exact ⟨h, fun c => by simp [Op.adds, getBlock, setEntries]⟩
  | addBlock b =>
    by_cases hb : s.getBlock b.cid = none
    · have hmem : b.cid ∉ s.cids := fun hc => h.mem_cids_iff.mp hc hb
      obtain ⟨hadd, hadded⟩ := addBlock_absent hwf hmem
      obtain ⟨⟨_, added⟩, hs', heq⟩ := bind_eq_ok.mp hs
      rw [hadd] at hs'
      cases hs'
      cases heq
      have hslot : s.slotCid b.cid = b.cid := by
        rw [slotCid_eq_iff hwf, List.drop_eq_nil_of_le h.le]
        simp
      refine ⟨by simpa [Settled] using h, fun c => ?_⟩
      rw [hadded.getBlock_eq hwf, hslot, Op.adds]
      by_cases hc : c = b.cid
      · simp [hc]
      · rw [if_neg hc]
        exact ⟨.inl, fun h => h.resolve_right (Ne.symm hc)⟩
    · rw [step_addBlock_held hwf hb] at hs
      cases hs
      refine ⟨h, fun c => ⟨.inl, ?_⟩⟩
      rintro (hc | rfl)
      · exact hc
      · exact hb

end LiveTest.BlockExchange
