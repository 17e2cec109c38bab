import LiveTest.BlockExchange.AddBlock
import LiveTest.Machine

/-!
# Runs of the block exchange

A run calls the mutating methods in any order, starting from `default()`. The
abstract account of a run is read off the calls alone: `firstAdded` is the data
a cid should have, `outstanding` the wants that should be on the list.

* `storeIntegrity_iff`: `get_block` and the results of `add_block` agree with
  `firstAdded` exactly in the runs that never add a block while another cid
  waits for data.
* `wantRefinement_iff`: `iter_who_want_block` agrees with `outstanding` exactly
  in the runs that never add a block whose wanted cid is not the last one.
-/

namespace LiveTest.BlockExchange

open Rust Machine

variable {PeerId Cid : Type}

/-- A call of one of the mutating methods. -/
inductive Op (PeerId Cid : Type) where
  | addWant (peerId : PeerId) (cid : Cid)
  | removeWant (peerId : PeerId) (cid : Cid)
  | removeWants (cid : Cid)
  | insertionSortWants
  | addBlock (block : Block Cid)
  deriving DecidableEq, Repr

/-! ## The abstract account -/

section Account

variable [DecidableEq PeerId] [DecidableEq Cid]

/-- The data of the first `add_block` with the cid. -/
def firstAdded (ops : List (Op PeerId Cid)) (cid : Cid) : Option Bytes :=
  ops.findSome? fun
    | .addBlock b => if b.cid = cid then some b.data else none
    | _ => none

/-- What one call does to the outstanding wants. -/
def Op.wantsAfter (ws : List (PeerId × Cid)) : Op PeerId Cid → List (PeerId × Cid)
  | .addWant p c => ws ++ [(p, c)]
  | .removeWant p c => ws.filter fun w => w ≠ (p, c)
  | .removeWants c => ws.filter fun w => w.2 ≠ c
  | .insertionSortWants => ws
  | .addBlock _ => ws

/-- The wants that were added and not removed since, in arrival order. -/
def outstanding (ops : List (Op PeerId Cid)) : List (PeerId × Cid) := ops.foldl Op.wantsAfter []

/-- One call, with the `bool` that `add_block` returns. -/
def step (s : BlockExchange PeerId Cid) :
    Op PeerId Cid → Except Panic (BlockExchange PeerId Cid × Option Bool)
  | .addWant p c => .ok (s.addWant p c, none)
  | .removeWant p c => do
    let s ← s.removeWant p c
    return (s, none)
  | .removeWants c => do
    let s ← s.removeWants c
    return (s, none)
  | .insertionSortWants => do
    let s ← s.insertionSortWants
    return (s, none)
  | .addBlock b => do
    let (s, added) ← s.addBlock b
    return (s, some added)

omit [DecidableEq PeerId] in
theorem firstAdded_concat (ops : List (Op PeerId Cid)) (op : Op PeerId Cid) (c : Cid) :
    firstAdded (ops ++ [op]) c = (firstAdded ops c).or (firstAdded [op] c) := by
  simp only [firstAdded, List.findSome?_append]

omit [DecidableEq PeerId] in
theorem firstAdded_addBlock (b : Block Cid) (c : Cid) :
    firstAdded [(.addBlock b : Op PeerId Cid)] c = if b.cid = c then some b.data else none := by
  unfold firstAdded
  split_ifs with h <;> simp [List.findSome?, h]

omit [DecidableEq PeerId] in
theorem firstAdded_eq_none_iff {ops : List (Op PeerId Cid)} {c : Cid} :
    firstAdded ops c = none ↔ ∀ b, .addBlock b ∈ ops → b.cid ≠ c := by
  rw [firstAdded, List.findSome?_eq_none_iff]
  constructor
  · intro h b hb hbc
    simpa [hbc] using h _ hb
  · intro h op hop
    cases op with
    | addBlock b => simpa using h b hop
    | _ => rfl

omit [DecidableEq PeerId] in
theorem exists_of_firstAdded {ops : List (Op PeerId Cid)} {c : Cid} {data : Bytes}
    (h : firstAdded ops c = some data) : ∃ b, .addBlock b ∈ ops ∧ b.cid = c ∧ b.data = data := by
  obtain ⟨op, hop, hsome⟩ := List.exists_of_findSome?_eq_some h
  cases op with
  | addBlock b =>
    by_cases hc : b.cid = c
    · simp only [hc, if_true, Option.some.injEq] at hsome
      exact ⟨b, hop, hc, hsome⟩
    · simp [hc] at hsome
  | _ => cases hsome

theorem outstanding_concat (ops : List (Op PeerId Cid)) (op : Op PeerId Cid) :
    outstanding (ops ++ [op]) = op.wantsAfter (outstanding ops) := by
  simp [outstanding]

end Account

/-! ## Step lemmas -/

section Steps

variable [DecidableEq PeerId] [DecidableEq Cid]

/-- A call other than `add_block` keeps every `get_block` result, and changes the want list as the
    abstract account says, but for the order after a sort. -/
theorem step_of_not_addBlock {s : BlockExchange PeerId Cid} (h : s.WellFormed)
    (op : Op PeerId Cid) (hop : ∀ b, op ≠ .addBlock b) :
    ∃ s', step s op = .ok (s', none) ∧ s'.WellFormed ∧ s'.getBlock = s.getBlock ∧
      (op ≠ .insertionSortWants → s'.wants = op.wantsAfter s.wants) := by
  cases op with
  | addWant p c =>
    obtain ⟨hwf, hw, hg, -⟩ := addWant_spec h p c
    exact ⟨_, rfl, hwf, hg, fun _ => hw⟩
  | removeWant p c =>
    obtain ⟨es, hes, hwf, hw⟩ := removeWant_spec h p c
    exact ⟨_, by rw [step, hes]; rfl, hwf, rfl, fun _ => hw⟩
  | removeWants c =>
    obtain ⟨es, hes, hwf, hw⟩ := removeWants_spec h c
    exact ⟨_, by rw [step, hes]; rfl, hwf, rfl, fun _ => hw⟩
  | insertionSortWants =>
    obtain ⟨hs, hwf, -⟩ := insertionSortWants_spec h
    exact ⟨_, by rw [step, hs]; rfl, hwf, rfl, fun hne => absurd rfl hne⟩
  | addBlock b => exact absurd rfl (hop b)

theorem step_addBlock_held {s : BlockExchange PeerId Cid} (h : s.WellFormed) {b : Block Cid}
    (hb : s.getBlock b.cid ≠ none) : step s (.addBlock b) = .ok (s, some false) := by
  rw [step, addBlock_held h hb]
  rfl

theorem step_addBlock_new {s : BlockExchange PeerId Cid} (h : s.WellFormed) {b : Block Cid}
    (hb : s.getBlock b.cid = none) :
    ∃ s', step s (.addBlock b) = .ok (s', some true) ∧ s'.WellFormed ∧
      (∀ c, s'.getBlock c = if c = s.slotCid b.cid then some ⟨b.data, c⟩ else s.getBlock c) ∧
      s'.wants = s.wants.map (s.redirect b.cid) := by
  obtain ⟨s', hs, h'⟩ := addBlock_spec h hb
  exact ⟨s', by rw [step, hs]; rfl, h'⟩

/-- Whatever the state, no call panics and the invariant is kept. -/
theorem step_wellFormed {s : BlockExchange PeerId Cid} (h : s.WellFormed) (op : Op PeerId Cid) :
    ∃ s' r, step s op = .ok (s', r) ∧ s'.WellFormed := by
  by_cases hop : ∃ b, op = .addBlock b
  · obtain ⟨b, rfl⟩ := hop
    by_cases hb : s.getBlock b.cid = none
    · obtain ⟨s', hs, hwf, -⟩ := step_addBlock_new h hb
      exact ⟨s', _, hs, hwf⟩
    · exact ⟨s, _, step_addBlock_held h hb, h⟩
  · push Not at hop
    obtain ⟨s', hs, hwf, -⟩ := step_of_not_addBlock h _ hop
    exact ⟨s', _, hs, hwf⟩

/-- A want for a held block stays, with its block, until a call removes it. -/
theorem step_keeps_held {s s' : BlockExchange PeerId Cid} (h : s.WellFormed)
    {op : Op PeerId Cid} {r : Option Bool} (hs : step s op = .ok (s', r)) {w : PeerId × Cid}
    (hw : w ∈ s.wants) (hheld : s.getBlock w.2 ≠ none) (hsort : op ≠ .insertionSortWants)
    (hop : op ≠ .removeWant w.1 w.2) (hops : op ≠ .removeWants w.2) :
    w ∈ s'.wants ∧ s'.getBlock w.2 ≠ none := by
  by_cases hadd : ∃ b, op = .addBlock b
  · obtain ⟨b, rfl⟩ := hadd
    by_cases hb : s.getBlock b.cid = none
    · obtain ⟨s'', hs', -, hget, hwants⟩ := step_addBlock_new h hb
      rw [hs'] at hs
      cases hs
      refine ⟨?_, ?_⟩
      · rw [hwants, List.mem_map]
        refine ⟨w, hw, if_neg ?_⟩
        rintro hc
        exact hheld (hc ▸ hb)
      · rw [hget]
        split_ifs
        · simp
        · exact hheld
    · rw [step_addBlock_held h hb] at hs
      cases hs
      exact ⟨hw, hheld⟩
  · push Not at hadd
    obtain ⟨s'', hs', -, hget, hwants⟩ := step_of_not_addBlock h _ hadd
    rw [hs'] at hs
    cases hs
    rw [hwants hsort, hget]
    refine ⟨?_, hheld⟩
    cases op with
    | addWant p c => exact List.mem_append_left _ hw
    | removeWant p c =>
      refine List.mem_filter.mpr ⟨hw, decide_eq_true ?_⟩
      rintro rfl
      exact hop rfl
    | removeWants c =>
      refine List.mem_filter.mpr ⟨hw, decide_eq_true ?_⟩
      rintro rfl
      exact hops rfl
    | insertionSortWants => exact hw
    | addBlock b => exact hw

end Steps

/-! ## Store integrity -/

section Integrity

variable [DecidableEq PeerId] [DecidableEq Cid]

/-- After the calls `ops`, `get_block` finds exactly the cids that were added, with the data of the
    first `add_block`, and every `add_block` returned `true` exactly when it was the first. -/
def StoreIntegrity (ops : List (Op PeerId Cid)) : Prop :=
  ∃ s tr, run step default ops = .ok (s, tr) ∧
    (∀ c, s.getBlock c = (firstAdded ops c).map fun data => ⟨data, c⟩) ∧
    EachStep (fun before op r => ∀ b, op = .addBlock b →
      (r = some true ↔ ∀ b', .addBlock b' ∈ before.map Prod.fst → b'.cid ≠ b.cid)) tr

/-- The guard of a call: `add_block` adds a block that is held, or no cid other than the block's
    waits for data. -/
def DataAligned (s : BlockExchange PeerId Cid) : Op PeerId Cid → Prop
  | .addBlock b => s.getBlock b.cid ≠ none ∨ ∀ c ∈ s.cids.drop s.datums.length, c = b.cid
  | _ => True

instance (s : BlockExchange PeerId Cid) : ∀ op : Op PeerId Cid, Decidable (DataAligned s op)
  | .addBlock b => inferInstanceAs (Decidable
      (s.getBlock b.cid ≠ none ∨ ∀ c ∈ s.cids.drop s.datums.length, c = b.cid))
  | .addWant _ _ | .removeWant _ _ | .removeWants _ | .insertionSortWants => isTrue trivial

/-- The invariant of the aligned runs. -/
structure Aligned (s : BlockExchange PeerId Cid) (tr : List (Op PeerId Cid × Option Bool)) :
    Prop where
  wellFormed : s.WellFormed
  getBlock_eq : ∀ c, s.getBlock c = (firstAdded (tr.map Prod.fst) c).map fun data => ⟨data, c⟩
  results : EachStep (fun before op r => ∀ b, op = .addBlock b →
    (r = some true ↔ ∀ b', .addBlock b' ∈ before.map Prod.fst → b'.cid ≠ b.cid)) tr

omit [DecidableEq PeerId] in
theorem Aligned.getBlock_eq_none_iff {s : BlockExchange PeerId Cid}
    {tr : List (Op PeerId Cid × Option Bool)} (h : Aligned s tr) {c : Cid} :
    s.getBlock c = none ↔ ∀ b, .addBlock b ∈ tr.map Prod.fst → b.cid ≠ c := by
  rw [h.getBlock_eq, Option.map_eq_none_iff, firstAdded_eq_none_iff]

omit [DecidableEq PeerId] in
theorem Aligned.init : Aligned (default : BlockExchange PeerId Cid) [] :=
  ⟨WellFormed.default, fun _ => rfl, eachStep_nil _⟩

theorem Aligned.step {s : BlockExchange PeerId Cid} {tr : List (Op PeerId Cid × Option Bool)}
    (h : Aligned s tr) {op : Op PeerId Cid} (hop : DataAligned s op) :
    ∃ s' r, step s op = .ok (s', r) ∧ Aligned s' (tr ++ [(op, r)]) := by
  have hfirst : ∀ c, firstAdded ((tr ++ [(op, (none : Option Bool))]).map Prod.fst) c =
      (firstAdded (tr.map Prod.fst) c).or (firstAdded [op] c) := fun c => by
    rw [List.map_append]; exact firstAdded_concat _ op c
  simp only [List.map_append, List.map_cons, List.map_nil] at hfirst
  by_cases hadd : ∃ b, op = .addBlock b
  · obtain ⟨b, rfl⟩ := hadd
    by_cases hb : s.getBlock b.cid = none
    · -- the block is new: by the guard its data is paired with its own cid
      obtain ⟨s', hs, hwf, hget, -⟩ := step_addBlock_new h.wellFormed hb
      rw [(slotCid_eq_iff h.wellFormed).mpr (hop.resolve_left (by simp [hb]))] at hget
      refine ⟨s', _, hs, hwf, fun c => ?_, eachStep_concat.mpr ⟨h.results, ?_⟩⟩
      · simp only [List.map_append, List.map_cons, List.map_nil]
        rw [hget, hfirst, firstAdded_addBlock]
        split_ifs with hc hc' hc'
        · have : firstAdded (tr.map Prod.fst) c = none := by
            rw [firstAdded_eq_none_iff, hc]; exact h.getBlock_eq_none_iff.mp hb
          rw [this]
          rfl
        · exact absurd hc.symm hc'
        · exact absurd hc'.symm hc
        · rw [Option.or_none, h.getBlock_eq]
      · rintro b' ⟨⟩
        exact iff_of_true rfl (h.getBlock_eq_none_iff.mp hb)
    · -- the block is held already: nothing changes
      refine ⟨s, _, step_addBlock_held h.wellFormed hb, h.wellFormed, fun c => ?_,
        eachStep_concat.mpr ⟨h.results, ?_⟩⟩
      · simp only [List.map_append, List.map_cons, List.map_nil]
        rw [hfirst, firstAdded_addBlock, h.getBlock_eq]
        split_ifs with hc
        · rw [hc, h.getBlock_eq, Option.map_eq_none_iff] at hb
          obtain ⟨d, hd⟩ := Option.ne_none_iff_exists'.mp hb
          rw [hd]
          rfl
        · rw [Option.or_none]
      · rintro b' ⟨⟩
        rw [h.getBlock_eq_none_iff] at hb
        simp only [Option.some.injEq, Bool.false_eq_true, false_iff]
        exact hb
  · push Not at hadd
    obtain ⟨s', hs, hwf, hget, -⟩ := step_of_not_addBlock h.wellFormed _ hadd
    refine ⟨s', _, hs, hwf, fun c => ?_, eachStep_concat.mpr ⟨h.results, ?_⟩⟩
    · have hnone : firstAdded [op] c = none := by
        rw [firstAdded_eq_none_iff]
        intro b hb
        exact absurd (List.mem_singleton.mp hb).symm (hadd b)
      simp only [List.map_append, List.map_cons, List.map_nil]
      rw [hget, hfirst, hnone, Option.or_none, h.getBlock_eq]
    · intro b hb
      exact absurd hb (hadd b)

/-- A call that misses the guard pairs its data with another cid, which no call added. -/
theorem not_storeIntegrity_of_misaligned {ops : List (Op PeerId Cid)}
    {s : BlockExchange PeerId Cid} {tr : List (Op PeerId Cid × Option Bool)}
    (hrun : run step default ops = .ok (s, tr)) (h : Aligned s tr) {op : Op PeerId Cid}
    (hop : ¬ DataAligned s op) : ¬ StoreIntegrity (ops ++ [op]) := by
  cases op with
  | addBlock b =>
    rw [DataAligned, not_or, not_not] at hop
    obtain ⟨hb, hother⟩ := hop
    obtain ⟨s', hs, -, hget, -⟩ := step_addBlock_new h.wellFormed hb
    have hne : s.slotCid b.cid ≠ b.cid := fun he => hother ((slotCid_eq_iff h.wellFormed).mp he)
    rintro ⟨s'', tr', hrun', hstore, -⟩
    rw [run_concat_eq_ok.mpr ⟨s, tr, _, hrun, hs, rfl⟩] at hrun'
    cases hrun'
    have hgot := hget (s.slotCid b.cid)
    have hnone := h.getBlock_eq_none_iff.mp (slotCid_not_held h.wellFormed hb)
    rw [if_pos rfl, hstore, firstAdded_concat, firstAdded_addBlock, if_neg (Ne.symm hne),
      Option.or_none, ← trace_inputs hrun, firstAdded_eq_none_iff.mpr hnone] at hgot
    cases hgot
  | _ => exact absurd trivial hop

/-- `get_block` and the results of `add_block` agree with the calls made, at every point of a run,
    exactly when no call of the run adds a new block while another cid waits for data. -/
theorem storeIntegrity_iff (ops : List (Op PeerId Cid)) :
    (∀ pre, pre <+: ops → StoreIntegrity pre) ↔ Meets step DataAligned default ops := by
  refine forall_prefix_iff_meets (fun _ => True) Aligned (fun _ _ _ => trivial) Aligned.init
    (fun s tr op h _ hop => h.step hop) ?_ ?_ trivial
  · intro is s tr hrun h
    refine ⟨s, tr, hrun, fun c => ?_, h.results⟩
    rw [h.getBlock_eq, trace_inputs hrun]
  · intro is s tr op hrun h _ hop
    exact not_storeIntegrity_of_misaligned hrun h hop

/-- A want for cid 1 makes the data of cid 2 the block of cid 1. -/
theorem not_storeIntegrity_example :
    ¬ StoreIntegrity [Op.addWant (0 : ℕ) (1 : ℕ), .addBlock ⟨[7], 2⟩] := by
  rintro ⟨s, tr, hrun, hstore, -⟩
  have hstep : run step default [Op.addWant (0 : ℕ) (1 : ℕ), .addBlock ⟨[7], 2⟩] =
      .ok (⟨[0], [0], [0], [1, 2], [[7]]⟩,
        [(.addWant 0 1, none), (.addBlock ⟨[7], 2⟩, some true)]) := by decide
  rw [hstep] at hrun
  cases hrun
  have := hstore 1
  revert this
  decide

end Integrity

/-! ## The want list -/

section Refinement

variable [DecidableEq PeerId] [DecidableEq Cid]

/-- After the calls `ops`, `iter_who_want_block` yields for every cid the peers of the outstanding
    wants, in arrival order and with multiplicity. -/
def WantRefinement (ops : List (Op PeerId Cid)) : Prop :=
  ∃ s tr, run step default ops = .ok (s, tr) ∧
    ∀ c, s.iterWhoWantBlock c = .ok (((outstanding ops).filter fun w => w.2 = c).map Prod.fst)

/-- The guard of a call: `add_block` adds a block that is held, or whose cid is the last one, or
    whose cid no stored want points to. -/
def WantsKept (s : BlockExchange PeerId Cid) : Op PeerId Cid → Prop
  | .addBlock b => s.getBlock b.cid ≠ none ∨ s.cids.getLast? = some b.cid ∨
      ∀ i ∈ s.cidIndices, s.cids[i]? ≠ some b.cid
  | _ => True

instance (s : BlockExchange PeerId Cid) : ∀ op : Op PeerId Cid, Decidable (WantsKept s op)
  | .addBlock b => inferInstanceAs (Decidable (s.getBlock b.cid ≠ none ∨
      s.cids.getLast? = some b.cid ∨ ∀ i ∈ s.cidIndices, s.cids[i]? ≠ some b.cid))
  | .addWant _ _ | .removeWant _ _ | .removeWants _ | .insertionSortWants => isTrue trivial

omit [DecidableEq PeerId] in
/-- Where no other cid waits for data, no want is redirected. -/
theorem DataAligned.wantsKept {s : BlockExchange PeerId Cid} (h : s.WellFormed)
    {op : Op PeerId Cid} (hop : DataAligned s op) : WantsKept s op := by
  cases op with
  | addBlock b =>
    by_cases hb : s.getBlock b.cid = none
    · right
      rcases getLast?_of_aligned hb (hop.resolve_left (by simp [hb])) with hl | hno
      · exact .inl hl
      · refine .inr fun i hi hc => ?_
        obtain ⟨p, hp⟩ := h.exists_want hi hc
        exact hno _ hp rfl
    · exact .inl hb
  | _ => trivial

/-- A guarded call changes the want list as the abstract account says. -/
theorem step_wants {s : BlockExchange PeerId Cid} (h : s.WellFormed) {op : Op PeerId Cid}
    (hsort : op ≠ .insertionSortWants) (hop : WantsKept s op) :
    ∃ s' r, step s op = .ok (s', r) ∧ s'.WellFormed ∧ s'.wants = op.wantsAfter s.wants := by
  by_cases hadd : ∃ b, op = .addBlock b
  · obtain ⟨b, rfl⟩ := hadd
    by_cases hb : s.getBlock b.cid = none
    · obtain ⟨s', hs, hwf, -, hw⟩ := step_addBlock_new h hb
      refine ⟨s', _, hs, hwf, ?_⟩
      rw [hw, map_redirect]
      · rfl
      · refine (hop.resolve_left (by simp [hb])).imp_right fun hno w hw' hc => ?_
        obtain ⟨i, hi, hic⟩ := exists_index_of_mem_wants hw'
        exact hno i hi (hc ▸ hic)
    · exact ⟨s, _, step_addBlock_held h hb, h, rfl⟩
  · push Not at hadd
    obtain ⟨s', hs, hwf, -, hw⟩ := step_of_not_addBlock h _ hadd
    exact ⟨s', _, hs, hwf, hw hsort⟩

/-- A call that misses the guard leaves the added cid without any of its wants. -/
theorem not_wantRefinement_of_redirected {ops : List (Op PeerId Cid)}
    {s : BlockExchange PeerId Cid} {tr : List (Op PeerId Cid × Option Bool)}
    (hrun : run step default ops = .ok (s, tr)) (hwf : s.WellFormed)
    (hw : s.wants = outstanding (tr.map Prod.fst)) {op : Op PeerId Cid} (hop : ¬ WantsKept s op) :
    ¬ WantRefinement (ops ++ [op]) := by
  cases op with
  | addBlock b =>
    rw [WantsKept, not_or, not_or, not_not] at hop
    obtain ⟨hb, hlast, hwant⟩ := hop
    push Not at hwant
    obtain ⟨i, hi, hic⟩ := hwant
    obtain ⟨p, hp⟩ := hwf.exists_want hi hic
    obtain ⟨s', hs, hwf', -, hw'⟩ := step_addBlock_new hwf hb
    rintro ⟨s'', tr', hrun', hwho⟩
    rw [run_concat_eq_ok.mpr ⟨s, tr, _, hrun, hs, rfl⟩] at hrun'
    cases hrun'
    have hlc : s.lastCid b.cid ≠ b.cid := by
      have hlt : i < s.cids.length := (List.getElem?_eq_some_iff.mp hic).1
      rw [List.getLast?_eq_getElem?, List.getElem?_eq_getElem (by omega)] at hlast
      rw [lastCid, List.getLast?_eq_getElem?, List.getElem?_eq_getElem (by omega)]
      exact fun he => hlast (congrArg some he)
    have hgot := hwho b.cid
    rw [iterWhoWantBlock_eq hwf', hw', Except.ok.injEq] at hgot
    have hempty : ((s.wants.map (s.redirect b.cid)).filter fun w => w.2 = b.cid) = [] := by
      rw [List.filter_eq_nil_iff]
      intro w hw
      obtain ⟨v, -, rfl⟩ := List.mem_map.mp hw
      unfold redirect
      split_ifs with hc <;> simpa
    rw [hempty, List.map_nil, outstanding_concat, ← trace_inputs hrun] at hgot
    have hmem : p ∈ ((outstanding (tr.map Prod.fst)).filter fun w => w.2 = b.cid).map Prod.fst :=
      List.mem_map.mpr ⟨(p, b.cid), by rw [← hw]; simp [hp], rfl⟩
    have hnil := hgot.symm
    rw [Op.wantsAfter] at hnil
    rw [hnil] at hmem
    simp at hmem
  | _ => exact absurd trivial hop

/-- `iter_who_want_block` agrees with the outstanding wants, at every point of a run without a
    sort, exactly when no call of the run adds a new block whose cid is wanted but not the last
    one. -/
theorem wantRefinement_iff {ops : List (Op PeerId Cid)} (hops : .insertionSortWants ∉ ops) :
    (∀ pre, pre <+: ops → WantRefinement pre) ↔ Meets step WantsKept default ops := by
  refine forall_prefix_iff_meets (fun ops => .insertionSortWants ∉ ops)
    (fun s tr => s.WellFormed ∧ s.wants = outstanding (tr.map Prod.fst))
    (fun is op h hmem => h (by simp [hmem])) ⟨WellFormed.default, rfl⟩ ?_ ?_ ?_ hops
  · rintro s tr op ⟨hwf, hw⟩ hadm hop
    have hsort : op ≠ .insertionSortWants := fun he => hadm (by simp [he])
    obtain ⟨s', r, hs, hwf', hw'⟩ := step_wants hwf hsort hop
    refine ⟨s', r, hs, hwf', ?_⟩
    rw [List.map_append, List.map_cons, List.map_nil, outstanding_concat, ← hw, hw']
  · rintro is s tr hrun ⟨hwf, hw⟩
    refine ⟨s, tr, hrun, fun c => ?_⟩
    rw [iterWhoWantBlock_eq hwf, hw, trace_inputs hrun]
  · rintro is s tr op hrun ⟨hwf, hw⟩ _ hop
    exact not_wantRefinement_of_redirected hrun hwf hw hop

/-- Peer 0 wants cid 1 and peer 1 wants cid 2; adding block 1 takes peer 0's want away from it. -/
theorem not_wantRefinement_example :
    ¬ WantRefinement [Op.addWant (0 : ℕ) (1 : ℕ), .addWant 1 2, .addBlock ⟨[7], 1⟩] := by
  rintro ⟨s, tr, hrun, hwho⟩
  have hstep : run step default [Op.addWant (0 : ℕ) (1 : ℕ), .addWant 1 2, .addBlock ⟨[7], 1⟩] =
      .ok (⟨[0, 1], [0, 1], [0, 0], [2, 1], [[7]]⟩,
        [(.addWant 0 1, none), (.addWant 1 2, none), (.addBlock ⟨[7], 1⟩, some true)]) := by decide
  rw [hstep] at hrun
  cases hrun
  have := hwho 1
  revert this
  decide

/-- A run that adds the block of the only waiting cid. -/
theorem wantRefinement_iff_example :
    WantRefinement [Op.addWant (0 : ℕ) (1 : ℕ), .addWant 2 1, .addBlock ⟨[7], 1⟩] :=
  (wantRefinement_iff (by decide)).mpr (by decide) _ (List.prefix_refl _)

end Refinement

end LiveTest.BlockExchange
