import LiveTest.BlockExchange.Runs

/-!
# Every method, on every reachable state

A sequence of calls mixes all eight methods of `BlockExchange`, those that
change the store and those that read it, starting from `default()`.

* `never_panics`: no call of any sequence panics, and the reached state meets
  the invariant of the five vectors.
* `iterWantedBlocks_agrees`: the joint iterator says of every cid what the two
  lookups say.
* `removals_filter`: the removals are exact, order-preserving filters of the
  want list and touch nothing else.
-/

namespace LiveTest.BlockExchange

open Rust Machine

variable {PeerId Cid : Type}

/-- A call of one of the methods. An iterator is run to its end: stopping earlier performs fewer
    of its reads. -/
inductive Call (PeerId Cid : Type) where
  | mutate (op : Op PeerId Cid)
  | getBlock (cid : Cid)
  | iterWhoWantBlock (cid : Cid)
  | iterWantedBlocks
  deriving DecidableEq, Repr

/-- What a call returns. -/
inductive Returned (PeerId Cid : Type) where
  | mutated (added : Option Bool)
  | block (block : Option (Block Cid))
  | peers (peers : List PeerId)
  | wanted (wanted : List (PeerId × Block Cid))
  deriving DecidableEq, Repr

variable [DecidableEq PeerId] [DecidableEq Cid]

/-- One call; the readers leave the store as it is. -/
def call (s : BlockExchange PeerId Cid) :
    Call PeerId Cid → Except Panic (BlockExchange PeerId Cid × Returned PeerId Cid)
  | .mutate op => do
    let (s, added) ← step s op
    return (s, .mutated added)
  | .getBlock c => return (s, .block (s.getBlock c))
  | .iterWhoWantBlock c => do
    let who ← s.iterWhoWantBlock c
    return (s, .peers who)
  | .iterWantedBlocks => do
    let wanted ← s.iterWantedBlocks
    return (s, .wanted wanted)

/-! ## No call panics -/

/-- A call on a well-formed store does not panic and leaves it well-formed. -/
theorem call_wellFormed {s : BlockExchange PeerId Cid} (h : s.WellFormed) (c : Call PeerId Cid) :
    ∃ s' r, call s c = .ok (s', r) ∧ s'.WellFormed := by
  cases c with
  | mutate op =>
    obtain ⟨s', r, hs, hwf⟩ := step_wellFormed h op
    exact ⟨s', .mutated r, by rw [call, hs]; rfl, hwf⟩
  | getBlock c => exact ⟨s, _, rfl, h⟩
  | iterWhoWantBlock c => exact ⟨s, _, by rw [call, iterWhoWantBlock_eq h]; rfl, h⟩
  | iterWantedBlocks => exact ⟨s, _, by rw [call, iterWantedBlocks_eq h]; rfl, h⟩

/-- Every sequence of calls runs to its end, in a well-formed store. -/
theorem run_call (calls : List (Call PeerId Cid)) :
    ∃ s tr, run call default calls = .ok (s, tr) ∧ s.WellFormed := by
  refine run_induction (fun _ => True) (fun s _ => WellFormed s) (fun _ _ _ => trivial)
    WellFormed.default ?_ trivial (meets_true calls)
  intro s tr c h _ _
  exact call_wellFormed h c

/-- No sequence of calls from `default()` panics, and in the state it reaches the index vectors
    have equal length, their entries are in range, and neither `peers` nor `cids` repeats an
    entry or is too short. -/
theorem never_panics (calls : List (Call PeerId Cid)) :
    ∃ s tr, run call default calls = .ok (s, tr) ∧
      s.peerIndices.length = s.cidIndices.length ∧
      (∀ i ∈ s.peerIndices, i < s.peers.length) ∧ (∀ i ∈ s.cidIndices, i < s.cids.length) ∧
      s.peers.Nodup ∧ s.cids.Nodup ∧ s.datums.length ≤ s.cids.length := by
  obtain ⟨s, tr, hrun, h⟩ := run_call calls
  exact ⟨s, tr, hrun, h.indices_length, h.peerIndices_lt, h.cidIndices_lt, h.peers_nodup,
    h.cids_nodup, h.datums_le⟩

/-! ## The joint iterator and the two lookups -/

/-- The wanted blocks with cid `c`, from the two lookups of `c`. -/
def lookedUp (who : List PeerId) : Option (Block Cid) → List (PeerId × Block Cid)
  | some b => who.map fun p => (p, b)
  | none => []

omit [DecidableEq PeerId] in
/-- Joining every want with `get_block` and keeping one cid is keeping the wants for that cid and
    joining them with its block. -/
theorem filter_wanted_eq (s : BlockExchange PeerId Cid) (c : Cid) (ws : List (PeerId × Cid)) :
    ((ws.filterMap fun w => (s.getBlock w.2).map fun b => (w.1, b)).filter fun w => w.2.cid = c) =
      lookedUp ((ws.filter fun w => w.2 = c).map Prod.fst) (s.getBlock c) := by
  induction ws with
  | nil => cases s.getBlock c <;> rfl
  | cons w ws ih =>
    rw [List.filterMap_cons]
    by_cases hc : w.2 = c
    · subst hc
      cases hb : s.getBlock w.2 with
      | none =>
        rw [hb] at ih
        exact ih
      | some b =>
        have hcid : b.cid = w.2 := getBlock_cid hb
        rw [hb] at ih
        simp [hcid, ih, lookedUp]
    · have hskip : ((w :: ws).filter fun w => w.2 = c) = ws.filter fun w => w.2 = c := by
        simp [hc]
      rw [hskip, ← ih]
      cases hb : s.getBlock w.2 with
      | none => rfl
      | some b =>
        have hcid : b.cid ≠ c := by rwa [getBlock_cid hb]
        simp [hcid]

/-- In every reachable state, what `iter_wanted_blocks` yields of a cid is what
    `iter_who_want_block` yields, paired with the block of `get_block`. -/
theorem iterWantedBlocks_agrees (calls : List (Call PeerId Cid)) :
    ∃ s tr, run call default calls = .ok (s, tr) ∧
      ∀ c, ∃ wanted who, s.iterWantedBlocks = .ok wanted ∧ s.iterWhoWantBlock c = .ok who ∧
        (wanted.filter fun w => w.2.cid = c) = lookedUp who (s.getBlock c) := by
  obtain ⟨s, tr, hrun, h⟩ := run_call calls
  refine ⟨s, tr, hrun, fun c => ?_⟩
  exact ⟨_, _, iterWantedBlocks_eq h, iterWhoWantBlock_eq h c, filter_wanted_eq s c s.wants⟩

/-! ## The removals -/

/-- `s'` is `s` without the wants that `keep` refuses: the others stand in their order, and
    nothing else differs. -/
structure Removed (s s' : BlockExchange PeerId Cid) (keep : PeerId × Cid → Bool) : Prop where
  wants : s'.wants = s.wants.filter keep
  /-- Position by position, the pairs are those the two index vectors stand for. -/
  stored : s'.wants.map some = s'.entries.map s'.entry
  indices_length : s'.peerIndices.length = s'.cidIndices.length
  peers : s'.peers = s.peers
  cids : s'.cids = s.cids
  datums : s'.datums = s.datums
  getBlock : s'.getBlock = s.getBlock

omit [DecidableEq PeerId] [DecidableEq Cid] in
/-- Every stored entry stands for a want, so the want list has the entries' positions. -/
theorem WellFormed.wants_map_some {s : BlockExchange PeerId Cid} (h : s.WellFormed) :
    s.wants.map some = s.entries.map s.entry := by
  have hall : ∀ es : List (ℕ × ℕ), (∀ e ∈ es, e ∈ s.entries) →
      (es.filterMap s.entry).map some = es.map s.entry := by
    intro es
    induction es with
    | nil => intro _; rfl
    | cons e es ih =>
      intro hes
      obtain ⟨w, hw⟩ := h.entry_of_mem (hes e (by simp))
      rw [List.filterMap_cons, hw, List.map_cons, List.map_cons, hw,
        ih fun e' he' => hes e' (by simp [he'])]
  exact hall s.entries fun _ he => he

omit [DecidableEq PeerId] in
/-- A list of stored entries with the filtered wants is a removal. -/
theorem WellFormed.removed {s : BlockExchange PeerId Cid} {es : List (ℕ × ℕ)}
    {keep : PeerId × Cid → Bool} (h : (s.setEntries es).WellFormed)
    (hw : (s.setEntries es).wants = s.wants.filter keep) : Removed s (s.setEntries es) keep where
  wants := hw
  stored := h.wants_map_some
  indices_length := h.indices_length
  peers := rfl
  cids := rfl
  datums := rfl
  getBlock := rfl

/-- In every reachable state the want list has one pair for each stored entry; `remove_want`
    keeps exactly the pairs other than its own and `remove_wants` those with another cid, both in
    their order and with everything but the index vectors unchanged. -/
theorem removals_filter (calls : List (Call PeerId Cid)) :
    ∃ s tr, run call default calls = .ok (s, tr) ∧ s.wants.map some = s.entries.map s.entry ∧
      (∀ p c, ∃ s', s.removeWant p c = .ok s' ∧ Removed s s' fun w => w ≠ (p, c)) ∧
      ∀ c, ∃ s', s.removeWants c = .ok s' ∧ Removed s s' fun w => w.2 ≠ c := by
  obtain ⟨s, tr, hrun, h⟩ := run_call calls
  refine ⟨s, tr, hrun, h.wants_map_some, fun p c => ?_, fun c => ?_⟩
  · obtain ⟨es, hes, hwf, hw⟩ := removeWant_spec h p c
    exact ⟨s.setEntries es, hes, hwf.removed hw⟩
  · obtain ⟨es, hes, hwf, hw⟩ := removeWants_spec h c
    exact ⟨s.setEntries es, hes, hwf.removed hw⟩

end LiveTest.BlockExchange
