import LiveTest.Network.Basic

/-!
# What the nodes of a network pass on

The cid of a block is the digest of its data, and nothing in the service checks
it. A block that is added while another cid waits for data is stored under that
other cid, and is then sent under it.

* `Traced.step`: the invariant, as long as no service adds a block while another
  cid waits for data.
* `genuine_iff`: every block that is stored, sent or handed to a client belongs to its
  cid exactly as long as that is so.
* `provenance`: then every block that goes to a node was added by a client of
  some node, and the node had asked for it.
-/

namespace LiveTest

open Rust Machine

variable {L : Libp2p}

/-! ## Wants and blocks of one node -/

theorem BlockExchange.addWant_mem_of_outstanding {PeerId Cid : Type} [DecidableEq PeerId]
    [DecidableEq Cid] {ops : List (Op PeerId Cid)} {w : PeerId × Cid} (h : w ∈ outstanding ops) :
    .addWant w.1 w.2 ∈ ops := by
  induction ops using List.reverseRecOn with
  | nil => cases h
  | append_singleton ops op ih =>
    rw [outstanding_concat] at h
    rw [List.mem_append, List.mem_singleton]
    cases op with
    | addWant p c =>
      rcases List.mem_append.mp h with h | h
      · exact .inl (ih h)
      · rw [List.mem_singleton.mp h]
        exact .inr rfl
    | removeWant p c => exact .inl (ih (List.mem_filter.mp h).1)
    | removeWants c => exact .inl (ih (List.mem_filter.mp h).1)
    | insertionSortWants => exact .inl (ih h)
    | addBlock b => exact .inl (ih h)

/-- Every block in the store was added or received. -/
theorem Tracking.addBlock_of_getBlock {maxConcurrentSend : ℕ} {s : System L}
    {tr : List (Input L × List (Output L))}
    (h : Tracking maxConcurrentSend s.exchangePart (exchangeTrace tr)) {c : L.Cid}
    {block : Block L.Cid} (hget : s.service.blockExchange.getBlock c = some block) :
    block.cid = c ∧ .addBlock block ∈ calls (tr.map Prod.fst) := by
  rw [h.getBlock_eq_firstAdded] at hget
  obtain ⟨data, hdata, rfl⟩ := Option.map_eq_some_iff.mp hget
  obtain ⟨b, hb, rfl, rfl⟩ := BlockExchange.exists_of_firstAdded hdata
  exact ⟨rfl, hb⟩

/-- What the last step of a node sends. -/
theorem Tracking.sends {maxConcurrentSend : ℕ} {s s' : System L}
    {tr : List (Input L × List (Output L))} {i : Input L} {out : List (Output L)}
    (h : Tracking maxConcurrentSend s'.exchangePart (exchangeTrace (tr ++ [(i, out)])))
    (hs : s.step i = .ok (s', out)) {peer : L.PeerId} {block : Block L.Cid}
    (hsend : .sendBlock peer block ∈ out) :
    .addBlock block ∈ calls ((tr ++ [(i, out)]).map Prod.fst) ∧
      .addWant peer block.cid ∈ calls ((tr ++ [(i, out)]).map Prod.fst) := by
  have hi : i.IsExchange := step_causedBy hs _ hsend
  have hanswers := h.answers
  rw [← calls_exchangeTrace]
  rw [exchangeTrace_concat, if_pos hi] at hanswers ⊢
  rw [List.map_append, List.map_singleton]
  obtain ⟨hadd, -, earlier, later, hout, -⟩ := (eachStep_concat.mp hanswers).2 peer block
    (List.mem_filter.mpr ⟨hsend, rfl⟩)
  refine ⟨hadd, BlockExchange.addWant_mem_of_outstanding (w := (peer, block.cid)) ?_⟩
  rw [hout]
  simp

namespace Network

variable {n n' : Network L} {tr : Trace L} {maxConcurrentSend : L.PeerId → ℕ}

/-! ## The invariant -/

/-- The guard of an action: the service does not add a block while another cid waits for data. -/
def StoresAligned (n : Network L) (a : Action L) : Prop :=
  ∀ s s' out, n.nodes a.1 = some s → n.Allows a.1 a.2 → s.step a.2 = .ok (s', out) →
    StoreAligned s a.2

/-- The invariant. -/
structure Traced (maxConcurrentSend : L.PeerId → ℕ) (n : Network L) (tr : Trace L) : Prop where
  tracking : ∀ peer s, n.nodes peer = some s →
    Tracking (maxConcurrentSend peer) s.exchangePart (exchangeTrace (nodeTrace peer tr))
  received : ∀ peer sender block, .receivedBlock sender block ∈ inputs peer tr →
    (sender, peer, block) ∈ n.sent
  wanted : ∀ peer sender cid priority, .receivedWant sender cid priority ∈ inputs peer tr →
    (sender, cid) ∈ n.asked
  sent : ∀ sender peer block, (sender, peer, block) ∈ n.sent →
    Added tr block ∧ (peer, block.cid) ∈ n.asked
  caused : ∀ peer, ∀ e ∈ nodeTrace peer tr, ∀ o ∈ e.2, o.CausedBy e.1

theorem Traced.init (maxConcurrentSend : L.PeerId → ℕ) :
    Traced maxConcurrentSend (new maxConcurrentSend : Network L) [] where
  tracking := by
    rintro peer s ⟨⟩
    exact Tracking.init (maxConcurrentSend peer)
  received := by simp [inputs, nodeTrace]
  wanted := by simp [inputs, nodeTrace]
  sent := by simp [new]
  caused := by simp [nodeTrace]

theorem op_eq_addBlock {i : Input L} {block : Block L.Cid} (h : i.op = some (.addBlock block)) :
    (∃ answers, i = .blockAdd answers block) ∨ ∃ sender, i = .receivedBlock sender block := by
  unfold Input.op at h
  split at h <;> cases h
  · exact .inl ⟨_, rfl⟩
  · exact .inr ⟨_, rfl⟩

theorem op_eq_addWant {i : Input L} {peer : L.PeerId} {cid : L.Cid}
    (h : i.op = some (.addWant peer cid)) : ∃ priority, i = .receivedWant peer cid priority := by
  unfold Input.op at h
  split at h <;> cases h
  exact ⟨_, rfl⟩

/-- Every block in a call on a store was added by a client of some node. -/
theorem Traced.added_of_call (h : Traced maxConcurrentSend n tr) {peer : L.PeerId}
    {block : Block L.Cid} (hcall : .addBlock block ∈ calls (inputs peer tr)) : Added tr block := by
  obtain ⟨i, hi, hop⟩ := mem_calls.mp hcall
  rcases op_eq_addBlock hop with ⟨answers, rfl⟩ | ⟨sender, rfl⟩
  · exact ⟨peer, answers, hi⟩
  · exact (h.sent _ _ _ (h.received _ _ _ hi)).1

theorem Traced.added_of_getBlock (h : Traced maxConcurrentSend n tr) {peer : L.PeerId}
    {s : System L} (halive : n.nodes peer = some s) {cid : L.Cid} {block : Block L.Cid}
    (hget : s.service.blockExchange.getBlock cid = some block) :
    block.cid = cid ∧ Added tr block := by
  obtain ⟨hcid, hcall⟩ := (h.tracking peer s halive).addBlock_of_getBlock hget
  exact ⟨hcid, h.added_of_call hcall⟩

/-- A block that is handed to a client has just been received. -/
theorem Traced.added_of_handed (h : Traced maxConcurrentSend n tr) {peer : L.PeerId}
    {e : Input L × List (Output L)} (he : e ∈ nodeTrace peer tr) {sender : ChanId}
    {block : Block L.Cid} (hmem : .reply sender (.blockGet (.ok block)) ∈ e.2) :
    Added tr block := by
  obtain ⟨source, hi⟩ := eq_receivedBlock_of_reply (h.caused peer e he _ hmem)
  have hreceived : .receivedBlock source block ∈ inputs peer tr := hi ▸ List.mem_map_of_mem he
  exact (h.sent _ _ _ (h.received _ _ _ hreceived)).1

/-- A step that no service takes. -/
theorem Traced.of_none (h : Traced maxConcurrentSend n tr) (a : Action L)
    (hnodes : ∀ peer s, n'.nodes peer = some s → n.nodes peer = some s) (hsent : n'.sent = n.sent)
    (hasked : n'.asked = n.asked) : Traced maxConcurrentSend n' (tr ++ [(a, none)]) where
  tracking peer s hs := by
    rw [nodeTrace_concat_none]
    exact h.tracking peer s (hnodes peer s hs)
  received peer sender block hmem := by
    rw [inputs_concat_none] at hmem
    rw [hsent]
    exact h.received peer sender block hmem
  wanted peer sender cid priority hmem := by
    rw [inputs_concat_none] at hmem
    rw [hasked]
    exact h.wanted peer sender cid priority hmem
  sent sender peer block hmem := by
    rw [hsent] at hmem
    rw [hasked]
    exact (h.sent sender peer block hmem).imp_left fun hadded => hadded.concat a none
  caused peer e he := by
    rw [nodeTrace_concat_none] at he
    exact h.caused peer e he

/-- A step of a service that is aligned. -/
theorem Traced.handled (h : Traced maxConcurrentSend n tr) {peer : L.PeerId} {i : Input L}
    {s s' : System L} {out : List (Output L)} (halive : n.nodes peer = some s)
    (hallowed : n.Allows peer i) (hs : s.step i = .ok (s', out)) (hguard : StoreAligned s i) :
    Traced maxConcurrentSend (n.handled peer s' out) (tr ++ [((peer, i), some out)]) := by
  have htracking := (h.tracking peer s halive).step_service hguard hs
  have hreceived : ∀ peer' sender block,
      .receivedBlock sender block ∈ inputs peer' (tr ++ [((peer, i), some out)]) →
      (sender, peer', block) ∈ n.sent := by
    intro peer' sender block hmem
    rcases mem_inputs_concat.mp hmem with hmem | ⟨rfl, rfl⟩
    · exact h.received peer' sender block hmem
    · exact hallowed
  have hwanted : ∀ peer' sender cid priority,
      .receivedWant sender cid priority ∈ inputs peer' (tr ++ [((peer, i), some out)]) →
      (sender, cid) ∈ n.asked := by
    intro peer' sender cid priority hmem
    rcases mem_inputs_concat.mp hmem with hmem | ⟨rfl, rfl⟩
    · exact h.wanted peer' sender cid priority hmem
    · exact hallowed
  refine ⟨fun peer' t ht => ?_, fun peer' sender block hmem =>
    List.mem_append_left _ (hreceived peer' sender block hmem),
    fun peer' sender cid priority hmem =>
    List.mem_append_left _ (hwanted peer' sender cid priority hmem), fun sender peer' block hmem => ?_,
    fun peer' e he => ?_⟩
  · by_cases hpeer : peer' = peer
    · subst hpeer
      obtain rfl : s' = t := by simpa [Network.handled] using ht
      rwa [nodeTrace_concat_self]
    · rw [nodeTrace_concat_of_ne (Ne.symm hpeer)]
      refine h.tracking peer' t ?_
      simpa [Network.handled, hpeer] using ht
  · rcases List.mem_append.mp hmem with hmem | hmem
    · obtain ⟨hadded, hasked⟩ := h.sent sender peer' block hmem
      exact ⟨hadded.concat _ _, List.mem_append_left _ hasked⟩
    · -- a new send: the block is in the store, and the node that wants it has asked
      obtain ⟨⟨_, _⟩, hsend, heq⟩ := List.mem_map.mp hmem
      cases heq
      obtain ⟨hadd, hwant⟩ := htracking.sends hs (mem_sentBlocks.mp hsend)
      rw [← nodeTrace_concat_self] at hadd hwant
      obtain ⟨j, hj, hop⟩ := mem_calls.mp hwant
      obtain ⟨priority, rfl⟩ := op_eq_addWant hop
      refine ⟨?_, List.mem_append_left _ (hwanted _ _ _ _ hj)⟩
      obtain ⟨j', hj', hop'⟩ := mem_calls.mp hadd
      rcases op_eq_addBlock hop' with ⟨answers, rfl⟩ | ⟨source, rfl⟩
      · exact ⟨_, answers, hj'⟩
      · exact (h.sent _ _ _ (hreceived _ _ _ hj')).1.concat _ _
  · by_cases hpeer : peer' = peer
    · subst hpeer
      rw [nodeTrace_concat_self] at he
      rcases List.mem_append.mp he with he | he
      · exact h.caused peer' e he
      · rw [List.mem_singleton.mp he]
        exact step_causedBy hs
    · rw [nodeTrace_concat_of_ne (Ne.symm hpeer)] at he
      exact h.caused peer' e he

theorem Traced.step (h : Traced maxConcurrentSend n tr) {a : Action L} (hguard : n.StoresAligned a)
    {o : Option (List (Output L))} (hs : n.step a = .ok (n', o)) :
    Traced maxConcurrentSend n' (tr ++ [(a, o)]) := by
  obtain ⟨peer, i⟩ := a
  cases took_of_step hs with
  | idle => exact h.of_none _ (fun _ _ => id) rfl rfl
  | panicked =>
    refine h.of_none _ (fun peer' s halive => ?_) rfl rfl
    by_cases hpeer : peer' = peer
    · simp [Network.panicked, hpeer] at halive
    · simpa [Network.panicked, hpeer] using halive
  | handled halive hallowed hstep =>
    exact h.handled halive hallowed hstep (hguard _ _ _ halive hallowed hstep)

/-! ## Blocks and their cids -/

variable (digest : Bytes → L.Cid)

/-- The cid of the block is the digest of its data. -/
def Genuine (block : Block L.Cid) : Prop := digest block.data = block.cid

/-- Clients add blocks under the digest of their data (`utils.rs`, line 114). -/
def AddsGenuine (a : Action L) : Prop :=
  ∀ answers block, a.2 = .blockAdd answers block → Genuine digest block

/-- Every block that a service has, has sent, or has handed to a client belongs to its cid. -/
structure AllGenuine (n : Network L) (tr : Trace L) : Prop where
  stored : ∀ peer s, n.nodes peer = some s → ∀ cid block,
    s.service.blockExchange.getBlock cid = some block → block.cid = cid ∧ Genuine digest block
  sent : ∀ sender peer block, (sender, peer, block) ∈ n.sent → Genuine digest block
  handed : ∀ peer, ∀ e ∈ nodeTrace peer tr, ∀ sender block,
    .reply sender (.blockGet (.ok block)) ∈ e.2 → Genuine digest block

variable {digest}

theorem Added.genuine {block : Block L.Cid} (h : Added tr block)
    (hadds : ∀ a ∈ tr.map Prod.fst, AddsGenuine digest a) : Genuine digest block := by
  obtain ⟨peer, answers, hmem⟩ := h
  exact hadds _ (mem_of_mem_inputs hmem) answers block rfl

theorem Traced.allGenuine (h : Traced maxConcurrentSend n tr)
    (hadds : ∀ a ∈ tr.map Prod.fst, AddsGenuine digest a) : AllGenuine digest n tr where
  stored _ _ halive _ _ hget :=
    (h.added_of_getBlock halive hget).imp_right fun hadded => hadded.genuine hadds
  sent sender peer block hmem := (h.sent sender peer block hmem).1.genuine hadds
  handed _ _ he _ _ hmem := (h.added_of_handed he hmem).genuine hadds

/-- A step that is not aligned stores a block under the cid of another. -/
theorem Traced.not_allGenuine (h : Traced maxConcurrentSend n tr) {peer : L.PeerId} {i : Input L}
    (hadds : ∀ a ∈ tr.map Prod.fst ++ [(peer, i)], AddsGenuine digest a) {s s' : System L}
    {out : List (Output L)} (halive : n.nodes peer = some s) (hallowed : n.Allows peer i)
    (hs : s.step i = .ok (s', out)) (hnot : ¬ StoreAligned s i) (tr' : Trace L) :
    ¬ AllGenuine digest (n.handled peer s' out) tr' := by
  intro hall
  have htracking := h.tracking peer s halive
  have hwf : s.service.blockExchange.WellFormed := htracking.wellFormed
  obtain ⟨op, hop, hmis⟩ : ∃ op, i.op = some op ∧
      ¬ BlockExchange.DataAligned s.service.blockExchange op := by
    simpa [StoreAligned] using hnot
  obtain ⟨r, -, hcall, -⟩ := exchange_of_step htracking.toSending hop hs
  cases op with
  | addBlock block =>
    rw [BlockExchange.DataAligned, not_or, not_not] at hmis
    obtain ⟨hnone, hother⟩ := hmis
    have hgenuine : Genuine digest block := by
      rcases op_eq_addBlock hop with ⟨answers, rfl⟩ | ⟨sender, rfl⟩
      · exact hadds (peer, .blockAdd answers block) (by simp) answers block rfl
      · exact (h.sent _ _ _ hallowed).1.genuine fun a ha => hadds a (List.mem_append_left _ ha)
    obtain ⟨store, hstore, -, hget, -⟩ := BlockExchange.step_addBlock_new hwf hnone
    have hnext : s'.service.blockExchange = store := by
      have hsame := hcall.symm.trans hstore
      cases hsame
      rfl
    -- the data is stored under the cid that waited first
    have hslot := hget (s.service.blockExchange.slotCid block.cid)
    rw [if_pos rfl, ← hnext] at hslot
    have halive' : (n.handled peer s' out).nodes peer = some s' := by simp [Network.handled]
    have hwrong : digest block.data = s.service.blockExchange.slotCid block.cid :=
      (hall.stored peer s' halive' _ _ hslot).2
    exact hother ((BlockExchange.slotCid_eq_iff hwf).mp (hwrong.symm.trans hgenuine))
  | _ => exact hmis trivial

/-- When clients add blocks under the digest of their data: every block that any service stores,
    sends or hands to a client belongs to its cid, at every point of a run, exactly when no service
    of the run adds a block while another cid waits for data in its store. -/
theorem genuine_iff (maxConcurrentSend : L.PeerId → ℕ) {is : List (Action L)}
    (hadds : ∀ a ∈ is, AddsGenuine digest a) :
    (∀ pre, pre <+: is → ∃ n tr, run step (new maxConcurrentSend) pre = .ok (n, tr) ∧
        AllGenuine digest n tr) ↔
      Meets step StoresAligned (new maxConcurrentSend) is := by
  refine forall_prefix_iff_meets (fun is => ∀ a ∈ is, AddsGenuine digest a)
    (fun n tr => Traced maxConcurrentSend n tr ∧ ∀ a ∈ tr.map Prod.fst, AddsGenuine digest a)
    (fun is a h b hb => h b (List.mem_append_left _ hb))
    ⟨Traced.init maxConcurrentSend, by simp⟩ ?_ ?_ ?_ hadds
  · rintro n tr a ⟨h, -⟩ hadm hguard
    obtain ⟨n', o, hs⟩ := exists_step n a
    exact ⟨n', o, hs, h.step hguard hs, by simpa using hadm⟩
  · rintro is n tr hrun ⟨h, hadm⟩
    exact ⟨n, tr, hrun, h.allGenuine hadm⟩
  · rintro is n tr ⟨peer, i⟩ hrun ⟨h, -⟩ hadm hnot ⟨n', tr', hrun', hall⟩
    unfold StoresAligned at hnot
    push Not at hnot
    obtain ⟨s, s', out, halive, hallowed, hs, hmis⟩ := hnot
    have hstep : n.step (peer, i) = .ok (n.handled peer s' out, some out) := by
      simp only [step, halive, if_pos hallowed, hs, pure_eq_ok]
    rw [run_concat_eq_ok.mpr ⟨n, tr, _, hrun, hstep, rfl⟩] at hrun'
    cases hrun'
    rw [← trace_inputs hrun] at hadm
    exact h.not_allGenuine hadm halive hallowed hs hmis _ hall

/-- Node 1 asks for the cid 3, and a client of node 0, which has heard of it, adds a block with the
    cid 1: node 0 has the data of 1 under the cid 3. -/
theorem genuine_iff_example :
    ¬ ∀ pre, pre <+: ([(1, .command Answers.nat (.blockGet 3 0)), (0, .receivedWant 1 3 0),
        (0, .blockAdd Answers.nat ⟨[7], 1⟩)] : List (Action Libp2p.nat)) →
      ∃ n tr, run step (new fun _ => 1) pre = .ok (n, tr) ∧ AllGenuine List.length n tr := by
  rw [genuine_iff (L := Libp2p.nat) (fun _ => 1)]
  · rintro ⟨-, -, hguard, -⟩
    have haligned := hguard
      ⟨{ Service.new 1 with blockExchange := ⟨[1], [0], [0], [3], []⟩ }, ∅⟩ _ _ rfl trivial rfl
      (.addBlock ⟨[7], 1⟩) rfl
    revert haligned
    decide
  · intro a ha answers block heq
    simp only [List.mem_cons, List.not_mem_nil, or_false] at ha
    rcases ha with rfl | rfl | rfl <;> cases heq
    rfl

/-! ## Where blocks come from -/

/-- As long as no service adds a block while another cid waits for data: every block that was sent to
    a node was added by a client of some node, and the node has called `want_block` for its cid; the
    blocks in a store and those handed to clients were added too, and the wants in a store are calls
    of `want_block`. -/
theorem provenance (maxConcurrentSend : L.PeerId → ℕ) {is : List (Action L)}
    (hguard : Meets step StoresAligned (new maxConcurrentSend) is) :
    ∃ n tr, run step (new maxConcurrentSend) is = .ok (n, tr) ∧
      (∀ sender peer block, (sender, peer, block) ∈ n.sent →
        Added tr block ∧ (peer, block.cid) ∈ n.asked) ∧
      (∀ peer s, n.nodes peer = some s →
        (∀ cid block, s.service.blockExchange.getBlock cid = some block →
          block.cid = cid ∧ Added tr block) ∧
        ∀ w ∈ s.service.blockExchange.wants, w ∈ n.asked) ∧
      ∀ peer, ∀ e ∈ nodeTrace peer tr, ∀ sender block,
        .reply sender (.blockGet (.ok block)) ∈ e.2 → Added tr block := by
  obtain ⟨n, tr, hrun, h⟩ := run_induction (fun _ => True) (Traced maxConcurrentSend)
    (fun _ _ _ => trivial) (Traced.init maxConcurrentSend) (fun n tr a h _ hguard => by
      obtain ⟨n', o, hs⟩ := exists_step n a
      exact ⟨n', o, hs, h.step hguard hs⟩) trivial hguard
  refine ⟨n, tr, hrun, h.sent, fun peer s halive =>
    ⟨fun cid block hget => h.added_of_getBlock halive hget, fun w hw => ?_⟩,
    fun peer e he sender block hmem => h.added_of_handed he hmem⟩
  rw [(h.tracking peer s halive).wants_eq_outstanding] at hw
  obtain ⟨i, hi, hop⟩ := mem_calls.mp (BlockExchange.addWant_mem_of_outstanding hw)
  obtain ⟨priority, rfl⟩ := op_eq_addWant hop
  exact h.wanted _ _ _ _ hi

/-- A block goes from the client of node 0 to that of node 1. -/
theorem provenance_example : ∃ n tr, run step (new fun _ => 1)
      ([(0, .blockAdd Answers.nat ⟨[7], 1⟩), (1, .command Answers.nat (.blockGet 1 0)),
        (0, .receivedWant 1 1 0), (1, .receivedBlock 0 ⟨[7], 1⟩)] : List (Action Libp2p.nat)) =
        .ok (n, tr) ∧
      ∀ sender peer block, (sender, peer, block) ∈ n.sent → (peer, block.cid) ∈ n.asked := by
  have hguard : Meets step StoresAligned (new fun _ => 1)
      ([(0, .blockAdd Answers.nat ⟨[7], 1⟩), (1, .command Answers.nat (.blockGet 1 0)),
        (0, .receivedWant 1 1 0), (1, .receivedBlock 0 ⟨[7], 1⟩)] :
        List (Action Libp2p.nat)) := by
    refine ⟨?_, ?_, ?_, ?_, trivial⟩ <;> rintro s s' out halive - - op hop <;> cases halive <;>
      cases hop <;> decide
  obtain ⟨n, tr, hrun, hsent, -⟩ := provenance (fun _ => 1) hguard
  exact ⟨n, tr, hrun, fun sender peer block hmem => (hsent sender peer block hmem).2⟩

end Network

end LiveTest
