import LiveTest.BlockExchange.Settled
import LiveTest.Service.Isolation

/-!
# A service that is asked only for what it has

When every `ReceivedWant` is for a block that is in the store, no cid ever waits
for data, and nothing that goes wrong with such cids can happen.

* `Serving.step`: the invariant, step by step, over any other inputs.
* `Serving.getBlock_eq`, `Serving.wants_eq`, `Serving.wants_eq_nil`: the store is what was
  added to it first, the wants are the outstanding ones, and with nothing in
  flight there are none.
-/

namespace LiveTest

open Rust Machine

variable {L : Libp2p}

/-- The guard of a step: a `ReceivedWant` is for a block that is in the store. -/
def WantsHeld (s : System L) : Input L → Prop
  | .receivedWant _ cid _ => s.service.blockExchange.getBlock cid ≠ none
  | _ => True

/-- The invariant. -/
structure Serving (maxConcurrentSend : ℕ) (s : System L) (tr : List (Input L × List (Output L))) :
    Prop where
  settled : s.service.blockExchange.Settled
  tracking : Tracking maxConcurrentSend s.exchangePart (exchangeTrace tr)
  attending : 1 ≤ maxConcurrentSend → Attending maxConcurrentSend s.exchangePart (exchangeTrace tr)

theorem Serving.init (maxConcurrentSend : ℕ) :
    Serving maxConcurrentSend (System.new maxConcurrentSend : System L) [] where
  settled := BlockExchange.Settled.default
  tracking := Tracking.init maxConcurrentSend
  attending := fun _ => ⟨Sending.init maxConcurrentSend, fun _ w hw => by cases hw⟩

section Step

variable {maxConcurrentSend : ℕ} {s s' : System L} {tr : List (Input L × List (Output L))}
  {i : Input L} {out : List (Output L)}

/-- An input of the exchange. -/
theorem Serving.exchange (h : Serving maxConcurrentSend s tr) (hi : i.IsExchange)
    (hguard : WantsHeld s i) (hstep : s.step i = .ok (s', out)) :
    s'.service.blockExchange.Settled ∧ (1 ≤ maxConcurrentSend →
      Attending maxConcurrentSend s'.exchangePart (exchangeTrace (tr ++ [(i, out)]))) := by
  have hwf := h.tracking.wellFormed
  obtain ⟨op, hop⟩ := Option.ne_none_iff_exists'.mp hi
  obtain ⟨r, wanted, hcall, -⟩ := exchange_of_step h.tracking.toSending hop hstep
  refine ⟨(h.settled.step hwf ?_ hcall).1, fun hmax => ?_⟩
  · rintro p c rfl
    unfold Input.op at hop
    split at hop <;> cases hop
    exact hguard
  · have hattended : WantAttended s.exchangePart i := by
      unfold WantAttended
      split
      · exact .inr (.inr (h.settled.slotUnwanted hwf _))
      · trivial
    obtain ⟨t, out', ht, hattending⟩ := (h.attending hmax).step hmax hi hattended
    rw [step_exchangePart hi hstep] at ht
    cases ht
    rwa [exchangeTrace_concat, if_pos hi]

theorem Serving.step (h : Serving maxConcurrentSend s tr) (hguard : WantsHeld s i)
    (hstep : s.step i = .ok (s', out)) : Serving maxConcurrentSend s' (tr ++ [(i, out)]) := by
  have htracking := h.tracking.step_service (fun op _ => h.settled.dataAligned op) hstep
  by_cases hi : i.IsExchange
  · obtain ⟨hsettled, hattending⟩ := h.exchange hi hguard hstep
    exact ⟨hsettled, htracking, hattending⟩
  · have hapart := step_apart hi hstep
    refine ⟨hapart.blockExchange ▸ h.settled, htracking, fun hmax => ?_⟩
    rw [exchangeTrace_concat, if_neg hi, List.append_nil, hapart.exchangePart]
    exact h.attending hmax

end Step

section Account

variable {maxConcurrentSend : ℕ} {s : System L} {tr : List (Input L × List (Output L))}

/-- The store has the first data that was added or received under each cid. -/
theorem Serving.getBlock_eq (h : Serving maxConcurrentSend s tr) (c : L.Cid) :
    s.service.blockExchange.getBlock c =
      (BlockExchange.firstAdded (calls (tr.map Prod.fst)) c).map fun data => ⟨data, c⟩ :=
  h.tracking.getBlock_eq_firstAdded c

theorem Serving.held_of_added (h : Serving maxConcurrentSend s tr) {block : Block L.Cid}
    (hadded : .addBlock block ∈ calls (tr.map Prod.fst)) :
    s.service.blockExchange.getBlock block.cid ≠ none := by
  rw [h.getBlock_eq, ne_eq, Option.map_eq_none_iff, BlockExchange.firstAdded_eq_none_iff]
  exact fun hno => hno block hadded rfl

/-- The want list is the outstanding wants. -/
theorem Serving.wants_eq (h : Serving maxConcurrentSend s tr) :
    s.service.blockExchange.wants = BlockExchange.outstanding (calls (tr.map Prod.fst)) :=
  h.tracking.wants_eq_outstanding

/-- With nothing in flight, nobody wants anything. -/
theorem Serving.wants_eq_nil (h : Serving maxConcurrentSend s tr) (hmax : 1 ≤ maxConcurrentSend)
    (hnone : s.service.pendingSendBlock = ∅) : s.service.blockExchange.wants = [] := by
  refine List.eq_nil_iff_forall_not_mem.mpr fun w hw => ?_
  obtain ⟨i, -, hi⟩ := BlockExchange.exists_index_of_mem_wants hw
  have hheld := h.settled.mem_cids_iff.mp (List.mem_of_getElem? hi)
  exact hheld ((h.attending hmax).attended hnone w hw)

end Account

end LiveTest
