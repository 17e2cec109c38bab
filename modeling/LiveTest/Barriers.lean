import Mathlib.Data.Fintype.Card
import Mathlib.Logic.Function.Basic

/-!
# Counting barriers

Parties walk along a line of positions. At the position `lo k` a party signals
barrier `k`, once; it goes on to the position `hi k` only when as many signals
of `k` are counted as there are parties.

* `Sound.advance`: a party that walks on and keeps to this keeps the counts
  equal to the numbers of parties that have signalled, and the barriers closed.
* `Sound.signalled`: once one party is behind a barrier, all have signalled it.
-/

namespace Barriers

variable {ι κ : Type} [Fintype ι]

/-- The parties at a position or further. -/
def reached (pos : ι → ℕ) (p : ℕ) : Finset ι := Finset.univ.filter fun i => p ≤ pos i

/-- Every signal is counted, and no party is behind a barrier that a party has still to signal. -/
structure Sound (lo hi : κ → ℕ) (pos : ι → ℕ) (count : κ → ℕ) : Prop where
  counted : ∀ k, count k = (reached pos (lo k)).card
  signalled : ∀ k i, hi k ≤ pos i → ∀ j, lo k ≤ pos j

@[simp] theorem mem_reached {pos : ι → ℕ} {p : ℕ} {i : ι} : i ∈ reached pos p ↔ p ≤ pos i := by
  simp [reached]

theorem reached_eq_univ {pos : ι → ℕ} {p : ℕ} : reached pos p = Finset.univ ↔ ∀ i, p ≤ pos i := by
  simp [Finset.eq_univ_iff_forall]

section

variable [DecidableEq ι] {pos : ι → ℕ} {i : ι} {q : ℕ}

omit [Fintype ι] in
theorem le_update (hle : pos i ≤ q) (j : ι) : pos j ≤ Function.update pos i q j := by
  rcases eq_or_ne j i with rfl | hj
  · rwa [Function.update_self]
  · rw [Function.update_of_ne hj]

/-- A party that walks on comes to the positions from the one it has left to its new one. -/
theorem card_reached_update (hle : pos i ≤ q) (p : ℕ) :
    (reached (Function.update pos i q) p).card =
      (reached pos p).card + if pos i < p ∧ p ≤ q then 1 else 0 := by
  split_ifs with h
  · have hi : i ∉ reached pos p := by rw [mem_reached]; omega
    rw [← Finset.card_insert_of_notMem hi]
    congr 1
    ext j
    rcases eq_or_ne j i with rfl | hj
    · simp [h.2]
    · simp [hj]
  · congr 1
    ext j
    rcases eq_or_ne j i with rfl | hj
    · rw [mem_reached, mem_reached, Function.update_self]
      omega
    · simp [hj]

end

/-! ## Open barriers -/

variable {lo hi : κ → ℕ} {pos : ι → ℕ} {count : κ → ℕ}

/-- A barrier opens exactly when all have signalled it. -/
theorem Sound.card_le_iff (h : Sound lo hi pos count) (k : κ) :
    Fintype.card ι ≤ count k ↔ ∀ i, lo k ≤ pos i := by
  rw [h.counted, ← reached_eq_univ, ← Finset.card_eq_iff_eq_univ]
  have := Finset.card_le_univ (reached pos (lo k))
  omega

theorem sound_zero (hlo : ∀ k, 0 < lo k) (hlt : ∀ k, lo k < hi k) :
    Sound lo hi (fun _ : ι => 0) fun _ => 0 where
  counted k := by
    symm
    rw [Finset.card_eq_zero, Finset.eq_empty_iff_forall_notMem]
    intro i hi
    have := mem_reached.mp hi
    have := hlo k
    omega
  signalled k i hi := by
    have := hlt k
    omega

theorem Sound.advance [DecidableEq ι] (h : Sound lo hi pos count) {i : ι} {q : ℕ}
    {count' : κ → ℕ} (hle : pos i ≤ q)
    (hcount : ∀ k, count' k = count k + if pos i < lo k ∧ lo k ≤ q then 1 else 0)
    (hopen : ∀ k, hi k ≤ q → hi k ≤ pos i ∨ Fintype.card ι ≤ count k) :
    Sound lo hi (Function.update pos i q) count' where
  counted k := by rw [hcount, h.counted, card_reached_update hle]
  signalled k j hj := by
    have hall : ∀ l, lo k ≤ pos l := by
      rcases eq_or_ne j i with rfl | hne
      · rw [Function.update_self] at hj
        rcases hopen k hj with hpos | hcard
        · exact h.signalled k j hpos
        · exact (h.card_le_iff k).mp hcard
      · rw [Function.update_of_ne hne] at hj
        exact h.signalled k j hj
    intro l
    exact (hall l).trans (le_update hle l)

end Barriers
