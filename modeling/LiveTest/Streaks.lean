import Mathlib.Data.List.DropRight

/-!
# Streaks

A history of successes and failures, the newest last, and the streaks of
failures in it.

* `eq_of_ended_concat`: a success ends the current streak and no other.
* `dvd_of_ended_concat`: as long as successes come after a multiple of `d`
  failures, every streak that has ended is a multiple of `d`.
-/

namespace Streaks

/-- The length of the current streak: the failures since the last success, or since the start. -/
def current (l : List Bool) : ℕ := (l.rtakeWhile (! ·)).length

/-- A streak of `k` failures that a success ended. -/
def Ended (l : List Bool) (k : ℕ) : Prop :=
  0 < k ∧ ∃ before after, l = before ++ List.replicate k false ++ true :: after ∧
    before.getLast? ≠ some false

@[simp] theorem current_concat_true (l : List Bool) : current (l ++ [true]) = 0 := by
  rw [current, List.rtakeWhile_concat_neg (! ·) l true (by simp)]
  rfl

@[simp] theorem current_concat_false (l : List Bool) :
    current (l ++ [false]) = current l + 1 := by
  rw [current, List.rtakeWhile_concat_pos (! ·) l false rfl, List.length_append]
  rfl

/-- The current streak, when the failures are preceded by none. -/
theorem current_append_replicate {l : List Bool} (h : l.getLast? ≠ some false) (k : ℕ) :
    current (l ++ List.replicate k false) = k := by
  induction k with
  | zero =>
    rw [List.replicate_zero, List.append_nil]
    rcases List.eq_nil_or_concat' l with rfl | ⟨init, last, rfl⟩
    · rfl
    · cases last with
      | true => exact current_concat_true init
      | false => exact absurd List.getLast?_concat h
  | succ k ih =>
    rw [List.replicate_succ', ← List.append_assoc, current_concat_false, ih]

theorem not_ended_nil (k : ℕ) : ¬ Ended [] k := by
  rintro ⟨-, before, after, h, -⟩
  simp at h

/-- What has ended after another entry had ended before, unless a success ends the current streak. -/
theorem eq_of_ended_concat {l : List Bool} {b : Bool} {k : ℕ} (h : Ended (l ++ [b]) k) :
    Ended l k ∨ b = true ∧ k = current l := by
  obtain ⟨hk, before, after, hl, hbefore⟩ := h
  rcases List.eq_nil_or_concat' after with rfl | ⟨after, last, rfl⟩
  · obtain ⟨rfl, hb⟩ := List.append_inj' hl rfl
    right
    exact ⟨by simpa using hb, (current_append_replicate hbefore k).symm⟩
  · left
    rw [← List.cons_append, ← List.append_assoc] at hl
    exact ⟨hk, before, after, (List.append_inj' hl rfl).1, hbefore⟩

/-- The step of an induction over the history. -/
theorem dvd_of_ended_concat {l : List Bool} {b : Bool} {d : ℕ} (h : ∀ k, Ended l k → d ∣ k)
    (hb : b = true → d ∣ current l) : ∀ k, Ended (l ++ [b]) k → d ∣ k := by
  intro k hk
  rcases eq_of_ended_concat hk with hold | ⟨htrue, rfl⟩
  · exact h k hold
  · exact hb htrue

end Streaks
