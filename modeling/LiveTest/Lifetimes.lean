import Mathlib.Data.List.Basic

/-!
# What is live in a history

The steps of a history open entries, close entries and cut entries off. An entry
is live from the step that opens it until a step closes it or cuts it off;
closing counts at any time, cutting off only from the opening step on.

* `live_concat`: one more step, when what it opens has not been closed before.
-/

namespace Lifetimes

variable {α : Type}

/-- What a step does. -/
structure Step (α : Type) where
  opens : List α
  closes : List α
  cuts : α → Bool

/-- What the steps of a history have closed. -/
def closed (h : List (Step α)) : List α := h.flatMap Step.closes

/-- `a` was opened, it has not been closed, and no step from its opening on has cut it off. -/
def Live (h : List (Step α)) (a : α) : Prop :=
  a ∉ closed h ∧
    ∃ before s after, h = before ++ s :: after ∧ a ∈ s.opens ∧ ∀ t ∈ s :: after, t.cuts a = false

theorem closed_concat (h : List (Step α)) (s : Step α) :
    closed (h ++ [s]) = closed h ++ s.closes := by
  rw [closed, List.flatMap_append, List.flatMap_singleton, closed]

theorem not_live_nil (a : α) : ¬ Live [] a := by
  rintro ⟨-, before, s, after, h, -⟩
  simp at h

/-- A step keeps live what it neither closes nor cuts off, and makes what it opens live. -/
theorem live_concat {h : List (Step α)} {s : Step α} {a : α}
    (hfresh : a ∈ s.opens → a ∉ closed h) :
    Live (h ++ [s]) a ↔ (Live h a ∨ a ∈ s.opens) ∧ a ∉ s.closes ∧ s.cuts a = false := by
  constructor
  · rintro ⟨hclosed, before, t, after, hh, hopens, hcuts⟩
    rw [closed_concat, List.mem_append, not_or] at hclosed
    rcases List.eq_nil_or_concat' after with rfl | ⟨after, last, rfl⟩
    · obtain ⟨rfl, hst⟩ := List.append_inj' hh rfl
      obtain rfl : s = t := (List.cons.inj hst).1
      exact ⟨.inr hopens, hclosed.2, hcuts s (by simp)⟩
    · rw [← List.cons_append, ← List.append_assoc] at hh
      obtain ⟨rfl, hlast⟩ := List.append_inj' hh rfl
      obtain rfl : s = last := (List.cons.inj hlast).1
      refine ⟨.inl ⟨hclosed.1, before, t, after, rfl, hopens, fun u hu => hcuts u ?_⟩, hclosed.2,
        hcuts s (by simp)⟩
      rw [← List.cons_append]
      exact List.mem_append_left _ hu
  · rintro ⟨hlive, hcloses, hcuts⟩
    rcases hlive with ⟨hclosed, before, t, after, rfl, hopens, hold⟩ | hopens
    · refine ⟨?_, before, t, after ++ [s], by simp, hopens, fun u hu => ?_⟩
      · rw [closed_concat, List.mem_append, not_or]
        exact ⟨hclosed, hcloses⟩
      · rw [← List.cons_append, List.mem_append, List.mem_singleton] at hu
        rcases hu with hu | rfl
        · exact hold u hu
        · exact hcuts
    · refine ⟨?_, h, s, [], rfl, hopens, fun u hu => ?_⟩
      · rw [closed_concat, List.mem_append, not_or]
        exact ⟨hfresh hopens, hcloses⟩
      · rw [List.mem_singleton.mp hu]
        exact hcuts

end Lifetimes
