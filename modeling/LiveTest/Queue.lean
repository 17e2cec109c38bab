import Mathlib.Data.Finset.Basic
import Mathlib.Data.List.TakeWhile
import Mathlib.Tactic.Common

/-!
# Waiting in a queue

A queue whose entries are served in order, while some of them, the `busy` ones,
are being served already. `ahead` counts who comes before an entry and is not
being served; the lemmas say what each change of the queue does to it.

`level` is the length of a queue that entries join and leave one by one.

* `level_le_iff`: it is at most `b` exactly when in every stretch up to now at
  most `b` more joined than could leave.
* `balanced_concat_leave`: it was after every entry that left exactly when that holds
  of every stretch that ends so.
-/

namespace Queue

variable {α : Type} [DecidableEq α] {l : List α} {busy : Finset α} {w : α}

/-- How many entries before the first `w` are not being served. -/
def ahead (l : List α) (busy : Finset α) (w : α) : ℕ :=
  (l.takeWhile fun v => v ≠ w).countP fun v => v ∉ busy

/-- Who joins behind `w` is not ahead of it. -/
theorem ahead_append (h : w ∈ l) (l' : List α) : ahead (l ++ l') busy w = ahead l busy w := by
  unfold ahead
  rw [List.takeWhile_append, if_neg]
  intro hlen
  have hall := List.takeWhile_eq_self_iff.mp (List.takeWhile_prefix _ |>.eq_of_length hlen)
  simpa using hall w h

/-- Who leaves is no longer ahead of `w`. -/
theorem ahead_filter_le (v : α) (h : v ≠ w) :
    ahead (l.filter fun x => x ≠ v) (busy.erase v) w ≤ ahead l busy w := by
  induction l with
  | nil => exact le_rfl
  | cons x l ih =>
    unfold ahead at ih ⊢
    by_cases hv : x = v
    · subst hv
      rw [List.filter_cons_of_neg (by simp), List.takeWhile_cons_of_pos (by simpa using h),
        List.countP_cons]
      omega
    · rw [List.filter_cons_of_pos (by simpa using hv)]
      by_cases hw : x = w
      · rw [List.takeWhile_cons_of_neg (by simpa using hw)]
        exact Nat.zero_le _
      · rw [List.takeWhile_cons_of_pos (by simpa using hw),
          List.takeWhile_cons_of_pos (by simpa using hw), List.countP_cons, List.countP_cons]
        have hbusy : x ∉ busy.erase v ↔ x ∉ busy := by simp [hv]
        simp only [hbusy]
        omega

/-- A renaming of the entries that does not touch `w`, or who is being served. -/
theorem ahead_map (f : α → α) (hw : ∀ x ∈ l, f x = w ↔ x = w)
    (hbusy : ∀ x ∈ l, f x ∈ busy ↔ x ∈ busy) : ahead (l.map f) busy w = ahead l busy w := by
  induction l with
  | nil => rfl
  | cons x l ih =>
    have hrest := ih (fun y hy => hw y (List.mem_cons_of_mem x hy))
      (fun y hy => hbusy y (List.mem_cons_of_mem x hy))
    have hx := hw x List.mem_cons_self
    have hb := hbusy x List.mem_cons_self
    unfold ahead at hrest ⊢
    rw [List.map_cons]
    by_cases heq : x = w
    · rw [List.takeWhile_cons_of_neg (by simpa using hx.mpr heq),
        List.takeWhile_cons_of_neg (by simpa using heq)]
    · rw [List.takeWhile_cons_of_pos (by simpa using fun h => heq (hx.mp h)),
        List.takeWhile_cons_of_pos (by simpa using heq), List.countP_cons, List.countP_cons, hrest]
      simp only [hb]

/-- Who is served next was ahead of `w`, when `w` does not come before it. -/
theorem ahead_insert_lt {earlier later : List α} {v : α} (hl : l = earlier ++ v :: later)
    (hearlier : w ∉ earlier) (hv : v ≠ w) (hbusy : v ∉ busy) :
    ahead l (insert v busy) w + 1 ≤ ahead l busy w := by
  have hall : ∀ x ∈ earlier, decide (x ≠ w) = true := by
    intro x hx
    have : x ≠ w := fun h => hearlier (h ▸ hx)
    simpa using this
  have hle : ∀ m : List α, (m.countP fun x => x ∉ insert v busy) ≤ m.countP fun x => x ∉ busy := by
    intro m
    apply List.countP_mono_left
    intro x _ hx
    have : x ∉ insert v busy := of_decide_eq_true hx
    exact decide_eq_true fun h => this (Finset.mem_insert_of_mem h)
  unfold ahead
  rw [hl, List.takeWhile_append_of_pos hall, List.takeWhile_cons_of_pos (by simpa using hv),
    List.countP_append, List.countP_append, List.countP_cons, List.countP_cons]
  have h₁ := hle earlier
  have h₂ := hle (later.takeWhile fun x => x ≠ w)
  have hin : (decide (v ∉ insert v busy)) = false := by simp
  have hout : (decide (v ∉ busy)) = true := by simpa using hbusy
  simp only [hin, hout, Bool.false_eq_true, if_false, if_true]
  omega

/-! ## The length of a queue -/

/-- An entry joins, or the first one leaves, if there is one. -/
inductive Move where
  | join
  | leave
  deriving DecidableEq

/-- The length after a move. -/
def Move.next (n : ℕ) : Move → ℕ
  | .join => n + 1
  | .leave => n - 1

/-- The length of a queue that was empty, after some moves. -/
def level (moves : List Move) : ℕ := moves.foldl Move.next 0

theorem level_concat (moves : List Move) (m : Move) :
    level (moves ++ [m]) = m.next (level moves) := by
  rw [level, List.foldl_append]
  rfl

theorem level_le_iff {moves : List Move} {b : ℕ} :
    level moves ≤ b ↔ ∀ stretch, stretch <:+ moves →
      stretch.count .join ≤ stretch.count .leave + b := by
  induction moves using List.reverseRecOn generalizing b with
  | nil => simp [level]
  | append_singleton moves m ih =>
    have hsplit : (∀ stretch, stretch <:+ moves ++ [m] →
        stretch.count .join ≤ stretch.count .leave + b) ↔
        ∀ stretch, stretch <:+ moves →
          (stretch ++ [m]).count .join ≤ (stretch ++ [m]).count .leave + b := by
      constructor
      · intro h stretch hs
        exact h _ (List.suffix_concat_iff.mpr (.inr ⟨stretch, rfl, hs⟩))
      · intro h stretch hs
        rcases List.suffix_concat_iff.mp hs with rfl | ⟨stretch', rfl, hs'⟩
        · simp
        · exact h stretch' hs'
    rw [hsplit, level_concat]
    cases m with
    | leave =>
      -- one more can be there before
      have hnext : Move.next (level moves) .leave ≤ b ↔ level moves ≤ b + 1 :=
        Nat.sub_le_iff_le_add
      rw [hnext, ih]
      simp only [List.count_append, List.count_singleton]
      refine forall₂_congr fun stretch _ => ?_
      simp
      omega
    | join =>
      cases b with
      | zero =>
        refine iff_of_false (Nat.not_succ_le_zero _) fun h => ?_
        simpa using h [] (List.nil_suffix)
      | succ b =>
        have hnext : Move.next (level moves) .join ≤ b + 1 ↔ level moves ≤ b :=
          Nat.succ_le_succ_iff
        rw [hnext, ih]
        refine forall₂_congr fun stretch _ => ?_
        simp
        omega

/-- In every stretch that ends as an entry leaves, at most `b` more joined than could leave. -/
def Balanced (b : ℕ) (moves : List Move) : Prop :=
  ∀ stretch, stretch ++ [Move.leave] <:+: moves →
    (stretch ++ [Move.leave]).count .join ≤ (stretch ++ [Move.leave]).count .leave + b

theorem balanced_nil (b : ℕ) : Balanced b [] := by
  intro stretch h
  simp at h

theorem balanced_concat_join {b : ℕ} {moves : List Move} :
    Balanced b (moves ++ [.join]) ↔ Balanced b moves := by
  refine forall_congr' fun stretch => imp_congr_left ?_
  rw [List.infix_concat_iff, or_iff_right]
  rintro ⟨before, h⟩
  rw [← List.append_assoc] at h
  simpa using (List.append_inj' h rfl).2

theorem balanced_concat_leave {b : ℕ} {moves : List Move} :
    Balanced b (moves ++ [.leave]) ↔ Balanced b moves ∧ level (moves ++ [.leave]) ≤ b := by
  rw [level_le_iff]
  constructor
  · refine fun h => ⟨fun stretch hs => h stretch (hs.trans (List.infix_append' [] moves _)), ?_⟩
    intro stretch hs
    rcases List.suffix_concat_iff.mp hs with rfl | ⟨stretch', rfl, -⟩
    · simp
    · exact h stretch' hs.isInfix
  · rintro ⟨hbefore, hnow⟩ stretch hs
    rcases List.infix_concat_iff.mp hs with hs | hs
    · exact hnow _ hs
    · exact hbefore stretch hs

end Queue
