import Mathlib.Data.List.Basic
import Mathlib.Logic.Function.Basic

/-!
# Tables with one waiting token a key

A token waits under a key. A touch of a key answers the token that waits there,
if there is one, and puts the token it brings, if it brings one, in its place.

* `answersTo_eq`: a token is answered once, with the result of the first later
  touch of its key, and not at all without one.
-/

namespace OneSlot

variable {Key Tok Res : Type}

/-- A touch of `key`: the result for the token that waits, and the token that waits from then on. -/
structure Touch (Key Tok Res : Type) where
  key : Key
  res : Res
  tok : Option Tok

variable [DecidableEq Key]

/-- The table after a touch. -/
def after (slots : Key → Option Tok) (t : Touch Key Tok Res) : Key → Option Tok :=
  Function.update slots t.key t.tok

/-- The answer that a touch gives. -/
def answer (slots : Key → Option Tok) (t : Touch Key Tok Res) : List (Tok × Res) :=
  (slots t.key).toList.map fun tok => (tok, t.res)

/-- The answers that a history gives, from a table. -/
def answers : (Key → Option Tok) → List (Touch Key Tok Res) → List (Tok × Res)
  | _, [] => []
  | slots, t :: ts => answer slots t ++ answers (after slots t) ts

theorem answers_append (slots : Key → Option Tok) (ts us : List (Touch Key Tok Res)) :
    answers slots (ts ++ us) = answers slots ts ++ answers (ts.foldl after slots) us := by
  induction ts generalizing slots with
  | nil => rfl
  | cons t ts ih => rw [List.cons_append, answers, ih, answers, List.foldl_cons, List.append_assoc]

variable [DecidableEq Tok] {tok : Tok} {slots : Key → Option Tok} {ts : List (Touch Key Tok Res)}

/-- The results that a token is answered with. -/
def answersTo (tok : Tok) (as : List (Tok × Res)) : List Res :=
  as.filterMap fun a => if a.1 = tok then some a.2 else none

omit [DecidableEq Key] in
theorem answersTo_append (tok : Tok) (as bs : List (Tok × Res)) :
    answersTo tok (as ++ bs) = answersTo tok as ++ answersTo tok bs := List.filterMap_append

omit [DecidableEq Key] in
theorem answersTo_answer (tok : Tok) (slots : Key → Option Tok) (t : Touch Key Tok Res) :
    answersTo tok (answer slots t) = if slots t.key = some tok then [t.res] else [] := by
  unfold answer
  cases h : slots t.key with
  | none => simp [answersTo]
  | some waiting => by_cases heq : waiting = tok <;> simp [answersTo, heq]

omit [DecidableEq Tok] in
theorem after_ne {t : Touch Key Tok Res} (hslots : ∀ k, slots k ≠ some tok)
    (ht : t.tok ≠ some tok) (k : Key) : after slots t k ≠ some tok := by
  rw [after, Function.update_apply]
  split_ifs
  · exact ht
  · exact hslots k

omit [DecidableEq Tok] in
/-- A token that no touch brings does not get into the table. -/
theorem foldl_after_ne (hslots : ∀ k, slots k ≠ some tok) (hts : ∀ t ∈ ts, t.tok ≠ some tok)
    (k : Key) : ts.foldl after slots k ≠ some tok := by
  induction ts generalizing slots with
  | nil => exact hslots k
  | cons t ts ih =>
    rw [List.foldl_cons]
    exact ih (after_ne hslots (hts t (by simp))) fun t' ht' => hts t' (by simp [ht'])

/-- A token that neither waits nor arrives is not answered. -/
theorem answersTo_absent (hslots : ∀ k, slots k ≠ some tok) (hts : ∀ t ∈ ts, t.tok ≠ some tok) :
    answersTo tok (answers slots ts) = [] := by
  induction ts generalizing slots with
  | nil => rfl
  | cons t ts ih =>
    rw [answers, answersTo_append, answersTo_answer, if_neg (hslots t.key), List.nil_append]
    exact ih (after_ne hslots (hts t (by simp))) fun t' ht' => hts t' (by simp [ht'])

/-- A token that waits under `k` alone is answered by the first touch of `k`. -/
theorem answersTo_waiting {k : Key} (hslot : slots k = some tok)
    (hother : ∀ k', slots k' = some tok → k' = k) (hts : ∀ t ∈ ts, t.tok ≠ some tok) :
    answersTo tok (answers slots ts) = ((ts.find? fun t => t.key = k).map Touch.res).toList := by
  induction ts generalizing slots with
  | nil => rfl
  | cons t ts ih =>
    have ht : t.tok ≠ some tok := hts t (by simp)
    have hts' : ∀ t' ∈ ts, t'.tok ≠ some tok := fun t' ht' => hts t' (by simp [ht'])
    rw [answers, answersTo_append, answersTo_answer]
    by_cases hk : t.key = k
    · have hgone : ∀ k', after slots t k' ≠ some tok := by
        intro k'
        rw [after, Function.update_apply]
        split_ifs with hk'
        · exact ht
        · exact fun hs => hk' ((hother k' hs).trans hk.symm)
      rw [hk, if_pos hslot, answersTo_absent hgone hts', List.find?_cons_of_pos (by simpa using hk)]
      rfl
    · have hslot' : after slots t k = some tok := by
        rw [after, Function.update_of_ne (Ne.symm hk)]
        exact hslot
      have hother' : ∀ k', after slots t k' = some tok → k' = k := by
        intro k' hs
        rw [after, Function.update_apply] at hs
        split_ifs at hs
        · exact absurd hs ht
        · exact hother k' hs
      rw [if_neg fun hs => hk (hother t.key hs), List.nil_append, ih hslot' hother' hts',
        List.find?_cons_of_neg (by simpa using hk)]

/-- In a history from an empty table, a token that is brought once is answered by the first later
    touch of its key. -/
theorem answersTo_eq {earlier later : List (Touch Key Tok Res)} {k : Key} {r : Res}
    (hearlier : ∀ t ∈ earlier, t.tok ≠ some tok) (hlater : ∀ t ∈ later, t.tok ≠ some tok) :
    answersTo tok (answers (fun _ => none) (earlier ++ ⟨k, r, some tok⟩ :: later)) =
      ((later.find? fun t => t.key = k).map Touch.res).toList := by
  have hnone : ∀ k', earlier.foldl after (fun _ => none) k' ≠ some tok :=
    foldl_after_ne (by simp) hearlier
  rw [answers_append, answersTo_append, answersTo_absent (by simp) hearlier, List.nil_append,
    answers, answersTo_append, answersTo_answer, if_neg (hnone k), List.nil_append]
  refine answersTo_waiting ?_ ?_ hlater
  · rw [after, Function.update_self]
  · intro k' hs
    rw [after, Function.update_apply] at hs
    split_ifs at hs with hk
    · exact hk
    · exact absurd hs (hnone k')

end OneSlot
