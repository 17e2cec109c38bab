import Mathlib.Data.List.Nodup
import Mathlib.Logic.Equiv.Basic
import Mathlib.Tactic.Ring

/-!
# Panicking operations of the Rust standard library

A computation that can panic is an `Except Panic`. `Vec` and `VecDeque` are
lists; the operations here are the ones whose call panics when an index is out
of range, together with the conditions under which they do not.
-/

namespace Rust

/-- Why a thread panics. -/
inductive Panic where
  /-- An index, a removal or a swap past the end of a vector. -/
  | indexOutOfBounds
  /-- An operation on integers that overflows. -/
  | addOverflow
  | multiplyOverflow
  | subtractOverflow
  /-- `unwrap` of a `None`. -/
  | unwrapNone
  /-- `expect(msg)` of a `None` or an `Err`. -/
  | expect (msg : String)
  deriving DecidableEq, Repr

universe u

variable {α β : Type u} {ε : Type*}

/-! ## The error monad -/

theorem bind_eq_ok {x : Except ε α} {f : α → Except ε β} {b : β} :
    (x >>= f) = .ok b ↔ ∃ a, x = .ok a ∧ f a = .ok b := by
  cases x with
  | error e =>
    constructor
    · intro h; cases h
    · rintro ⟨a, h, -⟩; cases h
  | ok a =>
    constructor
    · intro h; exact ⟨a, rfl, h⟩
    · rintro ⟨a', ⟨⟩, h⟩; exact h

@[simp] theorem ok_bind (a : α) (f : α → Except ε β) : (Except.ok a >>= f) = f a := rfl

@[simp] theorem error_bind (e : ε) (f : α → Except ε β) : (Except.error e >>= f) = .error e := rfl

@[simp] theorem pure_eq_ok (a : α) : (pure a : Except ε α) = .ok a := rfl

/-- Where nothing that follows fails. -/
theorem bind_returns_iff {x : Except ε α} {f : α → Except ε β} (hf : ∀ a, ∃ b, f a = .ok b) :
    (∃ b, (x >>= f) = .ok b) ↔ ∃ a, x = .ok a := by
  constructor
  · rintro ⟨b, hb⟩
    obtain ⟨a, ha, -⟩ := bind_eq_ok.mp hb
    exact ⟨a, ha⟩
  · rintro ⟨a, ha⟩
    obtain ⟨b, hb⟩ := hf a
    exact ⟨b, by rw [ha, ok_bind, hb]⟩

instance decidableReturns (x : Except ε α) : Decidable (∃ a, x = .ok a) :=
  match x with
  | .ok a => isTrue ⟨a, rfl⟩
  | .error _ => isFalse (by simp)

instance decidableReturnsWith (x : Except ε α) (p : α → Prop) [DecidablePred p] :
    Decidable (∃ a, x = .ok a ∧ p a) :=
  match x with
  | .ok a => decidable_of_iff (p a) (by simp)
  | .error _ => isFalse (by simp)

/-- A sequence of computations fails as the first of them that fails does. -/
theorem mapM_eq_error {f : α → Except ε β} {l : List α} {e : ε} :
    l.mapM f = .error e ↔ ∃ before a after, l = before ++ a :: after ∧
      (∀ b ∈ before, ∃ c, f b = .ok c) ∧ f a = .error e := by
  induction l with
  | nil => simp
  | cons b l ih =>
    rw [List.mapM_cons]
    cases hb : f b with
    | error e' =>
      rw [error_bind]
      constructor
      · rintro ⟨⟩
        exact ⟨[], b, l, rfl, by simp, hb⟩
      · rintro ⟨before, a, after, hl, hbefore, ha⟩
        cases before with
        | nil =>
          cases hl
          rw [hb] at ha
          cases ha
          rfl
        | cons c before =>
          cases hl
          obtain ⟨c', hc⟩ := hbefore b (by simp)
          rw [hb] at hc
          cases hc
    | ok c =>
      have htail : (l.mapM f >>= fun cs => pure (c :: cs)) = .error e ↔ l.mapM f = .error e := by
        cases l.mapM f <;> simp
      rw [ok_bind, htail, ih]
      constructor
      · rintro ⟨before, a, after, rfl, hbefore, ha⟩
        exact ⟨b :: before, a, after, rfl, List.forall_mem_cons.mpr ⟨⟨c, hb⟩, hbefore⟩, ha⟩
      · rintro ⟨before, a, after, hl, hbefore, ha⟩
        cases before with
        | nil =>
          cases hl
          rw [hb] at ha
          cases ha
        | cons b' before =>
          cases hl
          exact ⟨before, a, after, rfl, (List.forall_mem_cons.mp hbefore).2, ha⟩

/-! ## Indexing, removing and swapping -/

/-- `a - b` on `usize`. -/
def sub (a b : ℕ) : Except Panic ℕ := if b ≤ a then .ok (a - b) else .error .subtractOverflow

/-- `v[i]`. -/
def index (v : List α) (i : ℕ) : Except Panic α :=
  match v[i]? with
  | some a => .ok a
  | none => .error .indexOutOfBounds

/-- `v.remove(i)`, when the removed element is not used. -/
def remove (v : List α) (i : ℕ) : Except Panic (List α) :=
  if i < v.length then .ok (v.eraseIdx i) else .error .indexOutOfBounds

/-- `v.swap(i, j)`. -/
def swap (v : List α) (i j : ℕ) : Except Panic (List α) := do
  let a ← index v i
  let b ← index v j
  return (v.set i b).set j a

theorem sub_of_le {a b : ℕ} (h : b ≤ a) : sub a b = .ok (a - b) := if_pos h

theorem index_eq_ok {v : List α} {i : ℕ} {a : α} : index v i = .ok a ↔ v[i]? = some a := by
  unfold index
  cases v[i]? <;> simp

theorem index_of_lt {v : List α} {i : ℕ} (h : i < v.length) : index v i = .ok v[i] :=
  index_eq_ok.mpr (List.getElem?_eq_getElem h)

theorem remove_of_lt {v : List α} {i : ℕ} (h : i < v.length) : remove v i = .ok (v.eraseIdx i) :=
  if_pos h

theorem swap_of_lt {v : List α} {i j : ℕ} (hi : i < v.length) (hj : j < v.length) :
    swap v i j = .ok ((v.set i v[j]).set j v[i]) := by
  unfold swap
  rw [index_of_lt hi, index_of_lt hj]
  rfl

/-- `swap` exchanges two entries and leaves the others in place. -/
theorem getElem?_of_swap {v w : List α} {i j : ℕ} (h : swap v i j = .ok w) (k : ℕ) :
    w[k]? = v[Equiv.swap i j k]? := by
  obtain ⟨a, ha, h⟩ := bind_eq_ok.mp h
  obtain ⟨b, hb, h⟩ := bind_eq_ok.mp h
  rw [index_eq_ok] at ha hb
  cases h
  obtain ⟨hi, rfl⟩ := List.getElem?_eq_some_iff.mp ha
  obtain ⟨hj, rfl⟩ := List.getElem?_eq_some_iff.mp hb
  rw [Equiv.swap_apply_def]
  split_ifs with h1 h2
  · subst h1
    by_cases hij : j = k
    · subst hij; simp [hi]
    · simp [hij, hi, hj]
  · subst h2; simp [hi, hj]
  · simp [Ne.symm h1, Ne.symm h2]

theorem length_of_swap {v w : List α} {i j : ℕ} (h : swap v i j = .ok w) :
    w.length = v.length := by
  obtain ⟨a, -, h⟩ := bind_eq_ok.mp h
  obtain ⟨b, -, h⟩ := bind_eq_ok.mp h
  cases h
  simp

theorem nodup_of_swap {v w : List α} {i j : ℕ} (h : swap v i j = .ok w) (hv : v.Nodup) :
    w.Nodup := by
  have hlt : ∀ m, m < w.length → Equiv.swap i j m < v.length := by
    intro m hm
    have := getElem?_of_swap h m
    rw [List.getElem?_eq_getElem hm] at this
    exact (List.getElem?_eq_some_iff.mp this.symm).1
  rw [List.nodup_iff_getElem?_ne_getElem?] at hv ⊢
  intro k l hkl hl heq
  rw [getElem?_of_swap h, getElem?_of_swap h] at heq
  have hne : Equiv.swap i j k ≠ Equiv.swap i j l := fun hh => by
    have := (Equiv.swap i j).injective hh
    omega
  rcases Nat.lt_or_gt_of_ne hne with h' | h'
  · exact hv _ _ h' (hlt l hl) heq
  · exact hv _ _ h' (hlt k (by omega)) heq.symm

/-- Swapping the two entries in the middle. -/
theorem swap_middle (p s : List α) (a b : α) :
    swap (p ++ a :: b :: s) (p.length + 1) p.length = .ok (p ++ b :: a :: s) := by
  rw [swap_of_lt (by simp) (by simp)]
  simp

/-! ## `filter_map` with a closure that can panic -/

/-- `iter.filter_map(f)`, run to its end. -/
def filterMap (f : α → Except Panic (Option β)) : List α → Except Panic (List β)
  | [] => .ok []
  | a :: l => do
    let b ← f a
    let bs ← filterMap f l
    return b.toList ++ bs

/-- A closure that does not panic on the elements of the list filters it. -/
theorem filterMap_eq {f : α → Except Panic (Option β)} {g : α → Option β} {l : List α}
    (h : ∀ a ∈ l, f a = .ok (g a)) : filterMap f l = .ok (l.filterMap g) := by
  induction l with
  | nil => rfl
  | cons a l ih =>
    rw [filterMap, h a (by simp), ih fun b hb => h b (by simp [hb])]
    cases hg : g a <;> simp [hg]

end Rust
