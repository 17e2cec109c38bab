import LiveTest.Rust.Panic
import Mathlib.Data.List.Induction
import Mathlib.Data.List.Sort
import Mathlib.Order.Basic

/-!
# Insertion sort of two parallel vectors

The in-place insertion sort of a vector of keys that repeats every swap on a
companion vector:

```
let mut i = 1;
while i < keys.len() {
    let mut j = i;
    while j > 0 && keys[j - 1] > keys[j] {
        keys.swap(j, j - 1);
        vals.swap(j, j - 1);
        j -= 1;
    }
    i += 1;
}
```

* `pairSort_eq`: on vectors of equal length the loops end without a panic and
  leave the stable sort, by key, of the zipped pairs.
* `stableSort_perm`, `stableSort_sorted`, `stableSort_filter`: that list is
  sorted, a permutation, and has the pairs of each key in their old order.
* `eq_stableSort`: it is the only one.
* `stableSort_append_congr`: pairs with distinct keys may be sorted in in any
  order.
* `pairSortWhile_eq`: the loops as they are written end, within twice as many
  tests as there are keys, with what `pairSort` computes.
-/

namespace Rust

variable {K V : Type} [LinearOrder K]

/-! ## The loops -/

/-- The inner `while`, entered with `j`. -/
def pairSift : ℕ → List K → List V → Except Panic (List K × List V)
  | 0, keys, vals => .ok (keys, vals)
  | j + 1, keys, vals => do
    if (← index keys j) > (← index keys (j + 1)) then
      let keys ← swap keys (j + 1) j
      let vals ← swap vals (j + 1) j
      pairSift j keys vals
    else return (keys, vals)

/-- The outer `while`; the swaps keep `keys.len()`, so `i` runs over
    `1, …, keys.len() - 1`. -/
def pairSort (keys : List K) (vals : List V) : Except Panic (List K × List V) :=
  (List.range' 1 (keys.length - 1)).foldlM (fun (kv : List K × List V) i => pairSift i kv.1 kv.2)
    (keys, vals)

/-- The inner `while` as it is written, with at most `fuel` tests of its condition. -/
def pairSiftWhile : ℕ → ℕ → List K → List V → Except Panic (Option (List K × List V))
  | 0, _, _, _ => .ok none
  | fuel + 1, j, keys, vals => do
    if j > 0 then
      if (← index keys (j - 1)) > (← index keys j) then
        let keys ← swap keys j (j - 1)
        let vals ← swap vals j (j - 1)
        pairSiftWhile fuel (j - 1) keys vals
      else return some (keys, vals)
    else return some (keys, vals)

/-- The outer `while` as it is written, entered with `i`; each loop has at most `fuel` tests. -/
def pairSortWhile : ℕ → ℕ → List K → List V → Except Panic (Option (List K × List V))
  | 0, _, _, _ => .ok none
  | fuel + 1, i, keys, vals =>
    if i < keys.length then do
      match ← pairSiftWhile fuel i keys vals with
      | none => return none
      | some (keys, vals) => pairSortWhile fuel (i + 1) keys vals
    else .ok (some (keys, vals))

/-! ## The sorted list -/

/-- The order in which the reversed sorted prefix is kept: keys descending. -/
def keyGe (a b : K × V) : Prop := b.1 ≤ a.1

instance : DecidableRel (keyGe : K × V → K × V → Prop) := fun a b => inferInstanceAs (Decidable (b.1 ≤ a.1))

instance : Std.Total (keyGe : K × V → K × V → Prop) := ⟨fun a b => le_total b.1 a.1⟩

instance : IsTrans (K × V) keyGe := ⟨fun _ _ _ h h' => le_trans h' h⟩

/-- Insert `x` at the end of `l`, then move it left past every larger key. -/
def insertBack (l : List (K × V)) (x : K × V) : List (K × V) :=
  (l.reverse.orderedInsert keyGe x).reverse

/-- Insert the elements of `l` one after the other. -/
def stableSort (l : List (K × V)) : List (K × V) := l.foldl insertBack []

theorem insertBack_concat (l : List (K × V)) (y x : K × V) :
    insertBack (l ++ [y]) x = if y.1 > x.1 then insertBack l x ++ [y] else l ++ [y, x] := by
  unfold insertBack
  rw [List.reverse_concat, List.orderedInsert_cons]
  by_cases h : x.1 < y.1
  · have hge : ¬ keyGe x y := not_le.mpr h
    rw [if_neg hge, if_pos h, List.reverse_cons]
  · have hge : keyGe x y := not_lt.mp h
    rw [if_pos hge, if_neg h]
    simp

theorem stableSort_concat (l : List (K × V)) (x : K × V) :
    stableSort (l ++ [x]) = insertBack (stableSort l) x := by
  simp [stableSort]

/-- The sort is Mathlib's insertion sort of the reversed list, read backwards. -/
theorem stableSort_eq (l : List (K × V)) :
    stableSort l = (l.reverse.insertionSort keyGe).reverse := by
  induction l using List.reverseRecOn with
  | nil => rfl
  | append_singleton l x ih =>
    rw [stableSort_concat, ih, List.reverse_concat, List.insertionSort_cons, insertBack,
      List.reverse_reverse]

theorem stableSort_perm (l : List (K × V)) : (stableSort l).Perm l := by
  rw [stableSort_eq]
  exact (List.reverse_perm _).trans ((List.perm_insertionSort _ _).trans (List.reverse_perm l))

@[simp] theorem length_stableSort (l : List (K × V)) : (stableSort l).length = l.length :=
  (stableSort_perm l).length_eq

/-- The keys are in non-decreasing order. -/
theorem stableSort_sorted (l : List (K × V)) :
    (stableSort l).Pairwise fun a b => a.1 ≤ b.1 := by
  rw [stableSort_eq, List.pairwise_reverse]
  exact List.pairwise_insertionSort keyGe l.reverse

/-! ## Stability -/

theorem insertBack_filter (k : K) (l : List (K × V)) (x : K × V) :
    (insertBack l x).filter (·.1 = k) = (l ++ [x]).filter (·.1 = k) := by
  induction l using List.reverseRecOn with
  | nil => rfl
  | append_singleton l y ih =>
    rw [insertBack_concat]
    split_ifs with h
    · -- the keys of `x` and `y` differ, so that one of the two at most has the key `k`
      rw [List.filter_append, ih]
      by_cases hy : y.1 = k
      · have hx : x.1 ≠ k := by
          rintro rfl
          exact absurd hy (ne_of_gt h)
        simp [hy, hx]
      · simp [hy]
    · simp

/-- The pairs of one key keep their order. -/
theorem stableSort_filter (k : K) (l : List (K × V)) :
    (stableSort l).filter (·.1 = k) = l.filter (·.1 = k) := by
  induction l using List.reverseRecOn with
  | nil => rfl
  | append_singleton l x ih =>
    rw [stableSort_concat, insertBack_filter, List.filter_append, ih, List.filter_append]

/-- A sorted list of pairs is determined by the pairs of each key, in their order. -/
theorem eq_of_sorted_of_filter {l m : List (K × V)} (hl : l.Pairwise fun a b => a.1 ≤ b.1)
    (hm : m.Pairwise fun a b => a.1 ≤ b.1)
    (h : ∀ k, l.filter (·.1 = k) = m.filter (·.1 = k)) : l = m := by
  have hmem : ∀ x, x ∈ l ↔ x ∈ m := by
    intro x
    have := congrArg (x ∈ ·) (h x.1)
    simpa using this
  induction l generalizing m with
  | nil =>
    symm
    rw [List.eq_nil_iff_forall_not_mem]
    exact fun x hx => by simpa using (hmem x).mpr hx
  | cons x l ih =>
    cases m with
    | nil => exact absurd ((hmem x).mp (by simp)) (by simp)
    | cons y m =>
      obtain ⟨hxl, hl'⟩ := List.pairwise_cons.mp hl
      obtain ⟨hym, hm'⟩ := List.pairwise_cons.mp hm
      have hkey : x.1 = y.1 := by
        apply le_antisymm
        · rcases List.mem_cons.mp ((hmem y).mpr (by simp)) with rfl | hy
          · exact le_rfl
          · exact hxl y hy
        · rcases List.mem_cons.mp ((hmem x).mp (by simp)) with rfl | hx
          · exact le_rfl
          · exact hym x hx
      -- the heads are the first pairs of their key
      have hhead := h x.1
      rw [List.filter_cons_of_pos (by simp), List.filter_cons_of_pos (by simp [hkey])] at hhead
      obtain ⟨rfl, -⟩ := List.cons.inj hhead
      have htail : ∀ k, l.filter (·.1 = k) = m.filter (·.1 = k) := by
        intro k
        have := h k
        by_cases hk : x.1 = k
        · rw [List.filter_cons_of_pos (by simpa using hk),
            List.filter_cons_of_pos (by simpa using hk)] at this
          exact (List.cons.inj this).2
        · rwa [List.filter_cons_of_neg (by simpa using hk),
            List.filter_cons_of_neg (by simpa using hk)] at this
      have hmem' : ∀ z, z ∈ l ↔ z ∈ m := by
        intro z
        have := congrArg (z ∈ ·) (htail z.1)
        simpa using this
      rw [ih hl' hm' htail hmem']

/-- Any sorted list with the pairs of each key in their order is the sorted list. -/
theorem eq_stableSort {l m : List (K × V)} (hm : m.Pairwise fun a b => a.1 ≤ b.1)
    (h : ∀ k, m.filter (·.1 = k) = l.filter (·.1 = k)) : m = stableSort l :=
  eq_of_sorted_of_filter hm (stableSort_sorted l) fun k => by rw [h, stableSort_filter]

theorem stableSort_of_sorted {l : List (K × V)} (h : l.Pairwise fun a b => a.1 ≤ b.1) :
    stableSort l = l := (eq_stableSort h fun _ => rfl).symm

/-- Sorting in what arrives sorts everything. -/
theorem stableSort_append_stableSort (l m : List (K × V)) :
    stableSort (stableSort l ++ m) = stableSort (l ++ m) := by
  have h := stableSort_of_sorted (stableSort_sorted l)
  unfold stableSort at h ⊢
  rw [List.foldl_append, List.foldl_append, h]

/-- Of pairs with distinct keys there is at most one for a key, whatever their order. -/
theorem filter_eq_of_perm {l m : List (K × V)} (h : l.Perm m) (hl : (l.map Prod.fst).Nodup)
    (k : K) : l.filter (·.1 = k) = m.filter (·.1 = k) := by
  induction h with
  | nil => rfl
  | cons x _ ih =>
    have hcons := ih (List.nodup_cons.mp hl).2
    rw [List.filter_cons, List.filter_cons, hcons]
  | swap x y l =>
    have hne : y.1 ≠ x.1 := fun he => (List.nodup_cons.mp hl).1 (by simp [he])
    by_cases hx : x.1 = k
    · have hy : y.1 ≠ k := fun hy => hne (hy.trans hx.symm)
      simp [hx, hy]
    · simp [List.filter_cons, hx]
  | trans h _ ih ih' =>
    rw [ih hl, ih' ((h.map Prod.fst).nodup_iff.mp hl)]

/-- Pairs with distinct keys are sorted in to the same list in every order. -/
theorem stableSort_append_congr (l : List (K × V)) {m m' : List (K × V)} (h : m.Perm m')
    (hm : (m.map Prod.fst).Nodup) : stableSort (l ++ m) = stableSort (l ++ m') := by
  refine eq_stableSort (stableSort_sorted _) fun k => ?_
  rw [stableSort_filter, List.filter_append, List.filter_append, filter_eq_of_perm h hm]

/-! ## The loops compute it -/

/-- The inner loop entered at `x`, with `l` before it and `m` behind it. -/
theorem pairSift_eq (l : List (K × V)) (x : K × V) (m : List (K × V)) :
    pairSift l.length (l ++ x :: m).unzip.1 (l ++ x :: m).unzip.2 =
      .ok (insertBack l x ++ m).unzip := by
  induction l using List.reverseRecOn generalizing m with
  | nil => rfl
  | append_singleton l y ih =>
    have hk : (l ++ [y] ++ x :: m).unzip.1 = l.unzip.1 ++ y.1 :: x.1 :: m.unzip.1 := by
      simp [List.unzip_eq_map]
    have hv : (l ++ [y] ++ x :: m).unzip.2 = l.unzip.2 ++ y.2 :: x.2 :: m.unzip.2 := by
      simp [List.unzip_eq_map]
    have hj : index (l.unzip.1 ++ y.1 :: x.1 :: m.unzip.1) l.length = .ok y.1 := by
      rw [index_eq_ok]; simp [List.unzip_eq_map]
    have hj' : index (l.unzip.1 ++ y.1 :: x.1 :: m.unzip.1) (l.length + 1) = .ok x.1 := by
      rw [index_eq_ok]; simp [List.unzip_eq_map]
    rw [hk, hv, List.length_append, List.length_singleton, pairSift, hj, hj', insertBack_concat]
    simp only [ok_bind]
    by_cases h : y.1 > x.1
    · have hks := swap_middle l.unzip.1 m.unzip.1 y.1 x.1
      have hvs := swap_middle l.unzip.2 m.unzip.2 y.2 x.2
      rw [show l.unzip.1.length = l.length by simp] at hks
      rw [show l.unzip.2.length = l.length by simp] at hvs
      rw [if_pos h, if_pos h, hks, hvs]
      have := ih (y :: m)
      simpa [List.unzip_eq_map] using this
    · rw [if_neg h, if_neg h]
      simp [List.unzip_eq_map]

/-- The outer loop, with `l` already sorted in and `m` still to come. -/
theorem pairSort_loop (l m : List (K × V)) :
    (List.range' l.length m.length).foldlM
        (fun (kv : List K × List V) i => pairSift i kv.1 kv.2) (l ++ m).unzip =
      .ok (m.foldl insertBack l).unzip := by
  induction m generalizing l with
  | nil => simp
  | cons x m ih =>
    rw [List.length_cons, List.range'_succ, List.foldlM_cons, pairSift_eq, ok_bind]
    have hlen : (insertBack l x).length = l.length + 1 := by
      simp [insertBack, List.orderedInsert_length]
    have := ih (insertBack l x)
    rwa [hlen] at this

/-- On vectors of equal length the two loops do not panic and leave the stable
    sort, by key, of the zipped pairs. -/
theorem pairSort_eq {keys : List K} {vals : List V} (h : keys.length = vals.length) :
    pairSort keys vals = .ok (stableSort (keys.zip vals)).unzip := by
  have hz : (keys.zip vals).unzip = (keys, vals) := List.unzip_zip h
  cases hl : keys.zip vals with
  | nil =>
    rw [hl] at hz
    cases hz
    rfl
  | cons x l =>
    have hlen : keys.length - 1 = l.length := by
      have := congrArg List.length hl
      rw [List.length_zip, h, min_self, List.length_cons, ← h] at this
      omega
    have := pairSort_loop [x] l
    rw [List.singleton_append, ← hl, hz] at this
    rw [pairSort, hlen]
    exact this

/-! ## The loops as they are written -/

theorem pairSiftWhile_eq {fuel j : ℕ} (hj : j < fuel) (keys : List K) (vals : List V) :
    pairSiftWhile fuel j keys vals = some <$> pairSift j keys vals := by
  induction j generalizing fuel keys vals with
  | zero =>
    obtain ⟨fuel, rfl⟩ := Nat.exists_eq_add_of_lt hj
    rfl
  | succ j ih =>
    obtain ⟨fuel, rfl⟩ : ∃ f, fuel = f + 1 := ⟨fuel - 1, by omega⟩
    rw [pairSiftWhile, pairSift, if_pos (Nat.succ_pos j), Nat.add_sub_cancel]
    simp only [map_bind]
    refine bind_congr fun a => bind_congr fun b => ?_
    by_cases h : a > b
    · rw [if_pos h, if_pos h]
      simp only [map_bind]
      exact bind_congr fun keys => bind_congr fun vals => ih (by omega) keys vals
    · rw [if_neg h, if_neg h]
      rfl

theorem length_of_pairSift {j : ℕ} {keys keys' : List K} {vals vals' : List V}
    (h : pairSift j keys vals = .ok (keys', vals')) : keys'.length = keys.length := by
  induction j generalizing keys vals with
  | zero => cases h; rfl
  | succ j ih =>
    rw [pairSift] at h
    obtain ⟨a, -, h⟩ := bind_eq_ok.mp h
    obtain ⟨b, -, h⟩ := bind_eq_ok.mp h
    split_ifs at h
    · obtain ⟨swapped, hs, h⟩ := bind_eq_ok.mp h
      obtain ⟨vals'', -, h⟩ := bind_eq_ok.mp h
      rw [ih h, length_of_swap hs]
    · cases h
      rfl

/-- The outer loop entered with `i`. -/
theorem pairSortWhile_loop {fuel i : ℕ} {keys : List K} {vals : List V} (hi : i ≤ keys.length + 1)
    (hfuel : 2 * keys.length + 1 < fuel + i) :
    pairSortWhile fuel i keys vals = some <$> (List.range' i (keys.length - i)).foldlM
      (fun (kv : List K × List V) i => pairSift i kv.1 kv.2) (keys, vals) := by
  induction fuel generalizing i keys vals with
  | zero => omega
  | succ fuel ih =>
    rw [pairSortWhile]
    by_cases hlt : i < keys.length
    · have hrange : List.range' i (keys.length - i) =
          i :: List.range' (i + 1) (keys.length - (i + 1)) := by
        rw [← List.range'_succ]
        congr 1
        omega
      rw [if_pos hlt, hrange, List.foldlM_cons, pairSiftWhile_eq (by omega)]
      cases hsift : pairSift i keys vals with
      | error e => rfl
      | ok kv =>
        obtain ⟨keys', vals'⟩ := kv
        have hlen := length_of_pairSift hsift
        have hnext : pairSortWhile fuel (i + 1) keys' vals' =
            some <$> (List.range' (i + 1) (keys'.length - (i + 1))).foldlM
              (fun (kv : List K × List V) i => pairSift i kv.1 kv.2) (keys', vals') :=
          ih (by omega) (by omega)
        rwa [hlen] at hnext
    · have hnil : keys.length - i = 0 := by omega
      rw [if_neg hlt, hnil]
      rfl

/-- Twice as many tests as there are keys are enough, whatever the keys are. -/
theorem pairSortWhile_eq {fuel : ℕ} (keys : List K) (vals : List V)
    (hfuel : 2 * keys.length < fuel) :
    pairSortWhile fuel 1 keys vals = some <$> pairSort keys vals :=
  pairSortWhile_loop (by omega) (by omega)

end Rust
