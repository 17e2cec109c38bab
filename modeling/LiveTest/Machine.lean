import LiveTest.Rust.Panic
import Mathlib.Data.List.Induction
import Mathlib.Data.List.Infix
import Mathlib.Order.WellFounded

/-!
# Runs of a machine that can fail

A machine is a step function `σ → ι → Except ε (σ × ω)`: from a state and an
input it goes to a state and an output, or fails. A run feeds it a list of
inputs; its trace pairs each input with the output of its step.

* `run_induction`: the invariant rule, for runs whose steps all meet a guard.
* `forall_prefix_iff_meets`: when a property of the inputs holds as long as the
  guard does and is lost at the first step that misses it, the runs in which
  it never fails are exactly the runs whose steps all meet the guard.
* `run_returns_iff`: when a step fails exactly if it misses a guard, so does a run.
* `exists_same_trace`: two states that a relation kept by every step relates have
  the same traces.
* `run_project`: a part of a machine that some steps take a step of, and the others
  leave as it is, runs as a machine of its own.
* `run_filter`: the case in which the inputs say which steps these are.
* `amortised`: what the steps of a run gain together is paid by a potential.
* `exists_run_of_progress`, `exists_run_of_rounds`: when some step, or some run,
  always makes a measure smaller, some run gets to the end.
-/

namespace Machine

open Rust

variable {σ ι ω ε : Type} (step : σ → ι → Except ε (σ × ω))

/-- Feed the inputs to the machine, one after the other. -/
def run (s : σ) : List ι → Except ε (σ × List (ι × ω))
  | [] => .ok (s, [])
  | i :: is => do
    let (t, o) ← step s i
    let (u, tr) ← run t is
    return (u, (i, o) :: tr)

/-- Every step of the run from `s` is taken in a state that meets `P`. -/
def Meets (P : σ → ι → Prop) (s : σ) : List ι → Prop
  | [] => True
  | i :: is => P s i ∧
    match step s i with
    | .ok (t, _) => Meets P t is
    | .error _ => True

/-- `Q` holds of every step of a trace: of the steps before it, its input and its output. -/
def EachStep (Q : List (ι × ω) → ι → ω → Prop) (tr : List (ι × ω)) : Prop :=
  ∀ tr₁ i o tr₂, tr = tr₁ ++ (i, o) :: tr₂ → Q tr₁ i o

instance Meets.decidable (P : σ → ι → Prop) [∀ s i, Decidable (P s i)] (s : σ) (is : List ι) :
    Decidable (Meets step P s is) :=
  match is with
  | [] => isTrue trivial
  | i :: is =>
    match h : step s i with
    | .ok (t, _) =>
      have := Meets.decidable P t is
      decidable_of_iff (P s i ∧ Meets step P t is) (by rw [Meets, h])
    | .error _ => decidable_of_iff (P s i) (by rw [Meets, h]; simp)

variable {step} {P : σ → ι → Prop} {s : σ}

/-! ## Extending a run by one step -/

theorem run_cons_eq_ok {i : ι} {is : List ι} {u : σ} {tr : List (ι × ω)} :
    run step s (i :: is) = .ok (u, tr) ↔
      ∃ t o tr', step s i = .ok (t, o) ∧ run step t is = .ok (u, tr') ∧ tr = (i, o) :: tr' := by
  rw [run, bind_eq_ok]
  constructor
  · rintro ⟨⟨t, o⟩, h, h'⟩
    obtain ⟨⟨u', tr'⟩, hr, h'⟩ := bind_eq_ok.mp h'
    cases h'
    exact ⟨t, o, tr', h, hr, rfl⟩
  · rintro ⟨t, o, tr', h, hr, rfl⟩
    exact ⟨(t, o), h, by simp only [hr, ok_bind]; rfl⟩

theorem run_concat_eq_ok {i : ι} {is : List ι} {u : σ} {tr : List (ι × ω)} :
    run step s (is ++ [i]) = .ok (u, tr) ↔
      ∃ t tr' o, run step s is = .ok (t, tr') ∧ step t i = .ok (u, o) ∧ tr = tr' ++ [(i, o)] := by
  induction is generalizing s tr with
  | nil =>
    rw [List.nil_append, run_cons_eq_ok]
    constructor
    · rintro ⟨t, o, tr', h, ⟨⟩, rfl⟩; exact ⟨s, [], o, rfl, h, rfl⟩
    · rintro ⟨t, tr', o, ⟨⟩, h, rfl⟩; exact ⟨u, o, [], h, rfl, rfl⟩
  | cons j is ih =>
    simp only [List.cons_append, run_cons_eq_ok, ih]
    constructor
    · rintro ⟨t, o, tr', h, ⟨v, tr'', o', hr, hs, rfl⟩, rfl⟩
      exact ⟨v, (j, o) :: tr'', o', ⟨t, o, tr'', h, hr, rfl⟩, hs, rfl⟩
    · rintro ⟨v, tr', o', ⟨t, o, tr'', h, hr, rfl⟩, hs, rfl⟩
      exact ⟨t, o, tr'' ++ [(i, o')], h, ⟨v, tr'', o', hr, hs, rfl⟩, rfl⟩

theorem run_append {is js : List ι} {t u : σ} {tr tr' : List (ι × ω)}
    (h : run step s is = .ok (t, tr)) (h' : run step t js = .ok (u, tr')) :
    run step s (is ++ js) = .ok (u, tr ++ tr') := by
  induction is generalizing s tr with
  | nil => cases h; exact h'
  | cons i is ih =>
    obtain ⟨v, o, tr'', hs, hr, rfl⟩ := run_cons_eq_ok.mp h
    exact run_cons_eq_ok.mpr ⟨v, o, tr'' ++ tr', hs, ih hr, rfl⟩

theorem meets_concat {i : ι} {is : List ι} :
    Meets step P s (is ++ [i]) ↔
      Meets step P s is ∧ ∀ t tr, run step s is = .ok (t, tr) → P t i := by
  induction is generalizing s with
  | nil =>
    simp only [List.nil_append, Meets, run]
    constructor
    · rintro ⟨h, -⟩; exact ⟨trivial, by rintro t tr ⟨⟩; exact h⟩
    · rintro ⟨-, h⟩; exact ⟨h s [] rfl, by split <;> trivial⟩
  | cons j is ih =>
    simp only [List.cons_append, Meets, run_cons_eq_ok]
    cases h : step s j with
    | error e => simp
    | ok r =>
      obtain ⟨t, o⟩ := r
      simp only [ih, and_assoc]
      refine and_congr_right fun _ => and_congr_right fun _ => ?_
      constructor
      · rintro hP v tr ⟨t', o', tr', ⟨⟩, hr, rfl⟩; exact hP v tr' hr
      · intro hP v tr hr; exact hP v _ ⟨t, o, tr, rfl, hr, rfl⟩

theorem meets_of_isPrefix {is js : List ι} (h : Meets step P s is) (hp : js <+: is) :
    Meets step P s js := by
  obtain ⟨ks, rfl⟩ := hp
  induction ks using List.reverseRecOn with
  | nil => simpa using h
  | append_singleton ks k ih =>
    rw [← List.append_assoc, meets_concat] at h
    exact ih h.1

theorem meets_mono {Q : σ → ι → Prop} (hPQ : ∀ s i, P s i → Q s i) {is : List ι}
    (h : Meets step P s is) : Meets step Q s is := by
  induction is using List.reverseRecOn with
  | nil => trivial
  | append_singleton is i ih =>
    obtain ⟨hbefore, hlast⟩ := meets_concat.mp h
    exact meets_concat.mpr ⟨ih hbefore, fun t tr hrun => hPQ t i (hlast t tr hrun)⟩

theorem meets_true (is : List ι) : Meets step (fun _ _ => True) s is := by
  induction is using List.reverseRecOn with
  | nil => trivial
  | append_singleton is i ih => exact meets_concat.mpr ⟨ih, fun _ _ _ => trivial⟩

theorem trace_inputs {is : List ι} {t : σ} {tr : List (ι × ω)} (h : run step s is = .ok (t, tr)) :
    tr.map Prod.fst = is := by
  induction is generalizing s tr with
  | nil => cases h; rfl
  | cons i is ih =>
    obtain ⟨u, o, tr', -, hr, rfl⟩ := run_cons_eq_ok.mp h
    rw [List.map_cons, ih hr]

/-! ## Properties of every step -/

theorem eachStep_nil (Q : List (ι × ω) → ι → ω → Prop) : EachStep Q [] := by
  intro tr₁ i o tr₂ h
  simp at h

theorem eachStep_concat {Q : List (ι × ω) → ι → ω → Prop} {tr : List (ι × ω)} {i : ι} {o : ω} :
    EachStep Q (tr ++ [(i, o)]) ↔ EachStep Q tr ∧ Q tr i o := by
  constructor
  · intro h
    refine ⟨fun tr₁ j p tr₂ htr => h tr₁ j p (tr₂ ++ [(i, o)]) ?_, h tr i o [] rfl⟩
    rw [htr]; simp
  · rintro ⟨h, hQ⟩ tr₁ j p tr₂ htr
    induction tr₂ using List.reverseRecOn with
    | nil =>
      obtain ⟨rfl, h'⟩ := List.append_inj' htr rfl
      cases h'
      exact hQ
    | append_singleton tr₂ x _ =>
      rw [← List.cons_append, ← List.append_assoc] at htr
      exact h tr₁ j p tr₂ (List.append_inj' htr rfl).1

theorem eachStep_of_append {Q : List (ι × ω) → ι → ω → Prop} {tr tr' : List (ι × ω)}
    (h : EachStep Q (tr ++ tr')) : EachStep Q tr := by
  rintro tr₁ i o tr₂ rfl
  exact h tr₁ i o (tr₂ ++ tr') (by simp)

theorem eachStep_append {Q : List (ι × ω) → ι → ω → Prop} {tr tr' : List (ι × ω)} :
    EachStep Q (tr ++ tr') ↔ EachStep Q tr ∧ EachStep (fun before => Q (tr ++ before)) tr' := by
  induction tr' using List.reverseRecOn with
  | nil => simp [eachStep_nil]
  | append_singleton tr' e ih =>
    rw [← List.append_assoc, eachStep_concat, eachStep_concat, ih, and_assoc]

/-- What holds of every step that is shown, of those that show it. -/
theorem eachStep_of_filterMap {κ ω' : Type} {Q : List (κ × ω') → κ → ω' → Prop}
    {tr : List (ι × ω)} (seen : ι × ω → Option (κ × ω')) (h : EachStep Q (tr.filterMap seen)) :
    EachStep (fun before i o => ∀ k o', seen (i, o) = some (k, o') →
      Q (before.filterMap seen) k o') tr := by
  rintro before i o after rfl k o' hseen
  refine h _ k o' (after.filterMap seen) ?_
  rw [List.filterMap_append, List.filterMap_cons_some hseen]

/-! ## The invariant rules -/

section Rules

variable (adm : List ι → Prop) (Inv : σ → List (ι × ω) → Prop)

/-- An invariant that every guarded step keeps, and under which no guarded step
    fails, holds at the end of every run whose steps meet the guard. `adm` says
    which lists of inputs are considered. -/
theorem run_induction (hadm : ∀ is i, adm (is ++ [i]) → adm is) (init : Inv s [])
    (keep : ∀ t tr i, Inv t tr → adm (tr.map Prod.fst ++ [i]) → P t i →
      ∃ u o, step t i = .ok (u, o) ∧ Inv u (tr ++ [(i, o)]))
    {is : List ι} (his : adm is) (hP : Meets step P s is) :
    ∃ t tr, run step s is = .ok (t, tr) ∧ Inv t tr := by
  induction is using List.reverseRecOn with
  | nil => exact ⟨s, [], rfl, init⟩
  | append_singleton is i ih =>
    rw [meets_concat] at hP
    obtain ⟨t, tr, hr, hI⟩ := ih (hadm is i his) hP.1
    obtain ⟨u, o, hs, hI'⟩ := keep t tr i hI (by rwa [trace_inputs hr]) (hP.2 t tr hr)
    exact ⟨u, tr ++ [(i, o)], run_concat_eq_ok.mpr ⟨t, tr, o, hr, hs, rfl⟩, hI'⟩

/-- What every step that does not fail keeps holds at the end of every run that does not fail. -/
theorem inv_of_run (init : Inv s [])
    (keep : ∀ t tr i u o, Inv t tr → step t i = .ok (u, o) → Inv u (tr ++ [(i, o)]))
    {is : List ι} {t : σ} {tr : List (ι × ω)} (hrun : run step s is = .ok (t, tr)) : Inv t tr := by
  induction is using List.reverseRecOn generalizing t tr with
  | nil => cases hrun; exact init
  | append_singleton is i ih =>
    obtain ⟨u, tr', o, hr, hs, rfl⟩ := run_concat_eq_ok.mp hrun
    exact keep u tr' i t o (ih hr) hs

/-- `Good` never fails along a run exactly when every step meets the guard: the
    invariant gives `Good`, and a step that misses the guard ends it. -/
theorem forall_prefix_iff_meets (hadm : ∀ is i, adm (is ++ [i]) → adm is) (init : Inv s [])
    {Good : List ι → Prop}
    (keep : ∀ t tr i, Inv t tr → adm (tr.map Prod.fst ++ [i]) → P t i →
      ∃ u o, step t i = .ok (u, o) ∧ Inv u (tr ++ [(i, o)]))
    (good : ∀ is t tr, run step s is = .ok (t, tr) → Inv t tr → Good is)
    (bad : ∀ is t tr i, run step s is = .ok (t, tr) → Inv t tr → adm (is ++ [i]) → ¬ P t i →
      ¬ Good (is ++ [i]))
    {is : List ι} (his : adm is) :
    (∀ pre, pre <+: is → Good pre) ↔ Meets step P s is := by
  constructor
  · intro h
    induction is using List.reverseRecOn with
    | nil => trivial
    | append_singleton is i ih =>
      have hP := ih (hadm is i his) fun pre hp => h pre (hp.trans (List.prefix_append is [i]))
      obtain ⟨t, tr, hr, hI⟩ := run_induction adm Inv hadm init keep (hadm is i his) hP
      refine meets_concat.mpr ⟨hP, fun t' tr' hr' => ?_⟩
      rw [hr] at hr'
      cases hr'
      by_contra hPi
      exact bad is t tr i hr hI his hPi (h _ (List.prefix_refl _))
  · intro hP pre hp
    have hpre : adm pre := by
      obtain ⟨ks, rfl⟩ := hp
      clear hP
      induction ks using List.reverseRecOn with
      | nil => simpa using his
      | append_singleton ks k ih => exact ih (hadm _ k (by rwa [List.append_assoc]))
    obtain ⟨t, tr, hr, hI⟩ := run_induction adm Inv hadm init keep hpre (meets_of_isPrefix hP hp)
    exact good pre t tr hr hI

end Rules

/-- States that give the same outputs, and go to states that do, have the same traces. -/
theorem exists_same_trace {R : σ → σ → Prop}
    (keep : ∀ s t i, R s t → ∃ s' t' o, step s i = .ok (s', o) ∧ step t i = .ok (t', o) ∧ R s' t')
    {t : σ} (h : R s t) (is : List ι) :
    ∃ s' t' tr, run step s is = .ok (s', tr) ∧ run step t is = .ok (t', tr) := by
  induction is generalizing s t with
  | nil => exact ⟨s, t, [], rfl, rfl⟩
  | cons i is ih =>
    obtain ⟨s₁, t₁, o, hs, ht, h₁⟩ := keep s t i h
    obtain ⟨s', t', tr, hrs, hrt⟩ := ih h₁
    exact ⟨s', t', (i, o) :: tr, run_cons_eq_ok.mpr ⟨s₁, o, tr, hs, hrs, rfl⟩,
      run_cons_eq_ok.mpr ⟨t₁, o, tr, ht, hrt, rfl⟩⟩

/-- A part of the machine, and what each step shows of it: a step of `step'` that it took, or nothing
    when it left the part as it is. The part runs as the machine `step'` does on what is shown. -/
theorem run_project {τ κ ω' ε' : Type} {step' : τ → κ → Except ε' (τ × ω')} (part : σ → τ)
    (seen : ι × ω → Option (κ × ω'))
    (skip : ∀ s i s' o, step s i = .ok (s', o) → seen (i, o) = none → part s' = part s)
    (keep : ∀ s i s' o k o', step s i = .ok (s', o) → seen (i, o) = some (k, o') →
      step' (part s) k = .ok (part s', o'))
    {is : List ι} {t : σ} {tr : List (ι × ω)} (hrun : run step s is = .ok (t, tr)) :
    run step' (part s) ((tr.filterMap seen).map Prod.fst) = .ok (part t, tr.filterMap seen) := by
  induction is generalizing s tr with
  | nil => cases hrun; rfl
  | cons i is ih =>
    obtain ⟨u, o, tr', hs, hr, rfl⟩ := run_cons_eq_ok.mp hrun
    have hrest := ih hr
    cases hseen : seen (i, o) with
    | none =>
      rw [skip s i u o hs hseen] at hrest
      rw [List.filterMap_cons_none hseen]
      exact hrest
    | some shown =>
      rw [List.filterMap_cons_some hseen, List.map_cons]
      exact run_cons_eq_ok.mpr ⟨part u, shown.2, _, keep s i u o _ _ hs hseen, hrest, rfl⟩

/-- A view of the machine that only the inputs in `p` change, and that changes as `step'` does. It
    runs as the machine `step'` does on the inputs in `p`, and shows the same. -/
theorem run_filter {τ ω' : Type} {step' : τ → ι → Except ε (τ × ω')} (p : ι → Bool)
    (view : σ → τ) (obs : ω → ω')
    (skip : ∀ s i s' o, p i = false → step s i = .ok (s', o) → view s' = view s)
    (keep : ∀ s i s' o, p i = true → step s i = .ok (s', o) →
      step' (view s) i = .ok (view s', obs o))
    {is : List ι} {t : σ} {tr : List (ι × ω)} (hrun : run step s is = .ok (t, tr)) :
    run step' (view s) (is.filter p) =
      .ok (view t, (tr.filter fun e => p e.1).map fun e => (e.1, obs e.2)) := by
  have htrace : (tr.filter fun e => p e.1).map (fun e => (e.1, obs e.2)) =
      tr.filterMap fun e => if p e.1 then some (e.1, obs e.2) else none := by
    rw [← List.filterMap_eq_map, List.filterMap_filter]
    rfl
  have hinputs : is.filter p =
      (tr.filterMap fun e => if p e.1 then some (e.1, obs e.2) else none).map Prod.fst := by
    rw [← htrace, ← trace_inputs hrun, List.filter_map, List.map_map]
    rfl
  rw [hinputs, htrace]
  refine run_project view _ (fun s i s' o hs hnone => ?_) (fun s i s' o k o' hs hsome => ?_) hrun
  · cases hp : p i with
    | false => exact skip s i s' o hp hs
    | true => simp [hp] at hnone
  · cases hp : p i with
    | false => simp [hp] at hsome
    | true =>
      simp only [hp, if_true, Option.some.injEq, Prod.mk.injEq] at hsome
      obtain ⟨rfl, rfl⟩ := hsome
      exact keep s i s' o hp hs

/-! ## Amortised bounds -/

section Amortised

variable (step) (P) [∀ s i, Decidable (P s i)]

/-- How many steps of the run from `s` are taken in a state that meets `P`. -/
def tally (s : σ) : List ι → ℕ
  | [] => 0
  | i :: is => (if P s i then 1 else 0) +
    match step s i with
    | .ok (t, _) => tally t is
    | .error _ => 0

/-- What the steps of a trace gain together. -/
def total (gain : ω → ℕ) (tr : List (ι × ω)) : ℕ := (tr.map fun e => gain e.2).sum

variable {step P}

/-- When each step gains no more than it takes from the potential, and each step that meets `P` gains
    something, the gains of a run are paid by the potential, and bound how often `P` is met. -/
theorem amortised {Inv : σ → Prop} {Ok : ι → ω → Prop} (gain : ω → ℕ) (potential : σ → ℕ)
    (keep : ∀ t i u o, Inv t → Ok i o → step t i = .ok (u, o) →
      Inv u ∧ (P t i → 1 ≤ gain o) ∧ gain o + potential u ≤ potential t)
    (hs : Inv s) {is : List ι} {u : σ} {tr : List (ι × ω)} (hrun : run step s is = .ok (u, tr))
    (hok : ∀ e ∈ tr, Ok e.1 e.2) :
    Inv u ∧ tally step P s is ≤ total gain tr ∧ total gain tr + potential u ≤ potential s := by
  induction is generalizing s tr with
  | nil =>
    cases hrun
    exact ⟨hs, le_rfl, by simp [total]⟩
  | cons i is ih =>
    obtain ⟨t, o, tr', hstep, hr, rfl⟩ := run_cons_eq_ok.mp hrun
    obtain ⟨ht, hgain, hpot⟩ := keep s i t o hs (hok _ List.mem_cons_self) hstep
    obtain ⟨hu, htally, htotal⟩ := ih ht hr fun e he => hok e (List.mem_cons_of_mem _ he)
    have hsum : total gain ((i, o) :: tr') = gain o + total gain tr' := by simp [total]
    have hcount : tally step P s (i :: is) = (if P s i then 1 else 0) + tally step P t is := by
      rw [tally, hstep]
    refine ⟨hu, ?_, by omega⟩
    rw [hcount, hsum]
    split_ifs with hP
    · have := hgain hP
      omega
    · omega

end Amortised

/-! ## Progress -/

/-- When from every state that is not yet `Done` some run keeps the invariant and gets there, or
    makes the measure smaller, some run gets there. Both may speak of the trace so far. -/
theorem exists_run_of_rounds {β : Type} {lt : β → β → Prop} (wf : WellFounded lt) (measure : σ → β)
    (Inv Done : σ → List (ι × ω) → Prop)
    (progress : ∀ t tr, Inv t tr → ¬ Done t tr → ∃ is u tr', run step t is = .ok (u, tr') ∧
      Inv u (tr ++ tr') ∧ (Done u (tr ++ tr') ∨ lt (measure u) (measure t)))
    (tr : List (ι × ω)) (hs : Inv s tr) :
    ∃ is t tr', run step s is = .ok (t, tr') ∧ Inv t (tr ++ tr') ∧ Done t (tr ++ tr') := by
  induction hm : measure s using wf.induction generalizing s tr with
  | _ m ih =>
    subst hm
    by_cases hd : Done s tr
    · exact ⟨[], s, [], rfl, by rwa [List.append_nil], by rwa [List.append_nil]⟩
    · obtain ⟨is, u, tr', hr, hu, hdone | hlt⟩ := progress s tr hs hd
      · exact ⟨is, u, tr', hr, hu, hdone⟩
      · obtain ⟨js, t, tr'', hr', ht, hdone⟩ := ih (measure u) hlt _ hu rfl
        rw [List.append_assoc] at ht hdone
        exact ⟨is ++ js, t, tr' ++ tr'', run_append hr hr', ht, hdone⟩

/-- When in every state that is not yet `Done` some step keeps the invariant and
    makes the measure smaller, some run gets to a state that is. -/
theorem exists_run_of_progress {β : Type} {lt : β → β → Prop} (wf : WellFounded lt) (measure : σ → β)
    {Inv Done : σ → Prop}
    (progress : ∀ t, Inv t → ¬ Done t →
      ∃ i u o, step t i = .ok (u, o) ∧ Inv u ∧ lt (measure u) (measure t))
    (hs : Inv s) : ∃ is t tr, run step s is = .ok (t, tr) ∧ Inv t ∧ Done t := by
  obtain ⟨is, t, tr, hrun, ht, hdone⟩ := exists_run_of_rounds wf measure (fun t _ => Inv t)
    (fun t _ => Done t) (fun t _ ht hd => by
      obtain ⟨i, u, o, hstep, hu, hlt⟩ := progress t ht hd
      exact ⟨[i], u, [(i, o)], run_cons_eq_ok.mpr ⟨u, o, [], hstep, rfl, rfl⟩, hu, .inr hlt⟩) [] hs
  exact ⟨is, t, tr, hrun, ht, hdone⟩

end Machine
