import Mathlib.Data.List.Count
import Mathlib.Logic.Function.Basic

/-!
# Accounts of one-shot tokens

A token is received once and should be spent once; until then it may be kept in
a table, one token a slot. A step spends a token on arrival, puts one in a slot
or spends the one in a slot. It can also lose one: drop it on arrival, or put
another one in its slot.

* `Effect.apply`: the steps on an account.
* `Sound.apply`: a step that loses nothing keeps every received token either
  spent exactly once or in exactly one slot.
* `not_balanced_of_not_keeps`: after a step that loses a token, that token is
  neither spent nor in a slot.
-/

namespace Ledger

variable {Slot Tok : Type}

/-- What became of the tokens so far. -/
structure Account (Slot Tok : Type) where
  stored : Slot → Option Tok
  received : List Tok
  spent : List Tok

/-- What one step does. -/
inductive Effect (Slot Tok : Type) where
  | skip
  /-- A token arrives and is spent. -/
  | spend (tok : Tok)
  /-- A token arrives and is dropped. -/
  | lose (tok : Tok)
  /-- A token arrives and is put in the slot; one that it displaces is spent or dropped. -/
  | park (slot : Slot) (tok : Tok) (spendsDisplaced : Bool)
  /-- The token in the slot, if there is one, is spent. -/
  | take (slot : Slot)

variable [DecidableEq Slot]

namespace Effect

/-- The token that arrives. -/
def received : Effect Slot Tok → Option Tok
  | .spend tok | .lose tok | .park _ tok _ => some tok
  | .skip | .take _ => none

/-- The table after the step. -/
def after (stored : Slot → Option Tok) : Effect Slot Tok → Slot → Option Tok
  | .park slot tok _ => Function.update stored slot (some tok)
  | .take slot => Function.update stored slot none
  | .skip | .spend _ | .lose _ => stored

/-- The tokens that the step spends. -/
def spent (stored : Slot → Option Tok) : Effect Slot Tok → List Tok
  | .spend tok => [tok]
  | .park slot _ true => (stored slot).toList
  | .take slot => (stored slot).toList
  | .skip | .lose _ | .park _ _ false => []

/-- The step on the account. -/
def apply (e : Effect Slot Tok) (a : Account Slot Tok) : Account Slot Tok :=
  ⟨e.after a.stored, a.received ++ e.received.toList, a.spent ++ e.spent a.stored⟩

/-- The step loses no token. -/
def Keeps (stored : Slot → Option Tok) : Effect Slot Tok → Prop
  | .lose _ => False
  | .park slot _ false => stored slot = none
  | .skip | .spend _ | .park _ _ true | .take _ => True

/-- A token that is in no slot and does not arrive is not spent, and gets into no slot. -/
theorem not_spent_of_absent {stored : Slot → Option Tok} {tok : Tok}
    (h : ∀ slot, stored slot ≠ some tok) (e : Effect Slot Tok) (hnew : e.received ≠ some tok) :
    tok ∉ e.spent stored ∧ ∀ slot, e.after stored slot ≠ some tok := by
  have hslot : ∀ slot v, v ≠ some tok → ∀ slot', Function.update stored slot v slot' ≠ some tok := by
    intro slot v hv slot'
    by_cases heq : slot' = slot
    · rwa [heq, Function.update_self]
    · rw [Function.update_of_ne heq]
      exact h slot'
  cases e with
  | skip => exact ⟨List.not_mem_nil, h⟩
  | spend tok' => exact ⟨fun hmem => hnew (congrArg some (List.mem_singleton.mp hmem).symm), h⟩
  | lose tok' => exact ⟨List.not_mem_nil, h⟩
  | park slot tok' b =>
    refine ⟨?_, hslot slot _ hnew⟩
    cases b with
    | false => exact List.not_mem_nil
    | true => exact fun hmem => h slot (Option.mem_toList.mp hmem)
  | take slot => exact ⟨fun hmem => h slot (Option.mem_toList.mp hmem), hslot slot _ (by simp)⟩

end Effect

variable [DecidableEq Tok]

/-- Every received token was spent once and is in no slot, or was not spent and is in a slot. -/
def Account.Balanced (a : Account Slot Tok) : Prop :=
  ∀ tok ∈ a.received,
    (a.spent.count tok = 1 ∧ ∀ slot, a.stored slot ≠ some tok) ∨
    (a.spent.count tok = 0 ∧ ∃ slot, a.stored slot = some tok)

/-- The invariant: the account is balanced, and a token has at most one slot, and only after it
    has been received. -/
structure Account.Sound (a : Account Slot Tok) : Prop where
  balanced : a.Balanced
  received_of_spent : ∀ tok ∈ a.spent, tok ∈ a.received
  received_of_stored : ∀ slot tok, a.stored slot = some tok → tok ∈ a.received
  stored_inj : ∀ slot slot' tok, a.stored slot = some tok → a.stored slot' = some tok →
    slot = slot'

variable {a : Account Slot Tok} {e : Effect Slot Tok}

omit [DecidableEq Slot] in
theorem Account.Sound.init : (⟨fun _ => none, [], []⟩ : Account Slot Tok).Sound := by
  constructor <;> simp [Account.Balanced]

omit [DecidableEq Slot] in
/-- A token in a slot has not been spent. -/
theorem Account.Sound.not_spent (h : a.Sound) {slot : Slot} {tok : Tok}
    (hs : a.stored slot = some tok) : tok ∉ a.spent := by
  rcases h.balanced tok (h.received_of_stored slot tok hs) with ⟨-, hno⟩ | ⟨hcount, -⟩
  · exact absurd hs (hno slot)
  · exact List.count_eq_zero.mp hcount

/-- A token arrives in a slot that is free. -/
theorem Account.Sound.park (h : a.Sound) (slot : Slot) {tok : Tok} (hnew : tok ∉ a.received)
    (hfree : a.stored slot = none) :
    (⟨Function.update a.stored slot (some tok), a.received ++ [tok], a.spent⟩ :
      Account Slot Tok).Sound := by
  have hold : ∀ slot' tok', tok' ≠ tok →
      (Function.update a.stored slot (some tok) slot' = some tok' ↔ a.stored slot' = some tok') := by
    intro slot' tok' hne
    by_cases hs : slot' = slot
    · subst hs
      simp [hfree, Ne.symm hne]
    · simp [hs]
  have hin : ∀ slot', Function.update a.stored slot (some tok) slot' = some tok ↔ slot' = slot := by
    intro slot'
    by_cases hs : slot' = slot
    · simp [hs]
    · simp only [ne_eq, hs, not_false_eq_true, Function.update_of_ne, iff_false]
      exact fun hst => hnew (h.received_of_stored slot' tok hst)
  have hne : ∀ tok' ∈ a.received, tok' ≠ tok := fun tok' hm he => hnew (he ▸ hm)
  constructor
  · intro tok' hmem
    by_cases htok : tok' = tok
    · subst htok
      exact .inr ⟨List.count_eq_zero.mpr fun hs => hnew (h.received_of_spent tok' hs), slot,
        (hin slot).mpr rfl⟩
    · have hmem' : tok' ∈ a.received := by simpa [htok] using hmem
      simpa only [ne_eq, hold _ _ htok] using h.balanced tok' hmem'
  · exact fun tok' hs => List.mem_append_left _ (h.received_of_spent tok' hs)
  · intro slot' tok' hs
    by_cases htok : tok' = tok
    · simp [htok]
    · exact List.mem_append_left _ (h.received_of_stored slot' tok' ((hold _ _ htok).mp hs))
  · intro slot₁ slot₂ tok' h₁ h₂
    by_cases htok : tok' = tok
    · subst htok
      rw [(hin slot₁).mp h₁, (hin slot₂).mp h₂]
    · exact h.stored_inj _ _ tok' ((hold _ _ htok).mp h₁) ((hold _ _ htok).mp h₂)

omit [DecidableEq Slot] in
/-- A token arrives and is spent. -/
theorem Account.Sound.spend (h : a.Sound) {tok : Tok} (hnew : tok ∉ a.received) :
    (⟨a.stored, a.received ++ [tok], a.spent ++ [tok]⟩ : Account Slot Tok).Sound := by
  have hno : ∀ slot, a.stored slot ≠ some tok := fun slot hs =>
    hnew (h.received_of_stored slot tok hs)
  have hcount : a.spent.count tok = 0 :=
    List.count_eq_zero.mpr fun hs => hnew (h.received_of_spent tok hs)
  constructor
  · intro tok' hmem
    by_cases htok : tok' = tok
    · subst htok
      exact .inl ⟨by simp [hcount], hno⟩
    · have hmem' : tok' ∈ a.received := by simpa [htok] using hmem
      simpa [List.count_append, Ne.symm htok] using h.balanced tok' hmem'
  · intro tok' hs
    rcases List.mem_append.mp hs with hs | hs
    · exact List.mem_append_left _ (h.received_of_spent tok' hs)
    · exact List.mem_append_right _ hs
  · exact fun slot tok' hs => List.mem_append_left _ (h.received_of_stored slot tok' hs)
  · exact h.stored_inj

/-- The token in a slot is spent. -/
theorem Account.Sound.take (h : a.Sound) (slot : Slot) :
    (⟨Function.update a.stored slot none, a.received, a.spent ++ (a.stored slot).toList⟩ :
      Account Slot Tok).Sound := by
  cases hst : a.stored slot with
  | none =>
    rw [← hst, Function.update_eq_self, hst]
    simpa using h
  | some tok =>
    have hin : ∀ slot' tok', Function.update a.stored slot none slot' = some tok' ↔
        a.stored slot' = some tok' ∧ tok' ≠ tok := by
      intro slot' tok'
      by_cases hs : slot' = slot
      · subst hs
        simp [hst, eq_comm]
      · simp only [ne_eq, hs, not_false_eq_true, Function.update_of_ne]
        refine ⟨fun hs' => ⟨hs', ?_⟩, fun hs' => hs'.1⟩
        rintro rfl
        exact hs (h.stored_inj _ _ _ hs' hst)
    have hcount : a.spent.count tok = 0 := List.count_eq_zero.mpr (h.not_spent hst)
    constructor
    · intro tok' hmem
      by_cases htok : tok' = tok
      · subst htok
        exact .inl ⟨by simp [hcount], fun slot' hs => ((hin _ _).mp hs).2 rfl⟩
      · simpa [List.count_append, hin, htok, Ne.symm htok] using h.balanced tok' hmem
    · intro tok' hs
      rcases List.mem_append.mp hs with hs | hs
      · exact h.received_of_spent tok' hs
      · obtain rfl : tok = tok' := by simpa [eq_comm] using hs
        exact h.received_of_stored slot tok hst
    · exact fun slot' tok' hs => h.received_of_stored slot' tok' ((hin _ _).mp hs).1
    · exact fun _ _ tok' h₁ h₂ => h.stored_inj _ _ tok' ((hin _ _).mp h₁).1 ((hin _ _).mp h₂).1

/-- A step that loses no token keeps the invariant. -/
theorem Account.Sound.apply (h : a.Sound) (hnew : ∀ tok ∈ e.received, tok ∉ a.received)
    (hkeeps : e.Keeps a.stored) : (e.apply a).Sound := by
  cases e with
  | skip => simpa [Effect.apply, Effect.after, Effect.received, Effect.spent] using h
  | spend tok => exact h.spend (hnew tok rfl)
  | lose tok => exact hkeeps.elim
  | take slot => simpa [Effect.apply, Effect.after, Effect.received, Effect.spent] using h.take slot
  | park slot tok spendsDisplaced =>
    cases spendsDisplaced with
    | false =>
      simpa [Effect.apply, Effect.after, Effect.received, Effect.spent] using
        h.park slot (hnew tok rfl) hkeeps
    | true =>
      -- as if the displaced token were taken first
      have := (h.take slot).park slot (hnew tok rfl) (by simp)
      simpa [Effect.apply, Effect.after, Effect.received, Effect.spent] using this

/-- After a step that loses a token, that token is nowhere. -/
theorem not_balanced_of_not_keeps (h : a.Sound) (hnew : ∀ tok ∈ e.received, tok ∉ a.received)
    (hkeeps : ¬ e.Keeps a.stored) : ¬ (e.apply a).Balanced := by
  cases e with
  | lose tok =>
    intro hb
    rcases hb tok (by simp [Effect.apply, Effect.received]) with ⟨hcount, -⟩ | ⟨-, slot, hs⟩
    · have hno : tok ∉ a.spent := fun hs => hnew tok rfl (h.received_of_spent tok hs)
      simp [Effect.apply, Effect.spent, List.count_eq_zero.mpr hno] at hcount
    · exact hnew tok rfl (h.received_of_stored slot tok hs)
  | park slot tok spendsDisplaced =>
    cases spendsDisplaced with
    | false =>
      obtain ⟨lost, hlost⟩ := Option.ne_none_iff_exists'.mp hkeeps
      have hmem := h.received_of_stored slot lost hlost
      have hne : tok ≠ lost := by
        rintro rfl
        exact hnew tok rfl hmem
      intro hb
      rcases hb lost (List.mem_append_left _ hmem) with ⟨hcount, -⟩ | ⟨-, slot', hs⟩
      · simp [Effect.apply, Effect.spent, List.count_eq_zero.mpr (h.not_spent hlost)] at hcount
      · by_cases hslot : slot' = slot
        · subst hslot
          simp only [Effect.apply, Effect.after, Function.update_self, Option.some.injEq] at hs
          exact hne hs
        · simp only [Effect.apply, Effect.after, ne_eq, hslot, not_false_eq_true,
            Function.update_of_ne] at hs
          exact hslot (h.stored_inj _ _ _ hs hlost)
    | true => exact absurd trivial hkeeps
  | _ => exact absurd trivial hkeeps

end Ledger
