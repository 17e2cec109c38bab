import Mathlib.Data.List.Basic
import Mathlib.Logic.Function.Basic

/-!
# Tables with one subscriber a topic

A subscriber is put under a topic, in the place of the one before it, and stays
there. A message on a topic goes to the subscriber under it, if there is one.

* `deliveredTo_eq`: a subscriber that is not replaced gets the later messages on
  its topic, once each and in their order.
* `deliveredTo_absent`: one that is put nowhere gets none.
-/

namespace Topics

variable {Topic Sub Msg : Type}

/-- What happens to the table. -/
inductive Event (Topic Sub Msg : Type) where
  | put (topic : Topic) (sub : Sub)
  | message (topic : Topic) (msg : Msg)

variable [DecidableEq Topic]

/-- The table after an event. -/
def after (table : Topic → Option Sub) : Event Topic Sub Msg → Topic → Option Sub
  | .put topic sub => Function.update table topic (some sub)
  | .message _ _ => table

omit [DecidableEq Topic] in
/-- What an event delivers. -/
def delivery (table : Topic → Option Sub) : Event Topic Sub Msg → List (Sub × Msg)
  | .put _ _ => []
  | .message topic msg => (table topic).toList.map fun sub => (sub, msg)

/-- What a history delivers, from a table. -/
def deliveries : (Topic → Option Sub) → List (Event Topic Sub Msg) → List (Sub × Msg)
  | _, [] => []
  | table, e :: es => delivery table e ++ deliveries (after table e) es

/-- The messages on a topic. -/
def messagesOn (topic : Topic) (es : List (Event Topic Sub Msg)) : List Msg :=
  es.filterMap fun
    | .message topic' msg => if topic' = topic then some msg else none
    | .put _ _ => none

theorem deliveries_append (table : Topic → Option Sub) (es fs : List (Event Topic Sub Msg)) :
    deliveries table (es ++ fs) = deliveries table es ++ deliveries (es.foldl after table) fs := by
  induction es generalizing table with
  | nil => rfl
  | cons e es ih =>
    rw [List.cons_append, deliveries, ih, deliveries, List.foldl_cons, List.append_assoc]

variable [DecidableEq Sub] {sub : Sub} {table : Topic → Option Sub}
  {es : List (Event Topic Sub Msg)}

omit [DecidableEq Topic] in
/-- The messages that a subscriber gets. -/
def deliveredTo (sub : Sub) (ds : List (Sub × Msg)) : List Msg :=
  ds.filterMap fun d => if d.1 = sub then some d.2 else none

omit [DecidableEq Topic] in
theorem deliveredTo_append (sub : Sub) (ds ds' : List (Sub × Msg)) :
    deliveredTo sub (ds ++ ds') = deliveredTo sub ds ++ deliveredTo sub ds' :=
  List.filterMap_append

omit [DecidableEq Topic] in
theorem deliveredTo_message (sub : Sub) (table : Topic → Option Sub) (topic : Topic) (msg : Msg) :
    deliveredTo sub (delivery table (.message topic msg)) =
      if table topic = some sub then [msg] else [] := by
  rw [delivery]
  cases table topic with
  | none => simp [deliveredTo]
  | some holder => by_cases heq : holder = sub <;> simp [deliveredTo, heq]

omit [DecidableEq Sub] in
theorem after_ne {e : Event Topic Sub Msg} (htable : ∀ t, table t ≠ some sub)
    (he : ∀ t, e ≠ .put t sub) (t : Topic) : after table e t ≠ some sub := by
  cases e with
  | message topic msg => exact htable t
  | put topic sub' =>
    rw [after, Function.update_apply]
    split_ifs
    · rintro ⟨rfl⟩
      exact he topic rfl
    · exact htable t

omit [DecidableEq Sub] in
/-- A subscriber that no event puts does not get into the table. -/
theorem foldl_after_ne (htable : ∀ t, table t ≠ some sub) (hes : ∀ t, .put t sub ∉ es)
    (t : Topic) : es.foldl after table t ≠ some sub := by
  induction es generalizing table with
  | nil => exact htable t
  | cons e es ih =>
    rw [List.foldl_cons]
    exact ih (after_ne htable fun t' he => hes t' (by simp [he]))
      fun t' ht' => hes t' (List.mem_cons_of_mem _ ht')

/-- A subscriber that is in the table under no topic, and is put under none, gets nothing. -/
theorem deliveredTo_absent (htable : ∀ t, table t ≠ some sub) (hes : ∀ t, .put t sub ∉ es) :
    deliveredTo sub (deliveries table es) = [] := by
  induction es generalizing table with
  | nil => rfl
  | cons e es ih =>
    have hes' : ∀ t, .put t sub ∉ es := fun t ht => hes t (List.mem_cons_of_mem _ ht)
    rw [deliveries, deliveredTo_append]
    cases e with
    | put topic sub' => exact ih (after_ne htable fun t he => hes t (by simp [he])) hes'
    | message topic msg =>
      rw [deliveredTo_message, if_neg (htable topic), List.nil_append]
      exact ih htable hes'

/-- A subscriber that is under `topic` alone, and is neither put elsewhere nor replaced, gets the
    messages on `topic`. -/
theorem deliveredTo_holding {topic : Topic} (hold : table topic = some sub)
    (hother : ∀ t, table t = some sub → t = topic) (hes : ∀ t, .put t sub ∉ es)
    (hkeep : ∀ sub', .put topic sub' ∉ es) :
    deliveredTo sub (deliveries table es) = messagesOn topic es := by
  induction es generalizing table with
  | nil => rfl
  | cons e es ih =>
    have hes' : ∀ t, .put t sub ∉ es := fun t ht => hes t (List.mem_cons_of_mem _ ht)
    have hkeep' : ∀ sub', .put topic sub' ∉ es := fun sub' ht =>
      hkeep sub' (List.mem_cons_of_mem _ ht)
    rw [deliveries, deliveredTo_append]
    cases e with
    | put topic' sub' =>
      have hne : topic ≠ topic' := by rintro rfl; exact hkeep sub' List.mem_cons_self
      refine (ih ?_ (fun t ht => ?_) hes' hkeep').trans rfl
      · rw [after, Function.update_of_ne hne]
        exact hold
      · rw [after, Function.update_apply] at ht
        split_ifs at ht
        · cases ht
          exact absurd List.mem_cons_self (hes topic')
        · exact hother t ht
    | message topic' msg =>
      rw [deliveredTo_message, after, ih hold hother hes' hkeep']
      by_cases ht : topic' = topic
      · subst ht
        rw [if_pos hold]
        simp [messagesOn]
      · rw [if_neg fun h => ht (hother topic' h)]
        simp [messagesOn, ht]

/-- In a history from an empty table, a subscriber that is put once, and not replaced, gets the
    later messages on its topic. -/
theorem deliveredTo_eq {earlier later : List (Event Topic Sub Msg)} {topic : Topic}
    (hearlier : ∀ t, .put t sub ∉ earlier) (hlater : ∀ t, .put t sub ∉ later)
    (hkeep : ∀ sub', .put topic sub' ∉ later) :
    deliveredTo sub (deliveries (fun _ => none) (earlier ++ .put topic sub :: later)) =
      messagesOn topic later := by
  have hnone : ∀ t, earlier.foldl after (fun _ => none) t ≠ some sub :=
    foldl_after_ne (by simp) hearlier
  rw [deliveries_append, deliveredTo_append, deliveredTo_absent (by simp) hearlier,
    List.nil_append, deliveries, delivery, List.nil_append]
  refine deliveredTo_holding ?_ (fun t ht => ?_) hlater hkeep
  · rw [after, Function.update_self]
  · rw [after, Function.update_apply] at ht
    split_ifs at ht with heq
    · exact heq
    · exact absurd ht (hnone t)

end Topics
