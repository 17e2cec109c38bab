import LiveTest.OneSlot
import LiveTest.Service.Gets
import LiveTest.Service.Outputs
import Mathlib.Algebra.Order.Group.Multiset
import Mathlib.Tactic.Abel

/-!
# What becomes of a request

A request is answered at once, or its sender waits in one of four tables until an
input touches its entry. Only `BlockGet` answers the sender that it displaces: a
`DhtAdd`, a `Bootstrap` or a `ListenOn` drops it, and so does a `Bootstrap` that
fails with its own.

* `step_outcomes`: a step replies at once, and answers what `OneSlot.answer` says.
* `request_outcome`: in every run, the replies to each request.
-/

namespace LiveTest

open Rust Machine OneSlot Ledger

variable {L : Libp2p}

/-! ## What an input does -/

/-- The reply to a command that is answered at once. -/
def Input.immediate (i : Input L) : Option (ChanId × Reply L) :=
  match i.effect with
  | .spend sender => i.reply.map fun reply => (sender, reply)
  | _ => none

/-- What the input does to the tables; the sender that it finds there gets a reply, or is
    dropped. -/
def Input.touchSlot (i : Input L) : Option (Touch (Slot L) ChanId (Option (Reply L))) :=
  match i.effect with
  | .park slot sender true => some ⟨slot, i.reply, some sender⟩
  | .park slot sender false => some ⟨slot, none, some sender⟩
  | .take slot => some ⟨slot, i.reply, none⟩
  | .skip | .spend _ | .lose _ => none

/-- What the inputs do to the tables. -/
def slotTouches (is : List (Input L)) : List (Touch (Slot L) ChanId (Option (Reply L))) :=
  is.filterMap Input.touchSlot

/-- What becomes of the request `i` when the inputs `later` follow: what it is answered with, if it
    is. -/
def Input.outcome (later : List (Input L)) (i : Input L) : Option (Reply L) :=
  match i.effect with
  | .spend _ => i.reply
  | .park slot _ _ => ((slotTouches later).find? fun t => t.key = slot).bind Touch.res
  | .skip | .lose _ | .take _ => none

/-- The replies of a step all say the same. -/
theorem repliesIn_eq {i : Input L} {out : List (Output L)} (h : ∀ o ∈ out, o.CausedBy i) :
    repliesIn out = (repliedTo out).filterMap fun sender => i.reply.map fun r => (sender, r) := by
  induction out with
  | nil => rfl
  | cons o out ih =>
    have htail := ih fun o ho => h o (List.mem_cons_of_mem _ ho)
    cases o with
    | reply sender r =>
      have hr : i.reply = some r := h _ List.mem_cons_self
      simp only [repliesIn, repliedTo, List.filterMap_cons, hr, Option.map_some] at htail ⊢
      rw [htail]
    | _ => exact htail

/-- The answers that carry a reply. -/
def replyAnswers (as : List (ChanId × Option (Reply L))) : List (ChanId × Reply L) :=
  as.filterMap fun a => a.2.map fun r => (a.1, r)

/-- A step whose clients are there replies at once, or answers who waits in the slot it touches. -/
structure OutcomeStep (s : System L) (i : Input L) (s' : System L) (out : List (Output L)) :
    Prop where
  step : s.step i = .ok (s', out)
  wellFormed : s'.service.blockExchange.WellFormed
  dropped_eq : s'.dropped = ∅
  stored : s'.service.stored = i.touchSlot.toList.foldl after s.service.stored
  replies : repliesIn out =
    i.immediate.toList ++ replyAnswers (answers s.service.stored i.touchSlot.toList)

theorem step_outcomes {s : System L} (hwf : s.service.blockExchange.WellFormed)
    (hdropped : s.dropped = ∅) {i : Input L} (hi : ∀ chan, i ≠ .drop chan) :
    ∃ s' out, OutcomeStep s i s' out := by
  obtain ⟨s', out, h⟩ := step_replies hwf i (by simp [hdropped])
  refine ⟨s', out, h.step, h.wellFormed, ?_, ?_, ?_⟩
  · rw [h.dropped, hdropped]
    cases i with
    | drop chan => exact absurd rfl (hi chan)
    | _ => rfl
  · rw [h.stored]
    unfold Input.touchSlot
    cases i.effect with
    | park slot sender b => cases b <;> rfl
    | _ => rfl
  · have hreplied : repliedTo out = i.effect.spent s.service.stored := by
      rw [h.replied, hdropped]
      exact List.filter_eq_self.mpr (by simp)
    rw [repliesIn_eq (step_causedBy h.step), hreplied]
    unfold Input.touchSlot Input.immediate
    cases i.effect with
    | park slot sender b => cases b <;> simp [Effect.spent, replyAnswers, answers, answer]
    | spend sender => cases hr : i.reply <;> simp [Effect.spent, replyAnswers, answers]
    | _ => simp [Effect.spent, replyAnswers, answers, answer]

/-! ## Runs -/

/-- No client leaves. -/
def ClientsStay (is : List (Input L)) : Prop := ∀ i ∈ is, ∀ chan, i ≠ .drop chan

theorem exists_run_of_clientsStay {s : System L} (hwf : s.service.blockExchange.WellFormed)
    (hdropped : s.dropped = ∅) {is : List (Input L)} (hstay : ClientsStay is) :
    ∃ t tr, run System.step s is = .ok (t, tr) := by
  obtain ⟨t, tr, hrun, -⟩ := run_induction ClientsStay
    (fun (s : System L) _ => s.service.blockExchange.WellFormed ∧ s.dropped = ∅)
    (fun is i h j hj => h j (List.mem_append_left _ hj)) ⟨hwf, hdropped⟩
    (fun s tr i h hstay _ => by
      obtain ⟨s', out, hs⟩ := step_outcomes h.1 h.2 (hstay i (by simp))
      exact ⟨s', out, hs.step, hs.wellFormed, hs.dropped_eq⟩) hstay (meets_true is)
  exact ⟨t, tr, hrun⟩

theorem slotTouches_cons (i : Input L) (is : List (Input L)) :
    slotTouches (i :: is) = i.touchSlot.toList ++ slotTouches is := by
  unfold slotTouches
  cases hi : i.touchSlot <;> simp [hi]

theorem replyAnswers_append (as bs : List (ChanId × Option (Reply L))) :
    replyAnswers (as ++ bs) = replyAnswers as ++ replyAnswers bs := List.filterMap_append

/-- The replies of a run are those that are sent at once and the answers of the tables. -/
theorem repliesIn_perm {s t : System L} (hwf : s.service.blockExchange.WellFormed)
    (hdropped : s.dropped = ∅) {is : List (Input L)} (hstay : ClientsStay is)
    {tr : List (Input L × List (Output L))} (hrun : run System.step s is = .ok (t, tr)) :
    (tr.flatMap fun e => repliesIn e.2).Perm (is.filterMap Input.immediate ++
      replyAnswers (answers s.service.stored (slotTouches is))) := by
  induction is generalizing s tr with
  | nil =>
    cases hrun
    exact .refl _
  | cons i is ih =>
    obtain ⟨u, out, tr', hs, hr, rfl⟩ := run_cons_eq_ok.mp hrun
    obtain ⟨u', out', h⟩ := step_outcomes hwf hdropped (hstay i List.mem_cons_self)
    have hsame := hs.symm.trans h.step
    cases hsame
    have hrest := ih h.wellFormed h.dropped_eq (fun j hj => hstay j (List.mem_cons_of_mem _ hj)) hr
    have hcons : (i :: is).filterMap Input.immediate =
        i.immediate.toList ++ is.filterMap Input.immediate := by
      cases hi : i.immediate <;> simp [hi]
    rw [List.flatMap_cons, hcons, slotTouches_cons, answers_append, replyAnswers_append,
      ← h.stored, h.replies]
    refine Multiset.coe_eq_coe.mp ?_
    simp only [← Multiset.coe_add, Multiset.coe_eq_coe.mpr hrest]
    abel

/-! ## One request -/

theorem received_of_immediate {i : Input L} {sender : ChanId} {r : Reply L}
    (h : i.immediate = some (sender, r)) : i.effect.received = some sender := by
  unfold Input.immediate at h
  split at h
  · next sender' heff =>
    obtain ⟨_, -, heq⟩ := Option.map_eq_some_iff.mp h
    cases heq
    rw [heff]
    rfl
  · cases h

theorem received_of_touchSlot {i : Input L} {t : Touch (Slot L) ChanId (Option (Reply L))}
    (h : i.touchSlot = some t) {sender : ChanId} (ht : t.tok = some sender) :
    i.effect.received = some sender := by
  unfold Input.touchSlot at h
  split at h <;> cases h <;> cases ht <;> simp [Effect.received, *]

theorem mem_received {is : List (Input L)} {i : Input L} (hi : i ∈ is) {sender : ChanId}
    (h : i.effect.received = some sender) : sender ∈ received is := by
  rw [effect_received] at h
  exact List.mem_filterMap.mpr ⟨i, hi, h⟩

/-- The inputs before and after a request do not carry its sender. -/
theorem ClientsWait.others {earlier later : List (Input L)} {i : Input L} {sender : ChanId}
    (hwait : ClientsWait (earlier ++ i :: later)) (hi : i.effect.received = some sender) :
    (∀ j ∈ earlier, j.effect.received ≠ some sender) ∧
      ∀ j ∈ later, j.effect.received ≠ some sender := by
  have hnodup := hwait.2
  have hreceived : received (earlier ++ i :: later) =
      received earlier ++ sender :: received later := by
    rw [List.append_cons, received, List.filterMap_append, ← received, ← received, received_concat,
      hi, Option.toList_some, List.append_assoc, List.singleton_append]
  rw [hreceived, List.nodup_append] at hnodup
  exact ⟨fun j hj h => hnodup.2.2 sender (mem_received hj h) sender List.mem_cons_self rfl,
    fun j hj h => (List.nodup_cons.mp hnodup.2.1).1 (mem_received hj h)⟩

theorem answersTo_replyAnswers (sender : ChanId) (as : List (ChanId × Option (Reply L))) :
    answersTo sender (replyAnswers as) = (answersTo sender as).filterMap id := by
  induction as with
  | nil => rfl
  | cons a as ih =>
    obtain ⟨tok, res⟩ := a
    unfold answersTo replyAnswers at ih ⊢
    cases res <;> by_cases htok : tok = sender <;> simp_all

/-- The replies to a sender, when no input that comes with others carries it. -/
theorem immediate_filterMap {is : List (Input L)} {sender : ChanId}
    (h : ∀ i ∈ is, i.effect.received ≠ some sender) :
    answersTo sender (is.filterMap Input.immediate) = [] := by
  refine List.filterMap_eq_nil_iff.mpr fun a ha => ?_
  obtain ⟨i, hi, himm⟩ := List.mem_filterMap.mp ha
  have hne : a.1 ≠ sender := fun heq => h i hi (heq ▸ received_of_immediate (r := a.2) himm)
  rw [if_neg hne]

theorem slotTouches_tok {is : List (Input L)} {sender : ChanId}
    (h : ∀ i ∈ is, i.effect.received ≠ some sender) : ∀ t ∈ slotTouches is, t.tok ≠ some sender := by
  intro t ht htok
  obtain ⟨i, hi, htouch⟩ := List.mem_filterMap.mp ht
  exact h i hi (received_of_touchSlot htouch htok)

/-- The table answers for a request. -/
theorem answersTo_request {earlier later : List (Input L)} {i : Input L} {sender : ChanId}
    (hwait : ClientsWait (earlier ++ i :: later)) (hi : i.effect.received = some sender) :
    answersTo sender ((earlier ++ i :: later).filterMap Input.immediate) ++
      (answersTo sender (answers (fun _ => none) (slotTouches (earlier ++ i :: later)))).filterMap id =
        (i.outcome later).toList := by
  obtain ⟨hearlier, hlater⟩ := hwait.others hi
  have hbefore := slotTouches_tok hearlier
  have hafter := slotTouches_tok hlater
  have himmediate : answersTo sender ((earlier ++ i :: later).filterMap Input.immediate) =
      answersTo sender i.immediate.toList := by
    rw [List.append_cons, List.filterMap_append, List.filterMap_append, answersTo_append,
      answersTo_append, immediate_filterMap hearlier, immediate_filterMap hlater]
    cases himm : i.immediate <;> simp [himm]
  have htouches : slotTouches (earlier ++ i :: later) =
      slotTouches earlier ++ (i.touchSlot.toList ++ slotTouches later) := by
    rw [← slotTouches_cons, slotTouches, List.filterMap_append]
    rfl
  have habsent : i.touchSlot = none →
      answersTo sender (answers (fun _ => none) (slotTouches (earlier ++ i :: later))) = [] := by
    intro hnone
    rw [htouches, hnone]
    refine answersTo_absent (by simp) fun t ht => ?_
    rcases List.mem_append.mp ht with ht | ht
    · exact hbefore t ht
    · exact hafter t ht
  rw [himmediate]
  cases heff : i.effect with
  | skip => simp [heff, Effect.received] at hi
  | take slot => simp [heff, Effect.received] at hi
  | spend sender' =>
    obtain rfl : sender' = sender := by simpa [heff, Effect.received] using hi
    rw [habsent (by simp [Input.touchSlot, heff])]
    cases hreply : i.reply <;> simp [Input.immediate, Input.outcome, heff, hreply, answersTo]
  | lose sender' =>
    rw [habsent (by simp [Input.touchSlot, heff])]
    simp [Input.immediate, Input.outcome, heff, answersTo]
  | park slot sender' b =>
    obtain rfl : sender' = sender := by simpa [heff, Effect.received] using hi
    obtain ⟨res, htouch⟩ : ∃ res, i.touchSlot = some ⟨slot, res, some sender'⟩ := by
      cases b <;> simp [Input.touchSlot, heff]
    rw [htouches, htouch, Option.toList_some, List.singleton_append,
      answersTo_eq (k := slot) hbefore hafter]
    simp only [Input.immediate, Input.outcome, heff]
    cases hfind : (slotTouches later).find? fun t => t.key = slot with
    | none => rfl
    | some t => cases hres : t.res <;> simp [answersTo, hres]

/-- In every run with no departures and in which every request has a sender of its own, over any
    commands and events, the replies to a request are those of its `outcome`: at once, or what the
    first later input that touches its table entry says. -/
theorem request_outcome (maxConcurrentSend : ℕ) {is : List (Input L)} (hwait : ClientsWait is) :
    ∃ s tr, run System.step (System.new maxConcurrentSend) is = .ok (s, tr) ∧
      ∀ earlier ans cmd sender later, is = earlier ++ .command ans cmd :: later →
        cmd.sender = some sender →
        repliesTo sender tr = ((Input.command ans cmd).outcome later).toList := by
  obtain ⟨s, tr, hrun⟩ := exists_run_of_clientsStay (s := System.new maxConcurrentSend)
    BlockExchange.WellFormed.default rfl hwait.1
  refine ⟨s, tr, hrun, ?_⟩
  rintro earlier ans cmd sender later rfl hsender
  have hi : (Input.command ans cmd : Input L).effect.received = some sender := by
    rw [effect_received]
    exact hsender
  have hstored : (System.new maxConcurrentSend : System L).service.stored = fun _ => none := by
    ext1 slot
    cases slot <;> rfl
  have hperm := repliesIn_perm (s := System.new maxConcurrentSend) BlockExchange.WellFormed.default
    rfl hwait.1 hrun
  have hsame : (repliesTo sender tr).Perm ((Input.command ans cmd).outcome later).toList := by
    rw [← answersTo_request hwait hi, ← answersTo_replyAnswers, ← answersTo_append, ← hstored]
    exact hperm.filterMap _
  -- a request has one outcome at most
  cases houtcome : (Input.command ans cmd).outcome later with
  | none =>
    rw [houtcome] at hsame
    exact List.perm_nil.mp hsame
  | some r =>
    rw [houtcome] at hsame
    exact List.perm_singleton.mp hsame

/-- Two `DhtAdd`s for peer 5 and a `ListenOn`: the first `DhtAdd` is never answered. -/
theorem request_outcome_example :
    ∃ s tr, run System.step (System.new 1 : System Libp2p.nat)
      [.command Answers.nat (.dhtAdd 5 0 0), .command Answers.nat (.listenOn 9 1),
        .command Answers.nat (.dhtAdd 5 0 2), .event (.behaviour (.kademlia (.routingUpdated 5))),
        .event (.newListenAddr 0 9)] = .ok (s, tr) ∧
      repliesTo 0 tr = [] ∧ repliesTo 1 tr = [.listenOn (.ok 9)] ∧ repliesTo 2 tr = [.dhtAdd] := by
  obtain ⟨s, tr, hrun, h⟩ := @request_outcome Libp2p.nat 1 [.command Answers.nat (.dhtAdd 5 0 0),
    .command Answers.nat (.listenOn 9 1), .command Answers.nat (.dhtAdd 5 0 2),
    .event (.behaviour (.kademlia (.routingUpdated 5))), .event (.newListenAddr 0 9)]
    ⟨by simp, by decide⟩
  exact ⟨s, tr, hrun, h [] _ _ 0 _ rfl rfl, h [_] _ _ 1 _ rfl rfl, h [_, _] _ _ 2 _ rfl rfl⟩

end LiveTest
