import LiveTest.OneSlot
import LiveTest.Service.Replies

/-!
# What `get_block` returns

`pending_get_block` keeps one waiting sender a cid. A `BlockGet` displaces the
one that waits for its cid and answers it with an error; a `ReceivedBlock`
takes the one that waits for its cid out and answers it with the block.

* `step_gets`: a step answers what `OneSlot.answer` says, and only that.
* `getBlock_outcome`: a `BlockGet` is answered by the first later `BlockGet` or
  `ReceivedBlock` for its cid, and by nothing else.
-/

namespace LiveTest

open Rust Machine OneSlot

variable {L : Libp2p}

/-- The commands `BlockGet` and `BlockAdd`, and the bitswap events. -/
def Input.Gets : Input L → Prop
  | .command _ (.blockGet _ _) | .command _ (.blockAdd _) | .event (.behaviour (.bitswap _)) => True
  | _ => False

/-- The answer to a `BlockGet` that another one displaces (`background.rs`, lines 160–168). -/
def alreadyGetting : IoError := ⟨.alreadyExists, "Already Getting Block"⟩

/-- What the input does to `pending_get_block`. -/
def Input.touch : Input L → Option (Touch L.Cid ChanId (Except IoError (Block L.Cid)))
  | .command _ (.blockGet cid sender) => some ⟨cid, .error alreadyGetting, some sender⟩
  | .event (.behaviour (.bitswap (.receivedBlock _ block))) => some ⟨block.cid, .ok block, none⟩
  | _ => none

/-- The replies in the outputs of a step, with their senders. -/
def repliesIn (out : List (Output L)) : List (ChanId × Reply L) :=
  out.filterMap fun
    | .reply sender reply => some (sender, reply)
    | _ => none

/-- The replies to a sender in the steps of a trace. -/
def repliesTo (sender : ChanId) (tr : List (Input L × List (Output L))) : List (Reply L) :=
  answersTo sender (tr.flatMap fun e => repliesIn e.2)

/-! ## One step -/

theorem repliesIn_append (out out' : List (Output L)) :
    repliesIn (out ++ out') = repliesIn out ++ repliesIn out' := List.filterMap_append

theorem repliesIn_map (senders : List ChanId) (reply : Reply L) :
    repliesIn (senders.map (.reply · reply)) = senders.map fun sender => (sender, reply) := by
  induction senders with
  | nil => rfl
  | cons sender senders ih => exact congrArg ((sender, reply) :: ·) ih

/-- A step that uses no sender makes no reply. -/
theorem repliesIn_eq_nil {out : List (Output L)} (h : repliedTo out = []) : repliesIn out = [] := by
  rw [repliedTo, List.filterMap_eq_nil_iff] at h
  refine List.filterMap_eq_nil_iff.mpr fun o ho => ?_
  have := h o ho
  cases o with
  | reply sender reply => cases this
  | _ => rfl

/-- What a step does with the waiting senders. -/
structure GetStep (s : System L) (i : Input L) (s' : System L) (out : List (Output L)) : Prop where
  step : s.step i = .ok (s', out)
  wellFormed : s'.service.blockExchange.WellFormed
  dropped_eq : s'.dropped = ∅
  pending : s'.service.pendingGetBlock = i.touch.toList.foldl after s.service.pendingGetBlock
  replies : repliesIn out =
    (answers s.service.pendingGetBlock i.touch.toList).map fun a => (a.1, .blockGet a.2)

theorem repliedTo_sendWanted {s t : Service L} {out : List (Output L)}
    (h : s.sendWanted = .ok (t, out)) : repliedTo out = [] := by
  obtain ⟨wanted, -, h⟩ := bind_eq_ok.mp h
  cases h
  exact repliedTo_sendFirst _ _

/-- A received block goes to the sender that waits for its cid, whether or not the send cap is
    reached. -/
theorem repliesIn_receivedBlock {s s' : System L} (hdropped : s.dropped = ∅) {peer : L.PeerId}
    {block : Block L.Cid} {out : List (Output L)}
    (h : s.step (.receivedBlock peer block) = .ok (s', out)) :
    repliesIn out = (s.service.pendingGetBlock block.cid).toList.map fun sender =>
      (sender, .blockGet (.ok block)) := by
  obtain ⟨⟨service, out'⟩, hevent, h⟩ := bind_eq_ok.mp h
  cases h
  obtain ⟨⟨store, added⟩, -, hevent⟩ := bind_eq_ok.mp hevent
  obtain ⟨o, hsend, hevent⟩ := bind_eq_ok.mp hevent
  rw [expectSend_ok (by simp [hdropped]), Except.ok.injEq] at hsend
  subst hsend
  dsimp only at hevent
  split_ifs at hevent with hcap
  · cases hevent
    exact repliesIn_map _ _
  · obtain ⟨⟨t, sent⟩, hsent, hevent⟩ := bind_eq_ok.mp hevent
    cases hevent
    rw [repliesIn_append, repliesIn_map, repliesIn_eq_nil (repliedTo_sendWanted hsent),
      List.append_nil]

/-- A displaced sender is answered with the error. -/
theorem repliesIn_blockGet {s s' : System L} (hdropped : s.dropped = ∅) {answers : Answers L}
    {c : L.Cid} {sender : ChanId} {out : List (Output L)}
    (h : s.step (.command answers (.blockGet c sender)) = .ok (s', out)) :
    repliesIn out = (s.service.pendingGetBlock c).toList.map fun waiting =>
      (waiting, .blockGet (.error alreadyGetting)) := by
  obtain ⟨⟨service, out'⟩, hcommand, h⟩ := bind_eq_ok.mp h
  cases h
  obtain ⟨o, hsend, hcommand⟩ := bind_eq_ok.mp hcommand
  rw [expectSend_ok (by simp [hdropped]), Except.ok.injEq] at hsend
  subst hsend
  cases hcommand
  rw [repliesIn_append, repliesIn_map]
  exact List.append_nil _

theorem step_gets {s : System L} (hwf : s.service.blockExchange.WellFormed)
    (hdropped : s.dropped = ∅) {i : Input L} (hi : i.Gets) : ∃ s' out, GetStep s i s' out := by
  obtain ⟨s', out, h⟩ := step_replies hwf i (by simp [hdropped])
  have hd : s'.dropped = ∅ := by
    rw [h.dropped, hdropped]
    cases i with
    | drop chan => exact absurd hi id
    | _ => rfl
  have hpending : s'.service.pendingGetBlock =
      fun c => i.effect.after s.service.stored (.getBlock c) :=
    funext fun c => congrFun h.stored (.getBlock c)
  -- the inputs that leave the senders alone
  have hskip : i.touch = none → i.effect = .skip → GetStep s i s' out := by
    intro htouch heff
    refine ⟨h.step, h.wellFormed, hd, ?_, ?_⟩
    · rw [hpending, heff, htouch]
      rfl
    · have hnone : repliedTo out = [] := by rw [h.replied, heff]; rfl
      rw [repliesIn_eq_nil hnone, htouch]
      rfl
  refine ⟨s', out, ?_⟩
  cases i with
  | drop chan => exact absurd hi id
  | command ans cmd =>
    cases cmd with
    | blockGet c sender =>
      refine ⟨h.step, h.wellFormed, hd, ?_, ?_⟩
      · rw [hpending]
        funext c'
        simp [Input.effect, Ledger.Effect.after, Input.touch, after, Function.update_apply,
          Service.stored]
      · rw [repliesIn_blockGet hdropped h.step]
        simp [Input.touch, answers, answer]
    | blockAdd block => exact hskip rfl rfl
    | _ => exact absurd hi id
  | event event =>
    cases event with
    | behaviour event =>
      cases event with
      | bitswap event =>
        cases event with
        | receivedBlock peer block =>
          refine ⟨h.step, h.wellFormed, hd, ?_, ?_⟩
          · rw [hpending]
            funext c'
            simp [Input.effect, Ledger.Effect.after, Input.touch, after, Function.update_apply,
              Service.stored]
          · rw [repliesIn_receivedBlock hdropped h.step]
            simp [Input.touch, answers, answer]
        | receivedWant peer c priority => exact hskip rfl rfl
        | receivedCancel peer c => exact hskip rfl rfl
      | _ => exact absurd hi id
    | _ => exact absurd hi id

/-! ## The outcome -/

/-- What the inputs do to `pending_get_block`. -/
def touches (is : List (Input L)) : List (Touch L.Cid ChanId (Except IoError (Block L.Cid))) :=
  is.filterMap Input.touch

/-- What holds at every point of a run. -/
structure Gotten (s : System L) (tr : List (Input L × List (Output L))) : Prop where
  wellFormed : s.service.blockExchange.WellFormed
  dropped_eq : s.dropped = ∅
  pending : s.service.pendingGetBlock = (touches (tr.map Prod.fst)).foldl after fun _ => none
  replies : tr.flatMap (fun e => repliesIn e.2) =
    (answers (fun _ => none) (touches (tr.map Prod.fst))).map fun a => (a.1, .blockGet a.2)

theorem Gotten.init (maxConcurrentSend : ℕ) :
    Gotten (System.new maxConcurrentSend : System L) [] :=
  ⟨BlockExchange.WellFormed.default, rfl, rfl, rfl⟩

theorem Gotten.step {s s' : System L} {tr : List (Input L × List (Output L))} (h : Gotten s tr)
    {i : Input L} {out : List (Output L)} (hs : GetStep s i s' out) :
    Gotten s' (tr ++ [(i, out)]) := by
  have htouches : touches ((tr ++ [(i, out)]).map Prod.fst) =
      touches (tr.map Prod.fst) ++ i.touch.toList := by
    rw [touches, List.map_append, List.filterMap_append]
    cases ht : i.touch <;> simp [touches, ht]
  refine ⟨hs.wellFormed, hs.dropped_eq, ?_, ?_⟩
  · rw [htouches, List.foldl_append, ← h.pending]
    exact hs.pending
  · rw [htouches, answers_append, List.map_append, ← h.replies, ← h.pending, ← hs.replies]
    simp

/-- Every run does to the table, and replies, what its touches do. -/
theorem run_gets (maxConcurrentSend : ℕ) {is : List (Input L)} (hgets : ∀ i ∈ is, i.Gets) :
    ∃ s tr, run System.step (System.new maxConcurrentSend) is = .ok (s, tr) ∧ Gotten s tr := by
  refine run_induction (fun is : List (Input L) => ∀ i ∈ is, i.Gets) Gotten
    (fun is i h j hj => h j (List.mem_append_left _ hj)) (Gotten.init maxConcurrentSend) ?_ hgets
    (meets_true is)
  intro s tr i h hgets _
  obtain ⟨s', out, hs⟩ := step_gets h.wellFormed h.dropped_eq (hgets i (by simp))
  exact ⟨s', out, hs.step, h.step hs⟩

/-- A token that a touch brings was received with a `BlockGet`. -/
theorem received_of_touches {is : List (Input L)}
    {t : Touch L.Cid ChanId (Except IoError (Block L.Cid))} (ht : t ∈ touches is) {sender : ChanId}
    (htok : t.tok = some sender) : sender ∈ received is := by
  obtain ⟨i, hi, htouch⟩ := List.mem_filterMap.mp ht
  refine List.mem_filterMap.mpr ⟨i, hi, ?_⟩
  unfold Input.touch at htouch
  split at htouch
  · cases htouch
    exact htok
  · cases htouch
    cases htok
  · cases htouch

/-- The input is a `BlockGet` or a `ReceivedBlock` for the cid. -/
def Input.isFor (c : L.Cid) : Input L → Bool
  | .command _ (.blockGet cid _) => cid = c
  | .event (.behaviour (.bitswap (.receivedBlock _ block))) => block.cid = c
  | _ => false

theorem isFor_eq (c : L.Cid) : Input.isFor c = fun i : Input L => i.touch.any fun t => t.key = c := by
  funext i
  unfold Input.isFor Input.touch
  split <;> rfl

theorem isFor_cases {c : L.Cid} {i : Input L} (h : i.isFor c) :
    (∃ answers sender, i = .command answers (.blockGet c sender)) ∨
      ∃ peer block, i = .receivedBlock peer block ∧ block.cid = c := by
  unfold Input.isFor at h
  split at h
  · rename_i answers cid sender
    obtain rfl : cid = c := by simpa using h
    exact .inl ⟨answers, sender, rfl⟩
  · rename_i peer block
    exact .inr ⟨peer, block, rfl, by simpa using h⟩
  · cases h

/-- The replies to a `BlockGet`: the first later input for its cid answers it. -/
theorem repliesTo_blockGet {maxConcurrentSend : ℕ} {earlier later : List (Input L)}
    {ans : Answers L} {c : L.Cid} {sender : ChanId} {s : System L}
    {tr : List (Input L × List (Output L))}
    (hwait : ClientsWait (earlier ++ .command ans (.blockGet c sender) :: later))
    (hrun : run System.step (System.new maxConcurrentSend)
      (earlier ++ .command ans (.blockGet c sender) :: later) = .ok (s, tr)) (h : Gotten s tr) :
    repliesTo sender tr =
      (((later.find? (Input.isFor c)).bind Input.touch).map fun t => Reply.blockGet t.res).toList := by
  have hnodup := hwait.2
  have hreceived : received (earlier ++ .command ans (.blockGet c sender) :: later) =
      received earlier ++ sender :: received later := by
    rw [received, List.filterMap_append, List.filterMap_cons]
    rfl
  rw [hreceived, List.nodup_append] at hnodup
  have htouches : touches (earlier ++ .command ans (.blockGet c sender) :: later) =
      touches earlier ++ ⟨c, .error alreadyGetting, some sender⟩ :: touches later := by
    rw [touches, List.filterMap_append, List.filterMap_cons]
    rfl
  have hearlier : ∀ t ∈ touches earlier, t.tok ≠ some sender := fun t ht htok =>
    hnodup.2.2 sender (received_of_touches ht htok) sender (by simp) rfl
  have hlater : ∀ t ∈ touches later, t.tok ≠ some sender := fun t ht htok =>
    (List.nodup_cons.mp hnodup.2.1).1 (received_of_touches ht htok)
  have hanswers := answersTo_eq (k := c) (r := .error alreadyGetting) hearlier hlater
  have hfirst : (touches later).find? (fun t => t.key = c) =
      (later.find? (Input.isFor c)).bind Input.touch := by
    rw [touches, List.find?_filterMap, isFor_eq]
  rw [← htouches, hfirst] at hanswers
  rw [repliesTo, h.replies, trace_inputs hrun]
  have hmap : ∀ as : List (ChanId × Except IoError (Block L.Cid)),
      answersTo sender (as.map fun a => (a.1, Reply.blockGet a.2)) =
        (answersTo sender as).map Reply.blockGet := by
    intro as
    induction as with
    | nil => rfl
    | cons a as ih => by_cases ha : a.1 = sender <;> simp_all [answersTo]
  rw [hmap, hanswers]
  cases (later.find? (Input.isFor c)).bind Input.touch <;> rfl

/-- In every run of `BlockGet`s, `BlockAdd`s and bitswap events, a `BlockGet` is answered with a
    block if the first later input for its cid is the event that received it, with the error if it
    is another `BlockGet`, and not at all if there is none. -/
theorem getBlock_outcome (maxConcurrentSend : ℕ) {is : List (Input L)} (hgets : ∀ i ∈ is, i.Gets)
    (hwait : ClientsWait is) :
    ∃ s tr, run System.step (System.new maxConcurrentSend) is = .ok (s, tr) ∧
      ∀ earlier ans c sender later, is = earlier ++ .command ans (.blockGet c sender) :: later →
        (∀ block, repliesTo sender tr = [.blockGet (.ok block)] ↔
          block.cid = c ∧ ∃ peer, later.find? (Input.isFor c) = some (.receivedBlock peer block)) ∧
        (repliesTo sender tr = [.blockGet (.error alreadyGetting)] ↔
          ∃ ans' sender', later.find? (Input.isFor c) =
            some (.command ans' (.blockGet c sender'))) ∧
        (repliesTo sender tr = [] ↔ ∀ i ∈ later, ¬ i.isFor c) := by
  obtain ⟨s, tr, hrun, h⟩ := run_gets maxConcurrentSend hgets
  refine ⟨s, tr, hrun, ?_⟩
  rintro earlier ans c sender later rfl
  rw [repliesTo_blockGet hwait hrun h, ← List.find?_eq_none]
  cases hfind : later.find? (Input.isFor c) with
  | none => simp
  | some i =>
    rcases isFor_cases (List.find?_some hfind) with ⟨ans', sender', rfl⟩ | ⟨peer, block, rfl, hcid⟩
    · simp [Input.touch]
    · refine ⟨fun b => ⟨fun he => ?_, ?_⟩, ⟨fun he => ?_, ?_⟩, by simp [Input.touch]⟩
      · obtain rfl : block = b := by simpa [Input.touch] using he
        exact ⟨hcid, peer, rfl⟩
      · rintro ⟨-, peer', he⟩
        cases he
        rfl
      · cases he
      · rintro ⟨ans', sender', he⟩
        cases he

/-- Two `BlockGet`s of cid 1 and one of cid 2; block 1 is received, block 2 is not. -/
theorem getBlock_outcome_example :
    ∃ s tr, run System.step (System.new 1 : System Libp2p.nat)
      [.command Answers.nat (.blockGet 1 0), .command Answers.nat (.blockGet 2 1),
        .command Answers.nat (.blockGet 1 2), .receivedBlock 0 ⟨[7], 1⟩] = .ok (s, tr) ∧
      repliesTo 0 tr = [.blockGet (.error alreadyGetting)] ∧ repliesTo 1 tr = [] ∧
      repliesTo 2 tr = [.blockGet (.ok ⟨[7], 1⟩)] := by
  obtain ⟨s, tr, hrun, h⟩ := @getBlock_outcome Libp2p.nat 1 [.command Answers.nat (.blockGet 1 0),
    .command Answers.nat (.blockGet 2 1), .command Answers.nat (.blockGet 1 2),
    .receivedBlock 0 ⟨[7], 1⟩] (by simp [Input.Gets]) ⟨by simp, by decide⟩
  refine ⟨s, tr, hrun, ?_, ?_, ?_⟩
  · exact (h [] _ 1 0 _ rfl).2.1.mpr ⟨_, _, rfl⟩
  · exact (h [_] _ 2 1 _ rfl).2.2.mpr (by simp [Input.isFor])
  · exact ((h [_, _] _ 1 2 _ rfl).1 _).mpr ⟨rfl, _, rfl⟩

end LiveTest
