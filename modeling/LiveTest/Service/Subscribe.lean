import LiveTest.Service.Replies
import LiveTest.Topics

/-!
# What `subscribe` yields

The guarantee that only the first subscribe on a topic yields messages is made
by two parties. The service stores the stream of a subscribe that
`gossipsub.subscribe` answers with `Ok(true)`; the client closes or drops its
own receiver on any other answer, whenever it gets to read it.

* `Subscribed.step`: no stream in the table is ever closed.
* `firstSubscriber_yields`: the first successful subscriber to a topic gets the
  later messages on it, in their order, and the later ones get nothing.
-/

namespace LiveTest

open Rust Machine Topics

variable {L : Libp2p}

/-! ## The client -/

/-- `subscribe` (`client.rs`, lines 137–163) when its answer comes: the stream it returns, with
    whether it has closed the receiver. An `Err` drops the receiver. -/
def IpfsClient.subscribe {E : Type} (stream : ChanId) : Except E Bool → Except E (ChanId × Bool)
  | .ok status => .ok (stream, !status)
  | .error e => .error e

/-- The service, and the calls of `subscribe` whose answer was sent and has not been read, each
    under its stream. -/
structure Subscribers (L : Libp2p) where
  system : System L
  answered : List (ChanId × Except L.SubscriptionError Bool)

/-- What can happen: the service takes the command of a call of `subscribe` or a gossipsub message,
    or the call with the given stream reads its answer. -/
inductive Subscribing (L : Libp2p) where
  | subscribe (answers : Answers L) (topic : String) (sender stream : ChanId)
  | message (message : GossipsubMessage L)
  | resume (stream : ChanId)

/-- The answers to `subscribe` in the outputs of a step. -/
def subscribeAnswers (out : List (Output L)) : List (Except L.SubscriptionError Bool) :=
  out.filterMap fun
    | .reply _ (.subscribe res) => some res
    | _ => none

namespace Subscribers

def new (maxConcurrentSend : ℕ) : Subscribers L := ⟨System.new maxConcurrentSend, []⟩

/-- One input. Every other owner of a stream keeps it. -/
def step (s : Subscribers L) : Subscribing L → Except Panic (Subscribers L × List (Output L))
  | .subscribe answers topic sender stream => do
    let (system, out) ← s.system.step (.command answers (.subscribe topic sender stream))
    return (⟨system, s.answered ++ (subscribeAnswers out).map fun res => (stream, res)⟩, out)
  | .message message => do
    let (system, out) ← s.system.step (.event (.behaviour (.gossipsub (.message message))))
    return ({ s with system }, out)
  | .resume stream =>
    match s.answered.find? fun a => a.1 = stream with
    | none => return (s, [])
    | some (_, res) =>
      let answered := s.answered.eraseP fun a => a.1 = stream
      match IpfsClient.subscribe stream res with
      | .ok (_, false) => return ({ s with answered }, [])
      | .ok (_, true) | .error _ => do
        let (system, out) ← s.system.step (.drop stream)
        return (⟨system, answered⟩, out)

end Subscribers

/-! ## The history -/

namespace Subscribing

/-- What an input does to `pending_subscribe`. -/
def event : Subscribing L → Option (Event L.TopicHash ChanId (GossipsubMessage L))
  | .subscribe answers topic _ stream =>
    match answers.subscribe topic with
    | .ok true => some (.put (L.topicHash topic) stream)
    | .ok false | .error _ => none
  | .message msg => some (.message msg.topic msg)
  | .resume _ => none

/-- The channels that a call of `subscribe` makes. -/
def channels : Subscribing L → List ChanId
  | .subscribe _ _ sender stream => [sender, stream]
  | .message _ | .resume _ => []

/-- A subscribe to the topic that `gossipsub.subscribe` does not refuse. -/
def Succeeds (topic : String) : Subscribing L → Prop
  | .subscribe answers topic' _ _ => topic' = topic ∧ ∃ status, answers.subscribe topic = .ok status
  | .message _ | .resume _ => False

end Subscribing

/-- The channels that the calls make. -/
def channels (is : List (Subscribing L)) : List ChanId := is.flatMap Subscribing.channels

/-- What the inputs do to `pending_subscribe`. -/
def topicEvents (is : List (Subscribing L)) :
    List (Event L.TopicHash ChanId (GossipsubMessage L)) := is.filterMap Subscribing.event

/-- The messages on a topic among the inputs. -/
def handledOn (topic : String) (is : List (Subscribing L)) : List (GossipsubMessage L) :=
  is.filterMap fun
    | .message message => if message.topic = L.topicHash topic then some message else none
    | _ => none

/-- The messages that a step sends, with the streams. -/
def messagesIn (out : List (Output L)) : List (ChanId × GossipsubMessage L) :=
  out.filterMap fun
    | .message stream message => some (stream, message)
    | _ => none

/-- The messages that a stream yields. -/
def yields (stream : ChanId) (tr : List (Subscribing L × List (Output L))) :
    List (GossipsubMessage L) :=
  deliveredTo stream (tr.flatMap fun e => messagesIn e.2)

/-- `gossipsub.subscribe` returns `Ok(true)` on the first successful subscription to a topic and
    `Ok(false)` on the later ones. -/
def GossipsubLaw (is : List (Subscribing L)) : Prop :=
  ∀ earlier answers topic sender stream later status,
    is = earlier ++ .subscribe answers topic sender stream :: later →
    answers.subscribe topic = .ok status →
    (status = true ↔ ∀ i ∈ earlier, ¬ i.Succeeds topic)

theorem channels_concat (is : List (Subscribing L)) (i : Subscribing L) :
    channels (is ++ [i]) = channels is ++ i.channels := by
  simp [channels]

theorem topicEvents_concat (is : List (Subscribing L)) (i : Subscribing L) :
    topicEvents (is ++ [i]) = topicEvents is ++ i.event.toList := by
  rw [topicEvents, List.filterMap_append]
  cases h : i.event <;> simp [topicEvents, h]

/-- A stream that is put in the table is one that a call made. -/
theorem mem_channels_of_put {is : List (Subscribing L)} {h : L.TopicHash} {stream : ChanId}
    (hput : .put h stream ∈ topicEvents is) : stream ∈ channels is ∧
      ∃ answers topic sender, .subscribe answers topic sender stream ∈ is ∧
        answers.subscribe topic = .ok true ∧ L.topicHash topic = h := by
  obtain ⟨i, hi, hevent⟩ := List.mem_filterMap.mp hput
  cases i with
  | message message => cases hevent
  | resume stream' => cases hevent
  | subscribe answers topic sender stream' =>
    rw [Subscribing.event] at hevent
    split at hevent
    · rename_i hans
      cases hevent
      exact ⟨List.mem_flatMap.mpr ⟨_, hi, by simp [Subscribing.channels]⟩,
        answers, topic, sender, hi, hans, rfl⟩
    · cases hevent
    · cases hevent

theorem messagesOn_topicEvents (topic : String) (is : List (Subscribing L)) :
    messagesOn (L.topicHash topic) (topicEvents is) = handledOn topic is := by
  rw [messagesOn, topicEvents, List.filterMap_filterMap]
  refine List.filterMap_congr fun i _ => ?_
  cases i with
  | message message => rfl
  | resume stream => rfl
  | subscribe answers topic' sender stream =>
    rw [Subscribing.event]
    split <;> rfl

/-! ## The invariant -/

/-- What holds at every point of a run. -/
structure Subscribed (s : Subscribers L) (tr : List (Subscribing L × List (Output L))) : Prop where
  table : s.system.service.pendingSubscribe =
    (topicEvents (tr.map Prod.fst)).foldl after fun _ => none
  sent : tr.flatMap (fun e => messagesIn e.2) =
    deliveries (fun _ => none) (topicEvents (tr.map Prod.fst))
  dropped_known : ∀ chan ∈ s.system.dropped, chan ∈ channels (tr.map Prod.fst)
  answered_known : ∀ a ∈ s.answered, a.1 ∈ channels (tr.map Prod.fst)
  table_known : ∀ h stream, s.system.service.pendingSubscribe h = some stream →
    stream ∈ channels (tr.map Prod.fst)
  /-- A stream in the table has its receiver, and the client will not close it. -/
  kept : ∀ h stream, s.system.service.pendingSubscribe h = some stream →
    stream ∉ s.system.dropped ∧ ∀ a ∈ s.answered, a.1 = stream → a.2 = .ok true

theorem Subscribed.init (maxConcurrentSend : ℕ) :
    Subscribed (Subscribers.new maxConcurrentSend : Subscribers L) [] where
  table := rfl
  sent := rfl
  dropped_known := by simp [Subscribers.new, System.new]
  answered_known := by simp [Subscribers.new]
  table_known := by simp [Subscribers.new, System.new, Service.new]
  kept := by simp [Subscribers.new, System.new, Service.new]

section Step

variable {s : Subscribers L} {tr : List (Subscribing L × List (Output L))}

/-- The service answers a call with what `gossipsub.subscribe` returned, and stores its stream on
    `Ok(true)`. -/
theorem step_subscribe (answers : Answers L) (topic : String) {sender : ChanId} (stream : ChanId)
    (hsender : sender ∉ s.system.dropped) :
    ∃ s' out, s.step (.subscribe answers topic sender stream) = .ok (s', out) ∧
      messagesIn out = [] ∧ s'.system.dropped = s.system.dropped ∧
      s'.answered = s.answered ++ [(stream, answers.subscribe topic)] ∧
      s'.system.service.pendingSubscribe =
        (Subscribing.subscribe answers topic sender stream).event.toList.foldl after
          s.system.service.pendingSubscribe := by
  have hsend : ∀ chan ∈ some sender, chan ∉ s.system.dropped := by
    rintro chan ⟨⟩
    exact hsender
  cases hans : answers.subscribe topic with
  | error e =>
    refine ⟨⟨s.system, s.answered ++ [(stream, .error e)]⟩,
      [.reply sender (.subscribe (.error e))], ?_, rfl, rfl, rfl, ?_⟩
    · simp only [Subscribers.step, System.step, Service.command, hans, expectSend_ok hsend, ok_bind,
        pure_eq_ok]
      rfl
    · rw [Subscribing.event, hans]
      rfl
  | ok status =>
    cases status with
    | false =>
      refine ⟨⟨s.system, s.answered ++ [(stream, .ok false)]⟩,
        [.reply sender (.subscribe (.ok false))], ?_, rfl, rfl, rfl, ?_⟩
      · simp only [Subscribers.step, System.step, Service.command, hans, expectSend_ok hsend,
          ok_bind, pure_eq_ok]
        rfl
      · rw [Subscribing.event, hans]
        rfl
    | true =>
      refine ⟨⟨{ s.system with service := { s.system.service with
          pendingSubscribe := Function.update s.system.service.pendingSubscribe
            (L.topicHash topic) (some stream) } }, s.answered ++ [(stream, .ok true)]⟩,
        [.reply sender (.subscribe (.ok true))], ?_, rfl, rfl, rfl, ?_⟩
      · simp only [Subscribers.step, System.step, Service.command, hans, expectSend_ok hsend,
          ok_bind, pure_eq_ok]
        rfl
      · rw [Subscribing.event, hans]
        rfl

/-- A message on a topic goes to the stream in the table, if it still has its receiver. -/
theorem step_message {msg : GossipsubMessage L}
    (h : ∀ stream ∈ s.system.service.pendingSubscribe msg.topic, stream ∉ s.system.dropped) :
    s.step (.message msg) = .ok (s,
      (s.system.service.pendingSubscribe msg.topic).toList.map (.message · msg)) := by
  simp only [Subscribers.step, System.step, Service.event, Service.gossipsub, expectSend_ok h,
    ok_bind, pure_eq_ok]

/-- A call that reads its answer closes or drops its receiver, unless the answer is `Ok(true)`. -/
theorem step_resume (stream : ChanId) :
    ∃ s', s.step (.resume stream) = .ok (s', []) ∧ s'.system.service = s.system.service ∧
      (∀ a ∈ s'.answered, a ∈ s.answered) ∧
      ∀ chan ∈ s'.system.dropped, chan ∈ s.system.dropped ∨
        ∃ a ∈ s.answered, a.1 = chan ∧ a.2 ≠ .ok true := by
  cases hfind : s.answered.find? fun a => a.1 = stream with
  | none =>
    refine ⟨s, ?_, rfl, fun a ha => ha, fun chan hc => .inl hc⟩
    simp only [Subscribers.step, hfind, pure_eq_ok]
  | some a =>
    obtain ⟨stream', res⟩ := a
    obtain rfl : stream' = stream := by simpa using List.find?_some hfind
    have hmem : (stream', res) ∈ s.answered := List.mem_of_find?_eq_some hfind
    have herase : ∀ a ∈ s.answered.eraseP (fun a => a.1 = stream'), a ∈ s.answered :=
      fun a ha => List.mem_of_mem_eraseP ha
    have hdrop : res ≠ .ok true → ∀ chan ∈ insert stream' s.system.dropped,
        chan ∈ s.system.dropped ∨ ∃ a ∈ s.answered, a.1 = chan ∧ a.2 ≠ .ok true := by
      intro hres chan hc
      rcases Finset.mem_insert.mp hc with rfl | hc
      · exact .inr ⟨_, hmem, rfl, hres⟩
      · exact .inl hc
    cases res with
    | error e =>
      refine ⟨⟨{ s.system with dropped := insert stream' s.system.dropped },
        s.answered.eraseP fun a => a.1 = stream'⟩, ?_, rfl, herase, hdrop (by simp)⟩
      simp only [Subscribers.step, hfind, IpfsClient.subscribe, System.step, ok_bind, pure_eq_ok]
    | ok status =>
      cases status with
      | false =>
        refine ⟨⟨{ s.system with dropped := insert stream' s.system.dropped },
          s.answered.eraseP fun a => a.1 = stream'⟩, ?_, rfl, herase, hdrop (by simp)⟩
        simp only [Subscribers.step, hfind, IpfsClient.subscribe, Bool.not_false, System.step,
          ok_bind, pure_eq_ok]
      | true =>
        refine ⟨{ s with answered := s.answered.eraseP fun a => a.1 = stream' }, ?_, rfl, herase,
          fun chan hc => .inl hc⟩
        simp only [Subscribers.step, hfind, IpfsClient.subscribe, Bool.not_true, pure_eq_ok]

/-- A step sends what its event delivers, and leaves the table that its event leaves; its input may
    bring channels. -/
theorem Subscribed.extend (h : Subscribed s tr) {i : Subscribing L} {s' : Subscribers L}
    {out : List (Output L)}
    (htable : s'.system.service.pendingSubscribe =
      i.event.toList.foldl after s.system.service.pendingSubscribe)
    (hsent : messagesIn out = deliveries s.system.service.pendingSubscribe i.event.toList)
    (hdropped : ∀ chan ∈ s'.system.dropped, chan ∈ channels (tr.map Prod.fst))
    (hanswered : ∀ a ∈ s'.answered, a.1 ∈ channels (tr.map Prod.fst) ∨ a.1 ∈ i.channels)
    (hknown : ∀ t stream, s'.system.service.pendingSubscribe t = some stream →
      stream ∈ channels (tr.map Prod.fst) ∨ stream ∈ i.channels)
    (hkept : ∀ t stream, s'.system.service.pendingSubscribe t = some stream →
      stream ∉ s'.system.dropped ∧ ∀ a ∈ s'.answered, a.1 = stream → a.2 = .ok true) :
    Subscribed s' (tr ++ [(i, out)]) := by
  have hinputs : (tr ++ [(i, out)]).map Prod.fst = tr.map Prod.fst ++ [i] := by simp
  constructor
  · rw [hinputs, topicEvents_concat, List.foldl_append, ← h.table, htable]
  · rw [hinputs, topicEvents_concat, deliveries_append, ← h.table, ← h.sent, ← hsent]
    simp
  · rw [hinputs, channels_concat]
    exact fun chan hc => List.mem_append_left _ (hdropped chan hc)
  · rw [hinputs, channels_concat]
    exact fun a ha => List.mem_append.mpr (hanswered a ha)
  · rw [hinputs, channels_concat]
    exact fun t stream hs => List.mem_append.mpr (hknown t stream hs)
  · exact hkept

theorem Subscribed.message (h : Subscribed s tr) (msg : GossipsubMessage L) :
    ∃ s' out, s.step (.message msg) = .ok (s', out) ∧
      Subscribed s' (tr ++ [(.message msg, out)]) := by
  refine ⟨s, _, step_message fun stream hs => (h.kept msg.topic stream hs).1, h.extend rfl ?_
    h.dropped_known (fun a ha => .inl (h.answered_known a ha))
    (fun t stream hs => .inl (h.table_known t stream hs)) h.kept⟩
  cases hp : s.system.service.pendingSubscribe msg.topic <;>
    simp [messagesIn, Subscribing.event, deliveries, delivery, hp]

theorem Subscribed.resume (h : Subscribed s tr) (stream : ChanId) :
    ∃ s' out, s.step (.resume stream) = .ok (s', out) ∧
      Subscribed s' (tr ++ [(.resume stream, out)]) := by
  obtain ⟨s', hs, hservice, hanswered, hdropped⟩ := step_resume (s := s) stream
  have htable : s'.system.service.pendingSubscribe = s.system.service.pendingSubscribe := by
    rw [hservice]
  refine ⟨s', [], hs, h.extend htable rfl ?_ ?_ ?_ ?_⟩
  · intro chan hc
    rcases hdropped chan hc with hc | ⟨a, ha, rfl, -⟩
    · exact h.dropped_known chan hc
    · exact h.answered_known a ha
  · exact fun a ha => .inl (h.answered_known a (hanswered a ha))
  · rw [htable]
    exact fun t stream' hst => .inl (h.table_known t stream' hst)
  · rw [htable]
    intro t stream' hst
    obtain ⟨hkept, hopen⟩ := h.kept t stream' hst
    refine ⟨fun hc => ?_, fun a ha => hopen a (hanswered a ha)⟩
    rcases hdropped stream' hc with hc | ⟨a, ha, hchan, hres⟩
    · exact hkept hc
    · exact hres (hopen a ha hchan)

/-- The table after a subscribe holds what it held, and the new stream on `Ok(true)`. -/
theorem stored_of_subscribe {table : L.TopicHash → Option ChanId} {answers : Answers L}
    {topic : String} {sender stream stream' : ChanId} {t : L.TopicHash}
    (hst : (Subscribing.subscribe answers topic sender stream).event.toList.foldl after table t =
      some stream') :
    table t = some stream' ∨ stream' = stream ∧ answers.subscribe topic = .ok true := by
  rw [Subscribing.event] at hst
  split at hst
  · rename_i hans
    simp only [Option.toList_some, List.foldl_cons, List.foldl_nil, after,
      Function.update_apply] at hst
    split_ifs at hst
    · cases hst
      exact .inr ⟨rfl, hans⟩
    · exact .inl hst
  · exact .inl hst
  · exact .inl hst

theorem Subscribed.subscribe (h : Subscribed s tr) (answers : Answers L) (topic : String)
    {sender stream : ChanId} (hsender : sender ∉ channels (tr.map Prod.fst))
    (hstream : stream ∉ channels (tr.map Prod.fst)) :
    ∃ s' out, s.step (.subscribe answers topic sender stream) = .ok (s', out) ∧
      Subscribed s' (tr ++ [(.subscribe answers topic sender stream, out)]) := by
  obtain ⟨s', out, hs, hmessages, hdropped, hanswered, htable⟩ :=
    step_subscribe answers topic stream fun hd => hsender (h.dropped_known sender hd)
  have hquiet : deliveries s.system.service.pendingSubscribe
      (Subscribing.subscribe answers topic sender stream).event.toList = [] := by
    rw [Subscribing.event]
    split <;> rfl
  have hmem : stream ∈ (Subscribing.subscribe answers topic sender stream).channels := by
    simp [Subscribing.channels]
  refine ⟨s', out, hs, h.extend htable (hmessages.trans hquiet.symm) ?_ ?_ ?_ ?_⟩
  · rw [hdropped]
    exact h.dropped_known
  · rw [hanswered]
    intro a ha
    rcases List.mem_append.mp ha with ha | ha
    · exact .inl (h.answered_known a ha)
    · rw [List.mem_singleton.mp ha]
      exact .inr hmem
  · rw [htable]
    intro t stream' hst
    rcases stored_of_subscribe hst with hst | ⟨rfl, -⟩
    · exact .inl (h.table_known t stream' hst)
    · exact .inr hmem
  · rw [htable, hdropped, hanswered]
    intro t stream' hst
    rcases stored_of_subscribe hst with hst | ⟨rfl, hans⟩
    · obtain ⟨hkept, hopen⟩ := h.kept t stream' hst
      refine ⟨hkept, fun a ha hchan => ?_⟩
      rcases List.mem_append.mp ha with ha | ha
      · exact hopen a ha hchan
      · rw [List.mem_singleton.mp ha] at hchan
        exact absurd (h.table_known t stream' hst) (hchan ▸ hstream)
    · refine ⟨fun hd => hstream (h.dropped_known stream' hd), fun a ha hchan => ?_⟩
      rcases List.mem_append.mp ha with ha | ha
      · exact absurd (h.answered_known a ha) (hchan ▸ hstream)
      · rw [List.mem_singleton.mp ha]
        exact hans

theorem Subscribed.step (h : Subscribed s tr) {i : Subscribing L}
    (hfresh : (channels (tr.map Prod.fst ++ [i])).Nodup) :
    ∃ s' out, s.step i = .ok (s', out) ∧ Subscribed s' (tr ++ [(i, out)]) := by
  rw [channels_concat, List.nodup_append] at hfresh
  obtain ⟨-, -, hnew⟩ := hfresh
  cases i with
  | message msg => exact h.message msg
  | resume stream => exact h.resume stream
  | subscribe answers topic sender stream =>
    refine h.subscribe answers topic (fun hmem => ?_) fun hmem => ?_
    · exact hnew sender hmem sender (by simp [Subscribing.channels]) rfl
    · exact hnew stream hmem stream (by simp [Subscribing.channels]) rfl

end Step

/-! ## Only the first subscribe yields -/

/-- Every run of calls with channels of their own goes through, and sends what its history says. -/
theorem run_subscribe (maxConcurrentSend : ℕ) {is : List (Subscribing L)}
    (hfresh : (channels is).Nodup) :
    ∃ s tr, run Subscribers.step (Subscribers.new maxConcurrentSend) is = .ok (s, tr) ∧
      tr.flatMap (fun e => messagesIn e.2) = deliveries (fun _ => none) (topicEvents is) := by
  obtain ⟨s, tr, hrun, h⟩ := run_induction (fun is : List (Subscribing L) => (channels is).Nodup)
    Subscribed (fun is i h => by
      rw [channels_concat, List.nodup_append] at h
      exact h.1)
    (Subscribed.init maxConcurrentSend) (fun s tr i h hfresh _ => h.step hfresh) hfresh
    (meets_true is)
  exact ⟨s, tr, hrun, by rw [h.sent, trace_inputs hrun]⟩

/-- For every order of subscribe calls, gossipsub messages and clients that read their answers: the
    stream of the first successful subscriber to a topic yields the messages on it that are handled
    later, once each and in their order; that of every later one yields nothing. -/
theorem firstSubscriber_yields (hhash : Function.Injective L.topicHash) (maxConcurrentSend : ℕ)
    {is : List (Subscribing L)} (hfresh : (channels is).Nodup) (hlaw : GossipsubLaw is) :
    ∃ s tr, run Subscribers.step (Subscribers.new maxConcurrentSend) is = .ok (s, tr) ∧
      ∀ earlier answers topic sender stream later status,
        is = earlier ++ .subscribe answers topic sender stream :: later →
        answers.subscribe topic = .ok status →
        ((∀ i ∈ earlier, ¬ i.Succeeds topic) → yields stream tr = handledOn topic later) ∧
        ((∃ i ∈ earlier, i.Succeeds topic) → yields stream tr = []) := by
  obtain ⟨s, tr, hrun, hsent⟩ := run_subscribe maxConcurrentSend hfresh
  refine ⟨s, tr, hrun, ?_⟩
  rintro earlier answers topic sender stream later status rfl hans
  have hstatus := hlaw earlier answers topic sender stream later status rfl hans
  have hchannels : channels (earlier ++ .subscribe answers topic sender stream :: later) =
      channels earlier ++ ([sender, stream] ++ channels later) := by
    rw [channels, List.flatMap_append, List.flatMap_cons]
    rfl
  rw [hchannels, List.nodup_append, List.nodup_append] at hfresh
  obtain ⟨-, ⟨-, -, hlaterCh⟩, hearlierCh⟩ := hfresh
  have hearlier : ∀ t, .put t stream ∉ topicEvents earlier := fun t hput =>
    hearlierCh stream (mem_channels_of_put hput).1 stream (by simp) rfl
  have hlater : ∀ t, .put t stream ∉ topicEvents later := fun t hput =>
    hlaterCh stream (by simp) stream (mem_channels_of_put hput).1 rfl
  have hevents : topicEvents (earlier ++ .subscribe answers topic sender stream :: later) =
      topicEvents earlier ++
        ((Subscribing.subscribe answers topic sender stream).event.toList ++
          topicEvents later) := by
    rw [← List.append_assoc, ← topicEvents_concat, topicEvents, topicEvents, topicEvents,
      ← List.filterMap_append, List.append_assoc]
    rfl
  rw [yields, hsent, hevents]
  constructor
  · intro hfirst
    obtain rfl : status = true := hstatus.mpr hfirst
    rw [Subscribing.event, hans, ← messagesOn_topicEvents]
    refine deliveredTo_eq hearlier hlater fun stream' hput => ?_
    -- a later `Ok(true)` on the topic would not be the first success
    obtain ⟨-, answers', topic', sender', hmem, hans', hhash'⟩ := mem_channels_of_put hput
    obtain rfl := hhash hhash'
    obtain ⟨before, after, rfl⟩ := List.append_of_mem hmem
    have hfirst' := (hlaw (earlier ++ .subscribe answers topic' sender stream :: before) answers'
      topic' sender' stream' after true (by simp) hans').mp rfl
    exact hfirst' (.subscribe answers topic' sender stream) (by simp) ⟨rfl, true, hans⟩
  · rintro ⟨i, hi, hsucc⟩
    obtain rfl : status = false := by
      rw [← Bool.not_eq_true, hstatus]
      exact fun hall => hall i hi hsucc
    rw [Subscribing.event, hans]
    refine deliveredTo_absent (by simp) fun t hput => ?_
    rcases List.mem_append.mp hput with hput | hput
    · exact hearlier t hput
    · exact hlater t hput

/-- A first call, a second one that is answered `Ok(false)` and closes its receiver, and a message. -/
theorem firstSubscriber_yields_example :
    ∃ s tr, run Subscribers.step (Subscribers.new 1 : Subscribers Libp2p.nat)
      [.subscribe Answers.nat "video" 0 1,
        .subscribe { Answers.nat with subscribe := fun _ => .ok false } "video" 2 3,
        .resume 3, .message ⟨"video", [7]⟩, .resume 1] = .ok (s, tr) ∧
      yields 1 tr = [⟨"video", [7]⟩] ∧ yields 3 tr = [] := by
  have hlaw : GossipsubLaw ([.subscribe Answers.nat "video" 0 1,
      .subscribe { Answers.nat with subscribe := fun _ => .ok false } "video" 2 3,
      .resume 3, .message ⟨"video", [7]⟩, .resume 1] : List (Subscribing Libp2p.nat)) := by
    intro earlier answers topic sender stream later status hsplit hans
    rcases earlier with _ | ⟨i, _ | ⟨j, rest⟩⟩
    · cases hsplit
      cases hans
      simp
    · cases hsplit
      cases hans
      simp only [List.mem_singleton, forall_eq, Bool.false_eq_true, false_iff, not_not]
      exact ⟨rfl, true, rfl⟩
    · -- the inputs after the second are no calls
      simp only [List.cons_append, List.cons.injEq] at hsplit
      have hmem : Subscribing.subscribe answers topic sender stream ∈
          [.resume 3, .message ⟨"video", [7]⟩, .resume 1] := by
        rw [hsplit.2.2]
        simp
      simp at hmem
  obtain ⟨s, tr, hrun, h⟩ := firstSubscriber_yields (L := Libp2p.nat) Function.injective_id 1
    (by decide) hlaw
  refine ⟨s, tr, hrun, ?_, ?_⟩
  · exact (h [] _ "video" 0 1 _ true rfl rfl).1 (by simp)
  · exact (h [_] _ "video" 2 3 _ false rfl rfl).2 ⟨_, List.mem_singleton.mpr rfl, rfl, true, rfl⟩

end LiveTest
