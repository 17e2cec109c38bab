import LiveTest.Service.Replies
import LiveTest.VideoPlayer.Conservation
import LiveTest.Viewer.Basic

/-!
# A segment is buffered when its blocks have arrived

A task that has asked for a cid either waits for a reply, or the block has
arrived. The one other reply is the error for a waiter that a later `BlockGet`
displaces. It does no harm when both belong to one task, which still waits, and
none when the block has arrived before.

* `Fetching.step`: the invariant, step by step.
* `buffersArrived_of_noneDisplaced`: a run in which no task's `BlockGet` displaces the waiter
  of another task buffers no segment before all its blocks have arrived.
-/

namespace LiveTest

open Rust Machine Ledger

variable {L : Libp2p}

/-! ## The tasks of the player -/

/-- The tasks have numbers of their own, and the methods of the player do not panic. -/
structure Player.Ready {Cid : Type} (p : Player Cid) : Prop where
  bufferOk : p.stream.BufferOk
  task_lt : ∀ t ∈ p.tasks, t.1 < p.spawned
  tasks_nodup : (p.tasks.map Prod.fst).Nodup

namespace Player

variable {Cid : Type} {p : Player Cid}

theorem Ready.init (segmentLength simId : UInt64) :
    (Player.new segmentLength simId : Player Cid).Ready :=
  ⟨VideoStream.bufferOk_new segmentLength simId, by simp [Player.new], by simp [Player.new]⟩

/-- A message waits in the gossip queue; nothing else happens. -/
theorem Ready.gossip (h : p.Ready) (receiveTime : Int64) (msg : StreamerMessage Cid) :
    ∃ p' e, p.step .wraps (.gossip receiveTime msg) = .ok (p', e) ∧ p'.Ready ∧ p'.tasks = p.tasks ∧
      p'.spawned = p.spawned ∧ p'.channel = p.channel ∧ ∀ m query, e ≠ .buffered m query := by
  obtain ⟨query, hs⟩ := p.step_gossip receiveTime msg
  exact ⟨_, _, hs, ⟨⟨h.bufferOk.length_eq, h.bufferOk.sorted⟩, h.task_lt, h.tasks_nodup⟩, rfl, rfl,
    rfl, by simp⟩

/-- A tick spawns at most one task, under the next number. -/
theorem Ready.tick (h : p.Ready) (now : Int64) :
    ∃ p' e, p.step .wraps (.tick now) = .ok (p', e) ∧ p'.Ready ∧ p'.channel = p.channel ∧
      p.spawned ≤ p'.spawned ∧ (∀ t ∈ p'.tasks, t ∈ p.tasks ∨ t.1 = p.spawned) ∧
      ∀ m query, e ≠ .buffered m query := by
  obtain ⟨stream, fetch, advance, hs, hok, -⟩ := Player.step_tick h.bufferOk now
  have hfetch : ∀ t ∈ fetch.toList.map fun msg => (p.spawned, msg), t.1 = p.spawned := by
    simp
  refine ⟨_, _, hs, ⟨hok, ?_, ?_⟩, rfl, Nat.le_add_right _ _, ?_, by simp⟩
  · intro t ht
    rcases List.mem_append.mp ht with ht | ht
    · exact (h.task_lt t ht).trans_le (Nat.le_add_right _ _)
    · obtain ⟨msg, hmsg, rfl⟩ := List.mem_map.mp ht
      exact Nat.lt_add_of_pos_right (List.length_pos_of_mem hmsg)
  · rw [List.map_append, List.nodup_append]
    refine ⟨h.tasks_nodup, by cases fetch <;> simp, ?_⟩
    intro n hn m hm
    obtain ⟨t, ht, rfl⟩ := List.mem_map.mp hn
    obtain ⟨t', ht', rfl⟩ := List.mem_map.mp hm
    rw [hfetch t' ht']
    exact (h.task_lt t ht).ne
  · intro t ht
    exact (List.mem_append.mp ht).imp_right (hfetch t)

theorem Ready.finish (h : p.Ready) {task : ℕ} {msg : StreamerMessage Cid}
    (hfind : p.tasks.find? (fun t => t.1 = task) = some (task, msg)) :
    ∃ p' e, p.step .wraps (.finish task) = .ok (p', e) ∧ p'.Ready ∧ p'.spawned = p.spawned ∧
      (∀ t ∈ p'.tasks, t ∈ p.tasks) ∧ p'.channel = p.channel ++ [msg] ∧
      ∀ m query, e ≠ .buffered m query := by
  refine ⟨_, _, Player.step_finish hfind, ⟨h.bufferOk, ?_, ?_⟩, rfl, ?_, rfl, by simp⟩
  · exact fun t ht => h.task_lt t (List.mem_of_mem_eraseP ht)
  · exact h.tasks_nodup.sublist (List.eraseP_sublist.map _)
  · exact fun t ht => List.mem_of_mem_eraseP ht

/-- The player buffers the segment of the first message in the channel, if there is one. -/
theorem Ready.recv (h : p.Ready) (receiveTime : Int64) :
    ∃ p' e, p.step .wraps (.recv receiveTime) = .ok (p', e) ∧ p'.Ready ∧ p'.tasks = p.tasks ∧
      p'.spawned = p.spawned ∧ (∀ m ∈ p'.channel, m ∈ p.channel) ∧
      ∀ m query, e = .buffered m query → m ∈ p.channel := by
  cases hchannel : p.channel with
  | nil =>
    exact ⟨p, .none, Player.step_recv_nil hchannel receiveTime, h, rfl, rfl,
      fun m hm => hchannel ▸ hm, by simp⟩
  | cons msg channel =>
    obtain ⟨stream, query, hs, hok, -⟩ := Player.step_recv h.bufferOk hchannel receiveTime
    refine ⟨_, _, hs, ⟨hok, h.task_lt, h.tasks_nodup⟩, rfl, rfl,
      fun m hm => List.mem_cons_of_mem _ hm, ?_⟩
    rintro m query ⟨⟩
    exact List.mem_cons_self

end Player

/-! ## The invariant -/

namespace Viewer

/-- A task has asked for the block of `cid`, and the reply goes to `chan`. -/
def Asked (v : Viewer L) (task : ℕ) (cid : L.Cid) (chan : ChanId) : Prop :=
  (cid, chan) ∈ v.handles task

/-- Every segment that the step buffers had all its blocks received before. -/
def BlocksArrived (before : List (Action L × Player.Event L.Cid)) (e : Player.Event L.Cid) : Prop :=
  ∀ msg query, e = .buffered msg query → ∀ cid ∈ msg.cids, ∃ peerId block,
    .event (.behaviour (.bitswap (.receivedBlock peerId block))) ∈ before.map Prod.fst ∧
      block.cid = cid

/-- The guard of a step: the `BlockGet` that the service takes displaces no waiter, or one of the
    same task, or one whose block has arrived before. -/
def NoneDisplaced (v : Viewer L) : Action L → Prop
  | .serve _ => ∀ cid chan displaced, v.commands.head? = some (.blockGet cid chan) →
    v.system.service.pendingGetBlock cid = some displaced →
    cid ∈ v.received ∨ ∃ task, v.Asked task cid displaced ∧ v.Asked task cid chan
  | _ => True

/-- The calls of `get_block`: in the order of the cids of the message, each with a channel of its
    own. -/
structure HandlesOk (v : Viewer L) : Prop where
  cids_isPrefix : ∀ t ∈ v.player.tasks, (v.handles t.1).map Prod.fst <+: t.2.cids
  fresh : ∀ task, v.player.spawned ≤ task → v.handles task = []
  chan_lt : ∀ {task cid chan}, v.Asked task cid chan → chan < v.nextChan
  chan_inj : ∀ {task cid task' cid' chan}, v.Asked task cid chan → v.Asked task' cid' chan →
    task = task' ∧ cid = cid'

/-- The channels a reply can still come to: a `BlockGet` waits for the service with one, or the
    table has it. -/
structure RequestsOk (v : Viewer L) : Prop where
  reply_fresh : ∀ chan, v.nextChan ≤ chan → v.replies chan = none
  stored : ∀ slot chan, v.system.service.stored slot = some chan →
    ∃ task cid, slot = .getBlock cid ∧ v.Asked task cid chan
  commands_nodup : v.commands.Nodup
  queued : ∀ cmd ∈ v.commands, ∃ task cid chan, cmd = .blockGet cid chan ∧ v.Asked task cid chan ∧
    v.replies chan = none ∧ ∀ slot, v.system.service.stored slot ≠ some chan

/-- Where a block has been asked for it has arrived, or the task still waits for a reply about
    that cid. -/
def Waits (v : Viewer L) : Prop :=
  ∀ task cid chan, v.Asked task cid chan →
    cid ∈ v.received ∨ ∃ chan', v.Asked task cid chan' ∧ v.replies chan' = none

/-- The invariant. -/
structure Fetching (v : Viewer L) (tr : List (Action L × Player.Event L.Cid)) : Prop where
  wellFormed : v.system.service.blockExchange.WellFormed
  dropped_eq : v.system.dropped = ∅
  ready : v.player.Ready
  handlesOk : v.HandlesOk
  requestsOk : v.RequestsOk
  waits : v.Waits
  channel_received : ∀ msg ∈ v.player.channel, ∀ cid ∈ msg.cids, cid ∈ v.received
  received_of : ∀ cid ∈ v.received, ∃ peerId block,
    .event (.behaviour (.bitswap (.receivedBlock peerId block))) ∈ tr.map Prod.fst ∧
      block.cid = cid
  arrived : EachStep (fun before _ e => BlocksArrived before e) tr

theorem Fetching.init (maxConcurrentSend : ℕ) (segmentLength simId : UInt64) :
    Fetching (Viewer.new maxConcurrentSend segmentLength simId : Viewer L) [] where
  wellFormed := BlockExchange.WellFormed.default
  dropped_eq := rfl
  ready := Player.Ready.init segmentLength simId
  handlesOk := by constructor <;> simp [Viewer.new, Asked, Player.new]
  requestsOk := by
    constructor
    · simp [Viewer.new]
    · rintro (_ | _ | _ | _) chan h <;> cases h
    · exact List.nodup_nil
    · simp [Viewer.new]
  waits := by simp [Waits, Viewer.new, Asked]
  channel_received := by simp [Viewer.new, Player.new]
  received_of := by simp [Viewer.new]
  arrived := eachStep_nil _

section Step

variable {v v' : Viewer L} {tr : List (Action L × Player.Event L.Cid)} {a : Action L}
  {e : Player.Event L.Cid}

theorem Fetching.received_concat (h : Fetching v tr) (a : Action L) (e : Player.Event L.Cid) :
    ∀ cid ∈ v.received, ∃ peerId block,
      .event (.behaviour (.bitswap (.receivedBlock peerId block))) ∈
        (tr ++ [(a, e)]).map Prod.fst ∧ block.cid = cid := by
  intro cid hc
  obtain ⟨peerId, block, hmem, hb⟩ := h.received_of cid hc
  exact ⟨peerId, block, by simp [hmem], hb⟩

/-- A step in which the player does not buffer anything. -/
theorem Fetching.arrived_concat (h : Fetching v tr) (he : ∀ msg query, e ≠ .buffered msg query) :
    EachStep (fun before _ e => BlocksArrived before e) (tr ++ [(a, e)]) :=
  eachStep_concat.mpr ⟨h.arrived, fun msg query hb => absurd hb (he msg query)⟩

/-- An action that is not possible. -/
theorem Fetching.idle (h : Fetching v tr) (a : Action L) : Fetching v (tr ++ [(a, .none)]) :=
  { h with
    received_of := h.received_concat a .none
    arrived := h.arrived_concat (by simp) }

/-! ## Steps of the player -/

/-- A step of the player that leaves the handles as they are. -/
theorem Fetching.of_player (h : Fetching v tr) {player : Player L.Cid} (hready : player.Ready)
    (hspawned : v.player.spawned ≤ player.spawned)
    (htasks : ∀ t ∈ player.tasks, t ∈ v.player.tasks ∨ t.1 = v.player.spawned)
    (hchannel : ∀ msg ∈ player.channel, ∀ cid ∈ msg.cids, cid ∈ v.received)
    (hbuffered : ∀ msg query, e = .buffered msg query → msg ∈ v.player.channel) :
    Fetching { v with player } (tr ++ [(a, e)]) where
  wellFormed := h.wellFormed
  dropped_eq := h.dropped_eq
  ready := hready
  handlesOk := by
    refine ⟨fun t ht => ?_, fun task ht => h.handlesOk.fresh task (hspawned.trans ht),
      h.handlesOk.chan_lt, h.handlesOk.chan_inj⟩
    rcases htasks t ht with ht | ht
    · exact h.handlesOk.cids_isPrefix t ht
    · -- a new task has made no call yet
      have hnone : v.handles t.1 = [] := h.handlesOk.fresh _ ht.ge
      simp [hnone]
  requestsOk := ⟨h.requestsOk.reply_fresh, h.requestsOk.stored, h.requestsOk.commands_nodup,
    h.requestsOk.queued⟩
  waits := h.waits
  channel_received := hchannel
  received_of := h.received_concat a e
  arrived := eachStep_concat.mpr ⟨h.arrived, fun msg query hb cid hc =>
    h.received_of cid (h.channel_received msg (hbuffered msg query hb) cid hc)⟩

theorem message_eq_some {task : ℕ} {msg : StreamerMessage L.Cid} :
    v.message task = some msg ↔
      v.player.tasks.find? (fun t => t.1 = task) = some (task, msg) := by
  rw [message, Option.map_eq_some_iff]
  constructor
  · rintro ⟨⟨id, m⟩, hfind, rfl⟩
    have hid : id = task := by simpa using List.find?_some hfind
    rw [hfind, hid]
  · intro hfind
    exact ⟨_, hfind, rfl⟩

/-- The blocks of a task that reports have arrived: it waits for none. -/
theorem Fetching.joined_received (h : Fetching v tr) {task : ℕ} {msg : StreamerMessage L.Cid}
    (hmem : (task, msg) ∈ v.player.tasks) (hjoined : v.Joined task msg) :
    ∀ cid ∈ msg.cids, cid ∈ v.received := by
  intro cid hc
  obtain ⟨hlen, hreplied⟩ := hjoined
  have hcids : (v.handles task).map Prod.fst = msg.cids :=
    (h.handlesOk.cids_isPrefix _ hmem).eq_of_length (by rw [List.length_map, hlen])
  rw [← hcids] at hc
  obtain ⟨⟨_, chan⟩, hasked, rfl⟩ := List.mem_map.mp hc
  rcases h.waits task _ chan hasked with hreceived | ⟨chan', hasked', hnone⟩
  · exact hreceived
  · have := hreplied _ hasked'
    simp [hnone] at this

theorem Fetching.step_finish (h : Fetching v tr) (task : ℕ) :
    ∃ v' e, v.step .wraps (.finish task) = .ok (v', e) ∧
      Fetching v' (tr ++ [(.finish task, e)]) := by
  cases hmsg : v.message task with
  | none => exact ⟨v, .none, by simp only [step, hmsg, pure_eq_ok], h.idle _⟩
  | some msg =>
    by_cases hjoined : v.Joined task msg
    · have hfind := message_eq_some.mp hmsg
      obtain ⟨player, e, hs, hready, hspawned, htasks, hchannel, hno⟩ := h.ready.finish hfind
      refine ⟨{ v with player }, e, ?_, h.of_player hready hspawned.ge
        (fun t ht => .inl (htasks t ht)) ?_ fun m query he => absurd he (hno m query)⟩
      · simp only [step, hmsg, if_pos hjoined, stepPlayer, hs, ok_bind, pure_eq_ok]
      · rw [hchannel]
        intro m hm
        rcases List.mem_append.mp hm with hm | hm
        · exact h.channel_received m hm
        · rw [List.mem_singleton.mp hm]
          exact h.joined_received (List.mem_of_find?_eq_some hfind) hjoined
    · exact ⟨v, .none, by simp only [step, hmsg, if_neg hjoined, pure_eq_ok], h.idle _⟩

/-! ## A call of `get_block` -/

theorem asked_getBlock {task task' : ℕ} {cid cid' : L.Cid} {chan : ChanId} :
    (v.getBlock task cid).Asked task' cid' chan ↔
      v.Asked task' cid' chan ∨ task' = task ∧ cid' = cid ∧ chan = v.nextChan := by
  by_cases ht : task' = task
  · subst ht
    simp [Asked, getBlock]
  · simp [Asked, getBlock, ht]

theorem HandlesOk.getBlock (h : v.HandlesOk) (hready : v.player.Ready) {task : ℕ}
    {msg : StreamerMessage L.Cid} {cid : L.Cid} (hmem : (task, msg) ∈ v.player.tasks)
    (hcid : msg.cids[(v.handles task).length]? = some cid) : (v.getBlock task cid).HandlesOk := by
  refine ⟨?_, ?_, ?_, ?_⟩
  · intro t ht
    by_cases hid : t.1 = task
    · -- tasks have numbers of their own, so it is the one that calls
      obtain rfl : t = (task, msg) := List.inj_on_of_nodup_map hready.tasks_nodup ht hmem hid
      obtain ⟨rest, hrest⟩ := h.cids_isPrefix _ hmem
      have hlen : ((v.handles task).map Prod.fst).length = (v.handles task).length :=
        List.length_map ..
      rw [← hrest, ← hlen, List.getElem?_append_right le_rfl, Nat.sub_self] at hcid
      obtain ⟨rest', rfl⟩ : ∃ rest', rest = cid :: rest' := by
        cases rest with
        | nil => simp at hcid
        | cons c rest' => exact ⟨rest', by simpa using hcid⟩
      refine ⟨rest', ?_⟩
      rw [← hrest]
      simp [Viewer.getBlock]
    · simpa [Viewer.getBlock, hid] using h.cids_isPrefix t ht
  · intro id hid
    have hne : id ≠ task := by
      rintro rfl
      exact absurd (hready.task_lt _ hmem) (not_lt.mpr hid)
    simpa [Viewer.getBlock, hne] using h.fresh id hid
  · intro id c chan hasked
    rcases asked_getBlock.mp hasked with hold | ⟨-, -, rfl⟩
    · exact (h.chan_lt hold).trans (Nat.lt_succ_self _)
    · exact Nat.lt_succ_self _
  · intro id c id' c' chan hasked hasked'
    rcases asked_getBlock.mp hasked with hold | ⟨rfl, rfl, rfl⟩ <;>
      rcases asked_getBlock.mp hasked' with hold' | ⟨rfl, rfl, hchan⟩
    · exact h.chan_inj hold hold'
    · exact absurd hchan (h.chan_lt hold).ne
    · exact absurd rfl (h.chan_lt hold').ne
    · exact ⟨rfl, rfl⟩

theorem RequestsOk.getBlock (h : v.RequestsOk) (hhandles : v.HandlesOk) (task : ℕ) (cid : L.Cid) :
    (v.getBlock task cid).RequestsOk := by
  have hnotStored : ∀ slot, v.system.service.stored slot ≠ some v.nextChan := by
    intro slot hs
    obtain ⟨id, c, -, hasked⟩ := h.stored slot _ hs
    exact absurd (hhandles.chan_lt hasked) (lt_irrefl _)
  refine ⟨fun chan hc => h.reply_fresh chan (Nat.le_of_succ_le hc), ?_, ?_, ?_⟩
  · intro slot chan hs
    obtain ⟨id, c, hslot, hasked⟩ := h.stored slot chan hs
    exact ⟨id, c, hslot, asked_getBlock.mpr (.inl hasked)⟩
  · simp only [Viewer.getBlock, List.nodup_append, h.commands_nodup, List.nodup_singleton,
      List.mem_singleton, true_and]
    rintro cmd hcmd _ rfl rfl
    obtain ⟨id, c, chan, heq, hasked, -⟩ := h.queued _ hcmd
    cases heq
    exact absurd (hhandles.chan_lt hasked) (lt_irrefl _)
  · intro cmd hcmd
    rcases List.mem_append.mp hcmd with hcmd | hcmd
    · obtain ⟨id, c, chan, heq, hasked, hrest⟩ := h.queued cmd hcmd
      exact ⟨id, c, chan, heq, asked_getBlock.mpr (.inl hasked), hrest⟩
    · exact ⟨task, cid, v.nextChan, List.mem_singleton.mp hcmd,
        asked_getBlock.mpr (.inr ⟨rfl, rfl, rfl⟩), h.reply_fresh _ le_rfl, hnotStored⟩

theorem Fetching.step_request (h : Fetching v tr) (task : ℕ) :
    ∃ v' e, v.step .wraps (.request task) = .ok (v', e) ∧
      Fetching v' (tr ++ [(.request task, e)]) := by
  cases hmsg : v.message task with
  | none => exact ⟨v, .none, by simp only [step, hmsg, pure_eq_ok], h.idle _⟩
  | some msg =>
    cases hcid : msg.cids[(v.handles task).length]? with
    | none => exact ⟨v, .none, by simp only [step, hmsg, hcid, pure_eq_ok], h.idle _⟩
    | some cid =>
      have hmem := List.mem_of_find?_eq_some (message_eq_some.mp hmsg)
      refine ⟨v.getBlock task cid, .none, by simp only [step, hmsg, hcid, pure_eq_ok], { h with
        handlesOk := h.handlesOk.getBlock h.ready hmem hcid
        requestsOk := h.requestsOk.getBlock h.handlesOk task cid
        waits := ?_
        received_of := h.received_concat _ .none
        arrived := h.arrived_concat (by simp) }⟩
      intro id c chan hasked
      rcases asked_getBlock.mp hasked with hold | ⟨rfl, rfl, rfl⟩
      · refine (h.waits id c chan hold).imp_right ?_
        rintro ⟨chan', hasked', hnone⟩
        exact ⟨chan', asked_getBlock.mpr (.inl hasked'), hnone⟩
      · exact .inr ⟨_, asked_getBlock.mpr (.inr ⟨rfl, rfl, rfl⟩),
          h.requestsOk.reply_fresh _ le_rfl⟩

/-! ## Steps of the service -/

/-- A channel is still empty when the step sends no reply to it. -/
theorem deliver_eq_none_iff {replies : ChanId → Option (Reply L)} {out : List (Output L)}
    {chan : ChanId} :
    deliver replies out chan = none ↔ replies chan = none ∧ chan ∉ repliedTo out := by
  induction out generalizing replies with
  | nil => simp [deliver, repliedTo]
  | cons o out ih =>
    cases o with
    | reply sender reply =>
      rw [deliver, ih]
      by_cases hs : chan = sender <;> simp [repliedTo, hs]
    | _ => exact ih

/-- No client of a viewer leaves, so a step of the service goes through, and replies to the senders
    that its effect spends. -/
theorem Fetching.reply_step (h : Fetching v tr) (i : Input L) (hi : ∀ chan, i ≠ .drop chan) :
    ∃ system out, v.system.step i = .ok (system, out) ∧
      system.service.blockExchange.WellFormed ∧ system.dropped = ∅ ∧
      system.service.stored = i.effect.after v.system.service.stored ∧
      repliedTo out = i.effect.spent v.system.service.stored := by
  obtain ⟨system, out, hs⟩ := step_replies h.wellFormed i (by simp [h.dropped_eq])
  refine ⟨system, out, hs.step, hs.wellFormed, ?_, hs.stored, ?_⟩
  · rw [hs.dropped, h.dropped_eq]
    cases i with
    | drop chan => exact absurd rfl (hi chan)
    | _ => rfl
  · rw [hs.replied, h.dropped_eq]
    exact List.filter_eq_self.mpr (by simp)

theorem deliver_eq_none {out : List (Output L)} {chan : ChanId}
    (hanswered : ∀ chan ∈ repliedTo out, ∃ slot, v.system.service.stored slot = some chan)
    (hnone : v.replies chan = none) (hfree : ∀ slot, v.system.service.stored slot ≠ some chan) :
    deliver v.replies out chan = none := by
  refine deliver_eq_none_iff.mpr ⟨hnone, fun hr => ?_⟩
  obtain ⟨slot, hst⟩ := hanswered chan hr
  exact hfree slot hst

/-- A step of the service that answers only what is in the table, and puts there only the sender of
    a command that it took. What a task asked for and is answered has arrived, or the task asked
    for it once more. -/
theorem Fetching.of_service (h : Fetching v tr) {system : System L} {out : List (Output L)}
    {commands : List (Command L)} {received : List L.Cid}
    (hwf : system.service.blockExchange.WellFormed) (hdropped : system.dropped = ∅)
    (hcommands : commands.Sublist v.commands)
    (hanswered : ∀ chan ∈ repliedTo out, ∃ slot, v.system.service.stored slot = some chan)
    (hstored : ∀ slot chan, system.service.stored slot = some chan →
      v.system.service.stored slot = some chan ∨
      ∃ task cid, slot = .getBlock cid ∧ v.Asked task cid chan ∧ .blockGet cid chan ∉ commands)
    (hmono : ∀ cid ∈ v.received, cid ∈ received)
    (hreceived : ∀ cid ∈ received, ∃ peerId block,
      .event (.behaviour (.bitswap (.receivedBlock peerId block))) ∈
        (tr ++ [(a, Player.Event.none)]).map Prod.fst ∧ block.cid = cid)
    (hwaits : ∀ task cid chan, v.Asked task cid chan → chan ∈ repliedTo out →
      cid ∈ received ∨ ∃ chan', v.Asked task cid chan' ∧ deliver v.replies out chan' = none) :
    Fetching { v with system, commands, received, replies := deliver v.replies out }
      (tr ++ [(a, .none)]) where
  wellFormed := hwf
  dropped_eq := hdropped
  ready := h.ready
  handlesOk := ⟨h.handlesOk.cids_isPrefix, h.handlesOk.fresh, h.handlesOk.chan_lt,
    h.handlesOk.chan_inj⟩
  requestsOk := by
    refine ⟨?_, ?_, h.requestsOk.commands_nodup.sublist hcommands, ?_⟩
    · intro chan hc
      refine deliver_eq_none hanswered (h.requestsOk.reply_fresh chan hc) fun slot hst => ?_
      obtain ⟨task, cid, -, hasked⟩ := h.requestsOk.stored slot chan hst
      exact absurd (h.handlesOk.chan_lt hasked) (not_lt.mpr hc)
    · intro slot chan hst
      rcases hstored slot chan hst with hst | ⟨task, cid, hslot, hasked, -⟩
      · exact h.requestsOk.stored slot chan hst
      · exact ⟨task, cid, hslot, hasked⟩
    · intro cmd hcmd
      obtain ⟨task, cid, chan, rfl, hasked, hnone, hfree⟩ :=
        h.requestsOk.queued cmd (hcommands.subset hcmd)
      refine ⟨task, cid, chan, rfl, hasked, deliver_eq_none hanswered hnone hfree,
        fun slot hst => ?_⟩
      rcases hstored slot chan hst with hst | ⟨task', cid', -, hasked', htaken⟩
      · exact hfree slot hst
      · -- a channel belongs to one call
        obtain ⟨-, rfl⟩ := h.handlesOk.chan_inj hasked hasked'
        exact htaken hcmd
  waits := by
    intro task cid chan hasked
    rcases h.waits task cid chan hasked with hin | ⟨waiting, hwait, hnone⟩
    · exact .inl (hmono cid hin)
    · by_cases hr : waiting ∈ repliedTo out
      · exact hwaits task cid waiting hwait hr
      · exact .inr ⟨waiting, hwait, deliver_eq_none_iff.mpr ⟨hnone, hr⟩⟩
  channel_received := fun msg hm cid hc => hmono cid (h.channel_received msg hm cid hc)
  received_of := hreceived
  arrived := h.arrived_concat (by simp)

theorem Fetching.step_serve (h : Fetching v tr) (answers : Answers L)
    (hguard : v.NoneDisplaced (.serve answers)) :
    ∃ v' e, v.step .wraps (.serve answers) = .ok (v', e) ∧
      Fetching v' (tr ++ [(.serve answers, e)]) := by
  cases hcommands : v.commands with
  | nil => exact ⟨v, .none, by simp only [step, hcommands, pure_eq_ok], h.idle _⟩
  | cons cmd commands =>
    obtain ⟨task, cid, chan, rfl, hasked, hnone, hfree⟩ :=
      h.requestsOk.queued cmd (by simp [hcommands])
    obtain ⟨system, out, hs, hwf, hdropped, hstored, hreplied⟩ :=
      h.reply_step (.command answers (.blockGet cid chan)) (by simp)
    -- the one that is answered is the waiter that the call displaces
    have hdisplaced : ∀ chan' ∈ repliedTo out,
        v.system.service.stored (.getBlock cid) = some chan' := by
      intro chan' hr
      rw [hreplied] at hr
      exact Option.mem_toList.mp hr
    have hanswered : ∀ chan' ∈ repliedTo out, ∃ slot, v.system.service.stored slot = some chan' :=
      fun chan' hr => ⟨_, hdisplaced chan' hr⟩
    have htaken : .blockGet cid chan ∉ commands := by
      have hnodup := h.requestsOk.commands_nodup
      rw [hcommands] at hnodup
      exact (List.nodup_cons.mp hnodup).1
    refine ⟨{ v with system, commands, replies := deliver v.replies out }, .none, ?_,
      h.of_service hwf hdropped ?_ hanswered ?_ (fun _ hc => hc) (h.received_concat _ _) ?_⟩
    · simp only [step, hcommands, stepSystem, hs, ok_bind, pure_eq_ok]
    · rw [hcommands]
      exact List.sublist_cons_self _ _
    · intro slot chan' hst
      rw [hstored] at hst
      by_cases hslot : slot = .getBlock cid
      · subst hslot
        obtain rfl : chan = chan' := by simpa [Input.effect, Effect.after] using hst
        exact .inr ⟨task, cid, rfl, hasked, htaken⟩
      · exact .inl (by simpa [Input.effect, Effect.after, hslot] using hst)
    · intro id c waiting hwait hr
      have hst := hdisplaced waiting hr
      obtain ⟨id', c', hslot, hwait'⟩ := h.requestsOk.stored _ _ hst
      obtain rfl : cid = c' := by simpa using hslot
      obtain ⟨rfl, rfl⟩ := h.handlesOk.chan_inj hwait hwait'
      rcases hguard _ _ _ (by rw [hcommands]; rfl) hst with hin | ⟨id'', hw, hc⟩
      · exact .inl hin
      · -- the call that displaces it belongs to the same task, which now waits with it
        obtain ⟨rfl, -⟩ := h.handlesOk.chan_inj hwait hw
        exact .inr ⟨chan, hc, deliver_eq_none hanswered hnone hfree⟩

/-- An event that answers a `get_block` brings the block. -/
theorem receivedCid_of_effect {event : SwarmEvent L} {cid : L.Cid}
    (h : (Input.event event).effect = .take (.getBlock cid)) : receivedCid event = some cid := by
  cases event with
  | behaviour event =>
    cases event with
    | kademlia event =>
      cases event with
      | outboundQueryCompleted id result =>
        cases result with
        | bootstrap result =>
          cases result with
          | ok bootstrapOk =>
            simp only [Input.effect] at h
            split_ifs at h
            cases h
          | error e => cases h
        | other => cases h
      | _ => cases h
    | bitswap event =>
      cases event with
      | receivedBlock peerId block => cases h; rfl
      | _ => cases h
    | _ => cases h
  | _ => cases h

theorem receivedCid_eq_some {event : SwarmEvent L} {cid : L.Cid}
    (h : receivedCid event = some cid) : ∃ peerId block,
      event = .behaviour (.bitswap (.receivedBlock peerId block)) ∧ block.cid = cid := by
  unfold receivedCid at h
  split at h
  · exact ⟨_, _, rfl, Option.some.inj h⟩
  · cases h

theorem Fetching.step_event (h : Fetching v tr) (event : SwarmEvent L) :
    ∃ v' e, v.step .wraps (.event event) = .ok (v', e) ∧
      Fetching v' (tr ++ [(.event event, e)]) := by
  obtain ⟨system, out, hs, hwf, hdropped, hstored, hreplied⟩ :=
    h.reply_step (.event event) (by simp)
  refine ⟨{ v with
    received := v.received ++ (receivedCid event).toList
    system, replies := deliver v.replies out }, .none, ?_,
    h.of_service hwf hdropped (List.Sublist.refl _) ?_ ?_
      (fun _ hc => List.mem_append_left _ hc) ?_ ?_⟩
  · simp only [step, stepSystem, hs, ok_bind, pure_eq_ok]
  · intro chan hr
    rw [hreplied] at hr
    rcases effect_event event with heff | ⟨slot, heff⟩ <;> rw [heff] at hr
    · exact absurd hr List.not_mem_nil
    · exact ⟨slot, Option.mem_toList.mp hr⟩
  · intro slot chan hst
    rw [hstored] at hst
    rcases effect_event event with heff | ⟨slot', heff⟩ <;> rw [heff] at hst
    · exact .inl hst
    · by_cases hslot : slot = slot'
      · subst hslot
        simp [Effect.after] at hst
      · exact .inl (by simpa [Effect.after, hslot] using hst)
  · intro cid hc
    rcases List.mem_append.mp hc with hc | hc
    · exact h.received_concat _ _ cid hc
    · obtain ⟨peerId, block, rfl, hb⟩ := receivedCid_eq_some (Option.mem_toList.mp hc)
      exact ⟨peerId, block, by simp, hb⟩
  · intro task cid chan hasked hr
    rw [hreplied] at hr
    rcases effect_event event with heff | ⟨slot, heff⟩ <;> rw [heff] at hr
    · exact absurd hr List.not_mem_nil
    · -- an event answers what is stored under the cid of the block that it brings
      obtain ⟨task', cid', rfl, hasked'⟩ :=
        h.requestsOk.stored slot chan (Option.mem_toList.mp hr)
      obtain ⟨-, rfl⟩ := h.handlesOk.chan_inj hasked hasked'
      exact .inl (List.mem_append_right _ (by simp [receivedCid_of_effect heff]))

/-- A guarded step. -/
theorem Fetching.step (h : Fetching v tr) (a : Action L) (hguard : v.NoneDisplaced a) :
    ∃ v' e, v.step .wraps a = .ok (v', e) ∧ Fetching v' (tr ++ [(a, e)]) := by
  cases a with
  | gossip receiveTime msg =>
    obtain ⟨player, e, hs, hready, htasks, hspawned, hchannel, hno⟩ :=
      h.ready.gossip receiveTime msg
    refine ⟨{ v with player }, e, by simp only [Viewer.step, stepPlayer, hs, ok_bind, pure_eq_ok],
      h.of_player hready hspawned.ge (fun t ht => .inl (htasks ▸ ht)) ?_
        fun m query he => absurd he (hno m query)⟩
    rw [hchannel]
    exact h.channel_received
  | tick now =>
    obtain ⟨player, e, hs, hready, hchannel, hspawned, htasks, hno⟩ := h.ready.tick now
    refine ⟨{ v with player }, e, by simp only [Viewer.step, stepPlayer, hs, ok_bind, pure_eq_ok],
      h.of_player hready hspawned htasks ?_ fun m query he => absurd he (hno m query)⟩
    rw [hchannel]
    exact h.channel_received
  | recv receiveTime =>
    obtain ⟨player, e, hs, hready, htasks, hspawned, hchannel, hbuffered⟩ :=
      h.ready.recv receiveTime
    exact ⟨{ v with player }, e, by simp only [Viewer.step, stepPlayer, hs, ok_bind, pure_eq_ok],
      h.of_player hready hspawned.ge (fun t ht => .inl (htasks ▸ ht))
        (fun m hm => h.channel_received m (hchannel m hm)) hbuffered⟩
  | request task => exact h.step_request task
  | serve answers => exact h.step_serve answers hguard
  | event event => exact h.step_event event
  | finish task => exact h.step_finish task

end Step

/-! ## Runs -/

/-- No action of the run panics, and it buffers no segment before the node has received a block for
    each cid of its message. -/
def BuffersArrived (maxConcurrentSend : ℕ) (segmentLength simId : UInt64) (is : List (Action L)) :
    Prop :=
  ∃ v tr, run (step .wraps) (Viewer.new maxConcurrentSend segmentLength simId) is = .ok (v, tr) ∧
    EachStep (fun before _ e => BlocksArrived before e) tr

/-- A run buffers no segment before its blocks have arrived, if no `BlockGet` of a task displaces
    the waiter of another task for a block that has not arrived yet. -/
theorem buffersArrived_of_noneDisplaced (maxConcurrentSend : ℕ) (segmentLength simId : UInt64)
    {is : List (Action L)}
    (h : Meets (step .wraps) NoneDisplaced (Viewer.new maxConcurrentSend segmentLength simId) is) :
    BuffersArrived maxConcurrentSend segmentLength simId is := by
  obtain ⟨v, tr, hrun, hfetching⟩ := run_induction (fun _ => True) Fetching (fun _ _ _ => trivial)
    (Fetching.init maxConcurrentSend segmentLength simId)
    (fun v tr a h _ hguard => h.step a hguard) trivial h
  exact ⟨v, tr, hrun, hfetching.arrived⟩

/-- The guard for the next command, tested on the tasks spawned so far. -/
def testDisplaced (v : Viewer L) : Bool :=
  match v.commands with
  | .blockGet cid chan :: _ =>
    match v.system.service.pendingGetBlock cid with
    | none => true
    | some displaced => cid ∈ v.received || (List.range v.player.spawned).any fun task =>
        (cid, displaced) ∈ v.handles task && (cid, chan) ∈ v.handles task
  | _ => true

theorem noneDisplaced_of_test {v : Viewer L} (a : Action L) (h : v.testDisplaced = true) :
    v.NoneDisplaced a := by
  cases a with
  | serve answers =>
    intro cid chan displaced hhead hpending
    obtain ⟨commands, hcommands⟩ := List.head?_eq_some_iff.mp hhead
    simp only [testDisplaced, hcommands, hpending, Bool.or_eq_true, decide_eq_true_eq,
      List.any_eq_true, Bool.and_eq_true] at h
    refine h.imp_right ?_
    rintro ⟨task, -, hdisplaced, hasked⟩
    exact ⟨task, hdisplaced, hasked⟩
  | _ => trivial

/-- The cids of the segment that a step buffers. -/
def bufferedCids : Player.Event L.Cid → Option (List L.Cid)
  | .buffered msg _ => some msg.cids
  | _ => none

/-- Two messages with one cid: the second task's `BlockGet` displaces the first task's waiter, and
    the first segment is buffered although no block has been received. -/
theorem not_buffersArrived_example :
    ¬ BuffersArrived 1 1 0 ([.gossip 0 ⟨1, 0, [7]⟩, .gossip 0 ⟨2, 0, [7]⟩, .tick 0, .tick 0,
      .request 0, .request 1, .serve Answers.nat, .serve Answers.nat, .finish 0, .recv 0] :
      List (Action Libp2p.nat)) := by
  rintro ⟨v, tr, hrun, harrived⟩
  have hlast : ((run (step .wraps) (Viewer.new 1 1 0 : Viewer Libp2p.nat) [.gossip 0 ⟨1, 0, [7]⟩,
      .gossip 0 ⟨2, 0, [7]⟩, .tick 0, .tick 0, .request 0, .request 1, .serve Answers.nat,
      .serve Answers.nat, .finish 0, .recv 0]).map fun r => r.2.getLast?.bind fun step =>
        bufferedCids step.2) = .ok (some [7]) := by decide +kernel
  have hinputs := trace_inputs hrun
  rw [hrun] at hlast
  rcases List.eq_nil_or_concat' tr with rfl | ⟨before, ⟨a, e⟩, rfl⟩
  · cases hinputs
  · obtain ⟨msg, query, rfl, hcids⟩ : ∃ msg query, e = .buffered msg query ∧ msg.cids = [7] := by
      cases e <;> simp_all [Except.map, bufferedCids]
    obtain ⟨peerId, block, hmem, -⟩ :=
      (eachStep_concat.mp harrived).2 msg query rfl 7 (by simp [hcids])
    have hevent := List.mem_append_left ([(a, Player.Event.buffered msg query)].map Prod.fst) hmem
    rw [← List.map_append, hinputs] at hevent
    simp at hevent

/-- A run in which a task asks for a cid twice, and two other tasks for it when it has arrived. -/
theorem buffersArrived_of_noneDisplaced_example :
    BuffersArrived 1 1 0 ([.gossip 0 ⟨1, 0, [7, 7]⟩, .gossip 0 ⟨2, 0, [7]⟩, .gossip 0 ⟨3, 0, [7]⟩,
      .tick 0, .tick 0, .tick 0, .request 0, .request 0, .serve Answers.nat, .serve Answers.nat,
      .event (.behaviour (.bitswap (.receivedBlock 0 ⟨[], 7⟩))), .finish 0, .recv 0, .request 1,
      .request 2, .serve Answers.nat, .serve Answers.nat, .finish 1, .recv 0] :
      List (Action Libp2p.nat)) := by
  refine buffersArrived_of_noneDisplaced 1 1 0 (meets_mono (fun v a => noneDisplaced_of_test a) ?_)
  decide +kernel

end Viewer

end LiveTest
