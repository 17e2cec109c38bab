import LiveTest.Viewer.Steps
import Mathlib.Algebra.Order.BigOperators.Group.List

/-!
# No fetch is stuck

A call of `get_block` that has not returned waits in the channel of the commands
or in the table, under its cid. So a task is only ever waiting for the service to
go on, or for a block, whatever else the viewer was given to do and whichever
calls displaced each other.

* `Located.step`: the invariant, step by step; no action has to be ruled out.
* `fetches_finish`: from every reachable state, when the service goes on and the blocks
  that are missing arrive, every fetch reports and every segment is buffered.
-/

namespace LiveTest

open Rust Machine Ledger

variable {L : Libp2p}

/-! ## Steps of the player -/

/-- What every step of the player keeps. -/
theorem Player.Ready.step {Cid : Type} {p p' : Player Cid} (h : p.Ready) {a : Player.Action Cid}
    {e : Player.Event Cid} (hs : p.step .wraps a = .ok (p', e)) :
    p'.Ready ∧ p.spawned ≤ p'.spawned ∧ ∀ t ∈ p'.tasks, t ∈ p.tasks ∨ t.1 = p.spawned := by
  cases a with
  | gossip receiveTime msg =>
    obtain ⟨p'', e', hs', hready, htasks, hspawned, -⟩ := h.gossip receiveTime msg
    rw [hs] at hs'
    cases hs'
    exact ⟨hready, hspawned.ge, fun t ht => .inl (htasks ▸ ht)⟩
  | tick now =>
    obtain ⟨p'', e', hs', hready, -, hspawned, htasks, -⟩ := h.tick now
    rw [hs] at hs'
    cases hs'
    exact ⟨hready, hspawned, htasks⟩
  | finish task =>
    cases hfind : p.tasks.find? fun t => t.1 = task with
    | none =>
      simp only [Player.step, hfind, pure_eq_ok] at hs
      cases hs
      exact ⟨h, le_rfl, fun t => .inl⟩
    | some t =>
      obtain ⟨id, msg⟩ := t
      obtain rfl : id = task := by simpa using List.find?_some hfind
      obtain ⟨p'', e', hs', hready, hspawned, htasks, -⟩ := h.finish hfind
      rw [hs] at hs'
      cases hs'
      exact ⟨hready, hspawned.ge, fun t ht => .inl (htasks t ht)⟩
  | recv receiveTime =>
    obtain ⟨p'', e', hs', hready, htasks, hspawned, -⟩ := h.recv receiveTime
    rw [hs] at hs'
    cases hs'
    exact ⟨hready, hspawned.ge, fun t ht => .inl (htasks ▸ ht)⟩

namespace Viewer

variable {v v' : Viewer L}

theorem HandlesOk.of_player (h : v.HandlesOk) {player : Player L.Cid}
    (hspawned : v.player.spawned ≤ player.spawned)
    (htasks : ∀ t ∈ player.tasks, t ∈ v.player.tasks ∨ t.1 = v.player.spawned) :
    ({ v with player } : Viewer L).HandlesOk := by
  refine ⟨fun t ht => ?_, fun task ht => h.fresh task (hspawned.trans ht), h.chan_lt, h.chan_inj⟩
  rcases htasks t ht with ht | ht
  · exact h.cids_isPrefix t ht
  · -- a new task has made no call yet
    have hnone : v.handles t.1 = [] := h.fresh _ ht.ge
    simp [hnone]

/-! ## Where a call is -/

/-- A call of `get_block` has returned, waits for the service, or waits in the table. -/
structure Located (v : Viewer L) : Prop where
  wellFormed : v.system.service.blockExchange.WellFormed
  dropped_eq : v.system.dropped = ∅
  ready : v.player.Ready
  handlesOk : v.HandlesOk
  located : ∀ task cid chan, v.Asked task cid chan → v.replies chan ≠ none ∨
    .blockGet cid chan ∈ v.commands ∨ v.system.service.stored (.getBlock cid) = some chan

theorem Located.init (maxConcurrentSend : ℕ) (segmentLength simId : UInt64) :
    (Viewer.new maxConcurrentSend segmentLength simId : Viewer L).Located where
  wellFormed := BlockExchange.WellFormed.default
  dropped_eq := rfl
  ready := Player.Ready.init segmentLength simId
  handlesOk := by constructor <;> simp [Viewer.new, Asked, Player.new]
  located := by simp [Viewer.new, Asked]

/-- Only a `BlockGet` puts a sender in the table of `get_block`, and it answers the one that it
    displaces. -/
theorem effect_park_getBlock {i : Input L} {cid : L.Cid} {tok : ChanId} {b : Bool}
    (h : i.effect = .park (.getBlock cid) tok b) : b = true := by
  unfold Input.effect at h
  split at h <;> try cases h
  · split at h <;> cases h
  · split at h <;> cases h
  · rfl
  · split_ifs at h

/-- What waits in the table of `get_block` stays there, or is answered. -/
theorem stored_getBlock (stored : Slot L → Option ChanId) (i : Input L) {cid : L.Cid} {chan : ChanId}
    (h : stored (.getBlock cid) = some chan) :
    i.effect.after stored (.getBlock cid) = some chan ∨ chan ∈ i.effect.spent stored := by
  cases heff : i.effect with
  | skip => exact .inl h
  | spend tok => exact .inl h
  | lose tok => exact .inl h
  | take slot =>
    by_cases hslot : slot = .getBlock cid
    · subst hslot
      right
      simp [Effect.spent, h]
    · left
      simpa [Effect.after, Ne.symm hslot] using h
  | park slot tok b =>
    by_cases hslot : slot = .getBlock cid
    · subst hslot
      obtain rfl := effect_park_getBlock heff
      right
      simp [Effect.spent, h]
    · left
      simpa [Effect.after, Ne.symm hslot] using h

/-- A step of the service that takes `taken` off the channel, if anything. -/
theorem Located.of_service (h : v.Located) {i : Input L} (hi : ∀ chan, i ≠ .drop chan)
    {system : System L} {out : List (Output L)} (hs : v.system.step i = .ok (system, out))
    {commands : List (Command L)} {received : List L.Cid}
    (htaken : ∀ cid chan, .blockGet cid chan ∈ v.commands → .blockGet cid chan ∈ commands ∨
      ∃ answers, i = .command answers (.blockGet cid chan)) :
    ({ v with system, commands, received, replies := deliver v.replies out } :
      Viewer L).Located := by
  obtain ⟨system', out', hreply⟩ := step_replies h.wellFormed i (by simp [h.dropped_eq])
  have hs' := hreply.step
  rw [hs] at hs'
  cases hs'
  have hreplied : repliedTo out = i.effect.spent v.system.service.stored := by
    rw [hreply.replied, h.dropped_eq]
    exact List.filter_eq_self.mpr (by simp)
  refine ⟨hreply.wellFormed, ?_, h.ready, ⟨h.handlesOk.cids_isPrefix, h.handlesOk.fresh,
    h.handlesOk.chan_lt, h.handlesOk.chan_inj⟩, fun task cid chan hasked => ?_⟩
  · rw [hreply.dropped, h.dropped_eq]
    cases i with
    | drop chan => exact absurd rfl (hi chan)
    | _ => rfl
  · have hanswered : v.replies chan ≠ none ∨ chan ∈ repliedTo out →
        deliver v.replies out chan ≠ none := by
      rintro (hr | hr) hnone
      · exact hr (deliver_eq_none_iff.mp hnone).1
      · exact (deliver_eq_none_iff.mp hnone).2 hr
    rcases h.located task cid chan hasked with hr | hc | hst
    · exact .inl (hanswered (.inl hr))
    · rcases htaken cid chan hc with hc | ⟨answers, rfl⟩
      · exact .inr (.inl hc)
      · right
        right
        change system.service.stored _ = _
        rw [hreply.stored]
        simp [Input.effect, Effect.after]
    · rcases stored_getBlock v.system.service.stored i hst with hst | hr
      · right
        right
        change system.service.stored _ = _
        rw [hreply.stored]
        exact hst
      · rw [← hreplied] at hr
        exact .inl (hanswered (.inr hr))

theorem Located.step (h : v.Located) {a : Action L} {e : Player.Event L.Cid}
    (hs : v.step .wraps a = .ok (v', e)) : v'.Located := by
  cases took_of_step hs with
  | idle => exact h
  | played _ hplayed =>
    obtain ⟨hready, hspawned, htasks⟩ := h.ready.step hplayed
    exact ⟨h.wellFormed, h.dropped_eq, hready, h.handlesOk.of_player hspawned htasks, h.located⟩
  | requested hfound hnext =>
    have hmem := List.mem_of_find?_eq_some (message_eq_some.mp hfound)
    refine ⟨h.wellFormed, h.dropped_eq, h.ready, h.handlesOk.getBlock h.ready hmem hnext,
      fun task cid chan hasked => ?_⟩
    rcases asked_getBlock.mp hasked with hold | ⟨-, rfl, rfl⟩
    · exact (h.located task cid chan hold).imp_right
        (Or.imp_left (List.mem_append_left _))
    · exact .inr (.inl (List.mem_append_right _ (List.mem_singleton_self _)))
  | served hfirst hserved =>
    refine h.of_service (by simp) hserved fun cid chan hmem => ?_
    rw [hfirst] at hmem
    rcases List.mem_cons.mp hmem with rfl | hmem
    · exact .inr ⟨_, rfl⟩
    · exact .inl hmem
  | notified hnotified => exact h.of_service (by simp) hnotified fun cid chan => .inl

/-! ## What is left to do -/

/-- The calls that the tasks have still to make, and their reports. -/
def callsLeft (v : Viewer L) : ℕ :=
  (v.player.tasks.map fun t => t.2.cids.length - (v.handles t.1).length + 1).sum

/-- The calls of the tasks that have not returned, when the channels hold `replies`. -/
def repliesLeft (v : Viewer L) (replies : ChanId → Option (Reply L)) : ℕ :=
  ((v.player.tasks.flatMap fun t => v.handles t.1).map fun h =>
    if (replies h.2).isNone then 1 else 0).sum

/-- What is left to do: first the calls and the reports, then what waits. -/
def load (v : Viewer L) : ℕ × ℕ :=
  (v.callsLeft, v.commands.length + v.player.channel.length + v.repliesLeft v.replies)

theorem callsLeft_getBlock {task : ℕ} {msg : StreamerMessage L.Cid} {cid : L.Cid}
    (hmem : (task, msg) ∈ v.player.tasks) (hcid : msg.cids[(v.handles task).length]? = some cid) :
    (v.getBlock task cid).callsLeft < v.callsLeft := by
  have hlt := (List.getElem?_eq_some_iff.mp hcid).1
  refine List.sum_lt_sum _ _ (fun t ht => ?_) ⟨_, hmem, ?_⟩
  · by_cases hid : t.1 = task
    · simp only [getBlock, hid, Function.update_self, List.length_append, List.length_singleton]
      omega
    · simp only [getBlock, Function.update_of_ne hid, le_refl]
  · simp only [getBlock, Function.update_self, List.length_append, List.length_singleton]
    omega

theorem isNone_deliver_le (replies : ChanId → Option (Reply L)) (out : List (Output L))
    (chan : ChanId) :
    (if (deliver replies out chan).isNone then 1 else 0) ≤
      if (replies chan).isNone then 1 else 0 := by
  by_cases hnone : deliver replies out chan = none
  · simp [hnone, (deliver_eq_none_iff.mp hnone).1]
  · simp [hnone]

/-- Replies make the calls that have not returned fewer. -/
theorem repliesLeft_deliver_le (out : List (Output L)) :
    v.repliesLeft (deliver v.replies out) ≤ v.repliesLeft v.replies :=
  List.sum_le_sum fun h _ => isNone_deliver_le v.replies out h.2

theorem repliesLeft_deliver_lt {t : ℕ × StreamerMessage L.Cid} (ht : t ∈ v.player.tasks)
    {h : L.Cid × ChanId} (hasked : h ∈ v.handles t.1) (hnone : v.replies h.2 = none)
    {out : List (Output L)} (hreplied : h.2 ∈ repliedTo out) :
    v.repliesLeft (deliver v.replies out) < v.repliesLeft v.replies := by
  refine List.sum_lt_sum _ _ (fun h _ => isNone_deliver_le v.replies out h.2)
    ⟨h, List.mem_flatMap.mpr ⟨t, ht, hasked⟩, ?_⟩
  have hsome : deliver v.replies out h.2 ≠ none := fun hd =>
    (deliver_eq_none_iff.mp hd).2 hreplied
  simp [hnone, hsome]

/-! ## A step that gets further -/

/-- The tasks have reported, and the player has taken their entries. -/
def Finished (v : Viewer L) : Prop := v.player.tasks = [] ∧ v.player.channel = []

/-- A step got the viewer further, and only moved segments towards the buffer. -/
structure Further (v v' : Viewer L) : Prop where
  located : v'.Located
  pairs_eq : v'.player.pairs = v.player.pairs
  gossips_eq : v'.player.stream.gossips = v.player.stream.gossips
  load_lt : Prod.Lex (· < ·) (· < ·) v'.load v.load

theorem Located.further_recv (h : v.Located) {msg : StreamerMessage L.Cid}
    {channel : List (StreamerMessage L.Cid)} (hchannel : v.player.channel = msg :: channel) :
    ∃ v' e, v.step .wraps (.recv 0) = .ok (v', e) ∧ v.Further v' := by
  obtain ⟨stream, query, hs, -, hgossips, -, hperm⟩ :=
    Player.step_recv h.ready.bufferOk hchannel 0
  have hstep : v.step .wraps (.recv 0) = .ok (_, _) := stepPlayer_eq_ok.mpr ⟨_, hs, rfl⟩
  refine ⟨_, _, hstep, h.step hstep, ?_, hgossips, Prod.Lex.right _ ?_⟩
  · simp only [Player.pairs, hgossips, Multiset.coe_eq_coe.mpr hperm, hchannel, List.map_cons,
      ← Multiset.coe_add, ← Multiset.cons_coe, ← Multiset.singleton_add, Multiset.coe_nil]
    abel
  · simp only [hchannel, List.length_cons, repliesLeft]
    omega

theorem Located.further_request (h : v.Located) {task : ℕ} {msg : StreamerMessage L.Cid}
    (hfind : v.player.tasks.find? (fun t => t.1 = task) = some (task, msg))
    (hlt : (v.handles task).length < msg.cids.length) :
    ∃ v' e, v.step .wraps (.request task) = .ok (v', e) ∧ v.Further v' := by
  have hcid : msg.cids[(v.handles task).length]? = some msg.cids[(v.handles task).length] :=
    List.getElem?_eq_getElem hlt
  have hstep : v.step .wraps (.request task) =
      .ok (v.getBlock task msg.cids[(v.handles task).length], .none) := by
    simp only [Viewer.step, message_eq_some.mpr hfind, hcid, pure_eq_ok]
  exact ⟨_, _, hstep, h.step hstep, rfl, rfl,
    Prod.Lex.left _ _ (callsLeft_getBlock (List.mem_of_find?_eq_some hfind) hcid)⟩

theorem Located.further_serve (h : v.Located) {cmd : Command L} {commands : List (Command L)}
    (hcommands : v.commands = cmd :: commands) (answers : Answers L) :
    ∃ v' e, v.step .wraps (.serve answers) = .ok (v', e) ∧ v.Further v' := by
  obtain ⟨system, out, hs, -⟩ := System.exists_step h.wellFormed h.dropped_eq
    (i := .command answers cmd) (by simp)
  have hstep : v.step .wraps (.serve answers) =
      .ok ({ v with commands, system, replies := deliver v.replies out }, .none) := by
    simp only [Viewer.step, hcommands]
    exact stepSystem_eq_ok.mpr ⟨system, out, hs, rfl, rfl⟩
  refine ⟨_, _, hstep, h.step hstep, rfl, rfl, Prod.Lex.right _ ?_⟩
  have hreplies := v.repliesLeft_deliver_le out
  simp only [hcommands, List.length_cons, repliesLeft] at hreplies ⊢
  omega

/-- The block of a call that waits in the table arrives. -/
theorem Located.further_block (h : v.Located) {t : ℕ × StreamerMessage L.Cid}
    (ht : t ∈ v.player.tasks) {cid : L.Cid} {chan : ChanId} (hasked : (cid, chan) ∈ v.handles t.1)
    (hnone : v.replies chan = none)
    (hstored : v.system.service.stored (.getBlock cid) = some chan) (peerId : L.PeerId)
    (data : Bytes) :
    ∃ v' e, v.step .wraps (.event (.behaviour (.bitswap (.receivedBlock peerId ⟨data, cid⟩)))) =
      .ok (v', e) ∧ v.Further v' := by
  obtain ⟨system, out, hreply⟩ := step_replies h.wellFormed (.receivedBlock peerId ⟨data, cid⟩)
    (by simp [h.dropped_eq])
  have hstep : v.step .wraps (.event (.behaviour (.bitswap (.receivedBlock peerId ⟨data, cid⟩)))) =
      .ok (_, _) := stepSystem_eq_ok.mpr ⟨system, out, hreply.step, rfl, rfl⟩
  refine ⟨_, _, hstep, h.step hstep, rfl, rfl, Prod.Lex.right _ ?_⟩
  have hreplied : chan ∈ repliedTo out := by
    rw [hreply.replied, h.dropped_eq]
    simp [Input.effect, Effect.spent, hstored]
  have hreplies := repliesLeft_deliver_lt ht hasked hnone hreplied
  simp only [repliesLeft] at hreplies ⊢
  omega

theorem Located.further_finish (h : v.Located) {task : ℕ} {msg : StreamerMessage L.Cid}
    (hfind : v.player.tasks.find? (fun t => t.1 = task) = some (task, msg))
    (hjoined : v.Joined task msg) :
    ∃ v' e, v.step .wraps (.finish task) = .ok (v', e) ∧ v.Further v' := by
  have hmsg := message_eq_some.mpr hfind
  rcases Player.finish_cases v.player task with hs | ⟨before, msg', after, htasks, hs⟩
  · have := hs.symm.trans (Player.step_finish hfind)
    simp at this
  have hstep : v.step .wraps (.finish task) = .ok ({ v with
      player := { v.player with
        tasks := before ++ after
        channel := v.player.channel ++ [msg'] } }, .finished msg') := by
    simp only [Viewer.step, hmsg, if_pos hjoined]
    exact stepPlayer_eq_ok.mpr ⟨_, hs, rfl⟩
  refine ⟨_, _, hstep, h.step hstep, ?_, rfl, Prod.Lex.left _ _ ?_⟩
  · simp only [Player.pairs, htasks, List.map_append, List.map_cons, List.map_nil,
      ← Multiset.coe_add, ← Multiset.cons_coe, ← Multiset.singleton_add, Multiset.coe_nil]
    abel
  · simp only [callsLeft, htasks, List.map_append, List.map_cons, List.sum_append, List.sum_cons]
    omega

/-- A task or the service goes on. -/
def Action.GoesOn : Action L → Prop
  | .request _ | .serve _ | .finish _ | .recv _ => True
  | _ => False

/-- A call of `get_block` for the cid has not returned. -/
def WaitsFor (v : Viewer L) (cid : L.Cid) : Prop :=
  ∃ task chan, v.Asked task cid chan ∧ v.replies chan = none

/-- A viewer that has not finished gets further when it goes on, or when a block arrives that it
    waits for. -/
theorem Located.further (h : v.Located) (hnot : ¬ v.Finished) (answers : Answers L) :
    (∃ a v' e, a.GoesOn ∧ v.step .wraps a = .ok (v', e) ∧ v.Further v') ∨
    ∃ cid, v.system.service.stored (.getBlock cid) ≠ none ∧ v.WaitsFor cid ∧
      ∀ peerId data, ∃ v' e,
        v.step .wraps (.event (.behaviour (.bitswap (.receivedBlock peerId ⟨data, cid⟩)))) =
          .ok (v', e) ∧ v.Further v' := by
  cases hchannel : v.player.channel with
  | cons msg channel =>
    obtain ⟨v', e, hs, hf⟩ := h.further_recv hchannel
    exact .inl ⟨.recv 0, v', e, trivial, hs, hf⟩
  | nil =>
    cases htasks : v.player.tasks with
    | nil => exact absurd ⟨htasks, hchannel⟩ hnot
    | cons t tasks =>
      obtain ⟨task, msg⟩ := t
      have hmem : (task, msg) ∈ v.player.tasks := htasks ▸ List.mem_cons_self
      have hfind : v.player.tasks.find? (fun t => t.1 = task) = some (task, msg) := by
        rw [htasks, List.find?_cons_of_pos (by simp)]
      have hle : (v.handles task).length ≤ msg.cids.length := by
        simpa using (h.handlesOk.cids_isPrefix _ hmem).length_le
      rcases hle.lt_or_eq with hlt | heq
      · obtain ⟨v', e, hs, hf⟩ := h.further_request hfind hlt
        exact .inl ⟨.request task, v', e, trivial, hs, hf⟩
      by_cases hreplied : ∀ c ∈ v.handles task, (v.replies c.2).isSome
      · obtain ⟨v', e, hs, hf⟩ := h.further_finish hfind ⟨heq, hreplied⟩
        exact .inl ⟨.finish task, v', e, trivial, hs, hf⟩
      · -- a call that has not returned waits for the service or for the block
        push Not at hreplied
        obtain ⟨⟨cid, chan⟩, hasked, hnone⟩ := hreplied
        have hnone' : v.replies chan = none := by simpa using hnone
        rcases h.located task cid chan hasked with hr | hc | hstored
        · exact absurd hnone' hr
        · obtain ⟨cmd, commands, hcommands⟩ := List.exists_cons_of_ne_nil (List.ne_nil_of_mem hc)
          obtain ⟨v', e, hs, hf⟩ := h.further_serve hcommands answers
          exact .inl ⟨.serve answers, v', e, trivial, hs, hf⟩
        · refine .inr ⟨cid, by simp [hstored], ⟨task, chan, hasked, hnone'⟩, fun peerId data => ?_⟩
          exact h.further_block hmem hasked hnone' hstored peerId data

/-! ## Runs -/

/-- What only the service, the tasks and the arrival of missing blocks do: a block that comes is one
    that a call waits for. -/
def Completes (peerId : L.PeerId) (data : L.Cid → Bytes) (v : Viewer L) : Action L → Prop
  | .event (.behaviour (.bitswap (.receivedBlock peer block))) =>
    peer = peerId ∧ block.data = data block.cid ∧ v.WaitsFor block.cid
  | a => a.GoesOn

/-- The viewer has only completed what it had begun in `v₀`. It keeps the segments that were to be
    buffered, and fetches no more of them. -/
structure Completing (peerId : L.PeerId) (data : L.Cid → Bytes) (v₀ v : Viewer L)
    (tr : List (Action L × Player.Event L.Cid)) : Prop where
  run : ∃ js, run (Viewer.step .wraps) v₀ js = .ok (v, tr) ∧
    Meets (Viewer.step .wraps) (Completes peerId data) v₀ js
  located : v.Located
  pairs_eq : v.player.pairs = v₀.player.pairs
  gossips_eq : v.player.stream.gossips = v₀.player.stream.gossips

section Completing

variable {v₀ : Viewer L} {peerId : L.PeerId} {data : L.Cid → Bytes}
  {tr : List (Action L × Player.Event L.Cid)}

theorem Completing.further (h : Completing peerId data v₀ v tr) {a : Action L}
    {e : Player.Event L.Cid} (ha : Completes peerId data v a) (hs : v.step .wraps a = .ok (v', e))
    (hf : v.Further v') : Completing peerId data v₀ v' (tr ++ [(a, e)]) where
  run := by
    obtain ⟨js, hrun, hmeets⟩ := h.run
    refine ⟨js ++ [a], run_concat_eq_ok.mpr ⟨v, tr, e, hrun, hs, rfl⟩,
      meets_concat.mpr ⟨hmeets, fun u tr' hrun' => ?_⟩⟩
    rw [hrun] at hrun'
    cases hrun'
    exact ha
  located := hf.located
  pairs_eq := hf.pairs_eq.trans h.pairs_eq
  gossips_eq := hf.gossips_eq.trans h.gossips_eq

theorem Completing.progress (h : Completing peerId data v₀ v tr) (hnot : ¬ v.Finished)
    (answers : Answers L) :
    ∃ a v' e, v.step .wraps a = .ok (v', e) ∧ Completing peerId data v₀ v' (tr ++ [(a, e)]) ∧
      Prod.Lex (· < ·) (· < ·) v'.load v.load := by
  rcases h.located.further hnot answers with ⟨a, v', e, ha, hs, hf⟩ | ⟨cid, -, hwaits, hblock⟩
  · have hcompletes : Completes peerId data v a := by
      cases a <;> first | exact trivial | exact ha.elim
    exact ⟨a, v', e, hs, h.further hcompletes hs hf, hf.load_lt⟩
  · obtain ⟨v', e, hs, hf⟩ := hblock peerId (data cid)
    exact ⟨_, v', e, hs, h.further ⟨rfl, rfl, hwaits⟩ hs hf, hf.load_lt⟩

end Completing

end Viewer

end LiveTest
