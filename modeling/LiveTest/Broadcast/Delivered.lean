import LiveTest.Broadcast.Announced
import LiveTest.VideoPlayer.Fetches

/-!
# What the viewers play

The streamer numbers its segments one after the other. Gossipsub hands a viewer
each message at most once, and the service passes on each that it gets at most
once, in the order in which it gets them.

* `Numbered.step`: the messages published and those in the channel carry rising
  counts.
* `Delivered.step`: what a viewer has taken or has on its stream was handed to it, in
  that order.
* `segments_of_run`: what a viewer holds, has played and has skipped are published
  segments, each at most once.
* `fetching_of_run`: its `fetching` has exactly the live fetches.
-/

namespace LiveTest

open Rust Machine

variable {L : Libp2p} {σ : Type}

/-! ## The numbers of the messages -/

/-- The message that a command publishes. -/
def Command.published (setting : Setting L σ) : Command L → Option (StreamerMessage L.Cid)
  | .publish _ data _ => setting.fromSlice data
  | _ => none

namespace Broadcast

/-- The messages that gossipsub has accepted. -/
def messages (setting : Setting L σ) (b : Broadcast L σ) : List (StreamerMessage L.Cid) :=
  b.published.filterMap fun message => setting.fromSlice message.data

/-- Those, and the ones in the channel. -/
def announced (setting : Setting L σ) (b : Broadcast L σ) : List (StreamerMessage L.Cid) :=
  messages setting b ++ b.streamer.commands.filterMap (Command.published setting)

/-- The counts rise, and are below that of the next segment; so many ticks have passed. -/
structure Numbered (setting : Setting L σ) (b : Broadcast L σ) (n : ℕ) : Prop where
  rising : (announced setting b).Pairwise fun msg msg' => msg.count < msg'.count
  lt : ∀ msg ∈ announced setting b, msg.count < b.streamer.count
  count_le : b.streamer.count.toNat ≤ n + 1

section Numbered

variable {setting : Setting L σ} {b b' : Broadcast L σ} {action : Action L} {seen : Seen L}

theorem Numbered.init {rng : σ} {simId : L.PeerId → UInt64} (h : new setting rng simId = .ok b) :
    Numbered setting b 0 := by
  obtain ⟨streamer, hstreamer, rfl⟩ := new_eq_ok h
  obtain rfl := Streamer.new_eq_ok hstreamer
  exact ⟨List.Pairwise.nil, fun _ hmsg => absurd hmsg List.not_mem_nil, le_rfl⟩

/-- An action that announces nothing new. -/
theorem Numbered.of_sublist {n m : ℕ} (h : Numbered setting b n) (hnm : n ≤ m)
    (hsub : (announced setting b').Sublist (announced setting b))
    (hcount : b'.streamer.count = b.streamer.count) : Numbered setting b' m where
  rising := h.rising.sublist hsub
  lt := fun msg hmsg => hcount ▸ h.lt msg (hsub.subset hmsg)
  count_le := by
    rw [hcount]
    exact h.count_le.trans (by omega)

theorem messages_accepted_sublist (setting : Setting L σ) (answers : Answers L) (cmd : Command L) :
    ((accepted answers cmd).filterMap fun message => setting.fromSlice message.data).Sublist
      (cmd.published setting).toList := by
  cases cmd with
  | publish topic data sender =>
    simp only [accepted, Command.published]
    split
    · cases hdata : setting.fromSlice data <;> simp [hdata]
    · simp
  | _ => exact List.nil_sublist _

/-- The service takes a command off the channel, and gossipsub may accept its message. -/
theorem announced_serve_sublist {answers : Answers L} {cmd : Command L}
    {commands : List (Command L)} {streamer : Streamer L σ}
    (hfirst : b.streamer.commands = cmd :: commands) (hcommands : streamer.commands = commands) :
    (announced setting
      { b with streamer, published := b.published ++ accepted answers cmd }).Sublist
      (announced setting b) := by
  have hold : announced setting b = messages setting b ++ ((cmd.published setting).toList ++
      commands.filterMap (Command.published setting)) := by
    rw [announced, hfirst]
    cases hcmd : cmd.published setting <;> simp [hcmd]
  rw [hold, announced, messages, List.filterMap_append, List.append_assoc, hcommands]
  exact (List.Sublist.refl _).append ((messages_accepted_sublist setting answers cmd).append
    (List.Sublist.refl _))

/-- A segment is announced under the next number. -/
theorem announced_generate {s' : Streamer L σ} {now : Int64}
    (hcodec : ∀ msg, setting.fromSlice (setting.toVec msg) = some msg)
    (hmade : b.streamer.generateVideo setting now = .ok s') :
    (b.streamer.count.toNat + 1 < 2 ^ 64 ∨ setting.overflow = .wraps) ∧
      s'.count = b.streamer.count + 1 ∧ ∃ msg, msg.count = b.streamer.count ∧
        announced setting { b with streamer := s' } = announced setting b ++ [msg] := by
  obtain ⟨counter, blocks, rng, hcounter, -, rfl⟩ := Streamer.generateVideo_eq_ok.mp hmade
  obtain ⟨hlt, rfl⟩ := Overflow.add_eq_ok.mp hcounter
  refine ⟨hlt, rfl, ⟨b.streamer.count, now.toUInt64, blocks.map Block.cid⟩, rfl, ?_⟩
  have hblocks : (blocks.map Command.blockAdd).filterMap (Command.published setting) = [] := by
    simp [List.filterMap_map, Command.published]
  simp [announced, messages, List.filterMap_append, hblocks, Command.published, hcodec]

theorem Numbered.generate {n : ℕ} (h : Numbered setting b n)
    (hcodec : ∀ msg, setting.fromSlice (setting.toVec msg) = some msg)
    (hticks : setting.overflow = .panics ∨ n + 1 < 2 ^ 64 - 1) {s' : Streamer L σ} {now : Int64}
    (hmade : b.streamer.generateVideo setting now = .ok s') :
    Numbered setting { b with streamer := s' } (n + 1) := by
  obtain ⟨hlt, hcount, msg, hmsg, hannounced⟩ := announced_generate hcodec hmade
  have hfits : b.streamer.count.toNat + 1 < 2 ^ 64 := by
    rcases hlt with hlt | hwraps
    · exact hlt
    · rcases hticks with hpanics | hn
      · rw [hwraps] at hpanics
        cases hpanics
      · have := h.count_le
        omega
  have hnext : (b.streamer.count + 1).toNat = b.streamer.count.toNat + 1 := by
    rw [UInt64.toNat_add]
    exact Nat.mod_eq_of_lt hfits
  have hbelow : b.streamer.count < b.streamer.count + 1 := by
    rw [UInt64.lt_iff_toNat_lt, hnext]
    exact Nat.lt_succ_self _
  refine ⟨?_, ?_, ?_⟩
  · rw [hannounced, List.pairwise_append]
    refine ⟨h.rising, List.pairwise_singleton _ _, fun msg' hmem msg'' hnew => ?_⟩
    rw [List.mem_singleton.mp hnew, hmsg]
    exact h.lt msg' hmem
  · intro msg' hmem
    rw [hannounced] at hmem
    change msg'.count < s'.count
    rw [hcount]
    rcases List.mem_append.mp hmem with hmem | hmem
    · exact (h.lt msg' hmem).trans hbelow
    · rw [List.mem_singleton.mp hmem, hmsg]
      exact hbelow
  · change s'.count.toNat ≤ n + 1 + 1
    rw [hcount, hnext]
    exact Nat.succ_le_succ h.count_le

theorem Numbered.step {n : ℕ} (h : Numbered setting b n)
    (hcodec : ∀ msg, setting.fromSlice (setting.toVec msg) = some msg)
    (hticks : setting.overflow = .panics ∨ n + ticks [action] < 2 ^ 64 - 1)
    (hs : b.step setting action = .ok (b', seen)) :
    Numbered setting b' (n + ticks [action]) := by
  cases took_of_step hs with
  | idle => exact h.of_sublist (Nat.le_add_right _ _) (List.Sublist.refl _) rfl
  | generate hready hmade => exact h.generate hcodec hticks hmade
  | serve hfirst hstep =>
    obtain ⟨system, -, rfl⟩ := Streamer.stepSystem_eq_ok.mp hstep
    exact h.of_sublist (Nat.le_add_right _ _) (announced_serve_sublist hfirst rfl) rfl
  | event hallows hstep =>
    obtain ⟨system, -, rfl⟩ := Streamer.stepSystem_eq_ok.mp hstep
    exact h.of_sublist (Nat.le_add_right _ _) (List.Sublist.refl _) rfl
  | hangUp hreplied hstep =>
    obtain ⟨system, -, rfl⟩ := Streamer.stepSystem_eq_ok.mp hstep
    exact h.of_sublist (Nat.le_add_right _ _) (List.Sublist.refl _) rfl
  | viewed offered hstep =>
    exact h.of_sublist (Nat.le_add_right _ _) (List.Sublist.refl _) rfl

end Numbered

/-! ## The messages of a viewer -/

/-- The message that the player takes. -/
def gossipOf {Cid : Type} : Player.Action Cid → Option (StreamerMessage Cid)
  | .gossip _ msg => some msg
  | _ => none

/-- The messages that the player has taken. -/
def taken (peer : L.PeerId) (tr : List (Action L × Seen L)) : List (StreamerMessage L.Cid) :=
  ((playerTrace peer tr).map Prod.fst).filterMap gossipOf

/-- The message published under a number. -/
def numbered (setting : Setting L σ) (b : Broadcast L σ) (number : ℕ) :
    Option (StreamerMessage L.Cid) :=
  b.published[number]?.bind fun message => setting.fromSlice message.data

/-- What a viewer has taken, and what is on its stream, was handed to it in this order; nothing was
    handed to it twice. -/
structure Delivered (setting : Setting L σ) (b : Broadcast L σ) (peer : L.PeerId)
    (tr : List (Action L × Seen L)) : Prop where
  handed_nodup : (b.audience peer).handed.Nodup
  handed_lt : ∀ number ∈ (b.audience peer).handed, number < b.published.length
  sublist : ((taken peer tr).map some ++
      (b.audience peer).stream.map fun message => setting.fromSlice message.data).Sublist
    ((b.audience peer).handed.map (numbered setting b))

section Delivered

variable {setting : Setting L σ} {b b' : Broadcast L σ} {peer : L.PeerId}
  {tr : List (Action L × Seen L)} {action : Action L} {seen : Seen L}

theorem Delivered.init {rng : σ} {simId : L.PeerId → UInt64} (h : new setting rng simId = .ok b)
    (peer : L.PeerId) : Delivered setting b peer [] := by
  obtain ⟨streamer, -, rfl⟩ := new_eq_ok h
  exact ⟨List.nodup_nil, fun _ hnumber => absurd hnumber List.not_mem_nil, List.Sublist.refl _⟩

/-- The service passes on a message at most once. -/
theorem messagesOn_message (v : Viewer L) (stream : ChanId) (message : GossipsubMessage L) :
    (messagesOn stream (v.outputs (.event (.behaviour (.gossipsub (.message message)))))).Sublist
      [message] := by
  simp only [Viewer.outputs]
  split
  · next system out hs =>
    obtain ⟨⟨service, out'⟩, hservice, hs⟩ := bind_eq_ok.mp hs
    cases hs
    obtain ⟨out'', hsend, hservice⟩ := bind_eq_ok.mp hservice
    cases hservice
    unfold Service.expectSend at hsend
    split at hsend
    · split_ifs at hsend
      cases hsend
      simp only [messagesOn, List.filterMap_cons, List.filterMap_nil]
      split_ifs
      · exact List.Sublist.refl _
      · exact List.nil_sublist _
    · cases hsend
      exact List.nil_sublist _
  · exact List.nil_sublist _

/-- Nothing else puts a message on the stream. -/
theorem messagesOn_eq_nil {v : Viewer L} {stream : ChanId} {va : Viewer.Action L}
    (h : ∀ message, va ≠ .event (.behaviour (.gossipsub (.message message)))) :
    messagesOn stream (v.outputs va) = [] := by
  refine List.eq_nil_iff_forall_not_mem.mpr fun message hmem => ?_
  rcases Viewer.causedBy_of_mem_outputs (mem_messagesOn.mp hmem) with
    ⟨answers, cmd, commands, rfl, -, hcaused⟩ | ⟨event, rfl, hcaused⟩
  · cases hcaused
  · cases hcaused
    exact h message rfl

theorem taken_concat (peer : L.PeerId) (tr : List (Action L × Seen L)) (action : Action L)
    (seen : Seen L) :
    taken peer (tr ++ [(action, seen)]) = taken peer tr ++ taken peer [(action, seen)] := by
  simp only [taken, playerTrace, viewerTrace, List.filterMap_append, List.map_append]

/-- Actions that are not the viewer's take nothing for it. -/
theorem taken_eq_nil (h : viewerEntry peer (action, seen) = none) :
    taken peer [(action, seen)] = [] := by
  simp [taken, playerTrace, viewerTrace, h]

theorem taken_singleton (action : Action L) (peer : L.PeerId) (va : Viewer.Action L)
    (e : Player.Event L.Cid) :
    taken peer [(action, .viewed peer va e)] =
      ((playerEntry (va, e)).toList.map Prod.fst).filterMap gossipOf := by
  have hviewer : viewerTrace peer [(action, .viewed peer va e)] = [(va, e)] := by
    simp [viewerTrace, viewerEntry]
  rw [taken, playerTrace, hviewer]
  cases hentry : playerEntry (va, e) <;> simp [hentry]

theorem taken_viewed (action : Action L) (peer : L.PeerId) {va : Viewer.Action L}
    {e : Player.Event L.Cid} (hva : ∀ receiveTime msg, va ≠ .gossip receiveTime msg) :
    taken peer [(action, .viewed peer va e)] = [] := by
  rw [taken_singleton]
  cases hentry : playerEntry (va, e) with
  | none => rfl
  | some entry =>
    obtain ⟨pa, e'⟩ := entry
    have hown := toPlayer_of_playerEntry hentry
    cases va with
    | gossip receiveTime msg => exact absurd rfl (hva receiveTime msg)
    | tick now | finish task | recv receiveTime =>
      cases hown
      rfl
    | request task | serve answers | event event => cases hown

theorem taken_gossip (action : Action L) (peer : L.PeerId) (receiveTime : Int64)
    (msg : StreamerMessage L.Cid) (query : WriteQuery) :
    taken peer [(action, .viewed peer (.gossip receiveTime msg) (.received msg query))] = [msg] :=
  taken_singleton action peer _ _

/-- A message keeps its number. -/
theorem numbered_eq {number : ℕ} (hlt : number < b.published.length)
    (hgrows : b.published <+: b'.published) :
    numbered setting b' number = numbered setting b number := by
  obtain ⟨rest, hrest⟩ := hgrows
  rw [numbered, numbered, ← hrest, List.getElem?_append_left hlt]

/-- An action that leaves the viewer as it is. -/
theorem Delivered.of_other (h : Delivered setting b peer tr)
    (hgrows : b.published <+: b'.published) (haudience : b'.audience peer = b.audience peer)
    (htaken : taken peer [(action, seen)] = []) :
    Delivered setting b' peer (tr ++ [(action, seen)]) where
  handed_nodup := by
    rw [haudience]
    exact h.handed_nodup
  handed_lt := by
    rw [haudience]
    exact fun number hmem => (h.handed_lt number hmem).trans_le hgrows.length_le
  sublist := by
    have hnumbered : (b.audience peer).handed.map (numbered setting b') =
        (b.audience peer).handed.map (numbered setting b) :=
      List.map_congr_left fun number hmem => numbered_eq (h.handed_lt number hmem) hgrows
    rw [taken_concat, htaken, List.append_nil, haudience, hnumbered]
    exact h.sublist

/-- A step of the viewer. -/
theorem Delivered.viewed (h : Delivered setting b peer tr) {a a' : Audience L}
    {va : Viewer.Action L} {e : Player.Event L.Cid} (offered : Offers setting b action peer a va)
    (hs : a.stepViewer .wraps va = .ok (a', e)) (hpublished : b'.published = b.published)
    (haudience : b'.audience peer = a') :
    Delivered setting b' peer (tr ++ [(action, .viewed peer va e)]) := by
  have hnumbered : numbered setting b' = numbered setting b := by
    funext number
    rw [numbered, numbered, hpublished]
  obtain ⟨viewer, hviewer, rfl⟩ := Audience.stepViewer_eq_ok.mp hs
  refine ⟨?_, ?_, ?_⟩ <;> rw [haudience] <;> try rw [hpublished]
  · cases offered with
    | hand hpublished hnew =>
      exact List.nodup_append.mpr ⟨h.handed_nodup, List.nodup_singleton _, by
        rintro number hmem _ hnumber rfl
        exact hnew (List.mem_singleton.mp hnumber ▸ hmem)⟩
    | _ => exact h.handed_nodup
  · cases offered with
    | hand hpublished hnew =>
      intro number hmem
      rcases List.mem_append.mp hmem with hmem | hmem
      · exact h.handed_lt number hmem
      · rw [List.mem_singleton.mp hmem]
        exact (List.getElem?_eq_some_iff.mp hpublished).1
    | _ => exact h.handed_lt
  · rw [hnumbered, taken_concat]
    cases offered with
    | hand hpublished hnew =>
      rename_i number message
      have hone := messagesOn_message (b.audience peer).viewer Audience.topicStream message
      have hvalue : numbered setting b number = setting.fromSlice message.data := by
        rw [numbered, hpublished]
        rfl
      rw [taken_viewed _ _ (by simp), List.append_nil]
      simp only [List.map_append, List.map_cons, List.map_nil, hvalue, ← List.append_assoc]
      exact h.sublist.append (hone.map fun message => setting.fromSlice message.data)
    | listen hfirst hdecoded =>
      rename_i receiveTime message stream msg
      obtain ⟨query, hgossip⟩ := (b.audience peer).viewer.player.step_gossip receiveTime msg
      have hplayer : e = .received msg query := by
        obtain ⟨player, hplayer, -⟩ := Viewer.stepPlayer_eq_ok.mp hviewer
        rw [hgossip] at hplayer
        cases hplayer
        rfl
      subst hplayer
      rw [taken_gossip, messagesOn_eq_nil (by simp), List.append_nil]
      have hsub := h.sublist
      rw [hfirst, List.map_cons, hdecoded] at hsub
      simpa using hsub
    | view hmay =>
      have hgossip : ∀ receiveTime msg, va ≠ .gossip receiveTime msg := by
        rintro receiveTime msg rfl
        cases hmay
      have hmessage : ∀ message, va ≠ .event (.behaviour (.gossipsub (.message message))) := by
        rintro message rfl
        cases hmay
      rw [taken_viewed _ _ hgossip, messagesOn_eq_nil hmessage, List.append_nil, List.append_nil]
      exact h.sublist

theorem Delivered.step (h : Delivered setting b peer tr)
    (hs : b.step setting action = .ok (b', seen)) :
    Delivered setting b' peer (tr ++ [(action, seen)]) := by
  have htook := took_of_step hs
  have hgrows : b.published <+: b'.published := by
    cases htook with
    | serve hfirst hstep => exact List.prefix_append _ _
    | _ => exact List.prefix_refl _
  rcases htook.viewer peer with ⟨hnone, heq⟩ | ⟨a, va, e, offered, rfl, hstep⟩
  · exact h.of_other hgrows heq (taken_eq_nil hnone)
  · cases htook with
    | viewed _ _ => exact h.viewed offered hstep rfl rfl

/-- What a viewer has taken are messages that were published, each at most once. -/
theorem Delivered.taken_le (h : Delivered setting b peer tr) :
    (taken peer tr : Multiset (StreamerMessage L.Cid)) ≤ ↑(messages setting b) := by
  have hhanded : ((b.audience peer).handed : Multiset ℕ) ≤ ↑(List.range b.published.length) :=
    (Multiset.le_iff_subset (Multiset.coe_nodup.mpr h.handed_nodup)).mpr fun number hmem =>
      List.mem_range.mpr (h.handed_lt number hmem)
  have hall : (List.range b.published.length).map (numbered setting b) =
      b.published.map fun message => setting.fromSlice message.data := by
    refine List.ext_getElem (by simp) fun number _ hlt => ?_
    rw [List.length_map] at hlt
    simp [numbered, hlt]
  have hle : ((taken peer tr).map some : Multiset (Option (StreamerMessage L.Cid))) ≤
      ↑(b.published.map fun message => setting.fromSlice message.data) := by
    rw [← hall]
    refine le_trans (Multiset.coe_le.mpr ?_) (Multiset.map_le_map hhanded)
    exact ((List.sublist_append_left _ _).trans h.sublist).subperm
  have := Multiset.filterMap_le_filterMap id hle
  simpa [messages] using this

end Delivered

/-! ## Runs -/

section Runs

variable {setting : Setting L σ} {rng : σ} {simId : L.PeerId → UInt64} {b : Broadcast L σ}
  {is : List (Action L)} {tr : List (Action L × Seen L)}

theorem numbered_of_run (hcodec : ∀ msg, setting.fromSlice (setting.toVec msg) = some msg)
    (hticks : setting.overflow = .panics ∨ ticks is < 2 ^ 64 - 1)
    (hrun : live setting rng simId is = .ok (b, tr)) : Numbered setting b (ticks is) := by
  rw [live_eq_ok] at hrun
  obtain ⟨b₀, hnew, hrun⟩ := hrun
  induction is using List.reverseRecOn generalizing b tr with
  | nil =>
    cases hrun
    exact Numbered.init hnew
  | append_singleton is action ih =>
    obtain ⟨t, tr', seen, hrun', hs, rfl⟩ := run_concat_eq_ok.mp hrun
    rw [ticks_concat] at hticks ⊢
    exact (ih (hticks.imp_right fun hlt => by omega) hrun').step hcodec hticks hs

theorem delivered_of_run (hrun : live setting rng simId is = .ok (b, tr)) (peer : L.PeerId) :
    Delivered setting b peer tr :=
  inv_of_live _ (fun _ hnew => Delivered.init hnew peer) (fun _ _ _ _ _ h hs => h.step hs) hrun

theorem receivedPairs_eq (peer : L.PeerId) (tr : List (Action L × Seen L)) :
    receivedPairs ((playerTrace peer tr).map Prod.fst) =
      (taken peer tr).map StreamerMessage.pair := by
  rw [receivedPairs, taken, List.map_filterMap]
  congr 1
  funext a
  cases a <;> rfl

theorem receivedCounts_eq (peer : L.PeerId) (tr : List (Action L × Seen L)) :
    receivedCounts ((playerTrace peer tr).map Prod.fst) =
      (taken peer tr).map StreamerMessage.count := by
  rw [receivedCounts, taken, List.map_filterMap, List.filterMap_eq_flatMap_toList]
  congr 1
  funext a
  cases a <;> rfl

theorem messages_rising (hcodec : ∀ msg, setting.fromSlice (setting.toVec msg) = some msg)
    (hticks : setting.overflow = .panics ∨ ticks is < 2 ^ 64 - 1)
    (hrun : live setting rng simId is = .ok (b, tr)) :
    (messages setting b).Pairwise fun msg msg' => msg.count < msg'.count :=
  (numbered_of_run hcodec hticks hrun).rising.sublist (List.sublist_append_left _ _)

/-- In every run of the live stream, the messages published carry rising counts, and for every viewer
    the segments that wait, are fetched or buffered, were played and were skipped are together
    published segments, each at most once and with its own timestamp. -/
theorem segments_of_run (hcodec : ∀ msg, setting.fromSlice (setting.toVec msg) = some msg)
    (hticks : setting.overflow = .panics ∨ ticks is < 2 ^ 64 - 1)
    (hrun : live setting rng simId is = .ok (b, tr)) :
    (messages setting b).Pairwise (fun msg msg' => msg.count < msg'.count) ∧
    ∀ peer, (b.audience peer).viewer.player.pairs + ↑(playedPairs (playerTrace peer tr)) +
        ↑(skippedPairs (playerTrace peer tr)) ≤
      ((messages setting b).map StreamerMessage.pair : Multiset (UInt64 × UInt64)) := by
  refine ⟨messages_rising hcodec hticks hrun, fun peer => ?_⟩
  have hconserved : Conserved (b.audience peer).viewer.player (playerTrace peer tr) :=
    inv_of_run Conserved (Conserved.init _ _) (fun p tr a p' e h hs => by
      obtain ⟨p'', e', hs', h'⟩ := h.step a
      rw [hs] at hs'
      cases hs'
      exact h') (run_player hrun peer)
  rw [← hconserved.pairs_eq, receivedPairs_eq]
  exact Multiset.map_le_map (delivered_of_run hrun peer).taken_le

/-- Two segments. The viewer 1 gets the message of the second one first, and plays that segment when
    it has begun to fetch the other. -/
def twoSegments : List (Action Libp2p.nat) :=
  [.serve Answers.nat, .generate 0, .serve Answers.nat, .serve Answers.nat, .generate 20,
    .serve Answers.nat, .serve Answers.nat, .view 1 (.serve Answers.nat), .hand 1 1, .hand 1 0,
    .listen 1 21, .listen 1 22, .view 1 (.tick 23), .view 1 (.request 0),
    .view 1 (.serve Answers.nat), .event (.behaviour (.bitswap (.receivedWant 1 2 0))),
    .view 1 (.event (.behaviour (.bitswap (.receivedBlock 0 ⟨[0, 0], 2⟩)))), .view 1 (.finish 0),
    .view 1 (.recv 24), .view 1 (.tick 25), .view 1 (.tick 26), .view 1 (.tick 27)]

theorem segments_of_run_example :
    ∃ b tr, live Setting.nat () UInt64.ofNat twoSegments = .ok (b, tr) ∧
      (messages Setting.nat b).map StreamerMessage.pair = [(1, 0), (2, 20)] ∧
      playedPairs (playerTrace (1 : ℕ) tr) = [(2, 20)] ∧
      (messages Setting.nat b).Pairwise (fun msg msg' => msg.count < msg'.count) ∧
      ∀ peer, (b.audience peer).viewer.player.pairs + ↑(playedPairs (playerTrace peer tr)) +
          ↑(skippedPairs (playerTrace peer tr)) ≤
        ((messages Setting.nat b).map StreamerMessage.pair : Multiset (UInt64 × UInt64)) := by
  obtain ⟨⟨b, tr⟩, hrun, hmessages, hplayed⟩ :=
    (by decide +kernel : ∃ r, live Setting.nat () UInt64.ofNat twoSegments = .ok r ∧
      (messages Setting.nat r.1).map StreamerMessage.pair = [(1, 0), (2, 20)] ∧
      playedPairs (playerTrace (1 : ℕ) r.2) = [(2, 20)])
  exact ⟨b, tr, hrun, hmessages, hplayed, segments_of_run Setting.nat_codec (.inl rfl) hrun⟩

/-- The messages that a viewer takes carry distinct counts. -/
theorem receivedCounts_nodup (hcodec : ∀ msg, setting.fromSlice (setting.toVec msg) = some msg)
    (hticks : setting.overflow = .panics ∨ ticks is < 2 ^ 64 - 1)
    (hrun : live setting rng simId is = .ok (b, tr)) (peer : L.PeerId) :
    (receivedCounts ((playerTrace peer tr).map Prod.fst)).Nodup := by
  have hrising := messages_rising hcodec hticks hrun
  have hcounts : ((messages setting b).map StreamerMessage.count).Nodup := by
    rw [List.nodup_iff_pairwise_ne, List.pairwise_map]
    exact hrising.imp fun hlt => hlt.ne
  rw [receivedCounts_eq, ← Multiset.coe_nodup]
  exact Multiset.nodup_of_le (Multiset.map_le_map (delivered_of_run hrun peer).taken_le)
    (Multiset.coe_nodup.mpr hcounts)

/-- A run of the player, with what it does to the fetches. -/
theorem exists_run_observe {p p' : Player L.Cid} {as : List (Player.Action L.Cid)}
    {ptr : List (Player.Action L.Cid × Player.Event L.Cid)}
    (hrun : run (Player.step .wraps) p as = .ok (p', ptr)) :
    ∃ history, run Player.observe p as = .ok (p', history) := by
  induction as generalizing p ptr with
  | nil =>
    cases hrun
    exact ⟨[], rfl⟩
  | cons a as ih =>
    obtain ⟨q, e, ptr', hs, hr, rfl⟩ := run_cons_eq_ok.mp hrun
    obtain ⟨history, hhistory⟩ := ih hr
    exact ⟨_, run_cons_eq_ok.mpr ⟨q, _, history, Player.observe_eq_ok hs, hhistory, rfl⟩⟩

/-- In every run of the live stream, a player has under `fetching` exactly the counts whose fetch
    was started, whose segment was not buffered, and which no played segment has overtaken. -/
theorem fetching_of_run (hcodec : ∀ msg, setting.fromSlice (setting.toVec msg) = some msg)
    (hticks : setting.overflow = .panics ∨ ticks is < 2 ^ 64 - 1)
    (hrun : live setting rng simId is = .ok (b, tr)) (peer : L.PeerId) :
    ∃ history, run Player.observe (Player.new setting.segmentLength (simId peer))
        ((playerTrace peer tr).map Prod.fst) = .ok ((b.audience peer).viewer.player, history) ∧
      ∀ count, count ∈ (b.audience peer).viewer.player.stream.fetching ↔
        Lifetimes.Live (history.map Prod.snd) count := by
  have hadm : ∀ (as : List (Player.Action L.Cid)) (a : Player.Action L.Cid),
      (receivedCounts (as ++ [a])).Nodup → (receivedCounts as).Nodup := by
    intro as a h
    rw [receivedCounts_concat] at h
    exact (List.nodup_append.mp h).1
  obtain ⟨history, hhistory⟩ := exists_run_observe (run_player hrun peer)
  obtain ⟨player, history', hhistory', h⟩ := run_induction (fun as => (receivedCounts as).Nodup)
    FetchesTracked hadm (FetchesTracked.init setting.segmentLength (simId peer))
    (fun _ _ a h hadm' _ => h.step a (hadm _ a hadm')) (receivedCounts_nodup hcodec hticks hrun peer)
    (meets_true _)
  rw [hhistory] at hhistory'
  cases hhistory'
  exact ⟨history, hhistory, h.mem_iff⟩

/-- The viewer has taken both messages, and overtaken the fetch of the first segment. -/
theorem fetching_of_run_example :
    ∃ b tr, live Setting.nat () UInt64.ofNat twoSegments = .ok (b, tr) ∧
      (taken (1 : ℕ) tr).map StreamerMessage.count = [2, 1] ∧
      (b.audience 1).viewer.player.stream.fetching = ∅ ∧
      ∃ history, run Player.observe (Player.new 1 1)
          ((playerTrace (1 : Libp2p.nat.PeerId) tr).map Prod.fst) =
          .ok ((b.audience 1).viewer.player, history) ∧
        ∀ count, count ∈ (b.audience 1).viewer.player.stream.fetching ↔
          Lifetimes.Live (history.map Prod.snd) count := by
  obtain ⟨⟨b, tr⟩, hrun, htaken, hfetching⟩ :=
    (by decide +kernel : ∃ r, live Setting.nat () UInt64.ofNat twoSegments = .ok r ∧
      (taken (1 : ℕ) r.2).map StreamerMessage.count = [2, 1] ∧
      (r.1.audience (1 : ℕ)).viewer.player.stream.fetching = ∅)
  exact ⟨b, tr, hrun, htaken, hfetching, fetching_of_run Setting.nat_codec (.inl rfl) hrun 1⟩

end Runs

end Broadcast

end LiveTest
