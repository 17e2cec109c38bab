import LiveTest.VideoPlayer.Fits
import LiveTest.Viewer.Fetch

/-!
# Steps of a viewer

* `Viewer.took_of_step`: an action is a step of the player, a call of `get_block`, a
  step of the service, or nothing.
* `Viewer.run_player`: in a run of a viewer, its player runs on its own.
* `Viewer.step_refines`: where the build with overflow checks does not panic, the other
  one does the same.
* `Viewer.step_returns_iff`: while the clients of the service stay, a step panics only
  there, and only for what the player computes.
-/

namespace LiveTest

open Rust Machine

variable {L : Libp2p}

/-! ## The player of a viewer -/

/-- A step of the player that shows nothing does nothing. -/
theorem Player.step_none {Cid : Type} {p p' : Player Cid} {a : Player.Action Cid}
    (h : p.step .wraps a = .ok (p', .none)) : p' = p := by
  cases a with
  | gossip receiveTime msg =>
    obtain ⟨query, hs⟩ := p.step_gossip receiveTime msg
    rw [hs] at h
    cases h
  | tick now =>
    obtain ⟨⟨stream, fetch, advance⟩, -, h⟩ := bind_eq_ok.mp h
    cases fetch <;> cases h
  | finish task =>
    simp only [Player.step] at h
    split at h <;> cases h
    rfl
  | recv receiveTime =>
    simp only [Player.step] at h
    split at h
    · obtain ⟨_, -, h⟩ := bind_eq_ok.mp h
      cases h
    · cases h
      rfl

/-- The messages whose blocks the player has to get, or gets. -/
def Player.messages {Cid : Type} (p : Player Cid) : List (StreamerMessage Cid) :=
  p.stream.gossips ++ p.tasks.map Prod.snd

theorem Player.messages_of_step {Cid : Type} {p p' : Player Cid} {a : Player.Action Cid}
    {e : Player.Event Cid} (hok : p.stream.BufferOk) (h : p.step .wraps a = .ok (p', e)) :
    p'.stream.BufferOk ∧
      ∀ msg ∈ p'.messages, msg ∈ p.messages ∨ ∃ receiveTime, a = .gossip receiveTime msg := by
  cases a with
  | gossip receiveTime msg =>
    obtain ⟨query, hs⟩ := p.step_gossip receiveTime msg
    rw [hs] at h
    cases h
    refine ⟨⟨hok.length_eq, hok.sorted⟩, fun msg' hmem => ?_⟩
    simp only [Player.messages, List.append_assoc, List.mem_append, List.mem_singleton] at hmem ⊢
    rcases hmem with hmem | rfl | hmem
    · exact .inl (.inl hmem)
    · exact .inr ⟨receiveTime, rfl⟩
    · exact .inl (.inr hmem)
  | tick now =>
    obtain ⟨stream, fetch, advance, hs, hok', hgossips, -⟩ := Player.step_tick hok now
    rw [hs] at h
    cases h
    refine ⟨hok', fun msg hmem => .inl ?_⟩
    simp only [Player.messages, hgossips, List.map_append, List.map_map, List.mem_append,
      Function.comp_def, List.map_id'] at hmem ⊢
    tauto
  | finish task =>
    rcases Player.finish_cases p task with hs | ⟨before, msg, after, htasks, hs⟩ <;> rw [hs] at h <;>
      cases h
    · exact ⟨hok, fun _ => .inl⟩
    · refine ⟨hok, fun msg' hmem => .inl ?_⟩
      simp only [Player.messages, htasks, List.map_append, List.map_cons, List.mem_append,
        List.mem_cons] at hmem ⊢
      tauto
  | recv receiveTime =>
    cases hchannel : p.channel with
    | nil =>
      rw [Player.step_recv_nil hchannel] at h
      cases h
      exact ⟨hok, fun _ => .inl⟩
    | cons msg channel =>
      obtain ⟨stream, query, hs, hok', hgossips, -⟩ := Player.step_recv hok hchannel receiveTime
      rw [hs] at h
      cases h
      refine ⟨hok', fun msg' hmem => .inl ?_⟩
      rwa [Player.messages, hgossips] at hmem

/-- What happens to the player in an action of its viewer. -/
def Viewer.Action.toPlayer : Viewer.Action L → Option (Player.Action L.Cid)
  | .gossip receiveTime msg => some (.gossip receiveTime msg)
  | .tick now => some (.tick now)
  | .finish task => some (.finish task)
  | .recv receiveTime => some (.recv receiveTime)
  | .request _ | .serve _ | .event _ => none

/-- What the player did in an action of its viewer. -/
def playerEntry (entry : Viewer.Action L × Player.Event L.Cid) :
    Option (Player.Action L.Cid × Player.Event L.Cid) :=
  match entry.2 with
  | .none => none
  | e => entry.1.toPlayer.map fun a => (a, e)

theorem toPlayer_of_playerEntry {va : Viewer.Action L} {e e' : Player.Event L.Cid}
    {a : Player.Action L.Cid} (h : playerEntry (va, e) = some (a, e')) : va.toPlayer = some a := by
  cases e with
  | none => cases h
  | _ =>
    obtain ⟨_, ha, heq⟩ := Option.map_eq_some_iff.mp h
    cases heq
    exact ha

theorem Viewer.stepPlayer_eq_ok {v v' : Viewer L} {a : Player.Action L.Cid}
    {e : Player.Event L.Cid} :
    v.stepPlayer .wraps a = .ok (v', e) ↔
      ∃ player, v.player.step .wraps a = .ok (player, e) ∧ v' = { v with player } := by
  rw [Viewer.stepPlayer, bind_eq_ok]
  constructor
  · rintro ⟨⟨player, e'⟩, hs, h⟩
    cases h
    exact ⟨player, hs, rfl⟩
  · rintro ⟨player, hs, rfl⟩
    exact ⟨(player, e), hs, rfl⟩

theorem Viewer.stepSystem_eq_ok {v v' : Viewer L} {i : Input L} {e : Player.Event L.Cid} :
    v.stepSystem i = .ok (v', e) ↔ ∃ system out, v.system.step i = .ok (system, out) ∧
      v' = { v with system, replies := deliver v.replies out } ∧ e = .none := by
  rw [Viewer.stepSystem, bind_eq_ok]
  constructor
  · rintro ⟨⟨system, out⟩, hs, h⟩
    cases h
    exact ⟨system, out, hs, rfl, rfl⟩
  · rintro ⟨system, out, hs, rfl, rfl⟩
    exact ⟨(system, out), hs, rfl⟩

/-- What an action does to a viewer: a step of its player, a call of `get_block`, a step of its
    service, or nothing. -/
inductive Viewer.Took (v : Viewer L) : Viewer.Action L → Viewer L → Player.Event L.Cid → Prop where
  | idle (a : Action L) : Took v a v .none
  | played {a : Action L} {pa : Player.Action L.Cid} {player : Player L.Cid}
      {e : Player.Event L.Cid} (own : a.toPlayer = some pa)
      (stepped : v.player.step .wraps pa = .ok (player, e))
      (entry : playerEntry (a, e) = some (pa, e)) : Took v a { v with player } e
  | requested {task : ℕ} {msg : StreamerMessage L.Cid} {cid : L.Cid}
      (found : v.message task = some msg)
      (next : msg.cids[(v.handles task).length]? = some cid) :
      Took v (.request task) (v.getBlock task cid) .none
  | served {answers : Answers L} {cmd : Command L} {commands : List (Command L)}
      {system : System L} {out : List (Output L)} (first : v.commands = cmd :: commands)
      (stepped : v.system.step (.command answers cmd) = .ok (system, out)) :
      Took v (.serve answers) { v with commands, system, replies := deliver v.replies out } .none
  | notified {event : SwarmEvent L} {system : System L} {out : List (Output L)}
      (stepped : v.system.step (.event event) = .ok (system, out)) :
      Took v (.event event)
        { v with
          received := v.received ++ (receivedCid event).toList
          system
          replies := deliver v.replies out } .none

theorem Viewer.Took.of_player {v v' : Viewer L} {a : Viewer.Action L} {pa : Player.Action L.Cid}
    {e : Player.Event L.Cid} (ha : a.toPlayer = some pa)
    (h : v.stepPlayer .wraps pa = .ok (v', e)) :
    v.Took a v' e := by
  obtain ⟨player, hs, rfl⟩ := Viewer.stepPlayer_eq_ok.mp h
  cases e with
  | none =>
    rw [Player.step_none hs]
    exact .idle a
  | _ => exact .played ha hs (by simp [playerEntry, ha])

theorem Viewer.took_of_step {v v' : Viewer L} {a : Viewer.Action L} {e : Player.Event L.Cid}
    (h : v.step .wraps a = .ok (v', e)) : v.Took a v' e := by
  cases a with
  | gossip receiveTime msg => exact .of_player rfl h
  | tick now => exact .of_player rfl h
  | recv receiveTime => exact .of_player rfl h
  | request task =>
    simp only [Viewer.step] at h
    split at h
    · cases h
      exact .idle _
    · next msg hmsg =>
      split at h
      · cases h
        exact .idle _
      · next cid hcid =>
        cases h
        exact .requested hmsg hcid
  | serve answers =>
    simp only [Viewer.step] at h
    split at h
    · cases h
      exact .idle _
    · next cmd commands hcommands =>
      obtain ⟨system, out, hs, rfl, rfl⟩ := Viewer.stepSystem_eq_ok.mp h
      exact .served hcommands hs
  | event event =>
    obtain ⟨system, out, hs, rfl, rfl⟩ := Viewer.stepSystem_eq_ok.mp h
    exact .notified hs
  | finish task =>
    simp only [Viewer.step] at h
    split at h
    · cases h
      exact .idle _
    · split_ifs at h
      · exact .of_player rfl h
      · cases h
        exact .idle _

/-- The player of a viewer runs on its own. -/
theorem Viewer.run_player {v v' : Viewer L} {is : List (Viewer.Action L)}
    {tr : List (Viewer.Action L × Player.Event L.Cid)}
    (hrun : run (Viewer.step .wraps) v is = .ok (v', tr)) :
    run (Player.step .wraps) v.player ((tr.filterMap playerEntry).map Prod.fst) =
      .ok (v'.player, tr.filterMap playerEntry) := by
  refine run_project Viewer.player playerEntry (fun v a v' e hs hnone => ?_)
    (fun v a v' e pa e' hs hsome => ?_) hrun
  · cases Viewer.took_of_step hs with
    | played _ hs hentry =>
      rw [hnone] at hentry
      cases hentry
    | _ => rfl
  · cases Viewer.took_of_step hs with
    | played _ hs hentry =>
      rw [hsome] at hentry
      cases hentry
      exact hs
    | _ => cases hsome

/-! ## The two builds -/

/-- A step of a viewer that does not panic is a step of the viewer of the release build. -/
theorem Viewer.step_refines (overflow : Overflow) (v : Viewer L) (a : Viewer.Action L) :
    Refines (v.step overflow a) (v.step .wraps a) := by
  have hplayer : ∀ pa, Refines (v.stepPlayer overflow pa) (v.stepPlayer .wraps pa) :=
    fun pa => .bind (Player.step_refines overflow v.player pa) fun _ => .refl _
  cases a with
  | gossip receiveTime msg => exact hplayer _
  | tick now => exact hplayer _
  | recv receiveTime => exact hplayer _
  | request task => exact .refl _
  | serve answers => exact .refl _
  | event event => exact .refl _
  | finish task =>
    simp only [Viewer.step]
    split
    · exact .refl _
    · exact .ite (hplayer _) (.refl _)

/-! ## Panics -/

/-- A step of a service none of whose clients has left, or leaves. -/
theorem System.exists_step {s : System L} (hwf : s.service.blockExchange.WellFormed)
    (hdropped : s.dropped = ∅) {i : Input L} (hi : ∀ chan, i ≠ .drop chan) :
    ∃ s' out, s.step i = .ok (s', out) ∧ s'.service.blockExchange.WellFormed ∧ s'.dropped = ∅ := by
  obtain ⟨s', out, hs⟩ := step_replies hwf i (by simp [hdropped])
  refine ⟨s', out, hs.step, hs.wellFormed, ?_⟩
  rw [hs.dropped, hdropped]
  cases i with
  | drop chan => exact absurd rfl (hi chan)
  | _ => rfl

namespace Viewer

variable {v : Viewer L}

/-- What the player does not take part in fits. -/
theorem Action.fits_of_toPlayer_eq_none {a : Action L} (ha : a.toPlayer = none)
    (p : Player L.Cid) : ∀ pa, a.toPlayer = some pa → p.Fits pa := by
  intro pa hpa
  rw [ha] at hpa
  cases hpa

/-- A step of a viewer whose clients stay comes to a result, if what its player computes fits. -/
theorem step_returns_iff (hwf : v.system.service.blockExchange.WellFormed)
    (hdropped : v.system.dropped = ∅) (hok : v.player.stream.BufferOk) (overflow : Overflow)
    (a : Action L) : (∃ r, v.step overflow a = .ok r) ↔
      overflow = .wraps ∨ ∀ pa, a.toPlayer = some pa → v.player.Fits pa := by
  have hplayer : ∀ pa, (∃ r, v.stepPlayer overflow pa = .ok r) ↔
      overflow = .wraps ∨ v.player.Fits pa := by
    intro pa
    rw [← Player.step_returns_iff hok]
    exact bind_returns_iff fun _ => ⟨_, rfl⟩
  cases a with
  | gossip receiveTime msg =>
    refine (hplayer _).trans ?_
    simp [Action.toPlayer]
  | tick now =>
    refine (hplayer _).trans ?_
    simp [Action.toPlayer]
  | recv receiveTime =>
    refine (hplayer _).trans ?_
    simp [Action.toPlayer]
  | request task =>
    refine iff_of_true ?_ (.inr (Action.fits_of_toPlayer_eq_none rfl _))
    simp only [Viewer.step]
    split
    · exact ⟨_, rfl⟩
    · split <;> exact ⟨_, rfl⟩
  | serve answers =>
    refine iff_of_true ?_ (.inr (Action.fits_of_toPlayer_eq_none rfl _))
    simp only [Viewer.step]
    split
    · exact ⟨_, rfl⟩
    · next cmd commands _ =>
      obtain ⟨system, out, hs, -⟩ := System.exists_step hwf hdropped
        (i := .command answers cmd) (by simp)
      exact ⟨_, stepSystem_eq_ok.mpr ⟨system, out, hs, rfl, rfl⟩⟩
  | event event =>
    refine iff_of_true ?_ (.inr (Action.fits_of_toPlayer_eq_none rfl _))
    obtain ⟨system, out, hs, -⟩ := System.exists_step hwf hdropped (i := .event event) (by simp)
    exact ⟨_, stepSystem_eq_ok.mpr ⟨system, out, hs, rfl, rfl⟩⟩
  | finish task =>
    have hfits : v.player.Fits (.finish task) := trivial
    refine iff_of_true ?_ (.inr (by simp [Action.toPlayer, hfits]))
    simp only [Viewer.step]
    split
    · exact ⟨_, rfl⟩
    · split_ifs
      · exact (hplayer _).mpr (.inr hfits)
      · exact ⟨_, rfl⟩

/-- No step makes a client leave. -/
theorem steady_of_step {v' : Viewer L} {a : Action L} {e : Player.Event L.Cid}
    (hwf : v.system.service.blockExchange.WellFormed) (hdropped : v.system.dropped = ∅)
    (hok : v.player.stream.BufferOk) (hs : v.step .wraps a = .ok (v', e)) :
    v'.system.service.blockExchange.WellFormed ∧ v'.system.dropped = ∅ ∧
      v'.player.stream.BufferOk := by
  have hsystem : ∀ {i : Input L} {system : System L} {out : List (Output L)},
      (∀ chan, i ≠ .drop chan) → v.system.step i = .ok (system, out) →
      system.service.blockExchange.WellFormed ∧ system.dropped = ∅ := by
    intro i system out hi hstep
    obtain ⟨_, _, hstep', hspec⟩ := System.exists_step hwf hdropped hi
    rw [hstep] at hstep'
    cases hstep'
    exact hspec
  cases took_of_step hs with
  | idle => exact ⟨hwf, hdropped, hok⟩
  | played _ hs => exact ⟨hwf, hdropped, (Player.messages_of_step hok hs).1⟩
  | requested => exact ⟨hwf, hdropped, hok⟩
  | served hfirst hserved =>
    obtain ⟨hwf', hdropped'⟩ := hsystem (by simp) hserved
    exact ⟨hwf', hdropped', hok⟩
  | notified hnotified =>
    obtain ⟨hwf', hdropped'⟩ := hsystem (by simp) hnotified
    exact ⟨hwf', hdropped', hok⟩

end Viewer

end LiveTest
