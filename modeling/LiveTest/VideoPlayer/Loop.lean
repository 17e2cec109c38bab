import LiveTest.Viewer.Steps

/-!
# Model of `VideoStream::run`

The loop of the player (`video_player.rs`, lines 244–269) behind its call of
`subscribe`. `select!` is biased: an iteration takes the first of the four
branches that is ready. `Player` leaves open which one that is.

* `run_player`: the loop is one way to run `Player`.
* `prioritised_of_run`: which way that is. Nothing moves after the end of the test, every
  fetch that has reported is in the buffer when a segment is played, a message is taken
  when all ticks that were due have been, and an iteration waits for want of all three.
-/

namespace LiveTest

open Rust Machine

variable {Cid : Type}

/-- The loop, with what its four branches wait for. -/
structure PlayerLoop (Cid : Type) where
  player : Player Cid
  /-- `sleep` is over. -/
  slept : Bool
  /-- The ticks of `interval` that are due: it makes up for those that were missed. -/
  due : ℕ
  /-- The messages on the stream, as `serde_json` reads them. -/
  stream : List (Option (StreamerMessage Cid))
  /-- The loop is left. -/
  left : Bool

namespace PlayerLoop

/-- What can happen: something becomes ready, a task reports, or the loop takes an iteration. -/
inductive Action (Cid : Type) where
  | arrive (message : Option (StreamerMessage Cid))
  | elapse
  | expire
  | finish (task : ℕ)
  | poll (now : Int64)

/-- Before the first iteration. -/
def new (segmentLength simId : UInt64) : PlayerLoop Cid :=
  ⟨.new segmentLength simId, false, 0, [], false⟩

/-- A step of the player, in the release build. -/
def stepPlayer (l : PlayerLoop Cid) (a : Player.Action Cid) :
    Except Panic (PlayerLoop Cid × Player.Event Cid) := do
  let (player, e) ← l.player.step .wraps a
  return ({ l with player }, e)

/-- One action; an iteration with no branch ready waits. -/
def step (l : PlayerLoop Cid) : Action Cid → Except Panic (PlayerLoop Cid × Player.Event Cid)
  | .arrive message => return ({ l with stream := l.stream ++ [message] }, .none)
  | .elapse => return ({ l with due := l.due + 1 }, .none)
  | .expire => return ({ l with slept := true }, .none)
  | .finish task => l.stepPlayer (.finish task)
  | .poll now =>
    if l.left then return (l, .none)
    else if l.slept then return ({ l with left := true }, .none)
    else if l.player.channel ≠ [] then l.stepPlayer (.recv now)
    else if 0 < l.due then { l with due := l.due - 1 }.stepPlayer (.tick now)
    else
      match l.stream with
      | [] => return (l, .none)
      | none :: _ => .error (.expect "Message Deserialization")
      | some msg :: stream => { l with stream }.stepPlayer (.gossip now msg)

/-! ## One action -/

/-- What an action does. -/
inductive Took (l : PlayerLoop Cid) :
    Action Cid → PlayerLoop Cid → Player.Event Cid → Prop where
  | arrived (message : Option (StreamerMessage Cid)) :
      Took l (.arrive message) { l with stream := l.stream ++ [message] } .none
  | elapsed : Took l .elapse { l with due := l.due + 1 } .none
  | expired : Took l .expire { l with slept := true } .none
  | missed (task : ℕ) : Took l (.finish task) l .none
  | waited (now : Int64)
      (idle : l.left = true ∨ l.player.channel = [] ∧ l.due = 0 ∧ l.stream = []) :
      Took l (.poll now) l .none
  | broke (now : Int64) (slept : l.slept) : Took l (.poll now) { l with left := true } .none
  | finished {task : ℕ} {msg : StreamerMessage Cid} {player : Player Cid}
      (stepped : l.player.step .wraps (.finish task) = .ok (player, .finished msg)) :
      Took l (.finish task) { l with player } (.finished msg)
  | buffered {now : Int64} {msg : StreamerMessage Cid} {query : WriteQuery} {player : Player Cid}
      (awake : l.slept = false)
      (stepped : l.player.step .wraps (.recv now) = .ok (player, .buffered msg query)) :
      Took l (.poll now) { l with player } (.buffered msg query)
  | played {now : Int64} {advance : VideoStream.Advance} {player : Player Cid}
      (awake : l.slept = false) (drained : l.player.channel = []) (due : 0 < l.due)
      (stepped : l.player.step .wraps (.tick now) = .ok (player, .advanced advance)) :
      Took l (.poll now) { l with player, due := l.due - 1 } (.advanced advance)
  | taken {now : Int64} {msg : StreamerMessage Cid} {query : WriteQuery}
      {stream : List (Option (StreamerMessage Cid))} {player : Player Cid}
      (awake : l.slept = false) (drained : l.player.channel = []) (due : l.due = 0)
      (first : l.stream = some msg :: stream)
      (stepped : l.player.step .wraps (.gossip now msg) = .ok (player, .received msg query)) :
      Took l (.poll now) { l with player, stream } (.received msg query)

theorem stepPlayer_eq_ok {l l' : PlayerLoop Cid} {a : Player.Action Cid} {e : Player.Event Cid} :
    l.stepPlayer a = .ok (l', e) ↔
      ∃ player, l.player.step .wraps a = .ok (player, e) ∧ l' = { l with player } := by
  rw [stepPlayer, bind_eq_ok]
  constructor
  · rintro ⟨⟨player, e'⟩, hs, h⟩
    cases h
    exact ⟨player, hs, rfl⟩
  · rintro ⟨player, hs, rfl⟩
    exact ⟨(player, e), hs, rfl⟩

theorem took_of_step {l l' : PlayerLoop Cid} {a : Action Cid} {e : Player.Event Cid}
    (h : l.step a = .ok (l', e)) : l.Took a l' e := by
  cases a with
  | arrive message =>
    cases h
    exact .arrived message
  | elapse =>
    cases h
    exact .elapsed
  | expire =>
    cases h
    exact .expired
  | finish task =>
    obtain ⟨player, hs, rfl⟩ := stepPlayer_eq_ok.mp h
    cases hfind : l.player.tasks.find? fun t => t.1 = task with
    | none =>
      simp only [Player.step, hfind, pure_eq_ok] at hs
      cases hs
      exact .missed task
    | some t =>
      have hs' := hs
      simp only [Player.step, hfind, pure_eq_ok] at hs'
      cases hs'
      exact .finished hs
  | poll now =>
    simp only [step] at h
    split_ifs at h with hleft hslept hchannel hdue
    · cases h
      exact .waited now (.inl hleft)
    · cases h
      exact .broke now hslept
    · have hawake : l.slept = false := by simpa using hslept
      obtain ⟨player, hs, rfl⟩ := stepPlayer_eq_ok.mp h
      obtain ⟨msg, channel, hcons⟩ := List.exists_cons_of_ne_nil hchannel
      have hs' := hs
      simp only [Player.step, hcons] at hs'
      obtain ⟨⟨stream, query⟩, -, hs'⟩ := bind_eq_ok.mp hs'
      cases hs'
      exact .buffered hawake hs
    · have hawake : l.slept = false := by simpa using hslept
      obtain ⟨player, hs, rfl⟩ := stepPlayer_eq_ok.mp h
      have hs' := hs
      obtain ⟨⟨stream, fetch, advance⟩, -, hs'⟩ := bind_eq_ok.mp hs'
      cases fetch <;> cases hs' <;> exact .played hawake (not_not.mp hchannel) hdue hs
    · have hawake : l.slept = false := by simpa using hslept
      split at h
      · next hstream =>
        cases h
        exact .waited now (.inr ⟨not_not.mp hchannel, Nat.eq_zero_of_not_pos hdue, hstream⟩)
      · cases h
      · next msg stream hstream =>
        obtain ⟨player, hs, rfl⟩ := stepPlayer_eq_ok.mp h
        obtain ⟨query, hs'⟩ := l.player.step_gossip now msg
        rw [hs'] at hs
        cases hs
        exact .taken hawake (not_not.mp hchannel) (Nat.eq_zero_of_not_pos hdue) hstream hs'

/-! ## The player of the loop -/

/-- What happens to the player in an action of the loop that shows `e`. -/
def Action.toPlayer : Action Cid → Player.Event Cid → Option (Player.Action Cid)
  | .finish task, .finished _ => some (.finish task)
  | .poll now, .buffered _ _ => some (.recv now)
  | .poll now, .advanced _ => some (.tick now)
  | .poll now, .received msg _ => some (.gossip now msg)
  | _, _ => none

/-- What the player did in an action of the loop. -/
def playerEntry (entry : Action Cid × Player.Event Cid) :
    Option (Player.Action Cid × Player.Event Cid) :=
  (entry.1.toPlayer entry.2).map fun a => (a, entry.2)

/-- The player of the loop runs on its own. -/
theorem run_player {l l' : PlayerLoop Cid} {is : List (Action Cid)}
    {tr : List (Action Cid × Player.Event Cid)} (hrun : run step l is = .ok (l', tr)) :
    run (Player.step .wraps) l.player ((tr.filterMap playerEntry).map Prod.fst) =
      .ok (l'.player, tr.filterMap playerEntry) := by
  refine run_project PlayerLoop.player playerEntry (fun l a l' e hs hnone => ?_)
    (fun l a l' e pa e' hs hsome => ?_) hrun
  · cases took_of_step hs with
    | finished _ => cases hnone
    | buffered _ _ => cases hnone
    | played _ _ _ _ => cases hnone
    | taken _ _ _ _ _ => cases hnone
    | _ => rfl
  · cases took_of_step hs with
    | finished stepped =>
      cases hsome
      exact stepped
    | buffered _ stepped =>
      cases hsome
      exact stepped
    | played _ _ _ stepped =>
      cases hsome
      exact stepped
    | taken _ _ _ _ stepped =>
      cases hsome
      exact stepped
    | _ => cases hsome

/-! ## What a trace says about the branches -/

/-- The messages that arrived. -/
def arrived (tr : List (Action Cid × Player.Event Cid)) : List (Option (StreamerMessage Cid)) :=
  tr.filterMap fun
    | (.arrive message, _) => some message
    | _ => none

/-- The messages that were taken off the stream. -/
def taken (tr : List (Action Cid × Player.Event Cid)) : List (StreamerMessage Cid) :=
  tr.filterMap fun
    | (_, .received msg _) => some msg
    | _ => none

/-- The messages whose fetch has reported. -/
def reported (tr : List (Action Cid × Player.Event Cid)) : List (StreamerMessage Cid) :=
  tr.filterMap fun
    | (_, .finished msg) => some msg
    | _ => none

/-- The messages whose segment was put into the buffer. -/
def buffered (tr : List (Action Cid × Player.Event Cid)) : List (StreamerMessage Cid) :=
  tr.filterMap fun
    | (_, .buffered msg _) => some msg
    | _ => none

/-- How many ticks have become due. -/
def elapsed (tr : List (Action Cid × Player.Event Cid)) : ℕ :=
  tr.countP fun
    | (.elapse, _) => true
    | _ => false

/-- How many times `play` ran. -/
def plays (tr : List (Action Cid × Player.Event Cid)) : ℕ :=
  tr.countP fun
    | (_, .advanced _) => true
    | _ => false

/-- `sleep` is over. -/
def Expired (tr : List (Action Cid × Player.Event Cid)) : Prop := .expire ∈ tr.map Prod.fst

/-- Every fetch that has reported is in the buffer. -/
def Drained (tr : List (Action Cid × Player.Event Cid)) : Prop := reported tr = buffered tr

/-- What the bias makes of an action: which of the branches ran, and for what. -/
inductive Prioritised (before : List (Action Cid × Player.Event Cid)) :
    Action Cid → Player.Event Cid → Prop where
  | arrive (message : Option (StreamerMessage Cid)) : Prioritised before (.arrive message) .none
  | elapse : Prioritised before .elapse .none
  | expire : Prioritised before .expire .none
  | missed (task : ℕ) : Prioritised before (.finish task) .none
  | finish (task : ℕ) (msg : StreamerMessage Cid) : Prioritised before (.finish task) (.finished msg)
  | over (now : Int64) (expired : Expired before) : Prioritised before (.poll now) .none
  | addSegment (now : Int64) {msg : StreamerMessage Cid} (query : WriteQuery)
      (awake : ¬ Expired before)
      (first : (reported before)[(buffered before).length]? = some msg) :
      Prioritised before (.poll now) (.buffered msg query)
  | play (now : Int64) (advance : VideoStream.Advance) (awake : ¬ Expired before)
      (drained : Drained before) (due : plays before < elapsed before) :
      Prioritised before (.poll now) (.advanced advance)
  | addGossip (now : Int64) {msg : StreamerMessage Cid} (query : WriteQuery)
      (awake : ¬ Expired before) (drained : Drained before)
      (paced : plays before = elapsed before)
      (first : (arrived before)[(taken before).length]? = some (some msg)) :
      Prioritised before (.poll now) (.received msg query)
  | wait (now : Int64) (drained : Drained before) (paced : plays before = elapsed before)
      (empty : arrived before = (taken before).map some) :
      Prioritised before (.poll now) .none

/-! ## The invariant -/

/-- What each branch waits for, from the history of the loop. -/
structure Accounted (l : PlayerLoop Cid) (tr : List (Action Cid × Player.Event Cid)) : Prop where
  slept_iff : l.slept = true ↔ Expired tr
  slept_of_left : l.left = true → l.slept = true
  channel : reported tr = buffered tr ++ l.player.channel
  due : elapsed tr = plays tr + l.due
  stream : arrived tr = (taken tr).map some ++ l.stream
  prioritised : EachStep Prioritised tr

theorem Accounted.init (segmentLength simId : UInt64) :
    Accounted (new segmentLength simId : PlayerLoop Cid) [] where
  slept_iff := by simp [new, Expired]
  slept_of_left h := by cases h
  channel := rfl
  due := rfl
  stream := rfl
  prioritised := eachStep_nil _

section Step

variable {l l' : PlayerLoop Cid} {tr : List (Action Cid × Player.Event Cid)} {a : Action Cid}
  {e : Player.Event Cid}

/-- The channel, from the fetches that report and the segments that are buffered. -/
theorem channel_of_step {p p' : Player Cid} {pa : Player.Action Cid} (a : Action Cid)
    (h : p.step .wraps pa = .ok (p', e)) :
    p.channel ++ reported [(a, e)] = buffered [(a, e)] ++ p'.channel := by
  cases pa with
  | gossip receiveTime msg =>
    obtain ⟨query, hs⟩ := p.step_gossip receiveTime msg
    rw [hs] at h
    cases h
    exact List.append_nil _
  | tick now =>
    obtain ⟨⟨stream, fetch, advance⟩, -, h⟩ := bind_eq_ok.mp h
    cases fetch <;> cases h <;> exact List.append_nil _
  | finish task =>
    rcases Player.finish_cases p task with hs | ⟨before, msg, after, -, hs⟩ <;> rw [hs] at h <;>
      cases h
    · exact List.append_nil _
    · rfl
  | recv receiveTime =>
    cases hchannel : p.channel with
    | nil =>
      rw [Player.step_recv_nil hchannel] at h
      cases h
      rw [hchannel]
      rfl
    | cons msg channel =>
      simp only [Player.step, hchannel] at h
      obtain ⟨⟨stream, query⟩, -, h⟩ := bind_eq_ok.mp h
      cases h
      exact List.append_nil _

theorem Accounted.not_expired (h : Accounted l tr) (awake : l.slept = false) : ¬ Expired tr := by
  rw [← h.slept_iff, awake]
  exact Bool.false_ne_true

theorem Accounted.drained_of_nil (h : Accounted l tr) (hchannel : l.player.channel = []) :
    Drained tr := by
  rw [Drained, h.channel, hchannel, List.append_nil]

/-- The branch that runs is the one whose turn it is. -/
theorem Accounted.prioritised_of_took (h : Accounted l tr) (took : l.Took a l' e) :
    Prioritised tr a e := by
  cases took with
  | arrived message => exact .arrive message
  | elapsed => exact .elapse
  | expired => exact .expire
  | missed task => exact .missed task
  | waited now idle =>
    rcases idle with hleft | ⟨hchannel, hdue, hstream⟩
    · exact .over now (h.slept_iff.mp (h.slept_of_left hleft))
    · refine .wait now (h.drained_of_nil hchannel) ?_ ?_
      · rw [h.due, hdue, Nat.add_zero]
      · rw [h.stream, hstream, List.append_nil]
  | broke now slept => exact .over now (h.slept_iff.mp slept)
  | finished _ => exact .finish _ _
  | @buffered now _ _ _ awake stepped =>
    refine .addSegment _ _ (h.not_expired awake) ?_
    have hchannel := channel_of_step (.poll now) stepped
    rw [h.channel, (List.append_nil _).symm.trans hchannel]
    simp [PlayerLoop.buffered]
  | played awake drained due _ =>
    refine .play _ _ (h.not_expired awake) (h.drained_of_nil drained) ?_
    rw [h.due]
    omega
  | taken awake drained due first _ =>
    refine .addGossip _ _ (h.not_expired awake) (h.drained_of_nil drained) ?_ ?_
    · rw [h.due, due, Nat.add_zero]
    · rw [h.stream, first]
      simp

/-- One action keeps the invariant. -/
theorem Accounted.concat (h : Accounted l tr) (took : l.Took a l' e) :
    Accounted l' (tr ++ [(a, e)]) := by
  have hprioritised := eachStep_concat.mpr ⟨h.prioritised, h.prioritised_of_took took⟩
  have hchannel : reported (tr ++ [(a, e)]) = buffered (tr ++ [(a, e)]) ++ l'.player.channel := by
    rw [reported, buffered, List.filterMap_append, List.filterMap_append, ← reported, ← buffered,
      ← reported, ← buffered, h.channel, List.append_assoc, List.append_assoc]
    congr 1
    cases took with
    | finished stepped => exact channel_of_step _ stepped
    | buffered _ stepped => exact channel_of_step _ stepped
    | played _ _ _ stepped => exact channel_of_step _ stepped
    | taken _ _ _ _ stepped => exact channel_of_step _ stepped
    | _ => exact List.append_nil _
  have hexpired : Expired (tr ++ [(a, e)]) ↔ Expired tr ∨ a = .expire := by
    simp [Expired, eq_comm]
  refine ⟨?_, ?_, hchannel, ?_, ?_, hprioritised⟩
  · rw [hexpired, ← h.slept_iff]
    cases took <;> simp
  · have := h.slept_of_left
    cases took with
    | expired => simp
    | broke _ slept => simp [slept]
    | _ => exact this
  · rw [elapsed, plays, List.countP_append, List.countP_append, ← elapsed, ← plays, h.due]
    cases took with
    | elapsed => rfl
    | played _ _ due _ =>
      simp
      omega
    | _ => simp
  · rw [arrived, PlayerLoop.taken, List.filterMap_append, List.filterMap_append, List.map_append,
      ← arrived, ← PlayerLoop.taken, h.stream, List.append_assoc, List.append_assoc]
    congr 1
    cases took with
    | arrived message => rfl
    | taken _ _ _ first _ => simp [first]
    | _ => simp

end Step

/-! ## Runs -/

theorem accounted_of_run (segmentLength simId : UInt64) {is : List (Action Cid)}
    {l : PlayerLoop Cid} {tr : List (Action Cid × Player.Event Cid)}
    (hrun : run PlayerLoop.step (.new segmentLength simId) is = .ok (l, tr)) : Accounted l tr :=
  inv_of_run Accounted (Accounted.init segmentLength simId)
    (fun _ _ _ _ _ h hs => h.concat (took_of_step hs)) hrun

/-- In every run of the loop its player runs as `Player` does, and each iteration runs the branch
    whose turn it is. -/
theorem prioritised_of_run (segmentLength simId : UInt64) {is : List (Action Cid)}
    {l : PlayerLoop Cid} {tr : List (Action Cid × Player.Event Cid)}
    (hrun : run PlayerLoop.step (.new segmentLength simId) is = .ok (l, tr)) :
    run (Player.step .wraps) (Player.new segmentLength simId)
        ((tr.filterMap playerEntry).map Prod.fst) =
        .ok (l.player, tr.filterMap playerEntry) ∧
      EachStep Prioritised tr := by
  exact ⟨run_player hrun, (accounted_of_run segmentLength simId hrun).prioritised⟩

/-- A fetch reports while a message waits and ticks are due: the segment is buffered, a tick plays it,
    and only then the message is taken. -/
theorem prioritised_of_run_example :
    ∃ l tr, run PlayerLoop.step (.new 1 0 : PlayerLoop ℕ)
        [.arrive (some ⟨1, 0, [7]⟩), .poll 0, .elapse, .poll 0, .arrive (some ⟨2, 0, [8]⟩), .elapse,
          .elapse, .elapse, .finish 0, .poll 0, .poll 0, .poll 0, .poll 0, .poll 0, .expire,
          .poll 0] = .ok (l, tr) ∧
      playedPairs (tr.filterMap playerEntry) = [(1, 0)] ∧ EachStep Prioritised tr := by
  have hrun : run PlayerLoop.step (.new 1 0 : PlayerLoop ℕ)
      [.arrive (some ⟨1, 0, [7]⟩), .poll 0, .elapse, .poll 0, .arrive (some ⟨2, 0, [8]⟩), .elapse,
        .elapse, .elapse, .finish 0, .poll 0, .poll 0, .poll 0, .poll 0, .poll 0, .expire,
        .poll 0] = .ok (_, _) := rfl
  exact ⟨_, _, hrun, rfl, (prioritised_of_run 1 0 hrun).2⟩

end PlayerLoop

end LiveTest
