import LiveTest.AddressExchange.Start

/-!
# The end of the test

`Exchange` with what its nodes do behind their loops: each reports its success,
signals `STOP_STATE` and waits until all have (`roles/streamer.rs`, lines 166–181;
`roles/viewer.rs`, lines 152–163). A node that returns ends its process, and
with it its service.

* `returns_iff`: a node that returns `Ok(())` does so when all have signalled
  `STOP_STATE`, so while no call fails none is gone with another in its loop, or before
  it. From any state that is reached, a node can still return so exactly when it has
  not failed and no node has that has not signalled `STOP_STATE`.
-/

namespace LiveTest

open Rust Barriers

variable {n : ℕ} {net : Net n}

/-- How far a node is on its way out. -/
inductive Ending where
  /-- In its loop, or before it. -/
  | inside
  /-- Behind the `break`. -/
  | left
  /-- In `signal_and_wait(STOP_STATE)`, after its signal. -/
  | stopSignalled
  /-- Behind `Ok(())`. -/
  | returned
  deriving DecidableEq, Repr

/-- They follow each other in this order. -/
def Ending.rank : Ending → ℕ
  | .inside => 0
  | .left => 1
  | .stopSignalled => 2
  | .returned => 3

/-- The nodes and testground, to the end. -/
structure TestPlan {n : ℕ} (net : Net n) where
  exchange : Exchange net
  endings : Fin n → Ending
  /-- The signals of `STOP_STATE`. -/
  stops : ℕ

/-- The node that takes the step. -/
def Action.node : Action n → Fin n
  | .subscribe i _ | .next i | .receive i _ | .fail i => i

/-! ## What a step of the exchange does -/

namespace Exchange

/-- A step of node `i`, from `s` to `u`. -/
inductive Did (s : Exchange net) (i : Fin n) (u : Exchange net) : Prop where
  | nothing (same : u = s)
  | moved (before : (s.nodes i).stage ≠ .live) (moves : s.Moves i u)
  | ticked (live : (s.nodes i).stage = .live)
      (videos : u = s.setNode i { s.nodes i with videos := (s.nodes i).videos + 1 })
  | failed (failed : u = s.setNode i { s.nodes i with failed := true })

variable {s u : Exchange net} {action : Action n}

theorem did_of_step (h : s.step action = .ok (u, ())) : s.Did action.node u := by
  cases action with
  | subscribe i replayed =>
    simp only [step] at h
    split_ifs at h with hcan
    · cases h
      exact .moved (by rw [Action.node, hcan.2.1]; decide) (moves_subscribe hcan.2.1 replayed)
    · cases h
      exact .nothing rfl
  | next i =>
    by_cases hfailed : (s.nodes i).failed
    · simp only [step, if_pos hfailed] at h
      cases h
      exact .nothing rfl
    · by_cases htick : isStreamer i ∧ (s.nodes i).stage = .live
      · rw [step_tick htick.1 hfailed htick.2] at h
        cases h
        exact .ticked htick.2 rfl
      · simp only [step, if_neg hfailed] at h
        cases h
        by_cases hlive : (s.nodes i).stage = .live
        · refine .nothing ?_
          unfold next
          simp only [hlive]
          exact if_neg fun hi => htick ⟨hi, hlive⟩
        · rcases s.next_cases i with ⟨heq, -⟩ | hmoves | hboth
          · exact .nothing heq
          · exact .moved hlive hmoves
          · exact absurd hboth htick
  | receive i place =>
    simp only [step] at h
    split_ifs at h with hcan
    · obtain ⟨t, ht, h⟩ := bind_eq_ok.mp h
      cases h
      rcases Nat.lt_or_ge place (s.nodes i).inbox.length with hp | hp
      · exact .moved (by rw [Action.node, hcan.2]; decide) (moves_receive hcan.2 hp ht)
      · rw [receive_of_le hp] at ht
        cases ht
        exact .nothing rfl
    · cases h
      exact .nothing rfl
  | fail i =>
    cases h
    exact .failed rfl

/-- Who is in its loop stays there. -/
theorem Did.live {i j : Fin n} (h : s.Did i u) (hj : (s.nodes j).stage = .live) :
    (u.nodes j).stage = .live := by
  cases h with
  | nothing same => rw [same, hj]
  | moved before moves =>
    have hne : j ≠ i := by
      rintro rfl
      exact before hj
    have hrank : u.ranks j = s.ranks j := by
      rcases moves.ahead with hranks | ⟨hranks, -⟩ <;> rw [hranks]
      rw [Function.update_of_ne hne]
    rw [← hj]
    exact Stage.rank_inj.mp hrank
  | ticked live videos =>
    rw [videos, field_setNode Node.stage (by rfl), hj]
  | failed failed =>
    rw [failed, field_setNode Node.stage (by rfl), hj]

theorem Did.failed_iff {i j : Fin n} (h : s.Did i u) (hj : j ≠ i) :
    (u.nodes j).failed = (s.nodes j).failed := by
  cases h with
  | nothing same => rw [same]
  | moved before moves => exact moves.failed j
  | ticked live videos => rw [videos, setNode_of_ne hj]
  | failed failed => rw [failed, setNode_of_ne hj]

theorem Did.failed_mono {i j : Fin n} (h : s.Did i u) (hj : (s.nodes j).failed = true) :
    (u.nodes j).failed = true := by
  rcases eq_or_ne j i with rfl | hne
  · cases h with
    | nothing same => rw [same, hj]
    | moved before moves => rw [moves.failed, hj]
    | ticked live videos => rw [videos, setNode_self, hj]
    | failed failed => rw [failed, setNode_self]
  · rw [h.failed_iff hne, hj]

theorem pending_setNode {i : Fin n} {node : Node net} (hinbox : node.inbox = (s.nodes i).inbox)
    (hremaining : node.remaining = (s.nodes i).remaining) :
    (s.setNode i node).pending = s.pending := by
  unfold pending
  refine Finset.sum_congr rfl fun j _ => ?_
  rw [field_setNode Node.inbox hinbox j, field_setNode Node.remaining hremaining j]

/-- A move changes how much is still to do. -/
theorem Moves.changes {i : Fin n} (h : s.Moves i u) (hranks : u.ranks = s.ranks)
    (hpending : u.pending = s.pending) : False := by
  rcases h.ahead with hahead | ⟨-, hlt⟩
  · have := congrFun (hahead.symm.trans hranks) i
    rw [Function.update_self] at this
    omega
  · omega

theorem Moves.ne_setNode {i j : Fin n} {node : Node net} (h : s.Moves i u)
    (hstage : node.stage = (s.nodes j).stage) (hinbox : node.inbox = (s.nodes j).inbox)
    (hremaining : node.remaining = (s.nodes j).remaining) : u ≠ s.setNode j node := by
  rintro rfl
  refine h.changes ?_ (pending_setNode hinbox hremaining)
  rw [ranks_setNode, hstage]
  exact Function.update_eq_self ..

/-- A move is made on the way to the loop. -/
theorem Did.ne_live {i j : Fin n} (h : s.Did i u) (hmoves : s.Moves j u) :
    (s.nodes i).stage ≠ .live := by
  cases h with
  | nothing same => exact (hmoves.changes (by rw [same]) (by rw [same])).elim
  | moved before _ => exact before
  | ticked _ videos => exact absurd videos (hmoves.ne_setNode rfl rfl rfl)
  | failed failed => exact absurd failed (hmoves.ne_setNode rfl rfl rfl)

theorem ranks_le (s : Exchange net) (i : Fin n) : s.ranks i ≤ Stage.live.rank := by
  unfold ranks
  cases (s.nodes i).stage <;> decide

end Exchange

namespace TestPlan

/-- What can happen next. -/
inductive Action (n : ℕ) where
  /-- A step in the loop, or before it; or a call of testground fails. -/
  | exchange (action : LiveTest.Action n)
  /-- `sleep` is over. An error of `record_success` is only printed. -/
  | expire (node : Fin n)
  | signalStop (node : Fin n)
  | passStop (node : Fin n)
  deriving DecidableEq

/-- No node has made a step. -/
def new : TestPlan net := ⟨.new, fun _ => .inside, 0⟩

/-- The plan with another ending of node `i`. -/
def setEnding (s : TestPlan net) (i : Fin n) (ending : Ending) : TestPlan net :=
  { s with endings := Function.update s.endings i ending }

/-- Node `i` has not failed. -/
def Works (s : TestPlan net) (i : Fin n) : Prop := (s.exchange.nodes i).failed = false

instance (s : TestPlan net) (i : Fin n) : Decidable (s.Works i) :=
  inferInstanceAs (Decidable (_ = _))

/-- A call can fail until the node returns; everything else is before the `break`. -/
def Allows (s : TestPlan net) : LiveTest.Action n → Prop
  | .fail i => s.endings i ≠ .returned
  | action => s.endings action.node = .inside

instance (s : TestPlan net) : DecidablePred s.Allows
  | .fail _ => inferInstanceAs (Decidable (_ ≠ _))
  | .subscribe .. | .next _ | .receive .. => inferInstanceAs (Decidable (_ = _))

/-- One action; one that is not possible does nothing. -/
def step (s : TestPlan net) : Action n → Except Panic (TestPlan net × Unit)
  | .exchange action =>
    if s.Allows action then do
      let (exchange, _) ← s.exchange.step action
      return ({ s with exchange }, ())
    else return (s, ())
  | .expire i =>
    if s.Works i ∧ s.endings i = .inside ∧ (s.exchange.nodes i).stage = .live then
      return (s.setEnding i .left, ())
    else return (s, ())
  | .signalStop i =>
    if s.Works i ∧ s.endings i = .left then
      return ({ s.setEnding i .stopSignalled with stops := s.stops + 1 }, ())
    else return (s, ())
  | .passStop i =>
    if s.Works i ∧ s.endings i = .stopSignalled ∧ n ≤ s.stops then
      return (s.setEnding i .returned, ())
    else return (s, ())

/-- The positions of the nodes on their way out. -/
def ranks (s : TestPlan net) (i : Fin n) : ℕ := (s.endings i).rank

theorem ranks_setEnding (s : TestPlan net) (i : Fin n) (ending : Ending) :
    (s.setEnding i ending).ranks = Function.update s.ranks i ending.rank := by
  funext j
  unfold ranks setEnding
  rcases eq_or_ne j i with rfl | hj
  · simp
  · simp [hj]

/-! ## The invariant -/

/-- `STOP_STATE` is a sound barrier, at which only nodes are that have been through all stages. -/
structure Running (s : TestPlan net) : Prop where
  exchanging : Exchanging s.exchange
  sound : Sound (fun _ : Unit => Ending.stopSignalled.rank) (fun _ => Ending.returned.rank) s.ranks
    fun _ => s.stops
  live : ∀ i, s.endings i ≠ .inside → (s.exchange.nodes i).stage = .live
  works : ∀ i, s.endings i = .returned → s.Works i

theorem Running.new : Running (new : TestPlan net) where
  exchanging := Exchanging.new
  sound := sound_zero (fun _ => by decide) fun _ => by decide
  live _ h := absurd rfl h
  works _ h := nomatch h

section Step

variable {s u : TestPlan net}

theorem Allows.ne_returned {action : LiveTest.Action n} (h : s.Allows action) :
    s.endings action.node ≠ .returned := by
  cases action with
  | fail i => exact h
  | subscribe i _ | next i | receive i _ =>
    have hin : s.endings i = .inside := h
    rw [Action.node, hin]
    decide

/-- Node `i` gets to another ending. -/
theorem Running.setEnding (h : Running s) {i : Fin n} {ending : Ending} (stops : ℕ)
    (hworks : s.Works i) (hlive : (s.exchange.nodes i).stage = .live)
    (hle : s.ranks i ≤ ending.rank)
    (hcount : stops = s.stops + if s.ranks i < 2 ∧ 2 ≤ ending.rank then 1 else 0)
    (hopen : 3 ≤ ending.rank → n ≤ s.stops) :
    Running { s.setEnding i ending with stops } where
  exchanging := h.exchanging
  sound := by
    have hranks : ranks { s.setEnding i ending with stops } =
        Function.update s.ranks i ending.rank := s.ranks_setEnding i ending
    rw [hranks]
    refine h.sound.advance hle (fun _ => hcount) fun _ hthree => .inr ?_
    rw [Fintype.card_fin]
    exact hopen hthree
  live j hj := by
    rcases eq_or_ne j i with rfl | hne
    · exact hlive
    · exact h.live j fun hin => hj ((Function.update_of_ne hne ..).trans hin)
  works j hj := by
    rcases eq_or_ne j i with rfl | hne
    · exact hworks
    · exact h.works j ((Function.update_of_ne hne ..).symm.trans hj)

/-- Every step keeps the invariant. -/
theorem Running.step (hlaw : net.Lawful) (h : Running s) (a : Action n) :
    ∃ u, s.step a = .ok (u, ()) ∧ Running u := by
  cases a with
  | exchange action =>
    simp only [TestPlan.step]
    split_ifs with hallows
    · obtain ⟨t, ht, ht'⟩ := h.exchanging.step hlaw action
      have hdid := Exchange.did_of_step ht
      refine ⟨{ s with exchange := t }, by rw [ht]; rfl, ht', h.sound, ?_, fun i hi => ?_⟩
      · exact fun i hi => hdid.live (h.live i hi)
      · have hne : i ≠ action.node := fun heq => hallows.ne_returned (heq ▸ hi)
        exact (hdid.failed_iff hne).trans (h.works i hi)
    · exact ⟨s, rfl, h⟩
  | expire i =>
    simp only [TestPlan.step]
    split_ifs with hcan
    · obtain ⟨hworks, hin, hlive⟩ := hcan
      have hrank : s.ranks i = 0 := by rw [TestPlan.ranks, hin]; rfl
      refine ⟨_, rfl, h.setEnding s.stops hworks hlive ?_ ?_ fun hthree => ?_⟩
      · rw [hrank]
        decide
      · rw [hrank]
        rfl
      · exact absurd hthree (by decide)
    · exact ⟨s, rfl, h⟩
  | signalStop i =>
    simp only [TestPlan.step]
    split_ifs with hcan
    · obtain ⟨hworks, hleft⟩ := hcan
      have hrank : s.ranks i = 1 := by rw [TestPlan.ranks, hleft]; rfl
      refine ⟨_, rfl, h.setEnding (s.stops + 1) hworks (h.live i ?_) ?_ ?_ fun hthree => ?_⟩
      · rw [hleft]
        decide
      · rw [hrank]
        decide
      · rw [hrank]
        rfl
      · exact absurd hthree (by decide)
    · exact ⟨s, rfl, h⟩
  | passStop i =>
    simp only [TestPlan.step]
    split_ifs with hcan
    · obtain ⟨hworks, hsignalled, hopen⟩ := hcan
      have hrank : s.ranks i = 2 := by rw [TestPlan.ranks, hsignalled]; rfl
      refine ⟨_, rfl, h.setEnding s.stops hworks (h.live i ?_) ?_ ?_ fun _ => hopen⟩
      · rw [hsignalled]
        decide
      · rw [hrank]
        decide
      · rw [hrank]
        rfl
    · exact ⟨s, rfl, h⟩

/-- A node that has failed does nothing any more. -/
theorem stays_failed {a : Action n} (h : s.step a = .ok (u, ())) {j : Fin n} (hj : ¬ s.Works j) :
    ¬ u.Works j ∧ u.endings j = s.endings j := by
  have hother : ∀ {i : Fin n} {ending : Ending}, s.Works i →
      Function.update s.endings i ending j = s.endings j := by
    intro i ending hi
    have hne : j ≠ i := by
      rintro rfl
      exact hj hi
    exact Function.update_of_ne hne ..
  cases a with
  | exchange action =>
    simp only [step] at h
    split_ifs at h
    · obtain ⟨⟨t, ⟨⟩⟩, ht, h⟩ := bind_eq_ok.mp h
      cases h
      have hfailed : (s.exchange.nodes j).failed = true := by simpa [Works] using hj
      have := (Exchange.did_of_step ht).failed_mono hfailed
      exact ⟨by simp [Works, this], rfl⟩
    · cases h
      exact ⟨hj, rfl⟩
  | expire i | signalStop i | passStop i =>
    simp only [step] at h
    split_ifs at h with hcan
    · cases h
      exact ⟨hj, hother hcan.1⟩
    · cases h
      exact ⟨hj, rfl⟩

/-! ## Progress -/

/-- All stages and all endings on one line. -/
def position (s : TestPlan net) (i : Fin n) : ℕ := s.exchange.ranks i + s.ranks i

/-- What the nodes have still to do: positions to come to first, and then what is pending. -/
def load (s : TestPlan net) : ℕ × ℕ := (∑ i, (13 - s.position i), s.exchange.pending)

theorem position_le (s : TestPlan net) (i : Fin n) : s.position i ≤ 13 := by
  have hending : s.ranks i ≤ 3 := by
    unfold ranks
    cases s.endings i <;> decide
  exact Nat.add_le_add (s.exchange.ranks_le i) hending

/-- A node that gets further makes the load smaller. -/
theorem load_lt {i : Fin n} (hpos : u.position = Function.update s.position i (s.position i + 1)) :
    Prod.Lex (· < ·) (· < ·) u.load s.load := by
  have hlt : s.position i < 13 := by
    have := u.position_le i
    rw [hpos, Function.update_self] at this
    omega
  refine .left _ _ (Finset.sum_lt_sum (fun j _ => ?_) ⟨i, Finset.mem_univ i, ?_⟩)
  · rw [hpos]
    exact Nat.sub_le_sub_left (le_update (Nat.le_succ _) j) 13
  · rw [hpos, Function.update_self]
    omega

theorem load_lt_of_moves {i : Fin n} {t : Exchange net} (h : s.exchange.Moves i t) :
    Prod.Lex (· < ·) (· < ·) (load { s with exchange := t }) s.load := by
  rcases h.ahead with hranks | ⟨hranks, hlt⟩
  · refine load_lt (i := i) ?_
    funext j
    unfold position
    rw [hranks]
    rcases eq_or_ne j i with rfl | hj
    · rw [Function.update_self, Function.update_self]
      exact Nat.add_right_comm ..
    · rw [Function.update_of_ne hj, Function.update_of_ne hj]
      rfl
  · have hpos : position { s with exchange := t } = s.position := by
      funext j
      unfold position
      rw [hranks]
      rfl
    unfold load
    rw [hpos]
    exact .right _ hlt

theorem load_lt_of_setEnding {i : Fin n} {ending : Ending} (hnext : ending.rank = s.ranks i + 1)
    (stops : ℕ) : Prod.Lex (· < ·) (· < ·) (load { s.setEnding i ending with stops }) s.load := by
  refine load_lt (i := i) ?_
  funext j
  have hranks : ranks { s.setEnding i ending with stops } =
      Function.update s.ranks i ending.rank := s.ranks_setEnding i ending
  unfold position
  rw [hranks, hnext]
  rcases eq_or_ne j i with rfl | hj
  · rw [Function.update_self, Function.update_self]
    rfl
  · rw [Function.update_of_ne hj, Function.update_of_ne hj]
    rfl

/-- A step that makes the load smaller, and by which no node fails. -/
def Progresses (s : TestPlan net) (a : Action n) : Prop :=
  ∃ u, s.step a = .ok (u, ()) ∧ (∀ j, u.Works j ↔ s.Works j) ∧
    Prod.Lex (· < ·) (· < ·) u.load s.load

theorem progresses_of_moves {i : Fin n} {action : LiveTest.Action n} {t : Exchange net}
    (hallows : s.Allows action) (ht : s.exchange.step action = .ok (t, ()))
    (hmoves : s.exchange.Moves i t) : s.Progresses (.exchange action) := by
  refine ⟨{ s with exchange := t }, ?_, fun j => ?_, load_lt_of_moves hmoves⟩
  · simp only [step, if_pos hallows, ht]
    rfl
  · unfold Works
    rw [hmoves.failed]

/-- Of the nodes inside, the one that is furthest behind can get further. -/
theorem Running.further_inside (hlaw : net.Lawful) (hn : 2 ≤ n) (h : Running s) {i : Fin n}
    (hworks : s.Works i) (hin : s.endings i = .inside)
    (hmin : ∀ j, s.exchange.ranks i ≤ s.exchange.ranks j) : ∃ a, s.Progresses a := by
  have hstep := Exchange.step_next hworks
  have hallows : s.Allows (.next i) := hin
  by_cases hlt : s.exchange.ranks i < Stage.bootstrapSignalled.rank
  · obtain ⟨action, t, ht, hmoves⟩ := h.exchanging.moves hlaw hn hworks hmin hlt
    refine ⟨_, progresses_of_moves ?_ ht hmoves⟩
    -- a node that is not inside is behind all stages
    have hnode : s.endings action.node = .inside := by
      by_contra hout
      exact (Exchange.did_of_step ht).ne_live hmoves (h.live _ hout)
    cases action with
    | fail j =>
      have hj : s.endings j = .inside := hnode
      show s.endings j ≠ .returned
      rw [hj]
      decide
    | _ => exact hnode
  · cases hstage : (s.exchange.nodes i).stage with
    | bootstrapSignalled =>
      have hopen : n ≤ s.exchange.signals .bootstrap := by
        refine h.exchanging.le_signals .bootstrap fun j => ?_
        exact (Nat.le_of_not_lt hlt).trans (hmin j)
      have hnext : s.exchange.next i =
          s.exchange.setNode i { s.exchange.nodes i with stage := .bootstrapPassed } := by
        unfold Exchange.next
        simp only [hstage, Exchange.barrier_of_le hopen]
      rw [hnext] at hstep
      exact ⟨_, progresses_of_moves hallows hstep
        (Exchange.moves_of_nodes rfl hstage .bootstrapPassed rfl rfl rfl rfl)⟩
    | bootstrapPassed =>
      have hnext : s.exchange.next i =
          s.exchange.setNode i { s.exchange.nodes i with stage := .live } := by
        unfold Exchange.next
        simp only [hstage]
      rw [hnext] at hstep
      exact ⟨_, progresses_of_moves hallows hstep
        (Exchange.moves_of_nodes rfl hstage .live rfl rfl rfl rfl)⟩
    | live =>
      refine ⟨.expire i, _, if_pos ⟨hworks, hin, hstage⟩, fun _ => Iff.rfl, ?_⟩
      exact load_lt_of_setEnding (by rw [ranks, hin]; rfl) s.stops
    | start | subscribed | initSignalled | initPassed | published | collecting | collected
    | dialing =>
      refine absurd ?_ hlt
      rw [Exchange.ranks, hstage]
      decide

/-- The node that is furthest behind can get further, unless it has returned. -/
theorem Running.further (hlaw : net.Lawful) (hn : 2 ≤ n) (h : Running s) {i : Fin n}
    (hworks : s.Works i) (hi : s.endings i ≠ .returned)
    (hmin : ∀ j, s.position i ≤ s.position j) : ∃ a, s.Progresses a := by
  have houtside : ∀ j, s.endings j ≠ .inside → s.exchange.ranks j = 10 := by
    intro j hj
    rw [Exchange.ranks, h.live j hj]
    rfl
  cases hending : s.endings i with
  | inside =>
    refine h.further_inside hlaw hn hworks hending fun j => ?_
    have hle := hmin j
    have hzero : s.ranks i = 0 := by rw [ranks, hending]; rfl
    unfold position at hle
    by_cases hj : s.endings j = .inside
    · have hjzero : s.ranks j = 0 := by rw [ranks, hj]; rfl
      omega
    · rw [houtside j hj]
      exact s.exchange.ranks_le i
  | left =>
    refine ⟨.signalStop i, _, if_pos ⟨hworks, hending⟩, fun _ => Iff.rfl, ?_⟩
    exact load_lt_of_setEnding (by rw [ranks, hending]; rfl) _
  | stopSignalled =>
    have hopen : n ≤ s.stops := by
      have hall : ∀ j, Ending.stopSignalled.rank ≤ s.ranks j := by
        intro j
        have hle := hmin j
        have htwo : s.ranks i = 2 := by rw [ranks, hending]; rfl
        have hten := houtside i (by rw [hending]; decide)
        have hjten : s.exchange.ranks j ≤ 10 := s.exchange.ranks_le j
        unfold position at hle
        show 2 ≤ s.ranks j
        omega
      have hcard := (h.sound.card_le_iff ()).mpr hall
      rwa [Fintype.card_fin] at hcard
    refine ⟨.passStop i, _, if_pos ⟨hworks, hending, hopen⟩, fun _ => Iff.rfl, ?_⟩
    exact load_lt_of_setEnding (by rw [ranks, hending]; rfl) s.stops
  | returned => exact absurd hending hi

/-- On the way to the end: nodes that have failed have signalled `STOP_STATE`. -/
structure Finishing (s₀ s : TestPlan net) : Prop where
  running : s.Running
  works_iff : ∀ j, s.Works j ↔ s₀.Works j
  signalled : ∀ j, ¬ s.Works j → Ending.stopSignalled.rank ≤ s.ranks j

theorem Finishing.step {s₀ : TestPlan net} (hlaw : net.Lawful) (h : Finishing s₀ s) {a : Action n}
    (hu : s.step a = .ok (u, ())) (hworks : ∀ j, u.Works j ↔ s.Works j) : Finishing s₀ u where
  running := by
    obtain ⟨u', hu', h'⟩ := h.running.step hlaw a
    rw [hu] at hu'
    cases hu'
    exact h'
  works_iff j := (hworks j).trans (h.works_iff j)
  signalled j hj := by
    have hfailed : ¬ s.Works j := mt (hworks j).mpr hj
    unfold ranks
    rw [(stays_failed hu hfailed).2]
    exact h.signalled j hfailed

/-- Some node gets further, until all that have not failed have returned. -/
theorem Finishing.progress {s₀ : TestPlan net} (hlaw : net.Lawful) (hn : 2 ≤ n)
    (h : Finishing s₀ s) (hnot : ¬ ∀ j, s.Works j → s.endings j = .returned) :
    ∃ a u o, s.step a = .ok (u, o) ∧ Finishing s₀ u ∧ Prod.Lex (· < ·) (· < ·) u.load s.load := by
  push Not at hnot
  obtain ⟨k, hk, hkout⟩ := hnot
  obtain ⟨i, hi, hmin⟩ := Finset.exists_min_image
    (Finset.univ.filter fun j => s.Works j ∧ s.endings j ≠ .returned) s.position
    ⟨k, Finset.mem_filter.mpr ⟨Finset.mem_univ k, hk, hkout⟩⟩
  obtain ⟨-, hworks, hout⟩ := Finset.mem_filter.mp hi
  have hlow : s.position i ≤ 12 := by
    have htwo : s.ranks i ≤ 2 := by
      unfold ranks
      cases hending : s.endings i with
      | returned => exact absurd hending hout
      | _ => decide
    exact Nat.add_le_add (s.exchange.ranks_le i) htwo
  have hhigh : ∀ j, Ending.stopSignalled.rank ≤ s.ranks j → 12 ≤ s.position j := by
    intro j hj
    have hlive : s.exchange.ranks j = 10 := by
      rw [Exchange.ranks, h.running.live j]
      · rfl
      · intro hin
        rw [ranks, hin] at hj
        exact absurd hj (by decide)
    have htwo : 2 ≤ s.ranks j := hj
    unfold position
    omega
  obtain ⟨a, u, hu, hkeeps, hlt⟩ := h.running.further hlaw hn hworks hout fun j => by
    by_cases hj : s.Works j ∧ s.endings j ≠ .returned
    · exact hmin j (Finset.mem_filter.mpr ⟨Finset.mem_univ j, hj⟩)
    · refine hlow.trans (hhigh j ?_)
      by_cases hjworks : s.Works j
      · rw [ranks, not_not.mp fun hne => hj ⟨hjworks, hne⟩]
        decide
      · exact h.signalled j hjworks
  exact ⟨a, u, (), hu, h.step hlaw hu hkeeps, hlt⟩

end Step

/-! ## Runs -/

/-- A node that has failed stays as it is. -/
theorem stays_failed_of_run {s t : TestPlan net} {is : List (Action n)} {tr : List (Action n × Unit)}
    (hrun : Machine.run step s is = .ok (t, tr)) {j : Fin n} (hj : ¬ s.Works j) :
    ¬ t.Works j ∧ t.endings j = s.endings j := by
  refine Machine.inv_of_run (fun (t : TestPlan net) _ => ¬ t.Works j ∧ t.endings j = s.endings j)
    ⟨hj, rfl⟩ (fun t _ a u _ h hu => ?_) hrun
  obtain ⟨hfailed, hsame⟩ := stays_failed hu h.1
  exact ⟨hfailed, hsame.trans h.2⟩

theorem running_of_run (hlaw : net.Lawful) {s t : TestPlan net} (h : s.Running)
    {is : List (Action n)} {tr : List (Action n × Unit)}
    (hrun : Machine.run step s is = .ok (t, tr)) : t.Running := by
  refine Machine.inv_of_run (fun (t : TestPlan net) _ => t.Running) h (fun t _ a u _ h hu => ?_) hrun
  obtain ⟨u', hu', h'⟩ := h.step hlaw a
  rw [hu] at hu'
  cases hu'
  exact h'

/-- In every state that is reached: if a node has returned `Ok(())`, all have signalled
    `STOP_STATE`, and so have left their loops; and a node can still return so exactly when it has
    not failed, and neither has one that has not signalled it. -/
theorem returns_iff (hlaw : net.Lawful) (hn : 2 ≤ n) {is : List (Action n)} {s : TestPlan net}
    {tr : List (Action n × Unit)} (hrun : Machine.run step (new : TestPlan net) is = .ok (s, tr)) :
    ((∃ i, s.endings i = .returned) →
      ∀ j, s.endings j = .stopSignalled ∨ s.endings j = .returned) ∧
    ∀ i, (∃ js t tr', Machine.run step s js = .ok (t, tr') ∧ t.endings i = .returned) ↔
      s.Works i ∧ ∀ j, ¬ s.Works j → s.endings j = .stopSignalled := by
  have hs : s.Running := running_of_run hlaw Running.new hrun
  have hsignalled : ∀ {t : TestPlan net}, t.Running → (∃ i, t.endings i = .returned) →
      ∀ j, t.endings j = .stopSignalled ∨ t.endings j = .returned := by
    rintro t ht ⟨i, hi⟩ j
    have hpos : Ending.stopSignalled.rank ≤ t.ranks j := by
      refine ht.sound.signalled () i ?_ j
      rw [ranks, hi]
    unfold ranks at hpos
    cases hj : t.endings j with
    | inside | left =>
      rw [hj] at hpos
      exact absurd hpos (by decide)
    | stopSignalled => exact .inl rfl
    | returned => exact .inr rfl
  refine ⟨hsignalled hs, fun i => ⟨?_, ?_⟩⟩
  · rintro ⟨js, t, tr', hrun', hi⟩
    have ht := running_of_run hlaw hs hrun'
    have hkept : ∀ j, ¬ s.Works j → ¬ t.Works j ∧ t.endings j = s.endings j :=
      fun j hj => stays_failed_of_run hrun' hj
    refine ⟨?_, fun j hj => ?_⟩
    · by_contra hfailed
      exact (hkept i hfailed).1 (ht.works i hi)
    · obtain ⟨hfailed, hsame⟩ := hkept j hj
      rw [← hsame]
      exact (hsignalled ht ⟨i, hi⟩ j).resolve_right fun hret => hfailed (ht.works j hret)
  · rintro ⟨hi, hothers⟩
    obtain ⟨js, t, tr', hrun', ht, hdone⟩ :=
      Machine.exists_run_of_progress (WellFounded.prod_lex wellFounded_lt wellFounded_lt) load
        (fun t (ht : Finishing s t) hnot => ht.progress hlaw hn hnot)
        ⟨hs, fun _ => Iff.rfl, fun j hj => by rw [ranks, hothers j hj]⟩
    exact ⟨js, t, tr', hrun', hdone i ((ht.works_iff i).mpr hi)⟩

/-- Two nodes can come to the end, and neither does when the other fails before. -/
theorem returns_iff_pair :
    (∃ js t tr, Machine.run step (new : TestPlan pairNet) js = .ok (t, tr) ∧
      t.endings 0 = .returned) ∧
    ∃ s tr, Machine.run step (new : TestPlan pairNet) [.exchange (.fail 1)] = .ok (s, tr) ∧
      ¬ ∃ js t tr', Machine.run step s js = .ok (t, tr') ∧ t.endings 0 = .returned := by
  have hnil : Machine.run step (new : TestPlan pairNet) [] = .ok (_, _) := rfl
  have hrun : Machine.run step (new : TestPlan pairNet) [.exchange (.fail 1)] = .ok (_, _) := rfl
  refine ⟨?_, _, _, hrun, fun h => ?_⟩
  · exact ((returns_iff pairNet_lawful le_rfl hnil).2 0).mpr ⟨rfl, fun j hj => absurd rfl hj⟩
  · have hfailed := (((returns_iff pairNet_lawful le_rfl hrun).2 0).mp h).2 1 (by decide)
    exact absurd hfailed (by decide)

end TestPlan

end LiveTest
