import LiveTest.AddressExchange.Complete
import Mathlib.Algebra.BigOperators.Group.Finset.Basic
import Mathlib.Algebra.Order.BigOperators.Group.Finset
import Mathlib.Data.Finset.Max

/-!
# The start of the stream

The streamer and the viewers go on from the last barrier on their own: the
streamer to its first tick, a viewer to its `subscribe(GOSSIPSUB_TOPIC)`.
Nothing makes the one wait for the other.

* `listening_iff`: the streamer has published to viewers that all listen in
  exactly those runs in which no viewer is still at the last barrier, or
  between it and its `subscribe`, when the interval of the streamer ticks; and
  there are runs in which one is, for any number of nodes.
-/

namespace LiveTest

open Rust Barriers

variable {n : ℕ} {net : Net n}

namespace Exchange

/-- When the streamer has published a `StreamerMessage`, every viewer has subscribed to
    `GOSSIPSUB_TOPIC`. -/
def Listening (s : Exchange net) : Prop :=
  ∀ i j, isStreamer i → ¬ isStreamer j → 0 < (s.nodes i).videos → (s.nodes j).Past .live

/-- The action is not a tick of the streamer's interval at which a viewer is still at the last
    barrier, or between it and its `subscribe`. -/
def TicksLast (s : Exchange net) : Action n → Prop
  | .next i => isStreamer i → ¬ (s.nodes i).failed → (s.nodes i).stage = .live →
      ∀ j, ¬ isStreamer j →
        (s.nodes j).stage ≠ .bootstrapSignalled ∧ (s.nodes j).stage ≠ .bootstrapPassed
  | _ => True

instance (s : Exchange net) : DecidablePred s.TicksLast
  | .next i => inferInstanceAs (Decidable (isStreamer i → _ → _ → ∀ j, ¬ isStreamer j → _ ∧ _))
  | .subscribe .. | .receive .. | .fail .. => isTrue trivial

variable {s u : Exchange net} {i : Fin n} {node : Node net}

@[simp] theorem setNode_self (s : Exchange net) (i : Fin n) (node : Node net) :
    (s.setNode i node).nodes i = node := Function.update_self ..

theorem setNode_of_ne {j : Fin n} (hj : j ≠ i) : (s.setNode i node).nodes j = s.nodes j :=
  Function.update_of_ne hj ..

theorem publish_nodes (s : Exchange net) (i j : Fin n) : (s.publish i).nodes j =
    ((s.setNode i { s.nodes i with stage := .published }).nodes j).deliver (net.payload i) := rfl

/-! ## What a node does in a step -/

/-- The messages and the addresses that the nodes have still to take from their lists. -/
def pending (s : Exchange net) : ℕ :=
  ∑ i, ((s.nodes i).inbox.length + (s.nodes i).remaining.length)

/-- Node `i` comes to its next stage, or takes something from one of its lists. -/
structure Moves (s : Exchange net) (i : Fin n) (u : Exchange net) : Prop where
  failed : ∀ j, (u.nodes j).failed = (s.nodes j).failed
  videos : ∀ j, (u.nodes j).videos = (s.nodes j).videos
  ahead : u.ranks = Function.update s.ranks i (s.ranks i + 1) ∨
    u.ranks = s.ranks ∧ u.pending < s.pending

/-- Node `i` waits: for `subscribe`, a message or its interval, or at a barrier. -/
def Waits (s : Exchange net) (i : Fin n) : Prop :=
  (s.nodes i).stage = .start ∨ (s.nodes i).stage = .collecting ∨ (s.nodes i).stage = .live ∨
    ∃ state : SyncState, (s.nodes i).stage.rank + 1 = state.passed.rank ∧ s.signals state < n

/-- What node `i` does not change is the same at all nodes. -/
theorem field_setNode {α : Type} (field : Node net → α) (h : field node = field (s.nodes i))
    (j : Fin n) : field ((s.setNode i node).nodes j) = field (s.nodes j) := by
  rcases eq_or_ne j i with rfl | hj
  · rw [setNode_self, h]
  · rw [setNode_of_ne hj]

theorem moves_of_nodes (hu : u.nodes = (s.setNode i node).nodes) {old : Stage}
    (hold : (s.nodes i).stage = old) (new : Stage) (hnew : node.stage = new)
    (hnext : new.rank = old.rank + 1) (hfailed : node.failed = (s.nodes i).failed)
    (hvideos : node.videos = (s.nodes i).videos) : s.Moves i u where
  failed j := by
    rw [hu]
    exact field_setNode Node.failed hfailed j
  videos j := by
    rw [hu]
    exact field_setNode Node.videos hvideos j
  ahead := by
    left
    have hu' : u.ranks = (s.setNode i node).ranks := by
      funext j
      unfold ranks
      rw [hu]
    rw [hu', ranks_setNode, hnew, hnext]
    unfold ranks
    rw [hold]

theorem moves_take (hstage : node.stage = (s.nodes i).stage)
    (hfailed : node.failed = (s.nodes i).failed) (hvideos : node.videos = (s.nodes i).videos)
    (hlt : node.inbox.length + node.remaining.length <
      (s.nodes i).inbox.length + (s.nodes i).remaining.length) : s.Moves i (s.setNode i node) where
  failed := field_setNode Node.failed hfailed
  videos := field_setNode Node.videos hvideos
  ahead := by
    right
    constructor
    · rw [ranks_setNode, hstage]
      exact Function.update_eq_self i s.ranks
    · refine Finset.sum_lt_sum (fun j _ => ?_) ⟨i, Finset.mem_univ i, ?_⟩
      · rcases eq_or_ne j i with rfl | hj
        · rw [setNode_self]
          exact hlt.le
        · rw [setNode_of_ne hj]
      · rw [setNode_self]
        exact hlt

theorem moves_publish (hi : (s.nodes i).stage = .initPassed) : s.Moves i (s.publish i) where
  failed j := by
    rw [publish_nodes, Node.field_deliver Node.failed _ fun _ => rfl]
    exact field_setNode Node.failed (by rfl) j
  videos j := by
    rw [publish_nodes, Node.field_deliver Node.videos _ fun _ => rfl]
    exact field_setNode Node.videos (by rfl) j
  ahead := by
    left
    rw [ranks_publish]
    unfold ranks
    rw [hi]
    rfl

theorem barrier_of_le {state : SyncState} (hopen : n ≤ s.signals state) :
    s.barrier i state node = s.setNode i node := if_pos hopen

theorem barrier_cases {state : SyncState} {old : Stage} (hold : (s.nodes i).stage = old)
    (hnext : state.passed.rank = old.rank + 1) (hnew : node.stage = state.passed)
    (hfailed : node.failed = (s.nodes i).failed) (hvideos : node.videos = (s.nodes i).videos) :
    s.barrier i state node = s ∧ s.Waits i ∨ s.Moves i (s.barrier i state node) := by
  by_cases hopen : n ≤ s.signals state
  · right
    rw [barrier_of_le hopen]
    exact moves_of_nodes rfl hold state.passed hnew hnext hfailed hvideos
  · left
    refine ⟨if_neg hopen, .inr (.inr (.inr ⟨state, ?_, Nat.lt_of_not_le hopen⟩))⟩
    rw [hold, hnext]

/-- The next step of a node: it waits, or it moves, or it is a tick of the streamer's interval. -/
theorem next_cases (s : Exchange net) (i : Fin n) :
    s.next i = s ∧ s.Waits i ∨ s.Moves i (s.next i) ∨
      isStreamer i ∧ (s.nodes i).stage = .live := by
  unfold next
  cases hstage : (s.nodes i).stage with
  | start =>
    left
    simp only [hstage]
    exact ⟨trivial, .inl hstage⟩
  | subscribed =>
    right; left
    simp only [hstage]
    exact moves_of_nodes rfl hstage .initSignalled rfl rfl rfl rfl
  | initSignalled =>
    rw [← or_assoc]
    left
    simp only [hstage]
    exact barrier_cases hstage rfl rfl rfl rfl
  | initPassed =>
    right; left
    simp only [hstage]
    exact moves_publish hstage
  | published =>
    right; left
    simp only [hstage]
    exact moves_of_nodes rfl hstage .collecting rfl rfl rfl rfl
  | collecting =>
    left
    simp only [hstage]
    exact ⟨trivial, .inr (.inl hstage)⟩
  | collected =>
    rw [← or_assoc]
    left
    simp only [hstage]
    exact barrier_cases hstage rfl rfl rfl rfl
  | dialing =>
    right; left
    cases hr : (s.nodes i).remaining with
    | cons p remaining =>
      simp only [hstage, hr]
      refine moves_take hstage.symm rfl rfl ?_
      rw [hr]
      exact Nat.add_lt_add_left (Nat.lt_succ_self _) _
    | nil =>
      simp only [hstage, hr]
      exact moves_of_nodes rfl hstage .bootstrapSignalled rfl rfl rfl rfl
  | bootstrapSignalled =>
    rw [← or_assoc]
    left
    simp only [hstage]
    exact barrier_cases hstage rfl rfl rfl rfl
  | bootstrapPassed =>
    right; left
    simp only [hstage]
    exact moves_of_nodes rfl hstage .live rfl rfl rfl rfl
  | live =>
    by_cases hi : isStreamer i
    · exact .inr (.inr ⟨hi, rfl⟩)
    · left
      simp only [hstage, if_neg hi]
      exact ⟨trivial, .inr (.inr (.inl hstage))⟩

theorem moves_subscribe (hi : (s.nodes i).stage = .start) (replayed : List Payload) :
    s.Moves i (s.setNode i { s.nodes i with stage := .subscribed, inbox := replayed }) :=
  moves_of_nodes rfl hi .subscribed rfl rfl rfl rfl

/-- The body of the `while let` takes a message from the inbox, or leaves the loop with it. -/
theorem moves_receive (hi : (s.nodes i).stage = .collecting) {place : ℕ}
    (hp : place < (s.nodes i).inbox.length) (h : s.receive i place = .ok u) : s.Moves i u := by
  have hlen : ((s.nodes i).inbox.eraseIdx place).length < (s.nodes i).inbox.length := by
    rw [List.length_eraseIdx_of_lt hp]
    omega
  unfold receive at h
  simp only [List.getElem?_eq_getElem hp] at h
  obtain ⟨⟨peerId, multiAddr⟩, -, h⟩ := bind_eq_ok.mp h
  simp only [pure_eq_ok] at h
  split_ifs at h
  · cases h
    exact moves_take rfl rfl rfl (Nat.add_lt_add_right hlen _)
  · cases h
    exact moves_of_nodes rfl hi .collected rfl rfl rfl rfl
  · cases h
    exact moves_take rfl rfl rfl (Nat.add_lt_add_right hlen _)

theorem receive_of_le {place : ℕ} (hp : (s.nodes i).inbox.length ≤ place) :
    s.receive i place = .ok s := by
  unfold receive
  simp only [List.getElem?_eq_none hp]
  rfl

theorem step_next (hfailed : (s.nodes i).failed = false) :
    s.step (.next i) = .ok (s.next i, ()) := by
  simp only [step, hfailed]
  rfl

/-! ## What a step leaves alone -/

/-- No node publishes a video, and none goes back. -/
def Keeps (s u : Exchange net) : Prop :=
  ∀ j, (u.nodes j).videos = (s.nodes j).videos ∧ s.ranks j ≤ u.ranks j

theorem Keeps.refl (s : Exchange net) : s.Keeps s := fun _ => ⟨rfl, le_rfl⟩

theorem Moves.keeps (h : s.Moves i u) : s.Keeps u := by
  refine fun j => ⟨h.videos j, ?_⟩
  rcases h.ahead with hranks | ⟨hranks, -⟩
  · rw [hranks]
    exact le_update (Nat.le_add_right (s.ranks i) 1) j
  · rw [hranks]

theorem keeps_step {action : Action n} (h : s.step action = .ok (u, ()))
    (hticks : ∀ i, action = .next i → ¬ (s.nodes i).failed →
      ¬ (isStreamer i ∧ (s.nodes i).stage = .live)) : s.Keeps u := by
  cases action with
  | subscribe i replayed =>
    simp only [step] at h
    split_ifs at h with hcan
    · cases h
      exact (moves_subscribe hcan.2.1 replayed).keeps
    · cases h
      exact Keeps.refl s
  | next i =>
    simp only [step] at h
    split_ifs at h with hfailed
    · cases h
      exact Keeps.refl s
    · cases h
      rcases s.next_cases i with ⟨heq, -⟩ | hmoves | htick
      · rw [heq]
        exact Keeps.refl s
      · exact hmoves.keeps
      · exact absurd htick (hticks i rfl hfailed)
  | receive i place =>
    simp only [step] at h
    split_ifs at h with hcan
    · obtain ⟨t, ht, h⟩ := bind_eq_ok.mp h
      cases h
      rcases Nat.lt_or_ge place (s.nodes i).inbox.length with hp | hp
      · exact (moves_receive hcan.2 hp ht).keeps
      · rw [receive_of_le hp] at ht
        cases ht
        exact Keeps.refl s
    · cases h
      exact Keeps.refl s
  | fail i =>
    cases h
    intro j
    refine ⟨field_setNode Node.videos (by rfl) j, ?_⟩
    rw [ranks_setNode]
    exact le_update le_rfl j

/-- A tick of the streamer's interval. -/
theorem step_tick (hi : isStreamer i) (hfailed : ¬ (s.nodes i).failed)
    (hstage : (s.nodes i).stage = .live) :
    s.step (.next i) =
      .ok (s.setNode i { s.nodes i with videos := (s.nodes i).videos + 1 }, ()) := by
  simp only [step, next, hstage]
  rw [if_neg hfailed, if_pos hi]
  rfl

end Exchange

/-! ## The runs in which all viewers listen -/

section

variable {s u : Exchange net}

theorem Exchange.Listening.of_keeps (h : s.Listening) (hk : s.Keeps u) : u.Listening := by
  intro i j hi hj hvideos
  rw [(hk i).1] at hvideos
  exact (h i j hi hj hvideos).trans (hk j).2

/-- A viewer that is not live when the streamer is behind the last barrier is still at the barrier,
    or between it and its `subscribe`. -/
theorem Exchanging.past_live_iff (h : Exchanging s) {i : Fin n} (hi : (s.nodes i).stage = .live)
    (j : Fin n) : (s.nodes j).Past .live ↔
      (s.nodes j).stage ≠ .bootstrapSignalled ∧ (s.nodes j).stage ≠ .bootstrapPassed := by
  have hj : Stage.bootstrapSignalled.rank ≤ (s.nodes j).stage.rank := by
    refine h.sound.signalled .bootstrap i ?_ j
    unfold Exchange.ranks
    rw [hi]
    decide
  unfold Node.Past
  cases hstage : (s.nodes j).stage <;> rw [hstage] at hj <;> revert hj <;> decide

theorem Exchanging.listening_step (hlaw : net.Lawful) (h : Exchanging s) (hl : s.Listening)
    {action : Action n} (hP : s.TicksLast action) :
    ∃ u, s.step action = .ok (u, ()) ∧ Exchanging u ∧ u.Listening := by
  obtain ⟨u, hu, hu'⟩ := h.step hlaw action
  refine ⟨u, hu, hu', ?_⟩
  by_cases htick : ∃ i, action = .next i ∧ ¬ (s.nodes i).failed ∧
      isStreamer i ∧ (s.nodes i).stage = .live
  · obtain ⟨i, rfl, hfailed, hi, hstage⟩ := htick
    rw [Exchange.step_tick hi hfailed hstage] at hu
    cases hu
    intro i' j _ hj _
    have hji : j ≠ i := fun hji => hj (hji ▸ hi)
    rw [Exchange.setNode_of_ne hji]
    exact (h.past_live_iff hstage j).mpr (hP hi hfailed hstage j hj)
  · refine hl.of_keeps (Exchange.keeps_step hu fun i hi hfailed hlive => ?_)
    exact htick ⟨i, hi, hfailed, hlive⟩

/-- A tick while a viewer does not listen yet. -/
theorem Exchange.not_listening_of_tick {action : Action n} (hP : ¬ s.TicksLast action)
    (hu : s.step action = .ok (u, ())) : ¬ u.Listening := by
  cases action with
  | next i =>
    unfold Exchange.TicksLast at hP
    push Not at hP
    obtain ⟨hi, hfailed, hstage, j, hj, hlate⟩ := hP
    rw [Exchange.step_tick hi (by simpa using hfailed) hstage] at hu
    cases hu
    intro hl
    have hji : j ≠ i := fun hji => hj (hji ▸ hi)
    have hlive := hl i j hi hj (by rw [Exchange.setNode_self]; exact Nat.succ_pos _)
    rw [Exchange.setNode_of_ne hji] at hlive
    unfold Node.Past at hlive
    by_cases hsig : (s.nodes j).stage = .bootstrapSignalled
    · rw [hsig] at hlive
      exact absurd hlive (by decide)
    · rw [hlate hsig] at hlive
      exact absurd hlive (by decide)
  | subscribe | receive | fail => exact absurd trivial hP

theorem listening_iff_meets (hlaw : net.Lawful) (actions : List (Action n)) :
    (∀ pre, pre <+: actions → ∀ s tr,
        Machine.run Exchange.step (Exchange.new : Exchange net) pre = .ok (s, tr) → s.Listening) ↔
      Machine.Meets Exchange.step Exchange.TicksLast (Exchange.new : Exchange net) actions := by
  refine Machine.forall_prefix_iff_meets (fun _ => True)
    (fun s _ => Exchanging s ∧ s.Listening) (fun _ _ _ => trivial) ?_ ?_ ?_ ?_ trivial
  · refine ⟨Exchanging.new, ?_⟩
    intro i j _ _ hvideos
    exact absurd hvideos (lt_irrefl 0)
  · intro s tr action h _ hP
    obtain ⟨u, hu, hu', hl⟩ := h.1.listening_step hlaw h.2 hP
    exact ⟨u, (), hu, hu', hl⟩
  · intro is s tr hrun h s' tr' hrun'
    rw [hrun] at hrun'
    cases hrun'
    exact h.2
  · intro is s tr action hrun h _ hP hgood
    obtain ⟨u, hu, -⟩ := h.1.step hlaw action
    refine Exchange.not_listening_of_tick hP hu (hgood u (tr ++ [(action, ())]) ?_)
    exact Machine.run_concat_eq_ok.mpr ⟨s, tr, (), hrun, hu, rfl⟩

end

/-! ## A run to the last barrier -/

namespace Exchange

variable {s u : Exchange net} {i : Fin n}

/-- No node has failed, and none is behind the last barrier. -/
def Early (s : Exchange net) : Prop :=
  ∀ i, (s.nodes i).failed = false ∧ s.ranks i ≤ Stage.bootstrapSignalled.rank

/-- All nodes have signalled `BOOTSTRAP_STATE`, and none has gone on. -/
def AtLastBarrier (s : Exchange net) : Prop := ∀ i, (s.nodes i).stage = .bootstrapSignalled

/-- What the nodes have still to do before they have all signalled `BOOTSTRAP_STATE`: stages to come
    to first, and then what is pending. -/
def load (s : Exchange net) : ℕ × ℕ :=
  (∑ i, (Stage.bootstrapSignalled.rank - s.ranks i), s.pending)

theorem Moves.ranks_le (h : s.Moves i u) {r : ℕ} (hi : s.ranks i < r) (hle : ∀ j, s.ranks j ≤ r)
    (j : Fin n) : u.ranks j ≤ r := by
  rcases h.ahead with hranks | ⟨hranks, -⟩
  · rw [hranks]
    rcases eq_or_ne j i with rfl | hj
    · rw [Function.update_self]
      exact hi
    · rw [Function.update_of_ne hj]
      exact hle j
  · rw [hranks]
    exact hle j

theorem Moves.load_lt (h : s.Moves i u) (hi : s.ranks i < Stage.bootstrapSignalled.rank) :
    Prod.Lex (· < ·) (· < ·) u.load s.load := by
  unfold load
  rcases h.ahead with hranks | ⟨hranks, hlt⟩
  · refine .left _ _ (Finset.sum_lt_sum (fun j _ => ?_) ⟨i, Finset.mem_univ i, ?_⟩)
    · exact Nat.sub_le_sub_left (h.keeps j).2 _
    · rw [hranks, Function.update_self]
      omega
  · rw [hranks]
    exact .right _ hlt

end Exchange

namespace Exchanging

variable {s : Exchange net} {i : Fin n}

/-- A barrier that all nodes have signalled is open. -/
theorem le_signals (h : Exchanging s) (state : SyncState)
    (hall : ∀ j, state.signalled.rank ≤ s.ranks j) : n ≤ s.signals state := by
  have hcard := (h.sound.card_le_iff state).mpr hall
  rwa [Fintype.card_fin] at hcard

/-- While a node collects and all have published, its inbox is not empty. -/
theorem inbox_ne_nil (h : Exchanging s) (hn : 2 ≤ n) (hi : (s.nodes i).stage = .collecting)
    (hall : ∀ j, (s.nodes j).Past .published) : (s.nodes i).inbox ≠ [] := by
  obtain ⟨pending, seen, hc⟩ := (h.node i).collects
  intro hnil
  rw [hc.inbox, List.map_eq_nil_iff] at hnil
  have hlen := hc.length_of_all hnil (reached_eq_univ.mpr hall)
  have := (h.node i).waits hn (by unfold Node.Past; rw [hi]; decide)
  omega

/-- The node that is furthest behind can move, unless all have come to the last barrier. -/
theorem moves (h : Exchanging s) (hlaw : net.Lawful) (hn : 2 ≤ n)
    (hfailed : (s.nodes i).failed = false) (hmin : ∀ j, s.ranks i ≤ s.ranks j)
    (hlt : s.ranks i < Stage.bootstrapSignalled.rank) :
    ∃ action u, s.step action = .ok (u, ()) ∧ s.Moves i u := by
  have hnotLive : (s.nodes i).stage ≠ .live := by
    intro hi
    unfold Exchange.ranks at hlt
    rw [hi] at hlt
    exact absurd hlt (by decide)
  rcases s.next_cases i with ⟨-, hwaits⟩ | hmoves | ⟨-, hi⟩
  · rcases hwaits with hi | hi | hi | ⟨state, hnext, hclosed⟩
    · have hsub : s.step (.subscribe i []) =
          .ok (s.setNode i { s.nodes i with stage := .subscribed, inbox := [] }, ()) :=
        if_pos ⟨by rw [hfailed]; decide, hi, List.nil_sublist _⟩
      exact ⟨_, _, hsub, Exchange.moves_subscribe hi []⟩
    · -- all have published, so that a message is in the inbox
      have hall : ∀ j, (s.nodes j).Past .published := by
        intro j
        refine le_trans ?_ (hmin j)
        unfold Exchange.ranks
        rw [hi]
        decide
      have hne := h.inbox_ne_nil hn hi hall
      obtain ⟨u, hu, -⟩ := h.receive hlaw hi 0
      refine ⟨.receive i 0, u, ?_, Exchange.moves_receive hi (List.length_pos_of_ne_nil hne) hu⟩
      simp only [Exchange.step, hfailed, hi, hu]
      rfl
    · exact absurd hi hnotLive
    · -- all have come as far, and so have signalled
      have hall : ∀ j, state.signalled.rank ≤ s.ranks j := by
        intro j
        refine le_trans ?_ (hmin j)
        have hsignalled : state.signalled.rank < state.passed.rank := by cases state <;> decide
        rw [← hnext] at hsignalled
        exact Nat.le_of_lt_succ hsignalled
      exact absurd (h.le_signals state hall) (Nat.not_le_of_lt hclosed)
  · exact ⟨.next i, s.next i, Exchange.step_next hfailed, hmoves⟩
  · exact absurd hi hnotLive

/-- As long as no node has failed and none is behind the last barrier, some step gets the nodes
    nearer to it. -/
theorem progress (hlaw : net.Lawful) (hn : 2 ≤ n) (h : Exchanging s) (hearly : s.Early)
    (hnot : ¬ s.AtLastBarrier) :
    ∃ action u o, s.step action = .ok (u, o) ∧ (Exchanging u ∧ u.Early) ∧
      Prod.Lex (· < ·) (· < ·) u.load s.load := by
  have : NeZero n := ⟨by omega⟩
  obtain ⟨i, -, hmin⟩ := Finset.exists_min_image Finset.univ s.ranks Finset.univ_nonempty
  replace hmin : ∀ j, s.ranks i ≤ s.ranks j := fun j => hmin j (Finset.mem_univ j)
  have hlt : s.ranks i < Stage.bootstrapSignalled.rank := by
    by_contra hge
    refine hnot fun j => Stage.rank_inj.mp (le_antisymm (hearly j).2 ?_)
    exact (Nat.le_of_not_lt hge).trans (hmin j)
  obtain ⟨action, u, hu, hmoves⟩ :=
    h.moves hlaw hn (hearly i).1 hmin hlt
  obtain ⟨u', hu', h'⟩ := h.step hlaw action
  rw [hu] at hu'
  cases hu'
  refine ⟨action, u, (), hu, ⟨h', fun j => ⟨?_, ?_⟩⟩, hmoves.load_lt hlt⟩
  · rw [hmoves.failed j]
    exact (hearly j).1
  · exact hmoves.ranks_le hlt (fun j => (hearly j).2) j

/-- Some run gets all nodes to the last barrier, before any of them goes on. -/
theorem exists_run_to_barrier (hlaw : net.Lawful) (hn : 2 ≤ n) :
    ∃ actions s tr, Machine.run Exchange.step (Exchange.new : Exchange net) actions = .ok (s, tr) ∧
      (Exchanging s ∧ s.Early) ∧ s.AtLastBarrier := by
  refine Machine.exists_run_of_progress (WellFounded.prod_lex wellFounded_lt wellFounded_lt)
    Exchange.load (fun s h hnot => h.1.progress hlaw hn h.2 hnot) ⟨new, fun i => ⟨rfl, ?_⟩⟩
  exact Nat.zero_le _

/-- From there the streamer goes on to its first tick, while all viewers stay where they are. -/
theorem run_streamer (h : Exchanging s) (hearly : s.Early) (hat : s.AtLastBarrier)
    (hi : isStreamer i) :
    ∃ u tr, Machine.run Exchange.step s [.next i, .next i, .next i] = .ok (u, tr) ∧
      0 < (u.nodes i).videos ∧ ∀ j, j ≠ i → (u.nodes j).stage = .bootstrapSignalled := by
  have hopen : n ≤ s.signals .bootstrap := by
    refine h.le_signals .bootstrap fun j => ?_
    unfold Exchange.ranks
    rw [hat j]
    rfl
  let s₁ := s.setNode i { s.nodes i with stage := .bootstrapPassed }
  let s₂ := s₁.setNode i { s₁.nodes i with stage := .live }
  let u := s₂.setNode i { s₂.nodes i with videos := (s₂.nodes i).videos + 1 }
  have hpass : s.step (.next i) = .ok (s₁, ()) := by
    rw [Exchange.step_next (hearly i).1]
    simp only [Exchange.next, hat i, Exchange.barrier_of_le hopen]
    rfl
  have hlive : s₁.step (.next i) = .ok (s₂, ()) := by
    have hfailed : (s₁.nodes i).failed = false := by
      rw [Exchange.setNode_self]
      exact (hearly i).1
    have hstage : (s₁.nodes i).stage = .bootstrapPassed := by rw [Exchange.setNode_self]
    rw [Exchange.step_next hfailed]
    simp only [Exchange.next, hstage]
    rfl
  have htick : s₂.step (.next i) = .ok (u, ()) := by
    refine Exchange.step_tick hi ?_ ?_
    · rw [Exchange.setNode_self, Exchange.setNode_self, (hearly i).1]
      decide
    · rw [Exchange.setNode_self]
  refine ⟨u, _, Machine.run_cons_eq_ok.mpr ⟨s₁, (), _, hpass, Machine.run_cons_eq_ok.mpr
    ⟨s₂, (), _, hlive, Machine.run_cons_eq_ok.mpr ⟨u, (), [], htick, rfl, rfl⟩, rfl⟩, rfl⟩, ?_, ?_⟩
  · rw [Exchange.setNode_self]
    exact Nat.succ_pos _
  · intro j hj
    rw [Exchange.setNode_of_ne hj, Exchange.setNode_of_ne hj, Exchange.setNode_of_ne hj]
    exact hat j

/-- For any number of nodes the streamer can publish before a viewer listens. -/
theorem exists_run_not_listening (hlaw : net.Lawful) (hn : 2 ≤ n) :
    ∃ actions s tr, Machine.run Exchange.step (Exchange.new : Exchange net) actions = .ok (s, tr) ∧
      ¬ s.Listening := by
  obtain ⟨actions, s, tr, hrun, ⟨h, hearly⟩, hat⟩ := exists_run_to_barrier hlaw hn
  have hi : isStreamer (⟨0, by omega⟩ : Fin n) := rfl
  have hj : ¬ isStreamer (⟨1, by omega⟩ : Fin n) := by
    unfold isStreamer simId
    simp
  obtain ⟨u, tr', hrun', hvideos, hstay⟩ := h.run_streamer hearly hat hi
  refine ⟨actions ++ _, u, tr ++ tr', Machine.run_append hrun hrun', fun hl => ?_⟩
  have hlive := hl _ _ hi hj hvideos
  unfold Node.Past at hlive
  rw [hstay _ (by simp)] at hlive
  exact absurd hlive (by decide)

end Exchanging

/-- A run in which the streamer never publishes before a viewer listens is one in which no viewer is
    still at the last barrier, or between it and its `subscribe`, when the interval of the streamer
    ticks. That is left to the schedule: for any number of nodes other runs exist. -/
theorem listening_iff (hlaw : net.Lawful) (hn : 2 ≤ n) :
    (∀ actions : List (Action n),
      (∀ pre, pre <+: actions → ∀ s tr,
          Machine.run Exchange.step (Exchange.new : Exchange net) pre = .ok (s, tr) →
            s.Listening) ↔
        Machine.Meets Exchange.step Exchange.TicksLast (Exchange.new : Exchange net) actions) ∧
    ∃ actions s tr, Machine.run Exchange.step (Exchange.new : Exchange net) actions = .ok (s, tr) ∧
      ¬ s.Listening :=
  ⟨listening_iff_meets hlaw, Exchanging.exists_run_not_listening hlaw hn⟩

/-- `listening_iff` for two nodes, and a run in which the viewer goes on first. -/
theorem listening_iff_pair :
    (∀ pre, pre <+: pairRun ++ [.next 1, .next 1, .next 0, .next 0] → ∀ s tr,
        Machine.run Exchange.step (Exchange.new : Exchange pairNet) pre = .ok (s, tr) →
          s.Listening) ∧
      ∃ actions s tr,
        Machine.run Exchange.step (Exchange.new : Exchange pairNet) actions = .ok (s, tr) ∧
          ¬ s.Listening := by
  obtain ⟨hiff, hrun⟩ := listening_iff pairNet_lawful le_rfl
  exact ⟨(hiff _).mpr (by decide +kernel), hrun⟩

/-- Two nodes at the last barrier: the streamer goes on, subscribes and publishes, and the viewer is
    still at the barrier. -/
theorem not_listening_pair :
    ¬ ∀ actions s tr,
      Machine.run Exchange.step (Exchange.new : Exchange pairNet) actions = .ok (s, tr) →
        s.Listening := by
  intro h
  have hrun : ((Machine.run Exchange.step (Exchange.new : Exchange pairNet)
      (pairRun ++ [.next 0, .next 0])).toOption.map fun r =>
        ((r.1.nodes 0).videos, (r.1.nodes 1).stage)) = some (1, .bootstrapSignalled) := by
    decide +kernel
  cases hr : Machine.run Exchange.step (Exchange.new : Exchange pairNet)
      (pairRun ++ [.next 0, .next 0]) with
  | error e =>
    rw [hr] at hrun
    cases hrun
  | ok r =>
    rw [hr] at hrun
    obtain ⟨hvideos, hstage⟩ := Prod.mk.inj (Option.some_inj.mp hrun)
    have hpos : 0 < (r.1.nodes 0).videos := Nat.lt_of_lt_of_eq Nat.one_pos hvideos.symm
    have hlive := h _ r.1 r.2 hr 0 1 (by decide) (by decide) hpos
    unfold Node.Past at hlive
    rw [hstage] at hlive
    exact absurd hlive (by decide)

end LiveTest
