import LiveTest.AddressExchange.Basic
import LiveTest.Barriers
import LiveTest.Machine
import Mathlib.Data.List.Perm.Basic

/-!
# The exchange of the addresses

The barriers of testground are counting barriers over the stages of the nodes.
With them, what a node has received is at every moment a part of what was
published, each message once.

* `Exchanging.step`: no step panics, and every step keeps the invariant.
* `exchange_complete`: in every run, each node that has left its collection
  loop holds the pairs of all the other nodes, and behind the last barrier
  every node has dialled every other one.
-/

namespace LiveTest

open Rust Barriers

/-- The first stage behind the barrier of the state. -/
def SyncState.passed : SyncState → Stage
  | .init => .initPassed
  | .net => .dialing
  | .bootstrap => .bootstrapPassed

theorem Stage.rank_inj {a b : Stage} : a.rank = b.rank ↔ a = b := by
  cases a <;> cases b <;> decide

theorem SyncState.signalled_inj {a b : SyncState} : a.signalled = b.signalled ↔ a = b := by
  cases a <;> cases b <;> decide

namespace Net

variable {n : ℕ} {net : Net n}

theorem parsePayload_payload (h : net.Lawful) (i : Fin n) :
    net.parsePayload (net.payload i) = .ok (net.localPeerId i, net.localMultiAddr i) := by
  unfold parsePayload payload
  rw [List.splitOn_intercalate ' ' _ (by simp)]
  · simp [index, unwrap, h.parse_toBase58, h.parse_addrToString]
  · simp [h.blank_toBase58, h.blank_addrToString]

/-- The pair that the other nodes are to hold of node `i`. -/
def pair (net : Net n) (i : Fin n) : net.PeerId × net.Multiaddr :=
  (net.localPeerId i, net.localMultiAddr i)

end Net

variable {n : ℕ} {net : Net n}

/-- Of the nodes that have published, the messages of the `pending` ones are in the inbox and the
    stream has yielded those of the `seen` ones, in this order. -/
structure Node.Collects (node : Node net) (i : Fin n) (published : Finset (Fin n))
    (pending seen : List (Fin n)) : Prop where
  inbox : node.inbox = pending.map net.payload
  peerIds : node.peerIds = (seen.filter (· ≠ i)).map net.localPeerId
  addresses : node.addresses = (seen.filter (· ≠ i)).map net.localMultiAddr
  perm : (pending ++ seen).Perm published.toList

/-- The invariant of node `i`. -/
structure Node.Exchanging (node : Node net) (i : Fin n) (published : Finset (Fin n)) : Prop where
  collects : ∃ pending seen, node.Collects i published pending seen
  waits : 2 ≤ n → ¬ node.Past .collected → node.peerIds.length + 1 < n
  filled : node.Past .collected → n ≤ node.peerIds.length + 1
  undialled : ¬ node.Past .dialing → node.dials = []
  dialled : node.Past .dialing → node.dials ++ node.remaining.map Prod.snd = node.addresses
  finished : node.Past .bootstrapSignalled → node.remaining = []

namespace Exchange

/-- The positions of the nodes on their way. -/
def ranks (s : Exchange net) (i : Fin n) : ℕ := (s.nodes i).stage.rank

/-- The nodes that have published. -/
def published (s : Exchange net) : Finset (Fin n) := reached s.ranks Stage.published.rank

end Exchange

/-- The invariant of the exchange. -/
structure Exchanging (s : Exchange net) : Prop where
  sound : Sound (fun state => state.signalled.rank) (fun state => state.passed.rank) s.ranks s.signals
  log : s.log ≠ [] → s.published.Nonempty
  node : ∀ i, (s.nodes i).Exchanging i s.published

/-! ## One node -/

namespace Node

variable {node : Node net} {i : Fin n} {published : Finset (Fin n)} {pending seen : List (Fin n)}

theorem Collects.congr {node' : Node net} (h : node.Collects i published pending seen)
    (hinbox : node'.inbox = node.inbox) (hids : node'.peerIds = node.peerIds)
    (haddrs : node'.addresses = node.addresses) : node'.Collects i published pending seen where
  inbox := by rw [hinbox, h.inbox]
  peerIds := by rw [hids, h.peerIds]
  addresses := by rw [haddrs, h.addresses]
  perm := h.perm

theorem Collects.length_eq (h : node.Collects i published pending seen) :
    node.peerIds.length = node.addresses.length := by
  rw [h.peerIds, h.addresses, List.length_map, List.length_map]

/-- With the messages of all nodes a node has the pairs of all the others. -/
theorem Collects.length_of_all (h : node.Collects i published pending seen) (hnil : pending = [])
    (hall : published = Finset.univ) : node.peerIds.length + 1 = n := by
  have hperm := h.perm
  rw [hnil, List.nil_append] at hperm
  have hnodup : seen.Nodup := hperm.nodup_iff.mpr published.nodup_toList
  have hmem : i ∈ seen := by
    rw [hperm.mem_iff, Finset.mem_toList, hall]
    exact Finset.mem_univ i
  have hlen : seen.length = n := by
    rw [hperm.length_eq, Finset.length_toList, hall, Finset.card_univ, Fintype.card_fin]
  have hpos : 0 < seen.length := List.length_pos_of_mem hmem
  have hfilter : seen.filter (· ≠ i) = seen.erase i := by
    rw [hnodup.erase_eq_filter]
    exact List.filter_congr fun j _ => by simp [bne, beq_eq_decide]
  rw [h.peerIds, List.length_map, hfilter, List.length_erase_of_mem hmem]
  omega

/-- A message of a new node is put behind those in the inbox. -/
theorem Collects.deliver (h : node.Collects i published pending seen) {j : Fin n}
    (hj : j ∉ published) (hsub : node.Past .subscribed) :
    (node.deliver (net.payload j)).Collects i (insert j published) (pending ++ [j]) seen := by
  unfold Node.deliver
  rw [if_pos hsub]
  refine ⟨by simp [h.inbox], h.peerIds, h.addresses, ?_⟩
  calc pending ++ [j] ++ seen
      = pending ++ j :: seen := by simp
    _ |>.Perm (j :: (pending ++ seen)) := List.perm_middle
    _ |>.Perm (j :: published.toList) := h.perm.cons j
    _ |>.Perm (insert j published).toList := (Finset.toList_insert hj).symm

/-- The stream yields the message of a node, whose pair is taken over unless it is the own one. -/
theorem Collects.yield (h : node.Collects i published pending seen) {place : ℕ} {payload : Payload}
    (hp : node.inbox[place]? = some payload) :
    ∃ j, payload = net.payload j ∧ ∀ node' : Node net,
      node'.inbox = node.inbox.eraseIdx place →
      node'.peerIds = node.peerIds ++ (if j = i then [] else [net.localPeerId j]) →
      node'.addresses = node.addresses ++ (if j = i then [] else [net.localMultiAddr j]) →
      node'.Collects i published (pending.eraseIdx place) (seen ++ [j]) := by
  rw [h.inbox, List.getElem?_map, Option.map_eq_some_iff] at hp
  obtain ⟨j, hj, hpayload⟩ := hp
  obtain ⟨hlt, hget⟩ := List.getElem?_eq_some_iff.mp hj
  refine ⟨j, hpayload.symm, fun node' hinbox hids haddrs => ⟨?_, ?_, ?_, ?_⟩⟩
  · rw [hinbox, h.inbox, List.eraseIdx_map]
  · rw [hids, h.peerIds]
    by_cases hji : j = i <;> simp [hji]
  · rw [haddrs, h.addresses]
    by_cases hji : j = i <;> simp [hji]
  · have herase : (j :: pending.eraseIdx place).Perm pending := by
      rw [← hget]
      exact List.getElem_cons_eraseIdx_perm hlt
    calc pending.eraseIdx place ++ (seen ++ [j])
        = (pending.eraseIdx place ++ seen) ++ [j] := by rw [List.append_assoc]
      _ |>.Perm (j :: (pending.eraseIdx place ++ seen)) := List.perm_append_singleton j _
      _ |>.Perm (pending ++ seen) := herase.append_right seen
      _ |>.Perm published.toList := h.perm

/-- A node that holds as many pairs as there are other nodes holds those of all of them. -/
theorem Collects.zip_perm (h : node.Collects i published pending seen)
    (hlen : n ≤ node.peerIds.length + 1) :
    (node.peerIds.zip node.addresses).Perm (((List.finRange n).erase i).map net.pair) := by
  rw [h.peerIds, h.addresses, List.zip_map']
  refine List.Perm.map _ ?_
  have hnodup : seen.Nodup := by
    have := h.perm.nodup_iff.mpr published.nodup_toList
    exact (List.nodup_append.mp this).2.1
  have hsub : seen.filter (· ≠ i) ⊆ (List.finRange n).erase i := by
    intro j hj
    have hne : j ≠ i := by simpa using (List.mem_filter.mp hj).2
    exact (List.mem_erase_of_ne hne).mpr (List.mem_finRange j)
  refine (List.subperm_of_subset (hnodup.filter _) hsub).perm_of_length_le ?_
  rw [List.length_erase_of_mem (List.mem_finRange i), List.length_finRange]
  rw [h.peerIds, List.length_map] at hlen
  omega

/-- What the invariant says of a node depends only on its lists and on how far it has come. -/
theorem Exchanging.restage (h : node.Exchanging i published) {old : Stage}
    (hold : node.stage = old) (stage : Stage) (failed : Bool) (videos : ℕ)
    (hcol : Stage.collected.rank ≤ stage.rank ↔ Stage.collected.rank ≤ old.rank)
    (hdial : Stage.dialing.rank ≤ stage.rank ↔ Stage.dialing.rank ≤ old.rank)
    (hfin : Stage.bootstrapSignalled.rank ≤ stage.rank → node.remaining = []) :
    { node with stage, failed, videos }.Exchanging i published := by
  subst hold
  exact
    { collects := by
        obtain ⟨pending, seen, hc⟩ := h.collects
        exact ⟨pending, seen, hc.congr rfl rfl rfl⟩
      waits := fun hn hlt => h.waits hn (mt hcol.mpr hlt)
      filled := fun hle => h.filled (hcol.mp hle)
      undialled := fun hlt => h.undialled (mt hdial.mpr hlt)
      dialled := fun hle => h.dialled (hdial.mp hle)
      finished := hfin }

/-- From one stage to another, with the same of the lists filled and emptied. -/
theorem Exchanging.withStage (h : node.Exchanging i published) {old : Stage}
    (hold : node.stage = old) (stage : Stage) (failed : Bool) (videos : ℕ)
    (hcol : Stage.collected.rank ≤ stage.rank ↔ Stage.collected.rank ≤ old.rank)
    (hdial : Stage.dialing.rank ≤ stage.rank ↔ Stage.dialing.rank ≤ old.rank)
    (hboot : Stage.bootstrapSignalled.rank ≤ stage.rank → Stage.bootstrapSignalled.rank ≤ old.rank) :
    { node with stage, failed, videos }.Exchanging i published := by
  refine h.restage hold stage failed videos hcol hdial fun hle => h.finished ?_
  unfold Past
  rw [hold]
  exact hboot hle

/-- In the collection loop, or where it is left. -/
theorem Exchanging.collect (h : node.Exchanging i published) {node' : Node net}
    (hstage : ¬ node.Past .dialing) (hstage' : ¬ node'.Past .dialing)
    (hcollects : ∃ pending seen, node'.Collects i published pending seen)
    (hdials : node'.dials = node.dials)
    (hwaits : 2 ≤ n → ¬ node'.Past .collected → node'.peerIds.length + 1 < n)
    (hfilled : node'.Past .collected → n ≤ node'.peerIds.length + 1) :
    node'.Exchanging i published where
  collects := hcollects
  waits := hwaits
  filled := hfilled
  undialled _ := by rw [hdials, h.undialled hstage]
  dialled hle := absurd hle hstage'
  finished hle := by
    unfold Past at hstage' hle
    simp only [Stage.rank] at hstage' hle
    omega

/-- The zipped iterator of the `for` loop. -/
theorem Exchanging.startDialing (h : node.Exchanging i published)
    (hstage : node.stage = .collected) :
    { node with
      stage := .dialing
      remaining := node.peerIds.zip node.addresses }.Exchanging i published where
  collects := by
    obtain ⟨pending, seen, hc⟩ := h.collects
    exact ⟨pending, seen, hc.congr rfl rfl rfl⟩
  waits _ hlt := absurd (by decide : Stage.collected.rank ≤ Stage.dialing.rank) hlt
  filled _ := h.filled (by unfold Past; rw [hstage])
  undialled hlt := absurd (le_refl Stage.dialing.rank) hlt
  dialled _ := by
    obtain ⟨pending, seen, hc⟩ := h.collects
    have hlen := hc.length_eq
    have hnil : node.dials = [] := h.undialled (by unfold Past; rw [hstage]; decide)
    show node.dials ++ (node.peerIds.zip node.addresses).map Prod.snd = node.addresses
    rw [hnil, List.nil_append, List.map_snd_zip hlen.ge]
  finished hle := absurd hle (show ¬ Stage.bootstrapSignalled.rank ≤ Stage.dialing.rank by decide)

theorem Exchanging.dial (h : node.Exchanging i published) (hstage : node.stage = .dialing)
    {p : net.PeerId × net.Multiaddr} {remaining : List (net.PeerId × net.Multiaddr)}
    (hr : node.remaining = p :: remaining) :
    { node with
      stage := .dialing
      remaining
      dials := node.dials ++ [p.2] }.Exchanging i published where
  collects := by
    obtain ⟨pending, seen, hc⟩ := h.collects
    exact ⟨pending, seen, hc.congr rfl rfl rfl⟩
  waits _ hlt := absurd (by decide : Stage.collected.rank ≤ Stage.dialing.rank) hlt
  filled _ := h.filled (by unfold Past; rw [hstage]; decide)
  undialled hlt := absurd (le_refl Stage.dialing.rank) hlt
  dialled _ := by
    have hall := h.dialled (by unfold Past; rw [hstage])
    rw [hr, List.map_cons] at hall
    show node.dials ++ [p.2] ++ remaining.map Prod.snd = node.addresses
    rw [List.append_assoc, List.singleton_append, hall]
  finished hle := absurd hle (show ¬ Stage.bootstrapSignalled.rank ≤ Stage.dialing.rank by decide)

/-- A delivery changes only the inbox. -/
theorem field_deliver {α : Type} (field : Node net → α) (payload : Payload)
    (h : ∀ inbox, field { node with inbox } = field node) :
    field (node.deliver payload) = field node := by
  unfold Node.deliver
  split_ifs
  · exact h _
  · rfl

theorem Exchanging.deliver (h : node.Exchanging i published) {j : Fin n} (hj : j ∉ published)
    (hsub : node.Past .subscribed) :
    (node.deliver (net.payload j)).Exchanging i (insert j published) where
  collects := by
    obtain ⟨pending, seen, hc⟩ := h.collects
    exact ⟨pending ++ [j], seen, hc.deliver hj hsub⟩
  waits := by unfold Node.deliver; rw [if_pos hsub]; exact h.waits
  filled := by unfold Node.deliver; rw [if_pos hsub]; exact h.filled
  undialled := by unfold Node.deliver; rw [if_pos hsub]; exact h.undialled
  dialled := by unfold Node.deliver; rw [if_pos hsub]; exact h.dialled
  finished := by unfold Node.deliver; rw [if_pos hsub]; exact h.finished

end Node

/-! ## One step -/

namespace Exchange

theorem ranks_setNode (s : Exchange net) (i : Fin n) (node : Node net) :
    (s.setNode i node).ranks = Function.update s.ranks i node.stage.rank := by
  funext j
  unfold ranks setNode
  rcases eq_or_ne j i with rfl | hj
  · simp
  · simp [hj]

theorem ranks_publish (s : Exchange net) (i : Fin n) :
    (s.publish i).ranks = Function.update s.ranks i Stage.published.rank := by
  rw [← s.ranks_setNode i { s.nodes i with stage := .published }]
  funext j
  exact congrArg Stage.rank (Node.field_deliver Node.stage _ fun _ => rfl)

theorem mem_published {s : Exchange net} {i : Fin n} :
    i ∈ s.published ↔ (s.nodes i).Past .published := mem_reached

end Exchange

namespace Exchanging

variable {s : Exchange net} {i : Fin n} {node : Node net}

/-- Node `i` goes on as `node`, and does not publish. -/
theorem goOn (h : Exchanging s) (signals : SyncState → ℕ)
    (hle : (s.nodes i).stage.rank ≤ node.stage.rank)
    (hpub : node.Past .published → (s.nodes i).Past .published)
    (hcount : ∀ state, signals state = s.signals state +
      if (s.nodes i).stage.rank < state.signalled.rank ∧ state.signalled.rank ≤ node.stage.rank
      then 1 else 0)
    (hopen : ∀ state, state.passed.rank ≤ node.stage.rank →
      state.passed.rank ≤ (s.nodes i).stage.rank ∨ n ≤ s.signals state)
    (hnode : node.Exchanging i s.published) :
    Exchanging { s.setNode i node with signals } := by
  have hranks : Exchange.ranks { s.setNode i node with signals } =
      Function.update s.ranks i node.stage.rank := s.ranks_setNode i node
  have hpublished : Exchange.published { s.setNode i node with signals } = s.published := by
    unfold Exchange.published
    rw [hranks]
    ext j
    rw [mem_reached, mem_reached]
    rcases eq_or_ne j i with rfl | hj
    · rw [Function.update_self]
      exact ⟨hpub, fun hj => hj.trans hle⟩
    · rw [Function.update_of_ne hj]
  constructor
  · rw [hranks]
    refine h.sound.advance hle hcount fun state hstate => ?_
    rw [Fintype.card_fin]
    exact hopen state hstate
  · rw [hpublished]
    exact h.log
  · intro j
    rw [hpublished]
    rcases eq_or_ne j i with rfl | hj
    · simpa [Exchange.setNode] using hnode
    · simpa [Exchange.setNode, hj] using h.node j

/-- Node `i` stays at its stage. -/
theorem stay (h : Exchanging s) (hstage : node.stage = (s.nodes i).stage)
    (hnode : node.Exchanging i s.published) : Exchanging (s.setNode i node) := by
  refine h.goOn s.signals ?_ ?_ ?_ ?_ hnode
  · rw [hstage]
  · unfold Node.Past
    rw [hstage]
    exact id
  · intro state
    rw [hstage, if_neg (by omega), Nat.add_zero]
  · intro state hle
    rw [hstage] at hle
    exact .inl hle

/-- Node `i` comes to the next stage, other than by `publish`. -/
theorem advance (h : Exchanging s) (signals : SyncState → ℕ) (stage : Stage)
    (hstage : node.stage = stage) (hnext : (s.nodes i).stage.rank + 1 = stage.rank)
    (hpub : stage ≠ .published)
    (hcount : ∀ state, signals state = s.signals state + if state.signalled = stage then 1 else 0)
    (hopen : ∀ state, state.passed = stage → n ≤ s.signals state)
    (hnode : node.Exchanging i s.published) :
    Exchanging { s.setNode i node with signals } := by
  subst hstage
  refine h.goOn signals ?_ ?_ ?_ ?_ hnode
  · omega
  · intro hle
    have : Stage.published.rank ≠ node.stage.rank := fun heq => hpub (Stage.rank_inj.mp heq).symm
    unfold Node.Past at hle ⊢
    omega
  · intro state
    rw [hcount]
    congr 1
    refine if_congr ?_ rfl rfl
    rw [← Stage.rank_inj]
    omega
  · intro state hle
    rcases eq_or_ne state.passed node.stage with heq | hne
    · exact .inr (hopen state heq)
    · have : state.passed.rank ≠ node.stage.rank := fun heq => hne (Stage.rank_inj.mp heq)
      left
      omega

/-- A stage at which nothing is signalled and which is behind no barrier. -/
theorem proceed (h : Exchanging s) (stage : Stage) (hstage : node.stage = stage)
    (hnext : (s.nodes i).stage.rank + 1 = stage.rank) (hpub : stage ≠ .published)
    (hsig : ∀ state : SyncState, state.signalled ≠ stage ∧ state.passed ≠ stage)
    (hnode : node.Exchanging i s.published) : Exchanging (s.setNode i node) := by
  refine h.advance s.signals stage hstage hnext hpub ?_ ?_ hnode
  · intro state
    rw [if_neg (hsig state).1, Nat.add_zero]
  · exact fun state heq => absurd heq (hsig state).2

theorem signal (h : Exchanging s) {state : SyncState}
    (hnext : (s.nodes i).stage.rank + 1 = state.signalled.rank)
    (hnode : { s.nodes i with stage := state.signalled }.Exchanging i s.published) :
    Exchanging (s.signal i state) := by
  refine h.advance _ state.signalled rfl hnext ?_ ?_ ?_ hnode
  · cases state <;> decide
  · intro state'
    rcases eq_or_ne state' state with rfl | hne
    · rw [Function.update_self, if_pos rfl]
    · rw [Function.update_of_ne hne, if_neg (mt SyncState.signalled_inj.mp hne), Nat.add_zero]
  · intro state' heq
    cases state <;> cases state' <;> cases heq

/-- A node goes on behind a barrier once there are `n` signals. -/
theorem barrier (h : Exchanging s) {state : SyncState} (hstage : node.stage = state.passed)
    (hnext : (s.nodes i).stage.rank + 1 = state.passed.rank)
    (hnode : node.Exchanging i s.published) : Exchanging (s.barrier i state node) := by
  unfold Exchange.barrier
  split_ifs with hopen
  · refine h.advance s.signals state.passed hstage hnext ?_ ?_ ?_ hnode
    · cases state <;> decide
    · intro state'
      rw [if_neg, Nat.add_zero]
      cases state <;> cases state' <;> decide
    · intro state' heq
      cases state <;> cases state' <;> first | exact hopen | cases heq
  · exact h

/-- Behind the first barrier all nodes have subscribed. -/
theorem subscribed (h : Exchanging s) (hi : (s.nodes i).Past .initPassed) (j : Fin n) :
    (s.nodes j).Past .subscribed := by
  have : Stage.initSignalled.rank ≤ (s.nodes j).stage.rank := h.sound.signalled .init i hi j
  unfold Node.Past
  simp only [Stage.rank] at this ⊢
  omega

theorem publish (h : Exchanging s) (hi : (s.nodes i).stage = .initPassed) :
    Exchanging (s.publish i) := by
  have hnot : i ∉ s.published := by
    rw [Exchange.mem_published]
    unfold Node.Past
    rw [hi]
    decide
  have hranks := s.ranks_publish i
  have hpublished : (s.publish i).published = insert i s.published := by
    ext j
    unfold Exchange.published
    rw [hranks, Finset.mem_insert, mem_reached, mem_reached]
    rcases eq_or_ne j i with rfl | hj
    · simp
    · simp [hj]
  have hrank : s.ranks i = Stage.initPassed.rank := congrArg Stage.rank hi
  constructor
  · rw [hranks]
    refine h.sound.advance ?_ ?_ ?_
    · rw [hrank]
      decide
    · intro state
      rw [hrank, if_neg]
      · rfl
      · cases state <;> decide
    · intro state hle
      left
      rw [hrank]
      cases state <;> revert hle <;> decide
  · intro _
    rw [hpublished]
    exact Finset.insert_nonempty i _
  · intro j
    rw [hpublished]
    have hpast : (s.nodes j).Past .subscribed := h.subscribed (by unfold Node.Past; rw [hi]) j
    rcases eq_or_ne j i with rfl | hj
    · have hnode : { s.nodes j with stage := .published }.Exchanging j s.published :=
        (h.node j).withStage hi .published _ _ (by decide) (by decide) (by decide)
      have := hnode.deliver hnot (show Stage.subscribed.rank ≤ Stage.published.rank by decide)
      simpa [Exchange.publish, Exchange.setNode] using this
    · have := (h.node j).deliver hnot hpast
      simpa [Exchange.publish, Exchange.setNode, hj] using this

/-- A message is taken from the inbox and its pair, unless it is the own one, is taken over. -/
theorem receive (hlaw : net.Lawful) (h : Exchanging s) (hi : (s.nodes i).stage = .collecting)
    (place : ℕ) : ∃ s', s.receive i place = .ok s' ∧ Exchanging s' := by
  obtain ⟨pending, seen, hc⟩ := (h.node i).collects
  have hrank : (s.nodes i).stage.rank = 5 := by rw [hi]; rfl
  have hnot : ¬ (s.nodes i).Past .dialing := by unfold Node.Past; rw [hrank]; decide
  have hcol : ¬ (s.nodes i).Past .collected := by unfold Node.Past; rw [hrank]; decide
  unfold Exchange.receive
  cases hp : (s.nodes i).inbox[place]? with
  | none =>
    simp only [hp]
    exact ⟨s, rfl, h⟩
  | some payload =>
    obtain ⟨j, rfl, hyield⟩ := hc.yield hp
    simp only [hp, Net.parsePayload_payload hlaw, ok_bind, pure_eq_ok]
    split_ifs with hown hlen
    · -- the own message
      have hji : j = i := hlaw.localPeerId_inj hown
      refine ⟨_, rfl, h.stay rfl ?_⟩
      refine (h.node i).collect hnot hnot ?_ rfl (h.node i).waits (h.node i).filled
      exact ⟨_, _, hyield _ rfl (by simp [hji]) (by simp [hji])⟩
    · -- the last of the others
      have hji : j ≠ i := fun hji => hown (by rw [hji])
      refine ⟨_, rfl, h.proceed .collected rfl ?_ (by decide) ?_ ?_⟩
      · rw [hrank]
        rfl
      · intro state
        cases state <;> decide
      · refine (h.node i).collect hnot ?_ ?_ rfl ?_ ?_
        · show ¬ Stage.dialing.rank ≤ Stage.collected.rank
          decide
        · exact ⟨_, _, hyield _ rfl (by simp [hji]) (by simp [hji])⟩
        · intro _ hlt
          exact absurd (le_refl Stage.collected.rank) hlt
        · intro _
          exact Nat.sub_le_iff_le_add.mp hlen
    · -- another one
      have hji : j ≠ i := fun hji => hown (by rw [hji])
      refine ⟨_, rfl, h.stay rfl ?_⟩
      refine (h.node i).collect hnot hnot ?_ rfl ?_ ?_
      · exact ⟨_, _, hyield _ rfl (by simp [hji]) (by simp [hji])⟩
      · intro _ _
        exact Nat.lt_of_not_le (mt Nat.sub_le_iff_le_add.mpr hlen)
      · exact fun hle => absurd hle hcol

/-! ## Runs -/

theorem next (h : Exchanging s) (i : Fin n) : Exchanging (s.next i) := by
  have hnode := h.node i
  unfold Exchange.next
  cases hi : (s.nodes i).stage with
  | start | collecting =>
    simp only [hi]
    exact h
  | subscribed =>
    simp only [hi]
    refine h.signal (by rw [hi]; rfl) ?_
    exact hnode.withStage hi _ _ _ (by decide) (by decide) (by decide)
  | initSignalled =>
    simp only [hi]
    refine h.barrier rfl (by rw [hi]; rfl) ?_
    exact hnode.withStage hi _ _ _ (by decide) (by decide) (by decide)
  | initPassed =>
    simp only [hi]
    exact h.publish hi
  | published =>
    simp only [hi]
    refine h.signal (by rw [hi]; rfl) ?_
    exact hnode.withStage hi _ _ _ (by decide) (by decide) (by decide)
  | collected =>
    simp only [hi]
    exact h.barrier rfl (by rw [hi]; rfl) (hnode.startDialing hi)
  | dialing =>
    cases hr : (s.nodes i).remaining with
    | cons p remaining =>
      simp only [hi, hr]
      exact h.stay hi.symm (hnode.dial hi hr)
    | nil =>
      simp only [hi, hr]
      refine h.signal (by rw [hi]; rfl) ?_
      exact hnode.restage hi _ _ _ (by decide) (by decide) fun _ => hr
  | bootstrapSignalled =>
    simp only [hi]
    refine h.barrier rfl (by rw [hi]; rfl) ?_
    exact hnode.withStage hi _ _ _ (by decide) (by decide) (by decide)
  | bootstrapPassed =>
    simp only [hi]
    refine h.proceed .live rfl (by rw [hi]; rfl) (by decide) (fun state => ?_) ?_
    · cases state <;> decide
    · exact hnode.withStage hi _ _ _ (by decide) (by decide) (by decide)
  | live =>
    simp only [hi]
    split_ifs
    · refine h.stay hi.symm ?_
      exact hnode.withStage hi _ _ _ (by decide) (by decide) (by decide)
    · exact h

/-- Nothing is published, and nothing to be replayed, as long as a node has still to subscribe. -/
theorem log_eq_nil (h : Exchanging s) (hi : (s.nodes i).stage = .start) :
    s.log = [] ∧ s.published = ∅ := by
  have hempty : s.published = ∅ := by
    rw [Finset.eq_empty_iff_forall_notMem]
    intro j hj
    have hsub : (s.nodes i).Past .subscribed := by
      refine h.subscribed (i := j) ?_ i
      exact le_trans (by decide) (Exchange.mem_published.mp hj)
    unfold Node.Past at hsub
    rw [hi] at hsub
    exact absurd hsub (by decide)
  refine ⟨?_, hempty⟩
  by_contra hne
  have := h.log hne
  rw [hempty] at this
  exact Finset.not_nonempty_empty this

theorem subscribe (h : Exchanging s) (hi : (s.nodes i).stage = .start) {replayed : List Payload}
    (hlog : replayed.Sublist s.log) :
    Exchanging (s.setNode i { s.nodes i with stage := .subscribed, inbox := replayed }) := by
  obtain ⟨hnil, hempty⟩ := h.log_eq_nil hi
  have hinbox : (s.nodes i).inbox = replayed := by
    obtain ⟨pending, seen, hc⟩ := (h.node i).collects
    have hperm := hc.perm
    rw [hempty, Finset.toList_empty, List.perm_nil, List.append_eq_nil_iff] at hperm
    rw [hnil, List.sublist_nil] at hlog
    rw [hc.inbox, hperm.1, hlog, List.map_nil]
  rw [← hinbox]
  refine h.proceed .subscribed rfl (by rw [hi]; rfl) (by decide) (fun state => ?_) ?_
  · cases state <;> decide
  · exact (h.node i).withStage hi _ _ _ (by decide) (by decide) (by decide)

theorem new : Exchanging (Exchange.new : Exchange net) where
  sound := by
    show Sound _ _ (fun _ => 0) fun _ => 0
    apply sound_zero <;> intro state <;> cases state <;> decide
  log hne := absurd rfl hne
  node i := by
    have hempty : (Exchange.new : Exchange net).published = ∅ := by
      rw [Finset.eq_empty_iff_forall_notMem]
      intro j hj
      exact absurd (Exchange.mem_published.mp hj) (show ¬ 4 ≤ 0 by decide)
    rw [hempty]
    refine ⟨⟨[], [], rfl, rfl, rfl, ?_⟩, fun hn _ => hn, ?_, fun _ => rfl, ?_, ?_⟩
    · rw [Finset.toList_empty]
      exact List.Perm.nil
    · exact fun hle => absurd hle (show ¬ 6 ≤ 0 by decide)
    · exact fun hle => absurd hle (show ¬ 7 ≤ 0 by decide)
    · exact fun hle => absurd hle (show ¬ 8 ≤ 0 by decide)

/-- No step panics, and every step keeps the invariant. -/
theorem step (hlaw : net.Lawful) (h : Exchanging s) (action : Action n) :
    ∃ s', s.step action = .ok (s', ()) ∧ Exchanging s' := by
  cases action with
  | subscribe i replayed =>
    simp only [Exchange.step]
    split_ifs with hcan
    · exact ⟨_, rfl, h.subscribe hcan.2.1 hcan.2.2⟩
    · exact ⟨s, rfl, h⟩
  | next i =>
    simp only [Exchange.step]
    split_ifs
    · exact ⟨s, rfl, h⟩
    · exact ⟨_, rfl, h.next i⟩
  | receive i place =>
    simp only [Exchange.step]
    split_ifs with hcan
    · obtain ⟨s', hs', h'⟩ := h.receive hlaw hcan.2 place
      rw [hs']
      exact ⟨s', rfl, h'⟩
    · exact ⟨s, rfl, h⟩
  | fail i =>
    refine ⟨_, rfl, h.stay rfl ?_⟩
    exact (h.node i).withStage rfl _ _ _ Iff.rfl Iff.rfl id

theorem run (hlaw : net.Lawful) (actions : List (Action n)) :
    ∃ s tr, Machine.run Exchange.step (Exchange.new : Exchange net) actions = .ok (s, tr) ∧
      Exchanging s := by
  refine Machine.run_induction (fun _ => True) (fun s _ => Exchanging s) (fun _ _ _ => trivial) new
    ?_ trivial (Machine.meets_true actions)
  intro t tr action ht _ _
  obtain ⟨u, hu, hu'⟩ := ht.step hlaw action
  exact ⟨u, (), hu, hu'⟩

theorem zip_perm (h : Exchanging s) (hi : (s.nodes i).Past .collected) :
    ((s.nodes i).peerIds.zip (s.nodes i).addresses).Perm
      (((List.finRange n).erase i).map net.pair) := by
  obtain ⟨pending, seen, hc⟩ := (h.node i).collects
  exact hc.zip_perm ((h.node i).filled hi)

/-- Behind the `for` loop a node has dialled all the addresses it holds. -/
theorem dials_eq (h : Exchanging s) (hi : (s.nodes i).Past .bootstrapSignalled) :
    (s.nodes i).dials = (s.nodes i).addresses := by
  have hall := (h.node i).dialled (le_trans (by decide) hi)
  rw [(h.node i).finished hi, List.map_nil, List.append_nil] at hall
  exact hall

end Exchanging

/-- In every run, of any number of nodes and in any order of their steps: a node comes to its
    `publish` only when all nodes have subscribed; a node that has left its collection loop holds
    the pairs of all the other nodes, each once; and when a node is behind the last barrier, every
    node has dialled every other one. -/
theorem exchange_complete (hlaw : net.Lawful) (actions : List (Action n)) :
    ∃ s tr, Machine.run Exchange.step (Exchange.new : Exchange net) actions = .ok (s, tr) ∧
      (∀ i j, (s.nodes i).Past .initPassed → (s.nodes j).Past .subscribed) ∧
      (∀ i, (s.nodes i).Past .collected →
        (s.nodes i).peerIds.length = (s.nodes i).addresses.length ∧
        ((s.nodes i).peerIds.zip (s.nodes i).addresses).Perm
          (((List.finRange n).erase i).map fun j => (net.localPeerId j, net.localMultiAddr j))) ∧
      ∀ i, (s.nodes i).Past .bootstrapPassed →
        ∀ j k, j ≠ k → net.localMultiAddr k ∈ (s.nodes j).dials := by
  obtain ⟨s, tr, hrun, h⟩ := Exchanging.run hlaw actions
  refine ⟨s, tr, hrun, fun i j hi => h.subscribed hi j, fun i hi => ⟨?_, h.zip_perm hi⟩, ?_⟩
  · obtain ⟨pending, seen, hc⟩ := (h.node i).collects
    exact hc.length_eq
  · intro i hi j k hjk
    have hj : (s.nodes j).Past .bootstrapSignalled := h.sound.signalled .bootstrap i hi j
    have hk : k ∈ (List.finRange n).erase j :=
      (List.mem_erase_of_ne hjk.symm).mpr (List.mem_finRange k)
    have hpair : net.pair k ∈ (s.nodes j).peerIds.zip (s.nodes j).addresses :=
      (h.zip_perm (le_trans (by decide) hj)).mem_iff.mpr (List.mem_map_of_mem hk)
    rw [h.dials_eq hj]
    exact (List.of_mem_zip hpair).2

/-- Two nodes whose peer ids and addresses are one letter each. -/
def pairNet : Net 2 where
  PeerId := Fin 2
  Multiaddr := Fin 2
  toBase58 p := if p = 0 then ['s'] else ['v']
  parsePeerId text := if text = ['s'] then some 0 else if text = ['v'] then some 1 else none
  addrToString a := if a = 0 then ['a'] else ['b']
  parseMultiaddr text := if text = ['a'] then some 0 else if text = ['b'] then some 1 else none
  localPeerId := id
  localMultiAddr := id
  peerIdEq := inferInstance

theorem pairNet_lawful : pairNet.Lawful where
  parse_toBase58 := Fin.forall_fin_two.mpr ⟨rfl, rfl⟩
  parse_addrToString := Fin.forall_fin_two.mpr ⟨rfl, rfl⟩
  blank_toBase58 := Fin.forall_fin_two.mpr ⟨by decide, by decide⟩
  blank_addrToString := Fin.forall_fin_two.mpr ⟨by decide, by decide⟩
  localPeerId_inj := Function.injective_id

/-- A run of two nodes up to the last barrier, at which the first one has gone on. -/
def pairRun : List (Action 2) :=
  [.subscribe 0 [], .subscribe 1 [], .next 0, .next 1, .next 0, .next 1, .next 0, .next 1,
    .next 0, .next 1, .receive 0 1, .receive 1 0, .next 0, .next 1, .next 0, .next 0, .next 1,
    .next 1, .next 0]

theorem pairRun_stages :
    ((Machine.run Exchange.step (Exchange.new : Exchange pairNet) pairRun).toOption.map fun r =>
      List.ofFn fun i => (r.1.nodes i).stage) = some [.bootstrapPassed, .bootstrapSignalled] := by
  decide +kernel

/-- `exchange_complete` for two nodes, the first of which is behind the last barrier. -/
theorem exchange_complete_pair :
    ∃ s tr, Machine.run Exchange.step (Exchange.new : Exchange pairNet) pairRun = .ok (s, tr) ∧
      (s.nodes 0).Past .bootstrapPassed ∧
      ((s.nodes 0).peerIds.zip (s.nodes 0).addresses).Perm
        (((List.finRange 2).erase 0).map fun j =>
          (pairNet.localPeerId j, pairNet.localMultiAddr j)) ∧
      ∀ j k, j ≠ k → pairNet.localMultiAddr k ∈ (s.nodes j).dials := by
  obtain ⟨s, tr, hrun, -, hpairs, hdials⟩ := exchange_complete pairNet_lawful pairRun
  have hstages := pairRun_stages
  rw [hrun] at hstages
  have hstage : (s.nodes 0).stage = .bootstrapPassed :=
    (List.cons_eq_cons.mp (Option.some_inj.mp hstages)).1
  have hpast : ∀ stage : Stage, stage.rank ≤ 9 → (s.nodes 0).Past stage := by
    intro stage hle
    unfold Node.Past
    rwa [hstage]
  exact ⟨s, tr, hrun, hpast _ le_rfl, (hpairs 0 (hpast _ (by decide))).2, hdials 0 (hpast _ le_rfl)⟩

end LiveTest
