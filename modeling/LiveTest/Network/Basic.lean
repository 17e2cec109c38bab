import LiveTest.Machine
import LiveTest.Service.Isolation

/-!
# Model of a network of services

Nodes that run the service, with bitswap between them. An action is an input of
one node. A handler that panics ends the task of its service, and the other nodes
go on.

What bitswap does between the nodes is in the guard of `step`: a `ReceivedBlock`
comes only after the other node has called `send_block` for it, and a
`ReceivedWant` only after the other node has called `want_block`; in any order,
any number of times, or never. All other inputs are arbitrary.

* `took_of_step`: what an action does.
* `nodeTrace`: what a node did in a run.
-/

namespace LiveTest

open Rust Machine

variable {L : Libp2p}

/-- The nodes, and what they have called on bitswap. -/
structure Network (L : Libp2p) where
  /-- The services; `none` where a handler has panicked. -/
  nodes : L.PeerId → Option (System L)
  /-- The calls of `send_block`: by which node, for which node. -/
  sent : List (L.PeerId × L.PeerId × Block L.Cid)
  /-- The calls of `want_block`. -/
  asked : List (L.PeerId × L.Cid)

namespace Network

/-- New services. -/
def new (maxConcurrentSend : L.PeerId → ℕ) : Network L where
  nodes := fun peer => some (System.new (maxConcurrentSend peer))
  sent := []
  asked := []

/-- The inputs that can come to a node. -/
def Allows (n : Network L) (peer : L.PeerId) : Input L → Prop
  | .receivedBlock sender block => (sender, peer, block) ∈ n.sent
  | .receivedWant sender cid _ => (sender, cid) ∈ n.asked
  | _ => True

instance (n : Network L) (peer : L.PeerId) : ∀ i, Decidable (n.Allows peer i)
  | .receivedBlock sender block => inferInstanceAs (Decidable ((sender, peer, block) ∈ n.sent))
  | .receivedWant sender cid _ => inferInstanceAs (Decidable ((sender, cid) ∈ n.asked))
  | .command _ _ | .drop _ | .receivedCancel _ _ | .event (.behaviour (.gossipsub _))
  | .event (.behaviour .ping) | .event (.behaviour (.kademlia _)) | .event .connectionEstablished
  | .event .connectionClosed | .event .incomingConnection | .event .incomingConnectionError
  | .event .outgoingConnectionError | .event .bannedPeer | .event (.newListenAddr _ _)
  | .event .expiredListenAddr | .event .listenerClosed | .event .listenerError
  | .event .dialing => isTrue trivial

/-- A node, and the input that it takes. -/
abbrev Action (L : Libp2p) := L.PeerId × Input L

/-- The node has handled an input. -/
def handled (n : Network L) (peer : L.PeerId) (s : System L) (out : List (Output L)) :
    Network L where
  nodes := Function.update n.nodes peer (some s)
  sent := n.sent ++ (sentBlocks out).map (peer, ·)
  asked := n.asked ++ (askedCids out).map (peer, ·)

/-- The service of the node has panicked. -/
def panicked (n : Network L) (peer : L.PeerId) : Network L :=
  { n with nodes := Function.update n.nodes peer none }

/-- One action, with what the service did; an action that is not possible does nothing. -/
def step (n : Network L) : Action L → Except Empty (Network L × Option (List (Output L)))
  | (peer, i) =>
    match n.nodes peer with
    | none => return (n, none)
    | some s =>
      if n.Allows peer i then
        match s.step i with
        | .error _ => return (n.panicked peer, none)
        | .ok (s, out) => return (n.handled peer s out, some out)
      else return (n, none)

/-- What an action does. -/
inductive Took (n : Network L) (peer : L.PeerId) (i : Input L) :
    Network L → Option (List (Output L)) → Prop where
  | idle : Took n peer i n none
  | panicked : Took n peer i (n.panicked peer) none
  | handled {s s' : System L} {out : List (Output L)} (alive : n.nodes peer = some s)
      (allowed : n.Allows peer i) (stepped : s.step i = .ok (s', out)) :
      Took n peer i (n.handled peer s' out) (some out)

theorem took_of_step {n n' : Network L} {peer : L.PeerId} {i : Input L}
    {o : Option (List (Output L))} (h : n.step (peer, i) = .ok (n', o)) : n.Took peer i n' o := by
  simp only [step] at h
  split at h
  · cases h
    exact .idle
  · next s halive =>
    split_ifs at h with hallowed
    · split at h
      · cases h
        exact .panicked
      · next s' out hs =>
        cases h
        exact .handled halive hallowed hs
    · cases h
      exact .idle

/-- The network never stops. -/
theorem exists_step (n : Network L) (a : Action L) : ∃ n' o, n.step a = .ok (n', o) := by
  cases h : n.step a with
  | error e => exact e.elim
  | ok r => exact ⟨r.1, r.2, rfl⟩

/-! ## Traces -/

/-- What the actions of a run did. -/
abbrev Trace (L : Libp2p) := List (Action L × Option (List (Output L)))

/-- An input that a node has handled. -/
def handledBy (peer : L.PeerId) (entry : Action L × Option (List (Output L))) :
    Option (Input L × List (Output L)) :=
  if entry.1.1 = peer then entry.2.map fun out => (entry.1.2, out) else none

/-- The inputs that a node has handled, with what it did. -/
def nodeTrace (peer : L.PeerId) (tr : Trace L) : List (Input L × List (Output L)) :=
  tr.filterMap (handledBy peer)

/-- The inputs that a node has handled. -/
def inputs (peer : L.PeerId) (tr : Trace L) : List (Input L) := (nodeTrace peer tr).map Prod.fst

/-- A client of some node has added the block. -/
def Added (tr : Trace L) (block : Block L.Cid) : Prop :=
  ∃ peer answers, .blockAdd answers block ∈ inputs peer tr

theorem nodeTrace_concat_none (peer : L.PeerId) (tr : Trace L) (a : Action L) :
    nodeTrace peer (tr ++ [(a, none)]) = nodeTrace peer tr := by
  simp [nodeTrace, handledBy]

theorem nodeTrace_concat_self (peer : L.PeerId) (tr : Trace L) (i : Input L)
    (out : List (Output L)) :
    nodeTrace peer (tr ++ [((peer, i), some out)]) = nodeTrace peer tr ++ [(i, out)] := by
  simp [nodeTrace, handledBy]

theorem nodeTrace_concat_of_ne {peer peer' : L.PeerId} (h : peer' ≠ peer) (tr : Trace L)
    (i : Input L) (out : List (Output L)) :
    nodeTrace peer (tr ++ [((peer', i), some out)]) = nodeTrace peer tr := by
  simp [nodeTrace, handledBy, h]

theorem inputs_concat_none (peer : L.PeerId) (tr : Trace L) (a : Action L) :
    inputs peer (tr ++ [(a, none)]) = inputs peer tr := by
  rw [inputs, nodeTrace_concat_none, inputs]

theorem mem_inputs_concat {peer peer' : L.PeerId} {tr : Trace L} {i i' : Input L}
    {out : List (Output L)} : i' ∈ inputs peer' (tr ++ [((peer, i), some out)]) ↔
      i' ∈ inputs peer' tr ∨ peer' = peer ∧ i' = i := by
  by_cases hpeer : peer = peer'
  · subst hpeer
    simp [inputs, nodeTrace_concat_self]
  · simp [inputs, nodeTrace_concat_of_ne hpeer, Ne.symm hpeer]

theorem mem_of_mem_inputs {peer : L.PeerId} {tr : Trace L} {i : Input L} (h : i ∈ inputs peer tr) :
    (peer, i) ∈ tr.map Prod.fst := by
  obtain ⟨_, he, rfl⟩ := List.mem_map.mp h
  obtain ⟨⟨⟨peer', i'⟩, o⟩, hmem, he⟩ := List.mem_filterMap.mp he
  unfold handledBy at he
  split_ifs at he with hpeer
  obtain ⟨out, -, rfl⟩ := Option.map_eq_some_iff.mp he
  exact List.mem_map.mpr ⟨_, hmem, by rw [← hpeer]⟩

/-- What was added before a step was added. -/
theorem Added.concat {tr : Trace L} {block : Block L.Cid} (h : Added tr block) (a : Action L)
    (o : Option (List (Output L))) : Added (tr ++ [(a, o)]) block := by
  obtain ⟨peer, answers, hmem⟩ := h
  refine ⟨peer, answers, ?_⟩
  cases o with
  | none => rwa [inputs_concat_none]
  | some out => exact mem_inputs_concat.mpr (.inl hmem)

end Network

end LiveTest
