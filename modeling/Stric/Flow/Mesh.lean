import Stric.Flow.Node
import Stric.Flow.VecGraph
import Stric.Pool.Network

/-!
# A mesh of control loops

A static peer relation over finitely many nodes (`PeerGraph`), and the network in which each
of them runs its control loop: delivering a packet is one `ControlMsgReceived` event.  What
a node does besides (calls of the application, own events) is the second half of the
protocol, given by each development that uses it.

`onMessage_topology`, `onMessage_subscription`, `onMessage_pong` and `onMessage_plain` say what
one message does; everything else about the control loop is read off these four.  So a mesh
is static: no message changes a node's id, its peers or its merge functions
(`sameHost_of_onMessage`).
-/

namespace Stric.Flow

open Stric.Pool

/-- What a received message does not change. -/
structure SameHost {γ δ : Type} (n n' : FlowNode γ δ) : Prop where
  nodeId : n'.nodeId = n.nodeId
  peerWriters : n'.peerWriters = n.peerWriters
  mergeFns : n'.mergeFns = n.mergeFns
  localSubscriptions : n'.localSubscriptions = n.localSubscriptions

namespace SameHost

variable {γ δ : Type} {n n' : FlowNode γ δ}

theorem refl (n : FlowNode γ δ) : SameHost n n := ⟨rfl, rfl, rfl, rfl⟩

theorem peers (h : SameHost n n') : n'.peers = n.peers := by
  unfold FlowNode.peers
  rw [h.peerWriters]

end SameHost

namespace FlowNode

variable {γ δ : Type}

/-- The `node_last_seen` updates of an arriving topology update change nothing else. -/
theorem seen_foldl_eq (clock : Clock) (n : FlowNode γ δ) (ds : List NodeDescriptor) :
    ∃ t, ds.foldl (fun n d => seen clock n d.nodeId) n = { n with nodeLastSeen := t } := by
  induction ds generalizing n with
  | nil => exact ⟨n.nodeLastSeen, rfl⟩
  | cons d ds ih =>
    obtain ⟨t, ht⟩ := ih (seen clock n d.nodeId)
    exact ⟨t, by rw [List.foldl_cons, ht]; rfl⟩

theorem mem_gossip {n : FlowNode γ δ} {sender about : NodeId} {msg : ControlMessage} {o : Send} :
    o ∈ n.gossip sender about msg ↔
      o.1 ∈ n.peers ∧ o.1 ≠ sender ∧ o.1 ≠ about ∧ o.2 = msg := by
  obtain ⟨peer, m⟩ := o
  simp only [gossip, List.mem_map, List.mem_filter, decide_eq_true_eq, Prod.mk.injEq]
  constructor
  · rintro ⟨x, ⟨h1, h2, h3⟩, rfl, rfl⟩
    exact ⟨h1, h2, h3, rfl⟩
  · rintro ⟨h1, h2, h3, rfl⟩
    exact ⟨peer, ⟨h1, h2, h3⟩, rfl, rfl⟩

theorem mem_broadcast {n : FlowNode γ δ} {msg : ControlMessage} {o : Send} :
    o ∈ n.broadcast msg ↔ o.1 ∈ n.peers ∧ o.2 = msg := by
  obtain ⟨peer, m⟩ := o
  simp only [broadcast, List.mem_map, Prod.mk.injEq]
  constructor
  · rintro ⟨x, h, rfl, rfl⟩
    exact ⟨h, rfl⟩
  · rintro ⟨h, rfl⟩
    exact ⟨peer, h, rfl, rfl⟩

theorem length_gossip_le (n : FlowNode γ δ) (sender about : NodeId) (msg : ControlMessage) :
    (n.gossip sender about msg).length ≤ n.peers.length := by
  rw [gossip, List.length_map]
  exact List.length_filter_le _ _

/-! ## What one message does -/

/-- A session message changes sessions only, and passes session messages on. -/
theorem onSession_spec (n : FlowNode γ δ) (sender : NodeId) (m : SessionMessage) :
    ∃ sessions, (n.onSession sender m).1 = { n with sessions := sessions } ∧
      ∀ o ∈ (n.onSession sender m).2, ∃ m', o.2 = .ofSession m' := by
  have hgossip : ∀ (n : FlowNode γ δ) about m, ∀ o ∈ n.gossip sender about (.ofSession m),
      ∃ m', o.2 = .ofSession m' := fun n about m o ho => ⟨m, (mem_gossip.mp ho).2.2.2⟩
  cases m with
  | create c =>
    show ∃ sessions, (n.onCreate sender c).1 = _ ∧ ∀ o ∈ (n.onCreate sender c).2, _
    unfold onCreate
    split
    · exact ⟨_, rfl, fun o ho => nomatch ho⟩
    · exact ⟨_, rfl, hgossip _ _ _⟩
  | join j => exact ⟨_, rfl, hgossip _ _ _⟩
  | leave l => exact ⟨_, rfl, hgossip _ _ _⟩
  | close c =>
    show ∃ sessions, (n.onClose sender c).1 = _ ∧ ∀ o ∈ (n.onClose sender c).2, _
    unfold onClose
    simp only
    split
    · exact ⟨_, rfl, hgossip _ _ _⟩
    · exact ⟨_, rfl, fun o ho => nomatch ho⟩
  | stateSync s =>
    show ∃ sessions, (n.onStateSync sender s).1 = _ ∧ ∀ o ∈ (n.onStateSync sender s).2, _
    unfold onStateSync
    split
    · exact ⟨_, rfl, fun o ho => nomatch ho⟩
    · split
      · exact ⟨_, rfl, fun o ho => nomatch ho⟩
      · exact ⟨_, rfl, hgossip _ _ _⟩

variable [PetGraph γ]

/-- A subscription update is accepted and gossiped, or dropped; either way
`node_last_seen` is refreshed. -/
theorem onMessage_subscription (clock : Clock) (n : FlowNode γ δ) (sender : NodeId)
    (u : SubscriptionUpdate) {n' : FlowNode γ δ} {outs : List Send}
    (h : n.onMessage clock sender (.of (.subscriptionUpdate u)) = (n', outs)) :
    ∃ t, (isNewer n.lastSubscriptionEpochs u.nodeId u.epoch = true ∧
        n' = { n.acceptSubscription clock u with nodeLastSeen := t } ∧
        outs = n.gossip sender u.nodeId (.of (.subscriptionUpdate u))) ∨
      (isNewer n.lastSubscriptionEpochs u.nodeId u.epoch = false ∧
        n' = { n with nodeLastSeen := t } ∧ outs = []) := by
  change (seen clock n sender).onSubscriptionUpdate clock sender u = _ at h
  unfold onSubscriptionUpdate at h
  refine ⟨(seen clock (seen clock n sender) u.nodeId).nodeLastSeen, ?_⟩
  cases ha : isNewer n.lastSubscriptionEpochs u.nodeId u.epoch with
  | true =>
    simp only [seen, ha, if_true, Prod.mk.injEq] at h
    exact Or.inl ⟨rfl, h.1.symm, h.2.symm⟩
  | false =>
    simp only [seen, ha, Bool.false_eq_true, if_false, Prod.mk.injEq] at h
    exact Or.inr ⟨rfl, h.1.symm, h.2.symm⟩

/-- The same of a topology update. -/
theorem onMessage_topology (clock : Clock) (n : FlowNode γ δ) (sender : NodeId)
    (u : TopologyUpdate) {n' : FlowNode γ δ} {outs : List Send}
    (h : n.onMessage clock sender (.of (.topologyUpdate u)) = (n', outs)) :
    ∃ t, (isNewer n.lastEpochs u.originNodeId u.epoch = true ∧
        n' = { n.acceptTopology u with nodeLastSeen := t } ∧
        outs = n.gossip sender u.originNodeId (.of (.topologyUpdate u))) ∨
      (isNewer n.lastEpochs u.originNodeId u.epoch = false ∧
        n' = { n with nodeLastSeen := t } ∧ outs = []) := by
  change (seen clock n sender).onTopologyUpdate clock sender u = _ at h
  unfold onTopologyUpdate at h
  obtain ⟨t, ht⟩ := seen_foldl_eq clock (seen clock (seen clock n sender) u.originNodeId) u.nodesAdded
  refine ⟨t, ?_⟩
  simp only [ht] at h
  cases ha : isNewer n.lastEpochs u.originNodeId u.epoch with
  | true =>
    simp only [seen, ha, if_true, Prod.mk.injEq] at h
    exact Or.inl ⟨rfl, h.1.symm, h.2.symm⟩
  | false =>
    simp only [seen, ha, Bool.false_eq_true, if_false, Prod.mk.injEq] at h
    exact Or.inr ⟨rfl, h.1.symm, h.2.symm⟩

/-- The epoch after the last one this node gave an update of its own. -/
def nextEpoch (n : FlowNode γ δ) : UInt64 := (n.lastEpochs.lookup n.nodeId).getD 0 + 1

/-- A `Pong` sets the link to its sender.  If the link is new, the whole graph is broadcast
under the next epoch. -/
theorem onMessage_pong (clock : Clock) (n : FlowNode γ δ) (sender : NodeId) (p : Pong)
    {n' : FlowNode γ δ} {outs : List Send}
    (h : n.onMessage clock sender (.of (.pong p)) = (n', outs)) :
    ∃ t, ∃ link : LinkDescriptor,
      (n.linkExists sender = true ∧
        n' = { n with graph := n.graph.addLink link, nodeLastSeen := t } ∧ outs = []) ∨
      (n.linkExists sender = false ∧
        n' = { n with
          graph := n.graph.addLink link
          lastEpochs := n.lastEpochs.insert n.nodeId n.nextEpoch
          nodeLastSeen := t } ∧
        outs = n'.broadcast (.of (.topologyUpdate (n'.snapshot n.nextEpoch)))) := by
  change (seen clock n sender).onPong clock sender p = _ at h
  unfold onPong at h
  refine ⟨(seen clock n sender).nodeLastSeen, ⟨n.nodeId, sender, 1, rttMillis clock p * 1000⟩, ?_⟩
  have hseen : (seen clock n sender).linkExists sender = n.linkExists sender := rfl
  cases hl : n.linkExists sender with
  | true =>
    simp only [hseen, hl, Bool.not_true, Bool.false_eq_true, if_false, Prod.mk.injEq] at h
    exact Or.inl ⟨rfl, h.1.symm, h.2.symm⟩
  | false =>
    simp only [hseen, hl, Bool.not_false, if_true, Prod.mk.injEq] at h
    obtain ⟨rfl, rfl⟩ := h
    exact Or.inr ⟨rfl, rfl, rfl⟩

end FlowNode

/-- The topology update an event brings. -/
def ControlEvent.topology : ControlEvent → Option TopologyUpdate
  | .controlMsgReceived _ ⟨some (.topologyUpdate u)⟩ => some u
  | _ => none

/-- Neither an update nor a `Pong`. -/
def ControlMessage.Plain (msg : ControlMessage) : Prop :=
  match msg.message with
  | some (.topologyUpdate _) | some (.subscriptionUpdate _) | some (.pong _) => False
  | _ => True

theorem ControlMessage.cases (msg : ControlMessage) :
    (∃ u, msg = .of (.topologyUpdate u)) ∨ (∃ u, msg = .of (.subscriptionUpdate u)) ∨
      (∃ p, msg = .of (.pong p)) ∨ msg.Plain := by
  obtain ⟨payload⟩ := msg
  cases payload with
  | none => exact Or.inr (Or.inr (Or.inr trivial))
  | some payload =>
    cases payload with
    | topologyUpdate u => exact Or.inl ⟨u, rfl⟩
    | subscriptionUpdate u => exact Or.inr (Or.inl ⟨u, rfl⟩)
    | pong p => exact Or.inr (Or.inr (Or.inl ⟨p, rfl⟩))
    | _ => exact Or.inr (Or.inr (Or.inr trivial))

namespace FlowNode

variable {γ δ : Type} [PetGraph γ]

/-- What any other message does: it is one of a session, a `Ping` that is answered, or it touches
no more than the limiters. -/
theorem onMessage_plain_cases (clock : Clock) (n : FlowNode γ δ) (sender : NodeId)
    {msg : ControlMessage} (hp : msg.Plain) {n' : FlowNode γ δ} {outs : List Send}
    (h : n.onMessage clock sender msg = (n', outs)) :
    (∃ m, msg = .ofSession m ∧ (n.seen clock sender).onSession sender m = (n', outs)) ∨
    (∃ tx p, n.peerWriters.lookup sender = some tx ∧ n' = n.seen clock sender ∧
      outs = [(sender, .of (.pong p))]) ∨
    ∃ limiters, n' = { n.seen clock sender with flowLimiters := limiters } ∧ outs = [] := by
  obtain ⟨payload⟩ := msg
  cases payload with
  | none =>
    cases h
    exact Or.inr (Or.inr ⟨_, rfl, rfl⟩)
  | some payload =>
    cases payload with
    | topologyUpdate u => exact absurd hp id
    | subscriptionUpdate u => exact absurd hp id
    | pong p => exact absurd hp id
    | ping p =>
      change (seen clock n sender).onPing clock sender p = _ at h
      unfold onPing at h
      split at h
      · next tx htx =>
        cases h
        exact Or.inr (Or.inl ⟨tx, _, htx, rfl, rfl⟩)
      · cases h
        exact Or.inr (Or.inr ⟨_, rfl, rfl⟩)
    | sessionControl c =>
      obtain ⟨m | m⟩ := c
      · cases h
        exact Or.inr (Or.inr ⟨_, rfl, rfl⟩)
      · exact Or.inl ⟨m, rfl, h⟩
    | _ =>
      cases h
      exact Or.inr (Or.inr ⟨_, rfl, rfl⟩)

/-- Any other message leaves graph and epochs alone, and only plain messages and `Pong`s
answer it. -/
theorem onMessage_plain (clock : Clock) (n : FlowNode γ δ) (sender : NodeId)
    {msg : ControlMessage} (hp : msg.Plain) {n' : FlowNode γ δ} {outs : List Send}
    (h : n.onMessage clock sender msg = (n', outs)) :
    (∃ sessions limiters t,
      n' = { n with sessions := sessions, flowLimiters := limiters, nodeLastSeen := t }) ∧
    ∀ o ∈ outs, (∃ p, o.2 = .of (.pong p)) ∨ ∃ m, o.2 = .ofSession m := by
  rcases n.onMessage_plain_cases clock sender hp h with
    ⟨m, -, hm⟩ | ⟨tx, p, -, rfl, rfl⟩ | ⟨limiters, rfl, rfl⟩
  · obtain ⟨sessions, hstate, houts⟩ := (seen clock n sender).onSession_spec sender m
    rw [hm] at hstate houts
    exact ⟨⟨sessions, _, _, hstate⟩, fun o ho => Or.inr (houts o ho)⟩
  · refine ⟨⟨_, _, _, rfl⟩, fun o ho => Or.inl ⟨p, ?_⟩⟩
    rw [List.mem_singleton.mp ho]
  · exact ⟨⟨_, _, _, rfl⟩, fun o ho => absurd ho List.not_mem_nil⟩

theorem sameHost_of_onMessage {clock : Clock} {n n' : FlowNode γ δ} {sender : NodeId}
    {msg : ControlMessage} {outs : List Send} (h : n.onMessage clock sender msg = (n', outs)) :
    SameHost n n' := by
  rcases msg.cases with ⟨u, rfl⟩ | ⟨u, rfl⟩ | ⟨p, rfl⟩ | hp
  · obtain ⟨t, ⟨-, rfl, -⟩ | ⟨-, rfl, -⟩⟩ := onMessage_topology clock n sender u h
    · exact ⟨rfl, rfl, rfl, rfl⟩
    · exact ⟨rfl, rfl, rfl, rfl⟩
  · obtain ⟨t, ⟨-, rfl, -⟩ | ⟨-, rfl, -⟩⟩ := onMessage_subscription clock n sender u h
    · exact ⟨rfl, rfl, rfl, rfl⟩
    · exact ⟨rfl, rfl, rfl, rfl⟩
  · obtain ⟨t, link, ⟨-, rfl, -⟩ | ⟨-, rfl, -⟩⟩ := onMessage_pong clock n sender p h
    · exact ⟨rfl, rfl, rfl, rfl⟩
    · exact ⟨rfl, rfl, rfl, rfl⟩
  · obtain ⟨⟨sessions, limiters, t, rfl⟩, -⟩ := onMessage_plain clock n sender hp h
    exact ⟨rfl, rfl, rfl, rfl⟩

end FlowNode

/-! ## Peer graphs -/

/-- Finitely many nodes, and the peers of each among them. -/
structure PeerGraph where
  nodes : Finset NodeId
  peers : NodeId → List NodeId
  closed : ∀ v ∈ nodes, ∀ w ∈ peers v, w ∈ nodes

namespace PeerGraph

/-- `w` is a peer of the node `v`. -/
def Link (g : PeerGraph) (v w : NodeId) : Prop := v ∈ g.nodes ∧ w ∈ g.peers v

instance (g : PeerGraph) (v w : NodeId) : Decidable (g.Link v w) :=
  inferInstanceAs (Decidable (v ∈ g.nodes ∧ w ∈ g.peers v))

/-- The number of directed peer links. -/
def linkCount (g : PeerGraph) : Nat := ∑ v ∈ g.nodes, (g.peers v).length

def Connected (g : PeerGraph) : Prop :=
  ∀ v ∈ g.nodes, ∀ w ∈ g.nodes, Relation.ReflTransGen g.Link v w

theorem Link.right {g : PeerGraph} {v w : NodeId} (h : g.Link v w) : w ∈ g.nodes :=
  g.closed v h.1 w h.2

end PeerGraph

/-- One turn of the control loop on a received message. -/
def receives {γ δ : Type} [PetGraph γ] (sender : NodeId) (msg : ControlMessage)
    (n n' : FlowNode γ δ) (outs : List Send) : Prop :=
  ∃ clock, n.onMessage clock sender msg = (n', outs)

/-- Every node of the graph runs under its own id with its peers, and packets travel between
nodes of the graph. -/
structure Hosted {γ δ S : Type} (g : PeerGraph) (node : S → FlowNode γ δ)
    (net : Net NodeId S ControlMessage) : Prop where
  id : ∀ v ∈ g.nodes, (node (net.state v)).nodeId = v
  peers : ∀ v ∈ g.nodes, (node (net.state v)).peers = g.peers v
  ends : ∀ p ∈ net.flight, p.src ∈ g.nodes ∧ p.dst ∈ g.nodes

section
variable {γ δ S : Type} {g : PeerGraph} {node : S → FlowNode γ δ}
  {net : Net NodeId S ControlMessage}

/-- A step at a node of the graph keeps the mesh, if it stays the same host and sends to its
peers only. -/
theorem Hosted.act (h : Hosted g node net) {rest : List (Packet NodeId ControlMessage)}
    {v : NodeId} {s : S} {outs : List Send} (hv : v ∈ g.nodes)
    (hrest : ∀ p ∈ rest, p ∈ net.flight) (hsame : SameHost (node (net.state v)) (node s))
    (houts : ∀ o ∈ outs, o.1 ∈ (node (net.state v)).peers) :
    Hosted g node (Net.act net.state rest v s outs) := by
  refine ⟨fun u hu => ?_, fun u hu => ?_, fun p hp => ?_⟩
  · refine Net.act_forall (fun u s' => u ∈ g.nodes → (node s').nodeId = u) ?_ h.id u hu
    intro hv
    rw [hsame.nodeId]
    exact h.id v hv
  · refine Net.act_forall (fun u s' => u ∈ g.nodes → (node s').peers = g.peers u) ?_ h.peers u hu
    intro hv
    rw [hsame.peers]
    exact h.peers v hv
  · rcases Net.mem_act.mp hp with hp | ⟨o, ho, rfl⟩
    · exact h.ends p (hrest p hp)
    · refine ⟨hv, g.closed v hv o.1 ?_⟩
      rw [← h.peers v hv]
      exact houts o ho

end

/-! ## Two peers -/

/-- `a` and `b`, each the other's peer. -/
def pairGraph : PeerGraph where
  nodes := ["a", "b"].toFinset
  peers v := if v = "a" then ["b"] else if v = "b" then ["a"] else []
  closed := by decide

/-- The node of that id in the pair, with nothing recorded yet. -/
def pairNode (id : NodeId) : FlowNode VecGraph Unit :=
  { (FlowNode.new id ∅ : FlowNode VecGraph Unit) with
    peerWriters :=
      if id = "a" then (∅ : HashMap NodeId Nat).insert "b" 0
      else if id = "b" then (∅ : HashMap NodeId Nat).insert "a" 0
      else ∅ }

theorem pairGraph_connected : pairGraph.Connected := by
  intro v hv w hw
  by_cases hvw : v = w
  · rw [hvw]
  · have h : ∀ v ∈ pairGraph.nodes, ∀ w ∈ pairGraph.nodes, v ≠ w → w ∈ pairGraph.peers v := by
      decide
    exact .single ⟨hv, h v hv w hw hvw⟩

end Stric.Flow
