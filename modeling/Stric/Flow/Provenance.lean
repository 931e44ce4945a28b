import Stric.Flow.GossipAgree
import Stric.Flow.GraphTransfer
import Stric.Flow.Multicast
import Stric.Flow.SessionGc

/-!
# Where the knowledge of a mesh comes from

A network in which every node runs the code of `node.rs`: its control loop takes the messages of the
others in any order, and between them do its application and its own tasks whatever they can do
(`MeshAct`).  Nodes connect and disconnect as they like.

    Run mesh (meshStart registry) trace net

What a node then holds did not come out of thin air (`mesh_provenance`):

* a link in a graph has cost 1, and one of its ends has heard a `Pong` of the other;
* a descriptor has the role `Flow`, and its subscriptions are ones that its node has made;
* a session was created by the node it names, with these flows and this metadata; and as long as no
  merge function is registered, its data was written to it.

The invariant says the same of the messages in flight; a step adds to the trace and so takes no
evidence away.
-/

namespace Stric.Flow

open Stric.Pool

/-- What a node does besides receiving control messages. -/
inductive MeshAct where
  | connect (addr : SocketAddr) (serverName : String)
  | registerPeer (peerId : NodeId) (remoteAddr : SocketAddr) (tx : Nat)
  | syncTopology (peerId : NodeId)
  | syncSubscriptions (peerId : NodeId)
  | peerConnected (clock : Clock) (nodeId : NodeId) (tx : Nat)
  | peerDisconnected (clock : Clock) (nodeId : NodeId)
  | ping (peerId : NodeId) (sentAt : UInt64)
  | subscribe (pattern : String) (handler : Nat)
  | announce (pattern : String)
  | create (clock sentClock : Clock) (sessionId : String) (flowIds : List String)
      (metadata : HashMap String String)
  | join (sessionId : String)
  | leave (sessionId : String)
  | close (sessionId reason : String)
  | sync (clock : Clock) (sessionId : String) (data : Bytes)
  | registerMergeFn (sessionId : String) (mergeFn : StateMergeFn)
  | collect (now : Nat)
  | sendBackpressure (flowId : String) (action : BackpressureAction) (maxRate : UInt32)

section
variable {γ δ : Type} [PetGraph γ]

namespace FlowNode

def sendBackpressure (n : FlowNode γ δ) (flowId : String) (action : BackpressureAction)
    (maxRate : UInt32) : List Send :=
  n.broadcast (.of (.backpressure ⟨flowId, "", action.toI32, maxRate⟩))

/-- The node after the act, and what it sends.  The update of `subscribe` and the messages of the
garbage collection go into the node's own control channel. -/
def does (n : FlowNode γ δ) : MeshAct → FlowNode γ δ × List Send
  | .connect addr serverName =>
    ({ n with pendingConnects := n.pendingConnects.insert addr serverName }, [])
  | .registerPeer peerId remoteAddr tx => ((n.registerPeer peerId remoteAddr tx).1, [])
  | .syncTopology peerId => (n, [(peerId, .of (.topologyUpdate (n.snapshot 1)))])
  | .syncSubscriptions peerId => (n, [(peerId, .of (.subscriptionUpdate n.subscriptionSync))])
  | .peerConnected clock nodeId tx => n.controlStep clock (.peerConnected nodeId tx)
  | .peerDisconnected clock nodeId => n.controlStep clock (.peerDisconnected nodeId)
  | .ping peerId sentAt => (n, [(peerId, .of (.ping ⟨sentAt⟩))])
  | .subscribe pattern handler =>
    ({ n with topicHandlers := n.topicHandlers.insert pattern handler }, [])
  | .announce pattern =>
    let n := { n with localSubscriptions := n.localSubscriptions.insert pattern }
    (n, [(n.nodeId, .of (.subscriptionUpdate n.subscribeUpdate))])
  | .create clock sentClock sessionId flowIds metadata =>
    n.createSession clock sentClock sessionId flowIds metadata
  | .join sessionId => n.joinSession sessionId
  | .leave sessionId => n.leaveSession sessionId
  | .close sessionId reason =>
    let (n, outs, _) := n.closeSession sessionId reason
    (n, outs)
  | .sync clock sessionId data =>
    let (n, outs, _) := n.syncSessionState clock sessionId data
    (n, outs)
  | .registerMergeFn sessionId mergeFn => (n.registerMergeFn sessionId mergeFn, [])
  | .collect now => n.collect now
  | .sendBackpressure flowId action maxRate => (n, n.sendBackpressure flowId action maxRate)

end FlowNode

def mesh : Protocol NodeId (FlowNode γ δ) ControlMessage MeshAct where
  recv _ sender msg n n' outs := receives sender msg n n' outs
  own _ a n n' outs := n.does a = (n', outs)

/-- Every node as it is built. -/
def meshStart (registry : NodeId → MessageRegistry δ) : Net NodeId (FlowNode γ δ) ControlMessage :=
  ⟨fun v => FlowNode.new v (registry v), []⟩

end

/-! ## What has happened -/

abbrev MeshTrace := List (Event NodeId ControlMessage MeshAct)

section
variable (trace : MeshTrace)

/-- `a` has heard a `Pong` of `b`. -/
def Ponged (a b : NodeId) : Prop :=
  ∃ pong outs, Event.deliver ⟨b, a, .of (.pong pong)⟩ outs ∈ trace

def Announced (v : NodeId) (pattern : String) : Prop :=
  ∃ outs, Event.own v (.announce pattern) outs ∈ trace

def Created (v : NodeId) (sid : String) (flowIds : List String) (metadata : HashMap String String) :
    Prop :=
  ∃ clock sentClock outs, Event.own v (.create clock sentClock sid flowIds metadata) outs ∈ trace

def Written (sid : String) (data : Bytes) : Prop :=
  ∃ v clock outs, Event.own v (.sync clock sid data) outs ∈ trace

/-- No merge function has been registered. -/
def Unmerged : Prop := ∀ v sid mergeFn outs, Event.own v (.registerMergeFn sid mergeFn) outs ∉ trace

structure LinkOk (a b : NodeId) (w : LinkWeight) : Prop where
  cost : w.hopCost = 1
  pong : Ponged trace a b ∨ Ponged trace b a

structure DescriptorOk (d : NodeDescriptor) : Prop where
  role : d.role = NodeRole.flow.toI32
  subscribed : ∀ key ∈ d.capabilities, ∃ pattern, key = subKey pattern ∧ Announced trace d.nodeId pattern

structure SessionOk (sid : String) (s : Session) : Prop where
  created : Created trace s.creatorNode sid s.flowIds s.metadata
  data : Unmerged trace → s.stateData = [] ∨ Written trace sid s.stateData

structure UpdateOk (u : TopologyUpdate) : Prop where
  nodes : ∀ d ∈ u.nodesAdded, DescriptorOk trace d
  links : ∀ l ∈ u.linksAdded, LinkOk trace l.nodeA l.nodeB l.weight
  nodesRemoved : u.nodesRemoved = []
  linksRemoved : u.linksRemoved = []

def MessageOk (msg : ControlMessage) : Prop :=
  match msg.message with
  | some (.topologyUpdate u) => UpdateOk trace u
  | some (.subscriptionUpdate u) => ∀ entry ∈ u.entries, Announced trace u.nodeId entry.pattern
  | some (.sessionControl ⟨some (.create c)⟩) =>
    Created trace c.creatorNode c.sessionId c.flowIds c.metadata
  | some (.sessionControl ⟨some (.stateSync s)⟩) => Unmerged trace → Written trace s.sessionId s.data
  | _ => True

structure GraphOk {γ : Type} [PetGraph γ] (g : GlobalGraph γ) : Prop where
  reachable : g.Reachable
  links : ∀ a b w, g.Linked a b w → LinkOk trace a b w
  nodes : ∀ id d, g.nodeMetadata.lookup id = some d → d.nodeId = id ∧ DescriptorOk trace d

structure NodeOk {γ δ : Type} [PetGraph γ] (v : NodeId) (n : FlowNode γ δ) : Prop where
  id : n.nodeId = v
  graph : GraphOk trace n.graph
  subscriptions : ∀ pattern ∈ n.localSubscriptions, Announced trace v pattern
  sessions : ∀ sid s, n.sessions.lookup sid = some s → SessionOk trace sid s
  unmerged : Unmerged trace → ∀ sid, n.mergeFns.lookup sid = none

structure MeshOk {γ δ : Type} [PetGraph γ] (net : Net NodeId (FlowNode γ δ) ControlMessage) :
    Prop where
  nodes : ∀ v, NodeOk trace v (net.state v)
  flight : ∀ p ∈ net.flight, MessageOk trace p.msg

end

/-! ## More has happened -/

section
variable {trace trace' : MeshTrace} (hsub : trace ⊆ trace')

include hsub

theorem Ponged.mono {a b : NodeId} (h : Ponged trace a b) : Ponged trace' a b := by
  obtain ⟨pong, outs, he⟩ := h
  exact ⟨pong, outs, hsub he⟩

theorem Announced.mono {v : NodeId} {pattern : String} (h : Announced trace v pattern) :
    Announced trace' v pattern := by
  obtain ⟨outs, he⟩ := h
  exact ⟨outs, hsub he⟩

theorem Created.mono {v : NodeId} {sid : String} {flowIds : List String}
    {metadata : HashMap String String} (h : Created trace v sid flowIds metadata) :
    Created trace' v sid flowIds metadata := by
  obtain ⟨clock, sentClock, outs, he⟩ := h
  exact ⟨clock, sentClock, outs, hsub he⟩

theorem Written.mono {sid : String} {data : Bytes} (h : Written trace sid data) :
    Written trace' sid data := by
  obtain ⟨v, clock, outs, he⟩ := h
  exact ⟨v, clock, outs, hsub he⟩

theorem Unmerged.anti (h : Unmerged trace') : Unmerged trace :=
  fun v sid mergeFn outs he => h v sid mergeFn outs (hsub he)

theorem LinkOk.mono {a b : NodeId} {w : LinkWeight} (h : LinkOk trace a b w) :
    LinkOk trace' a b w :=
  ⟨h.cost, h.pong.imp (fun hp => hp.mono hsub) fun hp => hp.mono hsub⟩

theorem DescriptorOk.mono {d : NodeDescriptor} (h : DescriptorOk trace d) :
    DescriptorOk trace' d := by
  refine ⟨h.role, fun key hkey => ?_⟩
  obtain ⟨pattern, rfl, ha⟩ := h.subscribed key hkey
  exact ⟨pattern, rfl, ha.mono hsub⟩

theorem SessionOk.mono {sid : String} {s : Session} (h : SessionOk trace sid s) :
    SessionOk trace' sid s :=
  ⟨h.created.mono hsub, fun hun => (h.data (hun.anti hsub)).imp id fun hw => hw.mono hsub⟩

theorem UpdateOk.mono {u : TopologyUpdate} (h : UpdateOk trace u) : UpdateOk trace' u :=
  ⟨fun d hd => (h.nodes d hd).mono hsub, fun l hl => (h.links l hl).mono hsub, h.nodesRemoved,
    h.linksRemoved⟩

theorem MessageOk.mono {msg : ControlMessage} (h : MessageOk trace msg) : MessageOk trace' msg := by
  obtain ⟨payload⟩ := msg
  cases payload with
  | none => trivial
  | some payload =>
    cases payload with
    | topologyUpdate u => exact UpdateOk.mono hsub h
    | subscriptionUpdate u => exact fun entry he => (h entry he).mono hsub
    | sessionControl c =>
      obtain ⟨m | m⟩ := c
      · trivial
      · cases m with
        | create c => exact Created.mono hsub h
        | stateSync s => exact fun hun => (h (hun.anti hsub)).mono hsub
        | _ => trivial
    | _ => trivial

theorem GraphOk.mono {γ : Type} [PetGraph γ] {g : GlobalGraph γ} (h : GraphOk trace g) :
    GraphOk trace' g :=
  ⟨h.reachable, fun a b w hl => (h.links a b w hl).mono hsub,
    fun id d hd => ⟨(h.nodes id d hd).1, (h.nodes id d hd).2.mono hsub⟩⟩

theorem NodeOk.mono {γ δ : Type} [PetGraph γ] {v : NodeId} {n : FlowNode γ δ}
    (h : NodeOk trace v n) : NodeOk trace' v n :=
  ⟨h.id, h.graph.mono hsub, fun pattern hp => (h.subscriptions pattern hp).mono hsub,
    fun sid s hs => (h.sessions sid s hs).mono hsub, fun hun => h.unmerged (hun.anti hsub)⟩

end

/-! ## Graphs -/

section
variable {trace : MeshTrace} {γ : Type} [PetGraph γ] {g : GlobalGraph γ}

theorem LinkOk.symm {a b : NodeId} {w : LinkWeight} (h : LinkOk trace a b w) :
    LinkOk trace b a w := ⟨h.cost, h.pong.symm⟩

namespace GraphOk

theorem wf (h : GraphOk trace g) : g.WF := GlobalGraph.reachable_wf h.reachable

theorem addNode (h : GraphOk trace g) {d : NodeDescriptor} (hd : DescriptorOk trace d) :
    GraphOk trace (g.addNode d) := by
  refine ⟨h.reachable.addNode d, fun a b w hl => h.links a b w ((h.wf.linked_addNode d).mp hl),
    fun id d' hd' => ?_⟩
  by_cases hid : id = d.nodeId
  · subst hid
    rw [GlobalGraph.lookup_metadata_addNode_self] at hd'
    cases hd'
    exact ⟨rfl, hd⟩
  · rw [GlobalGraph.lookup_metadata_addNode_ne g d hid] at hd'
    exact h.nodes id d' hd'

theorem addLink (h : GraphOk trace g) {l : LinkDescriptor}
    (hl : LinkOk trace l.nodeA l.nodeB l.weight) : GraphOk trace (g.addLink l) := by
  refine ⟨h.reachable.addLink l, fun a b w hlinked => ?_, fun id d hd => ?_⟩
  · rcases (h.wf.linked_addLink l).mp hlinked with ⟨⟨rfl, rfl⟩ | ⟨rfl, rfl⟩, rfl⟩ | ⟨hold, -⟩
    · exact hl
    · exact hl.symm
    · exact h.links a b w hold
  · rw [GlobalGraph.addLink_metadata] at hd
    exact h.nodes id d hd

theorem applyUpdate (h : GraphOk trace g) {u : TopologyUpdate} (hu : UpdateOk trace u) :
    GraphOk trace (g.applyUpdate u) := by
  have hnodes : ∀ (ds : List NodeDescriptor) (g : GlobalGraph γ), GraphOk trace g →
      (∀ d ∈ ds, DescriptorOk trace d) → GraphOk trace (ds.foldl GlobalGraph.addNode g) := by
    intro ds
    induction ds with
    | nil => exact fun g hg _ => hg
    | cons d ds ih =>
      intro g hg hds
      obtain ⟨hd, hds⟩ := List.forall_mem_cons.mp hds
      exact ih _ (hg.addNode hd) hds
  have hlinks : ∀ (ls : List LinkDescriptor) (g : GlobalGraph γ), GraphOk trace g →
      (∀ l ∈ ls, LinkOk trace l.nodeA l.nodeB l.weight) →
      GraphOk trace (ls.foldl GlobalGraph.addLink g) := by
    intro ls
    induction ls with
    | nil => exact fun g hg _ => hg
    | cons l ls ih =>
      intro g hg hls
      obtain ⟨hl, hls⟩ := List.forall_mem_cons.mp hls
      exact ih _ (hg.addLink hl) hls
  unfold GlobalGraph.applyUpdate
  rw [hu.nodesRemoved, hu.linksRemoved]
  exact hlinks _ _ (hnodes _ _ h hu.nodes) hu.links

end GraphOk

/-- A snapshot tells what the graph holds. -/
theorem GraphOk.snapshot {δ : Type} {n : FlowNode γ δ} (h : GraphOk trace n.graph) (epoch : UInt64) :
    UpdateOk trace (n.snapshot epoch) := by
  refine ⟨fun d hd => ?_, fun l hl => ?_, rfl, rfl⟩
  · obtain ⟨⟨id, d'⟩, he, rfl⟩ := List.mem_map.mp hd
    exact (h.nodes id d' (AList.mem_lookup_iff.mpr he)).2
  · exact h.links _ _ _ (h.wf.linked_iff_descriptor.mpr ⟨l, hl, Or.inl ⟨rfl, rfl⟩, rfl⟩)

end

/-! ## Nodes -/

section
variable {trace : MeshTrace} {γ δ : Type} {n n' : FlowNode γ δ} {v sender : NodeId}
  {outs : List Send}

theorem mergeSync_some {mergeFn : Option StateMergeFn} {s s' : Session} {sync : SessionStateSync}
    (h : FlowNode.mergeSync mergeFn s sync = some s') :
    s'.creatorNode = s.creatorNode ∧ s'.flowIds = s.flowIds ∧ s'.metadata = s.metadata ∧
      (mergeFn = none → s'.stateData = sync.data) := by
  unfold FlowNode.mergeSync at h
  split at h
  · split at h
    · cases h
      exact ⟨rfl, rfl, rfl, fun hf => by cases hf⟩
    · cases h
  · split at h
    · cases h
      exact ⟨rfl, rfl, rfl, fun _ => rfl⟩
    · cases h

theorem messageOk_gossip {about : NodeId} {msg : ControlMessage} (h : MessageOk trace msg) :
    ∀ o ∈ n.gossip sender about msg, MessageOk trace o.2 := by
  intro o ho
  rw [(FlowNode.mem_gossip.mp ho).2.2.2]
  exact h

theorem messageOk_broadcast {msg : ControlMessage} (h : MessageOk trace msg) :
    ∀ o ∈ n.broadcast msg, MessageOk trace o.2 := by
  intro o ho
  rw [(FlowNode.mem_broadcast.mp ho).2]
  exact h

theorem messageOk_nil : ∀ o ∈ ([] : List Send), MessageOk trace o.2 :=
  fun _ ho => absurd ho List.not_mem_nil

theorem messageOk_singleton {peer : NodeId} {msg : ControlMessage} (h : MessageOk trace msg) :
    ∀ o ∈ [(peer, msg)], MessageOk trace o.2 := by
  intro o ho
  rw [List.mem_singleton.mp ho]
  exact h

variable [PetGraph γ]

/-- Only the sessions change, and each is still in order. -/
theorem NodeOk.with_sessions {sessions : HashMap String Session} (h : NodeOk trace v n)
    (hs : ∀ sid s, sessions.lookup sid = some s → SessionOk trace sid s) :
    NodeOk trace v { n with sessions := sessions } :=
  ⟨h.id, h.graph, h.subscriptions, hs, h.unmerged⟩

theorem NodeOk.insert_session {sid : String} {s : Session} (h : NodeOk trace v n)
    (hs : SessionOk trace sid s) :
    NodeOk trace v { n with sessions := n.sessions.insert sid s } := by
  refine h.with_sessions fun sid' s' hs' => ?_
  by_cases hsid : sid' = sid
  · subst hsid
    rw [AList.lookup_insert] at hs'
    cases hs'
    exact hs
  · rw [AList.lookup_insert_ne hsid] at hs'
    exact h.sessions sid' s' hs'

theorem NodeOk.erase_session (h : NodeOk trace v n) (sid : String) :
    NodeOk trace v { n with sessions := n.sessions.erase sid } := by
  refine h.with_sessions fun sid' s' hs' => ?_
  by_cases hsid : sid' = sid
  · subst hsid
    rw [AList.lookup_erase] at hs'
    cases hs'
  · rw [AList.lookup_erase_ne hsid] at hs'
    exact h.sessions sid' s' hs'

theorem NodeOk.onSession {m : SessionMessage} (h : NodeOk trace v n)
    (hm : MessageOk trace (.ofSession m)) (hr : n.onSession sender m = (n', outs)) :
    NodeOk trace v n' ∧ ∀ o ∈ outs, MessageOk trace o.2 := by
  cases m with
  | create c =>
    change n.onCreate sender c = _ at hr
    unfold FlowNode.onCreate at hr
    split at hr
    · cases hr
      exact ⟨h, messageOk_nil⟩
    · cases hr
      exact ⟨h.insert_session ⟨hm, fun _ => Or.inl rfl⟩, messageOk_gossip hm⟩
  | join j =>
    cases hr
    exact ⟨h, messageOk_gossip hm⟩
  | leave l =>
    cases hr
    exact ⟨h, messageOk_gossip hm⟩
  | close c =>
    change n.onClose sender c = _ at hr
    unfold FlowNode.onClose at hr
    simp only at hr
    split at hr
    · cases hr
      exact ⟨h.erase_session _, messageOk_gossip hm⟩
    · cases hr
      exact ⟨h.erase_session _, messageOk_nil⟩
  | stateSync sync =>
    change n.onStateSync sender sync = _ at hr
    unfold FlowNode.onStateSync at hr
    split at hr
    · cases hr
      exact ⟨h, messageOk_nil⟩
    · next session hs =>
      split at hr
      · cases hr
        exact ⟨h, messageOk_nil⟩
      · next session' hs' =>
        cases hr
        obtain ⟨hcreator, hflows, hmeta, hdata⟩ := mergeSync_some hs'
        have hold := h.sessions _ _ hs
        have hwritten : Unmerged trace → Written trace sync.sessionId session'.stateData := by
          intro hun
          rw [hdata (h.unmerged hun _)]
          exact hm hun
        refine ⟨h.insert_session ⟨?_, fun hun => Or.inr (hwritten hun)⟩, messageOk_gossip hwritten⟩
        rw [hcreator, hflows, hmeta]
        exact hold.created

/-- One turn of the control loop. -/
theorem NodeOk.onMessage {clock : Clock} {msg : ControlMessage} (h : NodeOk trace v n)
    (hm : MessageOk trace msg) (hpong : ∀ pong, msg = .of (.pong pong) → Ponged trace v sender)
    (hr : n.onMessage clock sender msg = (n', outs)) :
    NodeOk trace v n' ∧ ∀ o ∈ outs, MessageOk trace o.2 := by
  rcases msg.cases with ⟨u, rfl⟩ | ⟨u, rfl⟩ | ⟨pong, rfl⟩ | hplain
  · obtain ⟨t, ⟨-, rfl, rfl⟩ | ⟨-, rfl, rfl⟩⟩ := FlowNode.onMessage_topology clock n sender u hr
    · exact ⟨⟨h.id, h.graph.applyUpdate hm, h.subscriptions, h.sessions, h.unmerged⟩,
        messageOk_gossip hm⟩
    · exact ⟨⟨h.id, h.graph, h.subscriptions, h.sessions, h.unmerged⟩, messageOk_nil⟩
  · obtain ⟨t, ⟨-, rfl, rfl⟩ | ⟨-, rfl, rfl⟩⟩ := FlowNode.onMessage_subscription clock n sender u hr
    · refine ⟨⟨h.id, h.graph.addNode ⟨rfl, fun key hkey => ?_⟩, h.subscriptions, h.sessions,
        h.unmerged⟩, messageOk_gossip hm⟩
      obtain ⟨entry, he, -, rfl⟩ := (mem_subscriptionCapabilities u key).mp hkey
      exact ⟨entry.pattern, rfl, hm entry he⟩
    · exact ⟨⟨h.id, h.graph, h.subscriptions, h.sessions, h.unmerged⟩, messageOk_nil⟩
  · change (n.seen clock sender).onPong clock sender pong = _ at hr
    unfold FlowNode.onPong at hr
    simp only at hr
    have hgraph : GraphOk trace
        (n.graph.addLink ⟨n.nodeId, sender, 1, FlowNode.rttMillis clock pong * 1000⟩) := by
      refine h.graph.addLink ⟨rfl, Or.inl ?_⟩
      rw [h.id]
      exact hpong pong rfl
    split at hr
    · cases hr
      exact ⟨⟨h.id, hgraph, h.subscriptions, h.sessions, h.unmerged⟩,
        messageOk_broadcast (GraphOk.snapshot hgraph _)⟩
    · cases hr
      exact ⟨⟨h.id, hgraph, h.subscriptions, h.sessions, h.unmerged⟩, messageOk_nil⟩
  · have hseen : NodeOk trace v (n.seen clock sender) :=
      ⟨h.id, h.graph, h.subscriptions, h.sessions, h.unmerged⟩
    rcases n.onMessage_plain_cases clock sender hplain hr with
      ⟨m, rfl, hsession⟩ | ⟨tx, p, -, rfl, rfl⟩ | ⟨limiters, rfl, rfl⟩
    · exact hseen.onSession hm hsession
    · exact ⟨hseen, messageOk_singleton trivial⟩
    · exact ⟨⟨h.id, h.graph, h.subscriptions, h.sessions, h.unmerged⟩, messageOk_nil⟩

/-- The subscriptions a node tells of are its own. -/
theorem NodeOk.subscribeEntries (h : NodeOk trace v n) :
    ∀ entry ∈ FlowNode.subscribeEntries n.localSubscriptions,
      Announced trace n.nodeId entry.pattern := by
  intro entry he
  obtain ⟨pattern, hp, rfl⟩ := List.mem_map.mp he
  rw [h.id]
  exact h.subscriptions pattern hp

theorem lookup_gcInactiveSessions {now ttl : Nat} {sessions : HashMap String Session}
    {nodeLastSeen : HashMap NodeId Nat} {sid : String} {s : Session}
    (h : (gcInactiveSessions now sessions nodeLastSeen ttl).1.lookup sid = some s) :
    sessions.lookup sid = some s := by
  have he := AList.mem_lookup_iff.mp h
  exact AList.mem_lookup_iff.mpr (List.mem_filter.mp he).1

theorem NodeOk.sync {clock : Clock} {sid : String} {data : Bytes} (h : NodeOk trace v n)
    (hw : Written trace sid data) :
    NodeOk trace v (n.syncSessionState clock sid data).1 ∧
      ∀ o ∈ (n.syncSessionState clock sid data).2.1, MessageOk trace o.2 := by
  unfold FlowNode.syncSessionState
  split
  · exact ⟨h, messageOk_nil⟩
  · next session hs =>
    have hold := h.sessions sid session hs
    simp only
    split
    · exact ⟨h.insert_session ⟨hold.created, hold.data⟩, messageOk_nil⟩
    · next merged hmerged =>
      refine ⟨h.insert_session ⟨hold.created, fun hun => ?_⟩, messageOk_broadcast fun _ => hw⟩
      rw [h.unmerged hun sid] at hmerged
      cases hmerged
      exact Or.inr hw

/-- What a node does by itself. -/
theorem NodeOk.does {a : MeshAct} (h : NodeOk trace v n) (ha : Event.own v a outs ∈ trace)
    (hr : n.does a = (n', outs)) : NodeOk trace v n' ∧ ∀ o ∈ outs, MessageOk trace o.2 := by
  cases a with
  | connect addr serverName | registerPeer peerId remoteAddr tx | subscribe pattern handler
  | peerConnected clock nodeId tx =>
    cases hr
    exact ⟨⟨h.id, h.graph, h.subscriptions, h.sessions, h.unmerged⟩, messageOk_nil⟩
  | peerDisconnected clock nodeId =>
    change n.controlStep clock (.peerDisconnected nodeId) = _ at hr
    unfold FlowNode.controlStep at hr
    simp only at hr
    split at hr
    · cases hr
      exact ⟨⟨h.id, h.graph, h.subscriptions, h.sessions, h.unmerged⟩, messageOk_nil⟩
    · cases hr
      exact ⟨⟨h.id, h.graph, h.subscriptions, h.sessions, h.unmerged⟩, messageOk_nil⟩
  | syncTopology peerId =>
    cases hr
    exact ⟨h, messageOk_singleton (GraphOk.snapshot h.graph 1)⟩
  | syncSubscriptions peerId =>
    cases hr
    exact ⟨h, messageOk_singleton h.subscribeEntries⟩
  | ping peerId sentAt =>
    cases hr
    exact ⟨h, messageOk_singleton trivial⟩
  | announce pattern =>
    cases hr
    have hnode : NodeOk trace v
        { n with localSubscriptions := n.localSubscriptions.insert pattern } := by
      refine ⟨h.id, h.graph, fun p hp => ?_, h.sessions, h.unmerged⟩
      rcases List.mem_insert_iff.mp hp with rfl | hp
      · exact ⟨_, ha⟩
      · exact h.subscriptions p hp
    exact ⟨hnode, messageOk_singleton hnode.subscribeEntries⟩
  | create clock sentClock sid flowIds metadata =>
    have hcreated : Created trace n.nodeId sid flowIds metadata := by
      rw [h.id]
      exact ⟨clock, sentClock, outs, ha⟩
    cases hr
    exact ⟨h.insert_session ⟨hcreated, fun _ => Or.inl rfl⟩, messageOk_broadcast hcreated⟩
  | join sid | leave sid | sendBackpressure flowId action maxRate =>
    cases hr
    exact ⟨h, messageOk_broadcast trivial⟩
  | close sid reason =>
    change ((n.closeSession sid reason).1, (n.closeSession sid reason).2.1) = _ at hr
    unfold FlowNode.closeSession at hr
    split at hr
    · cases hr
      exact ⟨h, messageOk_nil⟩
    · cases hr
      exact ⟨h.erase_session sid, messageOk_broadcast trivial⟩
  | sync clock sid data =>
    have hwritten : Written trace sid data := ⟨v, clock, outs, ha⟩
    change ((n.syncSessionState clock sid data).1, (n.syncSessionState clock sid data).2.1) = _ at hr
    cases hr
    exact h.sync hwritten
  | registerMergeFn sid mergeFn =>
    have hmerged : ¬ Unmerged trace := fun hun => hun v sid mergeFn outs ha
    cases hr
    refine ⟨⟨h.id, h.graph, h.subscriptions, h.sessions, fun hun => absurd hun hmerged⟩,
      messageOk_nil⟩
  | collect now =>
    cases hr
    refine ⟨h.with_sessions fun sid s hs => h.sessions sid s (lookup_gcInactiveSessions hs), ?_⟩
    intro o ho
    obtain ⟨sid, -, rfl⟩ := List.mem_map.mp ho
    trivial

end

/-! ## Runs -/

section
variable {γ δ : Type} [PetGraph γ] {trace later : MeshTrace}
  {net net' : Net NodeId (FlowNode γ δ) ControlMessage} {registry : NodeId → MessageRegistry δ}

theorem MeshOk.start : MeshOk [] (meshStart registry : Net NodeId (FlowNode γ δ) ControlMessage) := by
  have hgraph : GraphOk [] (GlobalGraph.new : GlobalGraph γ) := by
    refine ⟨.new, fun a b w hl => ?_, fun id d hd => ?_⟩
    · obtain ⟨i, j, hi, -, -⟩ := hl
      cases hi
    · cases hd
  refine ⟨fun v => ⟨rfl, hgraph, fun p hp => absurd hp List.not_mem_nil, fun sid s hs => ?_,
    fun _ sid => rfl⟩, fun p hp => absurd hp List.not_mem_nil⟩
  cases hs

/-- One step. -/
theorem MeshOk.step {e : Event NodeId ControlMessage MeshAct} (h : MeshOk trace net)
    (hs : Step mesh net e net') : MeshOk (e :: trace) net' := by
  have hsub : trace ⊆ e :: trace := List.subset_cons_self _ _
  have hnodes : ∀ v, NodeOk (e :: trace) v (net.state v) := fun v => (h.nodes v).mono hsub
  have hflight : ∀ p ∈ net.flight, MessageOk (e :: trace) p.msg :=
    fun p hp => (h.flight p hp).mono hsub
  cases hs with
  | @deliver l₁ l₂ p n' outs hf hr =>
    obtain ⟨clock, hr⟩ := hr
    have hp : p ∈ net.flight := by
      rw [hf]
      exact List.mem_append_right _ List.mem_cons_self
    have hpong : ∀ pong, p.msg = .of (.pong pong) →
        Ponged (.deliver p outs :: trace) p.dst p.src := by
      intro pong hmsg
      refine ⟨pong, outs, ?_⟩
      rw [← hmsg]
      exact List.mem_cons_self
    obtain ⟨hnode, houts⟩ := (hnodes p.dst).onMessage (hflight p hp) hpong hr
    refine ⟨Net.act_forall (fun v n => NodeOk _ v n) hnode hnodes, fun q hq => ?_⟩
    rcases Net.mem_act.mp hq with hq | ⟨o, ho, rfl⟩
    · exact hflight q (mem_of_mem_rest hf hq)
    · exact houts o ho
  | @own v a n' outs hr =>
    obtain ⟨hnode, houts⟩ := (hnodes v).does List.mem_cons_self hr
    refine ⟨Net.act_forall (fun v n => NodeOk _ v n) hnode hnodes, fun q hq => ?_⟩
    rcases Net.mem_act.mp hq with hq | ⟨o, ho, rfl⟩
    · exact hflight q hq
    · exact houts o ho

/-- A run. -/
theorem MeshOk.run (h : Run mesh (meshStart registry) trace net) : MeshOk trace net := by
  induction h with
  | nil => exact .start
  | step _ hs ih => exact ih.step hs

/-- **Nothing comes out of thin air.**  In every state a mesh of these nodes can reach, whatever the
order of steps: every link in a node's graph has cost 1 and stems from a `Pong` between its ends,
every descriptor is a `Flow` node's and its subscriptions are ones that node has made, and every
session was created by the node it names and, without merge functions, holds data that was written
to it. -/
theorem mesh_provenance (h : Run mesh (meshStart registry) trace net) (v : NodeId) :
    (∀ a b w, (net.state v).graph.Linked a b w →
      w.hopCost = 1 ∧ (Ponged trace a b ∨ Ponged trace b a)) ∧
    (∀ id d, (net.state v).graph.nodeMetadata.lookup id = some d →
      d.role = NodeRole.flow.toI32 ∧
      ∀ key ∈ d.capabilities, ∃ pattern, key = subKey pattern ∧ Announced trace id pattern) ∧
    ∀ sid s, (net.state v).sessions.lookup sid = some s →
      Created trace s.creatorNode sid s.flowIds s.metadata ∧
      (Unmerged trace → s.stateData = [] ∨ Written trace sid s.stateData) := by
  have hnode := (MeshOk.run h).nodes v
  refine ⟨fun a b w hl => ?_, fun id d hd => ?_, fun sid s hs => ?_⟩
  · obtain ⟨hcost, hpong⟩ := hnode.graph.links a b w hl
    exact ⟨hcost, hpong⟩
  · obtain ⟨rfl, hok⟩ := hnode.graph.nodes id d hd
    exact ⟨hok.role, hok.subscribed⟩
  · obtain ⟨hcreated, hdata⟩ := hnode.sessions sid s hs
    exact ⟨hcreated, hdata⟩

end

/-- "b" registers "a", "a" pings it, "b" answers: "a" has a link.  Then "b" subscribes to "t". -/
theorem exists_mesh_pair : ∃ trace net, Run mesh
      (meshStart (fun _ => ∅) : Net NodeId (FlowNode VecGraph Unit) ControlMessage) trace net ∧
    (net.state "a").graph.Linked "a" "b" ⟨1, 0⟩ ∧
    (PetGraph.edgeReferences (net.state "a").graph.graph).length = 2 ∧
    "b" ∈ (net.state "a").subscribers "t" := by
  have h0 : Run mesh (meshStart (fun _ => ∅) : Net NodeId (FlowNode VecGraph Unit) ControlMessage)
      [] _ := .nil
  have h1 := h0.act_own "b" (.peerConnected ⟨0, 0⟩ "a" 0) _ _ rfl
  have h2 := h1.act_own "a" (.ping "b" 5) _ _ rfl
  have h3 := h2.deliver_head rfl _ _ ⟨⟨1, 6⟩, rfl⟩
  have h4 := h3.deliver_head rfl _ _ ⟨⟨2, 5⟩, rfl⟩
  have h5 := h4.act_own "b" (.announce "t") _ _ rfl
  have h6 := h5.deliver_head rfl _ _ ⟨⟨3, 6⟩, rfl⟩
  have h7 := h6.deliver_head rfl _ _ ⟨⟨4, 7⟩, rfl⟩
  exact ⟨_, _, h7, ⟨0, 1, rfl, rfl, by decide⟩, by decide, by decide⟩

theorem mesh_provenance_pair : ∃ trace net, Run mesh
      (meshStart (fun _ => ∅) : Net NodeId (FlowNode VecGraph Unit) ControlMessage) trace net ∧
    (net.state "a").graph.Linked "a" "b" ⟨1, 0⟩ ∧ (Ponged trace "a" "b" ∨ Ponged trace "b" "a") := by
  obtain ⟨trace, net, h, hl, -⟩ := exists_mesh_pair
  exact ⟨trace, net, h, hl, ((mesh_provenance h "a").1 _ _ _ hl).2⟩

end Stric.Flow
