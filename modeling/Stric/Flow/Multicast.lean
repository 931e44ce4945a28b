import Stric.Flow.Node
import Stric.Flow.RoutingTree
import Stric.Pool.Network

/-!
# Publishing and relaying (`node.rs`)

`publish` finds the subscribers in its graph, delivers to itself, and sends the envelope
with the forwarding table to its own children.  A node that receives an envelope looks
itself up in that table, passes a copy to each of its children that it has a connection to,
and tries one local delivery (`receive`).  Relays keep no state about envelopes.

Which connections a node has at that moment, and whether opening the stream and writing to
it succeeds, is up to the host (`Host`).  `publish_exactly_once` is about every order of
deliveries and every choice of hosts: nobody receives a second copy, the publisher none;
and if the hosts' connections cover the table, every reachable subscriber receives one.
-/

namespace Stric.Flow

open Stric.Pool Relation

/-- One call of a handler's `handle_message`. -/
structure Delivery (δ : Type) where
  handler : Nat
  flowId : String
  topicId : String
  message : δ

def MessageRegistry.decode {δ : Type} (registry : MessageRegistry δ) (messageType : String)
    (data : Bytes) : Except String δ :=
  match registry.lookup messageType with
  | none => .error ("No parser registered for message type: " ++ messageType)
  | some parser => parser data

/-- The call's result: the local delivery, the envelope, and its copies by next hop. -/
structure Published (δ : Type) where
  delivery : Option (Delivery δ)
  envelope : Option Envelope
  sends : List (NodeId × Envelope)

/-- The forwarding table an envelope carries. -/
def Envelope.table (e : Envelope) : HashMap NodeId ForwardingTargets :=
  match e.header with
  | some header => header.forwardingTable
  | none => ∅

/-- The forwarding table that was published. -/
def Published.table {δ : Type} (p : Published δ) : HashMap NodeId ForwardingTargets :=
  match p.envelope with
  | some e => e.table
  | none => ∅

namespace FlowNode

variable {γ δ : Type} [PetGraph γ]

/-! ## The data plane -/

/-- The first handler, in iteration order, whose pattern matches. -/
def matchedHandler (n : FlowNode γ δ) (topicId : String) : Option Nat :=
  (n.topicHandlers.entries.find? fun entry => matchTopic entry.1 topicId).map fun entry => entry.2

def deliverLocal (n : FlowNode γ δ) (flowId topicId messageType : String) (payload : Bytes) :
    Option (Delivery δ) :=
  match MessageRegistry.decode n.registry messageType payload with
  | .error _ => none
  | .ok decoded => (n.matchedHandler topicId).map fun handler => ⟨handler, flowId, topicId, decoded⟩

/-- The first connection of the store to the peer. -/
def nextConn (n : FlowNode γ δ) (nextHop : NodeId) : Option Nat :=
  (n.store.entries.find? fun entry => entry.2 = some nextHop).map fun entry => entry.1

/-- Copies for the next hops this node has a connection to. -/
def forward (n : FlowNode γ δ) (envelope : Envelope) : List (NodeId × Envelope) :=
  match envelope.table.lookup n.nodeId with
  | none => []
  | some targets =>
    (targets.sendTo.filter fun nextHop => (n.nextConn nextHop).isSome).map
      fun nextHop => (nextHop, envelope)

/-- The task of an incoming data stream. -/
def receive (n : FlowNode γ δ) (envelope : Envelope) :
    Option (Delivery δ) × List (NodeId × Envelope) :=
  match envelope.header with
  | none => (none, [])
  | some header =>
    (n.deliverLocal header.flowId header.topicId envelope.messageType envelope.payload,
      n.forward envelope)

/-- Some `sub:` capability matches the topic. -/
def isSubscribed (d : NodeDescriptor) (topicId : String) : Bool :=
  d.capabilities.keys.any fun key =>
    match stripSub key with
    | some pattern => matchTopic pattern topicId
    | none => false

/-- The nodes with a matching subscription, in the iteration order of `node_metadata`. -/
def subscribers (n : FlowNode γ δ) (topicId : String) : List NodeId :=
  (n.graph.nodeMetadata.entries.filter fun entry => isSubscribed entry.2 topicId).map
    fun entry => entry.1

def publish (η : Type) [BinaryHeap η] (b : Build) (clock : Clock) (nonce : String)
    (n : FlowNode γ δ) (flowId topicId messageType : String) (codec : Codec) (payload : Bytes) :
    Except Fault (Published δ) :=
  let subscribers := n.subscribers topicId
  let localInterested := n.localSubscriptions.any fun pattern => matchTopic pattern topicId
  let delivery :=
    if localInterested then n.deliverLocal flowId topicId messageType payload else none
  if subscribers = [] then .ok ⟨delivery, none, []⟩
  else do
    let forwardingTable ← n.graph.computeForwardingTable η b n.nodeId subscribers
    let header : RoutingHeader :=
      { sourceNodeId := n.nodeId
        flowId := flowId
        topicId := topicId
        sessionId := ""
        nonce := nonce
        timestamp := clock.millis
        deadline := 0
        deliveryMode := DeliveryMode.guaranteed.toI32
        forwardingTable := forwardingTable }
    let envelope : Envelope := ⟨some header, messageType, codec.toI32, payload⟩
    pure ⟨delivery, some envelope, n.forward envelope⟩

end FlowNode

/-! ## The children of a table -/

section
variable (table : HashMap NodeId ForwardingTargets)

/-- The targets of a parent, none if it is not in the table. -/
def kids (parent : NodeId) : List NodeId :=
  match table.lookup parent with
  | some targets => targets.sendTo
  | none => []

/-- The children of all (parent, child) pairs. -/
def children : List NodeId := table.entries.flatMap fun entry => entry.2.sendTo

/-- The number of (parent, child) pairs. -/
def pairCount : Nat := (table.entries.map fun entry => entry.2.sendTo.length).sum

theorem length_children : (children table).length = pairCount table := by
  simp [children, pairCount, List.length_flatMap]

variable {table}

theorem mem_kids {p c : NodeId} : c ∈ kids table p ↔ TableEdge table p c := by
  unfold kids TableEdge
  cases table.lookup p <;> simp

theorem mem_entries {p : NodeId} {targets : ForwardingTargets} :
    (⟨p, targets⟩ : Sigma fun _ : NodeId => ForwardingTargets) ∈ table.entries ↔
      table.lookup p = some targets := (AList.mem_lookup_iff).symm

theorem mem_children {c : NodeId} : c ∈ children table ↔ ∃ p, c ∈ kids table p := by
  unfold children
  rw [List.mem_flatMap]
  constructor
  · rintro ⟨⟨p, targets⟩, he, hc⟩
    exact ⟨p, mem_kids.mpr ⟨targets, mem_entries.mp he, hc⟩⟩
  · rintro ⟨p, hc⟩
    obtain ⟨targets, hl, hc⟩ := mem_kids.mp hc
    exact ⟨⟨p, targets⟩, mem_entries.mpr hl, hc⟩

/-- In a tree, no child occurs in two pairs. -/
theorem nodup_children {root : NodeId} (h : IsTree (kids table) root) :
    (children table).Nodup := by
  unfold children
  rw [List.nodup_flatMap]
  constructor
  · rintro ⟨p, targets⟩ he
    have := h.nodup p
    rwa [kids, mem_entries.mp he] at this
  · have hkeys : (table.entries.map fun entry => entry.1).Nodup := table.nodupKeys
    refine (List.pairwise_map.mp hkeys).imp_of_mem ?_
    rintro ⟨p, t⟩ ⟨q, t'⟩ hp hq hne c hc hc'
    exact hne (h.parent p q c (mem_kids.mpr ⟨t, mem_entries.mp hp, hc⟩)
      (mem_kids.mpr ⟨t', mem_entries.mp hq, hc'⟩))

end

/-! ## What is published -/

theorem isTree_of_leastCost {γ : Type} [PetGraph γ] {g : GlobalGraph γ} {source : String}
    {subs : List String} {table : HashMap NodeId ForwardingTargets}
    (h : g.IsLeastCostTree source subs table) : IsTree (kids table) source where
  parent p q c hp hq := by
    have hp := mem_kids.mp hp
    have hq := mem_kids.mp hq
    have hne : c ≠ source := fun e => h.root p (e ▸ hp)
    exact (h.parent c ⟨p, Or.inr hp⟩ hne).unique hp hq
  root p hp := h.root p (mem_kids.mp hp)
  nodup p := by
    unfold kids
    cases hl : table.lookup p with
    | none => exact List.nodup_nil
    | some targets => exact h.distinct p targets hl

section
variable {γ δ : Type} [PetGraph γ]

/-- A walk that leaves its start begins at a node of the graph. -/
theorem GlobalGraph.WF.lookup_of_walk {g : GlobalGraph γ} (hg : g.WF) {u v : NodeId} {c : Nat}
    (hw : Walk g.Link u v c) (hne : v ≠ u) : ∃ i, g.nodeIndices.lookup u = some i := by
  induction hw with
  | nil => exact absurd rfl hne
  | @snoc w v c k _ he ih =>
    by_cases hwu : w = u
    · obtain ⟨e, he, hs, -, -⟩ := he
      rw [← hwu, ← hs]
      exact ⟨_, hg.lookup_name (PetGraph.edge_bounds g.graph e he).1⟩
    · exact ih hwu

/-- What the published table is to the publisher's view of the topology. -/
structure Routes (n : FlowNode γ δ) (topicId : String) (table : HashMap NodeId ForwardingTargets) :
    Prop where
  tree : IsTree (kids table) n.nodeId
  rooted : ∀ p c, c ∈ kids table p → ReflTransGen (fun p c => c ∈ kids table p) n.nodeId c
  reaches : ∀ sub ∈ n.subscribers topicId, sub ≠ n.nodeId →
    (∃ c, Walk n.graph.Link n.nodeId sub c) →
    ReflTransGen (fun p c => c ∈ kids table p) n.nodeId sub

theorem routes_of_leastCost {n : FlowNode γ δ} {topicId : String}
    {table : HashMap NodeId ForwardingTargets}
    (h : n.graph.IsLeastCostTree n.nodeId (n.subscribers topicId) table) :
    Routes n topicId table := by
  have hkids : (fun p c => c ∈ kids table p) = TableEdge table := by
    funext p c
    exact propext mem_kids
  refine ⟨isTree_of_leastCost h, fun p c hc => ?_, fun sub hsub hne hw => ?_⟩
  · rw [hkids]
    exact h.rooted c ⟨p, Or.inr (mem_kids.mp hc)⟩
  · rw [hkids]
    exact h.rooted sub ((h.spans sub hsub hne).mpr hw)

theorem routes_empty {n : FlowNode γ δ} {topicId : String}
    (h : ∀ sub ∈ n.subscribers topicId, sub ≠ n.nodeId → ¬ ∃ c, Walk n.graph.Link n.nodeId sub c) :
    Routes n topicId ∅ where
  tree := ⟨(fun _ _ _ hp => nomatch hp), (fun _ hp => nomatch hp), fun _ => List.nodup_nil⟩
  rooted _ _ hc := nomatch hc
  reaches sub hsub hne hw := absurd hw (h sub hsub hne)

/-- If the node is in its own graph, and has subscribers there, it publishes a least-cost tree. -/
theorem publish_leastCost (η : Type) [BinaryHeap η] (b : Build) (clock : Clock) (nonce : String)
    {n : FlowNode γ δ} (hg : n.graph.Reachable) (htotal : n.graph.totalCost < u32Max.toNat) {s : Nat}
    (hs : n.graph.nodeIndices.lookup n.nodeId = some s) {topicId : String}
    (hne : n.subscribers topicId ≠ []) (flowId messageType : String) (codec : Codec)
    (payload : Bytes) :
    ∃ out e, n.publish η b clock nonce flowId topicId messageType codec payload = .ok out ∧
      n.graph.IsLeastCostTree n.nodeId (n.subscribers topicId) out.table ∧
      out.envelope = some e ∧ out.sends = n.forward e := by
  obtain ⟨st, table, htable, hcomputed⟩ :=
    GlobalGraph.computed_of_totalCost η b (GlobalGraph.reachable_wf hg) htotal hs hne
  unfold FlowNode.publish
  simp only [if_neg hne]
  rw [htable, except_ok_bind]
  exact ⟨_, _, rfl, hcomputed.isLeastCostTree, rfl, rfl⟩

/-- **`publish` succeeds**, with a table that is a tree over the reachable subscribers. -/
theorem publish_spec (η : Type) [BinaryHeap η] (b : Build) (clock : Clock) (nonce : String)
    (n : FlowNode γ δ) (hg : n.graph.Reachable) (htotal : n.graph.totalCost < u32Max.toNat)
    (flowId topicId messageType : String) (codec : Codec) (payload : Bytes) :
    ∃ out, n.publish η b clock nonce flowId topicId messageType codec payload = .ok out ∧
      Routes n topicId out.table ∧
      (out.sends = [] ∧ out.envelope = none ∨
        ∃ e, out.envelope = some e ∧ out.sends = n.forward e) := by
  have hwf := GlobalGraph.reachable_wf hg
  unfold FlowNode.publish
  by_cases hne : n.subscribers topicId = []
  · simp only [if_pos hne]
    refine ⟨_, rfl, routes_empty fun sub hsub => ?_, Or.inl ⟨rfl, rfl⟩⟩
    rw [hne] at hsub
    cases hsub
  · cases hs : n.graph.nodeIndices.lookup n.nodeId with
    | none =>
      have htable : n.graph.computeForwardingTable η b n.nodeId (n.subscribers topicId) = .ok ∅ := by
        rw [GlobalGraph.computeForwardingTable, if_neg hne, hs]
      simp only [if_neg hne]
      rw [htable, except_ok_bind]
      refine ⟨_, rfl, routes_empty fun sub _ hsne hw => ?_, Or.inr ⟨_, rfl, rfl⟩⟩
      obtain ⟨c, hw⟩ := hw
      obtain ⟨i, hi⟩ := hwf.lookup_of_walk hw hsne
      rw [hs] at hi
      cases hi
    | some s =>
      obtain ⟨out, e, hout, htree, henv, hsends⟩ :=
        publish_leastCost η b clock nonce hg htotal hs hne flowId messageType codec payload
      exact ⟨out, hout, routes_of_leastCost htree, Or.inr ⟨e, henv, hsends⟩⟩

end

/-! ## Relaying -/

section
variable {γ δ : Type}

/-- A node with the connections it has at the moment, and the peers to which opening a
stream and writing to it succeeds. -/
structure Host (γ δ : Type) where
  node : FlowNode γ δ
  writes : NodeId → Bool

/-- There is a connection to the peer, and it works. -/
def Host.live (h : Host γ δ) (peer : NodeId) : Prop :=
  (h.node.nextConn peer).isSome ∧ h.writes peer = true

/-- The copies that get through. -/
def Host.copies (h : Host γ δ) (outs : List (NodeId × Envelope)) : List (NodeId × Envelope) :=
  outs.filter fun o => h.writes o.1

theorem Host.mem_copies_forward (h : Host γ δ) (e : Envelope) (o : NodeId × Envelope) :
    o ∈ h.copies (h.node.forward e) ↔
      o.1 ∈ kids e.table h.node.nodeId ∧ h.live o.1 ∧ o.2 = e := by
  obtain ⟨c, e'⟩ := o
  unfold Host.copies FlowNode.forward kids Host.live
  cases e.table.lookup h.node.nodeId with
  | none => simp
  | some targets =>
    simp only [List.mem_filter, List.mem_map, Prod.mk.injEq]
    constructor
    · rintro ⟨⟨c', ⟨h1, h2⟩, rfl, rfl⟩, h3⟩
      exact ⟨h1, ⟨h2, h3⟩, rfl⟩
    · rintro ⟨h1, ⟨h2, h3⟩, rfl⟩
      exact ⟨⟨c, ⟨h1, h2⟩, rfl, rfl⟩, h3⟩

theorem Host.nodup_copies_forward (h : Host γ δ) (e : Envelope)
    (hn : (kids e.table h.node.nodeId).Nodup) :
    ((h.copies (h.node.forward e)).map fun o => o.1).Nodup := by
  unfold Host.copies FlowNode.forward
  unfold kids at hn
  cases hl : e.table.lookup h.node.nodeId with
  | none => simp
  | some targets =>
    rw [hl] at hn
    have hsub : (((targets.sendTo.filter fun c => (h.node.nextConn c).isSome).map
        fun c => (c, e)).map fun o => o.1) = targets.sendTo.filter fun c => (h.node.nextConn c).isSome := by
      simp [Function.comp_def]
    refine List.Nodup.sublist (List.Sublist.map _ List.filter_sublist) ?_
    simp only [hsub]
    exact hn.filter _

/-- Nodes relay as `receive` says.  A node's state is the log of its local delivery attempts;
`Up` says which hosts there may be. -/
def relays (Up : Host γ δ → Prop) :
    Protocol NodeId (List (Option (Delivery δ))) Envelope Empty where
  recv v _ e s s' outs := ∃ h : Host γ δ, Up h ∧ h.node.nodeId = v ∧
    s' = (h.node.receive e).1 :: s ∧ outs = h.copies (h.node.receive e).2
  own _ a := nomatch a

/-- The copies of the publisher are in flight; nothing has been received. -/
def launch (publisher : Host γ δ) (out : Published δ) :
    Net NodeId (List (Option (Delivery δ))) Envelope :=
  Net.act (fun _ => []) [] publisher.node.nodeId [] (publisher.copies out.sends)

theorem FlowNode.receive_snd (n : FlowNode γ δ) (e : Envelope) : (n.receive e).2 = n.forward e := by
  unfold FlowNode.receive FlowNode.forward Envelope.table
  cases e.header <;> simp

/-- Every receipt is one local delivery attempt. -/
theorem length_state_relays {Up : Host γ δ → Prop} {publisher : Host γ δ} {out : Published δ}
    {trace : List (Event NodeId Envelope Empty)}
    {net : Net NodeId (List (Option (Delivery δ))) Envelope}
    (h : Run (relays Up) (launch publisher out) trace net) (v : NodeId) :
    (net.state v).length = (receivers trace).count v := by
  induction h with
  | nil => simp [launch, Net.act, receivers, delivered]
  | @step trace net net' e _ he ih =>
    cases he with
    | @own v a s outs h => exact a.elim
    | @deliver l₁ l₂ p s outs hf hr =>
      obtain ⟨host, -, -, rfl, -⟩ := hr
      simp only [receivers, delivered_deliver, List.map_cons, List.count_cons] at ih ⊢
      by_cases hv : v = p.dst
      · subst hv
        rw [Net.act_state_self]
        simp [ih]
      · rw [Net.act_state_ne hv]
        simp [ih, Ne.symm hv]

/-- What a run of relays amounts to.  The last part is about hosts whose connections cover
the (parent, child) pairs of the table. -/
structure ExactlyOnce [PetGraph γ] (publisher : Host γ δ) (topicId : String) (out : Published δ)
    (Up : Host γ δ → Prop) (trace : List (Event NodeId Envelope Empty))
    (net : Net NodeId (List (Option (Delivery δ))) Envelope) : Prop where
  atMostOnce : ∀ v, (receivers trace).count v ≤ 1
  notPublisher : publisher.node.nodeId ∉ receivers trace
  attempts : ∀ v, (net.state v).length = (receivers trace).count v
  complete : (∀ h, h = publisher ∨ Up h → ∀ c, TableEdge out.table h.node.nodeId c → h.live c) →
    net.flight = [] →
    (∀ sub ∈ publisher.node.subscribers topicId, sub ≠ publisher.node.nodeId →
      (∃ c, Walk publisher.node.graph.Link publisher.node.nodeId sub c) →
      (receivers trace).count sub = 1) ∧
    (launch publisher out).flight.length + sends trace = pairCount out.table

section
variable {publisher : Host γ δ} {topicId : String} {out : Published δ}
  {Up : Host γ δ → Prop} {trace : List (Event NodeId Envelope Empty)}
  {net : Net NodeId (List (Option (Delivery δ))) Envelope}

theorem launch_heading (publisher : Host γ δ) (out : Published δ) :
    (launch publisher out).heading = (publisher.copies out.sends).map fun o => o.1 := by
  simp [launch, Net.heading, Net.act, Function.comp_def]

/-- The copies of a host that relays the published envelope. -/
theorem mem_copies_of_published {h : Host γ δ} {e : Envelope} (he : out.envelope = some e)
    (o : NodeId × Envelope) : o ∈ h.copies (h.node.receive e).2 ↔
      o.1 ∈ kids out.table h.node.nodeId ∧ h.live o.1 ∧ o.2 = e := by
  rw [FlowNode.receive_snd, Host.mem_copies_forward]
  simp only [Published.table, he]

theorem mem_launch (hs : out.sends = [] ∧ out.envelope = none ∨
      ∃ e, out.envelope = some e ∧ out.sends = publisher.node.forward e) (c : NodeId) :
    c ∈ (launch publisher out).heading ↔
      c ∈ kids out.table publisher.node.nodeId ∧ publisher.live c := by
  rw [launch_heading, List.mem_map]
  rcases hs with ⟨hs, he⟩ | ⟨e, he, hs⟩
  · simp [hs, Host.copies, Published.table, he, kids]
  · rw [hs]
    simp only [Host.mem_copies_forward, Published.table, he]
    constructor
    · rintro ⟨o, ⟨h1, h2, -⟩, rfl⟩
      exact ⟨h1, h2⟩
    · rintro ⟨h1, h2⟩
      exact ⟨(c, e), ⟨h1, h2, rfl⟩, rfl⟩

/-- Whoever receives is a child of the table, and each child receives in the end; so the
receivers are the children. -/
theorem perm_receivers (ht : IsTree (kids out.table) publisher.node.nodeId)
    (hroot : ∀ p c, c ∈ kids out.table p →
      ReflTransGen (fun p c => c ∈ kids out.table p) publisher.node.nodeId c)
    (hc : Casting (kids out.table) publisher.node.nodeId trace net) (hq : net.flight = [])
    (hp : ∀ p ∈ publisher.node.nodeId :: receivers trace, ∀ c ∈ kids out.table p,
      c ∈ receivers trace ++ net.heading) : (receivers trace).Perm (children out.table) := by
  have hn : (receivers trace).Nodup := (List.nodup_append.mp hc.once).1
  refine (List.perm_ext_iff_of_nodup hn (nodup_children ht)).mpr fun c => ?_
  rw [mem_children]
  constructor
  · intro hm
    obtain ⟨p, -, h⟩ := hc.parent c (List.mem_append_left _ hm)
    exact ⟨p, h⟩
  · rintro ⟨p, h⟩
    rcases List.mem_cons.mp (mem_receivers_of_descendant hq hp (hroot p c h)) with rfl | hm
    · exact absurd h (ht.root p)
    · exact hm

variable [PetGraph γ]

theorem exactlyOnce_of_routes (hr : Routes publisher.node topicId out.table)
    (hs : out.sends = [] ∧ out.envelope = none ∨
      ∃ e, out.envelope = some e ∧ out.sends = publisher.node.forward e)
    (hrun : Run (relays Up) (launch publisher out) trace net) :
    ExactlyOnce publisher topicId out Up trace net := by
  have hgood : ∀ p ∈ (launch publisher out).flight, out.envelope = some p.msg := by
    intro p hp
    rcases Net.mem_act.mp hp with hp | ⟨o, ho, rfl⟩
    · cases hp
    · rcases hs with ⟨hs, -⟩ | ⟨e, he, hs⟩
      · rw [hs] at ho
        cases ho
      · rw [hs, Host.mem_copies_forward] at ho
        rw [he, ho.2.2]
  have hnodup : (launch publisher out).heading.Nodup := by
    rw [launch_heading]
    rcases hs with ⟨hs, -⟩ | ⟨e, he, hs⟩
    · simp [hs, Host.copies]
    · rw [hs]
      apply Host.nodup_copies_forward
      have := hr.tree.nodup publisher.node.nodeId
      simpa only [Published.table, he] using this
  have hcast : Casting (kids out.table) publisher.node.nodeId trace net := by
    refine hrun.casting hr.tree (fun e => out.envelope = some e) hgood hnodup
      (fun c hc => ((mem_launch hs c).mp hc).1) ?_
    rintro v src e s s' outs he ⟨h, -, rfl, -, rfl⟩
    refine ⟨?_, fun o ho => ?_⟩
    · rw [FlowNode.receive_snd]
      apply Host.nodup_copies_forward
      have := hr.tree.nodup h.node.nodeId
      simpa only [Published.table, he] using this
    · obtain ⟨h1, -, h3⟩ := (mem_copies_of_published he o).mp ho
      exact ⟨h1, by rw [h3]; exact he⟩
  have hn : (receivers trace).Nodup := (List.nodup_append.mp hcast.once).1
  refine ⟨fun v => List.nodup_iff_count_le_one.mp hn v, hcast.root_not_mem hr.tree,
    length_state_relays hrun, fun hlive hq => ?_⟩
  have hpassed : ∀ p ∈ publisher.node.nodeId :: receivers trace, ∀ c ∈ kids out.table p,
      c ∈ receivers trace ++ net.heading := by
    refine hrun.passed_on (fun e => out.envelope = some e) hgood (fun c hc => ?_) ?_
    · exact (mem_launch hs c).mpr ⟨hc, hlive publisher (Or.inl rfl) c (mem_kids.mp hc)⟩
    · rintro v src e s s' outs he ⟨h, hup, rfl, -, rfl⟩
      refine ⟨fun c hc => ⟨(c, e), ?_, rfl⟩, fun o ho => ?_⟩
      · exact (mem_copies_of_published he _).mpr ⟨hc, hlive h (Or.inr hup) c (mem_kids.mp hc), rfl⟩
      · rw [((mem_copies_of_published he o).mp ho).2.2]
        exact he
  constructor
  · intro sub hsub hne hw
    have hm := mem_receivers_of_descendant hq hpassed (hr.reaches sub hsub hne hw)
    exact List.count_eq_one_of_mem hn ((List.mem_cons.mp hm).resolve_left hne)
  · have hlen := (perm_receivers hr.tree hr.rooted hcast hq hpassed).length_eq
    rw [length_children] at hlen
    have hcons := hrun.conservation
    rw [hq] at hcons
    simp only [receivers, List.length_map] at hlen
    simp only [List.length_nil, Nat.add_zero] at hcons
    omega

/-- **Exactly once.**  Whatever the graph, the topic and the order of deliveries: no node
receives a second copy and the publisher none; where the connections cover the table, every
reachable subscriber receives one, and there is one transmission for each (parent, child)
pair. -/
theorem publish_exactly_once (η : Type) [BinaryHeap η] (b : Build) (clock : Clock)
    (nonce : String) (n : FlowNode γ δ) (hg : n.graph.Reachable)
    (htotal : n.graph.totalCost < u32Max.toNat) (flowId topicId messageType : String)
    (codec : Codec) (payload : Bytes) :
    ∃ out, n.publish η b clock nonce flowId topicId messageType codec payload = .ok out ∧
      ∀ writes Up trace net, Run (relays Up) (launch ⟨n, writes⟩ out) trace net →
        ExactlyOnce ⟨n, writes⟩ topicId out Up trace net := by
  obtain ⟨out, h1, h2, h3⟩ :=
    publish_spec η b clock nonce n hg htotal flowId topicId messageType codec payload
  exact ⟨out, h1, fun writes Up trace net hrun => exactlyOnce_of_routes h2 h3 hrun⟩

end

end

/-- `A`'s view of the star `A — B`, `B — C`, `B — D`, with `C` subscribed to every topic. -/
def starPublisher : FlowNode VecGraph Unit :=
  { (FlowNode.new "A" ∅ : FlowNode VecGraph Unit) with
    graph := GlobalGraph.starGraph.addNode
      { nodeId := "C"
        role := NodeRole.flow.toI32
        capabilities := (∅ : HashMap String String).insert (subKey "#") ""
        lastSeen := 0 } }

theorem starPublisher_exactly_once :
    ∃ out, starPublisher.publish ListHeap .debug ⟨0, 0⟩ "7" "f" "t" "m" .raw [] = .ok out ∧
      ∀ writes Up trace net, Run (relays Up) (launch ⟨starPublisher, writes⟩ out) trace net →
        ExactlyOnce ⟨starPublisher, writes⟩ "t" out Up trace net :=
  publish_exactly_once ListHeap .debug ⟨0, 0⟩ "7" starPublisher
    (GlobalGraph.starGraph_reachable.addNode _) (by decide) "f" "t" "m" .raw []

end Stric.Flow
