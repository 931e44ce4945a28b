import Stric.Flow.GraphUpdate
import Stric.Flow.Mesh

/-!
# The topology updates a node originates

A node originates a `TopologyUpdate` with its full graph on two occasions:

* at the end of every handshake, to the new peer, always with epoch 1;
* when a `Pong` reveals a new link, to all peers, with the next epoch of its own counter,
  which starts at 1 as well.

A peer applies an update only if its epoch is newer than the one recorded for its origin.
So what a node originates gets through in order exactly if it sends no handshake snapshot
(and finds fewer than 2⁶⁴ links), or nothing but a single update
(`originated_newer_iff`).  `reconnect_snapshot_dropped` is the shortest history that matters:
a handshake, the first `Pong`, a disconnect and a second handshake; the peer drops the
update and the second snapshot, and never hears of the link.
-/

namespace Stric.Flow

open Stric.Pool Relation

theorem FlowNode.snapshot_coherent {γ δ : Type} [PetGraph γ] {n : FlowNode γ δ} (h : n.graph.WF)
    (epoch : UInt64) : (n.snapshot epoch).Coherent :=
  ⟨h.descriptors_nodup, fun _ hl _ hl' => h.descriptors_agree hl hl', rfl, rfl⟩

/-! ## One turn of the control loop -/

/-- The event carries no topology update of this node. -/
def ControlEvent.Foreign (id : NodeId) (event : ControlEvent) : Prop :=
  ∀ u, event.topology = some u → u.originNodeId ≠ id

section
variable {γ δ : Type} [PetGraph γ]

/-- The update that the node originates as the control loop takes it from `n` to `n'`: its
graph, when a `Pong` reveals a new link. -/
def originatedBy (n n' : FlowNode γ δ) : ControlEvent → List TopologyUpdate
  | .controlMsgReceived sender ⟨some (.pong _)⟩ =>
    if n.linkExists sender then [] else [n'.snapshot n.nextEpoch]
  | _ => []

/-- What a turn does to the graph and to the epochs of topology updates. -/
inductive TopologyTurn (n : FlowNode γ δ) (event : ControlEvent) (n' : FlowNode γ δ) : Prop
  | kept : n'.graph = n.graph → n'.lastEpochs = n.lastEpochs → originatedBy n n' event = [] →
      TopologyTurn n event n'
  | described (d : NodeDescriptor) : n'.graph = n.graph.addNode d →
      n'.lastEpochs = n.lastEpochs → originatedBy n n' event = [] → TopologyTurn n event n'
  | measured (link : LinkDescriptor) : n'.graph = n.graph.addLink link →
      n'.lastEpochs = n.lastEpochs → originatedBy n n' event = [] → TopologyTurn n event n'
  | updated (u : TopologyUpdate) : event.topology = some u →
      n'.graph = n.graph.applyUpdate u →
      n'.lastEpochs = n.lastEpochs.insert u.originNodeId u.epoch →
      originatedBy n n' event = [] → TopologyTurn n event n'
  | found (link : LinkDescriptor) : n'.graph = n.graph.addLink link →
      n'.lastEpochs = n.lastEpochs.insert n.nodeId n.nextEpoch →
      originatedBy n n' event = [n'.snapshot n.nextEpoch] → TopologyTurn n event n'

theorem controlStep_turn (clock : Clock) (n : FlowNode γ δ) (event : ControlEvent)
    {n' : FlowNode γ δ} {outs : List Send} (h : n.controlStep clock event = (n', outs)) :
    n'.nodeId = n.nodeId ∧ TopologyTurn n event n' := by
  cases event with
  | peerConnected id tx =>
    cases h
    exact ⟨rfl, .kept rfl rfl rfl⟩
  | peerDisconnected id =>
    unfold FlowNode.controlStep at h
    simp only at h
    split at h
    · cases h
      exact ⟨rfl, .kept rfl rfl rfl⟩
    · cases h
      exact ⟨rfl, .kept rfl rfl rfl⟩
  | controlMsgReceived sender msg =>
    change n.onMessage clock sender msg = _ at h
    refine ⟨(FlowNode.sameHost_of_onMessage h).nodeId, ?_⟩
    rcases msg.cases with ⟨u, rfl⟩ | ⟨u, rfl⟩ | ⟨p, rfl⟩ | hp
    · obtain ⟨t, ⟨-, rfl, -⟩ | ⟨-, rfl, -⟩⟩ := n.onMessage_topology clock sender u h
      · exact .updated u rfl rfl rfl rfl
      · exact .kept rfl rfl rfl
    · obtain ⟨t, ⟨-, rfl, -⟩ | ⟨-, rfl, -⟩⟩ := n.onMessage_subscription clock sender u h
      · exact .described _ rfl rfl rfl
      · exact .kept rfl rfl rfl
    · obtain ⟨t, link, ⟨hl, hn', -⟩ | ⟨hl, hn', -⟩⟩ := n.onMessage_pong clock sender p h
      · refine .measured link (by rw [hn']) (by rw [hn']) ?_
        exact if_pos hl
      · refine .found link (by rw [hn']) (by rw [hn']) ?_
        exact if_neg (by rw [hl]; decide)
    · obtain ⟨⟨sessions, limiters, t, rfl⟩, -⟩ := n.onMessage_plain clock sender hp h
      refine .kept rfl rfl ?_
      unfold originatedBy
      split
      · next heq =>
        cases heq
        exact absurd hp id
      · rfl

theorem TopologyTurn.reachable {n n' : FlowNode γ δ} {event : ControlEvent}
    (h : TopologyTurn n event n') (hn : n.graph.Reachable) : n'.graph.Reachable := by
  cases h with
  | kept hg => rwa [hg]
  | described d hg => rw [hg]; exact hn.addNode d
  | measured link hg => rw [hg]; exact hn.addLink link
  | updated u _ hg => rw [hg]; exact hn.applyUpdate u
  | found link hg => rw [hg]; exact hn.addLink link

/-- The epoch recorded for another node only changes with an update of that node. -/
theorem TopologyTurn.lookup_ne {n n' : FlowNode γ δ} {event : ControlEvent}
    (h : TopologyTurn n event n') {id : NodeId} (hid : n.nodeId ≠ id)
    (hforeign : event.Foreign id) : n'.lastEpochs.lookup id = n.lastEpochs.lookup id := by
  cases h with
  | kept _ he => rw [he]
  | described d _ he => rw [he]
  | measured link _ he => rw [he]
  | updated u hu _ he => rw [he, AList.lookup_insert_ne (Ne.symm (hforeign u hu))]
  | found link _ he => rw [he, AList.lookup_insert_ne (Ne.symm hid)]

/-! ## Peers -/

/-- From `p`, a peer processes these updates of `origin`, the latest first, with other events
in between, and gets to `q`; the second list has those it applied. -/
inductive Follows (origin : NodeId) (p : FlowNode γ δ) :
    List TopologyUpdate → List TopologyUpdate → FlowNode γ δ → Prop
  | start : Follows origin p [] [] p
  | other {us applied : List TopologyUpdate} {q q' : FlowNode γ δ} {outs : List Send}
      (clock : Clock) (event : ControlEvent) : Follows origin p us applied q →
      event.Foreign origin → q.controlStep clock event = (q', outs) →
      Follows origin p us applied q'
  | update {us applied : List TopologyUpdate} {q q' : FlowNode γ δ} {outs : List Send}
      (clock : Clock) (sender : NodeId) (u : TopologyUpdate) : Follows origin p us applied q →
      q.controlStep clock (.controlMsgReceived sender (.of (.topologyUpdate u))) = (q', outs) →
      Follows origin p (u :: us)
        (if FlowNode.isNewer q.lastEpochs u.originNodeId u.epoch then u :: applied else applied) q'

/-- Each update is newer than those before it. -/
def Newer (us : List TopologyUpdate) : Prop :=
  us.Pairwise fun later earlier => earlier.epoch < later.epoch

theorem Follows.nodeId {origin : NodeId} {p q : FlowNode γ δ} {us applied : List TopologyUpdate}
    (h : Follows origin p us applied q) : q.nodeId = p.nodeId := by
  induction h with
  | start => rfl
  | other clock event _ _ hc ih => exact (controlStep_turn clock _ event hc).1.trans ih
  | update clock sender u _ hc ih => exact (controlStep_turn clock _ _ hc).1.trans ih

theorem Follows.reachable {origin : NodeId} {p q : FlowNode γ δ}
    {us applied : List TopologyUpdate} (h : Follows origin p us applied q)
    (hp : p.graph.Reachable) : q.graph.Reachable := by
  induction h with
  | start => exact hp
  | other clock event _ _ hc ih => exact (controlStep_turn clock _ event hc).2.reachable ih
  | update clock sender u _ hc ih => exact (controlStep_turn clock _ _ hc).2.reachable ih

/-- A newer update than the last one applied is newer than what the peer recorded. -/
theorem isNewer_of_newer {m : HashMap NodeId UInt64} {origin : NodeId} {u : TopologyUpdate}
    {us : List TopologyUpdate} (hm : m.lookup origin = us.head?.map fun u => u.epoch)
    (hnew : Newer (u :: us)) (hu : u.originNodeId = origin) :
    FlowNode.isNewer m u.originNodeId u.epoch = true := by
  unfold FlowNode.isNewer
  rw [hu, hm]
  cases us with
  | nil => rfl
  | cons v us => exact decide_eq_true ((List.pairwise_cons.mp hnew).1 v List.mem_cons_self)

theorem Follows.applied {origin : NodeId} {p q : FlowNode γ δ} {us applied : List TopologyUpdate}
    (h : Follows origin p us applied q) (hp : p.nodeId ≠ origin)
    (hfresh : p.lastEpochs.lookup origin = none) (hnew : Newer us)
    (horigin : ∀ u ∈ us, u.originNodeId = origin) :
    applied = us ∧ q.lastEpochs.lookup origin = us.head?.map fun u => u.epoch := by
  induction h with
  | start => exact ⟨rfl, hfresh⟩
  | other clock event hf hforeign hc ih =>
    obtain ⟨happ, hep⟩ := ih hnew horigin
    have hq := hf.nodeId ▸ hp
    exact ⟨happ, ((controlStep_turn clock _ event hc).2.lookup_ne hq hforeign).trans hep⟩
  | @update us applied q q' outs clock sender u hf hc ih =>
    obtain ⟨happ, hep⟩ := ih (List.pairwise_cons.mp hnew).2
      (fun v hv => horigin v (List.mem_cons_of_mem _ hv))
    have hu := horigin u List.mem_cons_self
    have hn := isNewer_of_newer hep hnew hu
    refine ⟨by rw [if_pos hn, happ], ?_⟩
    obtain ⟨t, ⟨-, rfl, -⟩ | ⟨hold, -, -⟩⟩ := q.onMessage_topology clock sender u hc
    · show (q.lastEpochs.insert u.originNodeId u.epoch).lookup origin = some u.epoch
      rw [← hu]
      exact AList.lookup_insert _
    · rw [hn] at hold
      cases hold

/-! ## Runs -/

structure Originating (γ δ : Type) where
  node : FlowNode γ δ
  /-- The control loop's channel, the next event first. -/
  queue : List ControlEvent
  /-- The peers that a handshake has registered and that wait for the graph. -/
  greeted : List NodeId
  /-- How many handshake snapshots were sent. -/
  snapshots : Nat
  /-- How many new links were announced. -/
  found : Nat
  /-- The topology updates this node originated, the latest first. -/
  originated : List TopologyUpdate

/-- The full graph at the end of the handshake with the peer. -/
def greeting (n : FlowNode γ δ) (peer : NodeId) : List TopologyUpdate :=
  (n.initialSync peer).filterMap fun o =>
    match o.2.message with
    | some (.topologyUpdate u) => some u
    | _ => none

/-- Handshakes, disconnects and messages in any order.  Nobody sends a node its own updates
back, and the channel holds 100 events. -/
inductive OriginStep : Originating γ δ → Originating γ δ → Prop
  | handshake (s : Originating γ δ) (peer : NodeId) (addr : SocketAddr) (tx : Nat) :
      s.queue.length < 100 →
      OriginStep s { s with
        node := (s.node.registerPeer peer addr tx).1
        queue := s.queue ++ [(s.node.registerPeer peer addr tx).2]
        greeted := peer :: s.greeted }
  | sync (s : Originating γ δ) {peer : NodeId} : peer ∈ s.greeted →
      OriginStep s { s with
        greeted := s.greeted.erase peer
        snapshots := s.snapshots + 1
        originated := greeting s.node peer ++ s.originated }
  | disconnect (s : Originating γ δ) (peer : NodeId) : s.queue.length < 100 →
      OriginStep s { s with queue := s.queue ++ [.peerDisconnected peer] }
  | message (s : Originating γ δ) (sender : NodeId) (msg : ControlMessage) :
      (ControlEvent.controlMsgReceived sender msg).Foreign s.node.nodeId →
      s.queue.length < 100 →
      OriginStep s { s with queue := s.queue ++ [.controlMsgReceived sender msg] }
  | control (s : Originating γ δ) (clock : Clock) {event : ControlEvent}
      {rest : List ControlEvent} {n' : FlowNode γ δ} {outs : List Send} :
      s.queue = event :: rest → s.node.controlStep clock event = (n', outs) →
      OriginStep s { s with
        node := n'
        queue := rest
        found := s.found + (originatedBy s.node n' event).length
        originated := originatedBy s.node n' event ++ s.originated }

/-- A node that was just created. -/
def Originating.start (id : NodeId) (registry : MessageRegistry δ) : Originating γ δ :=
  ⟨FlowNode.new id registry, [], [], 0, 0, []⟩

/-- What peers may expect of the updates a node originates: each is newer than those before,
a peer that processes any of them in order applies them all, and right after each of them
the peer's graph has all of its descriptors and links. -/
structure GetsThrough (s : Originating γ δ) : Prop where
  newer : Newer s.originated
  applied : ∀ (p q : FlowNode γ δ) (us applied : List TopologyUpdate),
    p.nodeId ≠ s.node.nodeId → p.lastEpochs.lookup s.node.nodeId = none →
    us.Sublist s.originated → Follows s.node.nodeId p us applied q → applied = us
  synced : ∀ (p q q' : FlowNode γ δ) (us applied : List TopologyUpdate) (u : TopologyUpdate)
    (clock : Clock) (sender : NodeId) (outs : List Send),
    p.nodeId ≠ s.node.nodeId → p.lastEpochs.lookup s.node.nodeId = none → p.graph.Reachable →
    (u :: us).Sublist s.originated → Follows s.node.nodeId p us applied q →
    q.controlStep clock (.controlMsgReceived sender (.of (.topologyUpdate u))) = (q', outs) →
    q'.graph.Holds u

/-- The epochs of the first `k` updates of the counter, the latest first. -/
def counterEpochs (k : Nat) : List Nat := ((List.range k).map fun i => (i + 1) % 2 ^ 64).reverse

theorem counterEpochs_succ (k : Nat) :
    counterEpochs (k + 1) = (k + 1) % 2 ^ 64 :: counterEpochs k := by
  simp [counterEpochs, List.range_succ]

structure OriginInv (s : Originating γ δ) : Prop where
  reachable : s.node.graph.Reachable
  queue : ∀ event ∈ s.queue, event.Foreign s.node.nodeId
  origin : ∀ u ∈ s.originated, u.originNodeId = s.node.nodeId
  coherent : ∀ u ∈ s.originated, u.Coherent
  length : s.originated.length = s.snapshots + s.found
  counter : ((s.node.lastEpochs.lookup s.node.nodeId).getD 0).toNat = s.found % 2 ^ 64
  counted : s.snapshots = 0 → (s.originated.map fun u => u.epoch.toNat) = counterEpochs s.found
  /-- Every snapshot has epoch 1, and so has the first update of the counter. -/
  ones : s.snapshots + min 1 s.found ≤ (s.originated.map fun u => u.epoch).count 1

theorem OriginInv.init (id : NodeId) (registry : MessageRegistry δ) :
    OriginInv (Originating.start id registry : Originating γ δ) where
  reachable := .new
  queue _ h := nomatch h
  origin _ h := nomatch h
  coherent _ h := nomatch h
  length := rfl
  counter := rfl
  counted _ := rfl
  ones := Nat.le_refl 0

theorem OriginInv.sync {s : Originating γ δ} (h : OriginInv s) (peer : NodeId) :
    OriginInv { s with
      greeted := s.greeted.erase peer
      snapshots := s.snapshots + 1
      originated := greeting s.node peer ++ s.originated } := by
  have hgreet : greeting s.node peer = [s.node.snapshot 1] := rfl
  rw [hgreet]
  refine ⟨h.reachable, h.queue, ?_, ?_, ?_, h.counter, ?_, ?_⟩
  · intro u hu
    rcases List.mem_cons.mp hu with rfl | hu
    · rfl
    · exact h.origin u hu
  · intro u hu
    rcases List.mem_cons.mp hu with rfl | hu
    · exact FlowNode.snapshot_coherent (GlobalGraph.reachable_wf h.reachable) 1
    · exact h.coherent u hu
  · have := h.length
    simp only [List.singleton_append, List.length_cons]
    omega
  · intro h0
    simp at h0
  · have := h.ones
    have hone : (s.node.snapshot 1).epoch = 1 := rfl
    simp only [List.singleton_append, List.map_cons, hone, List.count_cons_self]
    omega

omit [PetGraph γ] in
theorem nextEpoch_toNat (n : FlowNode γ δ) :
    n.nextEpoch.toNat = (((n.lastEpochs.lookup n.nodeId).getD 0).toNat + 1) % 2 ^ 64 := by
  unfold FlowNode.nextEpoch
  rw [UInt64.toNat_add]
  rfl

/-- A turn that originates nothing keeps the counter; one that does increments it. -/
theorem TopologyTurn.counter {n n' : FlowNode γ δ} {event : ControlEvent}
    (h : TopologyTurn n event n') (hid : n'.nodeId = n.nodeId) (hforeign : event.Foreign n.nodeId) :
    (originatedBy n n' event = [] ∧
      n'.lastEpochs.lookup n'.nodeId = n.lastEpochs.lookup n.nodeId) ∨
    (originatedBy n n' event = [n'.snapshot n.nextEpoch] ∧
      n'.lastEpochs.lookup n'.nodeId = some n.nextEpoch) := by
  cases h with
  | kept _ he ho => exact Or.inl ⟨ho, by rw [he, hid]⟩
  | described d _ he ho => exact Or.inl ⟨ho, by rw [he, hid]⟩
  | measured link _ he ho => exact Or.inl ⟨ho, by rw [he, hid]⟩
  | updated u hu _ he ho =>
    have hne : n.nodeId ≠ u.originNodeId := Ne.symm (hforeign u hu)
    exact Or.inl ⟨ho, by rw [he, hid, AList.lookup_insert_ne hne]⟩
  | found link _ he ho =>
    exact Or.inr ⟨ho, by rw [he, hid]; exact AList.lookup_insert _⟩

theorem OriginInv.control {s : Originating γ δ} (h : OriginInv s) {clock : Clock}
    {event : ControlEvent} {rest : List ControlEvent} {n' : FlowNode γ δ} {outs : List Send}
    (hq : s.queue = event :: rest) (hc : s.node.controlStep clock event = (n', outs)) :
    OriginInv { s with
      node := n'
      queue := rest
      found := s.found + (originatedBy s.node n' event).length
      originated := originatedBy s.node n' event ++ s.originated } := by
  obtain ⟨hid, hturn⟩ := controlStep_turn clock s.node event hc
  have hreach := hturn.reachable h.reachable
  have hforeign := h.queue event (by rw [hq]; exact List.mem_cons_self)
  have hrest : ∀ event' ∈ rest, event'.Foreign n'.nodeId := by
    intro event' he'
    rw [hid]
    exact h.queue event' (by rw [hq]; exact List.mem_cons_of_mem _ he')
  have horigin : ∀ u ∈ s.originated, u.originNodeId = n'.nodeId := by
    intro u hu
    rw [hid]
    exact h.origin u hu
  rcases hturn.counter hid hforeign with ⟨ho, hl⟩ | ⟨ho, hl⟩
  · rw [ho]
    refine ⟨hreach, hrest, horigin, h.coherent, h.length, ?_, h.counted, h.ones⟩
    rw [hl]
    exact h.counter
  · rw [ho]
    have hnext : s.node.nextEpoch.toNat = (s.found + 1) % 2 ^ 64 := by
      rw [nextEpoch_toNat, h.counter]
      omega
    refine ⟨hreach, hrest, ?_, ?_, ?_, ?_, ?_, ?_⟩
    · intro u hu
      rcases List.mem_cons.mp hu with rfl | hu
      · rfl
      · exact horigin u hu
    · intro u hu
      rcases List.mem_cons.mp hu with rfl | hu
      · exact FlowNode.snapshot_coherent (GlobalGraph.reachable_wf hreach) _
      · exact h.coherent u hu
    · have := h.length
      simp only [List.singleton_append, List.length_cons, List.length_nil]
      omega
    · rw [hl]
      exact hnext
    · intro h0
      show s.node.nextEpoch.toNat :: (s.originated.map fun u => u.epoch.toNat) = _
      rw [hnext, h.counted h0]
      exact (counterEpochs_succ s.found).symm
    · have := h.ones
      show s.snapshots + min 1 (s.found + 1) ≤
        (s.node.nextEpoch :: s.originated.map fun u => u.epoch).count 1
      by_cases hf : s.found = 0
      · have hone : s.node.nextEpoch = 1 := by
          apply UInt64.toNat_inj.mp
          rw [hnext, hf]
          rfl
        rw [hone, List.count_cons_self]
        omega
      · have := List.count_le_count_cons (a := (1 : UInt64)) (b := s.node.nextEpoch)
          (l := s.originated.map fun u => u.epoch)
        omega

theorem OriginInv.step {s s' : Originating γ δ} (h : OriginInv s) (hstep : OriginStep s s') :
    OriginInv s' := by
  have hqueue : ∀ {event : ControlEvent}, event.Foreign s.node.nodeId →
      ∀ event' ∈ s.queue ++ [event], event'.Foreign s.node.nodeId := by
    intro event hevent event' he
    rcases List.mem_append.mp he with he | he
    · exact h.queue event' he
    · rw [List.mem_singleton.mp he]
      exact hevent
  cases hstep with
  | handshake peer addr tx _ =>
    exact ⟨h.reachable, hqueue (fun u hu => nomatch hu), h.origin, h.coherent, h.length, h.counter,
      h.counted, h.ones⟩
  | sync hpeer => exact h.sync _
  | disconnect peer _ =>
    exact ⟨h.reachable, hqueue (fun u hu => nomatch hu), h.origin, h.coherent, h.length, h.counter,
      h.counted, h.ones⟩
  | message sender msg hmsg _ =>
    exact ⟨h.reachable, hqueue hmsg, h.origin, h.coherent, h.length, h.counter, h.counted, h.ones⟩
  | control clock hq hc => exact h.control hq hc

theorem OriginInv.run {s₀ s : Originating γ δ} (h : OriginInv s₀)
    (hrun : ReflTransGen OriginStep s₀ s) : OriginInv s := by
  induction hrun with
  | refl => exact h
  | tail _ hstep ih => exact ih.step hstep

/-! ## When updates get through -/

/-- Updates that are newer one after the other get through. -/
theorem OriginInv.getsThrough {s : Originating γ δ} (h : OriginInv s) (hnew : Newer s.originated) :
    GetsThrough s := by
  refine ⟨hnew, ?_, ?_⟩
  · intro p q us applied hp hfresh hsub hf
    exact (hf.applied hp hfresh (hnew.sublist hsub) fun u hu => h.origin u (hsub.subset hu)).1
  · intro p q q' us applied u clock sender outs hp hfresh hreach hsub hf hc
    have hnew' : Newer (u :: us) := hnew.sublist hsub
    have horigin : ∀ v ∈ u :: us, v.originNodeId = s.node.nodeId :=
      fun v hv => h.origin v (hsub.subset hv)
    obtain ⟨-, hep⟩ := hf.applied hp hfresh (List.pairwise_cons.mp hnew').2
      fun v hv => horigin v (List.mem_cons_of_mem _ hv)
    have hn := isNewer_of_newer hep hnew' (horigin u List.mem_cons_self)
    obtain ⟨t, ⟨-, rfl, -⟩ | ⟨hold, -, -⟩⟩ := q.onMessage_topology clock sender u hc
    · exact (GlobalGraph.reachable_wf (hf.reachable hreach)).holds_applyUpdate
        (h.coherent u (hsub.subset List.mem_cons_self))
    · rw [hn] at hold
      cases hold

theorem newer_iff_epochs (us : List TopologyUpdate) :
    Newer us ↔ (us.map fun u => u.epoch.toNat).Pairwise fun later earlier => earlier < later := by
  unfold Newer
  rw [List.pairwise_map]
  rfl

/-- The counter's epochs grow until it wraps. -/
theorem counterEpochs_pairwise (k : Nat) :
    (counterEpochs k).Pairwise (fun later earlier => earlier < later) ↔ k < 2 ^ 64 := by
  unfold counterEpochs
  rw [List.pairwise_reverse, List.pairwise_map]
  constructor
  · intro h
    by_contra hk
    have h1 := List.pairwise_iff_getElem.mp h 0 (2 ^ 64 - 1) (by simp; omega) (by simp; omega)
      (by omega)
    simp at h1
  · intro hk
    refine List.pairwise_lt_range.imp_of_mem ?_
    intro a b ha hb hab
    rw [List.mem_range] at ha hb
    rw [Nat.mod_eq_of_lt (by omega), Nat.mod_eq_of_lt (by omega)]
    omega

/-- In every run of a node, its updates get through exactly if it sent no handshake snapshot
and its counter has not wrapped, or if it originated at most one update. -/
theorem originated_newer_iff (id : NodeId) (registry : MessageRegistry δ) {s : Originating γ δ}
    (hrun : ReflTransGen OriginStep (Originating.start id registry) s) :
    GetsThrough s ↔ (s.snapshots = 0 ∧ s.found < 2 ^ 64) ∨ s.snapshots + s.found ≤ 1 := by
  have hinv := (OriginInv.init id registry).run hrun
  constructor
  · intro h
    have hnodup : (s.originated.map fun u => u.epoch).Nodup := by
      refine List.pairwise_map.mpr (h.newer.imp ?_)
      intro later earlier hlt heq
      rw [heq] at hlt
      exact UInt64.lt_irrefl _ hlt
    have hone := List.nodup_iff_count_le_one.mp hnodup 1
    have hones := hinv.ones
    by_cases h0 : s.snapshots = 0
    · have hnew := (newer_iff_epochs _).mp h.newer
      rw [hinv.counted h0, counterEpochs_pairwise] at hnew
      exact Or.inl ⟨h0, hnew⟩
    · right
      omega
  · intro h
    apply hinv.getsThrough
    rcases h with ⟨h0, hk⟩ | h1
    · rw [newer_iff_epochs, hinv.counted h0]
      exact (counterEpochs_pairwise _).mpr hk
    · have hlen := hinv.length
      match hs : s.originated with
      | [] => exact List.Pairwise.nil
      | [u] => exact List.pairwise_singleton _ _
      | u :: v :: us =>
        rw [hs] at hlen
        simp only [List.length_cons] at hlen
        omega

end

/-! ## A reconnection -/

/-- One handshake, and the peer has the graph. -/
theorem first_snapshot_gets_through : ∃ s : Originating VecGraph Unit,
    ReflTransGen OriginStep (Originating.start "a" ∅) s ∧ s.originated.length = 1 ∧
      GetsThrough s := by
  have h0 : ReflTransGen OriginStep (Originating.start "a" ∅)
    (Originating.start "a" ∅ : Originating VecGraph Unit) := .refl
  have h1 := (h0.tail (.handshake _ "b" "10.0.0.2:7000" 0 (by decide))).tail
    (.sync _ List.mem_cons_self)
  exact ⟨_, h1, rfl, (originated_newer_iff "a" ∅ h1).mpr (Or.inr (by decide))⟩

/-- An update of `a` with epoch 1 and these links. -/
def linkUpdate (links : List LinkDescriptor) : TopologyUpdate := ⟨"a", 1, [], [], links, []⟩

/-- Both directions of the link between `a` and `b`. -/
def abLinks : List LinkDescriptor := [⟨"a", "b", 1, 0⟩, ⟨"b", "a", 1, 0⟩]

/-- Handshake with `b`, a `Pong` that reveals the link, disconnect, and a second handshake: all
three updates have epoch 1.  A peer that processes them in order applies the first only, and
does not have the link that the last one lists. -/
theorem reconnect_snapshot_dropped : ∃ s : Originating VecGraph Unit,
    ReflTransGen OriginStep (Originating.start "a" ∅) s ∧
      s.originated = [linkUpdate abLinks, linkUpdate abLinks, linkUpdate []] ∧ ¬ GetsThrough s ∧
      ∃ q : FlowNode VecGraph Unit,
        Follows "a" (FlowNode.new "b" ∅) s.originated [linkUpdate []] q ∧
          ¬ q.graph.Holds (linkUpdate abLinks) := by
  have h0 : ReflTransGen OriginStep (Originating.start "a" ∅)
    (Originating.start "a" ∅ : Originating VecGraph Unit) := .refl
  have h1 := ((h0.tail (.handshake _ "b" "10.0.0.2:7000" 0 (by decide))).tail
    (.sync _ List.mem_cons_self)).tail (.control _ ⟨0, 0⟩ rfl rfl)
  have h2 := (h1.tail (.message _ "b" (.of (.pong ⟨0, 0⟩)) (fun u hu => nomatch hu)
    (by decide))).tail (.control _ ⟨0, 0⟩ rfl rfl)
  have h3 := (h2.tail (.disconnect _ "b" (by decide))).tail (.control _ ⟨0, 0⟩ rfl rfl)
  have h4 := (h3.tail (.handshake _ "b" "10.0.0.2:7000" 1 (by decide))).tail
    (.sync _ List.mem_cons_self)
  have hf0 : Follows "a" (FlowNode.new "b" ∅ : FlowNode VecGraph Unit) [] [] _ := .start
  have hf := ((hf0.update ⟨0, 0⟩ "a" (linkUpdate []) rfl).update ⟨0, 0⟩ "a" (linkUpdate abLinks)
    rfl).update ⟨0, 0⟩ "a" (linkUpdate abLinks) rfl
  refine ⟨_, h4, rfl, fun h => ?_, _, hf, fun h => ?_⟩
  · exact absurd ((List.pairwise_cons.mp h.newer).1 _ List.mem_cons_self) (by decide)
  · obtain ⟨i, j, hi, -⟩ := h.2 ⟨"a", "b", 1, 0⟩ List.mem_cons_self
    cases hi

end Stric.Flow
