import Stric.Flow.GossipAgree
import Stric.Flow.GraphUpdate

/-!
# `subscribe` and the control loop

Each call of `subscribe` spawns a task.  Under the write lock of `local_subscriptions` the
task inserts its pattern, reads the node's own epoch, and enqueues a `SubscriptionUpdate`
with all local patterns and the next epoch.  The epoch only advances when the control loop
gets to the event.

So two tasks that read before the control loop has caught up announce the same epoch; the
second announcement is dropped, and its pattern never leaves the node
(`second_subscription_lost`).  If every task reads while no announcement is waiting
(`Calm`), and what peers send does not overwrite what the node says about itself
(`Spares`), nothing is lost: once all is quiet, the node's descriptor carries every
subscribed pattern, and so does the last announcement it gossiped to each peer
(`subscriptions_kept`).
-/

namespace Stric.Flow

open Stric.Pool Relation

/-! ## Messages of peers -/

namespace FlowNode

variable {γ δ : Type}

/-- The node's own descriptor in its graph has the pattern. -/
def Advertises (n : FlowNode γ δ) (pattern : String) : Prop :=
  ∃ d, n.graph.nodeMetadata.lookup n.nodeId = some d ∧ subKey pattern ∈ d.capabilities

variable [PetGraph γ]

/-- The message takes no pattern off the node's own descriptor, and is no newer
announcement in the node's name.  A topology update that is applied takes off the patterns of a
node that it removes, and those that are not in the last descriptor it adds for the node. -/
def Spares (n : FlowNode γ δ) (msg : ControlMessage) : Prop :=
  match msg.message with
  | some (.topologyUpdate u) => isNewer n.lastEpochs u.originNodeId u.epoch = true →
    ∀ pattern, n.Advertises pattern → n.nodeId ∉ u.nodesRemoved ∧
      ∀ d, GlobalGraph.lastAdded u.nodesAdded n.nodeId = some d → subKey pattern ∈ d.capabilities
  | some (.subscriptionUpdate u) =>
    u.nodeId = n.nodeId → isNewer n.lastSubscriptionEpochs u.nodeId u.epoch = false
  | _ => True

end FlowNode

/-- What a message that spares the node leaves alone. -/
structure Untouched {γ δ : Type} (n n' : FlowNode γ δ) (outs : List Send) : Prop where
  epoch : n'.lastSubscriptionEpochs.lookup n.nodeId = n.lastSubscriptionEpochs.lookup n.nodeId
  advertises : ∀ pattern, n.Advertises pattern → n'.Advertises pattern
  silent : ∀ o ∈ outs, ∀ u, o.2 = .of (.subscriptionUpdate u) → u.nodeId ≠ n.nodeId

namespace FlowNode

variable {γ δ : Type} [PetGraph γ]

omit [PetGraph γ] in
theorem Advertises.congr {n n' : FlowNode γ δ} {pattern : String} (h : n.Advertises pattern)
    (hid : n'.nodeId = n.nodeId)
    (hl : n'.graph.nodeMetadata.lookup n.nodeId = n.graph.nodeMetadata.lookup n.nodeId) :
    n'.Advertises pattern := by
  obtain ⟨d, hd, hcap⟩ := h
  refine ⟨d, ?_, hcap⟩
  rw [hid, hl, hd]

/-- An update that is applied and spares the node leaves its patterns. -/
theorem Advertises.acceptTopology {n : FlowNode γ δ} {pattern : String} (h : n.Advertises pattern)
    {u : TopologyUpdate} (hkept : n.nodeId ∉ u.nodesRemoved)
    (hadded : ∀ d, GlobalGraph.lastAdded u.nodesAdded n.nodeId = some d →
      subKey pattern ∈ d.capabilities) : (n.acceptTopology u).Advertises pattern := by
  obtain ⟨d, hd, hcap⟩ := h
  have hlookup := GlobalGraph.lookup_metadata_applyUpdate_kept n.graph hkept
  cases hlast : GlobalGraph.lastAdded u.nodesAdded n.nodeId with
  | none =>
    rw [hlast, Option.none_or] at hlookup
    exact ⟨d, hlookup.trans hd, hcap⟩
  | some d' =>
    rw [hlast, Option.some_or] at hlookup
    exact ⟨d', hlookup, hadded d' hlast⟩

theorem onMessage_untouched (clock : Clock) (n : FlowNode γ δ) (sender : NodeId)
    {msg : ControlMessage} (hs : n.Spares msg) {n' : FlowNode γ δ} {outs : List Send}
    (h : n.onMessage clock sender msg = (n', outs)) : Untouched n n' outs := by
  rcases msg.cases with ⟨u, rfl⟩ | ⟨u, rfl⟩ | ⟨p, rfl⟩ | hp
  · obtain ⟨t, ⟨hnew, rfl, rfl⟩ | ⟨-, rfl, rfl⟩⟩ := onMessage_topology clock n sender u h
    · have hspared : ∀ pattern, n.Advertises pattern → (n.acceptTopology u).Advertises pattern :=
        fun pattern hp => hp.acceptTopology (hs hnew pattern hp).1 (hs hnew pattern hp).2
      refine ⟨rfl, hspared, fun o ho v hv => ?_⟩
      rw [(mem_gossip.mp ho).2.2.2] at hv
      cases hv
    · exact ⟨rfl, fun _ h => h, fun o ho => absurd ho List.not_mem_nil⟩
  · obtain ⟨t, ⟨hnew, rfl, rfl⟩ | ⟨-, rfl, rfl⟩⟩ := onMessage_subscription clock n sender u h
    · -- it is accepted, so it is about another node
      have hne : u.nodeId ≠ n.nodeId := by
        intro hu
        have hold := hs hu
        rw [hnew] at hold
        cases hold
      refine ⟨AList.lookup_insert_ne (Ne.symm hne), fun pattern hp => hp.congr rfl ?_,
        fun o ho v hv => ?_⟩
      · exact GlobalGraph.lookup_metadata_addNode_ne _ _ (Ne.symm hne)
      · rw [(mem_gossip.mp ho).2.2.2] at hv
        cases hv
        exact hne
    · exact ⟨rfl, fun _ h => h, fun o ho => absurd ho List.not_mem_nil⟩
  · obtain ⟨t, link, ⟨-, rfl, rfl⟩ | ⟨-, hn', rfl⟩⟩ := onMessage_pong clock n sender p h
    · refine ⟨rfl, fun pattern hp => hp.congr rfl ?_, fun o ho => absurd ho List.not_mem_nil⟩
      exact congrArg _ (GlobalGraph.addLink_metadata n.graph link)
    · refine ⟨by rw [hn'], fun pattern hp => hp.congr (by rw [hn']) ?_, fun o ho v hv => ?_⟩
      · rw [hn']
        exact congrArg _ (GlobalGraph.addLink_metadata n.graph link)
      · rw [(mem_broadcast.mp ho).2] at hv
        cases hv
  · obtain ⟨⟨sessions, limiters, t, rfl⟩, houts⟩ := onMessage_plain clock n sender hp h
    refine ⟨rfl, fun _ h => h, fun o ho v hv => ?_⟩
    rcases houts o ho with ⟨p, hp⟩ | ⟨m, hm⟩
    · rw [hp] at hv
      cases hv
    · rw [hm] at hv
      cases hv

end FlowNode

/-! ## Tasks and queue -/

/-- How far the task that holds the lock has come. -/
inductive TaskPhase where
  | inserted (pattern : String)
  | built (update : SubscriptionUpdate)

structure Subscribing (γ δ : Type) where
  node : FlowNode γ δ
  /-- The control loop's channel, the next event first. -/
  queue : List ControlEvent
  /-- The task that holds the write lock of `local_subscriptions`. -/
  lock : Option TaskPhase
  /-- The patterns of the tasks that have not got the lock yet. -/
  spawned : List String
  /-- The patterns of all calls. -/
  subscribed : List String
  /-- What the control loop has sent, the latest first. -/
  sent : List Send

section
variable {γ δ : Type}

/-- The steps of `subscribe` calls, their tasks and the control loop, while the peers stay
connected and send what they like.  `Read` restricts the states in which a task reads the
epoch, `Take` the messages of peers that the control loop gets to.  The channel holds 100
events. -/
inductive SubStep [PetGraph γ] (Read : Subscribing γ δ → Prop)
    (Take : FlowNode γ δ → ControlMessage → Prop) : Subscribing γ δ → Subscribing γ δ → Prop
  | subscribe (s : Subscribing γ δ) (pattern : String) (handler : Nat) :
      SubStep Read Take s { s with
        node := { s.node with topicHandlers := s.node.topicHandlers.insert pattern handler }
        spawned := pattern :: s.spawned
        subscribed := pattern :: s.subscribed }
  | acquire (s : Subscribing γ δ) {l₁ l₂ : List String} {pattern : String} :
      s.lock = none → s.spawned = l₁ ++ pattern :: l₂ →
      SubStep Read Take s { s with
        node := { s.node with
          localSubscriptions := s.node.localSubscriptions.insert pattern }
        lock := some (.inserted pattern)
        spawned := l₁ ++ l₂ }
  | read (s : Subscribing γ δ) {pattern : String} : s.lock = some (.inserted pattern) → Read s →
      SubStep Read Take s { s with lock := some (.built s.node.subscribeUpdate) }
  | enqueue (s : Subscribing γ δ) {u : SubscriptionUpdate} : s.lock = some (.built u) →
      s.queue.length < 100 →
      SubStep Read Take s { s with
        queue := s.queue ++ [.controlMsgReceived s.node.nodeId (.of (.subscriptionUpdate u))]
        lock := none }
  | arrive (s : Subscribing γ δ) (sender : NodeId) (msg : ControlMessage) :
      sender ≠ s.node.nodeId → s.queue.length < 100 →
      SubStep Read Take s { s with queue := s.queue ++ [.controlMsgReceived sender msg] }
  | control (s : Subscribing γ δ) (clock : Clock) {sender : NodeId} {msg : ControlMessage}
      {rest : List ControlEvent} {n' : FlowNode γ δ} {outs : List Send} :
      s.queue = .controlMsgReceived sender msg :: rest →
      (sender ≠ s.node.nodeId → Take s.node msg) →
      s.node.controlStep clock (.controlMsgReceived sender msg) = (n', outs) →
      SubStep Read Take s { s with node := n', queue := rest, sent := outs.reverse ++ s.sent }

/-- The announcement of the node's own that an event carries. -/
def ControlEvent.announcement (id : NodeId) : ControlEvent → Option SubscriptionUpdate
  | .controlMsgReceived sender ⟨some (.subscriptionUpdate u)⟩ => if sender = id then some u else none
  | _ => none

/-- No announcement is waiting, and the epoch is not the last one. -/
def Calm (s : Subscribing γ δ) : Prop :=
  s.queue.filterMap (ControlEvent.announcement s.node.nodeId) = [] ∧
    ((s.node.lastSubscriptionEpochs.lookup s.node.nodeId).getD 0).toNat < 18446744073709551615

/-! ## What is kept -/

/-- The subscription update about `id` that a message takes to the peer. -/
def announcedTo (id peer : NodeId) : Send → Option SubscriptionUpdate
  | (q, ⟨some (.subscriptionUpdate u)⟩) => if q = peer ∧ u.nodeId = id then some u else none
  | _ => none

/-- The last subscription update about `id` sent to the peer. -/
def lastGossiped (id : NodeId) (sent : List Send) (peer : NodeId) : Option SubscriptionUpdate :=
  sent.findSome? (announcedTo id peer)

/-- The pattern is in the node's own descriptor, and in the last announcement each peer was
sent. -/
def Settled (s : Subscribing γ δ) (pattern : String) : Prop :=
  s.node.Advertises pattern ∧
  ∀ peer ∈ s.node.peers, peer ≠ s.node.nodeId →
    ∃ u, lastGossiped s.node.nodeId s.sent peer = some u ∧ u.Lists pattern

/-- Every task has finished and every event is processed. -/
def Quiet (s : Subscribing γ δ) : Prop := s.spawned = [] ∧ s.lock = none ∧ s.queue = []

/-- The announcements that are built but not processed. -/
def pending (s : Subscribing γ δ) : List SubscriptionUpdate :=
  s.queue.filterMap (ControlEvent.announcement s.node.nodeId) ++
    match s.lock with
    | some (.built u) => [u]
    | _ => []

structure SubInv (s : Subscribing γ δ) : Prop where
  single : (pending s).length ≤ 1
  fresh : ∀ u ∈ pending s, u.nodeId = s.node.nodeId ∧
    FlowNode.isNewer s.node.lastSubscriptionEpochs s.node.nodeId u.epoch = true
  own : ∀ msg, .controlMsgReceived s.node.nodeId msg ∈ s.queue →
    ∃ u, msg = .of (.subscriptionUpdate u)
  known : ∀ pattern ∈ s.subscribed, pattern ∈ s.spawned ∨ pattern ∈ s.node.localSubscriptions
  told : ∀ pattern ∈ s.node.localSubscriptions, s.lock = some (.inserted pattern) ∨
    (∃ u ∈ pending s, u.Lists pattern) ∨ (pending s = [] ∧ Settled s pattern)

theorem announcement_of_peer {id sender : NodeId} (h : sender ≠ id) (msg : ControlMessage) :
    (ControlEvent.controlMsgReceived sender msg).announcement id = none := by
  unfold ControlEvent.announcement
  split
  · next heq =>
    cases heq
    exact if_neg h
  · rfl

theorem announcement_own (id : NodeId) (u : SubscriptionUpdate) :
    (ControlEvent.controlMsgReceived id (.of (.subscriptionUpdate u))).announcement id = some u :=
  if_pos rfl

theorem announcedTo_eq_some {id peer : NodeId} {o : Send} {u : SubscriptionUpdate} :
    announcedTo id peer o = some u ↔
      o = (peer, .of (.subscriptionUpdate u)) ∧ u.nodeId = id := by
  constructor
  · intro h
    unfold announcedTo at h
    split at h
    · split at h
      · next hpeer =>
        cases h
        exact ⟨by rw [hpeer.1]; rfl, hpeer.2⟩
      · cases h
    · cases h
  · rintro ⟨rfl, hid⟩
    exact if_pos ⟨rfl, hid⟩

/-- Messages that are no announcements do not change what was gossiped last. -/
theorem lastGossiped_silent {id : NodeId} {outs : List Send}
    (h : ∀ o ∈ outs, ∀ u, o.2 = .of (.subscriptionUpdate u) → u.nodeId ≠ id)
    (sent : List Send) (peer : NodeId) :
    lastGossiped id (outs.reverse ++ sent) peer = lastGossiped id sent peer := by
  unfold lastGossiped
  have hnone : outs.reverse.findSome? (announcedTo id peer) = none := by
    rw [List.findSome?_eq_none_iff]
    intro o ho
    refine Option.eq_none_iff_forall_ne_some.mpr fun u hu => ?_
    obtain ⟨rfl, hid⟩ := announcedTo_eq_some.mp hu
    exact h _ (List.mem_reverse.mp ho) u rfl hid
  rw [List.findSome?_append, hnone, Option.none_or]

/-- After an announcement to the peer, that is what was gossiped last. -/
theorem lastGossiped_announced {id : NodeId} {outs : List Send} {u : SubscriptionUpdate}
    {peer : NodeId} (hid : u.nodeId = id) (hall : ∀ o ∈ outs, o.2 = .of (.subscriptionUpdate u))
    (hpeer : (peer, .of (.subscriptionUpdate u)) ∈ outs) (sent : List Send) :
    lastGossiped id (outs.reverse ++ sent) peer = some u := by
  unfold lastGossiped
  rw [List.findSome?_append]
  cases hf : outs.reverse.findSome? (announcedTo id peer) with
  | none =>
    have := List.findSome?_eq_none_iff.mp hf _ (List.mem_reverse.mpr hpeer)
    rw [announcedTo_eq_some.mpr ⟨rfl, hid⟩] at this
    cases this
  | some x =>
    obtain ⟨o, ho, hox⟩ := List.exists_of_findSome?_eq_some hf
    have hm := hall o (List.mem_reverse.mp ho)
    obtain ⟨rfl, -⟩ := announcedTo_eq_some.mp hox
    cases hm
    rfl

theorem isNewer_congr {m m' : HashMap NodeId UInt64} {id : NodeId} (h : m'.lookup id = m.lookup id)
    (epoch : UInt64) : FlowNode.isNewer m' id epoch = FlowNode.isNewer m id epoch := by
  unfold FlowNode.isNewer
  rw [h]

/-- A task that reads while the epoch is not the last one announces a newer epoch. -/
theorem isNewer_subscribeUpdate (n : FlowNode γ δ)
    (h : ((n.lastSubscriptionEpochs.lookup n.nodeId).getD 0).toNat < 18446744073709551615) :
    FlowNode.isNewer n.lastSubscriptionEpochs n.nodeId n.subscribeUpdate.epoch = true := by
  unfold FlowNode.isNewer FlowNode.subscribeUpdate
  cases hl : n.lastSubscriptionEpochs.lookup n.nodeId with
  | none => rfl
  | some c =>
    rw [hl] at h
    simp only [Option.getD_some] at h ⊢
    rw [decide_eq_true_eq, gt_iff_lt, UInt64.lt_iff_toNat_lt, UInt64.toNat_add]
    have h1 : (1 : UInt64).toNat = 1 := rfl
    omega

theorem lists_subscribeUpdate (n : FlowNode γ δ) {pattern : String}
    (h : pattern ∈ n.localSubscriptions) : n.subscribeUpdate.Lists pattern :=
  ⟨⟨"", pattern, SubscriptionAction.subscribe.toI32⟩, List.mem_map.mpr ⟨pattern, h, rfl⟩, rfl, rfl⟩

/-! ## The steps -/

theorem Quiet.pending_eq_nil {s : Subscribing γ δ} (h : Quiet s) : pending s = [] := by
  unfold pending
  rw [h.2.1, h.2.2]
  rfl

theorem SubInv.init {s : Subscribing γ δ} (hquiet : Quiet s)
    (hfresh : s.subscribed = [] ∧ s.node.localSubscriptions = []) : SubInv s := by
  have hpend := hquiet.pending_eq_nil
  refine ⟨by rw [hpend]; exact Nat.zero_le 1, ?_, ?_, ?_, ?_⟩
  · rw [hpend]
    exact fun u hu => absurd hu List.not_mem_nil
  · rw [hquiet.2.2]
    exact fun msg hm => absurd hm List.not_mem_nil
  · rw [hfresh.1]
    exact fun p hp => absurd hp List.not_mem_nil
  · rw [hfresh.2]
    exact fun p hp => absurd hp List.not_mem_nil

/-- The task with the next pattern gets the lock. -/
theorem SubInv.acquire {s : Subscribing γ δ} (h : SubInv s) {l₁ l₂ : List String} {pattern : String}
    (hl : s.lock = none) (hsp : s.spawned = l₁ ++ pattern :: l₂) :
    SubInv { s with
      node := { s.node with localSubscriptions := s.node.localSubscriptions.insert pattern }
      lock := some (.inserted pattern), spawned := l₁ ++ l₂ } := by
  have hpend : pending { s with
      node := { s.node with localSubscriptions := s.node.localSubscriptions.insert pattern }
      lock := some (.inserted pattern), spawned := l₁ ++ l₂ } = pending s := by
    unfold pending
    rw [hl]
  refine ⟨by rw [hpend]; exact h.single, by rw [hpend]; exact h.fresh, h.own,
    fun p hp => ?_, fun p hp => ?_⟩
  · rcases h.known p hp with hk | hk
    · rw [hsp] at hk
      rcases List.mem_append.mp hk with hk | hk
      · exact Or.inl (List.mem_append_left _ hk)
      · rcases List.mem_cons.mp hk with rfl | hk
        · exact Or.inr (List.mem_insert_iff.mpr (Or.inl rfl))
        · exact Or.inl (List.mem_append_right _ hk)
    · exact Or.inr (List.mem_insert_iff.mpr (Or.inr hk))
  · rw [hpend]
    rcases List.mem_insert_iff.mp hp with rfl | hp
    · exact Or.inl rfl
    · rcases h.told p hp with h1 | h1
      · rw [hl] at h1
        cases h1
      · exact Or.inr h1

/-- The task builds its announcement.  No other is pending, so it may carry all patterns. -/
theorem SubInv.read {s : Subscribing γ δ} (h : SubInv s) (hcalm : Calm s) :
    SubInv { s with lock := some (.built s.node.subscribeUpdate) } := by
  have hpend : pending { s with lock := some (.built s.node.subscribeUpdate) } =
      [s.node.subscribeUpdate] := by
    unfold pending
    rw [hcalm.1]
    rfl
  refine ⟨by rw [hpend]; exact Nat.le_refl 1, ?_, h.own, h.known, fun p hp => ?_⟩
  · rw [hpend]
    intro u hu
    rw [List.mem_singleton.mp hu]
    exact ⟨rfl, isNewer_subscribeUpdate s.node hcalm.2⟩
  · rw [hpend]
    exact Or.inr (Or.inl ⟨_, List.mem_singleton_self _, lists_subscribeUpdate s.node hp⟩)

/-- The task sends its announcement to the control loop and releases the lock. -/
theorem SubInv.enqueue {s : Subscribing γ δ} (h : SubInv s) {u : SubscriptionUpdate}
    (hl : s.lock = some (.built u)) :
    SubInv { s with
      queue := s.queue ++ [.controlMsgReceived s.node.nodeId (.of (.subscriptionUpdate u))]
      lock := none } := by
  have hpend : pending { s with
      queue := s.queue ++ [.controlMsgReceived s.node.nodeId (.of (.subscriptionUpdate u))]
      lock := none } = pending s := by
    unfold pending
    rw [hl, List.filterMap_append, List.filterMap_cons_some (announcement_own s.node.nodeId u)]
    simp
  refine ⟨by rw [hpend]; exact h.single, by rw [hpend]; exact h.fresh, fun msg hm => ?_, h.known,
    fun p hp => ?_⟩
  · rcases List.mem_append.mp hm with hm | hm
    · exact h.own msg hm
    · cases List.mem_singleton.mp hm
      exact ⟨u, rfl⟩
  · rw [hpend]
    rcases h.told p hp with h1 | h1
    · rw [hl] at h1
      cases h1
    · exact Or.inr h1

/-- A message of a peer arrives. -/
theorem SubInv.arrive {s : Subscribing γ δ} (h : SubInv s) {sender : NodeId}
    (hne : sender ≠ s.node.nodeId) (msg : ControlMessage) :
    SubInv { s with queue := s.queue ++ [.controlMsgReceived sender msg] } := by
  have hpend : pending { s with queue := s.queue ++ [.controlMsgReceived sender msg] } =
      pending s := by
    unfold pending
    rw [List.filterMap_append, List.filterMap_cons_none (announcement_of_peer hne msg)]
    simp
  refine ⟨by rw [hpend]; exact h.single, by rw [hpend]; exact h.fresh, fun m hm => ?_, h.known,
    by rw [hpend]; exact h.told⟩
  rcases List.mem_append.mp hm with hm | hm
  · exact h.own m hm
  · injection List.mem_singleton.mp hm with hs _
    exact absurd hs.symm hne

variable [PetGraph γ]

/-- The control loop gets to the message of a peer. -/
theorem SubInv.control_peer {s : Subscribing γ δ} (h : SubInv s) {clock : Clock} {sender : NodeId}
    {msg : ControlMessage} {rest : List ControlEvent} {n' : FlowNode γ δ} {outs : List Send}
    (hq : s.queue = .controlMsgReceived sender msg :: rest) (hne : sender ≠ s.node.nodeId)
    (hspares : s.node.Spares msg) (hc : s.node.onMessage clock sender msg = (n', outs)) :
    SubInv { s with node := n', queue := rest, sent := outs.reverse ++ s.sent } := by
  have hunt := s.node.onMessage_untouched clock sender hspares hc
  have hsame := FlowNode.sameHost_of_onMessage hc
  have hpend : pending { s with node := n', queue := rest, sent := outs.reverse ++ s.sent } =
      pending s := by
    unfold pending
    rw [hq, List.filterMap_cons_none (announcement_of_peer hne msg), hsame.nodeId]
  have hset : ∀ pattern, Settled s pattern →
      Settled { s with node := n', queue := rest, sent := outs.reverse ++ s.sent } pattern := by
    rintro pattern ⟨h1, h2⟩
    refine ⟨hunt.advertises pattern h1, fun peer hp hne => ?_⟩
    simp only [hsame.peers] at hp
    simp only [hsame.nodeId] at hne ⊢
    simp only [lastGossiped_silent hunt.silent]
    exact h2 peer hp hne
  refine ⟨by rw [hpend]; exact h.single, ?_, ?_, ?_, ?_⟩
  · rw [hpend]
    intro u hu
    simp only [hsame.nodeId]
    rw [isNewer_congr hunt.epoch]
    exact h.fresh u hu
  · intro m hm
    simp only [hsame.nodeId] at hm
    exact h.own m (by rw [hq]; exact List.mem_cons_of_mem _ hm)
  · simp only [hsame.localSubscriptions]
    exact h.known
  · rw [hpend]
    simp only [hsame.localSubscriptions]
    intro pattern hp
    exact (h.told pattern hp).imp_right fun h => h.imp_right fun ⟨h1, h2⟩ => ⟨h1, hset pattern h2⟩

/-- Once the control loop has accepted an announcement, the patterns it lists are settled. -/
theorem settled_acceptSubscription (s : Subscribing γ δ) (clock : Clock) {u : SubscriptionUpdate}
    (hid : u.nodeId = s.node.nodeId) {t : HashMap NodeId Nat} {rest : List ControlEvent}
    {pattern : String} (hlist : u.Lists pattern) :
    Settled { s with
      node := { s.node.acceptSubscription clock u with nodeLastSeen := t }
      queue := rest
      sent := (s.node.gossip s.node.nodeId u.nodeId (.of (.subscriptionUpdate u))).reverse ++
        s.sent } pattern := by
  refine ⟨⟨⟨u.nodeId, NodeRole.flow.toI32, FlowNode.subscriptionCapabilities u, clock.millis⟩, ?_,
    (subKey_mem_subscriptionCapabilities u pattern).mpr hlist⟩,
    fun peer hpeer hne => ⟨u, ?_, hlist⟩⟩
  · show (s.node.graph.addNode _).nodeMetadata.lookup s.node.nodeId = _
    rw [← hid]
    exact GlobalGraph.lookup_metadata_addNode_self _ _
  · refine lastGossiped_announced hid (fun o ho => (FlowNode.mem_gossip.mp ho).2.2.2)
      (FlowNode.mem_gossip.mpr ⟨hpeer, hne, ?_, rfl⟩) _
    rw [hid]
    exact hne

/-- The control loop gets to an announcement: it is the only one, newer than what is
recorded, and goes out to every peer. -/
theorem SubInv.control_own {s : Subscribing γ δ} (h : SubInv s) {clock : Clock}
    {u : SubscriptionUpdate} {rest : List ControlEvent} {n' : FlowNode γ δ} {outs : List Send}
    (hq : s.queue = .controlMsgReceived s.node.nodeId (.of (.subscriptionUpdate u)) :: rest)
    (hc : s.node.onMessage clock s.node.nodeId (.of (.subscriptionUpdate u)) = (n', outs)) :
    SubInv { s with node := n', queue := rest, sent := outs.reverse ++ s.sent } := by
  have hsame := FlowNode.sameHost_of_onMessage hc
  have hpend : pending s =
      u :: pending { s with node := n', queue := rest, sent := outs.reverse ++ s.sent } := by
    unfold pending
    rw [hq, List.filterMap_cons_some (announcement_own s.node.nodeId u), hsame.nodeId]
    rfl
  have hnil : pending { s with node := n', queue := rest, sent := outs.reverse ++ s.sent } = [] := by
    have := h.single
    rw [hpend, List.length_cons] at this
    apply List.eq_nil_of_length_eq_zero
    omega
  obtain ⟨hid, hnew⟩ := h.fresh u (by rw [hpend]; exact List.mem_cons_self)
  rw [← hid] at hnew
  obtain ⟨t, ⟨-, rfl, rfl⟩ | ⟨hold, -, -⟩⟩ :=
    FlowNode.onMessage_subscription clock s.node s.node.nodeId u hc
  · refine ⟨by rw [hnil]; exact Nat.zero_le 1, ?_, ?_, h.known, ?_⟩
    · rw [hnil]
      intro x hx
      cases hx
    · intro msg hm
      exact h.own msg (by rw [hq]; exact List.mem_cons_of_mem _ hm)
    · intro pattern hp
      rcases h.told pattern hp with h1 | ⟨x, hx, hlist⟩ | ⟨h1, -⟩
      · exact Or.inl h1
      · rw [hpend, hnil, List.mem_singleton] at hx
        subst hx
        exact Or.inr (Or.inr ⟨hnil, settled_acceptSubscription s clock hid hlist⟩)
      · rw [hpend] at h1
        cases h1
  · rw [hnew] at hold
    cases hold

theorem SubInv.step {s s' : Subscribing γ δ} (h : SubInv s)
    (hs : SubStep Calm FlowNode.Spares s s') : SubInv s' := by
  cases hs with
  | subscribe pattern handler =>
    refine ⟨h.single, h.fresh, h.own, fun p hp => ?_, h.told⟩
    rcases List.mem_cons.mp hp with rfl | hp
    · exact Or.inl List.mem_cons_self
    · exact (h.known p hp).imp_left fun h => List.mem_cons_of_mem _ h
  | acquire hl hsp => exact h.acquire hl hsp
  | read _ hcalm => exact h.read hcalm
  | enqueue hl => exact h.enqueue hl
  | arrive sender msg hne => exact h.arrive hne msg
  | @control clock sender msg rest n' outs hq htake hc =>
    by_cases hne : sender = s.node.nodeId
    · subst hne
      obtain ⟨u, rfl⟩ := h.own msg (by rw [hq]; exact List.mem_cons_self)
      exact h.control_own hq hc
    · exact h.control_peer hq hne (htake hne) hc

theorem SubInv.run {s s' : Subscribing γ δ} (h : SubInv s)
    (hrun : ReflTransGen (SubStep Calm FlowNode.Spares) s s') : SubInv s' := by
  induction hrun with
  | refl => exact h
  | tail _ hstep ih => exact ih.step hstep

/-- **Nothing is lost.**  If every task reads the epoch while no announcement is waiting, and
the peers' messages spare the node, then once all tasks have finished and all events are
processed, each subscribed pattern is in the node's own descriptor and in the last
announcement gossiped to each peer. -/
theorem subscriptions_kept {start s : Subscribing γ δ} (hquiet : Quiet start)
    (hfresh : start.subscribed = [] ∧ start.node.localSubscriptions = [])
    (hrun : ReflTransGen (SubStep Calm FlowNode.Spares) start s) (hs : Quiet s) :
    ∀ pattern ∈ s.subscribed, Settled s pattern := by
  have hinv := (SubInv.init hquiet hfresh).run hrun
  intro pattern hp
  rcases hinv.known pattern hp with hk | hk
  · rw [hs.1] at hk
    cases hk
  · rcases hinv.told pattern hk with h1 | ⟨u, hu, -⟩ | ⟨-, h1⟩
    · rw [hs.2.1] at h1
      cases h1
    · rw [hs.pending_eq_nil] at hu
      cases hu
    · exact h1

end

/-! ## Two tasks and one epoch -/

/-- `a`, with `b` as its peer, before any call. -/
def idle : Subscribing VecGraph Unit := ⟨pairNode "a", [], none, [], [], []⟩

/-- Both tasks read epoch 0 before the control loop processes the first announcement, so the
second announces epoch 1 again and is dropped: `y` is on no descriptor. -/
theorem second_subscription_lost : ∃ s, ReflTransGen (SubStep (fun _ => True) fun _ _ => True) idle s ∧ Quiet s ∧
    "y" ∈ s.subscribed ∧ ¬ Settled s "y" := by
  have h0 : ReflTransGen (SubStep (fun _ => True) fun _ _ => True) idle idle := .refl
  have h1 := (h0.tail (.subscribe _ "x" 0)).tail (.subscribe _ "y" 1)
  have h2 := ((h1.tail (.acquire _ rfl (show ["y", "x"] = ["y"] ++ "x" :: [] from rfl))).tail
    (.read _ rfl trivial)).tail (.enqueue _ rfl (by decide))
  have h3 := ((h2.tail (.acquire _ rfl (show ["y"] = [] ++ "y" :: [] from rfl))).tail
    (.read _ rfl trivial)).tail (.enqueue _ rfl (by decide))
  have h4 := (h3.tail (.control _ ⟨0, 0⟩ rfl (fun _ => trivial) rfl)).tail
    (.control _ ⟨0, 0⟩ rfl (fun _ => trivial) rfl)
  refine ⟨_, h4, ⟨rfl, rfl, rfl⟩, List.mem_cons_self, ?_⟩
  rintro ⟨⟨d, hd, hcap⟩, -⟩
  cases hd
  revert hcap
  decide

/-- The same calls, with the control loop in between. -/
theorem subscriptions_kept_in_turn : ∃ s, ReflTransGen (SubStep Calm FlowNode.Spares) idle s ∧
    s.subscribed = ["y", "x"] ∧ ∀ pattern ∈ s.subscribed, Settled s pattern := by
  have h0 : ReflTransGen (SubStep Calm FlowNode.Spares) idle idle := .refl
  have h1 := (h0.tail (.subscribe _ "x" 0)).tail (.subscribe _ "y" 1)
  have h2 := ((h1.tail (.acquire _ rfl (show ["y", "x"] = ["y"] ++ "x" :: [] from rfl))).tail
    (.read _ rfl ⟨rfl, by decide⟩)).tail (.enqueue _ rfl (by decide))
  have h3 := h2.tail (.control _ ⟨0, 0⟩ rfl (fun h => absurd rfl h) rfl)
  have h4 := ((h3.tail (.acquire _ rfl (show ["y"] = [] ++ "y" :: [] from rfl))).tail
    (.read _ rfl ⟨rfl, by decide⟩)).tail (.enqueue _ rfl (by decide))
  have h5 := h4.tail (.control _ ⟨0, 0⟩ rfl (fun h => absurd rfl h) rfl)
  exact ⟨_, h5, rfl, subscriptions_kept ⟨rfl, rfl, rfl⟩ ⟨rfl, rfl⟩ h5 ⟨rfl, rfl, rfl⟩⟩

end Stric.Flow
