import Stric.Flow.SubscriptionView
import Stric.Flow.RoutingTree

/-!
# What a subscription update changes

An accepted `SubscriptionUpdate` replaces the descriptor of its node by one that the handler
builds from nothing: role `Flow`, and the `sub:` capabilities of the update.  `SubscriptionsOnly`
says that subscriptions are all that changed.  It holds exactly if the old descriptor had nothing
to lose: the role `Flow`, and no capability but subscriptions (`subscriptionsOnly_iff`).

The other nodes and all links are kept in any case (`links_addNode`).  An aggregator loses its
role with its first subscription, and the links into it their penalty (`penalty_lost`).
-/

namespace Stric.Flow

open Stric.Pool

section
variable {γ δ : Type} [PetGraph γ]

/-- The value of a capability of the node, if it has a descriptor with that capability. -/
def GlobalGraph.capability (g : GlobalGraph γ) (id : NodeId) (key : String) : Option String :=
  (g.nodeMetadata.lookup id).bind fun d => d.capabilities.lookup key

/-- From `g` to `g'` only the subscriptions of the update's node have changed. -/
structure SubscriptionsOnly (u : SubscriptionUpdate) (g g' : GlobalGraph γ) : Prop where
  others : ∀ id, id ≠ u.nodeId → g'.nodeMetadata.lookup id = g.nodeMetadata.lookup id
  links : g'.getDescriptors.2.Perm g.getDescriptors.2
  role : ∀ d, g.nodeMetadata.lookup u.nodeId = some d →
    ∃ d', g'.nodeMetadata.lookup u.nodeId = some d' ∧ d'.role = d.role
  kept : ∀ key, stripSub key = none → g'.capability u.nodeId key = g.capability u.nodeId key
  subscriptions : ∀ pattern, pattern ∈ g'.subscriptionsOf u.nodeId ↔ u.Lists pattern
  costs : ∀ source v c, Walk g'.Link source v c ↔ Walk g.Link source v c

/-- The descriptor is as a subscription update would have made it, whatever its subscriptions. -/
def NodeDescriptor.Plain (d : NodeDescriptor) : Prop :=
  d.role = NodeRole.flow.toI32 ∧ ∀ key ∈ d.capabilities, (stripSub key).isSome

/-! ## Adding a node leaves the links -/

namespace GlobalGraph

variable (g : GlobalGraph γ) (d : NodeDescriptor)

theorem name_addNode {i : Nat} (hi : i < (PetGraph.nodeWeights g.graph).length) :
    (g.addNode d).name i = g.name i := by
  show (PetGraph.nodeWeights (g.entryIndex d.nodeId).1.graph).getD i "" = _
  unfold entryIndex
  split
  · rfl
  · simp only [PetGraph.nodeWeights_addNode]
    unfold name
    rw [List.getD_eq_getElem?_getD, List.getD_eq_getElem?_getD, List.getElem?_append_left hi]

theorem edges_addNode :
    (PetGraph.edgeReferences (g.addNode d).graph).Perm (PetGraph.edgeReferences g.graph) := by
  show (PetGraph.edgeReferences (g.entryIndex d.nodeId).1.graph).Perm _
  unfold entryIndex
  split
  · exact .refl _
  · exact PetGraph.edgeReferences_addNode _ _

theorem links_addNode : (g.addNode d).getDescriptors.2.Perm g.getDescriptors.2 := by
  refine ((g.edges_addNode d).map _).trans (.of_eq (List.map_congr_left fun e he => ?_))
  obtain ⟨hs, ht⟩ := PetGraph.edge_bounds g.graph e he
  rw [name_addNode g d hs, name_addNode g d ht]

/-- If the new descriptor makes nobody an aggregator or stop being one, the links keep their
penalised costs. -/
theorem link_addNode (hrole : ∀ id, (g.addNode d).isAggregator id = g.isAggregator id)
    (u v : NodeId) (k : Nat) : (g.addNode d).Link u v k ↔ g.Link u v k := by
  have hedge : ∀ e ∈ PetGraph.edgeReferences g.graph,
      (g.addNode d).name e.source = g.name e.source ∧
      (g.addNode d).name e.target = g.name e.target ∧
      (g.addNode d).linkCost e = g.linkCost e := by
    intro e he
    obtain ⟨hs, ht⟩ := PetGraph.edge_bounds g.graph e he
    refine ⟨name_addNode g d hs, name_addNode g d ht, ?_⟩
    unfold linkCost
    rw [name_addNode g d ht, hrole]
  unfold Link
  constructor
  · rintro ⟨e, he, hs, ht, hk⟩
    have he := (g.edges_addNode d).mem_iff.mp he
    obtain ⟨hs', ht', hk'⟩ := hedge e he
    exact ⟨e, he, hs' ▸ hs, ht' ▸ ht, hk' ▸ hk⟩
  · rintro ⟨e, he, hs, ht, hk⟩
    obtain ⟨hs', ht', hk'⟩ := hedge e he
    exact ⟨e, (g.edges_addNode d).mem_iff.mpr he, hs'.trans hs, ht'.trans ht, hk'.trans hk⟩

end GlobalGraph

/-! ## The descriptor of the update's node -/

/-- What the handler enters for the update's node. -/
def SubscriptionUpdate.descriptor (u : SubscriptionUpdate) (clock : Clock) : NodeDescriptor :=
  ⟨u.nodeId, NodeRole.flow.toI32, FlowNode.subscriptionCapabilities u, clock.millis⟩

theorem onSubscriptionUpdate_graph (clock : Clock) (n : FlowNode γ δ) (sender : NodeId)
    (u : SubscriptionUpdate)
    (hnew : FlowNode.isNewer n.lastSubscriptionEpochs u.nodeId u.epoch = true) :
    (n.onSubscriptionUpdate clock sender u).1.graph = n.graph.addNode (u.descriptor clock) := by
  unfold FlowNode.onSubscriptionUpdate
  simp only [FlowNode.seen, hnew, if_true]
  rfl

theorem lookup_subscriptionCapabilities (u : SubscriptionUpdate) {key : String}
    (h : stripSub key = none) : (FlowNode.subscriptionCapabilities u).lookup key = none := by
  rw [AList.lookup_eq_none, mem_subscriptionCapabilities]
  rintro ⟨entry, -, -, rfl⟩
  rw [(stripSub_eq_some _ entry.pattern).mpr rfl] at h
  exact absurd h (Option.some_ne_none _)

variable {g : GlobalGraph γ} {u : SubscriptionUpdate} {clock : Clock}

/-- The capabilities that are not subscriptions stay exactly if there were none. -/
theorem capability_kept_iff :
    (∀ key, stripSub key = none →
      (g.addNode (u.descriptor clock)).capability u.nodeId key = g.capability u.nodeId key) ↔
    ∀ d, g.nodeMetadata.lookup u.nodeId = some d → ∀ key ∈ d.capabilities, (stripSub key).isSome := by
  have hself := g.lookup_metadata_addNode_self (u.descriptor clock)
  change _ = some (u.descriptor clock) at hself
  have hnone : ∀ key, stripSub key = none →
      (g.addNode (u.descriptor clock)).capability u.nodeId key = none := by
    intro key hkey
    unfold GlobalGraph.capability
    rw [show (g.addNode (u.descriptor clock)).nodeMetadata.lookup u.nodeId = _ from hself]
    exact lookup_subscriptionCapabilities u hkey
  constructor
  · intro h d hd key hmem
    by_contra hsub
    have hkey : stripSub key = none := Option.not_isSome_iff_eq_none.mp hsub
    have hlost := (h key hkey).symm.trans (hnone key hkey)
    rw [GlobalGraph.capability, hd, Option.bind_some, AList.lookup_eq_none] at hlost
    exact hlost hmem
  · intro h key hkey
    rw [hnone key hkey, GlobalGraph.capability]
    cases hd : g.nodeMetadata.lookup u.nodeId with
    | none => rfl
    | some d =>
      symm
      rw [Option.bind_some, AList.lookup_eq_none]
      intro hmem
      have hsome := h d hd key hmem
      rw [hkey] at hsome
      exact absurd hsome Bool.false_ne_true

theorem isAggregator_kept (clock : Clock)
    (h : ∀ d, g.nodeMetadata.lookup u.nodeId = some d → d.role = NodeRole.flow.toI32)
    (id : NodeId) : (g.addNode (u.descriptor clock)).isAggregator id = g.isAggregator id := by
  unfold GlobalGraph.isAggregator
  by_cases hid : id = u.nodeId
  · subst hid
    rw [show (g.addNode (u.descriptor clock)).nodeMetadata.lookup u.nodeId = _ from
      g.lookup_metadata_addNode_self (u.descriptor clock)]
    cases hd : g.nodeMetadata.lookup u.nodeId with
    | none => rfl
    | some d =>
      simp only [h d hd]
      rfl
  · rw [g.lookup_metadata_addNode_ne (u.descriptor clock) hid]

/-- **When a subscription update changes subscriptions only**: exactly if the node had no
descriptor, or one with the role `Flow` and no capabilities but subscriptions. -/
theorem subscriptionsOnly_iff (clock : Clock) (n : FlowNode γ δ) (sender : NodeId)
    (u : SubscriptionUpdate)
    (hnew : FlowNode.isNewer n.lastSubscriptionEpochs u.nodeId u.epoch = true) :
    SubscriptionsOnly u n.graph (n.onSubscriptionUpdate clock sender u).1.graph ↔
      ∀ d, n.graph.nodeMetadata.lookup u.nodeId = some d → d.Plain := by
  rw [onSubscriptionUpdate_graph clock n sender u hnew]
  have hself := n.graph.lookup_metadata_addNode_self (u.descriptor clock)
  change AList.lookup u.nodeId _ = _ at hself
  constructor
  · intro h d hd
    refine ⟨?_, capability_kept_iff.mp h.kept d hd⟩
    obtain ⟨d', hd', hrole⟩ := h.role d hd
    cases hself.symm.trans hd'
    exact hrole.symm
  · intro h
    have hrole := isAggregator_kept clock fun d hd => (h d hd).1
    refine
      { others := fun id hid => n.graph.lookup_metadata_addNode_ne _ hid
        links := n.graph.links_addNode _
        role := fun d hd => ⟨_, hself, (h d hd).1.symm⟩
        kept := capability_kept_iff.mpr fun d hd => (h d hd).2
        subscriptions := mem_subscriptionsOf_acceptSubscription clock n u
        costs := fun source v c => ?_ }
    have hlink := n.graph.link_addNode _ hrole
    exact ⟨Walk.mono fun x y k => (hlink x y k).mp, Walk.mono fun x y k => (hlink x y k).mpr⟩

end

/-! ## An aggregator subscribes -/

/-- `a` has learnt of its neighbour `n` with this role and these capabilities. -/
def neighbourNode (role : NodeRole) (capabilities : HashMap String String) :
    FlowNode VecGraph Unit :=
  (FlowNode.onMessage ⟨0, 0⟩ (.new "a" ∅) "n" (.of (.topologyUpdate
    ⟨"n", 1, [⟨"n", role.toI32, capabilities, 0⟩], [], [⟨"a", "n", 1, 0⟩], []⟩))).1

/-- An aggregator subscribes to `t`: it is an aggregator no more, and the link into it costs 1
instead of 10001. -/
theorem penalty_lost :
    let n := neighbourNode .aggregator ∅
    let g := (n.onSubscriptionUpdate ⟨1, 1⟩ "n" tUpdate).1.graph
    FlowNode.isNewer n.lastSubscriptionEpochs tUpdate.nodeId tUpdate.epoch = true ∧
    n.graph.isAggregator "n" = true ∧ g.isAggregator "n" = false ∧
    n.graph.Link "a" "n" 10001 ∧ g.Link "a" "n" 1 ∧ ¬ SubscriptionsOnly tUpdate n.graph g := by
  intro n g
  -- `n` came with the descriptors, before `a` came with the link
  have hedge : (⟨1, 0, 1, 0⟩ : EdgeRef) ∈ PetGraph.edgeReferences n.graph.graph := by decide
  refine ⟨rfl, rfl, rfl, ⟨_, hedge, rfl, rfl, by decide⟩, ⟨_, hedge, rfl, rfl, by decide⟩,
    fun h => ?_⟩
  obtain ⟨d', hd', hrole⟩ := h.role ⟨"n", 1, ∅, 0⟩ rfl
  cases hd'
  exact absurd hrole (by decide)

/-- A node of role `Flow` whose only capability is a subscription. -/
theorem plain_neighbour_kept :
    let n := neighbourNode .flow ((∅ : HashMap String String).insert "sub:s" "")
    SubscriptionsOnly tUpdate n.graph (n.onSubscriptionUpdate ⟨1, 1⟩ "n" tUpdate).1.graph := by
  intro n
  refine (subscriptionsOnly_iff ⟨1, 1⟩ n "n" tUpdate rfl).mpr fun d hd => ?_
  cases hd
  refine ⟨rfl, fun key hkey => ?_⟩
  cases List.mem_singleton.mp (AList.mem_keys.mp hkey)
  decide

end Stric.Flow
