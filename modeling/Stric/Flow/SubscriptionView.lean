import Stric.Flow.GraphUpdate
import Stric.Flow.Subscribe

/-!
# A node's view of another node's subscriptions

The subscriptions of a node are kept as `sub:` capabilities of its descriptor.  Two kinds of
messages write descriptors: a `SubscriptionUpdate` of the node itself, guarded by
`last_subscription_epochs`, and any origin's `TopologyUpdate`, whose `nodes_added` replace
descriptors and whose `nodes_removed` drop them, guarded by `last_epochs`.

Nothing compares the two.  An older copy of a descriptor, in a topology update that is new in
itself, takes the place of the subscriptions recorded, and the update they came from is a
duplicate from then on (`stale_copy_replaces_subscriptions`).  As long as every topology update that is
applied `Respects` the subscriptions recorded, the view is that of the last update accepted
(`subscription_view_kept`); for a single update the condition is exact (`respects_iff`).
-/

namespace Stric.Flow

open Stric.Pool Relation

section
variable {γ δ : Type} [PetGraph γ]

/-- The patterns of the `sub:` capabilities stored for the node. -/
def GlobalGraph.subscriptionsOf (g : GlobalGraph γ) (id : NodeId) : List String :=
  match g.nodeMetadata.lookup id with
  | some d => d.subscriptions
  | none => []

structure Viewing (γ δ : Type) where
  node : FlowNode γ δ
  /-- The subscription updates accepted, the latest first. -/
  accepted : List SubscriptionUpdate

def Viewing.record (s : Viewing γ δ) : ControlEvent → List SubscriptionUpdate
  | .controlMsgReceived _ ⟨some (.subscriptionUpdate u)⟩ =>
    if FlowNode.isNewer s.node.lastSubscriptionEpochs u.nodeId u.epoch then u :: s.accepted
    else s.accepted
  | _ => s.accepted

/-- Turns of the control loop; `Guard` restricts the topology updates that are applied. -/
inductive ViewStep (Guard : FlowNode γ δ → TopologyUpdate → Prop) :
    Viewing γ δ → Viewing γ δ → Prop
  | control (s : Viewing γ δ) (clock : Clock) (event : ControlEvent) {n' : FlowNode γ δ}
      {outs : List Send} : s.node.controlStep clock event = (n', outs) →
      (∀ u, event.topology = some u →
        FlowNode.isNewer s.node.lastEpochs u.originNodeId u.epoch = true → Guard s.node u) →
      ViewStep Guard s ⟨n', s.record event⟩

/-- A node that was just created. -/
def Viewing.start (id : NodeId) (registry : MessageRegistry δ) : Viewing γ δ :=
  ⟨FlowNode.new id registry, []⟩

/-- For each node with a recorded subscription epoch, exactly the patterns of its update with
that epoch are stored. -/
def Viewing.Exact (s : Viewing γ δ) : Prop :=
  ∀ id e, s.node.lastSubscriptionEpochs.lookup id = some e →
    ∃ u ∈ s.accepted, u.nodeId = id ∧ u.epoch = e ∧
      (∀ v ∈ s.accepted, v.nodeId = id → v.epoch = e → v = u) ∧
      ∀ pattern, pattern ∈ s.node.graph.subscriptionsOf id ↔ u.Lists pattern

/-! ## Topology updates -/

/-- The update leaves the subscriptions recorded as they are: it removes no node that has any,
and the last descriptor it adds for a node repeats them. -/
def Respects (n : FlowNode γ δ) (u : TopologyUpdate) : Prop :=
  ∀ id ∈ n.lastSubscriptionEpochs,
    (id ∈ u.nodesRemoved → n.graph.subscriptionsOf id = []) ∧
    (id ∉ u.nodesRemoved → ∀ d, GlobalGraph.lastAdded u.nodesAdded id = some d →
      ∀ pattern, pattern ∈ d.subscriptions ↔ pattern ∈ n.graph.subscriptionsOf id)

theorem subscriptionsOf_applyUpdate {g : GlobalGraph γ} (h : g.WF) (u : TopologyUpdate)
    (id : NodeId) : (g.applyUpdate u).subscriptionsOf id =
      if id ∈ u.nodesRemoved then []
      else match GlobalGraph.lastAdded u.nodesAdded id with
        | some d => d.subscriptions
        | none => g.subscriptionsOf id := by
  unfold GlobalGraph.subscriptionsOf
  rw [h.lookup_metadata_applyUpdate]
  by_cases hr : id ∈ u.nodesRemoved
  · rw [if_pos hr, if_pos hr]
  · rw [if_neg hr, if_neg hr]
    cases GlobalGraph.lastAdded u.nodesAdded id with
    | some d => rfl
    | none => rfl

/-- The condition is what it takes to change no subscriptions that are recorded. -/
theorem respects_iff {n : FlowNode γ δ} (h : n.graph.WF) (u : TopologyUpdate) :
    Respects n u ↔ ∀ id ∈ n.lastSubscriptionEpochs, ∀ pattern,
      pattern ∈ (n.graph.applyUpdate u).subscriptionsOf id ↔
        pattern ∈ n.graph.subscriptionsOf id := by
  unfold Respects
  apply forall_congr'
  intro id
  apply imp_congr_right
  intro _
  rw [subscriptionsOf_applyUpdate h]
  by_cases hr : id ∈ u.nodesRemoved
  · simp only [hr, if_true, not_true_eq_false, false_implies, and_true, true_implies,
      List.not_mem_nil, false_iff]
    exact List.eq_nil_iff_forall_not_mem
  · simp only [hr, if_false, false_implies, true_and, not_false_eq_true, true_implies]
    cases GlobalGraph.lastAdded u.nodesAdded id with
    | some d => simp
    | none => simp

/-! ## The invariant -/

structure ViewInv (s : Viewing γ δ) : Prop where
  reachable : s.node.graph.Reachable
  recorded : ∀ v ∈ s.accepted, ∃ c,
    s.node.lastSubscriptionEpochs.lookup v.nodeId = some c ∧ v.epoch ≤ c
  exact : s.Exact

/-- Turns that change no subscriptions of nodes with a recorded epoch. -/
theorem ViewInv.same {s : Viewing γ δ} (h : ViewInv s) {n' : FlowNode γ δ}
    (hep : n'.lastSubscriptionEpochs = s.node.lastSubscriptionEpochs)
    (hsub : ∀ id ∈ s.node.lastSubscriptionEpochs, ∀ pattern,
      pattern ∈ n'.graph.subscriptionsOf id ↔ pattern ∈ s.node.graph.subscriptionsOf id)
    (hreach : n'.graph.Reachable) : ViewInv ⟨n', s.accepted⟩ := by
  refine ⟨hreach, ?_, ?_⟩
  · intro v hv
    rw [hep]
    exact h.recorded v hv
  · intro id e he
    rw [hep] at he
    obtain ⟨u, hu, hid, hepoch, huniq, hpat⟩ := h.exact id e he
    refine ⟨u, hu, hid, hepoch, huniq, fun pattern => ?_⟩
    have hmem : id ∈ s.node.lastSubscriptionEpochs := by
      rw [← AList.lookup_isSome, he]
      rfl
    rw [hsub id hmem pattern]
    exact hpat pattern

omit [PetGraph γ] in
theorem subscriptionsOf_congr {g g' : GlobalGraph γ} (h : g'.nodeMetadata = g.nodeMetadata)
    (id : NodeId) : g'.subscriptionsOf id = g.subscriptionsOf id := by
  unfold GlobalGraph.subscriptionsOf
  rw [h]

/-- What is stored after a subscription update. -/
theorem mem_subscriptionsOf_acceptSubscription (clock : Clock) (n : FlowNode γ δ)
    (u : SubscriptionUpdate) (pattern : String) :
    pattern ∈ (n.acceptSubscription clock u).graph.subscriptionsOf u.nodeId ↔ u.Lists pattern := by
  have hself := GlobalGraph.lookup_metadata_addNode_self n.graph
    ⟨u.nodeId, NodeRole.flow.toI32, FlowNode.subscriptionCapabilities u, clock.millis⟩
  unfold GlobalGraph.subscriptionsOf FlowNode.acceptSubscription
  simp only at hself ⊢
  rw [hself]
  simp only
  rw [NodeDescriptor.mem_subscriptions]
  exact subKey_mem_subscriptionCapabilities u pattern

theorem ViewInv.subscription {s : Viewing γ δ} (h : ViewInv s) (clock : Clock)
    {u : SubscriptionUpdate}
    (hnew : FlowNode.isNewer s.node.lastSubscriptionEpochs u.nodeId u.epoch = true)
    (t : HashMap NodeId Nat) :
    ViewInv ⟨{ s.node.acceptSubscription clock u with nodeLastSeen := t }, u :: s.accepted⟩ := by
  refine ⟨h.reachable.addNode _, ?_, ?_⟩
  · intro v hv
    rcases List.mem_cons.mp hv with rfl | hv
    · exact ⟨v.epoch, AList.lookup_insert _, UInt64.le_refl _⟩
    · obtain ⟨c, hc, hle⟩ := h.recorded v hv
      obtain ⟨c', hc', hle'⟩ := lookup_insert_of_isNewer hnew hc
      exact ⟨c', hc', UInt64.le_trans hle hle'⟩
  · intro id e he
    change (s.node.lastSubscriptionEpochs.insert u.nodeId u.epoch).lookup id = some e at he
    by_cases hid : id = u.nodeId
    · subst hid
      rw [AList.lookup_insert] at he
      cases he
      refine ⟨u, List.mem_cons_self, rfl, rfl, ?_,
        mem_subscriptionsOf_acceptSubscription clock s.node u⟩
      -- an older update of the node would have kept this one from being accepted
      intro v hv hvid hve
      rcases List.mem_cons.mp hv with rfl | hv
      · rfl
      · exfalso
        obtain ⟨c, hc, hle⟩ := h.recorded v hv
        rw [hvid] at hc
        unfold FlowNode.isNewer at hnew
        rw [hc] at hnew
        simp only [decide_eq_true_eq] at hnew
        rw [hve] at hle
        exact absurd (UInt64.lt_of_lt_of_le hnew hle) (UInt64.lt_irrefl _)
    · rw [AList.lookup_insert_ne hid] at he
      obtain ⟨v, hv, hvid, hve, huniq, hpat⟩ := h.exact id e he
      refine ⟨v, List.mem_cons_of_mem _ hv, hvid, hve, ?_, ?_⟩
      · intro w hw hwid hwe
        rcases List.mem_cons.mp hw with rfl | hw
        · exact absurd hwid.symm hid
        · exact huniq w hw hwid hwe
      · intro pattern
        rw [← hpat pattern]
        unfold GlobalGraph.subscriptionsOf FlowNode.acceptSubscription
        simp only
        rw [GlobalGraph.lookup_metadata_addNode_ne s.node.graph _ hid]

theorem ViewInv.step {s s' : Viewing γ δ} (h : ViewInv s) (hstep : ViewStep Respects s s') :
    ViewInv s' := by
  obtain ⟨clock, event, hc, hguard⟩ := hstep
  cases event with
  | peerConnected id tx =>
    cases hc
    exact h.same rfl (fun id _ pattern => Iff.rfl) h.reachable
  | peerDisconnected id =>
    unfold FlowNode.controlStep at hc
    simp only at hc
    split at hc
    · cases hc
      exact h.same rfl (fun id _ pattern => Iff.rfl) h.reachable
    · cases hc
      exact h.same rfl (fun id _ pattern => Iff.rfl) h.reachable
  | controlMsgReceived sender msg =>
    change s.node.onMessage clock sender msg = _ at hc
    rcases msg.cases with ⟨u, rfl⟩ | ⟨u, rfl⟩ | ⟨p, rfl⟩ | hp
    · obtain ⟨t, ⟨hnew, rfl, -⟩ | ⟨-, rfl, -⟩⟩ := s.node.onMessage_topology clock sender u hc
      · exact h.same rfl
          ((respects_iff (GlobalGraph.reachable_wf h.reachable) u).mp (hguard u rfl hnew))
          (h.reachable.applyUpdate u)
      · exact h.same rfl (fun id _ pattern => Iff.rfl) h.reachable
    · obtain ⟨t, ⟨hnew, rfl, -⟩ | ⟨hold, rfl, -⟩⟩ := s.node.onMessage_subscription clock sender u hc
      · have hrec : s.record (.controlMsgReceived sender (.of (.subscriptionUpdate u))) =
            u :: s.accepted := if_pos hnew
        rw [hrec]
        exact h.subscription clock hnew t
      · have hrec : s.record (.controlMsgReceived sender (.of (.subscriptionUpdate u))) =
            s.accepted := if_neg (by rw [hold]; decide)
        rw [hrec]
        exact h.same rfl (fun id _ pattern => Iff.rfl) h.reachable
    · have hsub : ∀ (link : LinkDescriptor) id, ∀ pattern,
          pattern ∈ (s.node.graph.addLink link).subscriptionsOf id ↔
            pattern ∈ s.node.graph.subscriptionsOf id := by
        intro link id pattern
        rw [subscriptionsOf_congr (GlobalGraph.addLink_metadata s.node.graph link)]
      obtain ⟨t, link, ⟨-, rfl, -⟩ | ⟨-, rfl, -⟩⟩ := s.node.onMessage_pong clock sender p hc
      · exact h.same rfl (fun id _ => hsub link id) (h.reachable.addLink link)
      · exact h.same rfl (fun id _ => hsub link id) (h.reachable.addLink link)
    · obtain ⟨⟨sessions, limiters, t, rfl⟩, -⟩ := s.node.onMessage_plain clock sender hp hc
      have hrec : s.record (.controlMsgReceived sender msg) = s.accepted := by
        unfold Viewing.record
        split
        · next heq =>
          cases heq
          exact absurd hp id
        · rfl
      rw [hrec]
      exact h.same rfl (fun id _ pattern => Iff.rfl) h.reachable

theorem ViewInv.run {s₀ s : Viewing γ δ} (h : ViewInv s₀)
    (hrun : ReflTransGen (ViewStep Respects) s₀ s) : ViewInv s := by
  induction hrun with
  | refl => exact h
  | tail _ hstep ih => exact ih.step hstep

/-- In every run whose topology updates respect the subscriptions recorded, the view of each
node is that of its last update. -/
theorem subscription_view_kept (id : NodeId) (registry : MessageRegistry δ) {s : Viewing γ δ}
    (hrun : ReflTransGen (ViewStep Respects) (Viewing.start id registry) s) : s.Exact := by
  have h0 : ViewInv (Viewing.start id registry : Viewing γ δ) :=
    ⟨.new, (fun v hv => nomatch hv), (fun id e he => nomatch he)⟩
  exact (h0.run hrun).exact

end

/-! ## A copy of a descriptor -/

/-- `n` subscribes to `t`. -/
def tUpdate : SubscriptionUpdate := ⟨"n", FlowNode.subscribeEntries ["t"], 1⟩

/-- `m` passes on a copy of `n`'s descriptor. -/
def copyUpdate (capabilities : HashMap String String) : TopologyUpdate :=
  ⟨"m", 1, [⟨"n", NodeRole.flow.toI32, capabilities, 0⟩], [], [], []⟩

/-- `x` accepts `n`'s subscription and then `m`'s copy from before it: the subscription is
gone, and accepting it once more is out of the question. -/
theorem stale_copy_replaces_subscriptions : ∃ s : Viewing VecGraph Unit,
    ReflTransGen (ViewStep fun _ _ => True) (Viewing.start "x" ∅) s ∧
      s.node.lastSubscriptionEpochs.lookup "n" = some 1 ∧ s.accepted = [tUpdate] ∧
      s.node.graph.subscriptionsOf "n" = [] ∧ ¬ s.Exact := by
  have h0 : ReflTransGen (ViewStep fun _ _ => True) (Viewing.start "x" ∅)
    (Viewing.start "x" ∅ : Viewing VecGraph Unit) := .refl
  have h1 := h0.tail (.control _ ⟨0, 0⟩
    (.controlMsgReceived "n" (.of (.subscriptionUpdate tUpdate))) rfl fun _ _ _ => trivial)
  have h2 := h1.tail (.control _ ⟨0, 0⟩
    (.controlMsgReceived "m" (.of (.topologyUpdate (copyUpdate ∅)))) rfl fun _ _ _ => trivial)
  have h3 := h2.tail (.control _ ⟨0, 0⟩
    (.controlMsgReceived "n" (.of (.subscriptionUpdate tUpdate))) rfl fun _ _ _ => trivial)
  refine ⟨_, h3, rfl, rfl, rfl, fun hexact => ?_⟩
  obtain ⟨u, hu, -, -, -, hpat⟩ := hexact "n" 1 rfl
  cases List.mem_singleton.mp hu
  have hlists : tUpdate.Lists "t" := ⟨_, List.mem_singleton_self _, rfl, rfl⟩
  cases (hpat "t").mpr hlists

/-- A copy with the same subscriptions does no harm. -/
theorem fresh_copy_kept : ∃ s : Viewing VecGraph Unit,
    ReflTransGen (ViewStep Respects) (Viewing.start "x" ∅) s ∧
      s.node.graph.subscriptionsOf "n" = ["t"] ∧ s.Exact := by
  have h0 : ReflTransGen (ViewStep Respects) (Viewing.start "x" ∅)
    (Viewing.start "x" ∅ : Viewing VecGraph Unit) := .refl
  have h1 := h0.tail (.control _ ⟨0, 0⟩
    (.controlMsgReceived "n" (.of (.subscriptionUpdate tUpdate))) rfl fun u hu => nomatch hu)
  have h2 := h1.tail (.control _ ⟨0, 0⟩ (.controlMsgReceived "m"
    (.of (.topologyUpdate (copyUpdate (FlowNode.subscriptionCapabilities tUpdate))))) rfl (by
      rintro u hu -
      cases hu
      intro id hid
      have hn : id = "n" := by
        change id ∈ (∅ : HashMap NodeId UInt64).insert "n" 1 at hid
        rw [AList.mem_insert] at hid
        exact hid.resolve_right (AList.notMem_empty id)
      subst hn
      refine ⟨(fun h => nomatch h), fun _ d hd pattern => ?_⟩
      cases hd
      exact Iff.rfl))
  exact ⟨_, h2, by decide, subscription_view_kept "x" ∅ h2⟩

end Stric.Flow
