import Stric.Flow.DataStream
import Stric.Flow.Provenance

/-!
# Routing in a mesh

What `mesh_provenance` means for the graphs that nodes route by.

* No node of the mesh ever tells another to remove a node or a link, so graphs only grow
  (`mesh_graphs_grow`).
* Every link costs 1 and no node is an aggregator, so the total cost that `compute_forwarding_table`
  may add up is the number of links: `publish` succeeds in every state that can be reached, sends
  nothing to a node that has not asked for it, and is exactly once (`mesh_publish_exactly_once`).
-/

namespace Stric.Flow

open Stric.Pool

/-! ## Graphs only grow -/

section
variable {γ δ : Type} [PetGraph γ]

/-- Nodes with a descriptor and pairs of linked nodes stay. -/
structure GlobalGraph.Grows (g g' : GlobalGraph γ) : Prop where
  links : ∀ a b, (∃ w, g.Linked a b w) → ∃ w, g'.Linked a b w
  nodes : ∀ id ∈ g.nodeMetadata, id ∈ g'.nodeMetadata

namespace GlobalGraph.Grows

variable {g g' g'' : GlobalGraph γ}

theorem refl (g : GlobalGraph γ) : g.Grows g := ⟨fun _ _ h => h, fun _ h => h⟩

theorem trans (h : g.Grows g') (h' : g'.Grows g'') : g.Grows g'' :=
  ⟨fun a b hl => h'.links a b (h.links a b hl), fun id hid => h'.nodes id (h.nodes id hid)⟩

theorem addNode (hg : g.WF) (d : NodeDescriptor) : g.Grows (g.addNode d) := by
  refine ⟨fun a b ⟨w, hl⟩ => ⟨w, (hg.linked_addNode d).mpr hl⟩, fun id hid => ?_⟩
  have hmeta : (g.addNode d).nodeMetadata = g.nodeMetadata.insert d.nodeId d := by
    unfold GlobalGraph.addNode
    rw [← GlobalGraph.entryIndex_metadata g d.nodeId]
  rw [hmeta]
  exact (AList.mem_insert _).mpr (Or.inr hid)

theorem addLink (hg : g.WF) (l : LinkDescriptor) : g.Grows (g.addLink l) := by
  refine ⟨fun a b ⟨w, hl⟩ => ?_, fun id hid => ?_⟩
  · by_cases hj : l.Joins a b
    · exact ⟨l.weight, (hg.linked_addLink l).mpr (Or.inl ⟨hj, rfl⟩)⟩
    · exact ⟨w, (hg.linked_addLink l).mpr (Or.inr ⟨hl, hj⟩)⟩
  · rw [GlobalGraph.addLink_metadata]
    exact hid

theorem applyUpdate (hg : g.WF) {u : TopologyUpdate} (hnodes : u.nodesRemoved = [])
    (hlinks : u.linksRemoved = []) : g.Grows (g.applyUpdate u) := by
  have hadd : ∀ (ds : List NodeDescriptor) (g : GlobalGraph γ), g.WF →
      g.Grows (ds.foldl GlobalGraph.addNode g) := by
    intro ds
    induction ds with
    | nil => exact fun g _ => .refl g
    | cons d ds ih => exact fun g hg => (addNode hg d).trans (ih _ (hg.addNode d))
  have hlink : ∀ (ls : List LinkDescriptor) (g : GlobalGraph γ), g.WF →
      g.Grows (ls.foldl GlobalGraph.addLink g) := by
    intro ls
    induction ls with
    | nil => exact fun g _ => .refl g
    | cons l ls ih => exact fun g hg => (addLink hg l).trans (ih _ (hg.addLink l))
  unfold GlobalGraph.applyUpdate
  rw [hnodes, hlinks]
  exact (hadd _ g hg).trans (hlink _ _ (hg.foldl_addNode u.nodesAdded))

end GlobalGraph.Grows

variable {trace later : MeshTrace} {registry : NodeId → MessageRegistry δ}
  {net net' : Net NodeId (FlowNode γ δ) ControlMessage}

/-- A received message, if it is in order. -/
theorem grows_onMessage {clock : Clock} {n n' : FlowNode γ δ} {sender : NodeId}
    {msg : ControlMessage} {outs : List Send} (hg : n.graph.WF) (hm : MessageOk trace msg)
    (hr : n.onMessage clock sender msg = (n', outs)) : n.graph.Grows n'.graph := by
  rcases msg.cases with ⟨u, rfl⟩ | ⟨u, rfl⟩ | ⟨pong, rfl⟩ | hplain
  · obtain ⟨t, ⟨-, rfl, -⟩ | ⟨-, rfl, -⟩⟩ := FlowNode.onMessage_topology clock n sender u hr
    · exact .applyUpdate hg (UpdateOk.nodesRemoved hm) (UpdateOk.linksRemoved hm)
    · exact .refl _
  · obtain ⟨t, ⟨-, rfl, -⟩ | ⟨-, rfl, -⟩⟩ := FlowNode.onMessage_subscription clock n sender u hr
    · exact .addNode hg _
    · exact .refl _
  · obtain ⟨t, link, ⟨-, rfl, -⟩ | ⟨-, rfl, -⟩⟩ := FlowNode.onMessage_pong clock n sender pong hr
    · exact .addLink hg link
    · exact .addLink hg link
  · obtain ⟨⟨sessions, limiters, t, rfl⟩, -⟩ := FlowNode.onMessage_plain clock n sender hplain hr
    exact .refl _

/-- A node changes its graph only on what it receives. -/
theorem graph_does (n : FlowNode γ δ) (a : MeshAct) : (n.does a).1.graph = n.graph := by
  cases a with
  | peerDisconnected clock nodeId =>
    show (n.controlStep clock (.peerDisconnected nodeId)).1.graph = n.graph
    unfold FlowNode.controlStep
    simp only
    split <;> rfl
  | close sid reason =>
    show (n.closeSession sid reason).1.graph = n.graph
    unfold FlowNode.closeSession
    split <;> rfl
  | sync clock sid data =>
    show (n.syncSessionState clock sid data).1.graph = n.graph
    unfold FlowNode.syncSessionState
    split
    · rfl
    · simp only
      split <;> rfl
  | _ => rfl

theorem MeshOk.grows_step {e : Event NodeId ControlMessage MeshAct} (h : MeshOk trace net)
    (hs : Step mesh net e net') (v : NodeId) :
    (net.state v).graph.Grows (net'.state v).graph := by
  have hrefl : ∀ u, (net.state u).graph.Grows (net.state u).graph := fun u => .refl _
  cases hs with
  | @deliver l₁ l₂ p n' outs hf hr =>
    obtain ⟨clock, hr⟩ := hr
    have hp : p ∈ net.flight := by
      rw [hf]
      exact List.mem_append_right _ List.mem_cons_self
    exact Net.act_forall (fun u (n : FlowNode γ δ) => (net.state u).graph.Grows n.graph)
      (grows_onMessage (h.nodes p.dst).graph.wf (h.flight p hp) hr) hrefl v
  | @own u a n' outs hr =>
    refine Net.act_forall (fun u (n : FlowNode γ δ) => (net.state u).graph.Grows n.graph) ?_ hrefl v
    have hgraph := graph_does (net.state u) a
    rw [hr] at hgraph
    rw [show n'.graph = _ from hgraph]
    exact .refl _

/-- **Graphs only grow.**  Whatever happens in a mesh of these nodes, no node's graph ever loses a
link or the descriptor of a node. -/
theorem mesh_graphs_grow (h : Run mesh (meshStart registry) trace net) (h' : Run mesh net later net')
    (v : NodeId) : (net.state v).graph.Grows (net'.state v).graph := by
  have hok := MeshOk.run h
  have hboth : MeshOk (later ++ trace) net' ∧ (net.state v).graph.Grows (net'.state v).graph := by
    induction h' with
    | nil => exact ⟨hok, .refl _⟩
    | step _ hs ih => exact ⟨ih.1.step hs, ih.2.trans (ih.1.grows_step hs v)⟩
  exact hboth.2

theorem mesh_graphs_grow_pair : ∃ trace net, Run mesh
      (meshStart (fun _ => ∅) : Net NodeId (FlowNode VecGraph Unit) ControlMessage) trace net ∧
    (net.state "a").graph.Linked "a" "b" ⟨1, 0⟩ ∧
    ∀ later net', Run mesh net later net' → (net.state "a").graph.Grows (net'.state "a").graph := by
  obtain ⟨trace, net, h, hl, -⟩ := exists_mesh_pair
  exact ⟨trace, net, h, hl, fun later net' h' => mesh_graphs_grow h h' "a"⟩

/-! ## Publishing -/

theorem GraphOk.linkCost_eq {g : GlobalGraph γ} (h : GraphOk trace g) {e : EdgeRef}
    (he : e ∈ PetGraph.edgeReferences g.graph) : g.linkCost e = 1 := by
  have hlinked : g.Linked (g.name e.source) (g.name e.target) e.weight :=
    h.wf.linked_iff_descriptor.mpr ⟨_, List.mem_map.mpr ⟨e, he, rfl⟩, Or.inl ⟨rfl, rfl⟩, rfl⟩
  have hflow : g.isAggregator (g.name e.target) = false := by
    unfold GlobalGraph.isAggregator
    split
    · next d hd =>
      rw [(h.nodes _ d hd).2.role]
      rfl
    · rfl
  rw [GlobalGraph.linkCost, (h.links _ _ _ hlinked).cost, hflow]
  rfl

theorem GraphOk.totalCost_eq {g : GlobalGraph γ} (h : GraphOk trace g) :
    g.totalCost = (PetGraph.edgeReferences g.graph).length := by
  have hones : (PetGraph.edgeReferences g.graph).map g.linkCost =
      (PetGraph.edgeReferences g.graph).map fun _ => 1 :=
    List.map_congr_left fun e he => h.linkCost_eq he
  rw [GlobalGraph.totalCost, hones]
  simp

/-- The subscribers that a graph names have subscribed. -/
theorem NodeOk.subscribers {v : NodeId} {n : FlowNode γ δ} (h : NodeOk trace v n) {topicId : String}
    {sub : NodeId} (hsub : sub ∈ n.subscribers topicId) :
    ∃ pattern, Announced trace sub pattern ∧ matchTopic pattern topicId = true := by
  obtain ⟨⟨id, d⟩, he, rfl⟩ := List.mem_map.mp hsub
  obtain ⟨he, hd⟩ := List.mem_filter.mp he
  obtain ⟨hid, hok⟩ := h.graph.nodes id d (AList.mem_lookup_iff.mpr he)
  obtain ⟨key, hkey, hmatch⟩ := List.any_eq_true.mp hd
  obtain ⟨pattern, rfl, hann⟩ := hok.subscribed key (AList.mem_keys.mpr hkey)
  rw [(stripSub_eq_some _ pattern).mpr rfl] at hmatch
  rw [hid] at hann
  exact ⟨pattern, hann, hmatch⟩

/-- **Publishing in a mesh.**  In every state a mesh of these nodes can reach, at every node whose
graph has fewer than `u32::MAX` links: `publish` succeeds, every subscriber it routes to has
subscribed to a pattern that matches, and an envelope of less than 4 GiB is delivered as `WireOnce`
says: at most once, and exactly once if it fits a frame and its copies arrive whole. -/
theorem mesh_publish_exactly_once [Prost] (η : Type) [BinaryHeap η] (b : Build) (clock : Clock)
    (nonce : String) (h : Run mesh (meshStart registry) trace net) (v : NodeId)
    (hsize : (PetGraph.edgeReferences (net.state v).graph.graph).length < u32Max.toNat)
    (flowId topicId messageType : String) (codec : Codec) (payload : Bytes) :
    ∃ out, (net.state v).publish η b clock nonce flowId topicId messageType codec payload = .ok out ∧
      (∀ sub ∈ (net.state v).subscribers topicId,
        ∃ pattern, Announced trace sub pattern ∧ matchTopic pattern topicId = true) ∧
      ((∀ e, out.envelope = some e → (Prost.encodeEnvelope e).length < 2 ^ 32) →
        ∀ arrives Up trace' net',
          Run (wireRelays Up) (wireLaunch ⟨net.state v, arrives⟩ out) trace' net' →
          WireOnce ⟨net.state v, arrives⟩ Up flowId topicId messageType payload out net') := by
  have hnode := (MeshOk.run h).nodes v
  have htotal : (net.state v).graph.totalCost < u32Max.toNat := by
    rw [hnode.graph.totalCost_eq]
    exact hsize
  obtain ⟨out, hout, hroutes, hsent⟩ := publish_spec η b clock nonce (net.state v)
    hnode.graph.reachable htotal flowId topicId messageType codec payload
  exact ⟨out, hout, fun sub hsub => hnode.subscribers hsub,
    fun hshort arrives Up trace' net' hrun => wireOnce_of_routes hout hroutes hsent hshort hrun⟩

end

section
open Protobuf

theorem mesh_publish_exactly_once_pair : ∃ trace net, Run mesh
      (meshStart (fun _ => ∅) : Net NodeId (FlowNode VecGraph Unit) ControlMessage) trace net ∧
    "b" ∈ (net.state "a").subscribers "t" ∧
    ∃ out, (net.state "a").publish ListHeap .debug ⟨0, 0⟩ "7" "f" "t" "m" .raw [] = .ok out ∧
      ∃ pattern, Announced trace "b" pattern ∧ matchTopic pattern "t" = true := by
  obtain ⟨trace, net, h, -, hsize, hsub⟩ := exists_mesh_pair
  obtain ⟨out, hout, hsubs, -⟩ := mesh_publish_exactly_once ListHeap .debug ⟨0, 0⟩ "7" h "a"
    (by rw [hsize]; decide) "f" "t" "m" .raw []
  exact ⟨trace, net, h, hsub, out, hout, hsubs "b" hsub⟩

end

end Stric.Flow
