import Stric.Flow.Wire
import Stric.Pool.SwapRemove

/-!
# `GlobalGraph` (`routing.rs`)

The mesh topology as each node sees it.  The underlying `petgraph` graph is a parameter
`γ` of the model: `PetGraph` names the operations the source calls and what petgraph's
documentation says of them.

* Node indices are compact, `0 .. n`.  `remove_node` drops the node's edges and lets the
  last node take the freed index.
* `update_edge` changes the weight of one existing edge, or adds one.
* In which order `edges` and `edge_references` list their edges is left open.

`VecGraph` is one such graph, over a vector of names and a vector of edges; it is what the
concrete runs below are evaluated with.
-/

namespace Stric.Flow

open Stric.Pool

structure LinkWeight where
  hopCost : UInt32
  rttMicros : UInt64
deriving DecidableEq

/-- petgraph's `EdgeReference`. -/
structure EdgeRef where
  source : Nat
  target : Nat
  weight : LinkWeight
deriving DecidableEq

/-- `e` runs from `a` to `b`. -/
def EdgeRef.joins (e : EdgeRef) (a b : Nat) : Prop := e.source = a ∧ e.target = b

instance (e : EdgeRef) (a b : Nat) : Decidable (e.joins a b) :=
  inferInstanceAs (Decidable (_ ∧ _))

/-- The edge after the last of `n` nodes has moved to index `i`. -/
def EdgeRef.reindex (n i : Nat) (e : EdgeRef) : EdgeRef :=
  { e with source := swapIndex n i e.source, target := swapIndex n i e.target }

class PetGraph (γ : Type) where
  new : γ
  /-- The node weights, by index: `graph[idx]` for `idx` in `node_indices()`. -/
  nodeWeights : γ → List String
  edgeReferences : γ → List EdgeRef
  /-- `edges(idx)`: the outgoing edges. -/
  edges : γ → Nat → List EdgeRef
  addNode : γ → String → γ × Nat
  removeNode : γ → Nat → γ
  updateEdge : γ → Nat → Nat → LinkWeight → γ
  /-- `find_edge(a, b)`, as an edge index. -/
  findEdge : γ → Nat → Nat → Option Nat
  removeEdge : γ → Nat → γ
  nodeWeights_new : nodeWeights new = []
  edgeReferences_new : edgeReferences new = []
  edge_bounds : ∀ g, ∀ e ∈ edgeReferences g,
    e.source < (nodeWeights g).length ∧ e.target < (nodeWeights g).length
  edges_perm : ∀ g i, (edges g i).Perm ((edgeReferences g).filter fun e => e.source = i)
  addNode_index : ∀ g s, (addNode g s).2 = (nodeWeights g).length
  nodeWeights_addNode : ∀ g s, nodeWeights (addNode g s).1 = nodeWeights g ++ [s]
  edgeReferences_addNode : ∀ g s, (edgeReferences (addNode g s).1).Perm (edgeReferences g)
  nodeWeights_removeNode : ∀ g i, i < (nodeWeights g).length →
    nodeWeights (removeNode g i) = swapRemove (nodeWeights g) i
  edgeReferences_removeNode : ∀ g i, i < (nodeWeights g).length →
    (edgeReferences (removeNode g i)).Perm
      (((edgeReferences g).filter fun e => e.source ≠ i ∧ e.target ≠ i).map
        (EdgeRef.reindex (nodeWeights g).length i))
  nodeWeights_updateEdge : ∀ g a b w, nodeWeights (updateEdge g a b w) = nodeWeights g
  updateEdge_add : ∀ g a b w, a < (nodeWeights g).length → b < (nodeWeights g).length →
    (∀ e ∈ edgeReferences g, ¬ e.joins a b) →
    (edgeReferences (updateEdge g a b w)).Perm (⟨a, b, w⟩ :: edgeReferences g)
  updateEdge_change : ∀ g a b w, (∃ e ∈ edgeReferences g, e.joins a b) →
    ∃ e rest, e.joins a b ∧ (edgeReferences g).Perm (e :: rest) ∧
      (edgeReferences (updateEdge g a b w)).Perm (⟨a, b, w⟩ :: rest)
  findEdge_none : ∀ g a b, findEdge g a b = none ↔ ∀ e ∈ edgeReferences g, ¬ e.joins a b
  nodeWeights_removeEdge : ∀ g k, nodeWeights (removeEdge g k) = nodeWeights g
  removeEdge_found : ∀ g a b k, findEdge g a b = some k →
    ∃ e, e.joins a b ∧ (edgeReferences g).Perm (e :: edgeReferences (removeEdge g k))

/-! ## The graph and its operations -/

structure GlobalGraph (γ : Type) where
  graph : γ
  nodeIndices : HashMap String Nat
  nodeMetadata : HashMap String NodeDescriptor

namespace GlobalGraph

variable {γ : Type} [PetGraph γ]

def new : GlobalGraph γ := ⟨PetGraph.new, ∅, ∅⟩

/-- `graph[idx]`. -/
def name (g : GlobalGraph γ) (idx : Nat) : String := (PetGraph.nodeWeights g.graph).getD idx ""

/-- `node_indices.entry(id).or_insert_with(|| graph.add_node(id))`. -/
def entryIndex (g : GlobalGraph γ) (nodeId : String) : GlobalGraph γ × Nat :=
  match g.nodeIndices.lookup nodeId with
  | some idx => (g, idx)
  | none =>
    let (graph, idx) := PetGraph.addNode g.graph nodeId
    ({ g with graph := graph, nodeIndices := g.nodeIndices.insert nodeId idx }, idx)

def addNode (g : GlobalGraph γ) (descriptor : NodeDescriptor) : GlobalGraph γ :=
  let g := (g.entryIndex descriptor.nodeId).1
  { g with nodeMetadata := g.nodeMetadata.insert descriptor.nodeId descriptor }

/-- The map rebuilt from the node weights after indices have shifted. -/
def remapIndices (weights : List String) : HashMap String Nat :=
  weights.zipIdx.foldl (fun m p => m.insert p.1 p.2) ∅

def removeNode (g : GlobalGraph γ) (nodeId : String) : GlobalGraph γ :=
  match g.nodeIndices.lookup nodeId with
  | none => g
  | some idx =>
    let graph := PetGraph.removeNode g.graph idx
    { graph := graph
      nodeIndices := remapIndices (PetGraph.nodeWeights graph)
      nodeMetadata := g.nodeMetadata.erase nodeId }

def addLink (g : GlobalGraph γ) (link : LinkDescriptor) : GlobalGraph γ :=
  let (g, idxA) := g.entryIndex link.nodeA
  let (g, idxB) := g.entryIndex link.nodeB
  let weight : LinkWeight := ⟨link.hopCost, link.rttMicros⟩
  -- both directions of a symmetric peer link
  { g with graph :=
      PetGraph.updateEdge (PetGraph.updateEdge g.graph idxA idxB weight) idxB idxA weight }

/-- `if let Some(edge) = find_edge(a, b) { remove_edge(edge); }`. -/
def removeFound (graph : γ) (a b : Nat) : γ :=
  match PetGraph.findEdge graph a b with
  | some edge => PetGraph.removeEdge graph edge
  | none => graph

def removeLink (g : GlobalGraph γ) (nodeA nodeB : String) : GlobalGraph γ :=
  match g.nodeIndices.lookup nodeA, g.nodeIndices.lookup nodeB with
  | some idxA, some idxB =>
    { g with graph := removeFound (removeFound g.graph idxA idxB) idxB idxA }
  | _, _ => g

def applyUpdate (g : GlobalGraph γ) (update : TopologyUpdate) : GlobalGraph γ :=
  let g := update.nodesAdded.foldl addNode g
  let g := update.nodesRemoved.foldl removeNode g
  let g := update.linksAdded.foldl addLink g
  update.linksRemoved.foldl (fun g l => g.removeLink l.nodeA l.nodeB) g

def getDescriptors (g : GlobalGraph γ) : List NodeDescriptor × List LinkDescriptor :=
  (HashMap.values g.nodeMetadata,
    (PetGraph.edgeReferences g.graph).map fun e =>
      ⟨g.name e.source, g.name e.target, e.weight.hopCost, e.weight.rttMicros⟩)

/-- The graphs `GlobalGraph`'s own operations build. -/
inductive Reachable : GlobalGraph γ → Prop
  | new : Reachable new
  | addNode {g : GlobalGraph γ} (d : NodeDescriptor) : Reachable g → Reachable (g.addNode d)
  | removeNode {g : GlobalGraph γ} (id : String) : Reachable g → Reachable (g.removeNode id)
  | addLink {g : GlobalGraph γ} (l : LinkDescriptor) : Reachable g → Reachable (g.addLink l)
  | removeLink {g : GlobalGraph γ} (a b : String) : Reachable g → Reachable (g.removeLink a b)

theorem Reachable.applyUpdate {g : GlobalGraph γ} (h : Reachable g) (u : TopologyUpdate) :
    Reachable (g.applyUpdate u) := by
  -- each of the four loops keeps reachability, by induction on its list
  have fold : ∀ {β : Type} (f : GlobalGraph γ → β → GlobalGraph γ),
      (∀ g b, Reachable g → Reachable (f g b)) →
      ∀ (l : List β) (g : GlobalGraph γ), Reachable g → Reachable (l.foldl f g) := by
    intro β f hf l
    induction l with
    | nil => intro g hg; exact hg
    | cons b l ih => intro g hg; exact ih _ (hf g b hg)
  unfold GlobalGraph.applyUpdate
  refine fold _ (fun g l hg => hg.removeLink _ _) _ _ ?_
  refine fold _ (fun g l hg => hg.addLink l) _ _ ?_
  refine fold _ (fun g i hg => hg.removeNode i) _ _ ?_
  exact fold _ (fun g d hg => hg.addNode d) _ _ h

end GlobalGraph

end Stric.Flow
