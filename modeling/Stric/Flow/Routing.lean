import Stric.Flow.Graph

/-!
# `GlobalGraph::compute_forwarding_table` (`routing.rs`)

The search from the source, the walk back from every subscriber, and the table they give.

* `BinaryHeap η` says what the search uses of std's heap.  `DijkstraState`'s `Ord` compares
  costs only, so which of several entries of least cost `pop` returns is left open, as is
  the order in which petgraph lists the edges of a node.
* The additions are on `u32`.  A debug build panics when one overflows, a release build
  wraps (`Build.add`).
* `searchLoop` is the `while let` loop; its fuel is never used up (`searchLoop_total` in
  `RoutingInv`).  `backWalk` is the inner `while let` loop over the predecessors; it ends
  with as many steps as there are nodes, or never (`backWalk_fuel` in `RoutingSafe`).
-/

namespace Stric.Flow

structure DijkstraState where
  cost : UInt32
  nodeIdx : Nat
deriving DecidableEq

class BinaryHeap (η : Type) where
  new : η
  push : η → DijkstraState → η
  pop : η → Option (DijkstraState × η)
  contents : η → List DijkstraState
  contents_new : contents new = []
  push_perm : ∀ h s, (contents (push h s)).Perm (s :: contents h)
  pop_none : ∀ h, pop h = none → contents h = []
  pop_some : ∀ h s h', pop h = some (s, h') →
    (contents h).Perm (s :: contents h') ∧ ∀ t ∈ contents h', s.cost ≤ t.cost

/-- How the build treats integer overflow. -/
inductive Build where
  | debug
  | release
deriving DecidableEq

/-- What can go wrong in `compute_forwarding_table`: an addition panics, or a loop does not
end. -/
inductive Fault where
  | overflow
  | diverges
deriving DecidableEq

/-- `u32::MAX`, the distance of a node that is not reached. -/
def u32Max : UInt32 := 4294967295

/-- `x + y` on `u32`. -/
def Build.add (b : Build) (x y : UInt32) : Except Fault UInt32 :=
  match b with
  | .debug => if x.toNat + y.toNat < 4294967296 then .ok (x + y) else .error .overflow
  | .release => .ok (x + y)

theorem except_ok_bind {ε α β : Type} (a : α) (f : α → Except ε β) :
    ((Except.ok a : Except ε α) >>= f) = f a := rfl

structure Search (η : Type) where
  distances : HashMap Nat UInt32
  predecessors : HashMap Nat Nat
  heap : η

namespace GlobalGraph

variable {γ : Type} [PetGraph γ] {η : Type} [BinaryHeap η]

/-- The metadata of the named node gives it the role `Aggregator`. -/
def isAggregator (g : GlobalGraph γ) (targetName : String) : Bool :=
  match g.nodeMetadata.lookup targetName with
  | some targetMeta => targetMeta.role == NodeRole.aggregator.toI32
  | none => false

/-- `hop_cost`, with the aggregator penalty added. -/
def edgeCost (b : Build) (g : GlobalGraph γ) (e : EdgeRef) : Except Fault UInt32 :=
  if g.isAggregator (g.name e.target) then b.add e.weight.hopCost 10000 else .ok e.weight.hopCost

/-- The body of the loop over `graph.edges(node_idx)`. -/
def relaxEdge (b : Build) (g : GlobalGraph γ) (cost : UInt32) (nodeIdx : Nat) (st : Search η)
    (e : EdgeRef) : Except Fault (Search η) := do
  let edgeCost ← g.edgeCost b e
  let nextCost ← b.add cost edgeCost
  let currentTargetDist := (st.distances.lookup e.target).getD u32Max
  if nextCost < currentTargetDist then
    pure
      { distances := st.distances.insert e.target nextCost
        predecessors := st.predecessors.insert e.target nodeIdx
        heap := BinaryHeap.push st.heap ⟨nextCost, e.target⟩ }
  else pure st

def searchLoop (b : Build) (g : GlobalGraph γ) : Nat → Search η → Except Fault (Search η)
  | 0, _ => .error .diverges
  | fuel + 1, st =>
    match BinaryHeap.pop st.heap with
    | none => .ok st
    | some (⟨cost, nodeIdx⟩, heap) =>
      let st := { st with heap := heap }
      let currentDist := (st.distances.lookup nodeIdx).getD u32Max
      -- a stale entry
      if cost > currentDist then searchLoop b g fuel st
      else do
        let st ← (PetGraph.edges g.graph nodeIdx).foldlM (g.relaxEdge b cost nodeIdx) st
        searchLoop b g fuel st

/-- Every turn takes an entry off the heap, and every entry pushed lowers a distance. -/
def searchFuel (g : GlobalGraph γ) : Nat :=
  2 * ((PetGraph.nodeWeights g.graph).length * 4294967295) + 2

/-- Before the first turn: the source at distance 0, with its entry on the heap. -/
def searchStart (sourceIdx : Nat) : Search η where
  distances := (∅ : HashMap Nat UInt32).insert sourceIdx 0
  predecessors := ∅
  heap := BinaryHeap.push BinaryHeap.new ⟨0, sourceIdx⟩

def search (η : Type) [BinaryHeap η] (b : Build) (g : GlobalGraph γ) (sourceIdx : Nat) :
    Except Fault (Search η) :=
  g.searchLoop b g.searchFuel (searchStart sourceIdx)

/-- The walk from one subscriber back along the predecessors: the (parent, child) pairs it
enters into the tree, or `none` when it has not ended after `fuel` turns. -/
def backWalk (predecessors : HashMap Nat Nat) (sourceIdx : Nat) :
    Nat → Nat → Option (List (Nat × Nat))
  | 0, _ => none
  | fuel + 1, currentIdx =>
    match predecessors.lookup currentIdx with
    | none => some []
    | some parentIdx =>
      if parentIdx = sourceIdx then some [(parentIdx, currentIdx)]
      else (backWalk predecessors sourceIdx fuel parentIdx).map ((parentIdx, currentIdx) :: ·)

def walkFuel (g : GlobalGraph γ) : Nat := (PetGraph.nodeWeights g.graph).length + 1

/-- `forwarding_tree.entry(parent).or_default().insert(child)`. -/
def insertTarget (tree : HashMap String (List String)) (parent child : String) :
    HashMap String (List String) :=
  tree.insert parent (((tree.lookup parent).getD []).insert child)

/-- One turn of the loop over the subscribers. -/
def addSubscriber (g : GlobalGraph γ) (predecessors : HashMap Nat Nat) (sourceIdx : Nat)
    (tree : HashMap String (List String)) (sub : String) :
    Except Fault (HashMap String (List String)) :=
  match g.nodeIndices.lookup sub with
  | none => .ok tree
  | some idx =>
    match backWalk predecessors sourceIdx g.walkFuel idx with
    | none => .error .diverges
    | some pairs => .ok (pairs.foldl (fun t p => insertTarget t (g.name p.1) (g.name p.2)) tree)

def computeForwardingTable (η : Type) [BinaryHeap η] (b : Build) (g : GlobalGraph γ)
    (source : String) (subscribers : List String) :
    Except Fault (HashMap NodeId ForwardingTargets) :=
  if subscribers = [] then .ok ∅
  else
    match g.nodeIndices.lookup source with
    | none => .ok ∅
    | some sourceIdx => do
      let st ← search η b g sourceIdx
      let tree ← subscribers.foldlM (g.addSubscriber st.predecessors sourceIdx) ∅
      pure (HashMap.mapValues ForwardingTargets.mk tree)

end GlobalGraph

/-! ## A heap to run the search with -/

/-- An unordered list; `pop` takes the first entry of least cost. -/
structure ListHeap where
  entries : List DijkstraState

namespace ListHeap

def popMin : List DijkstraState → Option (DijkstraState × List DijkstraState)
  | [] => none
  | s :: rest =>
    match popMin rest with
    | none => some (s, [])
    | some (t, rest') => if s.cost ≤ t.cost then some (s, rest) else some (t, s :: rest')

theorem popMin_none {l : List DijkstraState} (h : popMin l = none) : l = [] := by
  cases l with
  | nil => rfl
  | cons s rest =>
    unfold popMin at h
    split at h
    · cases h
    · split at h <;> cases h

theorem popMin_some {l : List DijkstraState} {s : DijkstraState} {l' : List DijkstraState}
    (h : popMin l = some (s, l')) : l.Perm (s :: l') ∧ ∀ t ∈ l', s.cost ≤ t.cost := by
  induction l generalizing s l' with
  | nil => cases h
  | cons x rest ih =>
    unfold popMin at h
    split at h
    · next hn =>
      simp only [Option.some.injEq, Prod.mk.injEq] at h
      obtain ⟨rfl, rfl⟩ := h
      rw [popMin_none hn]
      exact ⟨List.Perm.refl _, by simp⟩
    · next t rest' ht =>
      obtain ⟨hp, hmin⟩ := ih ht
      split at h
      · next hle =>
        simp only [Option.some.injEq, Prod.mk.injEq] at h
        obtain ⟨rfl, rfl⟩ := h
        refine ⟨List.Perm.refl _, fun y hy => ?_⟩
        rcases List.mem_cons.mp (hp.mem_iff.mp hy) with rfl | hy
        · exact hle
        · exact UInt32.le_trans hle (hmin y hy)
      · next hle =>
        simp only [Option.some.injEq, Prod.mk.injEq] at h
        obtain ⟨rfl, rfl⟩ := h
        refine ⟨(hp.cons x).trans (List.Perm.swap _ _ _), fun y hy => ?_⟩
        rcases List.mem_cons.mp hy with rfl | hy
        · exact UInt32.le_of_lt (UInt32.not_le.mp hle)
        · exact hmin y hy

instance : BinaryHeap ListHeap where
  new := ⟨[]⟩
  push h s := ⟨s :: h.entries⟩
  pop h := (popMin h.entries).map fun p => (p.1, ⟨p.2⟩)
  contents := entries
  contents_new := rfl
  push_perm := fun _ _ => List.Perm.refl _
  pop_none := fun h hn => popMin_none (Option.map_eq_none_iff.mp hn)
  pop_some := by
    intro h s h' hs
    obtain ⟨⟨t, l⟩, ht, he⟩ := Option.map_eq_some_iff.mp hs
    cases he
    exact popMin_some ht

end ListHeap

end Stric.Flow
