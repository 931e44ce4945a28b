import Stric.Flow.Graph

/-!
# A graph over two vectors

`VecGraph` keeps the node weights and the edges in vectors, as petgraph does, and removes
from both by `swap_remove`.  It satisfies everything `PetGraph` asks for, so the results
over an arbitrary `PetGraph` apply to it and concrete topologies can be evaluated.
-/

namespace Stric.Flow

open Stric.Pool

structure VecGraph where
  nodes : List String
  links : List EdgeRef
  bounds : ∀ e ∈ links, e.source < nodes.length ∧ e.target < nodes.length

namespace VecGraph

/-- Position of the first edge from `a` to `b`. -/
def find (links : List EdgeRef) (a b : Nat) : Option Nat :=
  links.findIdx? fun e => decide (e.joins a b)

def addNode (g : VecGraph) (s : String) : VecGraph where
  nodes := g.nodes ++ [s]
  links := g.links
  bounds := by
    intro e he
    have := g.bounds e he
    simp
    omega

theorem reindex_bounds {n i : Nat} {e : EdgeRef} (hi : i < n) (hs : e.source < n)
    (ht : e.target < n) (h : e.source ≠ i ∧ e.target ≠ i) :
    (e.reindex n i).source < n - 1 ∧ (e.reindex n i).target < n - 1 :=
  ⟨swapIndex_lt hi hs h.1, swapIndex_lt hi ht h.2⟩

def removeNode (g : VecGraph) (i : Nat) : VecGraph :=
  if h : i < g.nodes.length then
    { nodes := swapRemove g.nodes i
      links := (g.links.filter fun e => e.source ≠ i ∧ e.target ≠ i).map
        (EdgeRef.reindex g.nodes.length i)
      bounds := by
        intro e he
        obtain ⟨e', he', rfl⟩ := List.mem_map.mp he
        obtain ⟨hm, hne⟩ := List.mem_filter.mp he'
        obtain ⟨hs, ht⟩ := g.bounds e' hm
        rw [swapRemove_length]
        exact reindex_bounds h hs ht (by simpa using hne) }
  else g

def updateEdge (g : VecGraph) (a b : Nat) (w : LinkWeight) : VecGraph :=
  if h : a < g.nodes.length ∧ b < g.nodes.length then
    { nodes := g.nodes
      links := match find g.links a b with
        | some k => g.links.set k ⟨a, b, w⟩
        | none => g.links ++ [⟨a, b, w⟩]
      bounds := by
        intro e he
        split at he
        · rcases List.mem_or_eq_of_mem_set he with he | rfl
          · exact g.bounds e he
          · exact h
        · rcases List.mem_append.mp he with he | he
          · exact g.bounds e he
          · simp only [List.mem_singleton] at he
            subst he
            exact h }
  else g

def removeEdge (g : VecGraph) (k : Nat) : VecGraph :=
  if h : k < g.links.length then
    { nodes := g.nodes
      links := swapRemove g.links k
      bounds := fun e he => g.bounds e (mem_swapRemove h he) }
  else g

theorem find_none (links : List EdgeRef) (a b : Nat) :
    find links a b = none ↔ ∀ e ∈ links, ¬ e.joins a b := by
  simp [find, List.findIdx?_eq_none_iff]

theorem find_some {links : List EdgeRef} {a b k : Nat} (h : find links a b = some k) :
    ∃ hk : k < links.length, links[k].joins a b := by
  obtain ⟨hk, hp, -⟩ := List.findIdx?_eq_some_iff_getElem.mp h
  exact ⟨hk, by simpa using hp⟩

instance : PetGraph VecGraph where
  new := ⟨[], [], by simp⟩
  nodeWeights := nodes
  edgeReferences := links
  edges g i := g.links.filter fun e => e.source = i
  addNode g s := (g.addNode s, g.nodes.length)
  removeNode := removeNode
  updateEdge := updateEdge
  findEdge g a b := find g.links a b
  removeEdge := removeEdge
  nodeWeights_new := rfl
  edgeReferences_new := rfl
  edge_bounds := fun g => g.bounds
  edges_perm := fun _ _ => List.Perm.refl _
  addNode_index := fun _ _ => rfl
  nodeWeights_addNode := fun _ _ => rfl
  edgeReferences_addNode := fun _ _ => List.Perm.refl _
  nodeWeights_removeNode := by
    intro g i hi
    simp [removeNode, hi]
  edgeReferences_removeNode := by
    intro g i hi
    simp [removeNode, hi]
  nodeWeights_updateEdge := by
    intro g a b w
    unfold updateEdge
    split <;> rfl
  updateEdge_add := by
    intro g a b w ha hb hnone
    simp only [updateEdge, ha, hb, and_self, dif_pos, (find_none _ _ _).mpr hnone]
    exact List.perm_append_comm
  updateEdge_change := by
    intro g a b w hex
    obtain ⟨e, he, hj⟩ := hex
    have hab : a < g.nodes.length ∧ b < g.nodes.length := by
      obtain ⟨rfl, rfl⟩ := hj
      exact g.bounds e he
    cases hf : find g.links a b with
    | none => exact absurd hj ((find_none _ _ _).mp hf e he)
    | some k =>
      obtain ⟨hk, hkj⟩ := find_some hf
      refine ⟨g.links[k], g.links.take k ++ g.links.drop (k + 1), hkj, ?_, ?_⟩
      · calc g.links = g.links.take k ++ g.links[k] :: g.links.drop (k + 1) := by simp
          _ |>.Perm (g.links[k] :: (g.links.take k ++ g.links.drop (k + 1))) := List.perm_middle
      · simp only [updateEdge, hab, and_self, dif_pos, hf]
        rw [List.set_eq_take_append_cons_drop, if_pos hk]
        exact List.perm_middle
  findEdge_none := fun g a b => find_none _ _ _
  nodeWeights_removeEdge := by
    intro g k
    unfold removeEdge
    split <;> rfl
  removeEdge_found := by
    intro g a b k hf
    obtain ⟨hk, hkj⟩ := find_some hf
    refine ⟨g.links[k], hkj, ?_⟩
    simp only [removeEdge, hk, dif_pos]
    exact perm_cons_swapRemove _ _ hk

end VecGraph

end Stric.Flow
