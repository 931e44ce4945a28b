import Stric.Flow.Graph
import Mathlib.Data.List.Nodup

/-!
# What every reachable `GlobalGraph` satisfies

`WF` relates the three fields: `node_indices` is the inverse of the node weights, metadata
is kept under its own id and only for known nodes, there is at most one edge between two
nodes in one direction, and every edge has its reverse with the same weight.  `new`
satisfies it and each operation keeps it (`reachable_wf`); `run_represents` spells this out for
any sequence of calls.

On the way the operations that add get their edge equations: which edges are there afterwards
(`mem_edges_entryIndex`, `mem_edges_addLink`), and what each does to the lookups.
-/

namespace Stric.Flow

open Stric.Pool

def EdgeRef.flip (e : EdgeRef) : EdgeRef := ⟨e.target, e.source, e.weight⟩

theorem EdgeRef.flip_joins (e : EdgeRef) (a b : Nat) : e.flip.joins a b ↔ e.joins b a :=
  And.comm

/-- The endpoints of each edge. -/
def endpoints (es : List EdgeRef) : List (Nat × Nat) := es.map fun e => (e.source, e.target)

theorem mem_endpoints {es : List EdgeRef} {a b : Nat} :
    (a, b) ∈ endpoints es ↔ ∃ e ∈ es, e.joins a b := by
  simp [endpoints, EdgeRef.joins]

theorem not_joins_of_nodup {e : EdgeRef} {es : List EdgeRef} {a b : Nat}
    (h : (endpoints (e :: es)).Nodup) (he : e.joins a b) : ∀ x ∈ es, ¬ x.joins a b := by
  intro x hx hj
  obtain ⟨rfl, rfl⟩ := he
  exact (List.nodup_cons.mp h).1 (mem_endpoints.mpr ⟨x, hx, hj⟩)

/-! ## Edges after one petgraph call -/

section
variable {γ : Type} [PetGraph γ] (g : γ)

theorem updateEdge_spec (hu : (endpoints (PetGraph.edgeReferences g)).Nodup) (a b : Nat)
    (w : LinkWeight) (ha : a < (PetGraph.nodeWeights g).length)
    (hb : b < (PetGraph.nodeWeights g).length) :
    (endpoints (PetGraph.edgeReferences (PetGraph.updateEdge g a b w))).Nodup ∧
    ∀ e, e ∈ PetGraph.edgeReferences (PetGraph.updateEdge g a b w) ↔
      e = ⟨a, b, w⟩ ∨ (e ∈ PetGraph.edgeReferences g ∧ ¬ e.joins a b) := by
  by_cases hex : ∃ e ∈ PetGraph.edgeReferences g, e.joins a b
  · obtain ⟨e₀, rest, hj, hold, hnew⟩ := PetGraph.updateEdge_change g a b w hex
    have hnd : (endpoints (e₀ :: rest)).Nodup := (hold.map _).nodup_iff.mp hu
    have hrest := not_joins_of_nodup hnd hj
    have hpair : endpoints (⟨a, b, w⟩ :: rest) = endpoints (e₀ :: rest) := by
      simp [endpoints, hj.1, hj.2]
    refine ⟨((hnew.map _).nodup_iff.mpr (hpair ▸ hnd) :), fun e => ?_⟩
    rw [hnew.mem_iff, hold.mem_iff, List.mem_cons, List.mem_cons]
    constructor
    · rintro (h | h)
      · exact Or.inl h
      · exact Or.inr ⟨Or.inr h, hrest e h⟩
    · rintro (h | ⟨rfl | h, hn⟩)
      · exact Or.inl h
      · exact absurd hj hn
      · exact Or.inr h
  · have hno : ∀ e ∈ PetGraph.edgeReferences g, ¬ e.joins a b :=
      fun e he hj => hex ⟨e, he, hj⟩
    have hnew := PetGraph.updateEdge_add g a b w ha hb hno
    refine ⟨(hnew.map _).nodup_iff.mpr ?_, fun e => ?_⟩
    · simp only [List.map_cons, List.nodup_cons]
      exact ⟨fun h => hex (mem_endpoints.mp h), hu⟩
    · rw [hnew.mem_iff, List.mem_cons]
      constructor
      · rintro (h | h)
        · exact Or.inl h
        · exact Or.inr ⟨h, hno e h⟩
      · rintro (h | h)
        · exact Or.inl h
        · exact Or.inr h.1

theorem removeFound_spec (hu : (endpoints (PetGraph.edgeReferences g)).Nodup) (a b : Nat) :
    (endpoints (PetGraph.edgeReferences (GlobalGraph.removeFound g a b))).Nodup ∧
    (∀ e, e ∈ PetGraph.edgeReferences (GlobalGraph.removeFound g a b) ↔
      e ∈ PetGraph.edgeReferences g ∧ ¬ e.joins a b) ∧
    PetGraph.nodeWeights (GlobalGraph.removeFound g a b) = PetGraph.nodeWeights g := by
  unfold GlobalGraph.removeFound
  cases hf : PetGraph.findEdge g a b with
  | none =>
    have hno := (PetGraph.findEdge_none g a b).mp hf
    exact ⟨hu, fun e => ⟨fun h => ⟨h, hno e h⟩, fun h => h.1⟩, rfl⟩
  | some k =>
    obtain ⟨e₀, hj, hold⟩ := PetGraph.removeEdge_found g a b k hf
    have hnd : (endpoints (e₀ :: _)).Nodup := (hold.map _).nodup_iff.mp hu
    have hrest := not_joins_of_nodup hnd hj
    refine ⟨(List.nodup_cons.mp hnd).2, fun e => ?_, PetGraph.nodeWeights_removeEdge g k⟩
    simp only [hold.mem_iff, List.mem_cons]
    constructor
    · intro h
      exact ⟨Or.inr h, hrest e h⟩
    · rintro ⟨rfl | h, hn⟩
      · exact absurd hj hn
      · exact h

end

namespace GlobalGraph

variable {γ : Type} [PetGraph γ]

structure WF (g : GlobalGraph γ) : Prop where
  indices : ∀ id i, g.nodeIndices.lookup id = some i ↔
    (PetGraph.nodeWeights g.graph)[i]? = some id
  metadata : ∀ id d, g.nodeMetadata.lookup id = some d →
    d.nodeId = id ∧ ∃ i, g.nodeIndices.lookup id = some i
  unique : (endpoints (PetGraph.edgeReferences g.graph)).Nodup
  symm : ∀ e ∈ PetGraph.edgeReferences g.graph, e.flip ∈ PetGraph.edgeReferences g.graph

theorem WF.index_lt {g : GlobalGraph γ} (h : g.WF) {id : String} {i : Nat}
    (hi : g.nodeIndices.lookup id = some i) : i < (PetGraph.nodeWeights g.graph).length :=
  (List.getElem?_eq_some_iff.mp ((h.indices id i).mp hi)).1

theorem WF.name_eq {g : GlobalGraph γ} (h : g.WF) {id : String} {i : Nat}
    (hi : g.nodeIndices.lookup id = some i) : g.name i = id := by
  have := (h.indices id i).mp hi
  simp [name, List.getD_eq_getElem?_getD, this]

theorem WF.lookup_name {g : GlobalGraph γ} (h : g.WF) {i : Nat}
    (hi : i < (PetGraph.nodeWeights g.graph).length) : g.nodeIndices.lookup (g.name i) = some i := by
  rw [h.indices]
  simp [name, hi]

theorem WF.name_inj {g : GlobalGraph γ} (h : g.WF) {i j : Nat}
    (hi : i < (PetGraph.nodeWeights g.graph).length)
    (hj : j < (PetGraph.nodeWeights g.graph).length) (he : g.name i = g.name j) : i = j := by
  have h1 := h.lookup_name hi
  rw [he, h.lookup_name hj] at h1
  exact (Option.some.inj h1).symm

theorem WF.weights_nodup {g : GlobalGraph γ} (h : g.WF) :
    (PetGraph.nodeWeights g.graph).Nodup := by
  rw [List.nodup_iff_getElem?_ne_getElem?]
  intro i j hij hj he
  have hi : (PetGraph.nodeWeights g.graph)[i]? = some (PetGraph.nodeWeights g.graph)[i] :=
    List.getElem?_eq_getElem (by omega)
  have h1 := (h.indices _ i).mpr hi
  rw [(h.indices _ j).mpr (he ▸ hi)] at h1
  exact absurd (Option.some.inj h1) (by omega)

theorem wf_new : (new : GlobalGraph γ).WF := by
  constructor
  · intro id i
    simp [new, PetGraph.nodeWeights_new]
  · intro id d h
    simp [new] at h
  · simp [new, PetGraph.edgeReferences_new, endpoints]
  · intro e he
    simp [new, PetGraph.edgeReferences_new] at he

/-! ## `entry(..).or_insert_with(..)` -/

theorem entryIndex_metadata (g : GlobalGraph γ) (id : String) :
    (g.entryIndex id).1.nodeMetadata = g.nodeMetadata := by
  unfold entryIndex
  split <;> rfl

theorem mem_edges_entryIndex (g : GlobalGraph γ) (id : String) (e : EdgeRef) :
    e ∈ PetGraph.edgeReferences (g.entryIndex id).1.graph ↔
      e ∈ PetGraph.edgeReferences g.graph := by
  unfold entryIndex
  split
  · rfl
  · exact (PetGraph.edgeReferences_addNode g.graph id).mem_iff

theorem lookup_entryIndex_self (g : GlobalGraph γ) (id : String) :
    (g.entryIndex id).1.nodeIndices.lookup id = some (g.entryIndex id).2 := by
  unfold entryIndex
  split
  · assumption
  · exact AList.lookup_insert _

theorem lookup_entryIndex_of_some (g : GlobalGraph γ) (id : String) {x : String} {i : Nat}
    (h : g.nodeIndices.lookup x = some i) : (g.entryIndex id).1.nodeIndices.lookup x = some i := by
  unfold entryIndex
  split
  · exact h
  · next hn =>
    have hne : x ≠ id := by
      rintro rfl
      rw [hn] at h
      cases h
    exact (AList.lookup_insert_ne hne).trans h

theorem WF.entryIndex {g : GlobalGraph γ} (h : g.WF) (id : String) : (g.entryIndex id).1.WF := by
  have hmeta : ∀ x d, (g.entryIndex id).1.nodeMetadata.lookup x = some d →
      d.nodeId = x ∧ ∃ i, (g.entryIndex id).1.nodeIndices.lookup x = some i := by
    intro x d hd
    rw [entryIndex_metadata] at hd
    obtain ⟨h1, i, h2⟩ := h.metadata x d hd
    exact ⟨h1, i, lookup_entryIndex_of_some g id h2⟩
  have hsymm : ∀ e ∈ PetGraph.edgeReferences (g.entryIndex id).1.graph,
      e.flip ∈ PetGraph.edgeReferences (g.entryIndex id).1.graph := by
    intro e he
    rw [mem_edges_entryIndex] at he ⊢
    exact h.symm e he
  refine ⟨?_, hmeta, ?_, hsymm⟩
  · unfold GlobalGraph.entryIndex
    split
    · exact h.indices
    · next hn =>
      intro x i
      simp only [PetGraph.addNode_index, PetGraph.nodeWeights_addNode]
      by_cases hx : x = id
      · subst hx
        rw [AList.lookup_insert, Option.some.injEq, List.getElem?_append]
        split
        · next hlt =>
          -- the old weights do not contain the new name
          constructor
          · intro he; omega
          · intro he
            rw [(h.indices x i).mpr he] at hn
            cases hn
        · rw [List.getElem?_singleton]
          split
          · simp; omega
          · simp; omega
      · rw [AList.lookup_insert_ne hx, h.indices, List.getElem?_append]
        split
        · rfl
        · next hge =>
          rw [List.getElem?_eq_none (by omega), List.getElem?_singleton]
          split
          · simpa using fun he => hx he.symm
          · simp
  · unfold GlobalGraph.entryIndex
    split
    · exact h.unique
    · exact ((PetGraph.edgeReferences_addNode g.graph id).map _).nodup_iff.mpr h.unique

/-! ## `add_node` -/

theorem lookup_metadata_addNode_self (g : GlobalGraph γ) (d : NodeDescriptor) :
    (g.addNode d).nodeMetadata.lookup d.nodeId = some d := AList.lookup_insert _

theorem lookup_metadata_addNode_ne (g : GlobalGraph γ) (d : NodeDescriptor) {id : String}
    (h : id ≠ d.nodeId) : (g.addNode d).nodeMetadata.lookup id = g.nodeMetadata.lookup id := by
  simp only [addNode, AList.lookup_insert_ne h, entryIndex_metadata]

theorem WF.addNode {g : GlobalGraph γ} (h : g.WF) (d : NodeDescriptor) : (g.addNode d).WF := by
  have h1 := h.entryIndex d.nodeId
  refine ⟨h1.indices, ?_, h1.unique, h1.symm⟩
  intro x d' hd'
  by_cases hx : x = d.nodeId
  · subst hx
    rw [lookup_metadata_addNode_self] at hd'
    cases hd'
    exact ⟨rfl, _, lookup_entryIndex_self g d.nodeId⟩
  · rw [lookup_metadata_addNode_ne g d hx] at hd'
    obtain ⟨h2, i, h3⟩ := h.metadata x d' hd'
    exact ⟨h2, i, lookup_entryIndex_of_some g _ h3⟩

/-! ## `add_link` -/

/-- The graph after both endpoints have an index, and those indices. -/
def ensureBoth (g : GlobalGraph γ) (a b : String) : GlobalGraph γ × Nat × Nat :=
  (((g.entryIndex a).1.entryIndex b).1, (g.entryIndex a).2, ((g.entryIndex a).1.entryIndex b).2)

theorem addLink_eq (g : GlobalGraph γ) (l : LinkDescriptor) :
    g.addLink l = { (g.ensureBoth l.nodeA l.nodeB).1 with
      graph := PetGraph.updateEdge (PetGraph.updateEdge (g.ensureBoth l.nodeA l.nodeB).1.graph
        (g.ensureBoth l.nodeA l.nodeB).2.1 (g.ensureBoth l.nodeA l.nodeB).2.2
          ⟨l.hopCost, l.rttMicros⟩)
        (g.ensureBoth l.nodeA l.nodeB).2.2 (g.ensureBoth l.nodeA l.nodeB).2.1
          ⟨l.hopCost, l.rttMicros⟩ } := rfl

theorem lookup_ensureBoth (g : GlobalGraph γ) (a b : String) :
    (g.ensureBoth a b).1.nodeIndices.lookup a = some (g.ensureBoth a b).2.1 ∧
    (g.ensureBoth a b).1.nodeIndices.lookup b = some (g.ensureBoth a b).2.2 :=
  ⟨lookup_entryIndex_of_some _ _ (lookup_entryIndex_self _ _), lookup_entryIndex_self _ _⟩

theorem WF.ensureBoth {g : GlobalGraph γ} (h : g.WF) (a b : String) : (g.ensureBoth a b).1.WF :=
  (h.entryIndex a).entryIndex b

theorem addLink_metadata (g : GlobalGraph γ) (l : LinkDescriptor) :
    (g.addLink l).nodeMetadata = g.nodeMetadata := by
  rw [addLink_eq]
  exact (entryIndex_metadata _ _).trans (entryIndex_metadata _ _)

theorem addLink_indices (g : GlobalGraph γ) (l : LinkDescriptor) :
    (g.addLink l).nodeIndices = (g.ensureBoth l.nodeA l.nodeB).1.nodeIndices := rfl

theorem lookup_addLink_of_some (g : GlobalGraph γ) (l : LinkDescriptor) {x : String} {i : Nat}
    (h : g.nodeIndices.lookup x = some i) : (g.addLink l).nodeIndices.lookup x = some i :=
  lookup_entryIndex_of_some _ _ (lookup_entryIndex_of_some _ _ h)

/-- The edges after `add_link`: the two new ones, and the old ones between other nodes. -/
theorem mem_edges_addLink {g : GlobalGraph γ} (h : g.WF) (l : LinkDescriptor) (e : EdgeRef) :
    let i := (g.ensureBoth l.nodeA l.nodeB).2.1
    let j := (g.ensureBoth l.nodeA l.nodeB).2.2
    (endpoints (PetGraph.edgeReferences (g.addLink l).graph)).Nodup ∧
    (e ∈ PetGraph.edgeReferences (g.addLink l).graph ↔
      e = ⟨i, j, ⟨l.hopCost, l.rttMicros⟩⟩ ∨ e = ⟨j, i, ⟨l.hopCost, l.rttMicros⟩⟩ ∨
      (e ∈ PetGraph.edgeReferences g.graph ∧ ¬ e.joins i j ∧ ¬ e.joins j i)) := by
  intro i j
  have h2 := h.ensureBoth l.nodeA l.nodeB
  obtain ⟨hi, hj⟩ := lookup_ensureBoth g l.nodeA l.nodeB
  have hi' : i < _ := h2.index_lt hi
  have hj' : j < _ := h2.index_lt hj
  obtain ⟨hu1, hm1⟩ := updateEdge_spec (g.ensureBoth l.nodeA l.nodeB).1.graph h2.unique i j
    ⟨l.hopCost, l.rttMicros⟩ hi' hj'
  obtain ⟨hu2, hm2⟩ := updateEdge_spec _ hu1 j i ⟨l.hopCost, l.rttMicros⟩
    (by rw [PetGraph.nodeWeights_updateEdge]; exact hj')
    (by rw [PetGraph.nodeWeights_updateEdge]; exact hi')
  have hold : e ∈ PetGraph.edgeReferences (g.ensureBoth l.nodeA l.nodeB).1.graph ↔
      e ∈ PetGraph.edgeReferences g.graph :=
    (mem_edges_entryIndex _ _ _).trans (mem_edges_entryIndex _ _ _)
  refine ⟨hu2, (hm2 e).trans ?_⟩
  rw [hm1 e, hold]
  constructor
  · rintro (h3 | ⟨h3 | h3, h4⟩)
    · exact Or.inr (Or.inl h3)
    · exact Or.inl h3
    · exact Or.inr (Or.inr ⟨h3.1, h3.2, h4⟩)
  · rintro (h3 | h3 | ⟨h3, h4, h5⟩)
    · by_cases hb : e.joins j i
      · left
        subst h3
        obtain ⟨h6, h7⟩ := hb
        simp only at h6 h7
        rw [h6]
      · exact Or.inr ⟨Or.inl h3, hb⟩
    · exact Or.inl h3
    · exact Or.inr ⟨Or.inr ⟨h3, h4⟩, h5⟩

theorem WF.addLink {g : GlobalGraph γ} (h : g.WF) (l : LinkDescriptor) : (g.addLink l).WF := by
  have h2 := h.ensureBoth l.nodeA l.nodeB
  refine ⟨?_, ?_, (mem_edges_addLink h l ⟨0, 0, ⟨0, 0⟩⟩).1, ?_⟩
  · intro x i
    rw [addLink_eq]
    simp only [PetGraph.nodeWeights_updateEdge]
    exact h2.indices x i
  · intro x d hd
    rw [addLink_metadata] at hd
    obtain ⟨h3, i, h4⟩ := h.metadata x d hd
    exact ⟨h3, i, lookup_addLink_of_some g l h4⟩
  · intro e he
    have hm := fun e => (mem_edges_addLink h l e).2
    rw [hm] at he ⊢
    rcases he with rfl | rfl | ⟨h3, h4, h5⟩
    · exact Or.inr (Or.inl rfl)
    · exact Or.inl rfl
    · refine Or.inr (Or.inr ⟨h.symm e h3, ?_, ?_⟩)
      · rwa [EdgeRef.flip_joins]
      · rwa [EdgeRef.flip_joins]

/-! ## `remove_link` -/

theorem removeLink_metadata (g : GlobalGraph γ) (a b : String) :
    (g.removeLink a b).nodeMetadata = g.nodeMetadata := by
  unfold removeLink
  split <;> rfl

theorem WF.removeLink {g : GlobalGraph γ} (h : g.WF) (a b : String) : (g.removeLink a b).WF := by
  unfold GlobalGraph.removeLink
  split
  · next i j hi hj =>
    obtain ⟨hu1, hm1, hw1⟩ := removeFound_spec g.graph h.unique i j
    obtain ⟨hu2, hm2, hw2⟩ := removeFound_spec _ hu1 j i
    refine ⟨?_, h.metadata, hu2, ?_⟩
    · intro x k
      simp only [hw2, hw1]
      exact h.indices x k
    · intro e he
      simp only [hm2, hm1] at he ⊢
      obtain ⟨⟨h3, h4⟩, h5⟩ := he
      refine ⟨⟨h.symm e h3, ?_⟩, ?_⟩
      · rwa [EdgeRef.flip_joins]
      · rwa [EdgeRef.flip_joins]
  · exact h

/-! ## `remove_node` -/

theorem lookup_foldl_insert (l : List (String × Nat)) (m : HashMap String Nat) (x : String) :
    (l.map fun p => p.1).Nodup →
    (l.foldl (fun m p => m.insert p.1 p.2) m).lookup x =
      ((l.find? fun p => p.1 = x).map fun p => p.2).or (m.lookup x) := by
  induction l generalizing m with
  | nil => simp
  | cons p l ih =>
    intro hnd
    simp only [List.map_cons, List.nodup_cons] at hnd
    rw [List.foldl_cons, ih _ hnd.2]
    by_cases hp : p.1 = x
    · subst hp
      have hnone : l.find? (fun q => q.1 = p.1) = none := by
        rw [List.find?_eq_none]
        intro q hq he
        exact hnd.1 (List.mem_map.mpr ⟨q, hq, by simpa using he⟩)
      simp [hnone, AList.lookup_insert]
    · rw [AList.lookup_insert_ne (Ne.symm hp)]
      simp [hp]

theorem lookup_remapIndices {ws : List String} (h : ws.Nodup) (x : String) (i : Nat) :
    (remapIndices ws).lookup x = some i ↔ ws[i]? = some x := by
  have hfst : (ws.zipIdx.map fun p => p.1) = ws := by simp
  unfold remapIndices
  rw [lookup_foldl_insert _ _ _ (by rw [hfst]; exact h)]
  simp only [AList.lookup_empty, Option.or_none, Option.map_eq_some_iff]
  constructor
  · rintro ⟨⟨y, k⟩, hf, rfl⟩
    have hm := List.mem_of_find?_eq_some hf
    have hy : y = x := by simpa using List.find?_some hf
    subst hy
    exact List.mem_zipIdx_iff_getElem?.mp hm
  · intro hi
    have hm : (x, i) ∈ ws.zipIdx := List.mem_zipIdx_iff_getElem?.mpr hi
    cases hf : ws.zipIdx.find? fun p => p.1 = x with
    | none =>
      rw [List.find?_eq_none] at hf
      exact absurd (by simp) (hf _ hm)
    | some q =>
      obtain ⟨y, k⟩ := q
      have hy : y = x := by simpa using List.find?_some hf
      subst hy
      have hk := List.mem_zipIdx_iff_getElem?.mp (List.mem_of_find?_eq_some hf)
      obtain ⟨h1, h2⟩ := List.getElem?_eq_some_iff.mp hk
      obtain ⟨h3, h4⟩ := List.getElem?_eq_some_iff.mp hi
      exact ⟨_, rfl, (List.Nodup.getElem_inj_iff h).mp (h2.trans h4.symm)⟩

theorem removeNode_weights_perm {g : GlobalGraph γ} (h : g.WF) {id : String} {i : Nat}
    (hi : g.nodeIndices.lookup id = some i) : (PetGraph.nodeWeights g.graph).Perm
      (id :: PetGraph.nodeWeights (PetGraph.removeNode g.graph i)) := by
  have hlt := h.index_lt hi
  rw [PetGraph.nodeWeights_removeNode g.graph i hlt]
  have hid : (PetGraph.nodeWeights g.graph)[i] = id :=
    (List.getElem?_eq_some_iff.mp ((h.indices id i).mp hi)).2
  exact hid ▸ perm_cons_swapRemove _ i hlt

theorem lookup_metadata_removeNode_ne (g : GlobalGraph γ) (id : String) {x : String}
    (hx : x ≠ id) : (g.removeNode id).nodeMetadata.lookup x = g.nodeMetadata.lookup x := by
  unfold removeNode
  split
  · rfl
  · exact AList.lookup_erase_ne hx

theorem WF.lookup_metadata_removeNode_self {g : GlobalGraph γ} (h : g.WF) (id : String) :
    (g.removeNode id).nodeMetadata.lookup id = none := by
  unfold GlobalGraph.removeNode
  split
  · next hn =>
    cases hd : g.nodeMetadata.lookup id with
    | none => rfl
    | some d =>
      obtain ⟨-, i, hi⟩ := h.metadata id d hd
      rw [hn] at hi
      cases hi
  · exact AList.lookup_erase _ _

theorem WF.removeNode {g : GlobalGraph γ} (h : g.WF) (id : String) : (g.removeNode id).WF := by
  unfold GlobalGraph.removeNode
  split
  · exact h
  · next i hi =>
    have hlt := h.index_lt hi
    have hperm := removeNode_weights_perm h hi
    have hnd : (PetGraph.nodeWeights (PetGraph.removeNode g.graph i)).Nodup :=
      (List.nodup_cons.mp (hperm.nodup_iff.mp h.weights_nodup)).2
    have hedges := PetGraph.edgeReferences_removeNode g.graph i hlt
    refine ⟨fun x k => lookup_remapIndices hnd x k, ?_, ?_, ?_⟩
    · intro x d hd
      have hx : x ≠ id := by
        rintro rfl
        rw [AList.lookup_erase] at hd
        cases hd
      rw [AList.lookup_erase_ne hx] at hd
      obtain ⟨h1, k, h2⟩ := h.metadata x d hd
      refine ⟨h1, ?_⟩
      -- `x` is still among the weights, so the rebuilt map has it
      have hm : x ∈ PetGraph.nodeWeights g.graph := List.mem_of_getElem? ((h.indices x k).mp h2)
      rcases List.mem_cons.mp (hperm.mem_iff.mp hm) with h3 | h3
      · exact absurd h3 hx
      · obtain ⟨j, hj⟩ := List.getElem?_of_mem h3
        exact ⟨j, (lookup_remapIndices hnd x j).mpr hj⟩
    · refine ((hedges.map _).nodup_iff.mpr ?_ :)
      rw [List.map_map]
      refine List.Nodup.map_on ?_ (List.Nodup.of_map _ (h.unique.sublist (List.filter_sublist.map _)))
      intro e he e' he' heq
      have hne := (List.mem_filter.mp he).2
      have hne' := (List.mem_filter.mp he').2
      simp only [decide_eq_true_eq] at hne hne'
      simp only [Function.comp, EdgeRef.reindex, Prod.mk.injEq] at heq
      have hs := swapIndex_inj hne.1 hne'.1 heq.1
      have ht := swapIndex_inj hne.2 hne'.2 heq.2
      exact List.inj_on_of_nodup_map h.unique (List.mem_filter.mp he).1 (List.mem_filter.mp he').1
        (Prod.ext hs ht)
    · intro e he
      rw [hedges.mem_iff] at he ⊢
      obtain ⟨e', he', rfl⟩ := List.mem_map.mp he
      obtain ⟨hm, hne⟩ := List.mem_filter.mp he'
      simp only [decide_eq_true_eq] at hne
      refine List.mem_map.mpr ⟨e'.flip, List.mem_filter.mpr ⟨h.symm e' hm, ?_⟩, rfl⟩
      exact decide_eq_true hne.symm

/-! ## Reachable graphs -/

theorem reachable_wf {g : GlobalGraph γ} (h : g.Reachable) : g.WF := by
  induction h with
  | new => exact wf_new
  | addNode d _ ih => exact ih.addNode d
  | removeNode id _ ih => exact ih.removeNode id
  | addLink l _ ih => exact ih.addLink l
  | removeLink a b _ ih => exact ih.removeLink a b

end GlobalGraph

/-! ## Any sequence of calls -/

inductive GraphCall where
  | addNode (descriptor : NodeDescriptor)
  | removeNode (nodeId : String)
  | addLink (link : LinkDescriptor)
  | removeLink (nodeA nodeB : String)
  | applyUpdate (update : TopologyUpdate)

namespace GlobalGraph

variable {γ : Type} [PetGraph γ]

def call (g : GlobalGraph γ) : GraphCall → GlobalGraph γ
  | .addNode d => g.addNode d
  | .removeNode id => g.removeNode id
  | .addLink l => g.addLink l
  | .removeLink a b => g.removeLink a b
  | .applyUpdate u => g.applyUpdate u

/-- The graph after these calls on a new one. -/
def run (calls : List GraphCall) : GlobalGraph γ := calls.foldl call new

theorem Reachable.call {g : GlobalGraph γ} (h : Reachable g) (c : GraphCall) :
    Reachable (g.call c) := by
  cases c with
  | addNode d => exact h.addNode d
  | removeNode id => exact h.removeNode id
  | addLink l => exact h.addLink l
  | removeLink a b => exact h.removeLink a b
  | applyUpdate u => exact h.applyUpdate u

theorem reachable_run (calls : List GraphCall) : Reachable (run calls : GlobalGraph γ) := by
  have fold : ∀ g : GlobalGraph γ, Reachable g → Reachable (calls.foldl GlobalGraph.call g) := by
    induction calls with
    | nil => exact fun g hg => hg
    | cons c calls ih => exact fun g hg => ih _ (hg.call c)
  exact fold new .new

theorem WF.edges_le_one {g : GlobalGraph γ} (h : g.WF) (a b : Nat) :
    ((PetGraph.edgeReferences g.graph).filter fun e => e.joins a b).length ≤ 1 := by
  have hnd : (endpoints ((PetGraph.edgeReferences g.graph).filter fun e => e.joins a b)).Nodup :=
    h.unique.sublist (List.filter_sublist.map _)
  -- the edges left all have these endpoints
  have hsame : endpoints ((PetGraph.edgeReferences g.graph).filter fun e => e.joins a b) =
      List.replicate ((PetGraph.edgeReferences g.graph).filter fun e => e.joins a b).length
        (a, b) := by
    refine List.eq_replicate_iff.mpr ⟨List.length_map _, fun p hp => ?_⟩
    obtain ⟨e, he, rfl⟩ := List.mem_map.mp hp
    obtain ⟨hs, ht⟩ := of_decide_eq_true (List.mem_filter.mp he).2
    exact Prod.ext hs ht
  rw [hsame] at hnd
  exact List.nodup_replicate.mp hnd

/-- **The representation invariant of `GlobalGraph`.**  After any calls, `node_indices` is the
bijection between the names and the indices of the graph's nodes, metadata is kept under its own
node id and only for nodes of the graph, and the edges are simple and symmetric with equal
weights. -/
theorem run_represents (calls : List GraphCall) :
    let g : GlobalGraph γ := run calls
    (PetGraph.nodeWeights g.graph).Nodup ∧
    (∀ id i, g.nodeIndices.lookup id = some i ↔ (PetGraph.nodeWeights g.graph)[i]? = some id) ∧
    (∀ id d, g.nodeMetadata.lookup id = some d → id ∈ g.nodeIndices ∧ d.nodeId = id) ∧
    (∀ a b, ((PetGraph.edgeReferences g.graph).filter fun e => e.joins a b).length ≤ 1) ∧
    (∀ a b w, ⟨a, b, w⟩ ∈ PetGraph.edgeReferences g.graph ↔
      ⟨b, a, w⟩ ∈ PetGraph.edgeReferences g.graph) := by
  intro g
  have h : g.WF := reachable_wf (reachable_run calls)
  refine ⟨h.weights_nodup, h.indices, fun id d hd => ?_, h.edges_le_one, fun a b w => ?_⟩
  · obtain ⟨hid, i, hi⟩ := h.metadata id d hd
    exact ⟨AList.lookup_isSome.mp (by rw [hi]; rfl), hid⟩
  · exact ⟨h.symm ⟨a, b, w⟩, h.symm ⟨b, a, w⟩⟩

end GlobalGraph

end Stric.Flow
