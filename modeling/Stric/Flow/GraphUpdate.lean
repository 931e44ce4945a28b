import Stric.Flow.GraphInv

/-!
# What `apply_update` leaves in the graph

The descriptors after an update are those of the last word the update has on each node
(`WF.lookup_metadata_applyUpdate`).  An update that removes nothing and does not contradict
itself leaves a graph with everything it adds (`WF.holds_applyUpdate`); what `get_descriptors`
lists of a well-formed graph is such an update (`WF.descriptors_nodup`,
`WF.descriptors_agree`).
-/

namespace Stric.Flow

namespace GlobalGraph

variable {γ : Type} [PetGraph γ]

/-- The graph has the link, with these weights. -/
def HasLink (g : GlobalGraph γ) (l : LinkDescriptor) : Prop :=
  ∃ i j, g.nodeIndices.lookup l.nodeA = some i ∧ g.nodeIndices.lookup l.nodeB = some j ∧
    (⟨i, j, ⟨l.hopCost, l.rttMicros⟩⟩ : EdgeRef) ∈ PetGraph.edgeReferences g.graph

/-- The graph has every descriptor and every link that the update adds. -/
def Holds (g : GlobalGraph γ) (u : TopologyUpdate) : Prop :=
  (∀ d ∈ u.nodesAdded, g.nodeMetadata.lookup d.nodeId = some d) ∧ ∀ l ∈ u.linksAdded, g.HasLink l

end GlobalGraph

/-- The two links join the same nodes. -/
def LinkDescriptor.SameEnds (l l' : LinkDescriptor) : Prop :=
  (l'.nodeA = l.nodeA ∧ l'.nodeB = l.nodeB) ∨ (l'.nodeA = l.nodeB ∧ l'.nodeB = l.nodeA)

/-- The links give the nodes they join the same weights. -/
def LinkDescriptor.Agree (l l' : LinkDescriptor) : Prop :=
  l.SameEnds l' → l'.hopCost = l.hopCost ∧ l'.rttMicros = l.rttMicros

/-- An update that removes nothing and does not contradict itself. -/
structure TopologyUpdate.Coherent (u : TopologyUpdate) : Prop where
  nodes : (u.nodesAdded.map fun d => d.nodeId).Nodup
  links : ∀ l ∈ u.linksAdded, ∀ l' ∈ u.linksAdded, l.Agree l'
  nodesRemoved : u.nodesRemoved = []
  linksRemoved : u.linksRemoved = []

namespace GlobalGraph

variable {γ : Type} [PetGraph γ] {g : GlobalGraph γ}

theorem WF.descriptors_nodup (h : g.WF) :
    (g.getDescriptors.1.map fun d => d.nodeId).Nodup := by
  have hkeys : (g.getDescriptors.1.map fun d => d.nodeId) = g.nodeMetadata.keys := by
    show ((g.nodeMetadata.entries.map fun e => e.2).map fun d => d.nodeId) =
      g.nodeMetadata.entries.map Sigma.fst
    rw [List.map_map]
    apply List.map_congr_left
    intro e he
    exact (h.metadata e.1 e.2 (AList.mem_lookup_iff.mpr he)).1
  rw [hkeys]
  exact g.nodeMetadata.keys_nodup

/-- Links between the same nodes come from one edge or from the two directions of one. -/
theorem WF.descriptors_agree (h : g.WF) {l l' : LinkDescriptor} (hl : l ∈ g.getDescriptors.2)
    (hl' : l' ∈ g.getDescriptors.2) : l.Agree l' := by
  obtain ⟨e, he, rfl⟩ := List.mem_map.mp hl
  obtain ⟨e', he', rfl⟩ := List.mem_map.mp hl'
  have hb := PetGraph.edge_bounds g.graph e he
  have hb' := PetGraph.edge_bounds g.graph e' he'
  have hsame : ∀ x ∈ PetGraph.edgeReferences g.graph, ∀ y ∈ PetGraph.edgeReferences g.graph,
      x.source = y.source → x.target = y.target → x = y :=
    fun x hx y hy hs ht => List.inj_on_of_nodup_map h.unique hx hy (Prod.ext hs ht)
  rintro (⟨h1, h2⟩ | ⟨h1, h2⟩)
  · have : e' = e := hsame e' he' e he (h.name_inj hb'.1 hb.1 h1) (h.name_inj hb'.2 hb.2 h2)
    rw [this]
    exact ⟨rfl, rfl⟩
  · have : e' = e.flip :=
      hsame e' he' e.flip (h.symm e he) (h.name_inj hb'.1 hb.2 h1) (h.name_inj hb'.2 hb.1 h2)
    rw [this]
    exact ⟨rfl, rfl⟩

/-! ## Descriptors after an update -/

/-- The last of the descriptors for this id. -/
def lastAdded (ds : List NodeDescriptor) (id : String) : Option NodeDescriptor :=
  ds.reverse.find? fun d => d.nodeId = id

theorem WF.foldl_addNode (h : g.WF) (ds : List NodeDescriptor) :
    (ds.foldl GlobalGraph.addNode g).WF := by
  induction ds generalizing g with
  | nil => exact h
  | cons d ds ih => exact ih (h.addNode d)

theorem lookup_foldl_addNode (ds : List NodeDescriptor) (g : GlobalGraph γ) (id : String) :
    (ds.foldl GlobalGraph.addNode g).nodeMetadata.lookup id =
      (lastAdded ds id).or (g.nodeMetadata.lookup id) := by
  induction ds generalizing g with
  | nil => rfl
  | cons d ds ih =>
    rw [List.foldl_cons, ih]
    unfold lastAdded
    rw [List.reverse_cons, List.find?_append, Option.or_assoc]
    congr 1
    by_cases hd : d.nodeId = id
    · subst hd
      simp [lookup_metadata_addNode_self]
    · rw [lookup_metadata_addNode_ne g d (Ne.symm hd)]
      simp [hd]

theorem WF.lookup_foldl_removeNode (h : g.WF) (ids : List String) (id : String) :
    (ids.foldl GlobalGraph.removeNode g).nodeMetadata.lookup id =
      if id ∈ ids then none else g.nodeMetadata.lookup id := by
  induction ids generalizing g with
  | nil => simp
  | cons x ids ih =>
    rw [List.foldl_cons, ih (h.removeNode x)]
    by_cases hx : id = x
    · subst hx
      simp [h.lookup_metadata_removeNode_self]
    · rw [lookup_metadata_removeNode_ne g x hx]
      simp [hx]

theorem lookup_foldl_removeNode_ne {ids : List String} {id : String} (hid : id ∉ ids)
    (g : GlobalGraph γ) :
    (ids.foldl GlobalGraph.removeNode g).nodeMetadata.lookup id = g.nodeMetadata.lookup id := by
  induction ids generalizing g with
  | nil => rfl
  | cons x ids ih =>
    obtain ⟨hx, hids⟩ := not_or.mp (mt List.mem_cons.mpr hid)
    rw [List.foldl_cons, ih hids, lookup_metadata_removeNode_ne g x hx]

theorem foldl_addLink_metadata (ls : List LinkDescriptor) (g : GlobalGraph γ) :
    (ls.foldl addLink g).nodeMetadata = g.nodeMetadata := by
  induction ls generalizing g with
  | nil => rfl
  | cons l ls ih => rw [List.foldl_cons, ih, addLink_metadata]

theorem foldl_removeLink_metadata (ls : List LinkRemoved) (g : GlobalGraph γ) :
    (ls.foldl (fun g l => g.removeLink l.nodeA l.nodeB) g).nodeMetadata = g.nodeMetadata := by
  induction ls generalizing g with
  | nil => rfl
  | cons l ls ih => rw [List.foldl_cons, ih, removeLink_metadata]

/-- The descriptors after an update: nodes are added before nodes are removed. -/
theorem WF.lookup_metadata_applyUpdate (h : g.WF) (u : TopologyUpdate) (id : String) :
    (g.applyUpdate u).nodeMetadata.lookup id =
      if id ∈ u.nodesRemoved then none
      else (lastAdded u.nodesAdded id).or (g.nodeMetadata.lookup id) := by
  unfold GlobalGraph.applyUpdate
  simp only
  rw [foldl_removeLink_metadata, foldl_addLink_metadata,
    (h.foldl_addNode u.nodesAdded).lookup_foldl_removeNode, lookup_foldl_addNode]

/-- A node that is not removed has the last descriptor added for it, or the one it had. -/
theorem lookup_metadata_applyUpdate_kept (g : GlobalGraph γ) {u : TopologyUpdate} {id : String}
    (hid : id ∉ u.nodesRemoved) : (g.applyUpdate u).nodeMetadata.lookup id =
      (lastAdded u.nodesAdded id).or (g.nodeMetadata.lookup id) := by
  unfold GlobalGraph.applyUpdate
  simp only
  rw [foldl_removeLink_metadata, foldl_addLink_metadata, lookup_foldl_removeNode_ne hid,
    lookup_foldl_addNode]

/-! ## Links after an update -/

theorem WF.hasLink_addLink (h : g.WF) (l : LinkDescriptor) : (g.addLink l).HasLink l := by
  obtain ⟨hi, hj⟩ := lookup_ensureBoth g l.nodeA l.nodeB
  exact ⟨_, _, hi, hj, (mem_edges_addLink h l _).2.mpr (Or.inl rfl)⟩

/-- A link stays, if the one that is added does not contradict it. -/
theorem HasLink.addLink {l : LinkDescriptor} (hl : g.HasLink l) (h : g.WF) {l' : LinkDescriptor}
    (hagree : l.Agree l') : (g.addLink l').HasLink l := by
  obtain ⟨i, j, hi, hj, he⟩ := hl
  have hi2 := lookup_addLink_of_some g l' hi
  have hj2 := lookup_addLink_of_some g l' hj
  refine ⟨i, j, hi2, hj2, (mem_edges_addLink h l' _).2.mpr ?_⟩
  obtain ⟨ha, hb⟩ := lookup_ensureBoth g l'.nodeA l'.nodeB
  have hwf := h.ensureBoth l'.nodeA l'.nodeB
  -- equal indices belong to equal names
  have hname : ∀ {x y : String} {k : Nat}, (g.addLink l').nodeIndices.lookup x = some k →
      (g.ensureBoth l'.nodeA l'.nodeB).1.nodeIndices.lookup y = some k → y = x := by
    intro x y k hx hy
    rw [addLink_indices] at hx
    rw [← hwf.name_eq hx, ← hwf.name_eq hy]
  by_cases h1 : (⟨i, j, ⟨l.hopCost, l.rttMicros⟩⟩ : EdgeRef).joins
      (g.ensureBoth l'.nodeA l'.nodeB).2.1 (g.ensureBoth l'.nodeA l'.nodeB).2.2
  · obtain ⟨h2, h3⟩ := h1
    simp only at h2 h3
    obtain ⟨hc, hr⟩ := hagree (Or.inl ⟨hname (h2 ▸ hi2) ha, hname (h3 ▸ hj2) hb⟩)
    left
    rw [hc, hr, ← h2, ← h3]
  · by_cases h2 : (⟨i, j, ⟨l.hopCost, l.rttMicros⟩⟩ : EdgeRef).joins
        (g.ensureBoth l'.nodeA l'.nodeB).2.2 (g.ensureBoth l'.nodeA l'.nodeB).2.1
    · obtain ⟨h3, h4⟩ := h2
      simp only at h3 h4
      obtain ⟨hc, hr⟩ := hagree (Or.inr ⟨hname (h4 ▸ hj2) ha, hname (h3 ▸ hi2) hb⟩)
      right
      left
      rw [hc, hr, ← h3, ← h4]
    · exact Or.inr (Or.inr ⟨he, h1, h2⟩)

theorem HasLink.foldl_addLink {l : LinkDescriptor} {ls : List LinkDescriptor}
    (hagree : ∀ l' ∈ ls, l.Agree l') {g : GlobalGraph γ} (h : g.WF) (hl : g.HasLink l) :
    (ls.foldl GlobalGraph.addLink g).HasLink l := by
  induction ls generalizing g with
  | nil => exact hl
  | cons l' ls ih =>
    exact ih (fun x hx => hagree x (List.mem_cons_of_mem _ hx)) (h.addLink l')
      (hl.addLink h (hagree l' List.mem_cons_self))

theorem WF.hasLink_foldl_addLink {l : LinkDescriptor} {ls : List LinkDescriptor} (hl : l ∈ ls)
    (hagree : ∀ l' ∈ ls, l.Agree l') {g : GlobalGraph γ} (h : g.WF) :
    (ls.foldl GlobalGraph.addLink g).HasLink l := by
  induction ls generalizing g with
  | nil => cases hl
  | cons x ls ih =>
    have htail : ∀ l' ∈ ls, l.Agree l' := fun l' hl' => hagree l' (List.mem_cons_of_mem _ hl')
    rcases List.mem_cons.mp hl with rfl | hl
    · exact (h.hasLink_addLink l).foldl_addLink htail (h.addLink l)
    · exact ih hl htail (h.addLink x)

theorem lastAdded_eq_some {ds : List NodeDescriptor} (hnd : (ds.map fun d => d.nodeId).Nodup)
    {d : NodeDescriptor} (hd : d ∈ ds) : lastAdded ds d.nodeId = some d := by
  unfold lastAdded
  cases hf : ds.reverse.find? fun x => x.nodeId = d.nodeId with
  | none =>
    have := List.find?_eq_none.mp hf d (List.mem_reverse.mpr hd)
    simp at this
  | some x =>
    have hx := List.mem_reverse.mp (List.mem_of_find?_eq_some hf)
    have hid : x.nodeId = d.nodeId := by simpa using List.find?_some hf
    rw [List.inj_on_of_nodup_map hnd hx hd hid]

/-- After a coherent update the graph has all that the update adds. -/
theorem WF.holds_applyUpdate (h : g.WF) {u : TopologyUpdate} (hu : u.Coherent) :
    (g.applyUpdate u).Holds u := by
  constructor
  · intro d hd
    rw [h.lookup_metadata_applyUpdate, hu.nodesRemoved, lastAdded_eq_some hu.nodes hd]
    rfl
  · intro l hl
    unfold GlobalGraph.applyUpdate
    rw [hu.nodesRemoved, hu.linksRemoved]
    exact WF.hasLink_foldl_addLink hl (hu.links l hl) (h.foldl_addNode u.nodesAdded)

end GlobalGraph

end Stric.Flow
