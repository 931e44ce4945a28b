import Stric.Flow.GraphUpdate
import Stric.Flow.VecGraph

/-!
# Sending a graph as a snapshot

A node sends its graph to a new peer as the descriptors and links that `get_descriptors` lists,
and the peer applies them as an update.  Links are listed by index and in both directions, and
inserted by name, each insertion writing both directions; which order the lists are in is left
open.

    (H.applyUpdate u).Linked a b w ↔ G.Linked a b w ∨ (H.Linked a b w ∧ ∀ w', ¬ G.Linked a b w')

for a snapshot `u` of `G`: the links of `G` override those of `H`, as the descriptors do
(`snapshot_transfer`).
-/

namespace Stric.Flow

/-- The link joins these nodes, in either direction. -/
def LinkDescriptor.Joins (l : LinkDescriptor) (a b : String) : Prop :=
  (l.nodeA = a ∧ l.nodeB = b) ∨ (l.nodeA = b ∧ l.nodeB = a)

def LinkDescriptor.weight (l : LinkDescriptor) : LinkWeight := ⟨l.hopCost, l.rttMicros⟩

theorem LinkDescriptor.Agree.weight_eq {l l' : LinkDescriptor} (h : l.Agree l') {a b : String}
    (hl : l.Joins a b) (hl' : l'.Joins a b) : l'.weight = l.weight := by
  have hsame : l.SameEnds l' := by
    rcases hl with ⟨rfl, rfl⟩ | ⟨rfl, rfl⟩
    · exact hl'
    · exact hl'.symm
  obtain ⟨hc, hr⟩ := h hsame
  unfold weight
  rw [hc, hr]

namespace GlobalGraph

variable {γ : Type} [PetGraph γ] {g : GlobalGraph γ}

/-- There is an edge of this weight between the nodes with these names. -/
def Linked (g : GlobalGraph γ) (a b : String) (w : LinkWeight) : Prop :=
  g.HasLink ⟨a, b, w.hopCost, w.rttMicros⟩

/-! ## Links after one call -/

/-- A new node has no links. -/
theorem WF.linked_entryIndex (h : g.WF) (id : String) {a b : String} {w : LinkWeight} :
    (g.entryIndex id).1.Linked a b w ↔ g.Linked a b w := by
  have hwf := h.entryIndex id
  constructor
  · rintro ⟨i, j, hi, hj, he⟩
    have he := (mem_edges_entryIndex g id _).mp he
    obtain ⟨hilt, hjlt⟩ := PetGraph.edge_bounds g.graph _ he
    -- the nodes of an old edge have the names they had
    have hname : ∀ {x : String} {k : Nat}, k < (PetGraph.nodeWeights g.graph).length →
        (g.entryIndex id).1.nodeIndices.lookup x = some k → g.nodeIndices.lookup x = some k := by
      intro x k hk hx
      have hold := h.lookup_name hk
      have hx' := hwf.name_eq hx
      rw [hwf.name_eq (lookup_entryIndex_of_some g id hold)] at hx'
      rw [← hx']
      exact hold
    exact ⟨i, j, hname hilt hi, hname hjlt hj, he⟩
  · rintro ⟨i, j, hi, hj, he⟩
    exact ⟨i, j, lookup_entryIndex_of_some g id hi, lookup_entryIndex_of_some g id hj,
      (mem_edges_entryIndex g id _).mpr he⟩

theorem WF.linked_addNode (h : g.WF) (d : NodeDescriptor) {a b : String} {w : LinkWeight} :
    (g.addNode d).Linked a b w ↔ g.Linked a b w := h.linked_entryIndex d.nodeId

/-- `add_link` gives the two nodes its own weight and leaves all other links alone. -/
theorem WF.linked_addLink (h : g.WF) (l : LinkDescriptor) {a b : String} {w : LinkWeight} :
    (g.addLink l).Linked a b w ↔
      (l.Joins a b ∧ w = l.weight) ∨ (g.Linked a b w ∧ ¬ l.Joins a b) := by
  have hwf := h.ensureBoth l.nodeA l.nodeB
  obtain ⟨ha, hb⟩ := lookup_ensureBoth g l.nodeA l.nodeB
  constructor
  · rintro ⟨i, j, hi, hj, he⟩
    rw [addLink_indices] at hi hj
    simp only at hi hj
    have hname : ∀ {x y : String} {k : Nat},
        (g.ensureBoth l.nodeA l.nodeB).1.nodeIndices.lookup x = some k →
        (g.ensureBoth l.nodeA l.nodeB).1.nodeIndices.lookup y = some k → x = y := by
      intro x y k hx hy
      rw [← hwf.name_eq hx, ← hwf.name_eq hy]
    rcases (mem_edges_addLink h l _).2.mp he with heq | heq | ⟨hold, hn, hn'⟩
    · rw [show i = _ from congrArg EdgeRef.source heq] at hi
      rw [show j = _ from congrArg EdgeRef.target heq] at hj
      exact Or.inl ⟨Or.inl ⟨hname ha hi, hname hb hj⟩, congrArg EdgeRef.weight heq⟩
    · rw [show i = _ from congrArg EdgeRef.source heq] at hi
      rw [show j = _ from congrArg EdgeRef.target heq] at hj
      exact Or.inl ⟨Or.inr ⟨hname ha hj, hname hb hi⟩, congrArg EdgeRef.weight heq⟩
    · right
      constructor
      · have hboth : (g.ensureBoth l.nodeA l.nodeB).1.Linked a b w :=
          ⟨i, j, hi, hj, ((mem_edges_entryIndex _ _ _).trans (mem_edges_entryIndex _ _ _)).mpr hold⟩
        exact (h.linked_entryIndex _).mp (((h.entryIndex _).linked_entryIndex _).mp hboth)
      · rintro (⟨rfl, rfl⟩ | ⟨rfl, rfl⟩)
        · rw [ha] at hi
          rw [hb] at hj
          exact hn ⟨(Option.some.inj hi).symm, (Option.some.inj hj).symm⟩
        · rw [hb] at hi
          rw [ha] at hj
          exact hn' ⟨(Option.some.inj hi).symm, (Option.some.inj hj).symm⟩
  · rintro (⟨⟨rfl, rfl⟩ | ⟨rfl, rfl⟩, rfl⟩ | ⟨hold, hn⟩)
    · exact h.hasLink_addLink l
    · exact ⟨_, _, hb, ha, (mem_edges_addLink h l _).2.mpr (Or.inr (Or.inl rfl))⟩
    · exact HasLink.addLink hold h fun hsame => absurd hsame hn

/-! ## Links after an update that only adds -/

theorem WF.linked_foldl_addNode (h : g.WF) (ds : List NodeDescriptor) {a b : String}
    {w : LinkWeight} : (ds.foldl GlobalGraph.addNode g).Linked a b w ↔ g.Linked a b w := by
  induction ds generalizing g with
  | nil => rfl
  | cons d ds ih => exact (ih (h.addNode d)).trans (h.linked_addNode d)

/-- Links that agree override what was there, in whichever order they are added. -/
theorem WF.linked_foldl_addLink (h : g.WF) {ls : List LinkDescriptor}
    (hagree : ∀ l ∈ ls, ∀ l' ∈ ls, l.Agree l') {a b : String} {w : LinkWeight} :
    (ls.foldl GlobalGraph.addLink g).Linked a b w ↔
      (∃ l ∈ ls, l.Joins a b ∧ w = l.weight) ∨ (g.Linked a b w ∧ ∀ l ∈ ls, ¬ l.Joins a b) := by
  induction ls generalizing g with
  | nil => simp
  | cons l ls ih =>
    have htail : ∀ x ∈ ls, ∀ y ∈ ls, x.Agree y := fun x hx y hy =>
      hagree x (List.mem_cons_of_mem _ hx) y (List.mem_cons_of_mem _ hy)
    rw [List.foldl_cons, ih (h.addLink l) htail, h.linked_addLink, List.forall_mem_cons]
    constructor
    · rintro (⟨x, hx, hj, hw⟩ | ⟨⟨hj, hw⟩ | ⟨hg, hn⟩, hls⟩)
      · exact Or.inl ⟨x, List.mem_cons_of_mem _ hx, hj, hw⟩
      · exact Or.inl ⟨l, List.mem_cons_self, hj, hw⟩
      · exact Or.inr ⟨hg, hn, hls⟩
    · rintro (⟨x, hx, hj, hw⟩ | ⟨hg, hn, hls⟩)
      · rcases List.mem_cons.mp hx with rfl | hx
        · -- a later link between the same nodes has the same weight
          by_cases hlater : ∃ y ∈ ls, y.Joins a b
          · obtain ⟨y, hy, hyj⟩ := hlater
            have hyw := (hagree x List.mem_cons_self y (List.mem_cons_of_mem _ hy)).weight_eq hj hyj
            exact Or.inl ⟨y, hy, hyj, hw.trans hyw.symm⟩
          · exact Or.inr ⟨Or.inl ⟨hj, hw⟩, fun y hy hyj => hlater ⟨y, hy, hyj⟩⟩
        · exact Or.inl ⟨x, hx, hj, hw⟩
      · exact Or.inr ⟨Or.inr ⟨hg, hn⟩, hls⟩

/-! ## Snapshots -/

/-- The links that `get_descriptors` lists are those of the graph. -/
theorem WF.linked_iff_descriptor (h : g.WF) {a b : String} {w : LinkWeight} :
    g.Linked a b w ↔ ∃ l ∈ g.getDescriptors.2, l.Joins a b ∧ w = l.weight := by
  constructor
  · rintro ⟨i, j, hi, hj, he⟩
    refine ⟨_, List.mem_map.mpr ⟨_, he, rfl⟩, Or.inl ⟨h.name_eq hi, h.name_eq hj⟩, rfl⟩
  · rintro ⟨l, hl, hj, rfl⟩
    obtain ⟨e, he, rfl⟩ := List.mem_map.mp hl
    obtain ⟨hs, ht⟩ := PetGraph.edge_bounds g.graph e he
    rcases hj with ⟨rfl, rfl⟩ | ⟨rfl, rfl⟩
    · exact ⟨_, _, h.lookup_name hs, h.lookup_name ht, he⟩
    · exact ⟨_, _, h.lookup_name ht, h.lookup_name hs, h.symm e he⟩

/-- An update with the descriptors and links of the graph, in any order, and no removals. -/
structure IsSnapshot (G : GlobalGraph γ) (u : TopologyUpdate) : Prop where
  nodes : u.nodesAdded.Perm G.getDescriptors.1
  links : u.linksAdded.Perm G.getDescriptors.2
  nodesRemoved : u.nodesRemoved = []
  linksRemoved : u.linksRemoved = []

variable {γ' : Type} [PetGraph γ'] {G : GlobalGraph γ'} {u : TopologyUpdate}

theorem IsSnapshot.linked_applyUpdate (hu : IsSnapshot G u) (hG : G.WF) (h : g.WF) {a b : String}
    {w : LinkWeight} : (g.applyUpdate u).Linked a b w ↔
      G.Linked a b w ∨ (g.Linked a b w ∧ ∀ w', ¬ G.Linked a b w') := by
  have hagree : ∀ l ∈ u.linksAdded, ∀ l' ∈ u.linksAdded, l.Agree l' := fun l hl l' hl' =>
    hG.descriptors_agree (hu.links.mem_iff.mp hl) (hu.links.mem_iff.mp hl')
  have happly : g.applyUpdate u =
      u.linksAdded.foldl GlobalGraph.addLink (u.nodesAdded.foldl GlobalGraph.addNode g) := by
    unfold GlobalGraph.applyUpdate
    rw [hu.nodesRemoved, hu.linksRemoved]
    rfl
  rw [happly, (h.foldl_addNode u.nodesAdded).linked_foldl_addLink hagree,
    h.linked_foldl_addNode]
  have hlinks : ∀ v, (∃ l ∈ u.linksAdded, l.Joins a b ∧ v = l.weight) ↔ G.Linked a b v := by
    intro v
    rw [hG.linked_iff_descriptor]
    simp only [hu.links.mem_iff]
  rw [hlinks]
  refine or_congr_right (and_congr_right fun _ => ⟨fun hno w' hw' => ?_, fun hno l hl hj => ?_⟩)
  · obtain ⟨l, hl, hj, -⟩ := (hlinks w').mpr hw'
    exact hno l hl hj
  · exact hno l.weight ((hlinks l.weight).mp ⟨l, hl, hj, rfl⟩)

theorem lastAdded_eq_none {ds : List NodeDescriptor} {id : String}
    (h : ∀ d ∈ ds, d.nodeId ≠ id) : lastAdded ds id = none := by
  unfold lastAdded
  rw [List.find?_eq_none]
  intro d hd hid
  exact h d (List.mem_reverse.mp hd) (by simpa using hid)

theorem IsSnapshot.lookup_applyUpdate (hu : IsSnapshot G u) (hG : G.WF) (h : g.WF) (id : String) :
    (g.applyUpdate u).nodeMetadata.lookup id =
      (G.nodeMetadata.lookup id).or (g.nodeMetadata.lookup id) := by
  rw [h.lookup_metadata_applyUpdate, hu.nodesRemoved, if_neg List.not_mem_nil]
  have hmem : ∀ d, d ∈ u.nodesAdded ↔ ∃ x, G.nodeMetadata.lookup x = some d := by
    intro d
    rw [hu.nodes.mem_iff]
    constructor
    · intro hd
      obtain ⟨e, he, rfl⟩ := List.mem_map.mp hd
      exact ⟨e.1, AList.mem_lookup_iff.mpr he⟩
    · rintro ⟨x, hx⟩
      exact List.mem_map.mpr ⟨⟨x, d⟩, AList.mem_lookup_iff.mp hx, rfl⟩
  congr 1
  cases hl : G.nodeMetadata.lookup id with
  | none =>
    refine lastAdded_eq_none fun d hd hid => ?_
    obtain ⟨x, hx⟩ := (hmem d).mp hd
    have hdx := (hG.metadata x d hx).1
    rw [← hdx, hid, hl] at hx
    cases hx
  | some d =>
    have hnd : (u.nodesAdded.map fun d => d.nodeId).Nodup :=
      (hu.nodes.map _).nodup_iff.mpr hG.descriptors_nodup
    have hid := (hG.metadata id d hl).1
    rw [← hid]
    exact lastAdded_eq_some hnd ((hmem d).mpr ⟨id, hl⟩)

end GlobalGraph

open GlobalGraph

variable {γ γ' : Type} [PetGraph γ] [PetGraph γ']

/-- **A snapshot is transferred faithfully.**  Applied to any graph, it makes the descriptors and
weighted links of its own graph override those of the other.  So an empty graph becomes a copy,
and applying a snapshot of the same graph again, listed in whatever order, changes nothing. -/
theorem snapshot_transfer {G : GlobalGraph γ'} {H : GlobalGraph γ} (hG : G.Reachable)
    (hH : H.Reachable) {u : TopologyUpdate} (hu : IsSnapshot G u) :
    (∀ id, (H.applyUpdate u).nodeMetadata.lookup id =
      (G.nodeMetadata.lookup id).or (H.nodeMetadata.lookup id)) ∧
    (∀ a b w, (H.applyUpdate u).Linked a b w ↔
      G.Linked a b w ∨ (H.Linked a b w ∧ ∀ w', ¬ G.Linked a b w')) ∧
    (∀ id, ((new : GlobalGraph γ).applyUpdate u).nodeMetadata.lookup id =
      G.nodeMetadata.lookup id) ∧
    (∀ a b w, ((new : GlobalGraph γ).applyUpdate u).Linked a b w ↔ G.Linked a b w) ∧
    ∀ u', IsSnapshot G u' →
      (∀ id, ((H.applyUpdate u).applyUpdate u').nodeMetadata.lookup id =
        (H.applyUpdate u).nodeMetadata.lookup id) ∧
      (∀ a b w, ((H.applyUpdate u).applyUpdate u').Linked a b w ↔
        (H.applyUpdate u).Linked a b w) := by
  have hGwf := reachable_wf hG
  have hHwf := reachable_wf hH
  have hnew : (new : GlobalGraph γ).WF := wf_new
  have hafter := reachable_wf (hH.applyUpdate u)
  have hempty : ∀ {a b w}, ¬ (new : GlobalGraph γ).Linked a b w := by
    rintro a b w ⟨i, j, hi, -⟩
    exact absurd hi (by simp [new])
  refine ⟨hu.lookup_applyUpdate hGwf hHwf, fun a b w => hu.linked_applyUpdate hGwf hHwf,
    fun id => ?_, fun a b w => ?_, fun u' hu' => ⟨fun id => ?_, fun a b w => ?_⟩⟩
  · rw [hu.lookup_applyUpdate hGwf hnew]
    exact Option.or_none
  · rw [hu.linked_applyUpdate hGwf hnew]
    exact ⟨fun h => h.resolve_right fun h => hempty h.1, Or.inl⟩
  · rw [hu'.lookup_applyUpdate hGwf hafter, hu.lookup_applyUpdate hGwf hHwf]
    cases G.nodeMetadata.lookup id <;> rfl
  · rw [hu'.linked_applyUpdate hGwf hafter, hu.linked_applyUpdate hGwf hHwf]
    constructor
    · rintro (h | ⟨h, -⟩)
      · exact Or.inl h
      · exact h
    · rintro (h | h)
      · exact Or.inl h
      · exact Or.inr ⟨Or.inr h, h.2⟩

/-- A link between two nodes, and a node with a descriptor. -/
def oneLink : GlobalGraph VecGraph := (new.addNode ⟨"a", 0, ∅, 3⟩).addLink ⟨"a", "b", 1, 5⟩

/-- The snapshot gives the other graph's link its weight. -/
theorem snapshot_transfer_oneLink :
    IsSnapshot oneLink ⟨"a", 1, oneLink.getDescriptors.1, [], oneLink.getDescriptors.2, []⟩ ∧
    (((new : GlobalGraph VecGraph).addLink ⟨"b", "a", 7, 7⟩).applyUpdate
      ⟨"a", 1, oneLink.getDescriptors.1, [], oneLink.getDescriptors.2, []⟩).Linked
        "b" "a" ⟨1, 5⟩ := by
  have hu : IsSnapshot oneLink
      ⟨"a", 1, oneLink.getDescriptors.1, [], oneLink.getDescriptors.2, []⟩ :=
    ⟨.refl _, .refl _, rfl, rfl⟩
  have hG : oneLink.Reachable := .addLink _ (.addNode _ .new)
  have hlinked : oneLink.Linked "b" "a" ⟨1, 5⟩ := ⟨1, 0, rfl, rfl, by decide +kernel⟩
  exact ⟨hu, ((snapshot_transfer hG (.addLink _ .new) hu).2.1 _ _ _).mpr (Or.inl hlinked)⟩

end Stric.Flow
