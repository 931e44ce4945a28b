import Stric.Flow.RoutingSafe

/-!
# The forwarding table is a minimal least-cost tree

Over a reachable graph whose penalised costs sum to less than `u32::MAX`, the table of a
known source is a tree rooted at the source: it spans exactly the reachable subscribers,
its leaves are subscribers, and its root paths are shortest paths
(`computeForwardingTable_leastCostTree`).

The (parent, child) pairs of the table are the predecessor pairs on the way from the source
to some subscriber (`Computed`); everything else follows from the labels of the
search (`RoutingInv`) and the injectivity of names (`GraphInv`).
-/

namespace Stric.Flow

open Stric.Pool Relation

/-- `child` is one of the targets the table lists for `parent`. -/
def TableEdge (table : HashMap NodeId ForwardingTargets) (parent child : NodeId) : Prop :=
  ∃ targets, table.lookup parent = some targets ∧ child ∈ targets.sendTo

/-- The node occurs in the table, as a parent or as a child. -/
def Mentioned (table : HashMap NodeId ForwardingTargets) (v : NodeId) : Prop :=
  ∃ w, TableEdge table v w ∨ TableEdge table w v

namespace GlobalGraph

/-! ## Links by name -/

section
variable {γ : Type} [PetGraph γ] (g : GlobalGraph γ)

/-- A directed link between two named nodes, with its penalised cost. -/
def Link (u v : NodeId) (k : Nat) : Prop :=
  ∃ e ∈ PetGraph.edgeReferences g.graph,
    g.name e.source = u ∧ g.name e.target = v ∧ g.linkCost e = k

/-- The penalised costs of all directed edges, added up. -/
def totalCost : Nat := ((PetGraph.edgeReferences g.graph).map g.linkCost).sum

variable {g}

theorem link_of_edge {i j k : Nat} (h : g.Edge i j k) : g.Link (g.name i) (g.name j) k := by
  obtain ⟨e, he, rfl, rfl, rfl⟩ := h
  exact ⟨e, he, rfl, rfl, rfl⟩

theorem Edge.lt {i j k : Nat} (h : g.Edge i j k) :
    i < (PetGraph.nodeWeights g.graph).length ∧ j < (PetGraph.nodeWeights g.graph).length := by
  obtain ⟨e, he, rfl, rfl, -⟩ := h
  exact PetGraph.edge_bounds g.graph e he

theorem WF.edge_of_link (hg : g.WF) {i : Nat} (hi : i < (PetGraph.nodeWeights g.graph).length)
    {v : NodeId} {k : Nat} (h : g.Link (g.name i) v k) : ∃ j, v = g.name j ∧ g.Edge i j k := by
  obtain ⟨e, he, hs, rfl, rfl⟩ := h
  have hi' := hg.name_inj (PetGraph.edge_bounds g.graph e he).1 hi hs
  exact ⟨e.target, rfl, e, he, hi', rfl, rfl⟩

theorem WF.edge_unique (hg : g.WF) {i j k k' : Nat} (h : g.Edge i j k) (h' : g.Edge i j k') :
    k = k' := by
  obtain ⟨e, he, hs, ht, rfl⟩ := h
  obtain ⟨e', he', hs', ht', rfl⟩ := h'
  have heq : e = e' := List.inj_on_of_nodup_map hg.unique he he'
    (Prod.ext (hs.trans hs'.symm) (ht.trans ht'.symm))
  rw [heq]

theorem walk_link_of_edge {i j c : Nat} (h : Walk g.Edge i j c) :
    Walk g.Link (g.name i) (g.name j) c := by
  induction h with
  | nil => exact .nil
  | snoc _ he ih => exact .snoc ih (link_of_edge he)

theorem WF.walk_edge_of_link (hg : g.WF) {i : Nat}
    (hi : i < (PetGraph.nodeWeights g.graph).length) {v : NodeId} {c : Nat}
    (h : Walk g.Link (g.name i) v c) :
    ∃ j, j < (PetGraph.nodeWeights g.graph).length ∧ v = g.name j ∧ Walk g.Edge i j c := by
  induction h with
  | nil => exact ⟨i, hi, rfl, .nil⟩
  | snoc _ he ih =>
    obtain ⟨j, hj, rfl, hw⟩ := ih
    obtain ⟨j', rfl, he'⟩ := hg.edge_of_link hj he
    exact ⟨j', he'.lt.2, rfl, .snoc hw he'⟩

/-! ## Sums below the cap -/

theorem exists_walk_le_total {s u v c k : Nat} (hw : Walk g.Edge s u c) (he : g.Edge u v k) :
    ∃ c', Walk g.Edge s u c' ∧ c' + k ≤ g.totalCost := by
  have h := exists_walk_add_le_sum
    ((PetGraph.edgeReferences g.graph).map fun e => (e.source, e.target, g.linkCost e))
    (fun u v k h => by
      obtain ⟨e, he, rfl, rfl, rfl⟩ := h
      exact List.mem_map.mpr ⟨e, he, rfl⟩) hw he
  have hsum : edgeSum ((PetGraph.edgeReferences g.graph).map
      fun e => (e.source, e.target, g.linkCost e)) = g.totalCost := by
    simp [edgeSum, totalCost, Function.comp_def]
  rwa [hsum] at h

theorem noOverflow_of_totalCost (h : g.totalCost < u32Max.toNat) (s : Nat) : g.NoOverflow s := by
  intro u v k c hw _ he
  obtain ⟨c', hw', hc'⟩ := exists_walk_le_total hw he
  exact ⟨c', hw', by omega⟩

/-- Every reachable node is labelled. -/
theorem dist_lt_of_walk (h : g.totalCost < u32Max.toNat) {s i c : Nat} {L : Labels Nat}
    (hL : LabelInv g.Edge s u32Max.toNat (fun _ => False) L) (hw : Walk g.Edge s i c) :
    L.dist i < u32Max.toNat := by
  cases hw with
  | nil =>
    rw [hL.src]
    omega
  | snoc hw he =>
    obtain ⟨c', hw', hc'⟩ := exists_walk_le_total hw he
    have := hL.dist_le_walk (hw'.snoc he)
    omega

end

/-! ## The pairs of the table -/

/-- `child` is listed under `parent`, while the table is still a map of sets. -/
def HasTarget (tree : HashMap String (List String)) (parent child : String) : Prop :=
  ∃ targets, tree.lookup parent = some targets ∧ child ∈ targets

theorem hasTarget_insertTarget (tree : HashMap String (List String)) (a b p c : String) :
    HasTarget (insertTarget tree a b) p c ↔ HasTarget tree p c ∨ (p = a ∧ c = b) := by
  unfold HasTarget insertTarget
  by_cases hp : p = a
  · subst hp
    rw [AList.lookup_insert]
    simp only [Option.some.injEq, exists_eq_left', List.mem_insert_iff, true_and]
    cases h : tree.lookup p with
    | none => simp
    | some cs => simp [or_comm]
  · rw [AList.lookup_insert_ne hp]
    simp [hp]

theorem hasTarget_foldl (f : Nat → String) (ps : List (Nat × Nat))
    (tree : HashMap String (List String)) (p c : String) :
    HasTarget (ps.foldl (fun t q => insertTarget t (f q.1) (f q.2)) tree) p c ↔
      HasTarget tree p c ∨ ∃ q ∈ ps, p = f q.1 ∧ c = f q.2 := by
  induction ps generalizing tree with
  | nil => simp
  | cons q ps ih =>
    rw [List.foldl_cons, ih, hasTarget_insertTarget, or_assoc]
    simp

/-- Nothing else is on the way to a node without predecessor. -/
theorem chain_none {pred : HashMap Nat Nat} {c i : Nat} (hi : pred.lookup i = none)
    (h : ReflTransGen (fun a b => pred.lookup b = some a) c i) : c = i := by
  rcases ReflTransGen.cases_tail h with rfl | ⟨x, -, hx⟩
  · rfl
  · rw [hi] at hx
    cases hx

/-- A node on the way to `i` is `i`, or on the way to the predecessor of `i`. -/
theorem chain_some {pred : HashMap Nat Nat} {i u : Nat} (hi : pred.lookup i = some u) (c : Nat) :
    ReflTransGen (fun a b => pred.lookup b = some a) c i ↔
      c = i ∨ ReflTransGen (fun a b => pred.lookup b = some a) c u := by
  constructor
  · intro h
    rcases ReflTransGen.cases_tail h with rfl | ⟨x, hcx, hx⟩
    · exact Or.inl rfl
    · rw [hi] at hx
      cases hx
      exact Or.inr hcx
  · rintro (rfl | h)
    · exact .refl
    · exact h.tail hi

/-- The pairs the walk back enters are the predecessor pairs on the way to its start. -/
theorem mem_backWalk {pred : HashMap Nat Nat} {s : Nat} (hs : pred.lookup s = none) {fuel i : Nat}
    {ps : List (Nat × Nat)} (h : backWalk pred s fuel i = some ps) (p c : Nat) :
    (p, c) ∈ ps ↔ pred.lookup c = some p ∧ ReflTransGen (fun a b => pred.lookup b = some a) c i := by
  induction fuel generalizing i ps with
  | zero => cases h
  | succ fuel ih =>
    rcases backWalk_succ_cases h with ⟨hp, rfl⟩ | ⟨u, hp, hstep⟩
    · simp only [List.not_mem_nil, false_iff, not_and]
      intro hc hr
      rw [chain_none hp hr, hp] at hc
      cases hc
    · rw [chain_some hp c]
      rcases hstep with ⟨rfl, rfl⟩ | ⟨-, ps', hps, rfl⟩
      · simp only [List.mem_singleton, Prod.mk.injEq]
        constructor
        · rintro ⟨rfl, rfl⟩
          exact ⟨hp, Or.inl rfl⟩
        · rintro ⟨hc, rfl | hr⟩
          · rw [hp] at hc
            cases hc
            exact ⟨rfl, rfl⟩
          · rw [chain_none hs hr, hs] at hc
            cases hc
      · rw [List.mem_cons, ih hps]
        constructor
        · rintro (he | ⟨hc, hr⟩)
          · cases he
            exact ⟨hp, Or.inl rfl⟩
          · exact ⟨hc, Or.inr hr⟩
        · rintro ⟨hc, rfl | hr⟩
          · rw [hp] at hc
            cases hc
            exact Or.inl rfl
          · exact Or.inr ⟨hc, hr⟩

section
variable {γ : Type} [PetGraph γ] {g : GlobalGraph γ}

/-- The node lies on the way from the source to some subscriber. -/
def OnWay (g : GlobalGraph γ) (pred : HashMap Nat Nat) (subs : List String) (c : Nat) : Prop :=
  ∃ sub ∈ subs, ∃ i, g.nodeIndices.lookup sub = some i ∧
    ReflTransGen (fun a b => pred.lookup b = some a) c i

omit [PetGraph γ] in
theorem onWay_cons (g : GlobalGraph γ) (pred : HashMap Nat Nat) (sub : String) (subs : List String)
    (c : Nat) : g.OnWay pred (sub :: subs) c ↔ g.OnWay pred [sub] c ∨ g.OnWay pred subs c := by
  simp [OnWay]

theorem hasTarget_addSubscriber {pred : HashMap Nat Nat} {s : Nat} (hs : pred.lookup s = none)
    {sub : String} {tree tree' : HashMap String (List String)}
    (h : g.addSubscriber pred s tree sub = .ok tree') (p c : String) :
    HasTarget tree' p c ↔ HasTarget tree p c ∨
      ∃ pi ci, p = g.name pi ∧ c = g.name ci ∧ pred.lookup ci = some pi ∧ g.OnWay pred [sub] ci := by
  unfold addSubscriber at h
  cases hi : g.nodeIndices.lookup sub with
  | none =>
    rw [hi] at h
    cases h
    simp [OnWay, hi]
  | some i =>
    rw [hi] at h
    simp only at h
    cases hb : backWalk pred s g.walkFuel i with
    | none =>
      rw [hb] at h
      cases h
    | some ps =>
      rw [hb] at h
      cases h
      rw [hasTarget_foldl]
      simp only [OnWay, List.mem_singleton, exists_eq_left, hi, Option.some.injEq,
        exists_eq_left', Prod.exists, mem_backWalk hs hb]
      constructor
      · rintro (h2 | ⟨a, b, ⟨h2, h3⟩, h4, h5⟩)
        · exact Or.inl h2
        · exact Or.inr ⟨a, b, h4, h5, h2, h3⟩
      · rintro (h2 | ⟨a, b, h4, h5, h2, h3⟩)
        · exact Or.inl h2
        · exact Or.inr ⟨a, b, ⟨h2, h3⟩, h4, h5⟩

theorem hasTarget_addSubscribers {pred : HashMap Nat Nat} {s : Nat} (hs : pred.lookup s = none)
    (subs : List String) {tree tree' : HashMap String (List String)}
    (h : subs.foldlM (g.addSubscriber pred s) tree = .ok tree') (p c : String) :
    HasTarget tree' p c ↔ HasTarget tree p c ∨
      ∃ pi ci, p = g.name pi ∧ c = g.name ci ∧ pred.lookup ci = some pi ∧ g.OnWay pred subs ci := by
  induction subs generalizing tree with
  | nil =>
    cases h
    simp [OnWay]
  | cons sub subs ih =>
    obtain ⟨t₁, h1, h⟩ := foldlM_cons_ok h
    rw [ih h, hasTarget_addSubscriber hs h1, or_assoc]
    refine or_congr Iff.rfl ?_
    constructor
    · rintro (⟨a, b, h2, h3, h4, h5⟩ | ⟨a, b, h2, h3, h4, h5⟩)
      · exact ⟨a, b, h2, h3, h4, (g.onWay_cons pred sub subs b).mpr (Or.inl h5)⟩
      · exact ⟨a, b, h2, h3, h4, (g.onWay_cons pred sub subs b).mpr (Or.inr h5)⟩
    · rintro ⟨a, b, h2, h3, h4, h5⟩
      rcases (g.onWay_cons pred sub subs b).mp h5 with h5 | h5
      · exact Or.inl ⟨a, b, h2, h3, h4, h5⟩
      · exact Or.inr ⟨a, b, h2, h3, h4, h5⟩

theorem tableEdge_mapValues (tree : HashMap String (List String)) (p c : String) :
    TableEdge (HashMap.mapValues ForwardingTargets.mk tree) p c ↔ HasTarget tree p c := by
  unfold TableEdge HasTarget
  rw [HashMap.lookup_mapValues]
  cases tree.lookup p <;> simp

/-- The targets listed under one parent are pairwise distinct. -/
def DistinctTargets (tree : HashMap String (List String)) : Prop :=
  ∀ p targets, tree.lookup p = some targets → targets.Nodup

theorem distinctTargets_insertTarget {tree : HashMap String (List String)}
    (h : DistinctTargets tree) (a b : String) : DistinctTargets (insertTarget tree a b) := by
  intro p targets hp
  unfold insertTarget at hp
  by_cases hpa : p = a
  · subst hpa
    rw [AList.lookup_insert] at hp
    cases hp
    apply List.Nodup.insert
    cases hl : tree.lookup p with
    | none => simp
    | some cs => exact h p cs hl
  · rw [AList.lookup_insert_ne hpa] at hp
    exact h p targets hp

theorem distinctTargets_foldl (f : Nat → String) (ps : List (Nat × Nat))
    {tree : HashMap String (List String)} (h : DistinctTargets tree) :
    DistinctTargets (ps.foldl (fun t q => insertTarget t (f q.1) (f q.2)) tree) := by
  induction ps generalizing tree with
  | nil => exact h
  | cons q ps ih => exact ih (distinctTargets_insertTarget h _ _)

theorem distinctTargets_addSubscribers {pred : HashMap Nat Nat} {s : Nat} (subs : List String)
    {tree tree' : HashMap String (List String)} (ht : DistinctTargets tree)
    (h : subs.foldlM (g.addSubscriber pred s) tree = .ok tree') : DistinctTargets tree' := by
  induction subs generalizing tree with
  | nil =>
    cases h
    exact ht
  | cons sub subs ih =>
    obtain ⟨t₁, h1, h⟩ := foldlM_cons_ok h
    refine ih ?_ h
    unfold addSubscriber at h1
    split at h1
    · cases h1
      exact ht
    · split at h1
      · cases h1
      · cases h1
        exact distinctTargets_foldl _ _ ht

end

/-! ## What a call leaves behind -/

section
variable {γ : Type} [PetGraph γ] {η : Type}

/-- The labels of the finished search, and the table made from its predecessors. -/
structure Computed (g : GlobalGraph γ) (source : String) (subs : List String) (s : Nat)
    (st : Search η) (table : HashMap NodeId ForwardingTargets) : Prop where
  wf : g.WF
  src : g.nodeIndices.lookup source = some s
  labels : LabelInv g.Edge s u32Max.toNat (fun _ => False) st.labels
  reach : ∀ i c, Walk g.Edge s i c → st.labels.dist i < u32Max.toNat
  edge : ∀ p c, TableEdge table p c ↔ ∃ pi ci, p = g.name pi ∧ c = g.name ci ∧
    st.predecessors.lookup ci = some pi ∧ g.OnWay st.predecessors subs ci
  distinct : ∀ p targets, table.lookup p = some targets → targets.sendTo.Nodup

/-- **The call succeeds.**  A total cost below `u32::MAX` keeps every sum in range. -/
theorem computed_of_totalCost (η : Type) [BinaryHeap η] (b : Build) {g : GlobalGraph γ} (hg : g.WF)
    (htotal : g.totalCost < u32Max.toNat) {source : String} {s : Nat}
    (hs : g.nodeIndices.lookup source = some s) {subs : List String} (hne : subs ≠ []) :
    ∃ (st : Search η) (table : HashMap NodeId ForwardingTargets),
      g.computeForwardingTable η b source subs = .ok table ∧ g.Computed source subs s st table := by
  obtain ⟨st, h1, hL⟩ := g.search_labels η b s (noOverflow_of_totalCost htotal s)
  obtain ⟨tree, h2⟩ := addSubscribers_ok hL subs ∅
  refine ⟨st, _, computeForwardingTable_eq η b hne hs h1 h2, hg, hs, hL,
    fun i c hw => dist_lt_of_walk htotal hL hw, fun p c => ?_, fun p targets hp => ?_⟩
  · rw [tableEdge_mapValues, hasTarget_addSubscribers hL.srcPred subs h2]
    simp [HasTarget]
  · rw [HashMap.lookup_mapValues] at hp
    obtain ⟨cs, hcs, rfl⟩ := Option.map_eq_some_iff.mp hp
    have hempty : DistinctTargets ∅ := fun _ _ h => by simp at h
    exact distinctTargets_addSubscribers subs hempty h2 p cs hcs

variable {g : GlobalGraph γ} {source : String} {subs : List String} {s : Nat} {st : Search η}
  {table : HashMap NodeId ForwardingTargets}

theorem Computed.name_src (h : g.Computed source subs s st table) : g.name s = source :=
  h.wf.name_eq h.src

theorem Computed.src_lt (h : g.Computed source subs s st table) :
    s < (PetGraph.nodeWeights g.graph).length := h.wf.index_lt h.src

/-- Both ends of a predecessor pair are nodes of the graph. -/
theorem Computed.pred_lt (h : g.Computed source subs s st table) {p c : Nat}
    (hp : st.predecessors.lookup c = some p) :
    p < (PetGraph.nodeWeights g.graph).length ∧ c < (PetGraph.nodeWeights g.graph).length := by
  obtain ⟨-, k, he, -⟩ := h.labels.pred c p hp
  exact he.lt

/-- A (parent, child) pair over the indices of its two nodes. -/
theorem Computed.edge_name (h : g.Computed source subs s st table) {i j : Nat}
    (hi : i < (PetGraph.nodeWeights g.graph).length)
    (hj : j < (PetGraph.nodeWeights g.graph).length) :
    TableEdge table (g.name i) (g.name j) ↔
      st.predecessors.lookup j = some i ∧ g.OnWay st.predecessors subs j := by
  rw [h.edge]
  constructor
  · rintro ⟨p, c, hp, hc, h1, h2⟩
    obtain ⟨hpl, hcl⟩ := h.pred_lt h1
    rw [h.wf.name_inj hi hpl hp, h.wf.name_inj hj hcl hc]
    exact ⟨h1, h2⟩
  · rintro ⟨h1, h2⟩
    exact ⟨i, j, rfl, rfl, h1, h2⟩

omit [PetGraph γ] in
theorem OnWay.of_pred {pred : HashMap Nat Nat} {p c : Nat} (h : g.OnWay pred subs c)
    (hp : pred.lookup c = some p) : g.OnWay pred subs p := by
  obtain ⟨sub, hsub, i, hi, hr⟩ := h
  exact ⟨sub, hsub, i, hi, ReflTransGen.head hp hr⟩

/-- A mentioned node is one the search has labelled, on the way to a subscriber. -/
theorem Computed.mentioned (h : g.Computed source subs s st table) {v : NodeId}
    (hv : Mentioned table v) : ∃ i, v = g.name i ∧ i < (PetGraph.nodeWeights g.graph).length ∧
      st.labels.dist i < u32Max.toNat ∧ g.OnWay st.predecessors subs i := by
  obtain ⟨w, hw | hw⟩ := hv
  · obtain ⟨p, c, rfl, -, hp, ho⟩ := (h.edge _ _).mp hw
    exact ⟨p, rfl, (h.pred_lt hp).1, (h.labels.pred_tight hp).1, ho.of_pred hp⟩
  · obtain ⟨p, c, -, rfl, hp, ho⟩ := (h.edge _ _).mp hw
    exact ⟨c, rfl, (h.pred_lt hp).2, (h.labels.pred c p hp).1, ho⟩

/-- Along the table's own links, the cost of reaching a node is its distance label. -/
theorem Computed.tableWalk_cost (h : g.Computed source subs s st table) {v : NodeId} {c : Nat}
    (hw : Walk (fun u v k => TableEdge table u v ∧ g.Link u v k) source v c) :
    ∃ i, v = g.name i ∧ i < (PetGraph.nodeWeights g.graph).length ∧ c = st.labels.dist i := by
  induction hw with
  | nil => exact ⟨s, h.name_src.symm, h.src_lt, h.labels.src.symm⟩
  | snoc _ he ih =>
    obtain ⟨i, rfl, hi, rfl⟩ := ih
    obtain ⟨ht, hl⟩ := he
    obtain ⟨j, rfl, hij⟩ := h.wf.edge_of_link hi hl
    obtain ⟨-, k, hk, hd⟩ := h.labels.pred_tight ((h.edge_name hi hij.lt.2).mp ht).1
    rw [h.wf.edge_unique hij hk]
    exact ⟨j, rfl, hij.lt.2, hd⟩

/-- A labelled node on the way to a subscriber is reached along the table's own links. -/
theorem Computed.exists_tableWalk (h : g.Computed source subs s st table) {i : Nat}
    (hi : st.labels.dist i < u32Max.toNat) (ho : g.OnWay st.predecessors subs i) :
    Walk (fun u v k => TableEdge table u v ∧ g.Link u v k) source (g.name i)
      (st.labels.dist i) := by
  have hr := h.labels.rooted i hi
  induction hr with
  | root =>
    rw [h.name_src, h.labels.src]
    exact .nil
  | @step u v hp _ ih =>
    obtain ⟨hu, k, hk, hd⟩ := h.labels.pred_tight hp
    have huv := (h.edge_name hk.lt.1 hk.lt.2).mpr ⟨hp, ho⟩
    rw [← hd]
    exact .snoc (ih hu (ho.of_pred hp)) ⟨huv, link_of_edge hk⟩

theorem Computed.tableEdge_of_reflTransGen (h : g.Computed source subs s st table) {i j : Nat}
    (hr : ReflTransGen (fun a b => st.predecessors.lookup b = some a) i j)
    (ho : g.OnWay st.predecessors subs j) : ReflTransGen (TableEdge table) (g.name i) (g.name j) := by
  induction hr using ReflTransGen.head_induction_on with
  | refl => exact .refl
  | @head a c hac hcj ih =>
    have hc : g.OnWay st.predecessors subs c := by
      obtain ⟨sub, hsub, t, ht, hjt⟩ := ho
      exact ⟨sub, hsub, t, ht, hcj.trans hjt⟩
    obtain ⟨hal, hcl⟩ := h.pred_lt hac
    exact .head ((h.edge_name hal hcl).mpr ⟨hac, hc⟩) ih

/-! ## The tree -/

/-- The table is a tree of least-cost paths from `source` to the reachable subscribers, and
holds nothing else. -/
structure IsLeastCostTree (g : GlobalGraph γ) (source : String) (subs : List String)
    (table : HashMap NodeId ForwardingTargets) : Prop where
  root : ∀ p, ¬ TableEdge table p source
  parent : ∀ v, Mentioned table v → v ≠ source → ∃! p, TableEdge table p v
  acyclic : ∀ v, ¬ TransGen (TableEdge table) v v
  rooted : ∀ v, Mentioned table v → ReflTransGen (TableEdge table) source v
  leaves : ∀ v, Mentioned table v → (∀ c, ¬ TableEdge table v c) → v ∈ subs
  spans : ∀ sub ∈ subs, sub ≠ source →
    (Mentioned table sub ↔ ∃ c, Walk g.Link source sub c)
  least : ∀ sub ∈ subs, Mentioned table sub →
    ∃ d, Walk (fun u v k => TableEdge table u v ∧ g.Link u v k) source sub d ∧
      (∀ d', Walk (fun u v k => TableEdge table u v ∧ g.Link u v k) source sub d' → d' = d) ∧
      ∀ c, Walk g.Link source sub c → d ≤ c
  needed : ∀ p c, TableEdge table p c →
    ∃ sub ∈ subs, (∃ k, Walk g.Link source sub k) ∧ ReflTransGen (TableEdge table) c sub
  distinct : ∀ p targets, table.lookup p = some targets → targets.sendTo.Nodup

theorem Computed.root (h : g.Computed source subs s st table) (p : NodeId) :
    ¬ TableEdge table p source := by
  intro he
  obtain ⟨a, c, -, hc, hp, -⟩ := (h.edge _ _).mp he
  rw [← h.name_src] at hc
  have hcs := h.wf.name_inj h.src_lt (h.pred_lt hp).2 hc
  subst hcs
  have := h.labels.srcPred
  change st.predecessors.lookup s = none at this
  rw [this] at hp
  cases hp

theorem Computed.parent_unique (h : g.Computed source subs s st table) {v p q : NodeId}
    (hp : TableEdge table p v) (hq : TableEdge table q v) : p = q := by
  obtain ⟨a, c, rfl, rfl, hac, -⟩ := (h.edge _ _).mp hp
  obtain ⟨b, d, rfl, hd, hbd, -⟩ := (h.edge _ _).mp hq
  rw [← h.wf.name_inj (h.pred_lt hac).2 (h.pred_lt hbd).2 hd, hac] at hbd
  cases hbd
  rfl

theorem Computed.rooted (h : g.Computed source subs s st table) {v : NodeId}
    (hv : Mentioned table v) : ReflTransGen (TableEdge table) source v := by
  obtain ⟨i, rfl, -, hd, ho⟩ := h.mentioned hv
  have hw := h.exists_tableWalk hd ho
  generalize st.labels.dist i = c at hw
  generalize g.name i = v at hw
  induction hw with
  | nil => exact .refl
  | snoc _ he ih => exact .tail ih he.1

theorem Computed.acyclic (h : g.Computed source subs s st table) (v : NodeId) :
    ¬ TransGen (TableEdge table) v v := by
  intro hc
  -- over indices the cycle is one of predecessors
  have hidx : ∀ {a b : NodeId}, TransGen (TableEdge table) a b → ∃ i j, a = g.name i ∧
      b = g.name j ∧ TransGen (fun x y => st.predecessors.lookup y = some x) i j := by
    intro a b hab
    induction hab with
    | single he =>
      obtain ⟨i, j, rfl, rfl, hp, -⟩ := (h.edge _ _).mp he
      exact ⟨i, j, rfl, rfl, .single hp⟩
    | tail _ he ih =>
      obtain ⟨i, j, rfl, rfl, hr⟩ := ih
      obtain ⟨j', k, hj, rfl, hp, -⟩ := (h.edge _ _).mp he
      obtain ⟨x, -, hx⟩ := TransGen.tail'_iff.mp hr
      have hjj := h.wf.name_inj (h.pred_lt hx).2 (h.pred_lt hp).1 hj
      subst hjj
      exact ⟨i, k, rfl, rfl, hr.tail hp⟩
  obtain ⟨i, j, rfl, hj, hr⟩ := hidx hc
  obtain ⟨x, hx, -⟩ := TransGen.head'_iff.mp hr
  obtain ⟨y, -, hy⟩ := TransGen.tail'_iff.mp hr
  have hij := h.wf.name_inj (h.pred_lt hx).1 (h.pred_lt hy).2 hj
  subst hij
  exact (h.labels.rooted i (h.labels.pred i y hy).1).acyclic h.labels.srcPred hr

theorem Computed.leaves (h : g.Computed source subs s st table) {v : NodeId}
    (hv : Mentioned table v) (hleaf : ∀ c, ¬ TableEdge table v c) : v ∈ subs := by
  obtain ⟨i, rfl, -, -, sub, hsub, t, ht, hr⟩ := h.mentioned hv
  rcases ReflTransGen.cases_head hr with rfl | ⟨j, hij, hjt⟩
  · rwa [h.wf.name_eq ht]
  · exact absurd ((h.edge_name (h.pred_lt hij).1 (h.pred_lt hij).2).mpr
      ⟨hij, sub, hsub, t, ht, hjt⟩) (hleaf _)

/-- The index of a named node a walk leads to. -/
theorem Computed.walk_index (h : g.Computed source subs s st table) {v : NodeId} {c : Nat}
    (hw : Walk g.Link source v c) :
    ∃ i, i < (PetGraph.nodeWeights g.graph).length ∧ v = g.name i ∧ Walk g.Edge s i c := by
  rw [← h.name_src] at hw
  exact h.wf.walk_edge_of_link h.src_lt hw

theorem Computed.spans (h : g.Computed source subs s st table) {sub : NodeId} (hsub : sub ∈ subs)
    (hne : sub ≠ source) : Mentioned table sub ↔ ∃ c, Walk g.Link source sub c := by
  constructor
  · intro hv
    obtain ⟨i, rfl, -, hd, -⟩ := h.mentioned hv
    have hw := walk_link_of_edge (h.labels.walk i hd)
    rw [h.name_src] at hw
    exact ⟨_, hw⟩
  · rintro ⟨c, hw⟩
    obtain ⟨i, hi, rfl, hw'⟩ := h.walk_index hw
    have ho : g.OnWay st.predecessors subs i := ⟨_, hsub, i, h.wf.lookup_name hi, .refl⟩
    cases h.labels.rooted i (h.reach i c hw') with
    | root => exact absurd h.name_src hne
    | @step u _ hp _ =>
      exact ⟨g.name u, Or.inr ((h.edge_name (h.pred_lt hp).1 hi).mpr ⟨hp, ho⟩)⟩

theorem Computed.least (h : g.Computed source subs s st table) {v : NodeId}
    (hv : Mentioned table v) :
    ∃ d, Walk (fun u v k => TableEdge table u v ∧ g.Link u v k) source v d ∧
      (∀ d', Walk (fun u v k => TableEdge table u v ∧ g.Link u v k) source v d' → d' = d) ∧
      ∀ c, Walk g.Link source v c → d ≤ c := by
  obtain ⟨i, rfl, hi, hd, ho⟩ := h.mentioned hv
  refine ⟨_, h.exists_tableWalk hd ho, fun d' hw => ?_, fun c hw => ?_⟩
  · obtain ⟨j, hj, hjl, rfl⟩ := h.tableWalk_cost hw
    rw [h.wf.name_inj hi hjl hj]
  · obtain ⟨j, hjl, hj, hw'⟩ := h.walk_index hw
    rw [h.wf.name_inj hi hjl hj]
    exact h.labels.dist_le_walk hw'

theorem Computed.needed (h : g.Computed source subs s st table) {p c : NodeId}
    (he : TableEdge table p c) :
    ∃ sub ∈ subs, (∃ k, Walk g.Link source sub k) ∧ ReflTransGen (TableEdge table) c sub := by
  obtain ⟨i, j, -, rfl, hp, sub, hsub, t, ht, hr⟩ := (h.edge _ _).mp he
  have hlab : st.labels.dist t < u32Max.toNat := by
    rcases ReflTransGen.cases_tail hr with rfl | ⟨x, -, hx⟩
    · exact (h.labels.pred _ i hp).1
    · exact (h.labels.pred t x hx).1
  refine ⟨sub, hsub, ⟨st.labels.dist t, ?_⟩, ?_⟩
  · rw [← h.wf.name_eq ht, ← h.name_src]
    exact walk_link_of_edge (h.labels.walk t hlab)
  · rw [← h.wf.name_eq ht]
    exact h.tableEdge_of_reflTransGen hr ⟨sub, hsub, t, ht, .refl⟩

theorem Computed.isLeastCostTree (h : g.Computed source subs s st table) :
    g.IsLeastCostTree source subs table where
  root := h.root
  parent v hv hne := by
    rcases ReflTransGen.cases_tail (h.rooted hv) with rfl | ⟨p, -, hp⟩
    · exact absurd rfl hne
    · exact ⟨p, hp, fun q hq => h.parent_unique hq hp⟩
  acyclic := h.acyclic
  rooted _ hv := h.rooted hv
  leaves _ hv hleaf := h.leaves hv hleaf
  spans _ hsub hne := h.spans hsub hne
  least _ _ hv := h.least hv
  needed _ _ he := h.needed he
  distinct := h.distinct

/-- **Least-cost tree.**  Whatever order equal-cost heap entries and the edges of a node are
visited in, the returned table is a minimal tree of least-cost paths. -/
theorem computeForwardingTable_leastCostTree (η : Type) [BinaryHeap η] (b : Build)
    {g : GlobalGraph γ} (hg : g.Reachable) (htotal : g.totalCost < u32Max.toNat) {source : String}
    {s : Nat} (hs : g.nodeIndices.lookup source = some s) {subs : List String} (hne : subs ≠ []) :
    ∃ table, g.computeForwardingTable η b source subs = .ok table ∧
      g.IsLeastCostTree source subs table := by
  obtain ⟨st, table, h1, h2⟩ := computed_of_totalCost η b (reachable_wf hg) htotal hs hne
  exact ⟨table, h1, h2.isLeastCostTree⟩

end

/-- `A — B`, `B — C` and `B — D`. -/
def starUpdate : TopologyUpdate where
  originNodeId := "A"
  epoch := 1
  nodesAdded := []
  nodesRemoved := []
  linksAdded := [⟨"A", "B", 10, 0⟩, ⟨"B", "C", 5, 0⟩, ⟨"B", "D", 15, 0⟩]
  linksRemoved := []

def starGraph : GlobalGraph VecGraph := [starUpdate].foldl applyUpdate new

theorem starGraph_reachable : starGraph.Reachable :=
  Reachable.applyUpdate Reachable.new starUpdate

theorem leastCostTree_star :
    ∃ table, starGraph.computeForwardingTable ListHeap .debug "A" ["C", "D"] = .ok table ∧
      starGraph.IsLeastCostTree "A" ["C", "D"] table :=
  computeForwardingTable_leastCostTree (s := 0) ListHeap .debug starGraph_reachable
    (by decide) (by decide) (by decide)

end GlobalGraph

end Stric.Flow
