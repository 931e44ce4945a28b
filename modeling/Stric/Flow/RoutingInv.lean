import Stric.Flow.Routing
import Stric.Flow.GraphInv
import Stric.Pool.Labels
import Mathlib.Algebra.Order.BigOperators.Group.Finset

/-!
# The search computes capped shortest-path labels

`Search.labels` reads the two maps of the search as labels (`Pool.Labels`) over node
indices, with `u32::MAX` as the cap; `SearchInv` adds what holds of the heap.

* `searchLoop_total`: the loop ends, whatever the costs are and however additions wrap.
* `search_labels`: when no sum leaves `u32` (`NoOverflow`), the search returns exact
  labels, in both builds.
* `search_debug_labels`: when the debug build returns at all, it returns exact labels;
  then no sum has left `u32` (`noOverflow_of_labels`).
-/

namespace Stric.Flow

open Stric.Pool

/-- The first turn of a fold that succeeds, and the others. -/
theorem foldlM_cons_ok {ε α β : Type} {f : β → α → Except ε β} {a : α} {as : List α} {b b' : β}
    (h : (a :: as).foldlM f b = .ok b') :
    ∃ b₁, f b a = .ok b₁ ∧ as.foldlM f b₁ = .ok b' := by
  rw [List.foldlM_cons] at h
  cases h1 : f b a with
  | error e =>
    rw [h1] at h
    cases h
  | ok b₁ =>
    rw [h1] at h
    exact ⟨b₁, rfl, h⟩

/-! ## `u32` additions -/

theorem Build.add_ok (b : Build) {x y : UInt32} (h : x.toNat + y.toNat ≤ u32Max.toNat) :
    b.add x y = .ok (x + y) ∧ (x + y).toNat = x.toNat + y.toNat := by
  have hm : u32Max.toNat = 4294967295 := rfl
  have hlt : x.toNat + y.toNat < 4294967296 := by omega
  refine ⟨?_, ?_⟩
  · cases b with
    | debug => exact if_pos hlt
    | release => rfl
  · rw [UInt32.toNat_add]
    exact Nat.mod_eq_of_lt hlt

theorem Build.add_debug {x y z : UInt32} (h : Build.debug.add x y = .ok z) :
    x.toNat + y.toNat ≤ u32Max.toNat := by
  have hm : u32Max.toNat = 4294967295 := rfl
  simp only [Build.add] at h
  split at h
  · omega
  · cases h

namespace GlobalGraph

variable {γ : Type} [PetGraph γ] (g : GlobalGraph γ)

/-- The penalised cost of an edge: `hop_cost`, plus 10000 into an aggregator. -/
def linkCost (e : EdgeRef) : Nat :=
  e.weight.hopCost.toNat + if g.isAggregator (g.name e.target) then 10000 else 0

/-- The edges with their penalised costs, over node indices. -/
def Edge (u v k : Nat) : Prop :=
  ∃ e ∈ PetGraph.edgeReferences g.graph, e.source = u ∧ e.target = v ∧ g.linkCost e = k

theorem mem_edges_iff (u : Nat) (e : EdgeRef) :
    e ∈ PetGraph.edges g.graph u ↔ e ∈ PetGraph.edgeReferences g.graph ∧ e.source = u := by
  rw [(PetGraph.edges_perm g.graph u).mem_iff, List.mem_filter]
  simp

theorem edge_of_mem {u : Nat} {e : EdgeRef} (h : e ∈ PetGraph.edges g.graph u) :
    g.Edge u e.target (g.linkCost e) := by
  obtain ⟨h1, h2⟩ := (g.mem_edges_iff u e).mp h
  exact ⟨e, h1, h2, rfl, rfl⟩

theorem edge_iff (u v k : Nat) :
    g.Edge u v k ↔ ∃ e ∈ PetGraph.edges g.graph u, e.target = v ∧ g.linkCost e = k := by
  constructor
  · rintro ⟨e, h1, h2, h3, h4⟩
    exact ⟨e, (g.mem_edges_iff u e).mpr ⟨h1, h2⟩, h3, h4⟩
  · rintro ⟨e, h1, rfl, rfl⟩
    exact g.edge_of_mem h1

theorem edgeCost_ok (b : Build) (e : EdgeRef) (h : g.linkCost e ≤ u32Max.toNat) :
    ∃ c, g.edgeCost b e = .ok c ∧ c.toNat = g.linkCost e := by
  unfold edgeCost
  unfold linkCost at h ⊢
  split
  · next hagg =>
    rw [if_pos hagg] at h
    obtain ⟨h1, h2⟩ := b.add_ok (x := e.weight.hopCost) (y := 10000) h
    exact ⟨_, h1, h2⟩
  · exact ⟨_, rfl, by simp⟩

theorem edgeCost_debug {e : EdgeRef} {c : UInt32} (h : g.edgeCost .debug e = .ok c) :
    c.toNat = g.linkCost e := by
  have hle : g.linkCost e ≤ u32Max.toNat := by
    unfold edgeCost at h
    unfold linkCost
    split at h
    · next hagg =>
      rw [if_pos hagg]
      exact Build.add_debug h
    · next hagg =>
      rw [if_neg hagg]
      have := e.weight.hopCost.toNat_lt
      have hm : u32Max.toNat = 4294967295 := rfl
      omega
  obtain ⟨c', h1, h2⟩ := g.edgeCost_ok .debug e hle
  rw [h] at h1
  cases h1
  exact h2

end GlobalGraph

/-! ## Labels of a search state -/

section
variable {η : Type} [BinaryHeap η]

def Search.dist (st : Search η) (i : Nat) : UInt32 := (st.distances.lookup i).getD u32Max

def Search.labels (st : Search η) : Labels Nat where
  dist := fun i => (st.dist i).toNat
  pred := fun i => st.predecessors.lookup i

/-- The heap holds an entry with `v`'s current distance. -/
def Search.opened (st : Search η) (v : Nat) : Prop :=
  ∃ s ∈ BinaryHeap.contents st.heap, s.nodeIdx = v ∧ s.cost = st.dist v

/-- The state a relaxation over an edge into `v` leads to. -/
def Search.reach (st : Search η) (u v : Nat) (d : UInt32) : Search η where
  distances := st.distances.insert v d
  predecessors := st.predecessors.insert v u
  heap := BinaryHeap.push st.heap ⟨d, v⟩

theorem Search.reach_dist (st : Search η) (u v : Nat) (d : UInt32) :
    (st.reach u v d).dist = Function.update st.dist v d := by
  funext i
  unfold Search.dist Search.reach
  by_cases hi : i = v
  · subst hi
    simp [AList.lookup_insert]
  · rw [Function.update_of_ne hi]
    simp only [AList.lookup_insert_ne hi]

theorem Search.reach_labels (st : Search η) (u v : Nat) (d : UInt32) :
    (st.reach u v d).labels = st.labels.set u v d.toNat := by
  unfold Search.labels Labels.set
  congr 1
  · rw [Search.reach_dist]
    funext i
    by_cases hi : i = v
    · subst hi
      simp
    · simp [Function.update_of_ne hi]
  · funext i
    by_cases hi : i = v
    · subst hi
      simp [Search.reach, AList.lookup_insert]
    · rw [Function.update_of_ne hi]
      simp only [Search.reach, AList.lookup_insert_ne hi]

theorem Search.mem_reach_heap (st : Search η) (u v : Nat) (d : UInt32) (s : DijkstraState) :
    s ∈ BinaryHeap.contents (st.reach u v d).heap ↔
      s = ⟨d, v⟩ ∨ s ∈ BinaryHeap.contents st.heap := by
  rw [← List.mem_cons]
  exact (BinaryHeap.push_perm st.heap ⟨d, v⟩).mem_iff

end

/-! ## One edge -/

namespace GlobalGraph

section
variable {γ : Type} [PetGraph γ] (g : GlobalGraph γ) {η : Type} [BinaryHeap η]

/-- What `relaxEdge` can do: fail on one of its additions, leave the state alone, or store
a smaller distance. -/
theorem relaxEdge_cases (b : Build) (cost : UInt32) (u : Nat) (st st' : Search η) (e : EdgeRef)
    (h : g.relaxEdge b cost u st e = .ok st') :
    ∃ c d, g.edgeCost b e = .ok c ∧ b.add cost c = .ok d ∧
      ((d < st.dist e.target ∧ st' = st.reach u e.target d) ∨
        (¬ d < st.dist e.target ∧ st' = st)) := by
  unfold relaxEdge at h
  cases hc : g.edgeCost b e with
  | error f => rw [hc] at h; cases h
  | ok c =>
    rw [hc] at h
    cases hd : b.add cost c with
    | error f =>
      simp only [bind, Except.bind, hd] at h
      cases h
    | ok d =>
      simp only [bind, Except.bind, hd] at h
      refine ⟨c, d, rfl, hd, ?_⟩
      split at h
      · next hlt =>
        cases h
        exact Or.inl ⟨hlt, rfl⟩
      · next hlt =>
        cases h
        exact Or.inr ⟨hlt, rfl⟩

theorem relaxEdge_ok (b : Build) (cost : UInt32) (u : Nat) (st : Search η) (e : EdgeRef)
    (h : cost.toNat + g.linkCost e ≤ u32Max.toNat) : ∃ st', g.relaxEdge b cost u st e = .ok st' := by
  obtain ⟨c, hc, hcn⟩ := g.edgeCost_ok b e (by omega)
  obtain ⟨hd, -⟩ := b.add_ok (x := cost) (y := c) (by omega)
  unfold relaxEdge
  simp only [hc, hd, bind, Except.bind]
  split
  · exact ⟨_, rfl⟩
  · exact ⟨_, rfl⟩

theorem relaxEdge_debug {cost : UInt32} {u : Nat} {st st' : Search η} {e : EdgeRef}
    (h : g.relaxEdge .debug cost u st e = .ok st') :
    cost.toNat + g.linkCost e ≤ u32Max.toNat := by
  obtain ⟨c, d, hc, hd, -⟩ := g.relaxEdge_cases .debug cost u st st' e h
  have := g.edgeCost_debug hc
  have := Build.add_debug hd
  omega

/-! ## The loop ends -/

/-- Entries on the heap, plus twice the sum of all distances. -/
def potential (st : Search η) : Nat :=
  (BinaryHeap.contents st.heap).length +
    2 * ∑ i ∈ Finset.range (PetGraph.nodeWeights g.graph).length, (st.dist i).toNat

theorem potential_relaxEdge {b : Build} {cost : UInt32} {u : Nat} {st st' : Search η} {e : EdgeRef}
    (he : e ∈ PetGraph.edgeReferences g.graph) (h : g.relaxEdge b cost u st e = .ok st') :
    g.potential st' ≤ g.potential st := by
  obtain ⟨c, d, -, -, ⟨hlt, rfl⟩ | ⟨-, rfl⟩⟩ := g.relaxEdge_cases b cost u st st' e h
  · have hlt' : d.toNat < (st.dist e.target).toNat := UInt32.lt_iff_toNat_lt.mp hlt
    have hupd : ∀ i, ((st.reach u e.target d).dist i).toNat ≤ (st.dist i).toNat := by
      intro i
      rw [Search.reach_dist]
      by_cases hi : i = e.target
      · subst hi
        rw [Function.update_self]
        omega
      · rw [Function.update_of_ne hi]
    have hsum : ∑ i ∈ Finset.range (PetGraph.nodeWeights g.graph).length,
        ((st.reach u e.target d).dist i).toNat <
        ∑ i ∈ Finset.range (PetGraph.nodeWeights g.graph).length, (st.dist i).toNat := by
      refine Finset.sum_lt_sum (fun i _ => hupd i) ⟨e.target, ?_, ?_⟩
      · exact Finset.mem_range.mpr (PetGraph.edge_bounds g.graph e he).2
      · rw [Search.reach_dist, Function.update_self]
        exact hlt'
    have hlen : (BinaryHeap.contents (st.reach u e.target d).heap).length =
        (BinaryHeap.contents st.heap).length + 1 :=
      (BinaryHeap.push_perm st.heap ⟨d, e.target⟩).length_eq
    unfold potential
    omega
  · exact Nat.le_refl _

theorem potential_foldlM {b : Build} {cost : UInt32} {u : Nat} (es : List EdgeRef)
    (hes : ∀ e ∈ es, e ∈ PetGraph.edgeReferences g.graph) {st st' : Search η}
    (h : es.foldlM (g.relaxEdge b cost u) st = .ok st') : g.potential st' ≤ g.potential st := by
  induction es generalizing st with
  | nil =>
    cases h
    exact Nat.le_refl _
  | cons e es ih =>
    obtain ⟨st₁, h1, h⟩ := foldlM_cons_ok h
    have := g.potential_relaxEdge (hes e List.mem_cons_self) h1
    have := ih (fun e' he' => hes e' (List.mem_cons_of_mem _ he')) h
    omega

theorem potential_pop {st : Search η} {s : DijkstraState} {heap : η}
    (h : BinaryHeap.pop st.heap = some (s, heap)) :
    g.potential { st with heap := heap } + 1 = g.potential st := by
  have hlen := (BinaryHeap.pop_some _ _ _ h).1.length_eq
  simp only [List.length_cons] at hlen
  unfold potential
  simp only [hlen]
  show _ + 2 * ∑ i ∈ _, (st.dist i).toNat + 1 = _
  omega

theorem foldlM_no_diverge {b : Build} {cost : UInt32} {u : Nat} (es : List EdgeRef)
    (st : Search η) : es.foldlM (g.relaxEdge b cost u) st ≠ .error .diverges := by
  have hadd : ∀ x y, b.add x y ≠ .error .diverges := by
    intro x y
    cases b with
    | debug =>
      simp only [Build.add]
      split <;> simp
    | release => simp [Build.add]
  have hone : ∀ (st : Search η) (e : EdgeRef), g.relaxEdge b cost u st e ≠ .error .diverges := by
    intro st e he
    unfold relaxEdge at he
    cases hc : g.edgeCost b e with
    | error f =>
      rw [hc] at he
      cases he
      unfold edgeCost at hc
      split at hc
      · exact hadd _ _ hc
      · cases hc
    | ok c =>
      rw [hc] at he
      cases hd : b.add cost c with
      | error f =>
        simp only [bind, Except.bind, hd] at he
        cases he
        exact hadd _ _ hd
      | ok d =>
        simp only [bind, Except.bind, hd] at he
        split at he <;> cases he
  induction es generalizing st with
  | nil => simp [pure, Except.pure]
  | cons e es ih =>
    rw [List.foldlM_cons]
    cases h1 : g.relaxEdge b cost u st e with
    | error f =>
      intro h
      cases h
      exact hone st e h1
    | ok st₁ => exact ih st₁

/-- **The search loop ends**, in every build and for all costs: its fuel is not used up. -/
theorem searchLoop_total (b : Build) (fuel : Nat) (st : Search η) (h : g.potential st < fuel) :
    g.searchLoop b fuel st ≠ .error .diverges := by
  induction fuel generalizing st with
  | zero => omega
  | succ fuel ih =>
    unfold searchLoop
    cases hp : BinaryHeap.pop st.heap with
    | none => simp
    | some p =>
      obtain ⟨⟨cost, u⟩, heap⟩ := p
      have hpot := g.potential_pop hp
      simp only
      split
      · exact ih _ (by omega)
      · cases hf : (PetGraph.edges g.graph u).foldlM (g.relaxEdge b cost u)
            { st with heap := heap } with
        | error f =>
          intro he
          cases he
          exact g.foldlM_no_diverge _ _ hf
        | ok st' =>
          have := g.potential_foldlM _ (fun e he => ((g.mem_edges_iff u e).mp he).1) hf
          exact ih st' (by omega)

/-! ## The invariant of the search -/

/-- Labels are right up to the open vertices, which have an entry on the heap or are in
`extra`; no entry is below its node's distance, and none is at the cap. -/
structure SearchInv (s : Nat) (extra : Nat → Prop) (st : Search η) : Prop where
  labels : LabelInv g.Edge s u32Max.toNat (fun v => st.opened v ∨ extra v) st.labels
  heap : ∀ x ∈ BinaryHeap.contents st.heap, st.dist x.nodeIdx ≤ x.cost ∧ x.cost < u32Max

/-- Every edge that leaves a node reached below the cap can end some walk from `s` whose
cost fits into `u32`. -/
def NoOverflow (s : Nat) : Prop :=
  ∀ u v k c, Walk g.Edge s u c → c < u32Max.toNat → g.Edge u v k →
    ∃ c', Walk g.Edge s u c' ∧ c' + k ≤ u32Max.toNat

variable {g}

theorem SearchInv.reach {s u : Nat} {st : Search η} (hI : g.SearchInv s (fun v => v = u) st)
    {v k : Nat} {d : UInt32} (he : g.Edge u v k) (hu : (st.dist u).toNat < u32Max.toNat)
    (hd : d.toNat = (st.dist u).toNat + k) (hlt : d < st.dist v) :
    g.SearchInv s (fun v => v = u) (st.reach u v d) := by
  have hltN : d.toNat < (st.dist v).toNat := UInt32.lt_iff_toNat_lt.mp hlt
  have hcap : (st.dist v).toNat ≤ u32Max.toNat := hI.labels.cap v
  have hself : (st.reach u v d).dist v = d := by rw [Search.reach_dist, Function.update_self]
  have hne : ∀ x, x ≠ v → (st.reach u v d).dist x = st.dist x :=
    fun x hx => by rw [Search.reach_dist, Function.update_of_ne hx]
  constructor
  · have hrel := hI.labels.relax (u := u) (v := v) (k := k) he hu (by
      show (st.dist u).toNat + k < (st.dist v).toNat
      omega)
    have hlab : (st.reach u v d).labels = st.labels.set u v (st.labels.dist u + k) := by
      rw [Search.reach_labels, hd]
      rfl
    rw [hlab]
    refine hrel.close fun x _ hx => Or.inl ?_
    rcases hx with (⟨t, ht, rfl, htc⟩ | hx) | rfl
    · by_cases htv : t.nodeIdx = v
      · exact Or.inl ⟨⟨d, v⟩, (st.mem_reach_heap u v d _).mpr (Or.inl rfl), htv.symm,
          by rw [htv, hself]⟩
      · exact Or.inl ⟨t, (st.mem_reach_heap u v d _).mpr (Or.inr ht), rfl, by rw [hne _ htv, htc]⟩
    · exact Or.inr hx
    · exact Or.inl ⟨⟨d, x⟩, (st.mem_reach_heap u x d _).mpr (Or.inl rfl), rfl, hself.symm⟩
  · intro x hx
    rcases (st.mem_reach_heap u v d x).mp hx with rfl | hx
    · refine ⟨by rw [hself]; exact UInt32.le_refl _, ?_⟩
      rw [UInt32.lt_iff_toNat_lt]
      show d.toNat < u32Max.toNat
      omega
    · obtain ⟨h1, h2⟩ := hI.heap x hx
      refine ⟨?_, h2⟩
      by_cases hxv : x.nodeIdx = v
      · rw [hxv] at h1 ⊢
        rw [hself]
        exact UInt32.le_of_lt (UInt32.lt_of_lt_of_le hlt h1)
      · rw [hne _ hxv]
        exact h1

/-- One edge out of the node that is being expanded. -/
theorem SearchInv.relaxEdge {s u : Nat} {st st' : Search η} {b : Build} {cost : UInt32}
    {e : EdgeRef} (hI : g.SearchInv s (fun v => v = u) st) (hcost : st.dist u = cost)
    (hlt : cost < u32Max) (he : e ∈ PetGraph.edges g.graph u)
    (hsum : cost.toNat + g.linkCost e ≤ u32Max.toNat) (h : g.relaxEdge b cost u st e = .ok st') :
    g.SearchInv s (fun v => v = u) st' ∧ st'.dist u = cost ∧
      (∀ i, (st'.dist i).toNat ≤ (st.dist i).toNat) ∧
      (st'.dist e.target).toNat ≤ cost.toNat + g.linkCost e := by
  obtain ⟨c, hc, hcn⟩ := g.edgeCost_ok b e (by omega)
  obtain ⟨hd, hdn⟩ := b.add_ok (x := cost) (y := c) (by omega)
  obtain ⟨c', d, hc', hd', hcase⟩ := g.relaxEdge_cases b cost u st st' e h
  rw [hc] at hc'
  cases hc'
  rw [hd] at hd'
  cases hd'
  rcases hcase with ⟨hlt', rfl⟩ | ⟨hge, rfl⟩
  · have hltN : (cost + c).toNat < (st.dist e.target).toNat := UInt32.lt_iff_toNat_lt.mp hlt'
    have hne : u ≠ e.target := by
      rintro rfl
      rw [hcost] at hltN
      omega
    refine ⟨hI.reach (g.edge_of_mem he) ?_ ?_ hlt', ?_, ?_, ?_⟩
    · rw [hcost]
      exact UInt32.lt_iff_toNat_lt.mp hlt
    · rw [hcost, hdn, hcn]
    · rw [Search.reach_dist, Function.update_of_ne hne, hcost]
    · intro i
      rw [Search.reach_dist]
      by_cases hi : i = e.target
      · subst hi
        rw [Function.update_self]
        omega
      · rw [Function.update_of_ne hi]
    · rw [Search.reach_dist, Function.update_self]
      omega
  · refine ⟨hI, hcost, fun i => Nat.le_refl _, ?_⟩
    have := mt UInt32.lt_iff_toNat_lt.mpr hge
    omega

/-- All edges out of the node that is being expanded. -/
theorem SearchInv.foldlM {s u : Nat} {b : Build} {cost : UInt32} (hlt : cost < u32Max)
    (es : List EdgeRef) (hes : ∀ e ∈ es, e ∈ PetGraph.edges g.graph u)
    (hsum : ∀ e ∈ es, cost.toNat + g.linkCost e ≤ u32Max.toNat) {st st' : Search η}
    (hI : g.SearchInv s (fun v => v = u) st) (hcost : st.dist u = cost)
    (h : es.foldlM (g.relaxEdge b cost u) st = .ok st') :
    g.SearchInv s (fun v => v = u) st' ∧ st'.dist u = cost ∧
      (∀ i, (st'.dist i).toNat ≤ (st.dist i).toNat) ∧
      ∀ e ∈ es, (st'.dist e.target).toNat ≤ cost.toNat + g.linkCost e := by
  induction es generalizing st with
  | nil =>
    cases h
    exact ⟨hI, hcost, fun _ => Nat.le_refl _, by simp⟩
  | cons e es ih =>
    obtain ⟨st₁, h1, h⟩ := foldlM_cons_ok h
    obtain ⟨hI1, hc1, hle1, he1⟩ := hI.relaxEdge hcost hlt (hes e List.mem_cons_self)
      (hsum e List.mem_cons_self) h1
    obtain ⟨hI2, hc2, hle2, he2⟩ := ih (fun e' he' => hes e' (List.mem_cons_of_mem _ he'))
      (fun e' he' => hsum e' (List.mem_cons_of_mem _ he')) hI1 hc1 h
    refine ⟨hI2, hc2, fun i => Nat.le_trans (hle2 i) (hle1 i), fun e' he' => ?_⟩
    rcases List.mem_cons.mp he' with rfl | he'
    · exact Nat.le_trans (hle2 _) he1
    · exact he2 e' he'

theorem foldlM_ok {b : Build} {cost : UInt32} {u : Nat} (es : List EdgeRef)
    (hsum : ∀ e ∈ es, cost.toNat + g.linkCost e ≤ u32Max.toNat) (st : Search η) :
    ∃ st', es.foldlM (g.relaxEdge b cost u) st = .ok st' := by
  induction es generalizing st with
  | nil => exact ⟨st, rfl⟩
  | cons e es ih =>
    obtain ⟨st₁, h1⟩ := g.relaxEdge_ok b cost u st e (hsum e List.mem_cons_self)
    obtain ⟨st₂, h2⟩ := ih (fun e' he' => hsum e' (List.mem_cons_of_mem _ he')) st₁
    refine ⟨st₂, ?_⟩
    rw [List.foldlM_cons, h1]
    exact h2

theorem foldlM_debug {cost : UInt32} {u : Nat} (es : List EdgeRef) {st st' : Search η}
    (h : es.foldlM (g.relaxEdge .debug cost u) st = .ok st') :
    ∀ e ∈ es, cost.toNat + g.linkCost e ≤ u32Max.toNat := by
  induction es generalizing st with
  | nil => simp
  | cons e es ih =>
    obtain ⟨st₁, h1, h⟩ := foldlM_cons_ok h
    intro e' he'
    rcases List.mem_cons.mp he' with rfl | he'
    · exact g.relaxEdge_debug h1
    · exact ih h e' he'

/-! ## One turn of the loop -/

section
variable {s u : Nat} {st : Search η} {cost : UInt32} {heap : η}

/-- Taking a stale entry off the heap. -/
theorem SearchInv.popStale (hI : g.SearchInv s (fun _ => False) st)
    (hp : BinaryHeap.pop st.heap = some (⟨cost, u⟩, heap)) (hs : st.dist u < cost) :
    g.SearchInv s (fun _ => False) { st with heap := heap } := by
  have hmem := (BinaryHeap.pop_some _ _ _ hp).1
  constructor
  · refine hI.labels.close fun v _ hv => Or.inl (Or.inl ?_)
    rcases hv with ⟨t, ht, rfl, htc⟩ | hv
    · rcases List.mem_cons.mp (hmem.mem_iff.mp ht) with rfl | ht
      · rw [← htc] at hs
        exact absurd hs (UInt32.lt_irrefl _)
      · exact ⟨t, ht, rfl, htc⟩
    · exact hv.elim
  · intro x hx
    exact hI.heap x (hmem.mem_iff.mpr (List.mem_cons_of_mem _ hx))

/-- Taking a current entry off the heap: its node is the one being expanded. -/
theorem SearchInv.popCurrent (hI : g.SearchInv s (fun _ => False) st)
    (hp : BinaryHeap.pop st.heap = some (⟨cost, u⟩, heap)) (hs : ¬ st.dist u < cost) :
    st.dist u = cost ∧ cost < u32Max ∧ g.SearchInv s (fun v => v = u) { st with heap := heap } := by
  have hmem := (BinaryHeap.pop_some _ _ _ hp).1
  obtain ⟨hle, hcap⟩ := hI.heap ⟨cost, u⟩ (hmem.mem_iff.mpr List.mem_cons_self)
  refine ⟨UInt32.le_antisymm hle (UInt32.not_lt.mp hs), hcap, ?_, ?_⟩
  · refine hI.labels.close fun v _ hv => Or.inl ?_
    rcases hv with ⟨t, ht, rfl, htc⟩ | hv
    · rcases List.mem_cons.mp (hmem.mem_iff.mp ht) with rfl | ht
      · exact Or.inr rfl
      · exact Or.inl ⟨t, ht, rfl, htc⟩
    · exact hv.elim
  · intro x hx
    exact hI.heap x (hmem.mem_iff.mpr (List.mem_cons_of_mem _ hx))

/-- A current entry's cost is the least cost of any walk to its node: `pop` returns an
entry of least cost. -/
theorem SearchInv.pop_le_walk (hI : g.SearchInv s (fun _ => False) st)
    (hp : BinaryHeap.pop st.heap = some (⟨cost, u⟩, heap)) (hs : st.dist u = cost) {c : Nat}
    (hw : Walk g.Edge s u c) : cost.toNat ≤ c := by
  obtain ⟨hmem, hmin⟩ := BinaryHeap.pop_some _ _ _ hp
  have hopen : ∀ v, st.labels.dist v < u32Max.toNat → st.opened v ∨ False →
      cost.toNat ≤ st.labels.dist v := by
    rintro v - (⟨t, ht, rfl, htc⟩ | hf)
    · show cost.toNat ≤ (st.dist t.nodeIdx).toNat
      rw [← htc]
      rcases List.mem_cons.mp (hmem.mem_iff.mp ht) with rfl | ht
      · exact Nat.le_refl _
      · exact UInt32.le_iff_toNat_le.mp (hmin t ht)
    · exact hf.elim
  rcases hI.labels.le_walk hopen hw with h1 | h1
  · exact h1
  · have h2 : (st.dist u).toNat ≤ c := h1
    rwa [hs] at h2

/-- Under `NoOverflow` no sum over an edge of a current entry's node leaves `u32`. -/
theorem SearchInv.sum_le (hI : g.SearchInv s (fun _ => False) st) (hno : g.NoOverflow s)
    (hp : BinaryHeap.pop st.heap = some (⟨cost, u⟩, heap)) (hs : st.dist u = cost)
    (hlt : cost < u32Max) : ∀ e ∈ PetGraph.edges g.graph u,
      cost.toNat + g.linkCost e ≤ u32Max.toNat := by
  intro e he
  have hltN : cost.toNat < u32Max.toNat := UInt32.lt_iff_toNat_lt.mp hlt
  have hw : Walk g.Edge s u cost.toNat := by
    have := hI.labels.walk u (by show (st.dist u).toNat < _; rw [hs]; exact hltN)
    simpa only [Search.labels, hs] using this
  obtain ⟨c', hw', hc'⟩ := hno u e.target (g.linkCost e) _ hw hltN (g.edge_of_mem he)
  have := hI.pop_le_walk hp hs hw'
  omega

/-- Expanding a current entry's node. -/
theorem SearchInv.expand {b : Build} {st' : Search η} (hI : g.SearchInv s (fun _ => False) st)
    (hp : BinaryHeap.pop st.heap = some (⟨cost, u⟩, heap)) (hs : ¬ st.dist u < cost)
    (hsum : ∀ e ∈ PetGraph.edges g.graph u, cost.toNat + g.linkCost e ≤ u32Max.toNat)
    (h : (PetGraph.edges g.graph u).foldlM (g.relaxEdge b cost u) { st with heap := heap } =
      .ok st') : g.SearchInv s (fun _ => False) st' := by
  obtain ⟨hcost, hlt, hI1⟩ := hI.popCurrent hp hs
  obtain ⟨hI2, hcost', -, hrel⟩ := hI1.foldlM hlt _ (fun _ he => he) hsum hcost h
  refine ⟨hI2.labels.close fun v _ hv => ?_, hI2.heap⟩
  rcases hv with hv | rfl
  · exact Or.inl (Or.inl hv)
  · refine Or.inr fun w k hw => ?_
    obtain ⟨e, he, rfl, rfl⟩ := (g.edge_iff _ _ _).mp hw
    show (st'.dist v).toNat + _ ≤ _ ∧ (st'.dist e.target).toNat ≤ (st'.dist v).toNat + _
    rw [hcost']
    exact ⟨hsum e he, hrel e he⟩

end

/-! ## The whole run -/

/-- What the loop returns are exact labels: in a debug build, or when no sum overflows. -/
theorem searchLoop_labels (b : Build) (s : Nat) (hb : b = .debug ∨ g.NoOverflow s) (fuel : Nat)
    (st st' : Search η) (hI : g.SearchInv s (fun _ => False) st)
    (h : g.searchLoop b fuel st = .ok st') :
    LabelInv g.Edge s u32Max.toNat (fun _ => False) st'.labels := by
  induction fuel generalizing st with
  | zero => cases h
  | succ fuel ih =>
    unfold searchLoop at h
    cases hp : BinaryHeap.pop st.heap with
    | none =>
      rw [hp] at h
      cases h
      refine hI.labels.close fun v _ hv => Or.inl ?_
      rcases hv with ⟨t, ht, -, -⟩ | hv
      · rw [BinaryHeap.pop_none _ hp] at ht
        cases ht
      · exact hv
    | some p =>
      obtain ⟨⟨cost, u⟩, heap⟩ := p
      rw [hp] at h
      simp only at h
      split at h
      · next hs => exact ih _ (hI.popStale hp hs) h
      · next hs =>
        cases hf : (PetGraph.edges g.graph u).foldlM (g.relaxEdge b cost u)
            { st with heap := heap } with
        | error f =>
          rw [hf] at h
          cases h
        | ok st₁ =>
          rw [hf] at h
          refine ih st₁ (hI.expand hp hs ?_ hf) h
          rcases hb with rfl | hno
          · exact foldlM_debug _ hf
          · obtain ⟨hcost, hlt, -⟩ := hI.popCurrent hp hs
            exact hI.sum_le hno hp hcost hlt

theorem searchLoop_no_overflow (b : Build) (s : Nat) (hno : g.NoOverflow s) (fuel : Nat)
    (st : Search η) (hI : g.SearchInv s (fun _ => False) st) :
    g.searchLoop b fuel st ≠ .error .overflow := by
  induction fuel generalizing st with
  | zero => simp [searchLoop]
  | succ fuel ih =>
    unfold searchLoop
    cases hp : BinaryHeap.pop st.heap with
    | none => simp
    | some p =>
      obtain ⟨⟨cost, u⟩, heap⟩ := p
      simp only
      split
      · next hs => exact ih _ (hI.popStale hp hs)
      · next hs =>
        obtain ⟨hcost, hlt, -⟩ := hI.popCurrent hp hs
        have hsum := hI.sum_le hno hp hcost hlt
        obtain ⟨st₁, hf⟩ := foldlM_ok (b := b) (u := u) _ hsum { st with heap := heap }
        rw [hf]
        exact ih st₁ (hI.expand hp hs hsum hf)

theorem searchStart_dist (s : Nat) :
    (searchStart s : Search η).dist = Function.update (fun _ => u32Max) s 0 := by
  funext i
  unfold Search.dist searchStart
  by_cases hi : i = s
  · subst hi
    rw [AList.lookup_insert, Function.update_self]
    rfl
  · rw [AList.lookup_insert_ne hi, Function.update_of_ne hi]
    rfl

theorem mem_searchStart_heap (s : Nat) (x : DijkstraState) :
    x ∈ BinaryHeap.contents (searchStart s : Search η).heap ↔ x = ⟨0, s⟩ := by
  rw [searchStart, (BinaryHeap.push_perm _ _).mem_iff, BinaryHeap.contents_new, List.mem_singleton]

theorem searchInv_start (s : Nat) : g.SearchInv s (fun _ => False) (searchStart s : Search η) := by
  have hlab : (searchStart s : Search η).labels = Labels.init s u32Max.toNat := by
    unfold Search.labels Labels.init
    congr 1
    rw [searchStart_dist]
    funext i
    by_cases hi : i = s
    · subst hi
      simp
    · simp [Function.update_of_ne hi]
  constructor
  · rw [hlab]
    refine (LabelInv.init g.Edge s u32Max.toNat).close fun v _ hv => Or.inl (Or.inl ?_)
    subst hv
    exact ⟨⟨0, v⟩, (mem_searchStart_heap v _).mpr rfl, rfl, by simp [searchStart_dist]⟩
  · intro x hx
    rw [mem_searchStart_heap] at hx
    subst hx
    refine ⟨by simp [searchStart_dist], ?_⟩
    show (0 : UInt32) < u32Max
    decide

theorem potential_start (s : Nat) : g.potential (searchStart s : Search η) < g.searchFuel := by
  have hlen : (BinaryHeap.contents (searchStart s : Search η).heap).length = 1 := by
    rw [searchStart, (BinaryHeap.push_perm _ _).length_eq, BinaryHeap.contents_new]
    rfl
  have hsum : ∑ i ∈ Finset.range (PetGraph.nodeWeights g.graph).length,
      ((searchStart s : Search η).dist i).toNat ≤
      (PetGraph.nodeWeights g.graph).length * 4294967295 := by
    have := Finset.sum_le_card_nsmul (Finset.range (PetGraph.nodeWeights g.graph).length)
      (fun i => ((searchStart s : Search η).dist i).toNat) 4294967295 (fun i _ => by
        have := ((searchStart s : Search η).dist i).toNat_lt
        omega)
    simpa using this
  unfold potential searchFuel
  omega

variable (g)

/-- **No overflow, exact labels**, in both builds. -/
theorem search_labels (η : Type) [BinaryHeap η] (b : Build) (s : Nat) (hno : g.NoOverflow s) :
    ∃ st, search η b g s = .ok st ∧
      LabelInv g.Edge s u32Max.toNat (fun _ => False) st.labels := by
  have htot := g.searchLoop_total b g.searchFuel (searchStart s : Search η) (potential_start s)
  have hov := searchLoop_no_overflow b s hno g.searchFuel (searchStart s : Search η)
    (searchInv_start s)
  cases h : g.searchLoop b g.searchFuel (searchStart s : Search η) with
  | error f =>
    cases f with
    | overflow => exact absurd h hov
    | diverges => exact absurd h htot
  | ok st =>
    exact ⟨st, h, searchLoop_labels b s (Or.inr hno) _ _ _ (searchInv_start s) h⟩

/-- A debug build that returns has exact labels. -/
theorem search_debug_labels {η : Type} [BinaryHeap η] {s : Nat} {st : Search η}
    (h : search η .debug g s = .ok st) :
    LabelInv g.Edge s u32Max.toNat (fun _ => False) st.labels :=
  searchLoop_labels .debug s (Or.inl rfl) _ _ _ (searchInv_start s) h

theorem noOverflow_of_labels {s : Nat} {L : Labels Nat}
    (h : LabelInv g.Edge s u32Max.toNat (fun _ => False) L) : g.NoOverflow s := by
  intro u v k c hw hc he
  have hu := h.dist_le_walk hw
  have hlt : L.dist u < u32Max.toNat := by omega
  refine ⟨L.dist u, h.walk u hlt, ?_⟩
  rcases h.frontier u hlt with h1 | h1
  · exact h1.elim
  · exact (h1 v k he).1

end

end GlobalGraph

end Stric.Flow
