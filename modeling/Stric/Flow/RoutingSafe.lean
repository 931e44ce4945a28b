import Stric.Flow.RoutingInv
import Stric.Flow.VecGraph

/-!
# When `compute_forwarding_table` is safe and total

`hop_cost` comes unchecked from the network, so the sums of the search may leave `u32`.
`SafeAndTotal` is what one wants of a call: no addition overflows, in both builds the walk
back from every subscriber ends, and a table is returned.

    SafeAndTotal η g source subs ↔ subs = [] ∨ CostsFit g source        (safeAndTotal_iff)

for every graph built by `apply_update`s.  `CostsFit` speaks of the paths of the graph:
every link out of a node that is reached below `u32::MAX` can end some path from the
source whose penalised cost fits into `u32`.  Where it fails, a debug build panics; a
release build may wrap into a cyclic predecessor map, and the walk back never ends
(`wrapped_search_never_ends`).
-/

namespace Stric.Flow.GlobalGraph

open Stric.Pool

/-! ## The walk back -/

section
variable {pred : HashMap Nat Nat} {s : Nat}

/-- The walk back from `cur` ends after finitely many turns. -/
def WalkEnds (pred : HashMap Nat Nat) (s cur : Nat) : Prop :=
  ∃ fuel pairs, backWalk pred s fuel cur = some pairs

/-- The first turn of a walk that ends. -/
theorem backWalk_succ_cases {fuel cur : Nat} {ps : List (Nat × Nat)}
    (h : backWalk pred s (fuel + 1) cur = some ps) :
    (pred.lookup cur = none ∧ ps = []) ∨ ∃ u, pred.lookup cur = some u ∧
      ((u = s ∧ ps = [(u, cur)]) ∨
        (u ≠ s ∧ ∃ ps', backWalk pred s fuel u = some ps' ∧ ps = (u, cur) :: ps')) := by
  unfold backWalk at h
  cases hp : pred.lookup cur with
  | none =>
    rw [hp] at h
    cases h
    exact Or.inl ⟨rfl, rfl⟩
  | some u =>
    rw [hp] at h
    simp only at h
    refine Or.inr ⟨u, rfl, ?_⟩
    split at h
    · next hu =>
      cases h
      exact Or.inl ⟨hu, rfl⟩
    · next hu =>
      obtain ⟨ps', hps, rfl⟩ := Option.map_eq_some_iff.mp h
      exact Or.inr ⟨hu, ps', hps, rfl⟩

theorem backWalk_none {cur : Nat} (hp : pred.lookup cur = none) (fuel : Nat) :
    backWalk pred s (fuel + 1) cur = some [] := by
  rw [backWalk, hp]

theorem backWalk_source {cur : Nat} (hp : pred.lookup cur = some s) (fuel : Nat) :
    backWalk pred s (fuel + 1) cur = some [(s, cur)] := by
  rw [backWalk, hp]
  exact if_pos rfl

theorem backWalk_step {fuel cur u : Nat} {ps : List (Nat × Nat)} (hp : pred.lookup cur = some u)
    (hu : u ≠ s) (h : backWalk pred s fuel u = some ps) :
    backWalk pred s (fuel + 1) cur = some ((u, cur) :: ps) := by
  rw [backWalk, hp]
  simp only [if_neg hu, h, Option.map_some]

theorem backWalk_succ (fuel cur : Nat) (pairs : List (Nat × Nat))
    (h : backWalk pred s fuel cur = some pairs) : backWalk pred s (fuel + 1) cur = some pairs := by
  induction fuel generalizing cur pairs with
  | zero => cases h
  | succ fuel ih =>
    rcases backWalk_succ_cases h with ⟨hp, rfl⟩ | ⟨u, hp, ⟨rfl, rfl⟩ | ⟨hu, ps, hps, rfl⟩⟩
    · exact backWalk_none hp _
    · exact backWalk_source hp _
    · exact backWalk_step hp hu (ih _ _ hps)

theorem backWalk_mono {fuel fuel' cur : Nat} {pairs : List (Nat × Nat)} (hle : fuel ≤ fuel')
    (h : backWalk pred s fuel cur = some pairs) : backWalk pred s fuel' cur = some pairs := by
  induction hle with
  | refl => exact h
  | step _ ih => exact backWalk_succ _ _ _ ih

theorem backWalk_det {fuel fuel' cur : Nat} {ps ps' : List (Nat × Nat)}
    (h : backWalk pred s fuel cur = some ps) (h' : backWalk pred s fuel' cur = some ps') :
    ps = ps' := by
  have h1 := backWalk_mono (Nat.le_max_left fuel fuel') h
  have h2 := backWalk_mono (Nat.le_max_right fuel fuel') h'
  rw [h1] at h2
  exact Option.some.inj h2

/-- As many turns as pairs, and one more, are enough. -/
theorem backWalk_length {fuel cur : Nat} {ps : List (Nat × Nat)}
    (h : backWalk pred s fuel cur = some ps) : backWalk pred s (ps.length + 1) cur = some ps := by
  induction fuel generalizing cur ps with
  | zero => cases h
  | succ fuel ih =>
    rcases backWalk_succ_cases h with ⟨hp, rfl⟩ | ⟨u, hp, ⟨rfl, rfl⟩ | ⟨hu, ps', hps, rfl⟩⟩
    · exact backWalk_none hp _
    · exact backWalk_source hp _
    · exact backWalk_step hp hu (ih hps)

/-- The walk from a child it passes is the rest of the walk. -/
theorem backWalk_suffix {fuel cur : Nat} {ps : List (Nat × Nat)}
    (h : backWalk pred s fuel cur = some ps) (q : Nat × Nat) (hq : q ∈ ps) :
    ∃ fuel' ps', backWalk pred s fuel' q.2 = some (q :: ps') ∧ (q :: ps') <:+ ps ∧
      pred.lookup q.2 = some q.1 := by
  induction fuel generalizing cur ps with
  | zero => cases h
  | succ fuel ih =>
    rcases backWalk_succ_cases h with ⟨-, rfl⟩ | ⟨u, hp, ⟨rfl, rfl⟩ | ⟨-, ps', hps, rfl⟩⟩
    · cases hq
    · cases List.mem_singleton.mp hq
      exact ⟨_, _, h, List.suffix_rfl, hp⟩
    · rcases List.mem_cons.mp hq with rfl | hq
      · exact ⟨_, _, h, List.suffix_rfl, hp⟩
      · obtain ⟨f, ps'', h1, h2, h3⟩ := ih hps hq
        exact ⟨f, ps'', h1, h2.trans (List.suffix_cons _ _), h3⟩

/-- A walk that ends passes no child twice. -/
theorem backWalk_nodup {fuel cur : Nat} {ps : List (Nat × Nat)}
    (h : backWalk pred s fuel cur = some ps) : (ps.map fun q => q.2).Nodup := by
  induction fuel generalizing cur ps with
  | zero => cases h
  | succ fuel ih =>
    rcases backWalk_succ_cases h with ⟨-, rfl⟩ | ⟨u, -, ⟨rfl, rfl⟩ | ⟨-, ps', hps, rfl⟩⟩
    · exact List.nodup_nil
    · exact List.nodup_singleton _
    · simp only [List.map_cons, List.nodup_cons]
      refine ⟨fun hm => ?_, ih hps⟩
      -- met again, `cur` would start a shorter walk than the one it starts
      obtain ⟨q, hq, hqc⟩ := List.mem_map.mp hm
      obtain ⟨f, ps'', h1, h2, -⟩ := backWalk_suffix hps q hq
      rw [hqc] at h1
      have := congrArg List.length (backWalk_det h h1)
      have := h2.length_le
      simp only [List.length_cons] at *
      omega

/-- **The fuel of the walk.**  If the children are below `n`, a walk that ends at all ends
within `n + 1` turns. -/
theorem backWalk_fuel {n cur : Nat} (hn : ∀ c p, pred.lookup c = some p → c < n)
    (h : WalkEnds pred s cur) : ∃ ps, backWalk pred s (n + 1) cur = some ps := by
  obtain ⟨fuel, ps, h⟩ := h
  refine ⟨ps, backWalk_mono ?_ (backWalk_length h)⟩
  have hsub : (ps.map fun q => q.2) ⊆ List.range n := by
    intro c hc
    obtain ⟨q, hq, rfl⟩ := List.mem_map.mp hc
    obtain ⟨-, -, -, -, hp⟩ := backWalk_suffix h q hq
    exact List.mem_range.mpr (hn _ _ hp)
  have := (List.subperm_of_subset (backWalk_nodup h) hsub).length_le
  simp only [List.length_map, List.length_range] at this
  omega

theorem walkEnds_of_none {cur : Nat} (h : pred.lookup cur = none) : WalkEnds pred s cur :=
  ⟨1, [], backWalk_none h 0⟩

theorem walkEnds_of_rooted {cur : Nat} (hs : pred.lookup s = none)
    (h : Rooted (fun i => pred.lookup i) s cur) : WalkEnds pred s cur := by
  induction h with
  | root => exact walkEnds_of_none hs
  | @step u v hp _ ih =>
    by_cases hu : u = s
    · exact ⟨1, [(s, v)], backWalk_source (hu ▸ hp) 0⟩
    · obtain ⟨fuel, ps, h⟩ := ih
      exact ⟨fuel + 1, (u, v) :: ps, backWalk_step hp hu h⟩

/-- Around a cycle that misses the source the walk goes on for ever. -/
theorem not_walkEnds_of_cycle {a b : Nat} (ha : pred.lookup a = some b) (hb : pred.lookup b = some a)
    (has : a ≠ s) (hbs : b ≠ s) : ¬ WalkEnds pred s a := by
  have h : ∀ fuel, backWalk pred s fuel a = none ∧ backWalk pred s fuel b = none := by
    intro fuel
    induction fuel with
    | zero => exact ⟨rfl, rfl⟩
    | succ fuel ih =>
      constructor
      · simp [backWalk, ha, hbs, ih.2]
      · simp [backWalk, hb, has, ih.1]
  rintro ⟨fuel, ps, hps⟩
  rw [(h fuel).1] at hps
  cases hps

end

/-! ## Exact labels give a table -/

section
variable {γ : Type} [PetGraph γ] {g : GlobalGraph γ} {η : Type}

theorem walkEnds_of_labels {s : Nat} {st : Search η}
    (h : LabelInv g.Edge s u32Max.toNat (fun _ => False) st.labels) (i : Nat) :
    WalkEnds st.predecessors s i := by
  cases hp : st.predecessors.lookup i with
  | none => exact walkEnds_of_none hp
  | some u => exact walkEnds_of_rooted h.srcPred (h.rooted i (h.pred i u hp).1)

theorem pred_lt_of_labels {s : Nat} {st : Search η}
    (h : LabelInv g.Edge s u32Max.toNat (fun _ => False) st.labels) (c p : Nat)
    (hp : st.predecessors.lookup c = some p) : c < (PetGraph.nodeWeights g.graph).length := by
  obtain ⟨-, k, ⟨e, he, -, rfl, -⟩, -⟩ := h.pred c p hp
  exact (PetGraph.edge_bounds g.graph e he).2

theorem addSubscriber_ok {s : Nat} {st : Search η}
    (h : LabelInv g.Edge s u32Max.toNat (fun _ => False) st.labels)
    (tree : HashMap String (List String)) (sub : String) :
    ∃ tree', g.addSubscriber st.predecessors s tree sub = .ok tree' := by
  unfold addSubscriber
  cases hi : g.nodeIndices.lookup sub with
  | none => exact ⟨_, rfl⟩
  | some i =>
    obtain ⟨ps, hps⟩ := backWalk_fuel (pred_lt_of_labels h) (walkEnds_of_labels h i)
    simp only [walkFuel, hps]
    exact ⟨_, rfl⟩

theorem addSubscribers_ok {s : Nat} {st : Search η}
    (h : LabelInv g.Edge s u32Max.toNat (fun _ => False) st.labels) (subs : List String)
    (tree : HashMap String (List String)) :
    ∃ tree', subs.foldlM (g.addSubscriber st.predecessors s) tree = .ok tree' := by
  induction subs generalizing tree with
  | nil => exact ⟨tree, rfl⟩
  | cons sub subs ih =>
    obtain ⟨t₁, h1⟩ := addSubscriber_ok h tree sub
    obtain ⟨t₂, h2⟩ := ih t₁
    refine ⟨t₂, ?_⟩
    rw [List.foldlM_cons, h1]
    exact h2

end

/-! ## Safe and total -/

section
variable {γ : Type} [PetGraph γ]

/-- One call neither overflows nor runs for ever. -/
structure SafeAndTotal (η : Type) [BinaryHeap η] (g : GlobalGraph γ) (source : String)
    (subs : List String) : Prop where
  additions : ∀ s, subs ≠ [] → g.nodeIndices.lookup source = some s →
    search η .debug g s ≠ .error .overflow
  walks : ∀ b s, subs ≠ [] → g.nodeIndices.lookup source = some s →
    ∃ st, search η b g s = .ok st ∧
      ∀ sub ∈ subs, ∀ i, g.nodeIndices.lookup sub = some i → WalkEnds st.predecessors s i
  returns : ∀ b, ∃ table, g.computeForwardingTable η b source subs = .ok table

/-- Every link out of a node that some path from the source reaches below `u32::MAX` can
end a path from the source whose penalised cost is at most `u32::MAX`. -/
def CostsFit (g : GlobalGraph γ) (source : String) : Prop :=
  ∀ s, g.nodeIndices.lookup source = some s → g.NoOverflow s

/-- The table of a known source and at least one subscriber, from the two loops. -/
theorem computeForwardingTable_eq (η : Type) [BinaryHeap η] (b : Build) {g : GlobalGraph γ}
    {source : String} {subs : List String} (hne : subs ≠ []) {s : Nat}
    (hs : g.nodeIndices.lookup source = some s) {st : Search η} (h1 : search η b g s = .ok st)
    {tree : HashMap String (List String)}
    (h2 : subs.foldlM (g.addSubscriber st.predecessors s) ∅ = .ok tree) :
    g.computeForwardingTable η b source subs = .ok (HashMap.mapValues ForwardingTargets.mk tree) := by
  unfold computeForwardingTable
  rw [if_neg hne, hs]
  simp only []
  rw [h1, except_ok_bind, h2, except_ok_bind]
  rfl

theorem computeForwardingTable_ok (η : Type) [BinaryHeap η] (b : Build) {g : GlobalGraph γ}
    {source : String} {subs : List String} (h : subs = [] ∨ g.CostsFit source) :
    ∃ table, g.computeForwardingTable η b source subs = .ok table := by
  by_cases hne : subs = []
  · exact ⟨∅, by rw [computeForwardingTable, if_pos hne]⟩
  · cases hs : g.nodeIndices.lookup source with
    | none => exact ⟨∅, by rw [computeForwardingTable, if_neg hne, hs]⟩
    | some s =>
      obtain ⟨st, h1, h2⟩ := g.search_labels η b s ((h.resolve_left hne) s hs)
      obtain ⟨tree, h3⟩ := addSubscribers_ok h2 subs ∅
      exact ⟨_, computeForwardingTable_eq η b hne hs h1 h3⟩

/-- **Exactly when the call is safe and total**: no subscriber is given, or the costs
fit. -/
theorem safeAndTotal_iff (η : Type) [BinaryHeap η] (updates : List TopologyUpdate)
    (source : String) (subs : List String) :
    SafeAndTotal η (updates.foldl applyUpdate (new : GlobalGraph γ)) source subs ↔
      subs = [] ∨ CostsFit (updates.foldl applyUpdate (new : GlobalGraph γ)) source := by
  generalize updates.foldl applyUpdate (new : GlobalGraph γ) = g
  constructor
  · intro h
    by_cases hne : subs = []
    · exact Or.inl hne
    · refine Or.inr fun s hs => ?_
      obtain ⟨st, h1, -⟩ := h.walks .debug s hne hs
      exact g.noOverflow_of_labels (g.search_debug_labels h1)
  · intro h
    refine ⟨fun s hne hs => ?_, fun b s hne hs => ?_, fun b => computeForwardingTable_ok η b h⟩
    · obtain ⟨st, h1, -⟩ := g.search_labels η .debug s ((h.resolve_left hne) s hs)
      rw [h1]
      simp
    · obtain ⟨st, h1, h2⟩ := g.search_labels η b s ((h.resolve_left hne) s hs)
      exact ⟨st, h1, fun sub _ i _ => walkEnds_of_labels h2 i⟩

end

/-! ## A topology that wraps

`s — a` at cost 10 and `a — b` at cost `u32::MAX - 4`.  The sum over `a — b` is
`u32::MAX + 6`: it wraps to 5, and the way back from `b` wraps to 0, below `a`'s 10. -/

def wrappingUpdate : TopologyUpdate where
  originNodeId := "a"
  epoch := 1
  nodesAdded := []
  nodesRemoved := []
  linksAdded := [⟨"s", "a", 10, 0⟩, ⟨"a", "b", 4294967291, 0⟩]
  linksRemoved := []

def wrappingGraph : GlobalGraph VecGraph := [wrappingUpdate].foldl applyUpdate new

/-- The predecessors of `a` and `b` in the release build. -/
def wrappedPreds : Option (Option Nat × Option Nat) :=
  match search ListHeap .release wrappingGraph 0 with
  | .ok st => some (st.predecessors.lookup 1, st.predecessors.lookup 2)
  | .error _ => none

/-- The debug build overflows; in the release build the walk back from `b` never ends. -/
theorem wrapped_search_never_ends :
    search ListHeap .debug wrappingGraph 0 = .error .overflow ∧
    (∀ st, search ListHeap .release wrappingGraph 0 = .ok st → ¬ WalkEnds st.predecessors 0 2) ∧
    ¬ SafeAndTotal ListHeap wrappingGraph "s" ["b"] := by
  have hdebug : (match search ListHeap .debug wrappingGraph 0 with
      | .error .overflow => true
      | _ => false) = true := by decide +kernel
  have hover : search ListHeap .debug wrappingGraph 0 = .error .overflow := by
    split at hdebug
    · assumption
    · cases hdebug
  refine ⟨hover, ?_, fun h => h.additions 0 (by simp) (by decide) hover⟩
  intro st hst
  have hpreds : wrappedPreds = some (some 2, some 1) := by decide +kernel
  simp only [wrappedPreds, hst, Option.some.injEq, Prod.mk.injEq] at hpreds
  exact not_walkEnds_of_cycle hpreds.2 hpreds.1 (by decide) (by decide)

end Stric.Flow.GlobalGraph
