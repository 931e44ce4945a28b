import Mathlib.Data.List.Nodup
import Mathlib.Data.List.Perm.Subperm
import Mathlib.Algebra.Order.Group.Nat
import Mathlib.Algebra.BigOperators.Group.List.Basic
import Mathlib.Algebra.Order.BigOperators.Group.List
import Mathlib.Logic.Function.Basic
import Mathlib.Algebra.GroupWithZero.Nat
import Mathlib.Logic.Relation

/-!
# Shortest-path labels with a cap

A labelling gives every vertex a tentative distance and a predecessor.  Distances are
capped: `M` stands for "not reached", and only sums below `M` are ever stored.  The
invariant `LabelInv` holds of the empty labelling (`LabelInv.init`), is kept when an edge
is relaxed (`LabelInv.relax`), and lets a vertex leave the set of open vertices once its
edges are relaxed (`LabelInv.close`).  Nothing here fixes the order in which open vertices
are taken; taking one of least distance gives a lower bound on every walk
(`LabelInv.le_walk`).

With no open vertex left, labels are exact distances (`LabelInv.dist_le_walk`), and each is
the label of the predecessor plus the cost of an edge (`LabelInv.pred_tight`).

The last section bounds what is added up on the way: for every edge that leaves a
reachable vertex some walk to that vertex, extended by the edge, costs at most the sum of
all edges (`exists_walk_add_le_sum`).
-/

namespace Stric.Pool

variable {V : Type}

/-- Walks from `s` along weighted edges, with their cost. -/
inductive Walk (E : V → V → Nat → Prop) (s : V) : V → Nat → Prop
  | nil : Walk E s s 0
  | snoc {u v : V} {c k : Nat} : Walk E s u c → E u v k → Walk E s v (c + k)

theorem Walk.cons {E : V → V → Nat → Prop} {s u v : V} {k c : Nat} (he : E s u k)
    (h : Walk E u v c) : Walk E s v (k + c) := by
  induction h with
  | nil =>
    have hone := (Walk.nil : Walk E s s 0).snoc he
    rwa [Nat.zero_add] at hone
  | snoc _ he' ih =>
    rw [← Nat.add_assoc]
    exact ih.snoc he'

/-- A potential that no edge raises by more than its cost is a lower bound. -/
theorem Walk.le_of_potential {E : V → V → Nat → Prop} {φ : V → Nat}
    (hE : ∀ u v k, E u v k → φ v ≤ φ u + k) {s v : V} {c : Nat} (h : Walk E s v c) :
    φ v ≤ φ s + c := by
  induction h with
  | nil => exact Nat.le_refl _
  | snoc _ he ih =>
    have := hE _ _ _ he
    omega

theorem Walk.mono {E E' : V → V → Nat → Prop} {s v : V} {c : Nat}
    (hE : ∀ u v k, E u v k → E' u v k) (h : Walk E s v c) : Walk E' s v c := by
  induction h with
  | nil => exact .nil
  | snoc _ he ih => exact ih.snoc (hE _ _ _ he)

/-- Following `pred` from the vertex ends at `s`. -/
inductive Rooted (pred : V → Option V) (s : V) : V → Prop
  | root : Rooted pred s s
  | step {u v : V} : pred v = some u → Rooted pred s u → Rooted pred s v

/-- Predecessors of a rooted vertex do not lead back to it. -/
theorem Rooted.acyclic {pred : V → Option V} {s v : V} (hs : pred s = none)
    (h : Rooted pred s v) : ¬ Relation.TransGen (fun a b => pred b = some a) v v := by
  induction h with
  | root =>
    intro hc
    obtain ⟨x, -, hx⟩ := Relation.TransGen.tail'_iff.mp hc
    rw [hs] at hx
    cases hx
  | @step u v hp _ ih =>
    intro hc
    -- the last step of the cycle comes from `u`, so the cycle also passes `u`
    obtain ⟨x, hvx, hx⟩ := Relation.TransGen.tail'_iff.mp hc
    rw [hp] at hx
    cases hx
    exact ih (Relation.TransGen.head' hp hvx)

/-! ## Labels -/

structure Labels (V : Type) where
  dist : V → Nat
  pred : V → Option V

/-- All edges out of `v` are relaxed, and none of their sums passes the cap. -/
def Closed (E : V → V → Nat → Prop) (M : Nat) (L : Labels V) (v : V) : Prop :=
  ∀ w k, E v w k → L.dist v + k ≤ M ∧ L.dist w ≤ L.dist v + k

structure LabelInv (E : V → V → Nat → Prop) (s : V) (M : Nat) (opened : V → Prop)
    (L : Labels V) : Prop where
  cap : ∀ v, L.dist v ≤ M
  src : L.dist s = 0
  srcPred : L.pred s = none
  walk : ∀ v, L.dist v < M → Walk E s v (L.dist v)
  pred : ∀ v u, L.pred v = some u → L.dist v < M ∧ ∃ k, E u v k ∧ L.dist u + k ≤ L.dist v
  rooted : ∀ v, L.dist v < M → Rooted L.pred s v
  frontier : ∀ v, L.dist v < M → opened v ∨ Closed E M L v

section
variable [DecidableEq V]

def Labels.init (s : V) (M : Nat) : Labels V where
  dist := Function.update (fun _ => M) s 0
  pred := fun _ => none

/-- `v` is reached from `u` at distance `d`. -/
def Labels.set (L : Labels V) (u v : V) (d : Nat) : Labels V where
  dist := Function.update L.dist v d
  pred := Function.update L.pred v (some u)

theorem LabelInv.init (E : V → V → Nat → Prop) (s : V) (M : Nat) :
    LabelInv E s M (fun v => v = s) (Labels.init s M) := by
  have hs : ∀ v, (Labels.init s M).dist v < M → v = s := by
    intro v hv
    apply Classical.byContradiction
    intro hne
    simp [Labels.init, hne] at hv
  refine ⟨fun v => ?_, by simp [Labels.init], rfl, fun v hv => ?_, (fun v u h => nomatch h),
    fun v hv => ?_, fun v hv => Or.inl (hs v hv)⟩
  · by_cases hv : v = s <;> simp [Labels.init, hv]
  · obtain rfl := hs v hv
    simpa [Labels.init] using Walk.nil
  · obtain rfl := hs v hv
    exact .root

end

section
variable {E : V → V → Nat → Prop} {s : V} {M : Nat} {opened : V → Prop} {L : Labels V}

/-- A vertex may leave the open set when its edges are relaxed. -/
theorem LabelInv.close (h : LabelInv E s M opened L) {opened' : V → Prop}
    (ho : ∀ v, L.dist v < M → opened v → opened' v ∨ Closed E M L v) :
    LabelInv E s M opened' L := by
  refine { h with frontier := fun v hv => ?_ }
  rcases h.frontier v hv with h1 | h1
  · exact ho v hv h1
  · exact Or.inr h1

theorem LabelInv.pred_dist_le (h : LabelInv E s M opened L) {u v : V}
    (hp : L.pred v = some u) : L.dist u ≤ L.dist v := by
  obtain ⟨-, k, -, hk⟩ := h.pred v u hp
  omega

/-- A vertex labelled below `v` keeps its chain of predecessors when `v` gets a new one. -/
theorem LabelInv.rooted_set_of_lt [DecidableEq V] (h : LabelInv E s M opened L) {u v x : V}
    (d : Nat) (hx : Rooted L.pred s x) (hlt : L.dist x < L.dist v) :
    Rooted (L.set u v d).pred s x := by
  induction hx with
  | root => exact .root
  | @step y x hp _ ih =>
    have hne : x ≠ v := fun e => by subst e; omega
    have hle := h.pred_dist_le hp
    refine .step (u := y) ?_ (ih (by omega))
    simp only [Labels.set, Function.update_of_ne hne]
    exact hp

theorem LabelInv.rooted_set [DecidableEq V] (h : LabelInv E s M opened L) {u v x : V} (d : Nat)
    (hu : Rooted L.pred s u) (hlt : L.dist u < L.dist v) (hx : Rooted L.pred s x) :
    Rooted (L.set u v d).pred s x := by
  induction hx with
  | root => exact .root
  | @step y x hp _ ih =>
    by_cases hxv : x = v
    · subst hxv
      exact .step (by simp [Labels.set]) (h.rooted_set_of_lt d hu hlt)
    · refine .step (u := y) ?_ ih
      simp only [Labels.set, Function.update_of_ne hxv]
      exact hp

/-- **Relaxation.**  Storing the smaller distance over the edge `u → v` keeps the
invariant; `v` becomes open. -/
theorem LabelInv.relax [DecidableEq V] (h : LabelInv E s M opened L) {u v : V} {k : Nat}
    (he : E u v k) (hu : L.dist u < M) (hlt : L.dist u + k < L.dist v) :
    LabelInv E s M (fun x => opened x ∨ x = v) (L.set u v (L.dist u + k)) := by
  have hvM := h.cap v
  have hvs : v ≠ s := fun e => by subst e; have := h.src; omega
  have huv : u ≠ v := fun e => by subst e; omega
  have hne : ∀ x, x ≠ v → (L.set u v (L.dist u + k)).dist x = L.dist x :=
    fun x hx => Function.update_of_ne hx _ _
  have hv : (L.set u v (L.dist u + k)).dist v = L.dist u + k := Function.update_self _ _ _
  have hle : ∀ x, (L.set u v (L.dist u + k)).dist x ≤ L.dist x := by
    intro x
    by_cases hx : x = v
    · rw [hx, hv]; omega
    · rw [hne x hx]
  have hroot : ∀ x, L.dist x < M → Rooted (L.set u v (L.dist u + k)).pred s x :=
    fun x hx => h.rooted_set _ (h.rooted u hu) (by omega) (h.rooted x hx)
  constructor
  · intro x
    have := hle x
    have := h.cap x
    omega
  · rw [hne s hvs.symm, h.src]
  · simp only [Labels.set, Function.update_of_ne hvs.symm]
    exact h.srcPred
  · intro x hx
    by_cases hxv : x = v
    · subst hxv
      rw [hv]
      exact .snoc (h.walk u hu) he
    · rw [hne x hxv] at hx ⊢
      exact h.walk x hx
  · intro x y hp
    by_cases hxv : x = v
    · subst hxv
      simp only [Labels.set, Function.update_self, Option.some.injEq] at hp
      subst hp
      rw [hv, hne u huv]
      exact ⟨by omega, k, he, by omega⟩
    · simp only [Labels.set, Function.update_of_ne hxv] at hp
      obtain ⟨h1, k', h2, h3⟩ := h.pred x y hp
      have := hle y
      rw [hne x hxv]
      exact ⟨h1, k', h2, by omega⟩
  · intro x hx
    by_cases hxv : x = v
    · subst hxv
      exact .step (by simp [Labels.set]) (hroot u hu)
    · rw [hne x hxv] at hx
      exact hroot x hx
  · intro x hx
    by_cases hxv : x = v
    · exact Or.inl (Or.inr hxv)
    · rw [hne x hxv] at hx
      rcases h.frontier x hx with h1 | h1
      · exact Or.inl (Or.inl h1)
      · refine Or.inr fun w k' hw => ?_
        obtain ⟨h2, h3⟩ := h1 w k' hw
        have := hle w
        rw [hne x hxv]
        exact ⟨h2, by omega⟩

/-- A lower bound `c` on the open labels is a lower bound on every walk whose end is not
already labelled at most as high as the walk costs. -/
theorem LabelInv.le_walk (h : LabelInv E s M opened L) {c : Nat}
    (hmin : ∀ v, L.dist v < M → opened v → c ≤ L.dist v) {v : V} {c' : Nat}
    (hw : Walk E s v c') : c ≤ c' ∨ L.dist v ≤ c' := by
  induction hw with
  | nil => exact Or.inr (by rw [h.src])
  | @snoc x y cx k _ he ih =>
    rcases ih with h1 | h1
    · exact Or.inl (by omega)
    · by_cases hx : L.dist x < M
      · rcases h.frontier x hx with h2 | h2
        · have := hmin x hx h2
          exact Or.inl (by omega)
        · have := (h2 y k he).2
          exact Or.inr (by omega)
      · have := h.cap y
        exact Or.inr (by omega)

/-! ## No open vertex left -/

theorem LabelInv.dist_le_walk (h : LabelInv E s M (fun _ => False) L) {v : V} {c : Nat}
    (hw : Walk E s v c) : L.dist v ≤ c := by
  rcases h.le_walk (c := c + 1) (fun _ _ hf => hf.elim) hw with h1 | h1
  · omega
  · exact h1

theorem LabelInv.pred_tight (h : LabelInv E s M (fun _ => False) L) {u v : V}
    (hp : L.pred v = some u) : L.dist u < M ∧ ∃ k, E u v k ∧ L.dist u + k = L.dist v := by
  obtain ⟨h1, k, h2, h3⟩ := h.pred v u hp
  have hu : L.dist u < M := by omega
  rcases h.frontier u hu with h4 | h4
  · exact h4.elim
  · have := (h4 v k h2).2
    exact ⟨hu, k, h2, by omega⟩

end

/-! ## Simple walks and the sum of all edges -/

section
variable (E : V → V → Nat → Prop) (s : V)

/-- A walk that visits no vertex twice, as its edges from the last to the first. -/
inductive Trail : List (V × V × Nat) → V → Prop
  | nil : Trail [] s
  | snoc {es : List (V × V × Nat)} {u v : V} {k : Nat} : Trail es u → E u v k → v ≠ u →
      v ∉ es.map (fun e => e.1) → Trail ((u, v, k) :: es) v

variable {E s}

def edgeSum (es : List (V × V × Nat)) : Nat := (es.map fun e => e.2.2).sum

theorem Trail.nodup {es : List (V × V × Nat)} {v : V} (h : Trail E s es v) :
    (es.map fun e => e.1).Nodup ∧ v ∉ es.map fun e => e.1 := by
  induction h with
  | nil => simp
  | snoc _ _ hne hv ih =>
    simp only [List.map_cons, List.nodup_cons, List.mem_cons, not_or]
    exact ⟨⟨ih.2, ih.1⟩, hne, hv⟩

theorem Trail.mem {es : List (V × V × Nat)} {v : V} (h : Trail E s es v) :
    ∀ e ∈ es, E e.1 e.2.1 e.2.2 := by
  induction h with
  | nil => simp
  | snoc _ he _ _ ih =>
    intro e hm
    rcases List.mem_cons.mp hm with rfl | hm
    · exact he
    · exact ih e hm

theorem Trail.walk {es : List (V × V × Nat)} {v : V} (h : Trail E s es v) :
    Walk E s v (edgeSum es) := by
  induction h with
  | nil => exact .nil
  | @snoc es u v k _ he _ _ ih =>
    have hsum : edgeSum ((u, v, k) :: es) = edgeSum es + k := by
      simp [edgeSum]; omega
    rw [hsum]
    exact .snoc ih he

/-- A trail can be cut at every vertex it leaves. -/
theorem Trail.cut {es : List (V × V × Nat)} {v : V} (h : Trail E s es v) {y : V}
    (hy : y ∈ es.map fun e => e.1) : ∃ es', Trail E s es' y ∧ edgeSum es' ≤ edgeSum es := by
  induction h with
  | nil => simp at hy
  | @snoc es u v k ht _ _ _ ih =>
    have hsum : edgeSum es ≤ edgeSum ((u, v, k) :: es) := by simp [edgeSum]
    rcases List.mem_cons.mp hy with rfl | hy
    · exact ⟨es, ht, hsum⟩
    · obtain ⟨es', h1, h2⟩ := ih hy
      exact ⟨es', h1, by omega⟩

theorem Walk.exists_trail {v : V} {c : Nat} (h : Walk E s v c) :
    ∃ es, Trail E s es v ∧ edgeSum es ≤ c := by
  induction h with
  | nil => exact ⟨[], .nil, by simp [edgeSum]⟩
  | @snoc u v c k _ he ih =>
    obtain ⟨es, ht, hc⟩ := ih
    by_cases huv : v = u
    · subst huv
      exact ⟨es, ht, by omega⟩
    · by_cases hv : v ∈ es.map fun e => e.1
      · obtain ⟨es', h1, h2⟩ := ht.cut hv
        exact ⟨es', h1, by omega⟩
      · refine ⟨(u, v, k) :: es, .snoc ht he huv hv, ?_⟩
        simp only [edgeSum, List.map_cons, List.sum_cons] at hc ⊢
        omega

/-- Extending a shortest walk to `u` by an edge out of `u` never costs more than all edges
of the graph together: a trail leaves each vertex once, and has not left `u`. -/
theorem exists_walk_add_le_sum [DecidableEq V] (all : List (V × V × Nat))
    (hall : ∀ u v k, E u v k → (u, v, k) ∈ all) {u v : V} {c k : Nat} (hw : Walk E s u c)
    (he : E u v k) : ∃ c', Walk E s u c' ∧ c' + k ≤ edgeSum all := by
  obtain ⟨es, ht, -⟩ := hw.exists_trail
  refine ⟨edgeSum es, ht.walk, ?_⟩
  have hnd : ((u, v, k) :: es).Nodup := by
    apply List.Nodup.of_map (fun e : V × V × Nat => e.1)
    simp only [List.map_cons, List.nodup_cons]
    exact ⟨ht.nodup.2, ht.nodup.1⟩
  have hsub : ((u, v, k) :: es) ⊆ all := by
    intro e hm
    rcases List.mem_cons.mp hm with rfl | hm
    · exact hall _ _ _ he
    · exact hall _ _ _ (ht.mem e hm)
  obtain ⟨l, hperm, hl⟩ := List.subperm_of_subset hnd hsub
  have hle : (l.map fun e => e.2.2).sum ≤ (all.map fun e => e.2.2).sum :=
    (hl.map _).sum_le_sum (by simp)
  have heq : (l.map fun e => e.2.2).sum = k + edgeSum es := by
    rw [(hperm.map _).sum_eq]
    simp [edgeSum]
  simp only [edgeSum] at heq ⊢
  omega

end

end Stric.Pool
