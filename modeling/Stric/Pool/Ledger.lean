import Mathlib.Data.List.Perm.Basic
import Mathlib.Data.List.Nodup

/-!
# Ledgers

A ledger records items that were issued, items that were retired, and, once for each place that
holds it, the items that are held.  It is sound if nothing is held twice and everything held was
issued and not retired, and complete if everything that was issued and not retired is held in
exactly one place.

    Ledger.Move l lost l'        an item is issued, one is retired, or some are lost

Soundness is kept by every move (`Sound.move`), completeness exactly by the moves that lose
nothing (`Complete.move_iff`).  A move balances (`Move.countP_eq`): of any kind of item, what is
issued is then held, retired or lost.
-/

namespace Stric.Pool

structure Ledger (I : Type) where
  issued : List I
  retired : List I
  held : List I

namespace Ledger

variable {I : Type}

structure Sound (l : Ledger I) : Prop where
  once : l.held.Nodup
  issued : ∀ i ∈ l.held, i ∈ l.issued
  kept : ∀ i ∈ l.held, i ∉ l.retired
  retired : ∀ i ∈ l.retired, i ∈ l.issued

def Complete [DecidableEq I] (l : Ledger I) : Prop :=
  ∀ i ∈ l.issued, i ∉ l.retired → l.held.count i = 1

inductive Move (l : Ledger I) : List I → Ledger I → Prop
  | issue {i : I} {held : List I} : i ∉ l.issued → held.Perm (i :: l.held) →
      Move l [] ⟨i :: l.issued, l.retired, held⟩
  | retire {i : I} {held : List I} : l.held.Perm (i :: held) →
      Move l [] ⟨l.issued, i :: l.retired, held⟩
  | lose {lost held : List I} : l.held.Perm (lost ++ held) →
      Move l lost ⟨l.issued, l.retired, held⟩

variable {l l' : Ledger I} {lost : List I}

theorem Sound.move (h : l.Sound) (hm : l.Move lost l') : l'.Sound := by
  cases hm with
  | @issue i held hnew hperm =>
    refine ⟨?_, fun j hj => ?_, fun j hj hret => ?_, fun j hj =>
      List.mem_cons_of_mem _ (h.retired j hj)⟩
    · rw [hperm.nodup_iff, List.nodup_cons]
      exact ⟨fun hi => hnew (h.issued i hi), h.once⟩
    · rcases List.mem_cons.mp (hperm.mem_iff.mp hj) with rfl | hj
      · exact List.mem_cons_self
      · exact List.mem_cons_of_mem _ (h.issued j hj)
    · rcases List.mem_cons.mp (hperm.mem_iff.mp hj) with rfl | hj
      · exact hnew (h.retired j hret)
      · exact h.kept j hj hret
  | @retire i held hperm =>
    have honce := h.once
    rw [hperm.nodup_iff, List.nodup_cons] at honce
    have hsub : ∀ j ∈ held, j ∈ l.held := fun j hj =>
      hperm.mem_iff.mpr (List.mem_cons_of_mem _ hj)
    refine ⟨honce.2, fun j hj => h.issued j (hsub j hj), fun j hj hret => ?_, fun j hj => ?_⟩
    · rcases List.mem_cons.mp hret with rfl | hret
      · exact honce.1 hj
      · exact h.kept j (hsub j hj) hret
    · rcases List.mem_cons.mp hj with rfl | hj
      · exact h.issued j (hperm.mem_iff.mpr List.mem_cons_self)
      · exact h.retired j hj
  | @lose lost held hperm =>
    have honce := h.once
    rw [hperm.nodup_iff] at honce
    have hsub : ∀ j ∈ held, j ∈ l.held := fun j hj =>
      hperm.mem_iff.mpr (List.mem_append_right _ hj)
    exact ⟨honce.of_append_right, fun j hj => h.issued j (hsub j hj),
      fun j hj => h.kept j (hsub j hj), h.retired⟩

/-- **Completeness is kept exactly if nothing is lost.** -/
theorem Complete.move_iff [DecidableEq I] (hc : l.Complete) (h : l.Sound) (hm : l.Move lost l') :
    l'.Complete ↔ lost = [] := by
  cases hm with
  | @issue i held hnew hperm =>
    refine iff_of_true (fun j hj hkept => ?_) rfl
    rw [hperm.count_eq]
    rcases List.mem_cons.mp hj with rfl | hj
    · rw [List.count_cons_self, List.count_eq_zero.mpr fun hi => hnew (h.issued j hi)]
    · have hne : i ≠ j := by
        rintro rfl
        exact hnew hj
      rw [List.count_cons_of_ne hne]
      exact hc j hj hkept
  | @retire i held hperm =>
    refine iff_of_true (fun j hj hkept => ?_) rfl
    obtain ⟨hne, hkept⟩ := not_or.mp (fun h => hkept (List.mem_cons.mpr h))
    have hone := hc j hj hkept
    rwa [hperm.count_eq, List.count_cons_of_ne (Ne.symm hne)] at hone
  | @lose lost held hperm =>
    constructor
    · -- a lost item is held nowhere, since it was held only once
      intro hcomplete
      by_contra hlost
      obtain ⟨i, hi⟩ := List.exists_mem_of_ne_nil lost hlost
      have hheld : i ∈ l.held := hperm.mem_iff.mpr (List.mem_append_left _ hi)
      have hone := hcomplete i (h.issued i hheld) (h.kept i hheld)
      have hbefore := hc i (h.issued i hheld) (h.kept i hheld)
      rw [hperm.count_eq, List.count_append] at hbefore
      have hpos := List.count_pos_iff.mpr hi
      change held.count i = 1 at hone
      omega
    · rintro rfl j hj hkept
      rw [← hc j hj hkept, hperm.count_eq]
      rfl

theorem Move.countP_eq (hm : l.Move lost l') (p : I → Bool) :
    l'.issued.countP p + (l.held.countP p + l.retired.countP p) =
      l.issued.countP p + (l'.held.countP p + l'.retired.countP p + lost.countP p) := by
  cases hm with
  | issue _ hperm =>
    have hheld := hperm.countP_eq p
    simp only [List.countP_cons, List.countP_nil] at hheld ⊢
    omega
  | retire hperm =>
    have hheld := hperm.countP_eq p
    simp only [List.countP_cons, List.countP_nil] at hheld ⊢
    omega
  | lose hperm =>
    have hheld := hperm.countP_eq p
    rw [List.countP_append] at hheld
    dsimp only
    omega

end Ledger

end Stric.Pool
