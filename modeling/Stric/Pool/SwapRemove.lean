import Mathlib.Data.List.Perm.Basic

/-!
# Removing from a vector by moving its last element

`swapRemove l i` drops the element at `i` and puts the last element in its place, so that
indices stay compact.  Up to order nothing but the element at `i` is lost
(`perm_cons_swapRemove`).  `swapIndex` moves the other indices along: it stays in range and
joins no two of them.
-/

namespace Stric.Pool

variable {α : Type}

def swapRemove (l : List α) (i : Nat) : List α :=
  match l.getLast? with
  | none => []
  | some x => (l.set i x).dropLast

/-- The index of element `k` after the last of `n` elements has moved to `i`. -/
def swapIndex (n i k : Nat) : Nat := if k + 1 = n then i else k

theorem swapIndex_inj {n i k k' : Nat} (hk : k ≠ i) (hk' : k' ≠ i)
    (h : swapIndex n i k = swapIndex n i k') : k = k' := by
  unfold swapIndex at h
  split at h <;> split at h <;> omega

theorem swapIndex_lt {n i k : Nat} (hi : i < n) (hk : k < n) (hne : k ≠ i) :
    swapIndex n i k < n - 1 := by
  unfold swapIndex
  split <;> omega

theorem swapRemove_concat_lt (l : List α) (x : α) (i : Nat) (hi : i < l.length) :
    swapRemove (l ++ [x]) i = l.set i x := by
  simp only [swapRemove, List.getLast?_append, List.getLast?_singleton, Option.some_or]
  rw [List.set_append_left _ _ hi, List.dropLast_concat]

theorem swapRemove_concat_last (l : List α) (x : α) : swapRemove (l ++ [x]) l.length = l := by
  simp [swapRemove]

theorem exists_concat {l : List α} {i : Nat} (hi : i < l.length) : ∃ l' x, l = l' ++ [x] :=
  ⟨l.dropLast, l.getLast (by rintro rfl; simp at hi), (List.dropLast_append_getLast _).symm⟩

theorem swapRemove_length (l : List α) (i : Nat) : (swapRemove l i).length = l.length - 1 := by
  unfold swapRemove
  cases h : l.getLast? with
  | none => simp [List.getLast?_eq_none_iff.mp h]
  | some x => simp

theorem perm_cons_swapRemove (l : List α) (i : Nat) (hi : i < l.length) :
    l.Perm (l[i] :: swapRemove l i) := by
  obtain ⟨l', x, rfl⟩ := exists_concat hi
  by_cases hl : i < l'.length
  · rw [swapRemove_concat_lt _ _ _ hl, List.getElem_append_left hl]
    have hsplit : l' = l'.take i ++ l'[i] :: l'.drop (i + 1) := by simp
    calc l' ++ [x] = (l'.take i ++ l'[i] :: l'.drop (i + 1)) ++ [x] := congrArg (· ++ [x]) hsplit
      _ = l'.take i ++ (l'[i] :: (l'.drop (i + 1) ++ [x])) := by
          simp only [List.append_assoc, List.cons_append]
      _ |>.Perm (l'[i] :: (l'.take i ++ (l'.drop (i + 1) ++ [x]))) := List.perm_middle
      _ |>.Perm (l'[i] :: (l'.take i ++ (x :: l'.drop (i + 1)))) :=
          (List.Perm.append_left _ List.perm_append_comm).cons _
      _ = l'[i] :: l'.set i x := by rw [List.set_eq_take_append_cons_drop, if_pos hl]
  · have hi' : i = l'.length := by simp at hi; omega
    subst hi'
    rw [swapRemove_concat_last]
    simp

theorem mem_swapRemove {l : List α} {i : Nat} {x : α} (hi : i < l.length)
    (h : x ∈ swapRemove l i) : x ∈ l :=
  (perm_cons_swapRemove l i hi).mem_iff.mpr (List.mem_cons_of_mem _ h)

end Stric.Pool
