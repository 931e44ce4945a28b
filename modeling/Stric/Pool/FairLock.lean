import Mathlib.Data.List.Basic
import Mathlib.Data.List.Nodup

/-!
# A fair read-write lock

Requests queue in the order in which they come, and only the first can be granted: a read
request when no one writes, a write request when no one holds a guard.  So a read request waits
for every writer before it, although the lock may be held by readers only.

A task is self-blocked if it holds a guard and waits for another one behind a writer: the writer
waits for the guard, and the task for the writer.  As long as it does not release, nothing that
others do helps it (`SelfBlocked.request`, `SelfBlocked.grant`, `SelfBlocked.release`).
-/

namespace Stric.Pool

inductive Mode where
  | read
  | write
deriving DecidableEq

/-- `readers` has a task once for each guard it holds. -/
structure FairLock (T : Type) where
  readers : List T
  writer : Option T
  waiting : List (T × Mode)
  exclusive : writer ≠ none → readers = []

namespace FairLock

variable {T : Type}

def free : FairLock T := ⟨[], none, [], fun h => absurd rfl h⟩

def request (l : FairLock T) (t : T) (m : Mode) : FairLock T :=
  { l with waiting := l.waiting ++ [(t, m)] }

/-- The first request is granted, if it can be. -/
def grant (l : FairLock T) : Option (T × FairLock T) :=
  match l.waiting with
  | [] => none
  | (t, .read) :: rest =>
    if l.writer = none then
      some (t, ⟨t :: l.readers, none, rest, fun hne => absurd rfl hne⟩)
    else none
  | (t, .write) :: rest =>
    if l.writer = none ∧ l.readers = [] then some (t, ⟨[], some t, rest, fun _ => rfl⟩) else none

/-- The task drops all its guards. -/
def release [DecidableEq T] (l : FairLock T) (t : T) : FairLock T where
  readers := l.readers.filter fun u => u ≠ t
  writer := l.writer.filter fun u => u ≠ t
  waiting := l.waiting
  exclusive h := by
    have hw : l.writer ≠ none := by
      intro hw
      rw [hw] at h
      exact h rfl
    rw [l.exclusive hw]
    rfl

def Holds (l : FairLock T) (t : T) : Prop := t ∈ l.readers ∨ l.writer = some t

/-- A read request of `t` waits behind a writer. -/
def Behind (l : FairLock T) (t : T) : Prop :=
  ∃ before w after, l.waiting = before ++ (w, .write) :: after ∧ (t, .read) ∈ after

/-- The task waits behind a writer that waits for the task's guard. -/
def SelfBlocked (l : FairLock T) (t : T) : Prop := l.Holds t ∧ l.Behind t

variable {l l' : FairLock T} {t u : T} {m : Mode}

theorem not_holds_free : ¬ (free : FairLock T).Holds t := by
  rintro (h | h)
  · exact absurd h List.not_mem_nil
  · cases h

theorem Behind.waits (h : l.Behind t) : (t, .read) ∈ l.waiting := by
  obtain ⟨before, w, after, hw, ht⟩ := h
  rw [hw]
  exact List.mem_append_right _ (List.mem_cons_of_mem _ ht)

/-- A request stands behind the writers that wait already. -/
theorem behind_request : (l.request u m).Behind t ↔
    l.Behind t ∨ (u = t ∧ m = .read ∧ ∃ w, (w, .write) ∈ l.waiting) := by
  constructor
  · rintro ⟨before, w, after, hw, ht⟩
    change l.waiting ++ [(u, m)] = before ++ (w, .write) :: after at hw
    -- the last one of those after the writer is the request
    rcases List.eq_nil_or_concat after with rfl | ⟨after, last, rfl⟩
    · exact absurd ht List.not_mem_nil
    · rw [List.concat_eq_append] at hw ht
      rw [← List.cons_append, ← List.append_assoc] at hw
      obtain ⟨hwait, hlast⟩ := List.append_inj' hw rfl
      cases hlast
      rcases List.mem_append.mp ht with ht | ht
      · exact Or.inl ⟨before, w, after, hwait, ht⟩
      · cases List.mem_singleton.mp ht
        refine Or.inr ⟨rfl, rfl, w, ?_⟩
        rw [hwait]
        exact List.mem_append_right _ List.mem_cons_self
  · rintro (⟨before, w, after, hw, ht⟩ | ⟨rfl, rfl, w, hw⟩)
    · refine ⟨before, w, after ++ [(u, m)], ?_, List.mem_append_left _ ht⟩
      show l.waiting ++ [(u, m)] = _
      rw [hw, List.append_assoc, List.cons_append]
    · obtain ⟨before, after, hw⟩ := List.append_of_mem hw
      refine ⟨before, w, after ++ [(u, .read)], ?_, List.mem_append_right _ List.mem_cons_self⟩
      show l.waiting ++ [(u, .read)] = _
      rw [hw, List.append_assoc, List.cons_append]

/-- What a grant needs and does. -/
theorem of_grant (h : l.grant = some (t, l')) :
    ∃ m, l.waiting = (t, m) :: l'.waiting ∧ (∀ u, l'.Holds u ↔ u = t ∨ l.Holds u) ∧
      (m = .write → ∀ u, ¬ l.Holds u) := by
  unfold grant at h
  split at h
  · cases h
  · next t₀ rest hw =>
    split at h
    · next hwriter =>
      cases h
      refine ⟨.read, hw, fun u => ?_, nofun⟩
      simp [Holds, hwriter]
    · cases h
  · next t₀ rest hw =>
    split at h
    · next hfree =>
      cases h
      have hnot : ∀ u, ¬ l.Holds u := by
        rintro u (hu | hu)
        · rw [hfree.2] at hu
          exact absurd hu List.not_mem_nil
        · rw [hfree.1] at hu
          cases hu
      refine ⟨.write, hw, fun u => ?_, fun _ => hnot⟩
      rw [or_iff_left (hnot u)]
      simp [Holds, eq_comm]
    · cases h

theorem behind_of_grant (h : l.grant = some (u, l')) (hb : l'.Behind t) : l.Behind t := by
  obtain ⟨m, hw, -⟩ := of_grant h
  obtain ⟨before, w, after, hw', ht⟩ := hb
  exact ⟨(u, m) :: before, w, after, by rw [hw, hw', List.cons_append], ht⟩

/-- If everyone waits for one guard at a time, a grant blocks no one. -/
theorem selfBlocked_of_grant (h : l.grant = some (u, l')) (hnodup : (l.waiting.map Prod.fst).Nodup)
    (hb : l'.SelfBlocked t) : l.SelfBlocked t := by
  refine ⟨?_, behind_of_grant h hb.2⟩
  obtain ⟨m, hw, hholds, -⟩ := of_grant h
  rcases (hholds t).mp hb.1 with rfl | hold
  · rw [hw, List.map_cons, List.nodup_cons] at hnodup
    exact absurd (List.mem_map_of_mem (f := Prod.fst) hb.2.waits) hnodup.1
  · exact hold

theorem SelfBlocked.request (h : l.SelfBlocked t) : (l.request u m).SelfBlocked t :=
  ⟨h.1, behind_request.mpr (Or.inl h.2)⟩

theorem SelfBlocked.grant (h : l.SelfBlocked t) (hg : l.grant = some (u, l')) :
    l'.SelfBlocked t := by
  obtain ⟨hold, before, w, after, hw, ht⟩ := h
  obtain ⟨m, hw', hholds, hfree⟩ := of_grant hg
  refine ⟨(hholds t).mpr (Or.inr hold), ?_⟩
  rw [hw] at hw'
  cases before with
  | nil =>
    -- the writer cannot be the next one: the task holds a guard
    cases hw'
    exact absurd hold (hfree rfl t)
  | cons e before =>
    obtain ⟨-, hrest⟩ := List.cons.inj hw'
    exact ⟨before, w, after, hrest.symm, ht⟩

section
variable [DecidableEq T]

theorem holds_release : (l.release u).Holds t ↔ t ≠ u ∧ l.Holds t := by
  unfold Holds release
  simp only [List.mem_filter, decide_eq_true_eq, Option.filter_eq_some_iff, ne_eq]
  tauto

theorem SelfBlocked.release (h : l.SelfBlocked t) (hne : t ≠ u) : (l.release u).SelfBlocked t :=
  ⟨holds_release.mpr ⟨hne, h.1⟩, h.2⟩

end

end FairLock

end Stric.Pool
