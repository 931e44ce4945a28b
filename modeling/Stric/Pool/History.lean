import Mathlib.Data.List.Infix
import Mathlib.Data.Set.Finite.Basic
import Mathlib.Order.Interval.Finset.Nat
import Mathlib.Order.OrderIsoNat

/-!
# Histories of labelled steps

A history keeps, for every step taken, the state it was taken from and its label; the latest
step stands first.  So conditions on the steps of a run can speak about the states in which
they were taken.

    History step init past s        `s` is reached from `init`, through `past`

`History.always_iff` is the rule for exact conditions: if, from a good state, a step leads to
a good state exactly if it is safe, then a run is good throughout exactly if all its steps are
safe.  `Forever.finite_marked` is the rule for endless runs: what makes a number smaller that
never grows happens finitely often.  Where every step makes something smaller no run is endless
(`Forever.false_of_wellFounded`), and some run ends (`exists_last`).
-/

namespace Stric.Pool

variable {S L : Type} {step : S → L → S → Prop} {init s s₀ : S} {l : L} {past past₀ : List (S × L)}

inductive History (step : S → L → S → Prop) (init : S) : List (S × L) → S → Prop
  | start : History step init [] init
  | step {past : List (S × L)} {s s' : S} {l : L} :
      History step init past s → step s l s' → History step init ((s, l) :: past) s'

/-- What a run has done before one of its steps is a run. -/
theorem History.before (h : History step init past s) (hsuf : (s₀, l) :: past₀ <:+ past) :
    History step init past₀ s₀ ∧ ∃ s', step s₀ l s' := by
  induction h with
  | start => exact absurd (List.suffix_nil.mp hsuf) (by simp)
  | step hrun hs ih =>
    rcases List.suffix_cons_iff.mp hsuf with heq | hsuf
    · obtain ⟨hpair, rfl⟩ := List.cons.inj heq
      obtain ⟨rfl, rfl⟩ := Prod.mk.inj hpair
      exact ⟨hrun, _, hs⟩
    · exact ih hsuf

theorem History.invariant (I : S → Prop) (hinit : I init)
    (hstep : ∀ s l s', I s → step s l s' → I s') (h : History step init past s) : I s := by
  induction h with
  | start => exact hinit
  | step _ hs ih => exact hstep _ _ _ ih hs

/-- **Exact conditions.**  A run stays good exactly if all its steps are safe. -/
theorem History.always_iff (Good : S → Prop) (Safe : S → L → Prop) (hinit : Good init)
    (hstep : ∀ past s l s', History step init past s → step s l s' → Good s →
      (Good s' ↔ Safe s l))
    (h : History step init past s) :
    (Good s ∧ ∀ e ∈ past, Good e.1) ↔ ∀ e ∈ past, Safe e.1 e.2 := by
  induction h with
  | start =>
    exact ⟨fun _ e he => absurd he List.not_mem_nil,
      fun _ => ⟨hinit, fun e he => absurd he List.not_mem_nil⟩⟩
  | @step past s s' l hrun hs ih =>
    constructor
    · rintro ⟨hgood, hpast⟩
      have hs₀ : Good s := hpast _ List.mem_cons_self
      refine List.forall_mem_cons.mpr ⟨(hstep past s l s' hrun hs hs₀).mp hgood, ?_⟩
      exact ih.mp ⟨hs₀, fun e he => hpast e (List.mem_cons_of_mem _ he)⟩
    · intro hsafe
      obtain ⟨hnow, hbefore⟩ := List.forall_mem_cons.mp hsafe
      obtain ⟨hs₀, hpast⟩ := ih.mpr hbefore
      exact ⟨(hstep past s l s' hrun hs hs₀).mpr hnow, List.forall_mem_cons.mpr ⟨hs₀, hpast⟩⟩

/-! ## Endless runs -/

/-- The states of an endless run, and the labels of its steps. -/
def Forever (step : S → L → S → Prop) (run : ℕ → S) (labels : ℕ → L) : Prop :=
  ∀ n, step (run n) (labels n) (run (n + 1))

theorem Forever.finite_marked {run : ℕ → S} {labels : ℕ → L} (h : Forever step run labels)
    (I : S → Prop) (μ : S → ℕ) (Marked : L → Prop) (hinit : I (run 0))
    (hstep : ∀ s l s', I s → step s l s' → I s' ∧ μ s' ≤ μ s ∧ (Marked l → μ s' < μ s)) :
    {n | Marked (labels n)}.Finite := by
  have hI : ∀ n, I (run n) := by
    intro n
    induction n with
    | zero => exact hinit
    | succ n ih => exact (hstep _ _ _ ih (h n)).1
  have hanti : Antitone (μ ∘ run) := antitone_nat_of_succ_le fun n => (hstep _ _ _ (hI n) (h n)).2.1
  obtain ⟨n, hn⟩ := WellFoundedLT.antitone_chain_condition hanti
  refine (Set.finite_Iio n).subset fun m hm => ?_
  -- from the `n`th step on the measure does not change
  by_contra hle
  rw [Set.mem_Iio, not_lt] at hle
  have hlt := (hstep _ _ _ (hI m) (h m)).2.2 hm
  have hm₁ : μ (run n) = μ (run m) := hn m hle
  have hm₂ : μ (run n) = μ (run (m + 1)) := hn (m + 1) (hle.trans (Nat.le_succ m))
  omega

section
variable {α : Type} {R : α → α → Prop} (hwf : WellFounded R) (f : S → α) (I : S → Prop)
  (hstep : ∀ s l s', I s → step s l s' → I s' ∧ R (f s') (f s))
include hwf hstep

/-- If every step makes something smaller, no run is endless. -/
theorem Forever.false_of_wellFounded {run : ℕ → S} {labels : ℕ → L} (hinit : I (run 0)) :
    ¬ Forever step run labels := by
  intro h
  have hend : ∀ a n, I (run n) → f (run n) = a → False := by
    intro a
    induction a using hwf.induction with
    | _ a ih =>
      rintro n hn rfl
      obtain ⟨hn', hlt⟩ := hstep _ _ _ hn (h n)
      exact ih _ hlt (n + 1) hn' rfl
  exact hend _ 0 hinit rfl

/-- If every step makes something smaller, there is a last state. -/
theorem exists_last (hs : I s) : ∃ s', I s' ∧ ∀ l s'', ¬ step s' l s'' := by
  induction ha : f s using hwf.induction generalizing s with
  | _ a ih =>
    by_cases hlast : ∀ l s'', ¬ step s l s''
    · exact ⟨s, hs, hlast⟩
    · simp only [not_forall, not_not] at hlast
      obtain ⟨l, s', hs'⟩ := hlast
      obtain ⟨hI, hlt⟩ := hstep _ _ _ hs hs'
      exact ih _ (ha ▸ hlt) hI rfl

end

end Stric.Pool
