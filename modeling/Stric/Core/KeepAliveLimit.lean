import Stric.Core.KeepAlive

/-!
# The limit of streams per worker

The manager takes the first worker whose shared counter is below the limit.  The worker writes
that counter only when it takes a stream from its channel, so streams that wait there are not
counted: of two streams sent in a row the second may be one too many (`third_stream_sent`).

A worker's `load` is what it has and what waits for it.  No load ever exceeds the limit exactly
if every stream is sent to a worker with room for it (`load_within_iff`), and then no worker has
more streams than the limit (`streams_within_limit`).
-/

namespace Stric.Core

open Stric.Pool

namespace KeepAliveWorker

variable {limit : Nat} {listed : Bool} {w w' : KeepAliveWorker} {act : WorkerAct}
  {cmd : Option PoolCommand} {bad : Option Nat}

/-- The streams the worker has been given: those it has, and those in its channel. -/
def load (w : KeepAliveWorker) : Nat := w.streams.length + w.receiver.length

theorem act_load_le (h : w.act limit listed act = some (w', cmd, bad)) : w'.load ≤ w.load := by
  obtain ⟨-, hof⟩ := of_act h
  unfold load
  cases act with
  | recv =>
    obtain ⟨-, -, -, -, s, rest, hrecv, hrecv', hstreams⟩ := hof
    simp only [hrecv, hrecv', hstreams, List.length_append, List.length_cons, List.length_nil]
    omega
  | recvNone =>
    obtain ⟨-, -, -, -, rfl⟩ := hof
    exact Nat.le_refl _
  | tick now =>
    obtain ⟨-, -, -, rfl⟩ := hof
    exact Nat.le_refl _
  | ping ok =>
    obtain ⟨-, -, -, hrecv, ⟨-, hstreams⟩ | ⟨-, i, s, -, hstreams, -⟩⟩ := hof
    · have hlen := congrArg List.length hstreams
      rw [List.length_map, List.length_map] at hlen
      rw [hrecv, hlen]
    · have hlen := List.length_eraseIdx_le w.streams i
      rw [hstreams, hrecv]
      omega
  | rest =>
    obtain ⟨-, -, -, -, hrecv, hstreams⟩ := hof
    rw [hrecv, hstreams]
  | handOff =>
    obtain ⟨-, -, -, -, hrecv, hstreams, -⟩ := hof
    rw [hrecv, hstreams, List.length_nil]
    omega
  | send =>
    obtain ⟨-, rfl, -⟩ := hof
    exact Nat.le_refl _
  | exit =>
    obtain ⟨-, -, -, rfl⟩ := hof
    exact Nat.zero_le _

end KeepAliveWorker

/-- No worker has been given more streams than the limit. -/
def PoolState.LoadWithin (s : PoolState) : Prop := ∀ w ∈ s.tasks, w.load ≤ s.limit

/-- A stream is sent only to a worker that has room for it besides those in its channel. -/
def FindsRoom (s : PoolState) : PoolLabel → Prop
  | .send => ∀ w ∈ s.tasks, s.target = some w.id → w.load < s.limit
  | _ => True

variable {s s' : PoolState} {l : PoolLabel} {past : List (PoolState × PoolLabel)} {limit : Nat}

theorem PoolState.LoadWithin.spawn (h : s.LoadWithin) (hpos : 0 < s.limit) (hands : List ManagedStream)
    (target : Option Nat) (stream : ManagedStream) :
    ({ s with hands := hands, target := target }.spawn stream).LoadWithin := by
  intro w hw
  rcases List.mem_append.mp hw with hw | hw
  · exact h w hw
  · cases List.mem_singleton.mp hw
    exact hpos

/-- Only a send can take a load over the limit, and only one that finds no room. -/
theorem PoolStep.loadWithin_iff (hinv : PoolInv s) (hpos : 0 < s.limit) (hs : PoolStep s l s')
    (h : s.LoadWithin) : s'.LoadWithin ↔ FindsRoom s l := by
  cases hs with
  | add _ _ => exact iff_of_true h trivial
  | receive _ _ _ => exact iff_of_true h trivial
  | choose _ _ _ => exact iff_of_true h trivial
  | spawn _ _ _ => exact iff_of_true (h.spawn hpos _ _ _) trivial
  | @send stream rest l₁ l₂ w _ htarget htasks _ _ =>
    have hload : ({ w with receiver := w.receiver ++ [stream] } : KeepAliveWorker).load =
        w.load + 1 := by
      show w.streams.length + (w.receiver ++ [stream]).length = _
      rw [List.length_append]
      rfl
    constructor
    · intro h' x hx hid
      have hw := h' _ (List.mem_append_right _ List.mem_cons_self)
      rw [hload] at hw
      -- the target is the worker that gets the stream, since ids are unique
      have hxw : x.id = w.id := Option.some.inj (hid.symm.trans htarget)
      rw [htasks, List.mem_append, List.mem_cons] at hx
      rcases hx with hx | rfl | hx
      · exact absurd hxw (hinv.unique htasks (Or.inl hx))
      · exact hw
      · exact absurd hxw (hinv.unique htasks (Or.inr hx))
    · intro hroom
      have hlt := hroom w (PoolState.mem_tasks htasks) htarget
      exact PoolState.forall_replace h htasks (hload ▸ hlt)
  | sendFails _ _ _ _ => exact iff_of_true (h.spawn hpos _ _ _) trivial
  | @worker l₁ l₂ w w' act cmd bad htasks hact _ =>
    have hle := KeepAliveWorker.act_load_le hact
    have hw := h w (PoolState.mem_tasks htasks)
    exact iff_of_true (PoolState.forall_replace h htasks (hle.trans hw)) trivial

theorem limit_of_history (h : History PoolStep (.new limit) past s) : s.limit = limit :=
  h.invariant (fun s => s.limit = limit) rfl fun _ _ _ hs hstep => hstep.limit_eq.trans hs

/-- **When the limit bounds what workers are given.** -/
theorem load_within_iff (hpos : 0 < limit) (h : History PoolStep (.new limit) past s) :
    (s.LoadWithin ∧ ∀ e ∈ past, e.1.LoadWithin) ↔ ∀ e ∈ past, FindsRoom e.1 e.2 := by
  refine h.always_iff PoolState.LoadWithin FindsRoom ?_ ?_
  · intro w hw
    exact absurd hw List.not_mem_nil
  · intro past s l s' hrun hs hgood
    rw [← limit_of_history hrun] at hpos
    exact hs.loadWithin_iff (PoolInv.run hrun) hpos hgood

/-- **Workers respect the limit** in every run in which each stream is sent to a worker that has
room for it besides the streams waiting in its channel. -/
theorem streams_within_limit (hpos : 0 < limit) (h : History PoolStep (.new limit) past s)
    (hroom : ∀ e ∈ past, FindsRoom e.1 e.2) :
    ∀ w ∈ s.tasks, w.streams.length ≤ limit := by
  intro w hw
  have hload := ((load_within_iff hpos h).mpr hroom).1 w hw
  rw [limit_of_history h] at hload
  exact (Nat.le_add_right _ _).trans hload

/-- The second and the third stream are both sent while the worker's counter says 1, and the
worker then takes both. -/
theorem third_stream_sent : ∃ past s, History PoolStep (.new 2) past s ∧
    ∃ w ∈ s.tasks, s.limit < w.streams.length := by
  have h1 := added (.start : History PoolStep (.new 2) [] (.new 2)) 0 5 (by decide) (by decide)
  have h2 := spawnedWorker (received h1 0 rfl rfl rfl) rfl rfl rfl
  have h3 := received (added h2 1 5 (by decide) (by decide)) 0 rfl rfl rfl
  have h4 := (h3.step (.choose rfl rfl rfl)).step
    (.send rfl rfl (List.nil_append _).symm (by decide) (by decide))
  have h5 := received (added h4 2 5 (by decide) (by decide)) 0 rfl rfl rfl
  have h6 := (h5.step (.choose rfl rfl rfl)).step
    (.send rfl rfl (List.nil_append _).symm (by decide) (by decide))
  have h7 := workerActed (workerActed h6 .recv rfl rfl (by decide)) .recv rfl rfl (by decide)
  exact ⟨_, _, h7, _, List.mem_singleton_self _, by decide⟩

/-- The second stream goes to the worker of the first, which has room for it. -/
theorem second_stream_within_limit : ∃ past s, History PoolStep (.new 2) past s ∧
    s.tasks.map (fun w => w.streams.length) = [2] ∧ ∀ w ∈ s.tasks, w.streams.length ≤ 2 := by
  have h1 := added (.start : History PoolStep (.new 2) [] (.new 2)) 0 5 (by decide) (by decide)
  have h2 := spawnedWorker (received h1 0 rfl rfl rfl) rfl rfl rfl
  have h3 := received (added h2 1 5 (by decide) (by decide)) 0 rfl rfl rfl
  have h4 := (h3.step (.choose rfl rfl rfl)).step
    (.send rfl rfl (List.nil_append _).symm (by decide) (by decide))
  have h5 := workerActed h4 .recv rfl rfl (by decide)
  refine ⟨_, _, h5, rfl, streams_within_limit (by decide) h5 ?_⟩
  simp only [List.forall_mem_cons]
  refine ⟨trivial, ?_, trivial, trivial, trivial, trivial, trivial, trivial,
    fun e he => absurd he List.not_mem_nil⟩
  intro w hw _
  cases List.mem_singleton.mp hw
  decide

end Stric.Core
