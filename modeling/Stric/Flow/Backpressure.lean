import Stric.Flow.Node
import Stric.Pool.History

/-!
# Pausing and resuming a flow (`backpressure.rs`)

Any number of tasks run `wait_for_bytes` while the control loop pauses and resumes the limiter.

* A task reads the flag, and in a later step creates and awaits a notification; it does so in two
  loops, before and after it has asked the token bucket (`WaitLoop`).
* `resume` clears the flag, and in a later step calls `notify_waiters`.  This signals the
  notifications that exist, and leaves nothing for those that are created afterwards.
* What the bucket answers is left open.

A wake-up is lost if a resume falls between the two steps of a task (`wakeup_lost`); then the task
stays parked until some later resume (`parked_until_notify`).  No task is ever left behind exactly
if every notification is created while the limiter is paused or a resume is in progress
(`resume_wakes_iff`).  `signal_view` ties the limiter to the two fields that the control loop's
model has of it.
-/

namespace Stric.Flow

open Stric.Pool

/-- The loops of `wait_for_bytes` that wait while the limiter is paused: the one at its start, and
the one after a sleep. -/
inductive WaitLoop where
  | entry
  | throttled
deriving DecidableEq

inductive WaitPhase where
  /-- It is about to read the flag. -/
  | reading (loop : WaitLoop)
  /-- It has read `true`, and has not yet created its notification. -/
  | sawPaused (loop : WaitLoop)
  | parked (loop : WaitLoop) (signalled : Bool)
  /-- It is about to read `max_rate`. -/
  | unpaused
  /-- It is about to ask the bucket. -/
  | checking
  | sleeping
  | returned
deriving DecidableEq

structure WaitTask where
  bytes : UInt32
  phase : WaitPhase
deriving DecidableEq

/-- What `check_n` returns: `Ok(Ok(_))`, `Ok(Err(not_until))` or `Err(_)`. -/
inductive BucketResult where
  | conforming
  | notUntil
  | insufficientCapacity
deriving DecidableEq

inductive WaitAct where
  | read
  | wait
  | wake
  | getRate
  | check (res : BucketResult)
  | slept
deriving DecidableEq

namespace WaitTask

/-- Where a task goes when it leaves the loop. -/
def leave : WaitLoop → WaitPhase
  | .entry => .unpaused
  | .throttled => .checking

/-- Where a step of `wait_for_bytes` leads. -/
def next (bytes : UInt32) (paused : Bool) (maxRate : UInt32) :
    WaitPhase → WaitAct → Option WaitPhase
  | .reading loop, .read => some (if paused then .sawPaused loop else leave loop)
  | .sawPaused loop, .wait => some (.parked loop false)
  | .parked loop true, .wake => some (.reading loop)
  | .unpaused, .getRate => some (if maxRate = 0 ∨ bytes = 0 then .returned else .checking)
  | .checking, .check res => some (if res = .notUntil then .sleeping else .returned)
  | .sleeping, .slept => some (.reading .throttled)
  | _, _ => none

def act (t : WaitTask) (paused : Bool) (maxRate : UInt32) (a : WaitAct) : Option WaitTask :=
  (next t.bytes paused maxRate t.phase a).map fun phase => { t with phase := phase }

/-- The task's notification, if it has one, is signalled. -/
def signal (t : WaitTask) : WaitTask :=
  match t.phase with
  | .parked loop _ => { t with phase := .parked loop true }
  | _ => t

/-- The task waits for a notification that has not been signalled. -/
def Waiting (t : WaitTask) : Prop := ∃ loop, t.phase = .parked loop false

end WaitTask

structure LimiterState where
  paused : Bool
  maxRate : UInt32
  /-- The calls of `resume` that have cleared the flag and not yet called `notify_waiters`. -/
  resuming : Nat
  tasks : Nat → Option WaitTask

inductive LimiterLabel where
  | call (k : Nat) (bytes : UInt32)
  | task (k : Nat) (act : WaitAct)
  | pause
  | resume
  | notify
  | setRate (maxRate : UInt32)
deriving DecidableEq

namespace LimiterState

def new (maxRate : UInt32) : LimiterState := ⟨false, maxRate, 0, fun _ => none⟩

def setTask (s : LimiterState) (k : Nat) (t : WaitTask) : LimiterState :=
  { s with tasks := fun j => if j = k then some t else s.tasks j }

def step (s : LimiterState) : LimiterLabel → Option LimiterState
  | .call k bytes =>
    if (s.tasks k).isNone then some (s.setTask k ⟨bytes, .reading .entry⟩) else none
  | .task k act => do
    let t ← s.tasks k
    let t ← t.act s.paused s.maxRate act
    return s.setTask k t
  | .pause => some { s with paused := true }
  | .resume => some { s with paused := false, resuming := s.resuming + 1 }
  | .notify =>
    if s.resuming = 0 then none
    else some { s with
      resuming := s.resuming - 1
      tasks := fun k => (s.tasks k).map WaitTask.signal }
  | .setRate maxRate => some { s with maxRate := maxRate }

/-- No task waits while the limiter is not paused and no resume is in progress. -/
def NoneLeft (s : LimiterState) : Prop :=
  s.paused = false → s.resuming = 0 → ∀ k t, s.tasks k = some t → ¬ t.Waiting

/-- A notification is created while the limiter is paused or a resume is in progress. -/
def InTime (s : LimiterState) : LimiterLabel → Prop
  | .task _ .wait => s.paused = true ∨ 0 < s.resuming
  | _ => True

end LimiterState

def LimiterStep (s : LimiterState) (l : LimiterLabel) (s' : LimiterState) : Prop :=
  s.step l = some s'

/-! ## What a step does -/

namespace WaitTask

variable {t t' : WaitTask} {paused : Bool} {maxRate : UInt32} {act : WaitAct}

/-- A task begins to wait in the step that creates its notification, and in no other. -/
theorem waiting_iff_of_act (h : t.act paused maxRate act = some t') :
    t'.Waiting ↔ act = .wait := by
  obtain ⟨phase, hnext, rfl⟩ := Option.map_eq_some_iff.mp h
  show (∃ loop, phase = .parked loop false) ↔ _
  unfold next at hnext
  split at hnext <;> cases hnext
  · cases paused <;> cases ‹WaitLoop› <;> simp [leave]
  · simp
  · simp
  · split <;> simp
  · split <;> simp
  · simp

theorem not_waiting_signal (t : WaitTask) : ¬ t.signal.Waiting := by
  rintro ⟨loop, h⟩
  unfold signal at h
  split at h
  · cases h
  · next hnot => exact hnot _ _ h

/-- A task that waits can do nothing. -/
theorem Waiting.act_eq_none (h : t.Waiting) : t.act paused maxRate act = none := by
  obtain ⟨loop, h⟩ := h
  unfold WaitTask.act
  rw [h]
  cases act <;> rfl

end WaitTask

namespace LimiterState

variable {s s' : LimiterState} {k : Nat} {t : WaitTask}

theorem setTask_self : (s.setTask k t).tasks k = some t := if_pos rfl

theorem setTask_ne {j : Nat} (h : j ≠ k) : (s.setTask k t).tasks j = s.tasks j := if_neg h

theorem of_step_task {act : WaitAct} (h : s.step (.task k act) = some s') :
    ∃ t t', s.tasks k = some t ∧ t.act s.paused s.maxRate act = some t' ∧ s' = s.setTask k t' := by
  simp only [step, Option.bind_eq_bind, Option.bind_eq_some_iff, Option.pure_def,
    Option.some.injEq] at h
  obtain ⟨t, ht, t', hact, rfl⟩ := h
  exact ⟨t, t', ht, hact, rfl⟩

/-- A task that is not waiting changes nothing for the others. -/
theorem NoneLeft.setTask (h : s.NoneLeft) (ht : ¬ t.Waiting) : (s.setTask k t).NoneLeft := by
  intro hp hr j u hu
  by_cases hj : j = k
  · subst hj
    rw [setTask_self] at hu
    cases hu
    exact ht
  · rw [setTask_ne hj] at hu
    exact h hp hr j u hu

/-- From a state where no task is left behind, only the creation of a notification can lead to one
where some task is. -/
theorem noneLeft_step_iff {l : LimiterLabel} (h : s.NoneLeft) (hs : s.step l = some s') :
    s'.NoneLeft ↔ s.InTime l := by
  cases l with
  | call k bytes =>
    simp only [step, Option.ite_none_right_eq_some, Option.some.injEq] at hs
    obtain ⟨-, rfl⟩ := hs
    refine iff_of_true (h.setTask ?_) trivial
    rintro ⟨loop, hloop⟩
    cases hloop
  | task k act =>
    obtain ⟨t, t', ht, hact, rfl⟩ := of_step_task hs
    have hwait := WaitTask.waiting_iff_of_act hact
    by_cases hw : act = .wait
    · subst hw
      show _ ↔ s.paused = true ∨ 0 < s.resuming
      constructor
      · intro hnone
        by_contra hnot
        obtain ⟨hp, hr⟩ := not_or.mp hnot
        exact hnone (Bool.not_eq_true _ ▸ hp) (Nat.eq_zero_of_not_pos hr) k t' setTask_self
          (hwait.mpr rfl)
      · intro hin hp hr
        rcases hin with hin | hin
        · exact absurd (hp.symm.trans hin) Bool.false_ne_true
        · exact absurd hr (Nat.ne_of_gt hin)
    · have hin : s.InTime (.task k act) := by
        cases act <;> first | exact absurd rfl hw | trivial
      exact iff_of_true (h.setTask fun hwaiting => hw (hwait.mp hwaiting)) hin
  | pause =>
    cases hs
    exact iff_of_true (fun hp => absurd hp (by simp)) trivial
  | resume =>
    cases hs
    exact iff_of_true (fun _ hr => absurd hr (Nat.succ_ne_zero _)) trivial
  | notify =>
    simp only [step, Option.ite_none_left_eq_some, Option.some.injEq] at hs
    obtain ⟨-, rfl⟩ := hs
    refine iff_of_true (fun _ _ k t ht => ?_) trivial
    obtain ⟨t₀, -, rfl⟩ := Option.map_eq_some_iff.mp ht
    exact t₀.not_waiting_signal
  | setRate maxRate =>
    cases hs
    exact iff_of_true h trivial

end LimiterState

/-! ## Whole runs -/

variable {past : List (LimiterState × LimiterLabel)} {s : LimiterState}

/-- **When resume wakes every waiter.**  In every state of a run with any number of tasks, no task
is parked on an unsignalled notification while the limiter is un-paused and no resume is in
progress, exactly if every notification is created while the limiter is paused or a resume is in
progress. -/
theorem resume_wakes_iff {maxRate : UInt32}
    (h : History LimiterStep (LimiterState.new maxRate) past s) :
    (s.NoneLeft ∧ ∀ e ∈ past, e.1.NoneLeft) ↔ ∀ e ∈ past, e.1.InTime e.2 := by
  refine h.always_iff LimiterState.NoneLeft LimiterState.InTime ?_ ?_
  · intro _ _ k t ht
    exact absurd ht (by simp [LimiterState.new])
  · intro past s l s' _ hs hnone
    exact LimiterState.noneLeft_step_iff hnone hs

/-- Without another `notify_waiters`, a task that waits stays where it is. -/
theorem parked_until_notify {s₀ : LimiterState} (h : History LimiterStep s₀ past s) {k : Nat}
    {t : WaitTask} (ht : s₀.tasks k = some t) (hwait : t.Waiting)
    (hno : ∀ e ∈ past, e.2 ≠ .notify) : s.tasks k = some t := by
  induction h with
  | start => exact ht
  | @step past s s' l hrun hs ih =>
    obtain ⟨hl, hno⟩ := List.forall_mem_cons.mp hno
    have hk := ih hno
    change s.step l = some s' at hs
    cases l with
    | call j bytes =>
      simp only [LimiterState.step, Option.ite_none_right_eq_some, Option.some.injEq] at hs
      obtain ⟨hfree, rfl⟩ := hs
      have hne : k ≠ j := by
        rintro rfl
        rw [hk] at hfree
        exact absurd hfree (by simp)
      rw [LimiterState.setTask_ne hne]
      exact hk
    | task j act =>
      obtain ⟨u, u', hu, hact, rfl⟩ := LimiterState.of_step_task hs
      have hne : k ≠ j := by
        rintro rfl
        rw [hk] at hu
        cases hu
        rw [hwait.act_eq_none] at hact
        cases hact
      rw [LimiterState.setTask_ne hne]
      exact hk
    | pause =>
      cases hs
      exact hk
    | resume =>
      cases hs
      exact hk
    | notify => exact absurd rfl hl
    | setRate maxRate =>
      cases hs
      exact hk

/-! ## A resume between the two steps of a task -/

theorem LimiterState.taken {s₀ s' : LimiterState} (h : History LimiterStep s₀ past s)
    (l : LimiterLabel) (hs : s.step l = some s') : History LimiterStep s₀ ((s, l) :: past) s' :=
  h.step hs

/-- A task reads that the limiter is paused; the limiter is resumed and all waiters are notified;
then the task creates its notification.  This happens in the first loop as in the second. -/
theorem wakeup_lost :
    (∃ past s, History LimiterStep (.new 0) past s ∧ s.paused = false ∧ s.resuming = 0 ∧
      s.tasks 0 = some ⟨10, .parked .entry false⟩) ∧
    (∃ past s, History LimiterStep (.new 5) past s ∧ s.paused = false ∧ s.resuming = 0 ∧
      s.tasks 0 = some ⟨10, .parked .throttled false⟩) := by
  constructor
  · have h0 : History LimiterStep (.new 0) [] (.new 0) := .start
    have h1 := LimiterState.taken (LimiterState.taken h0 (.call 0 10) rfl) .pause rfl
    have h2 := LimiterState.taken (LimiterState.taken h1 (.task 0 .read) rfl) .resume rfl
    have h3 := LimiterState.taken (LimiterState.taken h2 .notify rfl) (.task 0 .wait) rfl
    exact ⟨_, _, h3, rfl, rfl, rfl⟩
  · have h0 : History LimiterStep (.new 5) [] (.new 5) := .start
    have h1 := LimiterState.taken (LimiterState.taken h0 (.call 0 10) rfl) (.task 0 .read) rfl
    have h2 := LimiterState.taken (LimiterState.taken h1 (.task 0 .getRate) rfl)
      (.task 0 (.check .notUntil)) rfl
    have h3 := LimiterState.taken (LimiterState.taken h2 .pause rfl) (.task 0 .slept) rfl
    have h4 := LimiterState.taken (LimiterState.taken h3 (.task 0 .read) rfl) .resume rfl
    have h5 := LimiterState.taken (LimiterState.taken h4 .notify rfl) (.task 0 .wait) rfl
    exact ⟨_, _, h5, rfl, rfl, rfl⟩

/-- A task that is parked before the resume begins is woken. -/
theorem parked_task_woken : ∃ past s, History LimiterStep (.new 0) past s ∧
    s.tasks 0 = some ⟨10, .unpaused⟩ ∧ s.NoneLeft ∧ ∀ e ∈ past, e.1.NoneLeft := by
  have h0 : History LimiterStep (.new 0) [] (.new 0) := .start
  have h1 := LimiterState.taken (LimiterState.taken h0 (.call 0 10) rfl) .pause rfl
  have h2 := LimiterState.taken (LimiterState.taken h1 (.task 0 .read) rfl) (.task 0 .wait) rfl
  have h3 := LimiterState.taken (LimiterState.taken h2 .resume rfl) .notify rfl
  have h4 := LimiterState.taken (LimiterState.taken h3 (.task 0 .wake) rfl) (.task 0 .read) rfl
  refine ⟨_, _, h4, rfl, (resume_wakes_iff h4).mpr ?_⟩
  simp only [List.forall_mem_cons]
  exact ⟨trivial, trivial, trivial, trivial, Or.inl rfl, trivial, trivial, trivial,
    fun e he => absurd he List.not_mem_nil⟩

/-! ## The control loop's view -/

/-- The calls that the control loop makes for a signal. -/
def BackpressureSignal.calls (signal : BackpressureSignal) : List LimiterLabel :=
  if signal.action = 0 then [.pause]
  else if signal.action = 1 then [.resume, .notify]
  else if signal.action = 2 then [.resume, .notify, .setRate signal.maxRate]
  else []

def LimiterState.view (s : LimiterState) : RateLimiter := ⟨s.paused, s.maxRate⟩

/-- The control loop's model of a signal is what the calls do to flag and rate. -/
theorem signal_view {γ δ : Type} (n : FlowNode γ δ) (signal : BackpressureSignal)
    (s : LimiterState) (h : n.flowLimiters.lookup signal.flowId = some s.view) :
    ∃ s', signal.calls.foldlM LimiterState.step s = some s' ∧
      (n.onBackpressure signal).1.flowLimiters.lookup signal.flowId = some s'.view := by
  unfold BackpressureSignal.calls FlowNode.onBackpressure
  simp only [h, Option.getD_some, AList.lookup_insert]
  split
  · exact ⟨_, rfl, rfl⟩
  split
  · exact ⟨_, rfl, rfl⟩
  split
  · exact ⟨_, rfl, rfl⟩
  · exact ⟨s, rfl, rfl⟩

end Stric.Flow
