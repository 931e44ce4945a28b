import Stric.Pool.FairLock
import Stric.Pool.History

/-!
# Guards of `local_subscriptions` (`node.rs`)

Three kinds of task take a guard of `local_subscriptions`.  `handle_new_connection` takes a read
guard for its `FlowHandshake` and keeps it to its end; before that, it takes a second one for the
`SubscriptionUpdate` it sends to the new peer.  `subscribe` spawns a task that takes the write
guard and keeps it until the control loop's queue has taken the update.  `publish` takes one read
guard and keeps it while the handler runs.

    TaskStep s l s'        a task is spawned, takes a step, or is granted its guard

* A step of a task is everything up to its next `await`; what it awaits (streams, queues, the
  graph's lock, a handler) may take any time, and network steps may fail.
* The lock is tokio's, with a fair queue (`FairLock`).
* A handler that `publish` awaits takes no guard of `local_subscriptions` itself: while it runs,
  its task neither publishes nor waits for a `subscribe`.

If a `subscribe` asks for the write guard between the two read guards of a handshake, both wait
for ever: a run is free of self-blocked tasks exactly if no writer waits whenever a handshake
asks for its second guard (`never_selfBlocked_iff`, `handshake_deadlocks`).
-/

namespace Stric.Flow

open Stric.Pool

/-- Where `handle_new_connection` awaits. -/
inductive HandshakePc where
  | openStream
  | readLocalSubs
  | writeHandshake
  | readHandshake
  | writeReject
  | writeAck
  | readAck
  | peerConnected
  | topologySync
  | readSubs
  | subscriptionSync
deriving DecidableEq

/-- Where the task of `subscribe` awaits. -/
inductive SubscribePc where
  | spawned
  | writeLocalSubs
  | sendUpdate
deriving DecidableEq

/-- Where `publish` awaits. -/
inductive PublishPc where
  | readGraph
  | readLocalSubs
  | handleMessage
deriving DecidableEq

inductive SubsTask where
  | handshake (pc : HandshakePc)
  | subscribe (pc : SubscribePc)
  | publish (pc : PublishPc)
  | returned
deriving DecidableEq

/-- How what a task awaits turns out. -/
inductive Outcome where
  | ok
  /-- The peer's handshake has another protocol version. -/
  | mismatch
  | err
deriving DecidableEq

/-- What a step does to the lock. -/
inductive LockOp where
  | nothing
  | request (m : Mode)
  /-- The task returns, and drops its guards. -/
  | drop
deriving DecidableEq

/-- The task's next step, when it does not wait for the lock. -/
def SubsTask.act : SubsTask → Outcome → Option (SubsTask × LockOp)
  | .handshake .openStream, .ok => some (.handshake .readLocalSubs, .request .read)
  | .handshake .writeHandshake, .ok => some (.handshake .readHandshake, .nothing)
  | .handshake .readHandshake, .ok => some (.handshake .writeAck, .nothing)
  | .handshake .readHandshake, .mismatch => some (.handshake .writeReject, .nothing)
  | .handshake .writeReject, .ok => some (.returned, .drop)
  | .handshake .writeAck, .ok => some (.handshake .readAck, .nothing)
  | .handshake .readAck, .ok => some (.handshake .peerConnected, .nothing)
  | .handshake .peerConnected, .ok => some (.handshake .topologySync, .nothing)
  | .handshake .topologySync, .ok => some (.handshake .readSubs, .request .read)
  | .handshake .subscriptionSync, .ok => some (.returned, .drop)
  -- the rest of a handshake's `await`s have a `?`, or are on the reject path
  | .handshake .openStream, .err | .handshake .writeHandshake, .err
  | .handshake .readHandshake, .err | .handshake .writeReject, .err
  | .handshake .writeAck, .err | .handshake .readAck, .err => some (.returned, .drop)
  | .subscribe .spawned, .ok => some (.subscribe .writeLocalSubs, .request .write)
  | .subscribe .sendUpdate, .ok => some (.returned, .drop)
  | .publish .readGraph, .ok => some (.publish .readLocalSubs, .request .read)
  | .publish .handleMessage, .ok => some (.returned, .drop)
  | _, _ => none

/-- The task goes on with the guard it has waited for. -/
def SubsTask.granted : SubsTask → Option SubsTask
  | .handshake .readLocalSubs => some (.handshake .writeHandshake)
  | .handshake .readSubs => some (.handshake .subscriptionSync)
  | .subscribe .writeLocalSubs => some (.subscribe .sendUpdate)
  | .publish .readLocalSubs => some (.publish .handleMessage)
  | _ => none

/-- The guard a task waits for. -/
def SubsTask.wants : SubsTask → Option Mode
  | .handshake .readLocalSubs => some .read
  | .handshake .readSubs => some .read
  | .subscribe .writeLocalSubs => some .write
  | .publish .readLocalSubs => some .read
  | _ => none

/-- The task holds a guard. -/
def SubsTask.holds : SubsTask → Bool
  | .handshake .openStream => false
  | .handshake .readLocalSubs => false
  | .handshake _ => true
  | .subscribe .sendUpdate => true
  | .publish .handleMessage => true
  | _ => false

def LockOp.apply (l : FairLock Nat) (t : Nat) : LockOp → FairLock Nat
  | .nothing => l
  | .request m => l.request t m
  | .drop => l.release t

structure TaskState where
  lock : FairLock Nat
  tasks : Nat → Option SubsTask

inductive TaskLabel where
  | spawn (t : Nat) (task : SubsTask)
  | act (t : Nat) (outcome : Outcome)
  | grant

inductive TaskStep (s : TaskState) : TaskLabel → TaskState → Prop
  | spawn {t : Nat} {task : SubsTask} : s.tasks t = none →
      task ∈ [.handshake .openStream, .subscribe .spawned, .publish .readGraph] →
      TaskStep s (.spawn t task) { s with tasks := Function.update s.tasks t (some task) }
  | act {t : Nat} {outcome : Outcome} {task task' : SubsTask} {op : LockOp} :
      s.tasks t = some task → task.act outcome = some (task', op) →
      TaskStep s (.act t outcome)
        ⟨op.apply s.lock t, Function.update s.tasks t (some task')⟩
  | grant {t : Nat} {l : FairLock Nat} {task task' : SubsTask} :
      s.lock.grant = some (t, l) → s.tasks t = some task → task.granted = some task' →
      TaskStep s .grant ⟨l, Function.update s.tasks t (some task')⟩

/-- No task has been spawned. -/
def TaskState.idle : TaskState := ⟨.free, fun _ => none⟩

/-! ## Tasks and their guards -/

/-- What a step of a task changes in what it wants and holds. -/
theorem SubsTask.of_act {task task' : SubsTask} {outcome : Outcome} {op : LockOp}
    (h : task.act outcome = some (task', op)) :
    task.wants = none ∧ match op with
      | .nothing => task'.wants = none ∧ task'.holds = task.holds
      | .request m => task'.wants = some m ∧ task'.holds = task.holds
      | .drop => task'.wants = none ∧ task'.holds = false := by
  unfold SubsTask.act at h
  split at h <;> cases h <;> exact ⟨rfl, rfl, rfl⟩

theorem SubsTask.of_granted {task task' : SubsTask} (h : task.granted = some task') :
    task'.wants = none ∧ task'.holds = true := by
  unfold SubsTask.granted at h
  split at h <;> cases h <;> exact ⟨rfl, rfl⟩

/-- Only a handshake asks for a guard while it holds one, and it asks to read. -/
theorem SubsTask.second_request {task task' : SubsTask} {outcome : Outcome} {op : LockOp}
    (h : task.act outcome = some (task', op)) :
    task = .handshake .topologySync ↔ op = .request .read ∧ task.holds = true := by
  unfold SubsTask.act at h
  split at h <;> cases h <;> decide

/-- The lock's queue and guards are those of the tasks, and a task waits for one guard at a
time. -/
structure GuardInv (s : TaskState) : Prop where
  holds : ∀ t, s.lock.Holds t ↔ (s.tasks t).any SubsTask.holds
  waits : ∀ t m, (t, m) ∈ s.lock.waiting → (s.tasks t).bind SubsTask.wants = some m
  once : (s.lock.waiting.map Prod.fst).Nodup

theorem GuardInv.idle : GuardInv .idle := by
  refine ⟨fun t => iff_of_false FairLock.not_holds_free nofun, ?_, List.nodup_nil⟩
  intro t m h
  exact absurd h List.not_mem_nil

variable {s s' : TaskState} {l : TaskLabel} {past : List (TaskState × TaskLabel)} {t : Nat}

/-- One task and its guards change. -/
theorem GuardInv.update {task : SubsTask} {lock : FairLock Nat} (h : GuardInv s)
    (hholds : ∀ u, lock.Holds u ↔ if u = t then task.holds = true else s.lock.Holds u)
    (hwaits : ∀ u m, (u, m) ∈ lock.waiting →
      if u = t then task.wants = some m else (u, m) ∈ s.lock.waiting)
    (honce : (lock.waiting.map Prod.fst).Nodup) :
    GuardInv ⟨lock, Function.update s.tasks t (some task)⟩ := by
  refine ⟨fun u => ?_, fun u m hm => ?_, honce⟩
  · rw [hholds u]
    by_cases hu : u = t
    · subst hu
      simp
    · simp [hu, h.holds u]
  · have hu' := hwaits u m hm
    by_cases hu : u = t
    · subst hu
      simpa using hu'
    · rw [if_neg hu] at hu'
      simpa [hu] using h.waits u m hu'

theorem GuardInv.not_waiting (h : GuardInv s) {task : SubsTask} (ht : s.tasks t = some task)
    (hw : task.wants = none) (m : Mode) : (t, m) ∉ s.lock.waiting := by
  intro hm
  have := h.waits t m hm
  rw [ht, Option.bind_some, hw] at this
  cases this

theorem GuardInv.holds_iff (h : GuardInv s) {task : SubsTask} (ht : s.tasks t = some task) :
    s.lock.Holds t ↔ task.holds := by
  rw [h.holds t, ht, Option.any_some]

theorem GuardInv.step (h : GuardInv s) (hs : TaskStep s l s') : GuardInv s' := by
  cases hs with
  | @spawn t task ht hfresh =>
    have hnew : task.holds = false ∧ task.wants = none := by
      revert hfresh
      simp only [List.mem_cons, List.not_mem_nil, or_false]
      rintro (rfl | rfl | rfl) <;> exact ⟨rfl, rfl⟩
    refine h.update (fun u => ?_) (fun u m hm => ?_) h.once
    · split
      · next hu =>
        rw [hu, h.holds t, ht, hnew.1]
        rfl
      · rfl
    · split
      · next hu =>
        have := h.waits u m hm
        rw [hu, ht] at this
        cases this
      · exact hm
  | @act t outcome task task' op ht hact =>
    obtain ⟨hidle, hop⟩ := SubsTask.of_act hact
    have hnot := h.not_waiting ht hidle
    cases op with
    | nothing =>
      refine h.update (fun u => ?_) (fun u m hm => ?_) h.once
      · show s.lock.Holds u ↔ _
        split
        · next hu => rw [hu, h.holds_iff ht, hop.2]
        · rfl
      · split
        · next hu => exact absurd (hu ▸ hm) (hnot m)
        · exact hm
    | request m =>
      refine h.update (fun u => ?_) (fun u m' hm => ?_) ?_
      · split
        · next hu =>
          rw [hu, hop.2, ← h.holds_iff ht]
          rfl
        · rfl
      · rcases List.mem_append.mp hm with hm | hm
        · split
          · next hu => exact absurd (hu ▸ hm) (hnot m')
          · exact hm
        · cases List.mem_singleton.mp hm
          rw [if_pos rfl]
          exact hop.1
      · show ((s.lock.waiting ++ [(t, m)]).map Prod.fst).Nodup
        rw [List.map_append, List.map_singleton, List.nodup_append_comm, List.singleton_append,
          List.nodup_cons]
        refine ⟨fun hmem => ?_, h.once⟩
        obtain ⟨⟨u, m'⟩, hm, rfl⟩ := List.mem_map.mp hmem
        exact hnot m' hm
    | drop =>
      refine h.update (fun u => ?_) (fun u m hm => ?_) h.once
      · show (s.lock.release t).Holds u ↔ _
        rw [FairLock.holds_release]
        split
        · next hu => simp [hu, hop.2]
        · next hu => simp [hu]
      · split
        · next hu => exact absurd (hu ▸ hm) (hnot m)
        · exact hm
  | @grant t lock task task' hg ht hgranted =>
    obtain ⟨m, hw, hholds, -⟩ := FairLock.of_grant hg
    obtain ⟨hidle, hheld⟩ := SubsTask.of_granted hgranted
    have honce := h.once
    rw [hw, List.map_cons, List.nodup_cons] at honce
    refine h.update (fun u => ?_) (fun u m' hm => ?_) honce.2
    · rw [hholds u]
      split
      · next hu => simp [hu, hheld]
      · next hu => simp [hu]
    · split
      · next hu =>
        subst hu
        exact absurd (List.mem_map_of_mem (f := Prod.fst) hm) honce.1
      · rw [hw]
        exact List.mem_cons_of_mem _ hm

theorem GuardInv.run (h : History TaskStep .idle past s) : GuardInv s :=
  h.invariant GuardInv .idle fun _ _ _ => GuardInv.step

/-! ## Self-blocked tasks -/

/-- When a handshake asks for its second guard, no writer waits. -/
def ReadsInTime (s : TaskState) : TaskLabel → Prop
  | .act t _ => s.tasks t = some (.handshake .topologySync) → ∀ w, (w, .write) ∉ s.lock.waiting
  | _ => True

/-- A self-blocked task stays so. -/
theorem selfBlocked_step (h : GuardInv s) (hb : s.lock.SelfBlocked t) (hs : TaskStep s l s') :
    s'.lock.SelfBlocked t := by
  cases hs with
  | spawn _ _ => exact hb
  | @act u outcome task task' op hu hact =>
    have hne : t ≠ u := by
      rintro rfl
      exact h.not_waiting hu (SubsTask.of_act hact).1 .read hb.2.waits
    cases op with
    | nothing => exact hb
    | request m => exact hb.request
    | drop => exact hb.release hne
  | grant hg _ _ => exact hb.grant hg

theorem selfBlocked_forever {init : TaskState} (h : GuardInv init) (hb : init.lock.SelfBlocked t)
    (hrun : History TaskStep init past s) : s.lock.SelfBlocked t := by
  refine (hrun.invariant (fun s => GuardInv s ∧ s.lock.SelfBlocked t) ⟨h, hb⟩ ?_).2
  rintro s l s' ⟨hinv, hblocked⟩ hs
  exact ⟨hinv.step hs, selfBlocked_step hinv hblocked hs⟩

/-- One step blocks a task exactly if it asks for a second guard behind a writer. -/
theorem selfBlocked_step_iff (h : GuardInv s) (hfree : ∀ t, ¬ s.lock.SelfBlocked t)
    (hs : TaskStep s l s') : (∀ t, ¬ s'.lock.SelfBlocked t) ↔ ReadsInTime s l := by
  cases hs with
  | spawn _ _ => exact iff_of_true hfree trivial
  | @act u outcome task task' op hu hact =>
    have hintime : ReadsInTime s (.act u outcome) ↔
        (op = .request .read ∧ task.holds = true → ∀ w, (w, .write) ∉ s.lock.waiting) := by
      rw [← SubsTask.second_request hact]
      show (s.tasks u = some (.handshake .topologySync) → _) ↔ _
      rw [hu, Option.some.injEq]
    rw [hintime]
    cases op with
    | nothing => exact iff_of_true hfree nofun
    | drop =>
      refine iff_of_true (fun t hb => hfree t ⟨(FairLock.holds_release.mp hb.1).2, hb.2⟩) nofun
    | request m =>
      constructor
      · rintro hnone ⟨hm, hheld⟩ w hw
        cases hm
        exact hnone u ⟨(h.holds_iff hu).mpr hheld, FairLock.behind_request.mpr
          (Or.inr ⟨rfl, rfl, w, hw⟩)⟩
      · rintro hnone t ⟨hold, hb⟩
        rcases FairLock.behind_request.mp hb with hb | ⟨rfl, rfl, w, hw⟩
        · exact hfree t ⟨hold, hb⟩
        · exact hnone ⟨rfl, (h.holds_iff hu).mp hold⟩ w hw
  | grant hg _ _ =>
    exact iff_of_true (fun t hb => hfree t (FairLock.selfBlocked_of_grant hg h.once hb)) trivial

/-- **When handshakes and subscriptions can deadlock.**  No state of a run has a task that waits
for a read guard behind a writer that waits for a guard of the same task, exactly if no writer
waits whenever a handshake asks for its second guard. -/
theorem never_selfBlocked_iff (h : History TaskStep .idle past s) :
    ((∀ t, ¬ s.lock.SelfBlocked t) ∧ ∀ e ∈ past, ∀ t, ¬ e.1.lock.SelfBlocked t) ↔
      ∀ e ∈ past, ReadsInTime e.1 e.2 := by
  refine h.always_iff (fun s => ∀ t, ¬ s.lock.SelfBlocked t) ReadsInTime ?_ ?_
  · rintro t ⟨hold, -⟩
    exact FairLock.not_holds_free hold
  · intro past s l s' hrun hs hfree
    exact selfBlocked_step_iff (GuardInv.run hrun) hfree hs

/-! ## A subscription in the middle of a handshake -/

section
variable {init : TaskState}

theorem spawned (h : History TaskStep init past s) (t : Nat) (task : SubsTask)
    (ht : s.tasks t = none)
    (hfresh : task ∈ [.handshake .openStream, .subscribe .spawned, .publish .readGraph]) :
    History TaskStep init ((s, .spawn t task) :: past)
      { s with tasks := Function.update s.tasks t (some task) } :=
  h.step (.spawn ht hfresh)

theorem advanced (h : History TaskStep init past s) (t : Nat) {task task' : SubsTask} {op : LockOp}
    (ht : s.tasks t = some task) (hact : task.act .ok = some (task', op)) :
    History TaskStep init ((s, .act t .ok) :: past)
      ⟨op.apply s.lock t, Function.update s.tasks t (some task')⟩ :=
  h.step (.act ht hact)

theorem grantedNext (h : History TaskStep init past s) {t : Nat} {lock : FairLock Nat}
    {task task' : SubsTask} (hg : s.lock.grant = some (t, lock)) (ht : s.tasks t = some task)
    (hgranted : task.granted = some task') :
    History TaskStep init ((s, .grant) :: past) ⟨lock, Function.update s.tasks t (some task')⟩ :=
  h.step (.grant hg ht hgranted)

end

/-- `subscribe` is called while a handshake waits for its peer: the write request queues behind
the handshake's first guard, its second read request behind the write request, and nothing that
happens later changes that. -/
theorem handshake_deadlocks : ∃ past s, History TaskStep .idle past s ∧ s.lock.SelfBlocked 1 ∧
    ∀ past' s', History TaskStep s past' s' → s'.lock.SelfBlocked 1 := by
  have h1 := spawned (.start : History TaskStep .idle [] .idle) 1 (.handshake .openStream) rfl
    (by decide)
  have h2 := grantedNext (advanced h1 1 rfl rfl) rfl rfl rfl
  have h3 := advanced (advanced (advanced (advanced (advanced h2 1 rfl rfl) 1 rfl rfl) 1 rfl rfl)
    1 rfl rfl) 1 rfl rfl
  have h4 := advanced (spawned h3 2 (.subscribe .spawned) rfl (by decide)) 2 rfl rfl
  have h5 := advanced h4 1 rfl rfl
  refine ⟨_, _, h5, ?blocked, fun past' s' hrun =>
    selfBlocked_forever (GuardInv.run h5) ?blocked hrun⟩
  exact ⟨Or.inl (List.mem_singleton_self 1), [], 2, [(1, .read)], rfl, List.mem_singleton_self _⟩

/-- If it is called later, both end. -/
theorem handshake_then_subscription : ∃ past s, History TaskStep .idle past s ∧
    s.tasks 1 = some .returned ∧ s.tasks 2 = some .returned ∧
    (∀ t, ¬ s.lock.SelfBlocked t) ∧ ∀ e ∈ past, ∀ t, ¬ e.1.lock.SelfBlocked t := by
  have h1 := spawned (.start : History TaskStep .idle [] .idle) 1 (.handshake .openStream) rfl
    (by decide)
  have h2 := grantedNext (advanced h1 1 rfl rfl) rfl rfl rfl
  have h3 := advanced (advanced (advanced (advanced (advanced h2 1 rfl rfl) 1 rfl rfl) 1 rfl rfl)
    1 rfl rfl) 1 rfl rfl
  have h4 := spawned (advanced h3 1 rfl rfl) 2 (.subscribe .spawned) rfl (by decide)
  have h5 := advanced (grantedNext (advanced h4 2 rfl rfl) rfl rfl rfl) 1 rfl rfl
  have h6 := advanced (grantedNext h5 rfl rfl rfl) 2 rfl rfl
  refine ⟨_, _, h6, rfl, rfl, (never_selfBlocked_iff h6).mpr ?_⟩
  simp only [List.forall_mem_cons]
  have hother : ∀ {task : Option SubsTask} {P : Prop}, task ≠ some (.handshake .topologySync) →
      task = some (.handshake .topologySync) → P := fun h h' => absurd h' h
  refine ⟨hother (by decide), trivial, hother (by decide), trivial, hother (by decide), trivial,
    fun _ w => List.not_mem_nil, hother (by decide), hother (by decide), hother (by decide),
    hother (by decide), hother (by decide), trivial, hother (by decide), trivial,
    fun e he => absurd he List.not_mem_nil⟩

end Stric.Flow
