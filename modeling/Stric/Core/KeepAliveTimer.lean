import Stric.Core.KeepAliveTick

/-!
# The timers of the pool (`keep_alive.rs`)

A stream carries its interval and the time of its last ping with it, while it waits for the
manager, moves from worker to worker, and waits in a worker's channel.

    lastStamp past k        when the manager took `k`, or when it was last pinged

Moving a stream leaves its timer as it is: `written_iff_elapsed` says that in every run a tick writes
to a stream exactly if its interval has passed since `lastStamp`.  While a stream waits for a worker no
tick gets to it.
-/

namespace Stric.Core

open Stric.Pool

/-! ## What a run says about a stream -/

/-- The time of the tick in which the next turn writes to the stream. -/
def KeepAliveWorker.pinged (w : KeepAliveWorker) (k : Nat) : Option Nat :=
  match w.phase with
  | .ticking now _ _ => if w.writesTo = some k then some now else none
  | _ => none

/-- The time that a step gives to the timer of the stream. -/
def PoolState.stamp (s : PoolState) (k : Nat) : PoolLabel → Option Nat
  | .receive now =>
    match s.receiver with
    | .addStream stream _ :: _ => if stream = k then some now else none
    | _ => none
  | .worker id (.ping true) => (s.tasks.find? fun w => w.id = id).bind (·.pinged k)
  | _ => none

def PoolLabel.interval? (k : Nat) : PoolLabel → Option Nat
  | .add stream interval => if stream = k then some interval else none
  | _ => none

/-- When the manager took the stream, or when it was last pinged. -/
def lastStamp (past : List (PoolState × PoolLabel)) (k : Nat) : Option Nat :=
  past.findSome? fun e => e.1.stamp k e.2

/-- The interval that the stream was added with. -/
def intervalOf (past : List (PoolState × PoolLabel)) (k : Nat) : Option Nat :=
  past.findSome? fun e => e.2.interval? k

/-! ## The streams with a timer -/

def KeepAliveWorker.managed (w : KeepAliveWorker) : List ManagedStream :=
  match w.phase with
  | .returned => []
  | .handing streams => streams ++ (w.streams ++ w.receiver)
  | _ => w.streams ++ w.receiver

def PoolCommand.managed : PoolCommand → List ManagedStream
  | .workerUnderloaded _ streams => streams
  | _ => []

def PoolState.managed (s : PoolState) : List ManagedStream :=
  s.receiver.flatMap PoolCommand.managed ++ (s.hands ++ s.tasks.flatMap KeepAliveWorker.managed)

theorem KeepAliveWorker.map_managed (w : KeepAliveWorker) : w.managed.map (·.stream) = w.held := by
  unfold managed held
  cases w.phase <;> rfl

theorem PoolCommand.managed_held {cmd : PoolCommand} {m : ManagedStream} (h : m ∈ cmd.managed) :
    m.stream ∈ cmd.held := by
  cases cmd with
  | workerUnderloaded id streams => exact List.mem_map_of_mem h
  | _ => cases h

theorem PoolState.mem_managed {s : PoolState} {m : ManagedStream} : m ∈ s.managed ↔
    (∃ cmd ∈ s.receiver, m ∈ cmd.managed) ∨ m ∈ s.hands ∨ ∃ w ∈ s.tasks, m ∈ w.managed := by
  unfold PoolState.managed
  rw [List.mem_append, List.mem_append, List.mem_flatMap, List.mem_flatMap]

theorem PoolState.managed_held {s : PoolState} {m : ManagedStream} (h : m ∈ s.managed) :
    m.stream ∈ s.held := by
  unfold PoolState.held
  rw [List.mem_append, List.mem_append, List.mem_flatMap, List.mem_flatMap]
  rcases PoolState.mem_managed.mp h with ⟨cmd, hcmd, hm⟩ | hm | ⟨w, hw, hm⟩
  · exact .inl ⟨cmd, hcmd, PoolCommand.managed_held hm⟩
  · exact .inr (.inl (List.mem_map_of_mem hm))
  · exact .inr (.inr ⟨w, hw, w.map_managed ▸ List.mem_map_of_mem hm⟩)

namespace KeepAliveWorker

variable {limit : Nat} {listed : Bool} {w w' : KeepAliveWorker} {act : WorkerAct}
  {cmd : Option PoolCommand} {bad : Option Nat} {k : Nat}

/-- The stream of the turn, if it is due. -/
theorem pinged_of_due {now i : Nat} {changed : Bool} {m : ManagedStream}
    (hphase : w.phase = .ticking now i changed) (hm : w.streams[i]? = some m) :
    w.pinged k = if m.due now ∧ m.stream = k then some now else none := by
  unfold pinged writesTo
  rw [hphase]
  by_cases hdue : m.due now
  · simp [hm, Option.filter, hdue]
  · simp [hm, Option.filter, hdue]

/-- A turn writes to a stream of the worker. -/
theorem held_of_pinged {now : Nat} (h : w.pinged k = some now) : k ∈ w.held := by
  cases hphase : w.phase with
  | ticking now' i changed =>
    cases hm : w.streams[i]? with
    | none => simp [pinged, writesTo, hphase, hm] at h
    | some m =>
      rw [pinged_of_due hphase hm] at h
      obtain ⟨⟨-, rfl⟩, -⟩ := Option.ite_none_right_eq_some.mp h
      unfold held
      rw [hphase]
      exact List.mem_map_of_mem (List.mem_append_left _ (List.mem_of_getElem? hm))
  | _ => simp [pinged, hphase] at h

theorem mem_set_of_nodup {l : List ManagedStream} (hnodup : (l.map (·.stream)).Nodup) {i : Nat}
    {s s' m : ManagedStream} (hs : l[i]? = some s) (hm : m ∈ l.set i s') :
    m = s' ∨ (m ∈ l ∧ m.stream ≠ s.stream) := by
  induction l generalizing i with
  | nil => cases hs
  | cons x l ih =>
    obtain ⟨hx, hnodup⟩ := List.nodup_cons.mp hnodup
    cases i with
    | zero =>
      cases hs
      rcases List.mem_cons.mp hm with rfl | hm
      · exact .inl rfl
      · refine .inr ⟨List.mem_cons_of_mem _ hm, fun heq => hx ?_⟩
        exact List.mem_map.mpr ⟨m, hm, heq⟩
    | succ i =>
      rcases List.mem_cons.mp hm with rfl | hm
      · refine .inr ⟨List.mem_cons_self, fun heq => hx ?_⟩
        exact List.mem_map.mpr ⟨s, List.mem_of_getElem? hs, heq.symm⟩
      · rcases ih hnodup hs hm with hnew | ⟨hold, hne⟩
        · exact .inl hnew
        · exact .inr ⟨List.mem_cons_of_mem _ hold, hne⟩

/-- **What a worker's step does to timers**: none but the one it writes to. -/
theorem act_managed (h : w.act limit listed act = some (w', cmd, bad)) (hnodup : w.held.Nodup)
    {m : ManagedStream} (hm : m ∈ cmd.toList.flatMap PoolCommand.managed ++ w'.managed) :
    (m ∈ w.managed ∧ (act = .ping true → w.pinged m.stream = none)) ∨
      (act = .ping true ∧ w.pinged m.stream = some m.lastPing ∧
        ∃ m₀ ∈ w.managed, m₀.stream = m.stream ∧ m₀.interval = m.interval) := by
  have hof := (of_act h).2
  cases act with
  | recv =>
    obtain ⟨hphase, hphase', rfl, rfl, s, rest, hrecv, hrecv', hstreams⟩ := hof
    refine .inl ⟨?_, by simp⟩
    simpa [managed, hphase, hphase', hrecv, hrecv', hstreams] using hm
  | recvNone =>
    obtain ⟨-, hphase, rfl, rfl, rfl⟩ := hof
    refine .inl ⟨?_, by simp⟩
    simpa [managed, hphase] using hm
  | tick now =>
    obtain ⟨hphase, rfl, rfl, rfl⟩ := hof
    refine .inl ⟨?_, by simp⟩
    simpa [managed, hphase] using hm
  | ping ok =>
    simp only [KeepAliveWorker.act] at h
    split at h
    · next now i changed hphase =>
      split at h
      · next s hs =>
        have hmanaged : w.managed = w.streams ++ w.receiver := by simp [managed, hphase]
        have hpinged : w.pinged m.stream = _ := pinged_of_due hphase hs
        split at h
        · next hdue =>
          split at h
          · cases h
            have hlt := (List.getElem?_eq_some_iff.mp hs).1
            have hs' : (w.streams ++ w.receiver)[i]? = some s := by
              rw [List.getElem?_append_left hlt, hs]
            rw [← w.map_managed, hmanaged] at hnodup
            have hm' : m ∈ (w.streams ++ w.receiver).set i { s with lastPing := now } := by
              rw [List.set_append_left _ _ hlt]
              exact hm
            rw [hpinged]
            rcases mem_set_of_nodup hnodup hs' hm' with rfl | ⟨hold, hne⟩
            · refine .inr ⟨by simp_all, ?_, s, ?_, rfl, rfl⟩
              · simp [ManagedStream.due, hdue]
              · rw [hmanaged]
                exact List.mem_of_getElem? hs'
            · exact .inl ⟨hmanaged ▸ hold, fun _ => if_neg fun hboth => hne hboth.2.symm⟩
          · next hok =>
            cases h
            refine .inl ⟨?_, fun hact => absurd (WorkerAct.ping.inj hact) hok⟩
            have hm' : m ∈ w.streams.eraseIdx i ++ w.receiver := hm
            rw [hmanaged]
            rcases List.mem_append.mp hm' with hm | hm
            · exact List.mem_append_left _ (List.mem_of_mem_eraseIdx hm)
            · exact List.mem_append_right _ hm
        · next hdue =>
          cases h
          rw [hpinged]
          refine .inl ⟨hmanaged ▸ hm, fun _ => if_neg fun hboth => hdue ?_⟩
          exact of_decide_eq_true hboth.1
      · cases h
    · cases h
  | rest =>
    obtain ⟨⟨now, i, changed, hphase⟩, hphase', rfl, rfl, hrecv, hstreams⟩ := hof
    refine .inl ⟨?_, by simp⟩
    simpa [managed, hphase, hphase', hrecv, hstreams] using hm
  | handOff =>
    obtain ⟨⟨now, i, changed, hphase⟩, hphase', rfl, rfl, hrecv, hstreams, -⟩ := hof
    refine .inl ⟨?_, by simp⟩
    simpa [managed, hphase, hphase', hrecv, hstreams] using hm
  | send =>
    obtain ⟨rfl, rfl, ⟨streams, hphase, rfl⟩ | ⟨hphase, rfl⟩⟩ := hof
    · refine .inl ⟨?_, by simp⟩
      simpa [managed, hphase, PoolCommand.managed] using hm
    · refine .inl ⟨?_, by simp⟩
      simpa [managed, hphase, PoolCommand.managed] using hm
  | exit =>
    obtain ⟨-, rfl, rfl, rfl⟩ := hof
    cases hm

end KeepAliveWorker

/-! ## What a step of the pool does to timers -/

variable {s s' : PoolState} {l : PoolLabel} {past : List (PoolState × PoolLabel)} {limit : Nat}

theorem PoolInv.find? (h : PoolInv s) {l₁ l₂ : List KeepAliveWorker} {w : KeepAliveWorker}
    (htasks : s.tasks = l₁ ++ w :: l₂) : s.tasks.find? (fun x => x.id = w.id) = some w := by
  have hnone : l₁.find? (fun x => x.id = w.id) = none := by
    rw [List.find?_eq_none]
    intro x hx heq
    exact h.unique htasks (.inl hx) (of_decide_eq_true heq)
  rw [htasks, List.find?_append, hnone, Option.none_or]
  exact List.find?_cons_of_pos (decide_eq_true rfl)

/-- A stream is with one worker only. -/
theorem not_held_elsewhere (hsound : s.ledger.Sound) {l₁ l₂ : List KeepAliveWorker}
    {w : KeepAliveWorker} (htasks : s.tasks = l₁ ++ w :: l₂) {k : Nat} (hw : k ∈ w.held)
    (helse : k ∈ s.receiver.flatMap PoolCommand.held ∨ k ∈ s.hands.map (·.stream) ∨
      k ∈ (l₁ ++ l₂).flatMap KeepAliveWorker.held) : False := by
  have hcount := PoolState.count_held htasks k
  have hle : s.held.count k ≤ 1 := List.nodup_iff_count_le_one.mp hsound.once k
  have hpos := List.count_pos_iff.mpr hw
  rcases helse with h | h | h <;> have := List.count_pos_iff.mpr h <;> omega

theorem KeepAliveWorker.managed_send (w : KeepAliveWorker) {stream m : ManagedStream}
    (hm : m ∈ ({ w with receiver := w.receiver ++ [stream] } : KeepAliveWorker).managed) :
    m ∈ w.managed ∨ m = stream := by
  unfold managed at hm ⊢
  cases hphase : w.phase <;> simp [hphase] at hm ⊢ <;> tauto

theorem managed_spawn {stream m : ManagedStream} {rest : List ManagedStream}
    (hhands : s.hands = stream :: rest) (target : Option Nat)
    (hm : m ∈ ({ s with hands := rest, target := target }.spawn stream).managed) :
    m ∈ s.managed := by
  rw [PoolState.mem_managed] at hm ⊢
  rw [hhands]
  rcases hm with hm | hm | ⟨w, hw, hm⟩
  · exact .inl hm
  · exact .inr (.inl (List.mem_cons_of_mem _ hm))
  · rcases List.mem_append.mp hw with hw | hw
    · exact .inr (.inr ⟨w, hw, hm⟩)
    · cases List.mem_singleton.mp hw
      cases List.mem_singleton.mp hm
      exact .inr (.inl List.mem_cons_self)

theorem managed_receive (hsound : s.ledger.Sound) {now : Nat} {cmd : PoolCommand}
    {rest : List PoolCommand} (hq : s.receiver = cmd :: rest) {m : ManagedStream}
    (hm : m ∈ ({ s with
      receiver := rest
      workers := cmd.retain s.workers
      hands := cmd.taken now } : PoolState).managed) :
    (m ∈ s.managed ∧ s.stamp m.stream (.receive now) = none) ∨
      (s.stamp m.stream (.receive now) = some m.lastPing ∧
        ((∃ m₀ ∈ s.managed, m₀.stream = m.stream ∧ m₀.interval = m.interval) ∨
          .addStream m.stream m.interval ∈ s.receiver)) := by
  -- what is held but for this command
  let s₀ : PoolState := { s with receiver := rest }
  have hheld : s.held = cmd.held ++ s₀.held := by
    simp only [PoolState.held, hq, List.flatMap_cons, List.append_assoc, s₀]
  have hsplit : m ∈ cmd.taken now ∨ m ∈ s₀.managed := by
    rcases PoolState.mem_managed.mp hm with hm | hm | hm
    · exact .inr (PoolState.mem_managed.mpr (.inl hm))
    · exact .inl hm
    · exact .inr (PoolState.mem_managed.mpr (.inr (.inr hm)))
  have hold : m ∈ s₀.managed → m ∈ s.managed := by
    intro hm
    unfold PoolState.managed
    rw [hq, List.flatMap_cons, List.append_assoc]
    exact List.mem_append_right _ hm
  unfold PoolState.stamp
  rw [hq]
  cases cmd with
  | addStream k interval =>
    rcases hsplit with hnew | hkept
    · cases List.mem_singleton.mp hnew
      exact .inr ⟨if_pos rfl, .inr List.mem_cons_self⟩
    · refine .inl ⟨hold hkept, if_neg ?_⟩
      rintro rfl
      -- it would be held twice
      have honce : s.held.Nodup := hsound.once
      rw [hheld] at honce
      exact (List.nodup_cons.mp honce).1 (PoolState.managed_held hkept)
  | workerUnderloaded id streams =>
    refine .inl ⟨?_, rfl⟩
    rcases hsplit with hnew | hkept
    · exact PoolState.mem_managed.mpr
        (.inl ⟨.workerUnderloaded id streams, hq ▸ List.mem_cons_self, hnew⟩)
    · exact hold hkept
  | workerDropped id =>
    refine .inl ⟨?_, rfl⟩
    rcases hsplit with hnew | hkept
    · cases hnew
    · exact hold hkept

theorem stamp_worker (hinv : PoolInv s) {l₁ l₂ : List KeepAliveWorker} {w : KeepAliveWorker}
    (htasks : s.tasks = l₁ ++ w :: l₂) (k : Nat) (act : WorkerAct) :
    s.stamp k (.worker w.id act) = if act = .ping true then w.pinged k else none := by
  split
  · next hact =>
    subst hact
    show (s.tasks.find? fun x => x.id = w.id).bind (·.pinged k) = _
    rw [hinv.find? htasks, Option.bind_some]
  · next hact =>
    cases act with
    | ping ok =>
      cases ok with
      | true => exact absurd rfl hact
      | false => rfl
    | _ => rfl

theorem managed_worker (hinv : PoolInv s) (hsound : s.ledger.Sound)
    {l₁ l₂ : List KeepAliveWorker} {w w' : KeepAliveWorker} {act : WorkerAct}
    {cmd : Option PoolCommand} {bad : Option Nat} (htasks : s.tasks = l₁ ++ w :: l₂)
    (hact : w.act s.limit (w.id ∈ s.workers) act = some (w', cmd, bad)) {m : ManagedStream}
    (hm : m ∈ ({ s with
      receiver := s.receiver ++ cmd.toList
      tasks := l₁ ++ w' :: l₂
      failed := bad.toList ++ s.failed } : PoolState).managed) :
    (m ∈ s.managed ∧ s.stamp m.stream (.worker w.id act) = none) ∨
      (s.stamp m.stream (.worker w.id act) = some m.lastPing ∧
        ((∃ m₀ ∈ s.managed, m₀.stream = m.stream ∧ m₀.interval = m.interval) ∨
          .addStream m.stream m.interval ∈ s.receiver)) := by
  have hw : w ∈ s.tasks := PoolState.mem_tasks htasks
  have hmanaged : ∀ x ∈ w.managed, x ∈ s.managed := fun x hx =>
    PoolState.mem_managed.mpr (.inr (.inr ⟨w, hw, hx⟩))
  have hnodup : w.held.Nodup := by
    have honce : s.held.Nodup := hsound.once
    unfold PoolState.held at honce
    rw [htasks] at honce
    exact (List.nodup_flatMap.mp honce.of_append_right.of_append_right).1 w
      List.mem_append_cons_self
  rw [stamp_worker hinv htasks]
  -- the streams that are not with this worker
  have helse : m ∈ s.managed → (m.stream ∈ s.receiver.flatMap PoolCommand.held ∨
      m.stream ∈ s.hands.map (·.stream) ∨ m.stream ∈ (l₁ ++ l₂).flatMap KeepAliveWorker.held) →
      m ∈ s.managed ∧ (if act = .ping true then w.pinged m.stream else none) = none := by
    intro hin hplace
    refine ⟨hin, ?_⟩
    split
    · cases hping : w.pinged m.stream with
      | none => rfl
      | some now => exact (not_held_elsewhere hsound htasks (w.held_of_pinged hping) hplace).elim
    · rfl
  by_cases hown : m ∈ cmd.toList.flatMap PoolCommand.managed ++ w'.managed
  · rcases KeepAliveWorker.act_managed hact hnodup hown with
      ⟨hin, hno⟩ | ⟨hping, hstamp, m₀, hm₀, hsame⟩
    · refine .inl ⟨hmanaged m hin, ?_⟩
      split
      · next hping => exact hno hping
      · rfl
    · exact .inr ⟨(if_pos hping).trans hstamp, .inl ⟨m₀, hmanaged m₀ hm₀, hsame⟩⟩
  · rw [List.mem_append, not_or] at hown
    rcases PoolState.mem_managed.mp hm with ⟨c, hc, hmc⟩ | hhands | ⟨x, hx, hmx⟩
    · rcases List.mem_append.mp hc with hc | hc
      · exact .inl (helse (PoolState.mem_managed.mpr (.inl ⟨c, hc, hmc⟩))
          (.inl (List.mem_flatMap.mpr ⟨c, hc, PoolCommand.managed_held hmc⟩)))
      · exact absurd (List.mem_flatMap.mpr ⟨c, hc, hmc⟩) hown.1
    · exact .inl (helse (PoolState.mem_managed.mpr (.inr (.inl hhands)))
        (.inr (.inl (List.mem_map_of_mem hhands))))
    · have hx' : x ∈ l₁ ++ l₂ ∨ x = w' := by
        simp only [List.mem_append, List.mem_cons] at hx ⊢
        tauto
      rcases hx' with hx' | rfl
      · have hin : x ∈ s.tasks := by
          rw [htasks]
          simp only [List.mem_append, List.mem_cons] at hx' ⊢
          tauto
        exact .inl (helse (PoolState.mem_managed.mpr (.inr (.inr ⟨x, hin, hmx⟩)))
          (.inr (.inr (List.mem_flatMap.mpr ⟨x, hx', x.map_managed ▸ List.mem_map_of_mem hmx⟩))))
      · exact absurd hmx hown.2

/-- **What a step does to timers.**  A stream has the timer it had, unless the step stamps it; it
has the interval it had, or that of the command it comes from. -/
theorem PoolStep.managed (hinv : PoolInv s) (hsound : s.ledger.Sound) (hs : PoolStep s l s')
    {m : ManagedStream} (hm : m ∈ s'.managed) :
    (m ∈ s.managed ∧ s.stamp m.stream l = none) ∨
      (s.stamp m.stream l = some m.lastPing ∧
        ((∃ m₀ ∈ s.managed, m₀.stream = m.stream ∧ m₀.interval = m.interval) ∨
          .addStream m.stream m.interval ∈ s.receiver)) := by
  cases hs with
  | add hnew hroom =>
    refine .inl ⟨?_, rfl⟩
    simpa [PoolState.managed, PoolCommand.managed] using hm
  | @receive now cmd rest hhands htarget hq =>
    exact managed_receive hsound hq hm
  | choose _ _ _ => exact .inl ⟨hm, rfl⟩
  | @spawn stream rest hhands _ _ => exact .inl ⟨managed_spawn hhands s.target hm, rfl⟩
  | @send stream rest l₁ l₂ w hhands _ htasks hphase _ =>
    refine .inl ⟨?_, rfl⟩
    rw [PoolState.mem_managed] at hm ⊢
    rw [hhands]
    rcases hm with hm | hm | ⟨x, hx, hm⟩
    · exact .inl hm
    · exact .inr (.inl (List.mem_cons_of_mem _ hm))
    · rw [List.mem_append, List.mem_cons] at hx
      rw [htasks]
      rcases hx with hx | rfl | hx
      · exact .inr (.inr ⟨x, List.mem_append_left _ hx, hm⟩)
      · rcases w.managed_send hm with hold | rfl
        · exact .inr (.inr ⟨w, List.mem_append_cons_self, hold⟩)
        · exact .inr (.inl List.mem_cons_self)
      · exact .inr (.inr ⟨x, List.mem_append_right _ (List.mem_cons_of_mem _ hx), hm⟩)
  | @sendFails stream rest l₁ l₂ w hhands _ _ _ => exact .inl ⟨managed_spawn hhands none hm, rfl⟩
  | @worker l₁ l₂ w w' act cmd bad htasks hact _ =>
    exact managed_worker hinv hsound htasks hact hm

/-! ## Timers in a run -/

/-- Every stream has the timer and the interval that the run says. -/
structure Timed (past : List (PoolState × PoolLabel)) (s : PoolState) : Prop where
  queued : ∀ stream interval, .addStream stream interval ∈ s.receiver →
    intervalOf past stream = some interval
  managed : ∀ m ∈ s.managed, lastStamp past m.stream = some m.lastPing ∧
    intervalOf past m.stream = some m.interval

theorem lastStamp_cons (k : Nat) :
    lastStamp ((s, l) :: past) k = (s.stamp k l).or (lastStamp past k) := by
  unfold lastStamp
  rw [List.findSome?_cons]
  cases s.stamp k l <;> rfl

theorem intervalOf_cons (k : Nat) :
    intervalOf ((s, l) :: past) k = (l.interval? k).or (intervalOf past k) := by
  unfold intervalOf
  rw [List.findSome?_cons]
  cases l.interval? k <;> rfl

/-- A step tells an interval only of a stream that was not held before. -/
theorem PoolStep.interval?_of_held (hsound : s.ledger.Sound) (hs : PoolStep s l s') {k : Nat}
    (hk : k ∈ s.held) : l.interval? k = none := by
  cases hs with
  | @add stream interval hnew _ =>
    refine if_neg fun (heq : stream = k) => hnew ?_
    rw [heq]
    exact hsound.issued k hk
  | _ => rfl

theorem PoolStep.queued (hs : PoolStep s l s') {stream interval : Nat}
    (h : .addStream stream interval ∈ s'.receiver) :
    .addStream stream interval ∈ s.receiver ∨ l.interval? stream = some interval := by
  cases hs with
  | add _ _ =>
    rcases List.mem_append.mp h with h | h
    · exact .inl h
    · cases List.mem_singleton.mp h
      exact .inr (if_pos rfl)
  | receive _ _ hq => exact .inl (hq ▸ List.mem_cons_of_mem _ h)
  | @worker l₁ l₂ w w' act cmd bad htasks hact _ =>
    rcases List.mem_append.mp h with h | h
    · exact .inl h
    · have hsender := (KeepAliveWorker.act_sends hact _ (Option.mem_toList.mp h)).1
      cases hsender
  | _ => exact .inl h

theorem Timed.run (h : History PoolStep (.new limit) past s) : Timed past s := by
  induction h with
  | start => exact ⟨fun _ _ h => absurd h List.not_mem_nil, fun m h => absurd h List.not_mem_nil⟩
  | @step past s s' l hrun hs ih =>
    have hsound := ledger_sound hrun
    refine ⟨fun stream interval h => ?_, fun m hm => ?_⟩
    · rw [intervalOf_cons]
      rcases hs.queued h with hold | hnew
      · have hheld : stream ∈ s.held := List.mem_append_left _
          (List.mem_flatMap.mpr ⟨_, hold, List.mem_singleton_self _⟩)
        rw [hs.interval?_of_held hsound hheld, Option.none_or]
        exact ih.queued stream interval hold
      · rw [hnew, Option.some_or]
    · rw [lastStamp_cons, intervalOf_cons]
      rcases hs.managed (PoolInv.run hrun) hsound hm with ⟨hold, hstamp⟩ | ⟨hstamp, hfrom⟩
      · rw [hstamp, Option.none_or, hs.interval?_of_held hsound (PoolState.managed_held hold),
          Option.none_or]
        exact ih.managed m hold
      · rw [hstamp, Option.some_or]
        refine ⟨rfl, ?_⟩
        rcases hfrom with ⟨m₀, hm₀, hstream, hinterval⟩ | hcmd
        · rw [← hstream, hs.interval?_of_held hsound (PoolState.managed_held hm₀), Option.none_or,
            ← hinterval]
          exact (ih.managed m₀ hm₀).2
        · have hheld : m.stream ∈ s.held := List.mem_append_left _
            (List.mem_flatMap.mpr ⟨_, hcmd, List.mem_singleton_self _⟩)
          rw [hs.interval?_of_held hsound hheld, Option.none_or]
          exact ih.queued m.stream m.interval hcmd

/-- **A tick writes to a stream exactly when its interval has passed**, in every run of the pool:
since the stream was last pinged, by whatever worker, or since the manager took it, and with the
interval that it was added with. -/
theorem written_iff_elapsed (h : History PoolStep (.new limit) past s) {w : KeepAliveWorker}
    (hw : w ∈ s.tasks) {now i : Nat} {changed : Bool} (hphase : w.phase = .ticking now i changed)
    {m : ManagedStream} (hm : w.streams[i]? = some m) :
    ∃ stamp interval, lastStamp past m.stream = some stamp ∧
      intervalOf past m.stream = some interval ∧
      (w.writesTo = some m.stream ↔ interval ≤ now - stamp) := by
  have hmanaged : m ∈ s.managed := by
    refine PoolState.mem_managed.mpr (.inr (.inr ⟨w, hw, ?_⟩))
    unfold KeepAliveWorker.managed
    rw [hphase]
    exact List.mem_append_left _ (List.mem_of_getElem? hm)
  obtain ⟨hstamp, hinterval⟩ := (Timed.run h).managed m hmanaged
  refine ⟨m.lastPing, m.interval, hstamp, hinterval, ?_⟩
  unfold KeepAliveWorker.writesTo
  rw [hphase]
  by_cases hdue : m.interval ≤ now - m.lastPing
  · simp [hm, Option.filter, ManagedStream.due, hdue]
  · simp [hm, Option.filter, ManagedStream.due, hdue]

/-- A stream with the interval 5 is pinged by its worker at 7 and handed to another.  At 11 the new
worker does not write to it. -/
theorem moved_stream_not_written : ∃ past s, History PoolStep (.new 10) past s ∧
    ∃ w ∈ s.tasks, w.id = 1 ∧ w.phase = .ticking 11 0 false ∧ lastStamp past 0 = some 7 ∧
      w.writesTo ≠ some 0 := by
  have h1 := added (.start : History PoolStep (.new 10) [] (.new 10)) 0 5 (by decide) (by decide)
  have h2 := spawnedWorker (received h1 0 rfl rfl rfl) rfl rfl rfl
  have h3 := workerActed h2 (.tick 7) rfl rfl (by decide)
  have h4 := workerActed (workerActed h3 (.ping true) rfl rfl (by decide)) .handOff rfl rfl
    (by decide)
  have h5 := workerActed (workerActed h4 .send rfl rfl (by decide)) .exit rfl rfl (by decide)
  have h6 := spawnedWorker (received h5 8 rfl rfl rfl) rfl rfl rfl
  have h7 := h6.step (.worker (show _ = [_] ++ _ :: [] from rfl)
    (show KeepAliveWorker.act _ _ _ (.tick 11) = _ from rfl) (by decide))
  obtain ⟨stamp, interval, hstamp, hinterval, hiff⟩ :=
    written_iff_elapsed h7 (List.mem_append_right [_] List.mem_cons_self) rfl rfl
  have hseven : stamp = 7 := (Option.some.inj hstamp).symm
  have hfive : interval = 5 := (Option.some.inj hinterval).symm
  subst hseven hfive
  exact ⟨_, _, h7, _, List.mem_append_right [_] List.mem_cons_self, rfl, rfl, hstamp,
    fun hwrites => absurd (hiff.mp hwrites) (by decide)⟩

end Stric.Core
