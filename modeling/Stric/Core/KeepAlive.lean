import Stric.Pool.History
import Stric.Pool.Ledger

/-!
# The keep-alive pool (`keep_alive.rs`)

A manager task places streams on workers, and each worker is a task that pings its streams.  The
manager takes commands from a queue of 100; a worker takes streams from a queue of 100 of its
own.  A worker that finds itself underloaded after a tick sends all its streams back to the
manager and returns, and what its queue then holds is dropped with it.

    PoolStep s l s'        `add_stream`, a step of the manager, or a step of a worker

* A worker's id is the position at which it was spawned; the manager knows it by its id, and
  reads the counter that it shares with the worker.
* `added` and `failed` record the streams that were added and those whose ping has failed; no
  step reads them, except that a stream is added once.
* A tick visits the streams one by one, since each write is awaited.

No stream is ever held in two places.  A stream is lost exactly when a worker returns with
streams in its queue (`conserved_iff`, `queued_stream_lost`).
-/

namespace Stric.Core

open Stric.Pool

/-- `mpsc::channel(100)`. -/
def channelSize : Nat := 100

structure ManagedStream where
  stream : Nat
  interval : Nat
  lastPing : Nat
deriving DecidableEq

inductive PoolCommand where
  | addStream (stream interval : Nat)
  | workerUnderloaded (workerId : Nat) (streams : List ManagedStream)
  | workerDropped (workerId : Nat)
deriving DecidableEq

/-! ## Workers -/

/-- Where a worker awaits. -/
inductive WorkerPhase where
  | selecting
  /-- In a tick, before the stream at `i`. -/
  | ticking (now i : Nat) (changed : Bool)
  /-- Sending `WorkerUnderloaded`. -/
  | handing (streams : List ManagedStream)
  /-- Sending `WorkerDropped`. -/
  | dropping
  | leaving
  | returned
deriving DecidableEq

structure KeepAliveWorker where
  id : Nat
  streams : List ManagedStream
  /-- The streams of the `AddStream` commands in its channel. -/
  receiver : List ManagedStream
  /-- Shared with the manager. -/
  count : Nat
  localCount : Nat
  phase : WorkerPhase
deriving DecidableEq

inductive WorkerAct where
  | recv
  | recvNone
  | tick (now : Nat)
  | ping (ok : Bool)
  | rest
  | handOff
  | send
  | exit
deriving DecidableEq

namespace KeepAliveWorker

def new (id : Nat) (stream : ManagedStream) : KeepAliveWorker :=
  ⟨id, [stream], [], 1, 1, .selecting⟩

def updateCounts (w : KeepAliveWorker) : KeepAliveWorker :=
  { w with count := w.streams.length, localCount := w.streams.length }

/-- The worker when its tick has visited all streams. -/
def afterPings (w : KeepAliveWorker) : Option KeepAliveWorker :=
  match w.phase with
  | .ticking _ i changed =>
    if w.streams.length ≤ i then some (if changed then w.updateCounts else w) else none
  | _ => none

def underloaded (limit : Nat) (w : KeepAliveWorker) : Bool :=
  0 < limit && 0 < w.localCount && w.localCount < limit / 2

/-- A step of `run`: the worker, the command it sends, and the stream whose ping failed.
`listed` says that the manager has a sender for the worker. -/
def act (limit : Nat) (listed : Bool) (w : KeepAliveWorker) :
    WorkerAct → Option (KeepAliveWorker × Option PoolCommand × Option Nat)
  | .recv =>
    match w.phase, w.receiver with
    | .selecting, s :: rest =>
      some ({ w with streams := w.streams ++ [s], receiver := rest }.updateCounts, none, none)
    | _, _ => none
  | .recvNone =>
    if w.phase = .selecting ∧ w.receiver = [] ∧ listed = false then
      some ({ w with phase := .dropping }, none, none)
    else none
  | .tick now =>
    if w.phase = .selecting then some ({ w with phase := .ticking now 0 false }, none, none)
    else none
  | .ping ok =>
    match w.phase with
    | .ticking now i changed =>
      match w.streams[i]? with
      | some s =>
        if s.interval ≤ now - s.lastPing then
          if ok then
            some ({ w with
              streams := w.streams.set i { s with lastPing := now }
              phase := .ticking now (i + 1) changed }, none, none)
          else
            some ({ w with streams := w.streams.eraseIdx i, phase := .ticking now i true },
              none, some s.stream)
        else some ({ w with phase := .ticking now (i + 1) changed }, none, none)
      | none => none
    | _ => none
  | .rest =>
    match w.afterPings with
    | some w =>
      if w.underloaded limit then none else some ({ w with phase := .selecting }, none, none)
    | none => none
  | .handOff =>
    match w.afterPings with
    | some w =>
      if w.underloaded limit then
        some ({ { w with streams := [] }.updateCounts with phase := .handing w.streams }, none, none)
      else none
    | none => none
  | .send =>
    match w.phase with
    | .handing streams =>
      some ({ w with phase := .leaving }, some (.workerUnderloaded w.id streams), none)
    | .dropping => some ({ w with phase := .leaving }, some (.workerDropped w.id), none)
    | _ => none
  | .exit =>
    -- the vector and the receiver are dropped with what they have
    if w.phase = .leaving then
      some ({ w with streams := [], receiver := [], phase := .returned }, none, none)
    else none

end KeepAliveWorker

/-! ## The manager -/

structure PoolState where
  limit : Nat
  /-- The commands in the manager's channel. -/
  receiver : List PoolCommand
  workers : List Nat
  nextWorkerId : Nat
  /-- The streams the manager has still to place, and the worker it is sending the first to. -/
  hands : List ManagedStream
  target : Option Nat
  tasks : List KeepAliveWorker
  added : List Nat
  failed : List Nat

namespace PoolState

def new (limit : Nat) : PoolState := ⟨limit, [], [], 0, [], none, [], [], []⟩

/-- The counter in the handle of a worker. -/
def count (s : PoolState) (id : Nat) : Nat :=
  ((s.tasks.find? fun w => w.id = id).map KeepAliveWorker.count).getD 0

/-- The first worker with capacity. -/
def available (s : PoolState) : Option Nat :=
  s.workers.find? fun id => s.limit = 0 ∨ s.count id < s.limit

def spawn (s : PoolState) (stream : ManagedStream) : PoolState :=
  { s with
    workers := s.workers ++ [s.nextWorkerId]
    nextWorkerId := s.nextWorkerId + 1
    tasks := s.tasks ++ [.new s.nextWorkerId stream] }

end PoolState

namespace PoolCommand

/-- The streams that the manager takes in its hands. -/
def taken (now : Nat) : PoolCommand → List ManagedStream
  | .addStream stream interval => [⟨stream, interval, now⟩]
  | .workerUnderloaded _ streams => streams
  | .workerDropped _ => []

/-- `workers.retain(..)`. -/
def retain (workers : List Nat) : PoolCommand → List Nat
  | .addStream _ _ => workers
  | .workerUnderloaded workerId _ => workers.filter fun id => id ≠ workerId
  | .workerDropped workerId => workers.filter fun id => id ≠ workerId

end PoolCommand

inductive PoolLabel where
  | add (stream interval : Nat)
  | receive (now : Nat)
  | choose
  | spawn
  | send
  | sendFails
  | worker (id : Nat) (act : WorkerAct)
deriving DecidableEq

inductive PoolStep (s : PoolState) : PoolLabel → PoolState → Prop
  | add {stream interval : Nat} : stream ∉ s.added → s.receiver.length < channelSize →
      PoolStep s (.add stream interval)
        { s with
          receiver := s.receiver ++ [.addStream stream interval]
          added := stream :: s.added }
  | receive {now : Nat} {cmd : PoolCommand} {rest : List PoolCommand} :
      s.hands = [] → s.target = none → s.receiver = cmd :: rest →
      PoolStep s (.receive now)
        { s with
          receiver := rest
          workers := cmd.retain s.workers
          hands := cmd.taken now }
  | choose {stream : ManagedStream} {rest : List ManagedStream} {id : Nat} :
      s.hands = stream :: rest → s.target = none → s.available = some id →
      PoolStep s .choose { s with target := some id }
  | spawn {stream : ManagedStream} {rest : List ManagedStream} :
      s.hands = stream :: rest → s.target = none → s.available = none →
      PoolStep s .spawn ({ s with hands := rest }.spawn stream)
  | send {stream : ManagedStream} {rest : List ManagedStream} {l₁ l₂ : List KeepAliveWorker}
      {w : KeepAliveWorker} : s.hands = stream :: rest → s.target = some w.id →
      s.tasks = l₁ ++ w :: l₂ → w.phase ≠ .returned → w.receiver.length < channelSize →
      PoolStep s .send
        { s with
          hands := rest
          target := none
          tasks := l₁ ++ { w with receiver := w.receiver ++ [stream] } :: l₂ }
  | sendFails {stream : ManagedStream} {rest : List ManagedStream} {l₁ l₂ : List KeepAliveWorker}
      {w : KeepAliveWorker} : s.hands = stream :: rest → s.target = some w.id →
      s.tasks = l₁ ++ w :: l₂ → w.phase = .returned →
      PoolStep s .sendFails ({ s with hands := rest, target := none }.spawn stream)
  | worker {l₁ l₂ : List KeepAliveWorker} {w w' : KeepAliveWorker} {act : WorkerAct}
      {cmd : Option PoolCommand} {bad : Option Nat} : s.tasks = l₁ ++ w :: l₂ →
      w.act s.limit (w.id ∈ s.workers) act = some (w', cmd, bad) →
      (s.receiver ++ cmd.toList).length ≤ channelSize →
      PoolStep s (.worker w.id act)
        { s with
          receiver := s.receiver ++ cmd.toList
          tasks := l₁ ++ w' :: l₂
          failed := bad.toList ++ s.failed }

/-! ## What a worker's step does -/

namespace KeepAliveWorker

variable {limit : Nat} {listed : Bool} {w w' : KeepAliveWorker} {act : WorkerAct}
  {cmd : Option PoolCommand} {bad : Option Nat}

/-- The worker still has a sender and works on its streams. -/
def active (w : KeepAliveWorker) : Bool :=
  match w.phase with
  | .selecting | .ticking _ _ _ | .handing _ => true
  | _ => false

theorem of_afterPings (h : w.afterPings = some w') :
    w'.id = w.id ∧ w'.streams = w.streams ∧ w'.receiver = w.receiver ∧ w'.phase = w.phase ∧
      ∃ now i changed, w.phase = .ticking now i changed := by
  unfold afterPings at h
  split at h
  · next now i changed hphase =>
    split at h
    · cases h
      split <;> exact ⟨rfl, rfl, rfl, rfl, now, i, changed, hphase⟩
    · cases h
  · cases h

/-- What each step needs and does. -/
theorem of_act (h : w.act limit listed act = some (w', cmd, bad)) : w'.id = w.id ∧ match act with
    | .recv => w.phase = .selecting ∧ w'.phase = .selecting ∧ cmd = none ∧ bad = none ∧
        ∃ s rest, w.receiver = s :: rest ∧ w'.receiver = rest ∧ w'.streams = w.streams ++ [s]
    | .recvNone => listed = false ∧ w.phase = .selecting ∧ cmd = none ∧ bad = none ∧
        w' = { w with phase := .dropping }
    | .tick now => w.phase = .selecting ∧ cmd = none ∧ bad = none ∧
        w' = { w with phase := .ticking now 0 false }
    | .ping ok => (∃ now i changed, w.phase = .ticking now i changed) ∧
        (∃ now i changed, w'.phase = .ticking now i changed) ∧ cmd = none ∧
        w'.receiver = w.receiver ∧
        ((bad = none ∧ w'.streams.map (·.stream) = w.streams.map (·.stream)) ∨
          (ok = false ∧ ∃ i s, w.streams[i]? = some s ∧ w'.streams = w.streams.eraseIdx i ∧
            bad = some s.stream))
    | .rest => (∃ now i changed, w.phase = .ticking now i changed) ∧ w'.phase = .selecting ∧
        cmd = none ∧ bad = none ∧ w'.receiver = w.receiver ∧ w'.streams = w.streams
    | .handOff => (∃ now i changed, w.phase = .ticking now i changed) ∧
        w'.phase = .handing w.streams ∧ cmd = none ∧ bad = none ∧ w'.receiver = w.receiver ∧
        w'.streams = [] ∧ 4 ≤ limit
    | .send => bad = none ∧ w' = { w with phase := .leaving } ∧
        ((∃ streams, w.phase = .handing streams ∧ cmd = some (.workerUnderloaded w.id streams)) ∨
          (w.phase = .dropping ∧ cmd = some (.workerDropped w.id)))
    | .exit => w.phase = .leaving ∧ cmd = none ∧ bad = none ∧
        w' = { w with streams := [], receiver := [], phase := .returned } := by
  cases act with
  | recv =>
    simp only [KeepAliveWorker.act] at h
    split at h
    · next s rest hphase hrecv =>
      cases h
      exact ⟨rfl, hphase, hphase, rfl, rfl, s, rest, hrecv, rfl, rfl⟩
    · cases h
  | recvNone =>
    simp only [KeepAliveWorker.act, Option.ite_none_right_eq_some] at h
    obtain ⟨⟨hphase, -, hlisted⟩, h⟩ := h
    cases h
    exact ⟨rfl, hlisted, hphase, rfl, rfl, rfl⟩
  | tick now =>
    simp only [KeepAliveWorker.act, Option.ite_none_right_eq_some] at h
    obtain ⟨hphase, h⟩ := h
    cases h
    exact ⟨rfl, hphase, rfl, rfl, rfl⟩
  | ping ok =>
    simp only [KeepAliveWorker.act] at h
    split at h
    · next now i changed hphase =>
      split at h
      · next s hs =>
        split at h
        · split at h
          · cases h
            refine ⟨rfl, ⟨_, _, _, hphase⟩, ⟨_, _, _, rfl⟩, rfl, rfl, Or.inl ⟨rfl, ?_⟩⟩
            obtain ⟨hi, rfl⟩ := List.getElem?_eq_some_iff.mp hs
            have hi' : i < (w.streams.map (·.stream)).length := by simpa using hi
            have hsame : (w.streams.map (·.stream))[i] = w.streams[i].stream := List.getElem_map _
            rw [List.map_set, ← hsame, List.set_getElem_self]
          · next hok =>
            cases h
            exact ⟨rfl, ⟨_, _, _, hphase⟩, ⟨_, _, _, rfl⟩, rfl, rfl,
              Or.inr ⟨by simpa using hok, i, s, hs, rfl, rfl⟩⟩
        · cases h
          exact ⟨rfl, ⟨_, _, _, hphase⟩, ⟨_, _, _, rfl⟩, rfl, rfl, Or.inl ⟨rfl, rfl⟩⟩
      · cases h
    · cases h
  | rest =>
    simp only [KeepAliveWorker.act] at h
    split at h
    · next w₀ hpings =>
      obtain ⟨hid, hstreams, hrecv, hphase, hticking⟩ := of_afterPings hpings
      split at h
      · cases h
      · cases h
        exact ⟨hid, hticking, rfl, rfl, rfl, hrecv, hstreams⟩
    · cases h
  | handOff =>
    simp only [KeepAliveWorker.act] at h
    split at h
    · next w₀ hpings =>
      obtain ⟨hid, hstreams, hrecv, hphase, hticking⟩ := of_afterPings hpings
      split at h
      · next hunder =>
        cases h
        refine ⟨hid, hticking, by rw [hstreams], rfl, rfl, hrecv, rfl, ?_⟩
        simp only [underloaded, Bool.and_eq_true, decide_eq_true_eq] at hunder
        omega
      · cases h
    · cases h
  | send =>
    simp only [KeepAliveWorker.act] at h
    split at h
    · next streams hphase =>
      cases h
      exact ⟨rfl, rfl, rfl, Or.inl ⟨streams, hphase, rfl⟩⟩
    · next hphase =>
      cases h
      exact ⟨rfl, rfl, rfl, Or.inr ⟨hphase, rfl⟩⟩
    · cases h
  | exit =>
    simp only [KeepAliveWorker.act, Option.ite_none_right_eq_some] at h
    obtain ⟨hphase, h⟩ := h
    cases h
    exact ⟨rfl, hphase, rfl, rfl, rfl⟩

/-- The streams in the worker's vector, its channel, and the command it is sending. -/
def held (w : KeepAliveWorker) : List Nat :=
  match w.phase with
  | .returned => []
  | .handing streams => (streams ++ (w.streams ++ w.receiver)).map (·.stream)
  | _ => (w.streams ++ w.receiver).map (·.stream)

end KeepAliveWorker

def PoolCommand.held : PoolCommand → List Nat
  | .addStream stream _ => [stream]
  | .workerUnderloaded _ streams => streams.map (·.stream)
  | .workerDropped _ => []

theorem PoolCommand.taken_held (now : Nat) (cmd : PoolCommand) :
    (cmd.taken now).map (·.stream) = cmd.held := by
  cases cmd <;> rfl

namespace KeepAliveWorker

variable {limit : Nat} {listed : Bool} {w w' : KeepAliveWorker} {act : WorkerAct}
  {cmd : Option PoolCommand} {bad : Option Nat}

/-- Only a worker that returns drops streams. -/
theorem act_held (h : w.act limit listed act = some (w', cmd, bad)) (hexit : act ≠ .exit) :
    w.held.Perm (bad.toList ++ (cmd.toList.flatMap PoolCommand.held ++ w'.held)) := by
  obtain ⟨-, hof⟩ := of_act h
  cases act with
  | recv =>
    obtain ⟨hphase, hphase', rfl, rfl, s, rest, hrecv, hrecv', hstreams⟩ := hof
    simp [held, hphase, hphase', hrecv, hrecv', hstreams]
  | recvNone =>
    obtain ⟨-, hphase, rfl, rfl, rfl⟩ := hof
    simp [held, hphase]
  | tick now =>
    obtain ⟨hphase, rfl, rfl, rfl⟩ := hof
    simp [held, hphase]
  | ping ok =>
    obtain ⟨⟨now, i, changed, hphase⟩, ⟨now', i', changed', hphase'⟩, rfl, hrecv, hping⟩ := hof
    simp only [held, hphase, hphase', hrecv, List.map_append, Option.toList_none, List.flatMap_nil,
      List.nil_append]
    rcases hping with ⟨rfl, hstreams⟩ | ⟨-, j, s, hs, hstreams, rfl⟩
    · rw [hstreams]
      exact .refl _
    · obtain ⟨hj, rfl⟩ := List.getElem?_eq_some_iff.mp hs
      rw [hstreams]
      have hperm := (List.getElem_cons_eraseIdx_perm hj).map (·.stream)
      exact (hperm.append_right _).symm
  | rest =>
    obtain ⟨⟨now, i, changed, hphase⟩, hphase', rfl, rfl, hrecv, hstreams⟩ := hof
    simp [held, hphase, hphase', hrecv, hstreams]
  | handOff =>
    obtain ⟨⟨now, i, changed, hphase⟩, hphase', rfl, rfl, hrecv, hstreams, -⟩ := hof
    simp [held, hphase, hphase', hrecv, hstreams]
  | send =>
    obtain ⟨rfl, rfl, ⟨streams, hphase, rfl⟩ | ⟨hphase, rfl⟩⟩ := hof
    · simp [held, hphase, PoolCommand.held]
    · simp [held, hphase, PoolCommand.held]
  | exit => exact absurd rfl hexit

end KeepAliveWorker

/-! ## The workers and the manager's list -/

namespace KeepAliveWorker

/-- What is known about a worker: the manager has a sender for it until it has sent its streams
back, its channel is not closed before, and it keeps nothing when it leaves. -/
structure Ok (nextWorkerId : Nat) (workers : List Nat) (w : KeepAliveWorker) : Prop where
  bound : w.id < nextWorkerId
  listed : w.active = true → w.id ∈ workers
  notDropping : w.phase ≠ .dropping
  emptied : (∃ streams, w.phase = .handing streams) ∨ w.phase = .leaving → w.streams = []

theorem Ok.act {limit nextWorkerId : Nat} {workers : List Nat} {w w' : KeepAliveWorker}
    {act : WorkerAct} {cmd : Option PoolCommand} {bad : Option Nat} (hok : w.Ok nextWorkerId workers)
    (h : w.act limit (w.id ∈ workers) act = some (w', cmd, bad)) :
    w'.Ok nextWorkerId workers ∧ (w'.active = true → w.active = true) := by
  obtain ⟨hid, hof⟩ := of_act h
  have hbound : w'.id < nextWorkerId := hid ▸ hok.bound
  -- a worker that goes on was active before
  have hworks : w.active = true → w'.phase ≠ .dropping →
      ((∃ streams, w'.phase = .handing streams) ∨ w'.phase = .leaving → w'.streams = []) →
      w'.Ok nextWorkerId workers ∧ (w'.active = true → w.active = true) := fun ha hdrop hempty =>
    ⟨⟨hbound, fun _ => hid ▸ hok.listed ha, hdrop, hempty⟩, fun _ => ha⟩
  cases act with
  | recv =>
    obtain ⟨hphase, hphase', -⟩ := hof
    exact hworks (by simp [active, hphase]) (by simp [hphase']) (by simp [hphase'])
  | recvNone =>
    -- the manager has a sender for every active worker
    obtain ⟨hnot, hphase, -⟩ := hof
    have hactive : w.active = true := by simp [active, hphase]
    exact absurd (hok.listed hactive) (of_decide_eq_false hnot)
  | tick now =>
    obtain ⟨hphase, -, -, rfl⟩ := hof
    exact hworks (by simp [active, hphase]) (by simp) (by simp)
  | ping ok =>
    obtain ⟨⟨now, i, changed, hphase⟩, ⟨now', i', changed', hphase'⟩, -⟩ := hof
    exact hworks (by simp [active, hphase]) (by simp [hphase']) (by simp [hphase'])
  | rest =>
    obtain ⟨⟨now, i, changed, hphase⟩, hphase', -⟩ := hof
    exact hworks (by simp [active, hphase]) (by simp [hphase']) (by simp [hphase'])
  | handOff =>
    obtain ⟨⟨now, i, changed, hphase⟩, hphase', -, -, -, hstreams, -⟩ := hof
    exact hworks (by simp [active, hphase]) (by simp [hphase']) fun _ => hstreams
  | send =>
    obtain ⟨-, rfl, hphase⟩ := hof
    refine ⟨⟨hbound, nofun, by simp, fun _ => ?_⟩, nofun⟩
    rcases hphase with ⟨streams, hphase, -⟩ | ⟨hphase, -⟩
    · exact hok.emptied (Or.inl ⟨streams, hphase⟩)
    · exact absurd hphase hok.notDropping
  | exit =>
    obtain ⟨-, -, -, rfl⟩ := hof
    exact ⟨⟨hbound, nofun, by simp, fun _ => rfl⟩, nofun⟩

end KeepAliveWorker

/-- The worker that a command comes from. -/
def PoolCommand.sender : PoolCommand → Option Nat
  | .addStream _ _ => none
  | .workerUnderloaded workerId _ => some workerId
  | .workerDropped workerId => some workerId

theorem PoolCommand.mem_retain {cmd : PoolCommand} {workers : List Nat} {id : Nat} :
    id ∈ cmd.retain workers ↔ id ∈ workers ∧ cmd.sender ≠ some id := by
  cases cmd with
  | addStream stream interval => simp [retain, sender]
  | workerUnderloaded workerId streams =>
    simp only [retain, sender, List.mem_filter, decide_eq_true_eq, ne_eq, Option.some.injEq]
    exact and_congr_right fun _ => not_congr eq_comm
  | workerDropped workerId =>
    simp only [retain, sender, List.mem_filter, decide_eq_true_eq, ne_eq, Option.some.injEq]
    exact and_congr_right fun _ => not_congr eq_comm

/-- A worker sends a command only when it has stopped working. -/
theorem KeepAliveWorker.act_sends {limit : Nat} {listed : Bool} {w w' : KeepAliveWorker}
    {act : WorkerAct} {cmd : Option PoolCommand} {bad : Option Nat}
    (h : w.act limit listed act = some (w', cmd, bad)) :
    ∀ c ∈ cmd, c.sender = some w.id ∧ w'.active = false := by
  obtain ⟨-, hof⟩ := of_act h
  intro c hc
  cases act with
  | send =>
    obtain ⟨-, rfl, ⟨streams, -, rfl⟩ | ⟨-, rfl⟩⟩ := hof
    · cases hc
      exact ⟨rfl, rfl⟩
    · cases hc
      exact ⟨rfl, rfl⟩
  | _ => simp_all

structure PoolInv (s : PoolState) : Prop where
  ids : (s.tasks.map (·.id)).Nodup
  workers : ∀ w ∈ s.tasks, w.Ok s.nextWorkerId s.workers
  /-- A worker that has sent a command does not work on streams any more. -/
  gone : ∀ cmd ∈ s.receiver, ∀ id, cmd.sender = some id →
    id < s.nextWorkerId ∧ ∀ w ∈ s.tasks, w.id = id → w.active = false

theorem PoolInv.new (limit : Nat) : PoolInv (.new limit) :=
  ⟨List.nodup_nil, fun _ hw => absurd hw List.not_mem_nil,
    fun _ hcmd => absurd hcmd List.not_mem_nil⟩

variable {s s' : PoolState} {l : PoolLabel} {past : List (PoolState × PoolLabel)}
  {l₁ l₂ : List KeepAliveWorker} {w w' : KeepAliveWorker}

theorem PoolStep.limit_eq (h : PoolStep s l s') : s'.limit = s.limit := by
  cases h <;> rfl

theorem PoolState.mem_tasks (htasks : s.tasks = l₁ ++ w :: l₂) : w ∈ s.tasks := by
  rw [htasks]
  exact List.mem_append_cons_self

/-- One worker is replaced by another that has what all have. -/
theorem PoolState.forall_replace {P : KeepAliveWorker → Prop} (h : ∀ x ∈ s.tasks, P x)
    (htasks : s.tasks = l₁ ++ w :: l₂) (hw : P w') : ∀ x ∈ l₁ ++ w' :: l₂, P x := by
  intro x hx
  rw [List.mem_append, List.mem_cons] at hx
  rw [htasks] at h
  rcases hx with hx | rfl | hx
  · exact h x (List.mem_append_left _ hx)
  · exact hw
  · exact h x (List.mem_append_right _ (List.mem_cons_of_mem _ hx))

theorem PoolInv.unique (h : PoolInv s) (htasks : s.tasks = l₁ ++ w :: l₂) {x : KeepAliveWorker}
    (hx : x ∈ l₁ ∨ x ∈ l₂) : x.id ≠ w.id := by
  have hids := h.ids
  rw [htasks, List.map_append, List.map_cons, List.nodup_middle, List.nodup_cons,
    ← List.map_append] at hids
  intro heq
  refine hids.1 (List.mem_map.mpr ⟨x, List.mem_append.mpr hx, heq⟩)

/-- One worker changes, and may send a command when it leaves. -/
theorem PoolInv.replace (h : PoolInv s) (htasks : s.tasks = l₁ ++ w :: l₂) (hid : w'.id = w.id)
    (hok : w'.Ok s.nextWorkerId s.workers) (hactive : w'.active = true → w.active = true)
    (receiver : List PoolCommand)
    (hreceiver : ∀ cmd ∈ receiver, cmd ∈ s.receiver ∨
      (cmd.sender = some w.id ∧ w'.active = false))
    (hands : List ManagedStream) (target : Option Nat) (added failed : List Nat) :
    PoolInv ⟨s.limit, receiver, s.workers, s.nextWorkerId, hands, target, l₁ ++ w' :: l₂, added,
      failed⟩ := by
  have hmem : ∀ x ∈ l₁ ++ w' :: l₂, x = w' ∨ (x ∈ s.tasks ∧ x.id ≠ w.id) := by
    intro x hx
    rw [List.mem_append, List.mem_cons] at hx
    rw [htasks, List.mem_append, List.mem_cons]
    rcases hx with hx | rfl | hx
    · exact Or.inr ⟨Or.inl hx, h.unique htasks (Or.inl hx)⟩
    · exact Or.inl rfl
    · exact Or.inr ⟨Or.inr (Or.inr hx), h.unique htasks (Or.inr hx)⟩
  have hw : w ∈ s.tasks := PoolState.mem_tasks htasks
  refine ⟨?_, fun x hx => ?_, fun cmd hcmd id hsender => ?_⟩
  · have hids := h.ids
    rw [htasks, List.map_append, List.map_cons, ← hid] at hids
    rw [List.map_append, List.map_cons]
    exact hids
  · rcases hmem x hx with rfl | ⟨hx, -⟩
    · exact hok
    · exact h.workers x hx
  · rcases hreceiver cmd hcmd with hold | ⟨hnew, hgone⟩
    · obtain ⟨hlt, hold⟩ := h.gone cmd hold id hsender
      refine ⟨hlt, fun x hx hxid => ?_⟩
      rcases hmem x hx with rfl | ⟨hx, -⟩
      · refine Bool.eq_false_iff.mpr fun hact => ?_
        have := hold w hw (hid ▸ hxid)
        rw [hactive hact] at this
        cases this
      · exact hold x hx hxid
    · rw [hnew] at hsender
      cases hsender
      refine ⟨(h.workers w hw).bound, fun x hx hxid => ?_⟩
      rcases hmem x hx with rfl | ⟨-, hne⟩
      · exact hgone
      · exact absurd hxid hne

theorem PoolInv.spawn (h : PoolInv s) (stream : ManagedStream) : PoolInv (s.spawn stream) := by
  have hmem : ∀ x ∈ s.tasks ++ [.new s.nextWorkerId stream],
      x ∈ s.tasks ∨ x = .new s.nextWorkerId stream := by
    intro x hx
    simpa using hx
  refine ⟨?_, fun x hx => ?_, fun cmd hcmd id hsender => ?_⟩
  · show ((s.tasks ++ [KeepAliveWorker.new s.nextWorkerId stream]).map (·.id)).Nodup
    rw [List.map_append, List.map_singleton, List.nodup_append_comm, List.singleton_append,
      List.nodup_cons]
    refine ⟨fun hin => ?_, h.ids⟩
    obtain ⟨x, hx, hxid⟩ := List.mem_map.mp hin
    have hlt := (h.workers x hx).bound
    rw [hxid] at hlt
    exact absurd hlt (Nat.lt_irrefl _)
  · rcases hmem x hx with hx | rfl
    · obtain ⟨hbound, hlisted, hphase, hempty⟩ := h.workers x hx
      exact ⟨Nat.lt_succ_of_lt hbound, fun ha => List.mem_append_left _ (hlisted ha), hphase,
        hempty⟩
    · exact ⟨Nat.lt_succ_self _, fun _ => List.mem_append_right _ (List.mem_singleton_self _), nofun,
        by simp [KeepAliveWorker.new]⟩
  · obtain ⟨hlt, hold⟩ := h.gone cmd hcmd id hsender
    refine ⟨Nat.lt_succ_of_lt hlt, fun x hx hxid => ?_⟩
    rcases hmem x hx with hx | rfl
    · exact hold x hx hxid
    · exact absurd hxid (Nat.ne_of_gt hlt)

theorem PoolInv.step (h : PoolInv s) (hs : PoolStep s l s') : PoolInv s' := by
  cases hs with
  | add _ _ =>
    refine ⟨h.ids, h.workers, fun cmd hcmd id hsender => ?_⟩
    rcases List.mem_append.mp hcmd with hcmd | hcmd
    · exact h.gone cmd hcmd id hsender
    · cases List.mem_singleton.mp hcmd
      cases hsender
  | @receive now cmd rest _ _ hq =>
    have hcmd : cmd ∈ s.receiver := by
      rw [hq]
      exact List.mem_cons_self
    refine ⟨h.ids, fun w hw => ?_, fun c hc => ?_⟩
    · obtain ⟨hbound, hlisted, hphase, hempty⟩ := h.workers w hw
      refine ⟨hbound, fun ha => ?_, hphase, hempty⟩
      refine PoolCommand.mem_retain.mpr ⟨hlisted ha, fun hsender => ?_⟩
      have := (h.gone cmd hcmd w.id hsender).2 w hw rfl
      rw [ha] at this
      cases this
    · refine h.gone c ?_
      rw [hq]
      exact List.mem_cons_of_mem _ hc
  | choose _ _ _ => exact ⟨h.ids, h.workers, h.gone⟩
  | @spawn stream rest _ _ _ =>
    have hinv : PoolInv { s with hands := rest } := ⟨h.ids, h.workers, h.gone⟩
    exact hinv.spawn stream
  | @send stream rest l₁ l₂ w _ _ htasks _ _ =>
    have hok := h.workers w (PoolState.mem_tasks htasks)
    have hid : ({ w with receiver := w.receiver ++ [stream] } : KeepAliveWorker).id = w.id := rfl
    exact h.replace htasks hid ⟨hok.bound, hok.listed, hok.notDropping, hok.emptied⟩ id s.receiver
      (fun cmd hcmd => Or.inl hcmd) rest none s.added s.failed
  | @sendFails stream rest l₁ l₂ w _ _ _ _ =>
    have hinv : PoolInv { s with hands := rest, target := none } := ⟨h.ids, h.workers, h.gone⟩
    exact hinv.spawn stream
  | @worker l₁ l₂ w w' act cmd bad htasks hact _ =>
    have hok := h.workers w (PoolState.mem_tasks htasks)
    obtain ⟨hok', hactive⟩ := hok.act hact
    refine h.replace htasks (KeepAliveWorker.of_act hact).1 hok' hactive _ (fun c hc => ?_) _ _ _ _
    rcases List.mem_append.mp hc with hc | hc
    · exact Or.inl hc
    · exact Or.inr (KeepAliveWorker.act_sends hact c (Option.mem_toList.mp hc))

/-- A property that every new worker has, and that neither a stream sent to the worker nor a step of
its own takes away, all workers have in every run. -/
theorem forall_tasks_run {limit : Nat} (P : KeepAliveWorker → Prop)
    (hnew : ∀ id stream, P (.new id stream))
    (hsend : ∀ w stream, P w → P { w with receiver := w.receiver ++ [stream] })
    (hact : ∀ limit listed act w w' cmd bad, P w →
      w.act limit listed act = some (w', cmd, bad) → P w')
    (h : History PoolStep (.new limit) past s) : ∀ w ∈ s.tasks, P w := by
  refine h.invariant (fun s => ∀ w ∈ s.tasks, P w) (fun w hw => absurd hw List.not_mem_nil) ?_
  intro s l s' hall hs
  have hspawn : ∀ id stream, ∀ w ∈ s.tasks ++ [.new id stream], P w := by
    intro id stream w hw
    rcases List.mem_append.mp hw with hw | hw
    · exact hall w hw
    · rw [List.mem_singleton.mp hw]
      exact hnew id stream
  cases hs with
  | add _ _ => exact hall
  | receive _ _ _ => exact hall
  | choose _ _ _ => exact hall
  | spawn _ _ _ => exact hspawn _ _
  | send _ _ htasks _ _ =>
    exact PoolState.forall_replace hall htasks (hsend _ _ (hall _ (PoolState.mem_tasks htasks)))
  | sendFails _ _ _ _ => exact hspawn _ _
  | worker htasks hstep _ =>
    have hw := hall _ (PoolState.mem_tasks htasks)
    exact PoolState.forall_replace hall htasks (hact _ _ _ _ _ _ _ hw hstep)

theorem PoolInv.run {limit : Nat} (h : History PoolStep (.new limit) past s) : PoolInv s :=
  h.invariant PoolInv (.new limit) fun _ _ _ hinv hs => hinv.step hs

/-! ## Conservation -/

namespace PoolState

/-- The streams in the manager's channel, in its hands, and with the workers. -/
def held (s : PoolState) : List Nat :=
  s.receiver.flatMap PoolCommand.held ++
    (s.hands.map (·.stream) ++ s.tasks.flatMap KeepAliveWorker.held)

def ledger (s : PoolState) : Ledger Nat := ⟨s.added, s.failed, s.held⟩

/-- Every stream that was added and whose pings have not failed is held in exactly one place. -/
def Conserved (s : PoolState) : Prop := s.ledger.Complete

end PoolState

/-- A worker that returns has nothing in its channel. -/
def ReturnsEmpty (s : PoolState) : PoolLabel → Prop
  | .worker id .exit => ∀ w ∈ s.tasks, w.id = id → w.receiver = []
  | _ => True

theorem PoolState.held_spawn (stream : ManagedStream) (rest : List ManagedStream)
    (hhands : s.hands = stream :: rest) (target : Option Nat) :
    s.held.Perm ({ s with hands := rest, target := target }.spawn stream).held := by
  refine .append_left _ ?_
  show (s.hands.map (·.stream) ++ s.tasks.flatMap KeepAliveWorker.held).Perm
    (rest.map (·.stream) ++
      (s.tasks ++ [KeepAliveWorker.new s.nextWorkerId stream]).flatMap KeepAliveWorker.held)
  rw [hhands, List.flatMap_append, List.map_cons, ← List.append_assoc]
  exact (List.perm_append_singleton _ _).symm

theorem PoolState.count_held (htasks : s.tasks = l₁ ++ w :: l₂) (i : Nat) :
    s.held.count i = (s.receiver.flatMap PoolCommand.held).count i +
      (s.hands.map (·.stream)).count i + ((l₁ ++ l₂).flatMap KeepAliveWorker.held).count i +
      w.held.count i := by
  simp only [held, htasks, List.flatMap_append, List.flatMap_cons, List.count_append]
  omega

/-- A worker that does not return loses nothing but streams whose ping fails. -/
theorem PoolState.held_act {act : WorkerAct} {cmd : Option PoolCommand} {bad : Option Nat}
    {listed : Bool} (htasks : s.tasks = l₁ ++ w :: l₂)
    (hact : w.act s.limit listed act = some (w', cmd, bad)) (hexit : act ≠ .exit) :
    s.held.Perm (bad.toList ++ { s with
      receiver := s.receiver ++ cmd.toList
      tasks := l₁ ++ w' :: l₂
      failed := bad.toList ++ s.failed }.held) := by
  refine List.perm_iff_count.mpr fun i => ?_
  have hw := (KeepAliveWorker.act_held hact hexit).count_eq i
  simp only [List.count_append] at hw
  rw [count_held htasks, List.count_append, count_held rfl]
  simp only [List.flatMap_append, List.count_append]
  omega

/-- A worker that returns drops its channel. -/
theorem PoolState.held_exit (htasks : s.tasks = l₁ ++ w :: l₂) (hphase : w.phase = .leaving)
    (hstreams : w.streams = []) (failed : List Nat) :
    s.held.Perm (w.receiver.map (·.stream) ++ { s with
      tasks := l₁ ++ { w with streams := [], receiver := [], phase := .returned } :: l₂
      failed := failed }.held) := by
  refine List.perm_iff_count.mpr fun i => ?_
  rw [count_held htasks, List.count_append, count_held rfl]
  simp only [KeepAliveWorker.held, hphase, hstreams, List.nil_append, List.count_nil]
  omega

/-- The streams that a step loses: those in the channel of a worker that returns. -/
def dropped (s : PoolState) : PoolLabel → List Nat
  | .worker id .exit =>
    (s.tasks.filter fun w => w.id = id).flatMap fun w => w.receiver.map (·.stream)
  | _ => []

theorem dropped_eq_nil_iff (s : PoolState) (l : PoolLabel) : dropped s l = [] ↔ ReturnsEmpty s l := by
  cases l with
  | worker id act =>
    cases act with
    | exit => simp [dropped, ReturnsEmpty, List.flatMap_eq_nil_iff]
    | _ => exact iff_of_true rfl trivial
  | _ => exact iff_of_true rfl trivial

theorem PoolInv.dropped_exit (h : PoolInv s) (htasks : s.tasks = l₁ ++ w :: l₂) :
    dropped s (.worker w.id .exit) = w.receiver.map (·.stream) := by
  -- ids are unique
  have hother : ∀ x, x ∈ l₁ ∨ x ∈ l₂ → ¬ decide (x.id = w.id) = true := by
    intro x hx heq
    exact h.unique htasks hx (of_decide_eq_true heq)
  have hfilter : (s.tasks.filter fun x => x.id = w.id) = [w] := by
    rw [htasks, List.filter_append, List.filter_cons_of_pos (by simp),
      List.filter_eq_nil_iff.mpr fun x hx => hother x (Or.inl hx),
      List.filter_eq_nil_iff.mpr fun x hx => hother x (Or.inr hx)]
    rfl
  rw [dropped, hfilter, List.flatMap_singleton]

/-- What each step does to the ledger. -/
theorem PoolStep.ledger_dropped (h : PoolInv s) (hs : PoolStep s l s') :
    s.ledger.Move (dropped s l) s'.ledger := by
  cases hs with
  | @add stream interval hnew _ =>
    refine .issue hnew ?_
    show ((s.receiver ++ [PoolCommand.addStream stream interval]).flatMap PoolCommand.held ++ _).Perm
      (stream :: (s.receiver.flatMap PoolCommand.held ++ _))
    rw [List.flatMap_append, List.append_assoc]
    exact List.perm_middle
  | @receive now cmd rest hhands _ hq =>
    refine .lose ?_
    show s.held.Perm (rest.flatMap PoolCommand.held ++ ((cmd.taken now).map (·.stream) ++ _))
    rw [PoolState.held, hhands, hq, PoolCommand.taken_held, List.flatMap_cons, List.map_nil,
      List.nil_append, ← List.append_assoc]
    exact List.perm_append_comm.append_right _
  | choose _ _ _ => exact .lose (.refl _)
  | spawn hhands _ _ => exact .lose (PoolState.held_spawn _ _ hhands _)
  | @send stream rest l₁ l₂ w hhands _ htasks hphase _ =>
    refine .lose (List.perm_iff_count.mpr fun i => ?_)
    have hw : ({ w with receiver := w.receiver ++ [stream] } : KeepAliveWorker).held =
        w.held ++ [stream.stream] := by
      unfold KeepAliveWorker.held
      cases hp : w.phase with
      | returned => exact absurd hp hphase
      | _ => simp
    show s.held.count i = (PoolState.held _).count i
    rw [PoolState.count_held htasks, PoolState.count_held rfl, hw, hhands, List.count_append,
      List.map_cons, List.count_cons, List.count_singleton]
    dsimp only
    omega
  | sendFails hhands _ _ _ => exact .lose (PoolState.held_spawn _ _ hhands _)
  | @worker l₁ l₂ w w' act cmd bad htasks hact _ =>
    by_cases hexit : act = .exit
    · subst hexit
      obtain ⟨-, hphase, rfl, rfl, rfl⟩ := KeepAliveWorker.of_act hact
      have hempty := (h.workers w (PoolState.mem_tasks htasks)).emptied (Or.inr hphase)
      have hperm := PoolState.held_exit htasks hphase hempty s.failed
      rw [h.dropped_exit htasks]
      refine .lose ?_
      rwa [← List.append_nil s.receiver] at hperm
    · have hperm := PoolState.held_act htasks hact hexit
      have hnone : dropped s (.worker w.id act) = [] := by
        cases act with
        | exit => exact absurd rfl hexit
        | _ => rfl
      rw [hnone]
      cases bad with
      | none => exact .lose hperm
      | some x => exact .retire hperm

/-- A step loses something exactly if a worker returns with streams in its channel. -/
theorem PoolStep.ledger_move (h : PoolInv s) (hs : PoolStep s l s') :
    ∃ lost, s.ledger.Move lost s'.ledger ∧ (lost = [] ↔ ReturnsEmpty s l) :=
  ⟨dropped s l, hs.ledger_dropped h, dropped_eq_nil_iff s l⟩

theorem ledger_sound {limit : Nat} (h : History PoolStep (.new limit) past s) :
    s.ledger.Sound := by
  induction h with
  | start => exact ⟨List.nodup_nil, nofun, nofun, nofun⟩
  | step hrun hs ih => exact ih.move (hs.ledger_dropped (PoolInv.run hrun))

/-- **When the pool loses no stream.**  In every state of a run, every stream that was added and
whose pings have not failed is in exactly one place, exactly if no worker returns with streams
in its channel. -/
theorem conserved_iff {limit : Nat} (h : History PoolStep (.new limit) past s) :
    (s.Conserved ∧ ∀ e ∈ past, e.1.Conserved) ↔ ∀ e ∈ past, ReturnsEmpty e.1 e.2 := by
  refine h.always_iff PoolState.Conserved ReturnsEmpty ?_ ?_
  · intro i hi
    exact absurd hi List.not_mem_nil
  · intro past s l s' hrun hs hgood
    obtain ⟨lost, hmove, hlost⟩ := hs.ledger_move (PoolInv.run hrun)
    exact (hgood.move_iff (ledger_sound hrun) hmove).trans hlost

/-- The streams that the steps of a run have lost. -/
def droppedIn (past : List (PoolState × PoolLabel)) : List Nat :=
  past.flatMap fun e => dropped e.1 e.2

/-- **Where the streams are.**  Of any kind of stream, those that were added are held, have
failed, or were lost. -/
theorem added_balance {limit : Nat} (h : History PoolStep (.new limit) past s) (p : Nat → Bool) :
    s.added.countP p = s.held.countP p + s.failed.countP p + (droppedIn past).countP p := by
  induction h with
  | start => rfl
  | @step past s s' l hrun hs ih =>
    have hmove : s'.added.countP p + (s.held.countP p + s.failed.countP p) =
        s.added.countP p + (s'.held.countP p + s'.failed.countP p + (dropped s l).countP p) :=
      (hs.ledger_dropped (PoolInv.run hrun)).countP_eq p
    have hdropped : (droppedIn ((s, l) :: past)).countP p =
        (dropped s l).countP p + (droppedIn past).countP p := by
      rw [droppedIn, List.flatMap_cons, List.countP_append]
      rfl
    omega

/-! ## A stream that comes when its worker has decided to leave -/

section
variable {init : PoolState}

theorem added (h : History PoolStep init past s) (stream interval : Nat)
    (hnew : stream ∉ s.added) (hroom : s.receiver.length < channelSize) :
    History PoolStep init ((s, .add stream interval) :: past)
      { s with
        receiver := s.receiver ++ [.addStream stream interval]
        added := stream :: s.added } :=
  h.step (.add hnew hroom)

theorem received (h : History PoolStep init past s) (now : Nat) {cmd : PoolCommand}
    {rest : List PoolCommand} (hhands : s.hands = []) (htarget : s.target = none)
    (hq : s.receiver = cmd :: rest) :
    History PoolStep init ((s, .receive now) :: past)
      { s with receiver := rest, workers := cmd.retain s.workers, hands := cmd.taken now } :=
  h.step (.receive hhands htarget hq)

theorem spawnedWorker (h : History PoolStep init past s) {stream : ManagedStream}
    {rest : List ManagedStream} (hhands : s.hands = stream :: rest) (htarget : s.target = none)
    (hnone : s.available = none) :
    History PoolStep init ((s, .spawn) :: past) ({ s with hands := rest }.spawn stream) :=
  h.step (.spawn hhands htarget hnone)

theorem workerActed (h : History PoolStep init past s) (act : WorkerAct) {cmd : Option PoolCommand}
    {bad : Option Nat} (htasks : s.tasks = [w])
    (hact : w.act s.limit (w.id ∈ s.workers) act = some (w', cmd, bad))
    (hroom : (s.receiver ++ cmd.toList).length ≤ channelSize) :
    History PoolStep init ((s, .worker w.id act) :: past)
      { s with
        receiver := s.receiver ++ cmd.toList
        tasks := [w']
        failed := bad.toList ++ s.failed } :=
  h.step (.worker (show s.tasks = [] ++ w :: [] from htasks) hact hroom)

end

/-- The manager sends the second stream to the worker of the first; before the worker takes it
from its channel, it finds itself underloaded, and returns. -/
theorem queued_stream_lost : ∃ past s, History PoolStep (.new 10) past s ∧ 1 ∈ s.added ∧
    s.failed = [] ∧ 1 ∉ s.held := by
  have h1 := added (.start : History PoolStep (.new 10) [] (.new 10)) 0 5 (by decide) (by decide)
  have h2 := spawnedWorker (received h1 0 rfl rfl rfl) rfl rfl rfl
  have h3 := received (added h2 1 5 (by decide) (by decide)) 0 rfl rfl rfl
  have h4 := h3.step (.choose rfl rfl rfl)
  have h5 := h4.step (.send rfl rfl (List.nil_append _).symm (by decide) (by decide))
  have h6 := workerActed h5 (.tick 0) rfl rfl (by decide)
  have h7 := workerActed (workerActed h6 (.ping true) rfl rfl (by decide)) .handOff rfl rfl
    (by decide)
  have h8 := workerActed (workerActed h7 .send rfl rfl (by decide)) .exit rfl rfl (by decide)
  exact ⟨_, _, h8, by decide, rfl, by decide⟩

/-- A hand-off with an empty channel loses nothing. -/
theorem stream_handed_off : ∃ past s, History PoolStep (.new 10) past s ∧
    s.tasks.map (·.phase) = [.returned] ∧ s.Conserved ∧ ∀ e ∈ past, e.1.Conserved := by
  have h1 := added (.start : History PoolStep (.new 10) [] (.new 10)) 0 5 (by decide) (by decide)
  have h2 := spawnedWorker (received h1 0 rfl rfl rfl) rfl rfl rfl
  have h3 := workerActed h2 (.tick 0) rfl rfl (by decide)
  have h4 := workerActed (workerActed h3 (.ping true) rfl rfl (by decide)) .handOff rfl rfl
    (by decide)
  have h5 := workerActed (workerActed h4 .send rfl rfl (by decide)) .exit rfl rfl (by decide)
  refine ⟨_, _, h5, rfl, (conserved_iff h5).mpr ?_⟩
  simp only [List.forall_mem_cons]
  refine ⟨?_, trivial, trivial, trivial, trivial, trivial, trivial, trivial,
    fun e he => absurd he List.not_mem_nil⟩
  intro w hw _
  cases List.mem_singleton.mp hw
  rfl

end Stric.Core
