import Stric.Core.KeepAlive

/-!
# Rebalancing of the keep-alive pool (`keep_alive.rs`)

A worker hands its streams back after a tick whenever it has fewer than `limit / 2`, whether they
fit into other workers or not; and if they do not, the manager spawns a worker for them, which
has no more streams than the one before.  One stream alone goes round for ever (`spin_forever`).

With a limit below 4 no worker is ever underloaded, and every worker that is spawned takes a
stream out of the manager's hands for good.  So rebalancing settles, in all pools, exactly for
these limits (`settles_iff`).
-/

namespace Stric.Core

open Stric.Pool

/-- No stream is added and no ping write fails. -/
def CalmStep (s : PoolState) (l : PoolLabel) (s' : PoolState) : Prop :=
  PoolStep s l s' ∧ s'.added = s.added ∧ s'.failed = s.failed

def HandsOff (l : PoolLabel) : Prop := ∃ id, l = .worker id .handOff

/-- The manager spawns a worker. -/
def Spawns (l : PoolLabel) : Prop := l = .spawn ∨ l = .sendFails

/-! ## Small limits -/

/-- The streams in a command that the worker is sending. -/
def KeepAliveWorker.handed (w : KeepAliveWorker) : List ManagedStream :=
  match w.phase with
  | .handing streams => streams
  | _ => []

/-- The streams on their way to a worker. -/
def PoolState.pending (s : PoolState) : Nat :=
  (s.receiver.flatMap PoolCommand.held).length + s.hands.length +
    (s.tasks.flatMap KeepAliveWorker.handed).length

theorem KeepAliveWorker.act_handed {limit : Nat} {listed : Bool} {w w' : KeepAliveWorker}
    {act : WorkerAct} {cmd : Option PoolCommand} {bad : Option Nat}
    (h : w.act limit listed act = some (w', cmd, bad)) (hact : act ≠ .handOff) :
    (cmd.toList.flatMap PoolCommand.held).length + w'.handed.length ≤ w.handed.length := by
  obtain ⟨-, hof⟩ := of_act h
  cases act with
  | recv =>
    obtain ⟨hphase, hphase', rfl, -⟩ := hof
    simp [handed, hphase']
  | recvNone =>
    obtain ⟨-, -, rfl, -, rfl⟩ := hof
    simp [handed]
  | tick now =>
    obtain ⟨-, rfl, -, rfl⟩ := hof
    simp [handed]
  | ping ok =>
    obtain ⟨-, ⟨now', i', changed', hphase'⟩, rfl, -⟩ := hof
    simp [handed, hphase']
  | rest =>
    obtain ⟨-, hphase', rfl, -⟩ := hof
    simp [handed, hphase']
  | handOff => exact absurd rfl hact
  | send =>
    obtain ⟨-, rfl, ⟨streams, hphase, rfl⟩ | ⟨hphase, rfl⟩⟩ := hof
    · simp [handed, hphase, PoolCommand.held]
    · simp [handed, PoolCommand.held]
  | exit =>
    obtain ⟨-, rfl, -, rfl⟩ := hof
    simp [handed]

variable {s s' : PoolState} {l : PoolLabel}

/-- A hand-off needs a limit of at least 4. -/
theorem PoolStep.of_handsOff (h : PoolStep s l s') (hl : HandsOff l) : 4 ≤ s.limit := by
  obtain ⟨id, rfl⟩ := hl
  cases h with
  | worker _ hact _ =>
    obtain ⟨-, -, -, -, -, -, -, hlimit⟩ := KeepAliveWorker.of_act hact
    exact hlimit

theorem PoolState.pending_spawn (stream : ManagedStream) (rest : List ManagedStream)
    (hhands : s.hands = stream :: rest) (target : Option Nat) :
    ({ s with hands := rest, target := target }.spawn stream).pending < s.pending := by
  simp only [pending, spawn, hhands, List.flatMap_append, List.length_append, List.length_cons,
    List.flatMap_cons, List.flatMap_nil, KeepAliveWorker.handed, KeepAliveWorker.new,
    List.length_nil]
  omega

/-- Without hand-offs and additions no stream comes on its way, and a worker that is spawned
takes one off it. -/
theorem PoolStep.pending_le (h : PoolStep s l s') (hadd : s'.added = s.added)
    (hl : ¬ HandsOff l) : s'.pending ≤ s.pending ∧ (Spawns l → s'.pending < s.pending) := by
  cases h with
  | @add stream interval hnew _ => exact absurd hadd (by simp)
  | @receive now cmd rest hhands _ hq =>
    refine ⟨?_, nofun⟩
    have hlen := congrArg List.length (cmd.taken_held now)
    rw [List.length_map] at hlen
    simp only [PoolState.pending, hq, hhands, List.flatMap_cons, List.length_append,
      List.length_nil, hlen]
    omega
  | choose _ _ _ => exact ⟨Nat.le_refl _, nofun⟩
  | spawn hhands _ _ =>
    have hlt := PoolState.pending_spawn _ _ hhands s.target
    exact ⟨hlt.le, fun _ => hlt⟩
  | @send stream rest l₁ l₂ w hhands _ htasks _ _ =>
    refine ⟨?_, nofun⟩
    simp only [PoolState.pending, hhands, htasks, List.flatMap_append, List.flatMap_cons,
      List.length_append, List.length_cons, KeepAliveWorker.handed]
    omega
  | sendFails hhands _ _ _ =>
    have hlt := PoolState.pending_spawn _ _ hhands none
    exact ⟨hlt.le, fun _ => hlt⟩
  | @worker l₁ l₂ w w' act cmd bad htasks hact _ =>
    refine ⟨?_, nofun⟩
    have hw := KeepAliveWorker.act_handed hact fun h => hl ⟨w.id, by rw [h]⟩
    simp only [PoolState.pending, htasks, List.flatMap_append, List.flatMap_cons,
      List.length_append]
    omega

theorem settles_of_lt {run : ℕ → PoolState} {labels : ℕ → PoolLabel}
    (hlimit : (run 0).limit < 4) (hrun : Forever CalmStep run labels) :
    {n | HandsOff (labels n)}.Finite ∧ {n | Spawns (labels n)}.Finite := by
  have hnever : ∀ s l s', s.limit < 4 → CalmStep s l s' → ¬ HandsOff l := by
    intro s l s' hs hstep hl
    have := hstep.1.of_handsOff hl
    omega
  constructor
  · refine hrun.finite_marked (fun s => s.limit < 4) (fun _ => 0) HandsOff hlimit ?_
    intro s l s' hs hstep
    refine ⟨by rw [hstep.1.limit_eq]; exact hs, Nat.le_refl _, fun hl => ?_⟩
    exact absurd hl (hnever s l s' hs hstep)
  · refine hrun.finite_marked (fun s => s.limit < 4) PoolState.pending Spawns hlimit ?_
    intro s l s' hs hstep
    exact ⟨by rw [hstep.1.limit_eq]; exact hs,
      hstep.1.pending_le hstep.2.1 (hnever s l s' hs hstep)⟩

/-! ## One stream that goes round -/

/-- The only stream, last pinged at time `k`. -/
def loneStream (k : Nat) : ManagedStream := ⟨0, 1, k⟩

/-- Workers `0` to `k - 1` have handed off, and the stream is with worker `k`, in its command, or
in the manager's hands. -/
def spinPool (limit k : Nat) (receiver : List PoolCommand) (workers : List Nat)
    (hands streams : List ManagedStream) (phase : WorkerPhase) : PoolState :=
  ⟨limit, receiver, workers, k + 1, hands, none,
    (List.range k).map (fun id => ⟨id, [], [], 0, 0, .returned⟩) ++
      [⟨k, streams, [], streams.length, streams.length, phase⟩], [0], []⟩

/-- The seven states of round `k`. -/
def spinState (limit k : Nat) : Nat → PoolState
  | 0 => spinPool limit k [] [k] [] [loneStream k] .selecting
  | 1 => spinPool limit k [] [k] [] [loneStream k] (.ticking (k + 1) 0 false)
  | 2 => spinPool limit k [] [k] [] [loneStream (k + 1)] (.ticking (k + 1) 1 false)
  | 3 => spinPool limit k [] [k] [] [] (.handing [loneStream (k + 1)])
  | 4 => spinPool limit k [.workerUnderloaded k [loneStream (k + 1)]] [k] [] [] .leaving
  | 5 => spinPool limit k [.workerUnderloaded k [loneStream (k + 1)]] [k] [] [] .returned
  | _ => spinPool limit k [] [] [loneStream (k + 1)] [] .returned

def spinLabel (k : Nat) : Nat → PoolLabel
  | 0 => .worker k (.tick (k + 1))
  | 1 => .worker k (.ping true)
  | 2 => .worker k .handOff
  | 3 => .worker k .send
  | 4 => .worker k .exit
  | 5 => .receive (k + 1)
  | _ => .spawn

/-- A step of worker `k` in round `k`. -/
theorem spinPool_act {limit k : Nat} {receiver : List PoolCommand} {workers : List Nat}
    {streams streams' : List ManagedStream} {phase phase' : WorkerPhase} {act : WorkerAct}
    (cmd : Option PoolCommand)
    (hact : KeepAliveWorker.act limit (k ∈ workers)
      ⟨k, streams, [], streams.length, streams.length, phase⟩ act =
        some (⟨k, streams', [], streams'.length, streams'.length, phase'⟩, cmd, none))
    (hroom : (receiver ++ cmd.toList).length ≤ channelSize) :
    CalmStep (spinPool limit k receiver workers [] streams phase) (.worker k act)
      (spinPool limit k (receiver ++ cmd.toList) workers [] streams' phase') := by
  have hs := PoolStep.worker (s := spinPool limit k receiver workers [] streams phase)
    (w := ⟨k, streams, [], streams.length, streams.length, phase⟩) rfl hact hroom
  exact ⟨hs, rfl, rfl⟩

theorem spin_step {limit : Nat} (hlimit : 4 ≤ limit) (k : Nat) {j : Nat} (hj : j < 6) :
    CalmStep (spinState limit k j) (spinLabel k j) (spinState limit k (j + 1)) := by
  match j with
  | 0 =>
    refine spinPool_act none ?_ (by decide)
    rfl
  | 1 =>
    refine spinPool_act none ?_ (by decide)
    simp [KeepAliveWorker.act, loneStream]
  | 2 =>
    refine spinPool_act none ?_ (by decide)
    have hunder : 0 < limit ∧ 1 < limit / 2 := by omega
    simp [KeepAliveWorker.act, KeepAliveWorker.afterPings, KeepAliveWorker.underloaded,
      KeepAliveWorker.updateCounts, hunder]
  | 3 =>
    refine spinPool_act (some (.workerUnderloaded k [loneStream (k + 1)])) ?_ (by simp [channelSize])
    rfl
  | 4 =>
    refine spinPool_act none ?_ (by simp [channelSize])
    rfl
  | 5 =>
    have hretain : PoolCommand.retain [k] (.workerUnderloaded k [loneStream (k + 1)]) = [] := by
      simp [PoolCommand.retain]
    have hs : PoolStep (spinState limit k 5) (.receive (k + 1)) _ := .receive rfl rfl rfl
    change PoolStep _ _ (spinPool limit k [] (PoolCommand.retain [k] (.workerUnderloaded k _))
      [loneStream (k + 1)] [] .returned) at hs
    rw [hretain] at hs
    exact ⟨hs, rfl, rfl⟩

/-- The manager finds no other worker, and spawns the next one. -/
theorem spin_round (limit k : Nat) :
    CalmStep (spinState limit k 6) (spinLabel k 6) (spinState limit (k + 1) 0) := by
  have hnext : spinState limit (k + 1) 0 =
      { spinState limit k 6 with hands := [] }.spawn (loneStream (k + 1)) := by
    simp [spinState, spinPool, PoolState.spawn, KeepAliveWorker.new, List.range_succ]
  rw [hnext]
  exact ⟨.spawn rfl rfl rfl, rfl, rfl⟩

/-- Round after round. -/
def spinRun (limit n : Nat) : PoolState := spinState limit (n / 7) (n % 7)

def spinLabels (n : Nat) : PoolLabel := spinLabel (n / 7) (n % 7)

theorem spin_forever {limit : Nat} (hlimit : 4 ≤ limit) :
    Forever CalmStep (spinRun limit) spinLabels := by
  intro n
  by_cases hlast : n % 7 = 6
  · have hdiv : (n + 1) / 7 = n / 7 + 1 := by omega
    have hmod : (n + 1) % 7 = 0 := by omega
    rw [spinRun, spinRun, spinLabels, hlast, hdiv, hmod]
    exact spin_round limit (n / 7)
  · have hdiv : (n + 1) / 7 = n / 7 := by omega
    have hmod : (n + 1) % 7 = n % 7 + 1 := by omega
    rw [spinRun, spinRun, spinLabels, hdiv, hmod]
    exact spin_step hlimit (n / 7) (by omega)

/-- What happens at one point of every round happens infinitely often. -/
theorem spin_infinite {j : Nat} (hj : j < 7) (Marked : PoolLabel → Prop)
    (h : ∀ k, Marked (spinLabel k j)) : {n | Marked (spinLabels n)}.Infinite := by
  refine Set.infinite_of_injective_forall_mem (f := fun k => 7 * k + j) ?_ fun k => ?_
  · intro a b hab
    simp only at hab
    omega
  · have hdiv : (7 * k + j) / 7 = k := by omega
    have hmod : (7 * k + j) % 7 = j := by omega
    show Marked (spinLabel ((7 * k + j) / 7) ((7 * k + j) % 7))
    rw [hdiv, hmod]
    exact h k

theorem spin_handsOff : {n | HandsOff (spinLabels n)}.Infinite :=
  spin_infinite (j := 2) (by decide) HandsOff fun k => ⟨k, rfl⟩

/-- **When rebalancing settles.**  In every pool, along every run without additions and failing
pings, finitely many hand-offs happen and finitely many workers are spawned, exactly if the
limit is below 4. -/
theorem settles_iff (limit : Nat) :
    (∀ run labels, (run 0).limit = limit → Forever CalmStep run labels →
      {n | HandsOff (labels n)}.Finite ∧ {n | Spawns (labels n)}.Finite) ↔ limit < 4 := by
  constructor
  · intro h
    by_contra hlimit
    exact spin_handsOff (h (spinRun limit) spinLabels rfl (spin_forever (not_lt.mp hlimit))).1
  · intro hlimit run labels hrun
    exact settles_of_lt (hrun ▸ hlimit)

/-- One stream is added to an empty pool: it is handed off, and a worker spawned for it, for
ever. -/
theorem lone_stream_spins : ∃ past s run labels, History PoolStep (.new 10) past s ∧
    run 0 = s ∧ Forever CalmStep run labels ∧
    {n | HandsOff (labels n)}.Infinite ∧ {n | Spawns (labels n)}.Infinite := by
  have h1 := added (.start : History PoolStep (.new 10) [] (.new 10)) 0 1 (by decide) (by decide)
  have h2 := spawnedWorker (received h1 0 rfl rfl rfl) rfl rfl rfl
  exact ⟨_, _, spinRun 10, spinLabels, h2, rfl, spin_forever (by decide), spin_handsOff,
    spin_infinite (j := 6) (by decide) Spawns fun k => Or.inl rfl⟩

end Stric.Core
