import Stric.Core.KeepAlive

/-!
# The keep-alive flag (`connection.rs`, `set_keep_alive`; `node.rs`, `setup_connection`)

`set_keep_alive` writes `context.keep_alive`; if it enables, it also spawns a task that opens a
stream and adds it to the pool.  `setup_connection` registers a connection, and then calls
`set_keep_alive(k, true)` if its context says so.

    FlagStep mine s l s'        a call, a step of a spawned task, or a step of the pool

The state is that of one open connection that stays registered, and of the pool that it shares
with the others.  The pool does not know whose a stream is; `mine` says which streams are the
connection's.

Every call that enables adds a stream, and no call removes one.  So the pool holds one stream for
an enabled connection and none for another exactly if the enabling calls are as many as that and
what the pool has lost (`keepAlive_followed_iff`).
-/

namespace Stric.Core

open Stric.Pool

structure FlagState where
  /-- `context.keep_alive`. -/
  keepAlive : Bool
  /-- `setup_connection` has still to call `set_keep_alive(k, true)`. -/
  enabling : Bool
  idleTimeout : Nat
  /-- The spawned tasks that await `open_uni`. -/
  spawned : Nat
  /-- The streams of the tasks that await `add_stream`. -/
  opened : List Nat
  pool : PoolState

namespace FlagState

/-- The connection when `setup_connection` has registered it. -/
def registered (limit idleTimeout : Nat) (keepAlive : Bool) : FlagState :=
  ⟨keepAlive, keepAlive, idleTimeout, 0, [], .new limit⟩

def setKeepAlive (s : FlagState) (val : Bool) : FlagState :=
  { s with
    keepAlive := val
    spawned := if val then s.spawned + 1 else s.spawned }

/-- No call and no spawned task is under way. -/
def Finished (s : FlagState) : Prop := s.enabling = false ∧ s.spawned = 0 ∧ s.opened = []

/-- The streams the pool should hold for the connection. -/
def wanted (s : FlagState) : Nat := if s.keepAlive then 1 else 0

end FlagState

inductive FlagLabel where
  | setKeepAlive (val : Bool)
  | setup
  | openUni (stream : Nat)
  | addStream (stream : Nat)
  | pool (l : PoolLabel)

namespace FlagLabel

def enables : FlagLabel → Bool
  | .setKeepAlive val => val
  | .setup => true
  | _ => false

/-- The step of the pool that a step is. -/
def poolLabel (idleTimeout : Nat) : FlagLabel → Option PoolLabel
  | .addStream stream => some (.add stream (idleTimeout / 2))
  | .pool l => some l
  | _ => none

end FlagLabel

/-- The stream that a step adds to the pool. -/
def PoolLabel.stream? : PoolLabel → Option Nat
  | .add stream _ => some stream
  | _ => none

inductive FlagStep (mine : Nat → Bool) (s : FlagState) : FlagLabel → FlagState → Prop
  | setKeepAlive {val : Bool} : FlagStep mine s (.setKeepAlive val) (s.setKeepAlive val)
  | setup : s.enabling = true →
      FlagStep mine s .setup { s.setKeepAlive true with enabling := false }
  | openUni {stream n : Nat} : s.spawned = n + 1 → mine stream = true → stream ∉ s.opened →
      stream ∉ s.pool.added →
      FlagStep mine s (.openUni stream) { s with spawned := n, opened := stream :: s.opened }
  | addStream {stream : Nat} {pool : PoolState} : stream ∈ s.opened →
      PoolStep s.pool (.add stream (s.idleTimeout / 2)) pool →
      FlagStep mine s (.addStream stream)
        { s with opened := s.opened.erase stream, pool := pool }
  | pool {l : PoolLabel} {pool : PoolState} : (∀ stream ∈ l.stream?, mine stream = false) →
      PoolStep s.pool l pool → FlagStep mine s (.pool l) { s with pool := pool }

/-! ## What the pool sees of a run -/

/-- The steps of a run that are steps of the pool. -/
def poolPast (past : List (FlagState × FlagLabel)) : List (PoolState × PoolLabel) :=
  past.filterMap fun e => (e.2.poolLabel e.1.idleTimeout).map fun l => (e.1.pool, l)

variable {mine : Nat → Bool} {s s' : FlagState} {l : FlagLabel}
  {past : List (FlagState × FlagLabel)} {limit idleTimeout : Nat} {keepAlive : Bool}

theorem FlagStep.pool_history {init : PoolState} {poolBefore : List (PoolState × PoolLabel)}
    (hs : FlagStep mine s l s') (h : History PoolStep init poolBefore s.pool) :
    History PoolStep init
      (((l.poolLabel s.idleTimeout).map fun l => (s.pool, l)).toList ++ poolBefore) s'.pool := by
  cases hs with
  | addStream _ hpool => exact h.step hpool
  | pool _ hpool => exact h.step hpool
  | _ => exact h

theorem poolPast_history
    (h : History (FlagStep mine) (.registered limit idleTimeout keepAlive) past s) :
    History PoolStep (.new limit) (poolPast past) s.pool := by
  induction h with
  | start => exact .start
  | @step past s s' l _ hs ih =>
    have hpool := hs.pool_history ih
    rw [poolPast, List.filterMap_cons, ← poolPast]
    cases hl : l.poolLabel s.idleTimeout with
    | none => rwa [hl] at hpool
    | some _ => rwa [hl] at hpool

theorem PoolStep.added_eq {s s' : PoolState} {l : PoolLabel} (hs : PoolStep s l s') :
    s'.added = l.stream?.toList ++ s.added := by
  cases hs <;> rfl

/-! ## Enabling calls and streams -/

/-- The enabling calls of a run. -/
def enablings (past : List (FlagState × FlagLabel)) : Nat := past.countP (·.2.enables)

/-- Every enabling call is a task that awaits `open_uni`, a task that awaits `add_stream`, or a
stream that was added. -/
structure Accounted (mine : Nat → Bool) (calls : Nat) (s : FlagState) : Prop where
  own : ∀ i ∈ s.opened, mine i = true
  total : calls = s.spawned + s.opened.length + s.pool.added.countP mine

theorem Accounted.step {calls : Nat} (h : Accounted mine calls s) (hs : FlagStep mine s l s') :
    Accounted mine (calls + if l.enables then 1 else 0) s' := by
  have htotal := h.total
  cases hs with
  | @setKeepAlive val =>
    refine ⟨h.own, ?_⟩
    cases val with
    | false => exact htotal
    | true =>
      show calls + 1 = s.spawned + 1 + s.opened.length + s.pool.added.countP mine
      omega
  | setup _ =>
    refine ⟨h.own, ?_⟩
    show calls + 1 = s.spawned + 1 + s.opened.length + s.pool.added.countP mine
    omega
  | @openUni stream n hn hmine _ _ =>
    refine ⟨List.forall_mem_cons.mpr ⟨hmine, h.own⟩, ?_⟩
    show calls = n + (s.opened.length + 1) + s.pool.added.countP mine
    omega
  | @addStream stream pool hmem hpool =>
    refine ⟨fun i hi => h.own i (List.mem_of_mem_erase hi), ?_⟩
    have hlen : (s.opened.erase stream).length + 1 = s.opened.length := by
      rw [List.length_erase_of_mem hmem]
      exact Nat.sub_add_cancel (List.length_pos_of_mem hmem)
    have hadded : pool.added.countP mine = s.pool.added.countP mine + 1 := by
      rw [hpool.added_eq]
      exact List.countP_cons_of_pos (h.own stream hmem)
    show calls = s.spawned + (s.opened.erase stream).length + pool.added.countP mine
    omega
  | @pool l pool hother hpool =>
    -- another connection's stream does not count
    have hadded : pool.added.countP mine = s.pool.added.countP mine := by
      rw [hpool.added_eq, List.countP_append, List.countP_eq_zero.mpr, Nat.zero_add]
      intro i hi
      rw [hother i (Option.mem_toList.mp hi)]
      exact Bool.false_ne_true
    exact ⟨h.own, htotal.trans (congrArg _ hadded.symm)⟩

theorem accounted
    (h : History (FlagStep mine) (.registered limit idleTimeout keepAlive) past s) :
    Accounted mine (enablings past) s := by
  induction h with
  | start => exact ⟨fun i hi => absurd hi List.not_mem_nil, rfl⟩
  | step _ hs ih =>
    rw [enablings, List.countP_cons]
    exact ih.step hs

/-- **When keep-alive follows the flag.**  Once all tasks have finished, and if no ping of the
connection has failed, the pool holds one stream for an enabled connection and none for a
disabled one exactly if the enabling calls are as many as that and the connection's streams that
the pool has lost. -/
theorem keepAlive_followed_iff
    (h : History (FlagStep mine) (.registered limit idleTimeout keepAlive) past s)
    (hdone : s.Finished) (hok : ∀ i ∈ s.pool.failed, mine i = false) :
    s.pool.held.countP mine = s.wanted ↔
      enablings past = s.wanted + (droppedIn (poolPast past)).countP mine := by
  obtain ⟨-, hspawned, hopened⟩ := hdone
  have htotal := (accounted h).total
  rw [hspawned, hopened, List.length_nil] at htotal
  have hbalance := added_balance (poolPast_history h) mine
  have hfailed : s.pool.failed.countP mine = 0 := by
    refine List.countP_eq_zero.mpr fun i hi => ?_
    rw [hok i hi]
    exact Bool.false_ne_true
  omega

/-! ## Two enabling calls, and a disabling one -/

section
variable {init : FlagState}

theorem called (h : History (FlagStep mine) init past s) (val : Bool) :
    History (FlagStep mine) init ((s, .setKeepAlive val) :: past) (s.setKeepAlive val) :=
  h.step .setKeepAlive

/-- A spawned task opens its stream and adds it. -/
theorem streamed (h : History (FlagStep mine) init past s) (stream : Nat) {n : Nat}
    (hn : s.spawned = n + 1) (hmine : mine stream = true) (hopened : stream ∉ s.opened)
    (hadded : stream ∉ s.pool.added) (hroom : s.pool.receiver.length < channelSize) :
    History (FlagStep mine) init
      (({ s with spawned := n, opened := stream :: s.opened }, .addStream stream) ::
        (s, .openUni stream) :: past)
      { s with
        spawned := n
        opened := (stream :: s.opened).erase stream
        pool := { s.pool with
          receiver := s.pool.receiver ++ [.addStream stream (s.idleTimeout / 2)]
          added := stream :: s.pool.added } } :=
  (h.step (.openUni hn hmine hopened hadded)).step
    (.addStream List.mem_cons_self (.add hadded hroom))

theorem pooled (h : History (FlagStep mine) init past s) (l : PoolLabel) {pool : PoolState}
    (hs : PoolStep s.pool l pool) (hnone : l.stream? = none) :
    History (FlagStep mine) init ((s, .pool l) :: past) { s with pool := pool } := by
  refine h.step (.pool ?_ hs)
  intro stream hstream
  rw [hnone] at hstream
  cases hstream

end

/-- A second enabling call adds a second stream, and a disabling call leaves the stream in the
pool. -/
theorem flag_not_followed :
    (∃ past s, History (FlagStep fun _ => true) (.registered 10 30 false) past s ∧ s.Finished ∧
      s.pool.failed = [] ∧ s.keepAlive = true ∧ s.pool.tasks.map (·.held) = [[0, 1]]) ∧
    ∃ past s, History (FlagStep fun _ => true) (.registered 10 30 false) past s ∧ s.Finished ∧
      s.pool.failed = [] ∧ s.keepAlive = false ∧ s.pool.tasks.map (·.held) = [[0]] := by
  have h0 : History (FlagStep fun _ => true) (.registered 10 30 false) [] _ := .start
  have h1 := streamed (called h0 true) 0 rfl rfl (by decide) (by decide) (by decide)
  have h2 := pooled h1 (.receive 0) (.receive rfl rfl rfl) rfl
  have h3 := pooled h2 .spawn (.spawn rfl rfl rfl) rfl
  refine ⟨?_, ⟨_, _, called h3 false, ⟨rfl, rfl, rfl⟩, rfl, rfl, rfl⟩⟩
  have h4 := streamed (called h3 true) 1 rfl rfl (by decide) (by decide) (by decide)
  have h5 := pooled h4 (.receive 0) (.receive rfl rfl rfl) rfl
  have h6 := pooled h5 .choose (.choose rfl rfl rfl) rfl
  have h7 := pooled h6 .send (.send rfl rfl (List.nil_append _).symm (by decide) (by decide)) rfl
  exact ⟨_, _, h7, ⟨rfl, rfl, rfl⟩, rfl, rfl, rfl⟩

/-- A connection that is enabled by its context, and by no other call. -/
theorem enabled_once_followed : ∃ past s,
    History (FlagStep fun _ => true) (.registered 10 30 true) past s ∧ s.Finished ∧
      s.keepAlive = true ∧ s.pool.tasks.length = 1 ∧
      s.pool.held.countP (fun _ => true) = s.wanted := by
  have h0 : History (FlagStep fun _ => true) (.registered 10 30 true) [] _ := .start
  have h1 := streamed (h0.step (.setup rfl)) 0 rfl rfl (by decide) (by decide) (by decide)
  have h2 := pooled h1 (.receive 0) (.receive rfl rfl rfl) rfl
  have h3 := pooled h2 .spawn (.spawn rfl rfl rfl) rfl
  refine ⟨_, _, h3, ⟨rfl, rfl, rfl⟩, rfl, rfl, ?_⟩
  refine (keepAlive_followed_iff h3 ⟨rfl, rfl, rfl⟩ ?_).mpr rfl
  intro i hi
  exact absurd hi List.not_mem_nil

end Stric.Core
