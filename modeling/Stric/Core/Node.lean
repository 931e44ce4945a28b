import Mathlib.Data.List.AList
import Mathlib.Data.List.Perm.Basic
import Stric.Pool.History

/-!
# Nodes and their connections (`node.rs`, `connection.rs`)

For every connection, inbound or outbound, a task runs the handler and then adds the connection to
the manager's store; calls of the application change and remove what is there at any time.

* A `quinn::Connection` is a value of any type `Conn`; `stableId` is its id, which no other
  connection has while a task or the store has it.
* A handler may do anything to its wrapper, and fail.
* The error channel drops an error when it is full (`try_send`).

`stored_under_own_id`: if handlers leave the id alone, every connection is stored under its own
stable id, and adding one never replaces another.  `permissions_not_enforced`: the four
permissions of a context are kept and handed back with it, and have no other effect; which streams
can be opened does not depend on them.
-/

namespace Stric.Core

open Stric.Pool

structure ConnectionContext where
  id : Nat
  keepAlive : Bool
  initiatorUni : Bool
  initiatorBi : Bool
  responderUni : Bool
  responderBi : Bool
deriving DecidableEq

structure ConnectionWrapper (Conn M : Type) where
  conn : Conn
  context : ConnectionContext
  metadata : M

/-! ## The manager -/

inductive ConnectionManagerError where
  | idNotFound (id : Nat)
deriving DecidableEq

structure ConnectionManager (Conn M : Type) where
  store : AList fun _ : Nat => ConnectionWrapper Conn M
  defaultConnContext : ConnectionContext
  /-- In nanoseconds. -/
  idleTimeout : Nat

namespace ConnectionManager

variable {Conn M : Type}

def new (defaultConnContext : ConnectionContext) (idleTimeout : Option Nat) :
    ConnectionManager Conn M :=
  ⟨∅, defaultConnContext, idleTimeout.getD (30 * 1000000000)⟩

/-- `get_mut`, and an assignment to the context. -/
def setContext (m : ConnectionManager Conn M) (id : Nat)
    (f : ConnectionContext → ConnectionContext) :
    Except ConnectionManagerError (ConnectionManager Conn M) :=
  match m.store.lookup id with
  | some connection =>
    .ok { m with store := m.store.insert id { connection with context := f connection.context } }
  | none => .error (.idNotFound id)

def setInitiatorUni (m : ConnectionManager Conn M) (id : Nat) (val : Bool) :=
  m.setContext id fun context => { context with initiatorUni := val }

def setInitiatorBi (m : ConnectionManager Conn M) (id : Nat) (val : Bool) :=
  m.setContext id fun context => { context with initiatorBi := val }

def setResponderUni (m : ConnectionManager Conn M) (id : Nat) (val : Bool) :=
  m.setContext id fun context => { context with responderUni := val }

def setResponderBi (m : ConnectionManager Conn M) (id : Nat) (val : Bool) :=
  m.setContext id fun context => { context with responderBi := val }

/-- With `val` a task is spawned that opens a stream of the connection and adds it to the pool with
this interval. -/
def setKeepAlive (m : ConnectionManager Conn M) (id : Nat) (val : Bool) :
    Except ConnectionManagerError (ConnectionManager Conn M × Option (Conn × Nat)) := do
  let m' ← m.setContext id fun context => { context with keepAlive := val }
  return (m', if val then (m.store.lookup id).map fun connection =>
    (connection.conn, m.idleTimeout / 2) else none)

def addConnection (m : ConnectionManager Conn M) (wrapper : ConnectionWrapper Conn M) :
    ConnectionManager Conn M :=
  { m with store := m.store.insert wrapper.context.id wrapper }

def removeConnection (m : ConnectionManager Conn M) (id : Nat) :
    Option (ConnectionWrapper Conn M) × ConnectionManager Conn M :=
  (m.store.lookup id, { m with store := m.store.erase id })

end ConnectionManager

inductive NodeStreamError (E : Type) where
  | connectionManager (e : ConnectionManagerError)
  | open (e : E)
deriving DecidableEq

/-- What a connection does when a stream is opened, in a given state of the network. -/
structure Quinn (Net Conn E Uni Bi : Type) where
  openUni : Conn → Net → Except E Uni × Net
  openBi : Conn → Net → Except E Bi × Net

section
variable {Net Conn M E Uni Bi : Type}

/-- The stream, and the network after it. -/
def openStream {α : Type} (open' : Conn → Net → Except E α × Net) (m : ConnectionManager Conn M)
    (id : Nat) (net : Net) : Except (NodeStreamError E) α × Net :=
  match m.store.lookup id with
  | some wrapper =>
    let (stream, net) := open' wrapper.conn net
    (stream.mapError .open, net)
  | none => (.error (.connectionManager (.idNotFound id)), net)

variable (quinn : Quinn Net Conn E Uni Bi)

def getUnistream (m : ConnectionManager Conn M) (id : Nat) (net : Net) :=
  openStream quinn.openUni m id net

def getBistream (m : ConnectionManager Conn M) (id : Nat) (net : Net) :=
  openStream quinn.openBi m id net

/-! ## Calls of the application -/

inductive NodeCall where
  | setKeepAlive (id : Nat) (val : Bool)
  | setInitiatorUni (id : Nat) (val : Bool)
  | setInitiatorBi (id : Nat) (val : Bool)
  | setResponderUni (id : Nat) (val : Bool)
  | setResponderBi (id : Nat) (val : Bool)
  | removeConnection (id : Nat)
  | getUnistream (id : Nat)
  | getBistream (id : Nat)
deriving DecidableEq

/-- What a call returns, and the keep-alive task it spawns. -/
inductive Answer (Conn M E Uni Bi : Type) where
  | set (result : Except ConnectionManagerError Unit) (spawned : Option (Conn × Nat))
  | removed (wrapper : Option (ConnectionWrapper Conn M))
  | uni (stream : Except (NodeStreamError E) Uni)
  | bi (stream : Except (NodeStreamError E) Bi)

/-- The manager after a setter, and what the setter returns. -/
def afterSet (m : ConnectionManager Conn M) (net : Net)
    (r : Except ConnectionManagerError (ConnectionManager Conn M)) :
    Answer Conn M E Uni Bi × ConnectionManager Conn M × Net :=
  match r with
  | .ok m' => (.set (.ok ()) none, m', net)
  | .error e => (.set (.error e) none, m, net)

def NodeCall.run (m : ConnectionManager Conn M) (net : Net) :
    NodeCall → Answer Conn M E Uni Bi × ConnectionManager Conn M × Net
  | .setKeepAlive id val =>
    match m.setKeepAlive id val with
    | .ok (m', spawned) => (.set (.ok ()) spawned, m', net)
    | .error e => (.set (.error e) none, m, net)
  | .setInitiatorUni id val => afterSet m net (m.setInitiatorUni id val)
  | .setInitiatorBi id val => afterSet m net (m.setInitiatorBi id val)
  | .setResponderUni id val => afterSet m net (m.setResponderUni id val)
  | .setResponderBi id val => afterSet m net (m.setResponderBi id val)
  | .removeConnection id =>
    let (wrapper, m') := m.removeConnection id
    (.removed wrapper, m', net)
  | .getUnistream id =>
    let (stream, net) := Core.getUnistream quinn m id net
    (.uni stream, m, net)
  | .getBistream id =>
    let (stream, net) := Core.getBistream quinn m id net
    (.bi stream, m, net)

def NodeCall.runAll : ConnectionManager Conn M → Net → List NodeCall → List (Answer Conn M E Uni Bi)
  | _, _, [] => []
  | m, net, call :: calls =>
    let (answer, m, net) := call.run quinn m net
    answer :: NodeCall.runAll m net calls

/-- The call, but for the permission it sets. -/
def NodeCall.forget : NodeCall → NodeCall
  | .setInitiatorUni id _ => .setInitiatorUni id false
  | .setInitiatorBi id _ => .setInitiatorBi id false
  | .setResponderUni id _ => .setResponderUni id false
  | .setResponderBi id _ => .setResponderBi id false
  | call => call

/-! ## Permissions -/

/-- The context, but for its permissions. -/
def ConnectionContext.forget (context : ConnectionContext) : ConnectionContext :=
  ⟨context.id, context.keepAlive, false, false, false, false⟩

def ConnectionWrapper.forget (wrapper : ConnectionWrapper Conn M) : ConnectionWrapper Conn M :=
  { wrapper with context := wrapper.context.forget }

/-- What the call returns, but for the permissions in a wrapper that is handed back. -/
def Answer.forget : Answer Conn M E Uni Bi → Answer Conn M E Uni Bi
  | .removed wrapper => .removed (wrapper.map ConnectionWrapper.forget)
  | answer => answer

/-- The same wrappers under the same ids, but for permissions. -/
structure Alike (m m' : ConnectionManager Conn M) : Prop where
  store : ∀ id, (m.store.lookup id).map ConnectionWrapper.forget =
    (m'.store.lookup id).map ConnectionWrapper.forget
  idleTimeout : m.idleTimeout = m'.idleTimeout

variable {m m' : ConnectionManager Conn M} {net : Net}

/-- An id is in both stores, with wrappers that differ in permissions only, or in neither. -/
theorem Alike.lookup (h : Alike m m') (id : Nat) :
    (∃ w w', m.store.lookup id = some w ∧ m'.store.lookup id = some w' ∧ w.forget = w'.forget) ∨
      m.store.lookup id = none ∧ m'.store.lookup id = none := by
  have hid := h.store id
  cases hm : m.store.lookup id with
  | none =>
    rw [hm] at hid
    exact .inr ⟨rfl, Option.map_eq_none_iff.mp hid.symm⟩
  | some w =>
    rw [hm] at hid
    obtain ⟨w', hw', hforget⟩ := Option.map_eq_some_iff.mp hid.symm
    exact .inl ⟨w, w', rfl, hw', hforget.symm⟩

theorem conn_of_forget {w w' : ConnectionWrapper Conn M} (h : w.forget = w'.forget) :
    w.conn = w'.conn :=
  (ConnectionWrapper.mk.inj h).1

theorem Alike.openStream (h : Alike m m') {α : Type} (open' : Conn → Net → Except E α × Net)
    (id : Nat) (net : Net) : openStream open' m id net = openStream open' m' id net := by
  unfold Core.openStream
  rcases h.lookup id with ⟨w, w', hw, hw', hforget⟩ | ⟨hm, hm'⟩
  · simp only [hw, hw', conn_of_forget hforget]
  · rw [hm, hm']

/-- What two runs of a call have in common. -/
structure AlikeAfter (r r' : Answer Conn M E Uni Bi × ConnectionManager Conn M × Net) : Prop where
  answer : r.1.forget = r'.1.forget
  manager : Alike r.2.1 r'.2.1
  net : r.2.2 = r'.2.2

theorem Alike.insert (h : Alike m m') (id : Nat) {w w' : ConnectionWrapper Conn M}
    (hw : w.forget = w'.forget) :
    Alike { m with store := m.store.insert id w } { m' with store := m'.store.insert id w' } := by
  refine ⟨fun id' => ?_, h.idleTimeout⟩
  show ((m.store.insert id w).lookup id').map _ = ((m'.store.insert id w').lookup id').map _
  by_cases hid : id' = id
  · subst hid
    rw [AList.lookup_insert, AList.lookup_insert]
    exact congrArg some hw
  · rw [AList.lookup_insert_ne hid, AList.lookup_insert_ne hid]
    exact h.store id'

/-- Two assignments to a context that differ in permissions only. -/
theorem Alike.setContext (h : Alike m m') (id : Nat) {f f' : ConnectionContext → ConnectionContext}
    (hf : ∀ c c', c.forget = c'.forget → (f c).forget = (f' c').forget) :
    (∃ m₁ m₁', m.setContext id f = .ok m₁ ∧ m'.setContext id f' = .ok m₁' ∧ Alike m₁ m₁') ∨
    m.setContext id f = .error (.idNotFound id) ∧ m'.setContext id f' = .error (.idNotFound id) := by
  unfold ConnectionManager.setContext
  rcases h.lookup id with ⟨w, w', hw, hw', hforget⟩ | ⟨hm, hm'⟩
  · rw [hw, hw']
    refine .inl ⟨_, _, rfl, rfl, h.insert id ?_⟩
    obtain ⟨hconn, hcontext, hmetadata⟩ := ConnectionWrapper.mk.inj hforget
    simp only [ConnectionWrapper.forget, hconn, hf _ _ hcontext, hmetadata]
  · rw [hm, hm']
    exact .inr ⟨rfl, rfl⟩

theorem Alike.afterSet (h : Alike m m') (id : Nat) {f f' : ConnectionContext → ConnectionContext}
    (hf : ∀ c c', c.forget = c'.forget → (f c).forget = (f' c').forget) (net : Net) :
    AlikeAfter (Core.afterSet m net (m.setContext id f) : Answer Conn M E Uni Bi × _)
      (Core.afterSet m' net (m'.setContext id f')) := by
  rcases h.setContext id hf with ⟨m₁, m₁', hset, hset', halike⟩ | ⟨hset, hset'⟩
  · rw [hset, hset']
    exact ⟨rfl, halike, rfl⟩
  · rw [hset, hset']
    exact ⟨rfl, h, rfl⟩

theorem Alike.setKeepAlive (h : Alike m m') (id : Nat) (val : Bool) (net : Net) :
    AlikeAfter (NodeCall.run quinn m net (.setKeepAlive id val))
      (NodeCall.run quinn m' net (.setKeepAlive id val)) := by
  let f : ConnectionContext → ConnectionContext := fun context => { context with keepAlive := val }
  have hf : ∀ c c', c.forget = c'.forget → (f c).forget = (f c').forget := by
    intro c c' hc
    simp only [f, ConnectionContext.forget, (ConnectionContext.mk.inj hc).1]
  have hspawned : (if val then (m.store.lookup id).map fun connection =>
        (connection.conn, m.idleTimeout / 2) else none) =
      if val then (m'.store.lookup id).map fun connection =>
        (connection.conn, m'.idleTimeout / 2) else none := by
    rcases h.lookup id with ⟨w, w', hw, hw', hforget⟩ | ⟨hm, hm'⟩
    · rw [hw, hw', h.idleTimeout, Option.map_some, Option.map_some, conn_of_forget hforget]
    · rw [hm, hm', Option.map_none, Option.map_none]
  unfold NodeCall.run ConnectionManager.setKeepAlive
  rcases h.setContext id hf with ⟨m₁, m₁', hset, hset', halike⟩ | ⟨hset, hset'⟩
  · simp only [hset, hset', bind, Except.bind, pure, Except.pure, f]
    exact ⟨congrArg (Answer.set (.ok ())) hspawned, halike, rfl⟩
  · simp only [hset, hset', bind, Except.bind, f]
    exact ⟨rfl, h, rfl⟩

theorem Alike.removeConnection (h : Alike m m') (id : Nat) (net : Net) :
    AlikeAfter (NodeCall.run quinn m net (.removeConnection id))
      (NodeCall.run quinn m' net (.removeConnection id)) := by
  refine ⟨congrArg Answer.removed (h.store id), ⟨fun id' => ?_, h.idleTimeout⟩, rfl⟩
  show ((m.store.erase id).lookup id').map _ = ((m'.store.erase id).lookup id').map _
  by_cases hid : id' = id
  · subst hid
    rw [AList.lookup_erase, AList.lookup_erase]
  · rw [AList.lookup_erase_ne hid, AList.lookup_erase_ne hid]
    exact h.store id'

/-- A call does the same, whatever permission it sets. -/
theorem Alike.run (h : Alike m m') (call : NodeCall) (net : Net) :
    AlikeAfter (call.run quinn m net) (call.forget.run quinn m' net) := by
  cases call with
  | setKeepAlive id val => exact h.setKeepAlive quinn id val net
  | setInitiatorUni id val =>
    refine h.afterSet id ?_ net
    exact fun _ _ hc => hc
  | setInitiatorBi id val =>
    refine h.afterSet id ?_ net
    exact fun _ _ hc => hc
  | setResponderUni id val =>
    refine h.afterSet id ?_ net
    exact fun _ _ hc => hc
  | setResponderBi id val =>
    refine h.afterSet id ?_ net
    exact fun _ _ hc => hc
  | removeConnection id => exact h.removeConnection quinn id net
  | getUnistream id =>
    have hstream := h.openStream quinn.openUni id net
    refine ⟨?_, h, congrArg (fun r => r.2) hstream⟩
    exact congrArg (fun r : Except (NodeStreamError E) Uni × Net => Answer.uni r.1) hstream
  | getBistream id =>
    have hstream := h.openStream quinn.openBi id net
    refine ⟨?_, h, congrArg (fun r => r.2) hstream⟩
    exact congrArg (fun r : Except (NodeStreamError E) Bi × Net => Answer.bi r.1) hstream

theorem Alike.runAll (h : Alike m m') (calls : List NodeCall) (net : Net) :
    (NodeCall.runAll quinn m net calls).map Answer.forget =
      (NodeCall.runAll quinn m' net (calls.map NodeCall.forget)).map Answer.forget := by
  induction calls generalizing m m' net with
  | nil => rfl
  | cons call calls ih =>
    obtain ⟨hanswer, hmanager, hnet⟩ := h.run quinn call net
    simp only [NodeCall.runAll, List.map_cons]
    rw [hanswer, ih hmanager, hnet]

/-- **Permissions are not enforced.**  Whatever permissions a sequence of calls sets, every call
returns the same, and streams are opened on the same connections; only a wrapper that
`remove_connection` hands back shows the permissions that were set. -/
theorem permissions_not_enforced (m : ConnectionManager Conn M) (net : Net)
    {calls calls' : List NodeCall} (h : calls.map NodeCall.forget = calls'.map NodeCall.forget) :
    (NodeCall.runAll quinn m net calls).map Answer.forget =
      (NodeCall.runAll quinn m net calls').map Answer.forget := by
  have halike : Alike m m := ⟨fun _ => rfl, rfl⟩
  rw [halike.runAll quinn calls net, h, ← halike.runAll quinn calls' net]

end

/-- A network in which every stream can be opened. -/
def openNet : Quinn Unit Nat Unit Nat Nat :=
  ⟨fun conn net => (.ok conn, net), fun conn net => (.ok conn, net)⟩

/-- A manager with the connection 4. -/
def oneConnection : ConnectionManager Nat Unit :=
  (ConnectionManager.new ⟨0, false, true, true, true, true⟩ none).addConnection
    ⟨4, ⟨4, false, true, true, true, true⟩, ()⟩

/-- The permission to open streams is taken from the initiator; a stream is opened as before, and the
wrapper that is removed is the same but for its permissions. -/
theorem refused_stream_opened :
    (NodeCall.runAll openNet oneConnection ()
      [.setInitiatorUni 4 false, .getUnistream 4, .removeConnection 4]).map Answer.forget =
    [.set (.ok ()) none, .uni (.ok 4),
      .removed (some ⟨4, ⟨4, false, false, false, false, false⟩, ()⟩)] := by
  have hsame := permissions_not_enforced openNet oneConnection ()
    (show [NodeCall.setInitiatorUni 4 false, .getUnistream 4, .removeConnection 4].map
        NodeCall.forget =
      [NodeCall.setInitiatorUni 4 true, .getUnistream 4, .removeConnection 4].map
        NodeCall.forget from rfl)
  rw [hsame]
  rfl

/-! ## The tasks of a node -/

/-- Where `setup_connection` stands: the handler is running, the connection is to be added, or
`set_keep_alive(k, true)` is to be called. -/
inductive Setup (Conn M : Type) where
  | handling (conn : Conn)
  | adding (k : Nat) (wrapper : ConnectionWrapper Conn M)
  | enabling (k : Nat)

structure QuicNode (Conn M E : Type) where
  manager : ConnectionManager Conn M
  setups : List (Setup Conn M)
  /-- The errors in the channel, and its capacity. -/
  errors : List E
  errorChannelLen : Nat

inductive NodeLabel (Conn M E : Type) where
  | established (conn : Conn) (handled : Bool)
  | handshakeFailed (e : E)
  | returned (i : Nat) (result : Except E (ConnectionWrapper Conn M))
  | add (i : Nat)
  | enable (i : Nat)
  | call (call : NodeCall)
  | recvError

section
variable {Net Conn M E Uni Bi : Type} [Inhabited M]

/-- `error_tx.try_send(e)`. -/
def QuicNode.trySend (s : QuicNode Conn M E) (e : E) : QuicNode Conn M E :=
  if s.errors.length < s.errorChannelLen then { s with errors := s.errors ++ [e] } else s

/-- The connection of a task that has it. -/
def Setup.conn? : Setup Conn M → Option Conn
  | .handling conn => some conn
  | .adding _ wrapper => some wrapper.conn
  | .enabling _ => none

variable (stableId : Conn → Nat) (quinn : Quinn Net Conn E Uni Bi)

def ConnectionManager.wrap (m : ConnectionManager Conn M) (conn : Conn) :
    ConnectionWrapper Conn M :=
  ⟨conn, { m.defaultConnContext with id := stableId conn }, default⟩

/-- No task and no entry of the store has a connection with this id. -/
def QuicNode.Unused (s : QuicNode Conn M E) (id : Nat) : Prop :=
  (∀ setup ∈ s.setups, ∀ conn ∈ setup.conn?, stableId conn ≠ id) ∧
    ∀ k w, s.manager.store.lookup k = some w → stableId w.conn ≠ id

inductive NodeStep (s : QuicNode Conn M E) : NodeLabel Conn M E → QuicNode Conn M E → Prop
  | established {conn : Conn} {handled : Bool} : s.Unused stableId (stableId conn) →
      NodeStep s (.established conn handled)
        { s with setups := s.setups ++ [if handled then .handling conn
          else .adding (stableId conn) (s.manager.wrap stableId conn)] }
  | handshakeFailed {e : E} : NodeStep s (.handshakeFailed e) (s.trySend e)
  | handled {i : Nat} {conn : Conn} {wrapper : ConnectionWrapper Conn M} :
      s.setups[i]? = some (.handling conn) →
      NodeStep s (.returned i (.ok wrapper))
        { s with setups := s.setups.set i (.adding (stableId conn) wrapper) }
  | handlerFailed {i : Nat} {conn : Conn} {e : E} : s.setups[i]? = some (.handling conn) →
      NodeStep s (.returned i (.error e)) { s.trySend e with setups := s.setups.eraseIdx i }
  | add {i k : Nat} {wrapper : ConnectionWrapper Conn M} :
      s.setups[i]? = some (.adding k wrapper) →
      NodeStep s (.add i)
        { s with
          manager := s.manager.addConnection wrapper
          setups := if wrapper.context.keepAlive then s.setups.set i (.enabling k)
            else s.setups.eraseIdx i }
  | enable {i k : Nat} : s.setups[i]? = some (.enabling k) →
      NodeStep s (.enable i)
        { s with
          -- an error is ignored
          manager := match s.manager.setKeepAlive k true with
            | .ok (m, _) => m
            | .error _ => s.manager
          setups := s.setups.eraseIdx i }
  | call {call : NodeCall} {net : Net} :
      NodeStep s (.call call) { s with manager := (call.run quinn s.manager net).2.1 }
  | recvError {e : E} {rest : List E} : s.errors = e :: rest →
      NodeStep s .recvError { s with errors := rest }

/-- The handler leaves the connection and its id alone. -/
def KeepsId (s : QuicNode Conn M E) : NodeLabel Conn M E → Prop
  | .returned i (.ok wrapper) => ∀ conn, s.setups[i]? = some (.handling conn) →
      wrapper.conn = conn ∧ wrapper.context.id = stableId conn
  | _ => True

def QuicNode.new (defaultConnContext : ConnectionContext) (idleTimeout : Option Nat)
    (errorChannelLen : Nat) : QuicNode Conn M E :=
  ⟨.new defaultConnContext idleTimeout, [], [], errorChannelLen⟩

/-! ## Ids -/

/-- The connections of the tasks. -/
def QuicNode.conns (setups : List (Setup Conn M)) : List Conn := setups.filterMap Setup.conn?

structure NodeInv (s : QuicNode Conn M E) : Prop where
  stored : ∀ k w, s.manager.store.lookup k = some w → stableId w.conn = k
  adding : ∀ k w, .adding k w ∈ s.setups → stableId w.conn = k ∧ w.context.id = k
  distinct : ((QuicNode.conns s.setups).map stableId).Nodup
  free : ∀ conn ∈ QuicNode.conns s.setups, s.manager.store.lookup (stableId conn) = none
  errors : s.errors.length ≤ s.errorChannelLen

variable {stableId quinn} {s s' : QuicNode Conn M E} {l : NodeLabel Conn M E}
  {m m' : ConnectionManager Conn M}

/-- Every entry of the store is one of the other's, with the same connection. -/
def Within (m' m : ConnectionManager Conn M) : Prop :=
  ∀ k w', m'.store.lookup k = some w' → ∃ w, m.store.lookup k = some w ∧ w.conn = w'.conn

omit [Inhabited M] in
theorem within_refl (m : ConnectionManager Conn M) : Within m m :=
  fun _ w hw => ⟨w, hw, rfl⟩

omit [Inhabited M] in
theorem setContext_within {id : Nat} {f : ConnectionContext → ConnectionContext}
    (h : m.setContext id f = .ok m') : Within m' m := by
  unfold ConnectionManager.setContext at h
  cases hm : m.store.lookup id with
  | none =>
    rw [hm] at h
    cases h
  | some w =>
    rw [hm] at h
    cases h
    intro k w' hw'
    by_cases hk : k = id
    · subst hk
      rw [AList.lookup_insert] at hw'
      cases hw'
      exact ⟨w, hm, rfl⟩
    · rw [AList.lookup_insert_ne hk] at hw'
      exact ⟨w', hw', rfl⟩

omit [Inhabited M] in
theorem within_setKeepAlive (m : ConnectionManager Conn M) (id : Nat) (val : Bool) :
    Within (match m.setKeepAlive id val with
      | .ok (m', _) => m'
      | .error _ => m) m := by
  unfold ConnectionManager.setKeepAlive
  cases hset : m.setContext id fun context => { context with keepAlive := val } with
  | error e => exact within_refl m
  | ok m' => exact setContext_within hset

omit [Inhabited M] in
theorem within_afterSet (m : ConnectionManager Conn M) (id : Nat)
    (f : ConnectionContext → ConnectionContext) (net : Net) :
    Within (afterSet m net (m.setContext id f) : Answer Conn M E Uni Bi × _).2.1 m := by
  unfold afterSet
  cases hset : m.setContext id f with
  | error e => exact within_refl m
  | ok m' => exact setContext_within hset

omit [Inhabited M] in
/-- A call adds nothing to the store. -/
theorem NodeCall.run_within (call : NodeCall) (m : ConnectionManager Conn M) (net : Net) :
    Within (call.run quinn m net).2.1 m := by
  cases call with
  | setKeepAlive id val =>
    have h := within_setKeepAlive m id val
    cases hset : m.setKeepAlive id val with
    | ok r =>
      rw [hset] at h
      simpa only [NodeCall.run, hset] using h
    | error e => simpa only [NodeCall.run, hset] using within_refl m
  | setInitiatorUni id val => exact within_afterSet m id _ net
  | setInitiatorBi id val => exact within_afterSet m id _ net
  | setResponderUni id val => exact within_afterSet m id _ net
  | setResponderBi id val => exact within_afterSet m id _ net
  | removeConnection id =>
    intro k w hw
    refine ⟨w, ?_, rfl⟩
    by_cases hk : k = id
    · subst hk
      rw [show (NodeCall.run quinn m net (.removeConnection k)).2.1.store.lookup k = _ from
        AList.lookup_erase _ _] at hw
      cases hw
    · rwa [show (NodeCall.run quinn m net (.removeConnection id)).2.1.store.lookup k = _ from
        AList.lookup_erase_ne hk] at hw
  | getUnistream id => exact within_refl m
  | getBistream id => exact within_refl m

omit [Inhabited M] in
/-- The connections of the tasks, with that of one task in front. -/
theorem conns_perm {setups : List (Setup Conn M)} {i : Nat} {a : Setup Conn M}
    (h : setups[i]? = some a) :
    (QuicNode.conns setups).Perm (a.conn?.toList ++ QuicNode.conns (setups.eraseIdx i)) := by
  obtain ⟨hi, rfl⟩ := List.getElem?_eq_some_iff.mp h
  have hperm := (List.getElem_cons_eraseIdx_perm hi).symm.filterMap Setup.conn?
  unfold QuicNode.conns
  rw [List.filterMap_cons] at hperm
  cases hc : setups[i].conn? with
  | none =>
    rw [hc] at hperm
    exact hperm
  | some conn =>
    rw [hc] at hperm
    exact hperm

omit [Inhabited M] in
theorem conns_set {setups : List (Setup Conn M)} {i : Nat} (hi : i < setups.length)
    (b : Setup Conn M) :
    (QuicNode.conns (setups.set i b)).Perm (b.conn?.toList ++ QuicNode.conns (setups.eraseIdx i)) := by
  have hperm := (List.set_perm_cons_eraseIdx hi b).filterMap Setup.conn?
  unfold QuicNode.conns
  rw [List.filterMap_cons] at hperm
  cases hc : b.conn? with
  | none =>
    rw [hc] at hperm
    exact hperm
  | some conn =>
    rw [hc] at hperm
    exact hperm

omit [Inhabited M] in
theorem trySend_eq (s : QuicNode Conn M E) (e : E) :
    (s.trySend e).manager = s.manager ∧ (s.trySend e).setups = s.setups ∧
      (s.trySend e).errorChannelLen = s.errorChannelLen ∧
      (s.errors.length ≤ s.errorChannelLen →
        (s.trySend e).errors.length ≤ s.errorChannelLen) := by
  unfold QuicNode.trySend
  split
  · next hroom =>
    refine ⟨rfl, rfl, rfl, fun _ => ?_⟩
    rw [List.length_append]
    exact hroom
  · exact ⟨rfl, rfl, rfl, id⟩

omit [Inhabited M] in
/-- Fewer connections, in the tasks and in the store. -/
theorem NodeInv.mono (h : NodeInv stableId s) (hm : Within s'.manager s.manager)
    (hadding : ∀ k w, .adding k w ∈ s'.setups → stableId w.conn = k ∧ w.context.id = k)
    (hconns : ∃ gone, (QuicNode.conns s.setups).Perm (gone ++ QuicNode.conns s'.setups))
    (herrors : s'.errors.length ≤ s'.errorChannelLen) : NodeInv stableId s' := by
  obtain ⟨gone, hperm⟩ := hconns
  have hsub : ∀ conn ∈ QuicNode.conns s'.setups, conn ∈ QuicNode.conns s.setups := fun conn hc =>
    hperm.mem_iff.mpr (List.mem_append_right _ hc)
  refine ⟨fun k w hw => ?_, hadding, ?_, fun conn hc => ?_, herrors⟩
  · obtain ⟨w₀, hw₀, hconn⟩ := hm k w hw
    rw [← hconn]
    exact h.stored k w₀ hw₀
  · have hdistinct := (hperm.map stableId).nodup_iff.mp h.distinct
    rw [List.map_append] at hdistinct
    exact hdistinct.of_append_right
  · cases hl : s'.manager.store.lookup (stableId conn) with
    | none => rfl
    | some w =>
      obtain ⟨w₀, hw₀, -⟩ := hm _ w hl
      rw [h.free conn (hsub conn hc)] at hw₀
      cases hw₀

omit [Inhabited M] in
/-- A task adds its connection. -/
theorem NodeInv.add (h : NodeInv stableId s) {i k : Nat} {wrapper : ConnectionWrapper Conn M}
    (hi : s.setups[i]? = some (.adding k wrapper)) {setups : List (Setup Conn M)}
    (hadding : ∀ k w, .adding k w ∈ setups → .adding k w ∈ s.setups)
    (hconns : (QuicNode.conns setups).Perm (QuicNode.conns (s.setups.eraseIdx i))) :
    NodeInv stableId { s with manager := s.manager.addConnection wrapper, setups := setups } := by
  obtain ⟨hconn, hid⟩ := h.adding k wrapper (List.mem_of_getElem? hi)
  have hperm : (QuicNode.conns s.setups).Perm (wrapper.conn :: QuicNode.conns setups) :=
    (conns_perm hi).trans (hconns.symm.cons _)
  have hdistinct := (hperm.map stableId).nodup_iff.mp h.distinct
  rw [List.map_cons, List.nodup_cons] at hdistinct
  refine ⟨fun k' w hw => ?_, fun k' w hw => h.adding k' w (hadding k' w hw), hdistinct.2,
    fun conn hc => ?_, h.errors⟩
  · by_cases hk : k' = wrapper.context.id
    · subst hk
      cases (AList.lookup_insert s.manager.store).symm.trans hw
      exact hconn.trans hid.symm
    · exact h.stored k' w ((AList.lookup_insert_ne hk).symm.trans hw)
  · have hne : stableId conn ≠ wrapper.context.id := by
      intro heq
      rw [hid, ← hconn] at heq
      exact hdistinct.1 (List.mem_map.mpr ⟨conn, hc, heq⟩)
    refine (AList.lookup_insert_ne hne).trans (h.free conn ?_)
    exact hperm.mem_iff.mpr (List.mem_cons_of_mem _ hc)

theorem NodeInv.established (h : NodeInv stableId s) {conn : Conn} (handled : Bool)
    (hunused : s.Unused stableId (stableId conn)) :
    NodeInv stableId { s with setups := s.setups ++ [if handled then .handling conn
      else .adding (stableId conn) (s.manager.wrap stableId conn)] } := by
  have hconns : QuicNode.conns (s.setups ++ [if handled then .handling conn
      else .adding (stableId conn) (s.manager.wrap stableId conn)]) =
      QuicNode.conns s.setups ++ [conn] := by
    unfold QuicNode.conns
    rw [List.filterMap_append]
    cases handled <;> rfl
  refine ⟨h.stored, fun k w hw => ?_, ?_, fun c hc => ?_, h.errors⟩
  · rcases List.mem_append.mp hw with hw | hw
    · exact h.adding k w hw
    · cases handled with
      | true => cases List.mem_singleton.mp hw
      | false =>
        cases List.mem_singleton.mp hw
        exact ⟨rfl, rfl⟩
  · rw [hconns, List.map_append, List.map_singleton, List.nodup_append_comm, List.singleton_append,
      List.nodup_cons]
    refine ⟨fun hin => ?_, h.distinct⟩
    obtain ⟨c, hc, heq⟩ := List.mem_map.mp hin
    obtain ⟨setup, hsetup, hc⟩ := List.mem_filterMap.mp hc
    exact hunused.1 setup hsetup c hc heq
  · rw [hconns] at hc
    rcases List.mem_append.mp hc with hc | hc
    · exact h.free c hc
    · cases List.mem_singleton.mp hc
      cases hl : s.manager.store.lookup (stableId conn) with
      | none => rfl
      | some w => exact absurd (h.stored _ w hl) (hunused.2 _ w hl)

theorem NodeInv.step (h : NodeInv stableId s) (hs : NodeStep stableId quinn s l s')
    (hkeeps : KeepsId stableId s l) : NodeInv stableId s' := by
  have herased : ∀ i k w, .adding k w ∈ s.setups.eraseIdx i → stableId w.conn = k ∧ w.context.id = k :=
    fun i k w hw => h.adding k w (List.mem_of_mem_eraseIdx hw)
  cases hs with
  | @established conn handled hunused => exact h.established handled hunused
  | @handshakeFailed e =>
    obtain ⟨hm, hsetups, hlen, herrors⟩ := trySend_eq s e
    refine h.mono (hm ▸ within_refl _) (hsetups ▸ h.adding) ⟨[], ?_⟩ (hlen ▸ herrors h.errors)
    rw [hsetups]
    exact .refl _
  | @handled i conn wrapper hi =>
    obtain ⟨hconn, hid⟩ := hkeeps conn hi
    have hlt := (List.getElem?_eq_some_iff.mp hi).1
    refine h.mono (within_refl _) (fun k w hw => ?_) ⟨[], ?_⟩ h.errors
    · rcases List.mem_or_eq_of_mem_set hw with hw | hw
      · exact h.adding k w hw
      · cases hw
        exact ⟨congrArg stableId hconn, hid⟩
    · refine (conns_perm hi).trans (.trans ?_ (conns_set hlt _).symm)
      show (conn :: _).Perm (wrapper.conn :: _)
      rw [hconn]
  | @handlerFailed i conn e hi =>
    obtain ⟨hm, -, hlen, herrors⟩ := trySend_eq s e
    exact h.mono (hm ▸ within_refl _) (herased i) ⟨_, conns_perm hi⟩ (hlen ▸ herrors h.errors)
  | @add i k wrapper hi =>
    have hlt := (List.getElem?_eq_some_iff.mp hi).1
    refine h.add hi (fun k' w hw => ?_) ?_
    · split at hw
      · rcases List.mem_or_eq_of_mem_set hw with hw | hw
        · exact hw
        · cases hw
      · exact List.mem_of_mem_eraseIdx hw
    · split
      · exact conns_set hlt (.enabling k)
      · exact .refl _
  | @enable i k hi =>
    exact h.mono (within_setKeepAlive s.manager k true) (herased i) ⟨_, conns_perm hi⟩ h.errors
  | @call call net => exact h.mono (call.run_within s.manager net) h.adding ⟨[], .refl _⟩ h.errors
  | recvError hq =>
    refine h.mono (within_refl _) h.adding ⟨[], .refl _⟩ ?_
    have hlen := h.errors
    rw [hq, List.length_cons] at hlen
    exact Nat.le_of_succ_le hlen

/-- **Connections are stored under their own ids.**  If the handlers leave connections and ids
alone, then in every run, whatever the calls, each entry of the store has the id of its connection,
and the id of a connection that is to be added is free, so that adding it replaces nothing.  The
channel never holds more errors than it may. -/
theorem stored_under_own_id {defaultConnContext : ConnectionContext} {idleTimeout : Option Nat}
    {errorChannelLen : Nat} {past : List (QuicNode Conn M E × NodeLabel Conn M E)}
    (h : History (NodeStep stableId quinn) (.new defaultConnContext idleTimeout errorChannelLen)
      past s) (hkeeps : ∀ e ∈ past, KeepsId stableId e.1 e.2) :
    (∀ k w, s.manager.store.lookup k = some w → stableId w.conn = k) ∧
      (∀ k w, .adding k w ∈ s.setups → s.manager.store.lookup w.context.id = none) ∧
      s.errors.length ≤ s.errorChannelLen := by
  have hinv : NodeInv stableId s := by
    induction h with
    | start =>
      refine ⟨fun k w hw => ?_, fun _ _ hw => absurd hw List.not_mem_nil, List.nodup_nil,
        fun _ hc => absurd hc List.not_mem_nil, Nat.zero_le _⟩
      cases hw
    | step hrun hs ih =>
      obtain ⟨hnow, hbefore⟩ := List.forall_mem_cons.mp hkeeps
      exact (ih hbefore).step hs hnow
  refine ⟨hinv.stored, fun k w hw => ?_, hinv.errors⟩
  obtain ⟨hconn, hid⟩ := hinv.adding k w hw
  rw [hid, ← hconn]
  exact hinv.free w.conn (List.mem_filterMap.mpr ⟨_, hw, rfl⟩)

end

/-- A connection whose handler has returned is stored, and one that has no handler is next. -/
theorem two_connections_stored :
    let start : QuicNode Nat Unit Unit := .new ⟨0, false, true, true, true, true⟩ none 10
    ∃ past s, History (NodeStep id openNet) start past s ∧
      (∀ k w, s.manager.store.lookup k = some w → w.conn = k) ∧
      (s.manager.store.lookup 4).isSome ∧
      .adding 5 (s.manager.wrap id 5) ∈ s.setups ∧ s.manager.store.lookup 5 = none := by
  intro start
  have hunused : start.Unused id 4 :=
    ⟨fun _ h => absurd h List.not_mem_nil, fun _ _ h => by cases h⟩
  have h0 : History (NodeStep id openNet) start [] start := .start
  have h1 := h0.step (l := .established 4 true) (.established hunused)
  have h2 := h1.step (l := .returned 0 (.ok (start.manager.wrap id 4))) (.handled rfl)
  have h3 := h2.step (l := .add 0) (.add rfl)
  have hunused' : QuicNode.Unused id (E := Unit)
      ⟨start.manager.addConnection (start.manager.wrap id 4), [], [], 10⟩ 5 := by
    refine ⟨fun _ h => absurd h List.not_mem_nil, fun k w hw => ?_⟩
    by_cases hk : k = 4
    · subst hk
      cases (AList.lookup_insert start.manager.store).symm.trans hw
      decide
    · cases (AList.lookup_insert_ne hk).symm.trans hw
  have h4 := h3.step (l := .established 5 false) (.established hunused')
  have hreturned : KeepsId id (E := Unit) ⟨start.manager, [.handling 4], [], 10⟩
      (.returned 0 (.ok (start.manager.wrap id 4))) := by
    intro conn hconn
    cases hconn
    exact ⟨rfl, rfl⟩
  obtain ⟨hstored, hfree, -⟩ := stored_under_own_id h4
    (List.forall_mem_cons.mpr ⟨trivial, List.forall_mem_cons.mpr ⟨trivial,
      List.forall_mem_cons.mpr ⟨hreturned, List.forall_mem_cons.mpr ⟨trivial,
        fun e he => absurd he List.not_mem_nil⟩⟩⟩⟩)
  have hadding := List.mem_singleton_self (Setup.adding 5 (start.manager.wrap id 5))
  exact ⟨_, _, h4, hstored, rfl, hadding, hfree 5 _ hadding⟩

end Stric.Core
