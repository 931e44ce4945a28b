import Stric.Flow.Mesh
import Stric.Pool.History

/-!
# Connections of a node (`node.rs` of both crates, `connection.rs`)

For every connection three tasks run beside the control loop.  The setup task runs the handler
(handshake, `PeerConnected`, spawning the writer and the reader), then adds the connection to the
manager's store.  The writer takes messages from its channel, and ends when a write fails; it
tells nobody.  The reader, when its stream breaks, takes the connection out of the store and
sends `PeerDisconnected`.  The control loop takes its events from one queue of 100, and starts a
reconnection loop for a peer that is gone.

    ConnStep s l s'        one step of one of these tasks

* A connection is known by its stable id, which is also the number of its writer's channel.
* A handshake may fail, or end with any peer id; a writer and a reader may break at any time
  after they were spawned; other tasks of the node may post messages to the control loop.
* The writer's channel is not closed before the writer ends: the ping task keeps a sender.
* `dialledFor` records which loop dialled a connection; no step reads it.

Nothing makes the setup task add a connection before the reader takes it out: a connection
whose tasks have ended is still in the store exactly if it was added too late
(`finished_not_stored_iff`).
-/

namespace Stric.Flow

open Stric.Pool

/-- How far `setup_connection` has come. -/
inductive Setup where
  | handshaking
  | announced
  | spawned
  | added
  | finished
  | failed
deriving DecidableEq

/-- How far the reader has come; it waits until it is spawned. -/
inductive Reader where
  | waiting
  | running
  | removed
  | ended
deriving DecidableEq

/-- How far the writer has come; its channel exists from the registration of the peer on. -/
inductive Writer where
  | waiting
  | running
  | ended
deriving DecidableEq

structure Conn where
  addr : SocketAddr
  dialledFor : Option NodeId
  /-- `metadata.peer_node_id`. -/
  peer : Option NodeId
  setup : Setup
  reader : Reader
  writer : Writer
deriving DecidableEq

def Conn.opened (addr : SocketAddr) (dialledFor : Option NodeId) : Conn :=
  ⟨addr, dialledFor, none, .handshaking, .waiting, .waiting⟩

inductive ConnAct where
  | fail
  | complete (peer : NodeId)
  | spawn
  | add
  | finish
  | receive (msg : ControlMessage)
  | writeError
  | readError
  | hangUp (peer : NodeId)

section
variable {γ δ : Type}

/-- A step of one of the three tasks of connection `k`: the node, the connection, and the event
that is sent to the control loop. -/
def Conn.act (k : Nat) (n : FlowNode γ δ) (c : Conn) :
    ConnAct → Option (FlowNode γ δ × Conn × Option ControlEvent)
  | .fail =>
    if c.setup = .handshaking then some (n, { c with setup := .failed }, none) else none
  | .complete peer =>
    if c.setup = .handshaking then
      let (n, event) := n.registerPeer peer c.addr k
      some (n, { c with peer := some peer, setup := .announced }, some event)
    else none
  | .spawn =>
    if c.setup = .announced then
      some (n, { c with setup := .spawned, reader := .running, writer := .running }, none)
    else none
  | .add =>
    if c.setup = .spawned then
      some ({ n with store := n.store.insert k c.peer }, { c with setup := .added }, none)
    else none
  | .finish =>
    if c.setup = .added then some (n, { c with setup := .finished }, none) else none
  | .receive msg =>
    match c.reader, c.peer with
    | .running, some peer => some (n, c, some (.controlMsgReceived peer msg))
    | _, _ => none
  | .writeError =>
    if c.writer = .running then some (n, { c with writer := .ended }, none) else none
  | .readError =>
    if c.reader = .running then
      some ({ n with store := n.store.erase k }, { c with reader := .removed }, none)
    else none
  | .hangUp peer =>
    if c.reader = .removed ∧ c.peer = some peer then
      some (n, { c with reader := .ended }, some (.peerDisconnected peer))
    else none

/-- What each step needs and does. -/
theorem Conn.of_act {k : Nat} {n n' : FlowNode γ δ} {c c' : Conn} {act : ConnAct}
    {event : Option ControlEvent} (h : c.act k n act = some (n', c', event)) :
    match act with
    | .fail => c.setup = .handshaking ∧ n' = n ∧ c' = { c with setup := .failed } ∧ event = none
    | .complete p => c.setup = .handshaking ∧ n' = (n.registerPeer p c.addr k).1 ∧
        c' = { c with peer := some p, setup := .announced } ∧ event = some (.peerConnected p k)
    | .spawn => c.setup = .announced ∧ n' = n ∧
        c' = { c with setup := .spawned, reader := .running, writer := .running } ∧ event = none
    | .add => c.setup = .spawned ∧ n' = { n with store := n.store.insert k c.peer } ∧
        c' = { c with setup := .added } ∧ event = none
    | .finish => c.setup = .added ∧ n' = n ∧ c' = { c with setup := .finished } ∧ event = none
    | .receive msg => c.reader = .running ∧ n' = n ∧ c' = c ∧
        ∃ p, c.peer = some p ∧ event = some (.controlMsgReceived p msg)
    | .writeError => c.writer = .running ∧ n' = n ∧ c' = { c with writer := .ended } ∧ event = none
    | .readError => c.reader = .running ∧ n' = { n with store := n.store.erase k } ∧
        c' = { c with reader := .removed } ∧ event = none
    | .hangUp p => (c.reader = .removed ∧ c.peer = some p) ∧ n' = n ∧
        c' = { c with reader := .ended } ∧ event = some (.peerDisconnected p) := by
  cases act with
  | receive msg =>
    simp only [Conn.act] at h
    split at h
    · next p hr hp =>
      cases h
      exact ⟨hr, rfl, rfl, p, hp, rfl⟩
    · cases h
  | _ =>
    simp only [Conn.act, Option.ite_none_right_eq_some, Option.some.injEq, Prod.mk.injEq] at h
    obtain ⟨h0, h1, h2, h3⟩ := h
    exact ⟨h0, h1.symm, h2.symm, h3.symm⟩

/-! ## Reconnection loops -/

inductive LoopPhase where
  | checking
  | sleeping
  | dialling
  | leaving
deriving DecidableEq

/-- A reconnection loop, with the address it was started with. -/
structure Loop where
  peer : NodeId
  addr : SocketAddr
  serverName : String
  phase : LoopPhase
deriving DecidableEq

/-- The store has a connection of that peer. -/
def FlowNode.isConnected (n : FlowNode γ δ) (peer : NodeId) : Bool :=
  n.store.entries.any fun e => e.2 = some peer

inductive LoopAct where
  | check
  | wake
  | redial (k : Nat)
  | redialFails
  | leave

/-- A step of a reconnection loop: the node, the loop unless it ends, and the connection it
has made. -/
def Loop.act (n : FlowNode γ δ) (loop : Loop) :
    LoopAct → Option (FlowNode γ δ × Option Loop × Option (Nat × Conn))
  | .check =>
    if loop.phase = .checking then
      let phase := if n.isConnected loop.peer then .leaving else .sleeping
      some (n, some { loop with phase := phase }, none)
    else none
  | .wake =>
    if loop.phase = .sleeping then
      let phase := if n.isConnected loop.peer then .leaving else .dialling
      some (n, some { loop with phase := phase }, none)
    else none
  | .redial k =>
    if loop.phase = .dialling then
      some ({ n with pendingConnects := n.pendingConnects.insert loop.addr loop.serverName },
        some { loop with phase := .leaving }, some (k, .opened loop.addr (some loop.peer)))
    else none
  | .redialFails =>
    if loop.phase = .dialling then
      some ({ n with pendingConnects := n.pendingConnects.erase loop.addr },
        some { loop with phase := .checking }, none)
    else none
  | .leave =>
    if loop.phase = .leaving then
      some ({ n with reconnectingPeers := n.reconnectingPeers.filter fun p => p ≠ loop.peer },
        none, none)
    else none

/-- The loop that the control loop starts on an event. -/
def FlowNode.startsLoop (n : FlowNode γ δ) : ControlEvent → Option Loop
  | .peerDisconnected id =>
    match n.peerAddresses.lookup id with
    | some (addr, serverName) =>
      if id ∈ n.reconnectingPeers then none else some ⟨id, addr, serverName, .checking⟩
    | none => none
  | _ => none

/-! ## The node with its tasks -/

/-- `mpsc::channel(100)`. -/
def channelSize : Nat := 100

structure ConnState (γ δ : Type) where
  node : FlowNode γ δ
  queue : List ControlEvent
  conns : Nat → Option Conn
  loops : List Loop

inductive ConnLabel where
  | dial (k : Nat) (addr : SocketAddr) (serverName : String)
  | dialFails (addr : SocketAddr)
  | accept (k : Nat) (addr : SocketAddr)
  | conn (k : Nat) (act : ConnAct)
  | post (msg : ControlMessage)
  | process
  | loop (peer : NodeId) (act : LoopAct)

variable [PetGraph γ]

inductive ConnStep (s : ConnState γ δ) : ConnLabel → ConnState γ δ → Prop
  | dial {k : Nat} {addr : SocketAddr} {serverName : String} : s.conns k = none →
      ConnStep s (.dial k addr serverName)
        { s with
          node := { s.node with pendingConnects := s.node.pendingConnects.insert addr serverName }
          conns := Function.update s.conns k (some (.opened addr none)) }
  | dialFails {addr : SocketAddr} :
      ConnStep s (.dialFails addr)
        { s with node := { s.node with pendingConnects := s.node.pendingConnects.erase addr } }
  | accept {k : Nat} {addr : SocketAddr} : s.conns k = none →
      ConnStep s (.accept k addr)
        { s with conns := Function.update s.conns k (some (.opened addr none)) }
  | conn {k : Nat} {act : ConnAct} {c c' : Conn} {n : FlowNode γ δ} {event : Option ControlEvent} :
      s.conns k = some c → c.act k s.node act = some (n, c', event) →
      (s.queue ++ event.toList).length ≤ channelSize →
      ConnStep s (.conn k act)
        { s with
          node := n
          queue := s.queue ++ event.toList
          conns := Function.update s.conns k (some c') }
  | post {msg : ControlMessage} :
      (s.queue ++ [ControlEvent.controlMsgReceived s.node.nodeId msg]).length ≤ channelSize →
      ConnStep s (.post msg)
        { s with queue := s.queue ++ [.controlMsgReceived s.node.nodeId msg] }
  | process {clock : Clock} {event : ControlEvent} {rest : List ControlEvent} :
      s.queue = event :: rest →
      ConnStep s .process
        { s with
          node := (s.node.controlStep clock event).1
          queue := rest
          loops := s.loops ++ (s.node.startsLoop event).toList }
  | loop {l₁ l₂ : List Loop} {loop : Loop} {act : LoopAct} {n : FlowNode γ δ}
      {loop' : Option Loop} : s.loops = l₁ ++ loop :: l₂ →
      loop.act s.node act = some (n, loop', none) →
      ConnStep s (.loop loop.peer act) { s with node := n, loops := l₁ ++ loop'.toList ++ l₂ }
  | redial {l₁ l₂ : List Loop} {loop : Loop} {act : LoopAct} {n : FlowNode γ δ}
      {loop' : Option Loop} {k : Nat} {c : Conn} : s.loops = l₁ ++ loop :: l₂ →
      loop.act s.node act = some (n, loop', some (k, c)) → s.conns k = none →
      ConnStep s (.loop loop.peer act)
        { s with
          node := n
          loops := l₁ ++ loop'.toList ++ l₂
          conns := Function.update s.conns k (some c) }

/-- What has happened, with the state before each step. -/
abbrev ConnPast (γ δ : Type) := List (ConnState γ δ × ConnLabel)

/-- Before anything is connected. -/
structure ConnState.Initial (s : ConnState γ δ) : Prop where
  peerWriters : s.node.peerWriters = ∅
  reconnectingPeers : s.node.reconnectingPeers = []
  store : s.node.store = ∅
  queue : s.queue = []
  conns : ∀ k, s.conns k = none
  loops : s.loops = []

/-! ## What a step does to connections and store -/

/-- The parts of a node that connections are recorded in. -/
structure SameLinks (n n' : FlowNode γ δ) : Prop where
  peerWriters : n'.peerWriters = n.peerWriters
  peerAddresses : n'.peerAddresses = n.peerAddresses
  reconnectingPeers : n'.reconnectingPeers = n.reconnectingPeers
  store : n'.store = n.store

theorem sameLinks_of_onMessage {clock : Clock} {n n' : FlowNode γ δ} {sender : NodeId}
    {msg : ControlMessage} {outs : List Send} (h : n.onMessage clock sender msg = (n', outs)) :
    SameLinks n n' := by
  rcases msg.cases with ⟨u, rfl⟩ | ⟨u, rfl⟩ | ⟨p, rfl⟩ | hp
  · obtain ⟨t, ⟨-, rfl, -⟩ | ⟨-, rfl, -⟩⟩ := FlowNode.onMessage_topology clock n sender u h
    · exact ⟨rfl, rfl, rfl, rfl⟩
    · exact ⟨rfl, rfl, rfl, rfl⟩
  · obtain ⟨t, ⟨-, rfl, -⟩ | ⟨-, rfl, -⟩⟩ := FlowNode.onMessage_subscription clock n sender u h
    · exact ⟨rfl, rfl, rfl, rfl⟩
    · exact ⟨rfl, rfl, rfl, rfl⟩
  · obtain ⟨t, link, ⟨-, rfl, -⟩ | ⟨-, rfl, -⟩⟩ := FlowNode.onMessage_pong clock n sender p h
    · exact ⟨rfl, rfl, rfl, rfl⟩
    · exact ⟨rfl, rfl, rfl, rfl⟩
  · obtain ⟨⟨sessions, limiters, t, rfl⟩, -⟩ := FlowNode.onMessage_plain clock n sender hp h
    exact ⟨rfl, rfl, rfl, rfl⟩

theorem controlStep_links (clock : Clock) (n : FlowNode γ δ) (event : ControlEvent) :
    (n.controlStep clock event).1.store = n.store ∧
      (n.controlStep clock event).1.peerAddresses = n.peerAddresses := by
  cases event with
  | peerConnected id tx => exact ⟨rfl, rfl⟩
  | peerDisconnected id =>
    unfold FlowNode.controlStep
    simp only
    split <;> exact ⟨rfl, rfl⟩
  | controlMsgReceived sender msg =>
    have h : SameLinks n (n.controlStep clock (.controlMsgReceived sender msg)).1 :=
      sameLinks_of_onMessage rfl
    exact ⟨h.store, h.peerAddresses⟩

/-- The steps of connections and reconnection loops are not about the graph, nor about the peers'
writers. -/
structure SameView (n n' : FlowNode γ δ) : Prop where
  graph : n'.graph = n.graph
  peerWriters : n'.peerWriters = n.peerWriters

omit [PetGraph γ] in
theorem Conn.act_view {k : Nat} {n n' : FlowNode γ δ} {c c' : Conn} {act : ConnAct}
    {event : Option ControlEvent} (h : c.act k n act = some (n', c', event)) :
    SameView n n' ∧ n'.reconnectingPeers = n.reconnectingPeers := by
  have hact := Conn.of_act h
  cases act <;> obtain ⟨-, rfl, -⟩ := hact <;> exact ⟨⟨rfl, rfl⟩, rfl⟩

omit [PetGraph γ] in
theorem Loop.act_view {n n' : FlowNode γ δ} {loop : Loop} {act : LoopAct} {loop' : Option Loop}
    {dialled : Option (Nat × Conn)} (h : loop.act n act = some (n', loop', dialled)) :
    SameView n n' ∧ n'.store = n.store ∧ n'.peerAddresses = n.peerAddresses := by
  cases act <;> simp only [Loop.act, Option.ite_none_right_eq_some, Option.some.injEq,
    Prod.mk.injEq] at h <;> obtain ⟨-, rfl, -⟩ := h <;> exact ⟨⟨rfl, rfl⟩, rfl, rfl⟩

variable {s s' init : ConnState γ δ} {l : ConnLabel} {past : ConnPast γ δ}

/-- A step leaves connections and store alone, or opens a connection, or is one of a
connection's own. -/
theorem ConnStep.conns_cases (h : ConnStep s l s') :
    (s'.conns = s.conns ∧ s'.node.store = s.node.store ∧ ∀ k act, l ≠ .conn k act) ∨
    (∃ k addr dialledFor, s.conns k = none ∧ s'.node.store = s.node.store ∧
      s'.conns = Function.update s.conns k (some (.opened addr dialledFor)) ∧
      ∀ k act, l ≠ .conn k act) ∨
    (∃ k act c c' event, l = .conn k act ∧ s.conns k = some c ∧
      c.act k s.node act = some (s'.node, c', event) ∧ s'.queue = s.queue ++ event.toList ∧
      s'.conns = Function.update s.conns k (some c') ∧ s'.loops = s.loops) := by
  cases h with
  | dial hk => exact Or.inr (Or.inl ⟨_, _, _, hk, rfl, rfl, nofun⟩)
  | dialFails => exact Or.inl ⟨rfl, rfl, nofun⟩
  | accept hk => exact Or.inr (Or.inl ⟨_, _, _, hk, rfl, rfl, nofun⟩)
  | conn hk hact _ => exact Or.inr (Or.inr ⟨_, _, _, _, _, rfl, hk, hact, rfl, rfl, rfl⟩)
  | post _ => exact Or.inl ⟨rfl, rfl, nofun⟩
  | process _ => exact Or.inl ⟨rfl, (controlStep_links _ _ _).1, nofun⟩
  | loop _ hact => exact Or.inl ⟨rfl, (Loop.act_view hact).2.1, nofun⟩
  | @redial l₁ l₂ loop act n loop' k c _ hact hk =>
    cases act <;> simp [Loop.act] at hact
    obtain ⟨-, rfl, -, rfl, rfl⟩ := hact
    exact Or.inr (Or.inl ⟨_, _, _, hk, rfl, rfl, nofun⟩)

/-- A connection is left alone, or takes a step of its own. -/
theorem ConnStep.conn_cases {k : Nat} {c : Conn} (h : ConnStep s l s') (hk : s.conns k = some c) :
    s'.conns k = some c ∨ ∃ act c' event, l = .conn k act ∧
      c.act k s.node act = some (s'.node, c', event) ∧ s'.conns k = some c' := by
  rcases h.conns_cases with ⟨hconns, -, -⟩ | ⟨j, addr, d, hj, -, hconns, -⟩ |
    ⟨j, act, c₀, c', event, rfl, hj, hact, -, hconns, -⟩
  · rw [hconns]
    exact Or.inl hk
  · have hne : k ≠ j := by
      rintro rfl
      rw [hk] at hj
      cases hj
    rw [hconns, Function.update_of_ne hne]
    exact Or.inl hk
  · rw [hconns]
    by_cases hkj : k = j
    · subst hkj
      rw [hk] at hj
      cases hj
      rw [Function.update_self]
      exact Or.inr ⟨act, c', event, rfl, hact, rfl⟩
    · rw [Function.update_of_ne hkj]
      exact Or.inl hk

/-! ## Connections that are added too late -/

/-- How a connection and its entry in the store fit together. -/
inductive Conn.Fits : Conn → Option (Option NodeId) → Prop
  | handshaking {addr : SocketAddr} {d : Option NodeId} {w : Writer} :
      Fits ⟨addr, d, none, .handshaking, .waiting, w⟩ none
  | failed {addr : SocketAddr} {d : Option NodeId} {w : Writer} :
      Fits ⟨addr, d, none, .failed, .waiting, w⟩ none
  | announced {addr : SocketAddr} {d : Option NodeId} {w : Writer} {p : NodeId} :
      Fits ⟨addr, d, some p, .announced, .waiting, w⟩ none
  | spawned {addr : SocketAddr} {d : Option NodeId} {w : Writer} {p : NodeId} {r : Reader} :
      r ≠ .waiting → Fits ⟨addr, d, some p, .spawned, r, w⟩ none
  | live {addr : SocketAddr} {d : Option NodeId} {w : Writer} {p : NodeId} {setup : Setup} :
      setup = .added ∨ setup = .finished →
      Fits ⟨addr, d, some p, setup, .running, w⟩ (some (some p))
  | dead {addr : SocketAddr} {d : Option NodeId} {w : Writer} {p : NodeId} {setup : Setup}
      {r : Reader} {entry : Option (Option NodeId)} : setup = .added ∨ setup = .finished →
      r = .removed ∨ r = .ended → entry = none ∨ entry = some (some p) →
      Fits ⟨addr, d, some p, setup, r, w⟩ entry

theorem Conn.Fits.of_handshaking {c : Conn} {entry : Option (Option NodeId)} (h : c.Fits entry)
    (hsetup : c.setup = .handshaking) : c.peer = none ∧ c.reader = .waiting := by
  cases h with
  | handshaking => exact ⟨rfl, rfl⟩
  | live h => rcases h with rfl | rfl <;> cases hsetup
  | dead h => rcases h with rfl | rfl <;> cases hsetup
  | _ => cases hsetup

/-- The connection was added when its reader had already taken it out. -/
def LateAdd (k : Nat) (past : ConnPast γ δ) : Prop :=
  ∃ s c, (s, .conn k .add) ∈ past ∧ s.conns k = some c ∧ c.reader ≠ .running

omit [PetGraph γ] in
theorem Conn.act_fits {k : Nat} {n n' : FlowNode γ δ} {c c' : Conn} {act : ConnAct}
    {event : Option ControlEvent} (h : c.act k n act = some (n', c', event))
    (hfits : c.Fits (n.store.lookup k)) :
    c'.Fits (n'.store.lookup k) ∧ ∀ j, j ≠ k → n'.store.lookup j = n.store.lookup j := by
  have hact := Conn.of_act h
  generalize hentry : n.store.lookup k = entry at hfits
  cases act with
  | fail =>
    obtain ⟨hsetup, rfl, rfl, -⟩ := hact
    rw [hentry]
    refine ⟨?_, fun _ _ => rfl⟩
    cases hfits with
    | handshaking => exact .failed
    | _ => simp_all
  | complete p =>
    obtain ⟨hsetup, rfl, rfl, -⟩ := hact
    refine ⟨?_, fun _ _ => rfl⟩
    rw [show (n.registerPeer p c.addr k).1.store.lookup k = entry from hentry]
    cases hfits with
    | handshaking => exact .announced
    | _ => simp_all
  | spawn =>
    obtain ⟨hsetup, rfl, rfl, -⟩ := hact
    rw [hentry]
    refine ⟨?_, fun _ _ => rfl⟩
    cases hfits with
    | announced => exact .spawned (by decide)
    | _ => simp_all
  | add =>
    obtain ⟨hsetup, rfl, rfl, -⟩ := hact
    refine ⟨?_, fun j hj => AList.lookup_insert_ne hj⟩
    show Conn.Fits _ (AList.lookup k (n.store.insert k c.peer))
    rw [AList.lookup_insert]
    cases hfits with
    | @spawned addr d w p r hr =>
      cases r with
      | waiting => exact absurd rfl hr
      | running => exact .live (Or.inl rfl)
      | removed => exact .dead (Or.inl rfl) (Or.inl rfl) (Or.inr rfl)
      | ended => exact .dead (Or.inl rfl) (Or.inr rfl) (Or.inr rfl)
    | _ => simp_all
  | finish =>
    obtain ⟨hsetup, rfl, rfl, -⟩ := hact
    rw [hentry]
    refine ⟨?_, fun _ _ => rfl⟩
    cases hfits with
    | live => exact .live (Or.inr rfl)
    | dead _ hr he => exact .dead (Or.inr rfl) hr he
    | _ => simp_all
  | receive msg =>
    obtain ⟨-, rfl, rfl, -⟩ := hact
    rw [hentry]
    exact ⟨hfits, fun _ _ => rfl⟩
  | writeError =>
    obtain ⟨-, rfl, rfl, -⟩ := hact
    rw [hentry]
    refine ⟨?_, fun _ _ => rfl⟩
    cases hfits with
    | handshaking => exact .handshaking
    | failed => exact .failed
    | announced => exact .announced
    | spawned hr => exact .spawned hr
    | live hsetup => exact .live hsetup
    | dead hsetup hr he => exact .dead hsetup hr he
  | readError =>
    obtain ⟨hreader, rfl, rfl, -⟩ := hact
    refine ⟨?_, fun j hj => AList.lookup_erase_ne hj⟩
    show Conn.Fits _ (AList.lookup k (n.store.erase k))
    rw [AList.lookup_erase]
    cases hfits with
    | spawned => exact .spawned (by simp)
    | live hsetup => exact .dead hsetup (Or.inl rfl) (Or.inl rfl)
    | _ => simp_all
  | hangUp p =>
    obtain ⟨⟨hreader, -⟩, rfl, rfl, -⟩ := hact
    rw [hentry]
    refine ⟨?_, fun _ _ => rfl⟩
    cases hfits with
    | spawned => exact .spawned (by simp)
    | dead hsetup _ he => exact .dead hsetup (Or.inr rfl) he
    | _ => simp_all

/-- Whatever is known about one connection: it fits its entry, and the entry is a dead one
exactly if the connection was added too late. -/
def ConnOk (conn : Option Conn) (entry : Option (Option NodeId)) (late : Prop) : Prop :=
  match conn with
  | none => entry = none ∧ ¬ late
  | some c => c.Fits entry ∧ (late ↔ c.reader ≠ .running ∧ entry ≠ none)

def StoreInv (past : ConnPast γ δ) (s : ConnState γ δ) : Prop :=
  ∀ k, ConnOk (s.conns k) (s.node.store.lookup k) (LateAdd k past)

omit [PetGraph γ] in
theorem lateAdd_cons {k : Nat} :
    LateAdd k ((s, l) :: past) ↔
      (l = .conn k .add ∧ ∃ c, s.conns k = some c ∧ c.reader ≠ .running) ∨ LateAdd k past := by
  constructor
  · rintro ⟨s₀, c, hmem, hc, hr⟩
    rcases List.mem_cons.mp hmem with heq | hmem
    · obtain ⟨rfl, rfl⟩ := Prod.mk.inj heq
      exact Or.inl ⟨rfl, c, hc, hr⟩
    · exact Or.inr ⟨s₀, c, hmem, hc, hr⟩
  · rintro (⟨rfl, c, hc, hr⟩ | ⟨s₀, c, hmem, hc, hr⟩)
    · exact ⟨s, c, List.mem_cons_self, hc, hr⟩
    · exact ⟨s₀, c, List.mem_cons_of_mem _ hmem, hc, hr⟩

omit [PetGraph γ] in
/-- Only an addition that comes too late leaves a dead entry. -/
theorem Conn.act_late {k : Nat} {n n' : FlowNode γ δ} {c c' : Conn} {act : ConnAct}
    {event : Option ControlEvent} (h : c.act k n act = some (n', c', event))
    (hfits : c.Fits (n.store.lookup k)) :
    (c'.reader ≠ .running ∧ n'.store.lookup k ≠ none) ↔
      (act = .add ∧ c.reader ≠ .running) ∨ (c.reader ≠ .running ∧ n.store.lookup k ≠ none) := by
  have hact := Conn.of_act h
  cases act with
  | add =>
    obtain ⟨-, rfl, rfl, -⟩ := hact
    have hsome : (n.store.insert k c.peer).lookup k ≠ none := by
      rw [AList.lookup_insert]
      exact nofun
    exact ⟨fun h => Or.inl ⟨rfl, h.1⟩, fun h => ⟨h.elim And.right And.left, hsome⟩⟩
  | spawn =>
    obtain ⟨hsetup, rfl, rfl, -⟩ := hact
    refine iff_of_false (fun h => h.1 rfl) ?_
    rintro (⟨h, -⟩ | ⟨-, h⟩)
    · cases h
    · generalize n'.store.lookup k = entry at h hfits
      cases hfits <;> simp_all
  | readError =>
    obtain ⟨hreader, rfl, rfl, -⟩ := hact
    refine iff_of_false (fun h => h.2 (AList.lookup_erase k n.store)) ?_
    rintro (⟨h, -⟩ | ⟨h, -⟩)
    · cases h
    · exact h hreader
  | hangUp p =>
    obtain ⟨⟨hreader, -⟩, rfl, rfl, -⟩ := hact
    simp [hreader]
  | complete p =>
    obtain ⟨-, rfl, rfl, -⟩ := hact
    rw [or_iff_right (fun h => nomatch h.1)]
    exact Iff.rfl
  | _ =>
    obtain ⟨-, rfl, rfl, -⟩ := hact
    rw [or_iff_right (fun h => nomatch h.1)]

theorem StoreInv.step (h : StoreInv past s) (hs : ConnStep s l s') :
    StoreInv ((s, l) :: past) s' := by
  intro j
  have hj := h j
  rcases hs.conns_cases with ⟨hconns, hstore, hl⟩ | ⟨k, addr, d, hk, hstore, hconns, hl⟩ |
    ⟨k, act, c, c', event, rfl, hk, hact, -, hconns, -⟩
  · have hlate : LateAdd j ((s, l) :: past) = LateAdd j past :=
      propext (lateAdd_cons.trans (or_iff_right fun h => hl j .add h.1))
    rw [hconns, hstore, hlate]
    exact hj
  · have hlate : LateAdd j ((s, l) :: past) = LateAdd j past :=
      propext (lateAdd_cons.trans (or_iff_right fun h => hl j .add h.1))
    rw [hconns, hstore, hlate]
    by_cases hjk : j = k
    · subst hjk
      rw [hk] at hj
      obtain ⟨hentry, hnot⟩ := hj
      rw [Function.update_self, hentry]
      exact ⟨.handshaking, iff_of_false hnot fun h => h.2 rfl⟩
    · rw [Function.update_of_ne hjk]
      exact hj
  · by_cases hjk : j = k
    · subst hjk
      rw [hk] at hj
      obtain ⟨hfits, hlate⟩ := hj
      rw [hconns, Function.update_self]
      refine ⟨(Conn.act_fits hact hfits).1, ?_⟩
      rw [lateAdd_cons, Conn.act_late hact hfits, hlate]
      refine or_congr_left ⟨?_, ?_⟩
      · rintro ⟨heq, c₁, hc₁, hr⟩
        rw [hk] at hc₁
        cases hc₁
        cases heq
        exact ⟨rfl, hr⟩
      · rintro ⟨rfl, hr⟩
        exact ⟨rfl, c, hk, hr⟩
    · have hlate : LateAdd j ((s, .conn k act) :: past) = LateAdd j past := by
        refine propext (lateAdd_cons.trans (or_iff_right ?_))
        rintro ⟨heq, -⟩
        cases heq
        exact hjk rfl
      have hfits : c.Fits (s.node.store.lookup k) := by
        have hk' := h k
        rw [hk] at hk'
        exact hk'.1
      rw [hconns, Function.update_of_ne hjk, (Conn.act_fits hact hfits).2 j hjk, hlate]
      exact hj

theorem StoreInv.run (hinit : init.Initial) (h : History ConnStep init past s) : StoreInv past s := by
  induction h with
  | start =>
    intro k
    rw [hinit.conns k, hinit.store]
    refine ⟨rfl, ?_⟩
    rintro ⟨s, c, hmem, -⟩
    exact absurd hmem List.not_mem_nil
  | step _ hs ih => exact ih.step hs

omit [PetGraph γ] in
theorem StoreInv.at {k : Nat} {c : Conn} (h : StoreInv past s) (hk : s.conns k = some c) :
    c.Fits (s.node.store.lookup k) ∧
      (LateAdd k past ↔ c.reader ≠ .running ∧ s.node.store.lookup k ≠ none) := by
  have hat := h k
  rw [hk] at hat
  exact hat

/-- **Which dead connections are in the store.**  A connection whose reader has ended, whether
its setup task has or not, is out of the store exactly if it was not added after its reader
had taken it out. -/
theorem finished_not_stored_iff (hinit : init.Initial) (h : History ConnStep init past s) {k : Nat}
    {c : Conn} (hk : s.conns k = some c) (hreader : c.reader = .ended) :
    k ∉ s.node.store ↔ ¬ LateAdd k past := by
  rw [((StoreInv.run hinit h).at hk).2, ← AList.lookup_eq_none,
    and_iff_right (by rw [hreader]; decide), not_not]

end

/-! ## One connection -/

section
variable {γ δ : Type} [PetGraph γ] {init s : ConnState γ δ} {past : ConnPast γ δ}

theorem accepted (h : History ConnStep init past s) (k : Nat) (addr : SocketAddr)
    (hk : s.conns k = none) : History ConnStep init ((s, .accept k addr) :: past)
      { s with conns := Function.update s.conns k (some (.opened addr none)) } :=
  h.step (.accept hk)

theorem acted (h : History ConnStep init past s) (k : Nat) (act : ConnAct) {c c' : Conn}
    {n : FlowNode γ δ} {event : Option ControlEvent} (hk : s.conns k = some c)
    (hact : c.act k s.node act = some (n, c', event))
    (hq : (s.queue ++ event.toList).length ≤ channelSize) :
    History ConnStep init ((s, .conn k act) :: past)
      { s with
        node := n
        queue := s.queue ++ event.toList
        conns := Function.update s.conns k (some c') } :=
  h.step (.conn hk hact hq)

end

/-- A fresh node. -/
def bare : ConnState VecGraph Unit := ⟨FlowNode.new "a" ∅, [], fun _ => none, []⟩

theorem bare_initial : bare.Initial := ⟨rfl, rfl, rfl, rfl, fun _ => rfl, rfl⟩

/-- A property of all connections of a state that has only connections 1 and 2. -/
theorem forall_conns {conns : Nat → Option Conn} {c₁ c₂ : Conn} (P : Nat → Conn → Prop)
    (h₁ : conns 1 = some c₁) (h₂ : conns 2 = some c₂)
    (hrest : ∀ k, k ≠ 1 → k ≠ 2 → conns k = none) (hP₁ : P 1 c₁) (hP₂ : P 2 c₂) :
    ∀ k c, conns k = some c → P k c := by
  intro k c hk
  by_cases hk₁ : k = 1
  · subst hk₁
    rw [h₁] at hk
    cases hk
    exact hP₁
  · by_cases hk₂ : k = 2
    · subst hk₂
      rw [h₂] at hk
      cases hk
      exact hP₂
    · rw [hrest k hk₁ hk₂] at hk
      cases hk

/-- The peer hangs up between the handshake and `add_connection`: the connection is added when
its reader has ended, and stays. -/
theorem dead_connection_stays : ∃ past s c, History ConnStep bare past s ∧ s.conns 1 = some c ∧
    c.setup = .finished ∧ c.reader = .ended ∧ 1 ∈ s.node.store := by
  have h1 := accepted (.start : History ConnStep bare [] bare) 1 "x" rfl
  have h2 := acted h1 1 (.complete "b") rfl rfl (by decide)
  have h3 := acted h2 1 .spawn rfl rfl (by decide)
  have h4 := acted h3 1 .readError rfl rfl (by decide)
  have h5 := acted h4 1 (.hangUp "b") rfl rfl (by decide)
  have h6 := acted h5 1 .add rfl rfl (by decide)
  have h7 := acted h6 1 .finish rfl rfl (by decide)
  exact ⟨_, _, _, h7, rfl, rfl, rfl, by decide⟩

/-- If it is added in time, it goes. -/
theorem connection_goes : ∃ past s c, History ConnStep bare past s ∧ s.conns 1 = some c ∧
    c.setup = .finished ∧ c.reader = .ended ∧ 1 ∉ s.node.store := by
  have h1 := accepted (.start : History ConnStep bare [] bare) 1 "x" rfl
  have h2 := acted h1 1 (.complete "b") rfl rfl (by decide)
  have h3 := acted h2 1 .spawn rfl rfl (by decide)
  have h4 := acted h3 1 .add rfl rfl (by decide)
  have h5 := acted h4 1 .finish rfl rfl (by decide)
  have h6 := acted h5 1 .readError rfl rfl (by decide)
  have h7 := acted h6 1 (.hangUp "b") rfl rfl (by decide)
  refine ⟨_, _, _, h7, rfl, rfl, rfl, (finished_not_stored_iff bare_initial h7 rfl rfl).mpr ?_⟩
  rintro ⟨s, c, hmem, hc, hr⟩
  simp only [List.mem_cons, Prod.mk.injEq, ConnLabel.conn.injEq, reduceCtorEq, and_false, and_true,
    false_or, List.not_mem_nil, or_false] at hmem
  subst hmem
  cases hc
  exact hr rfl

end Stric.Flow
