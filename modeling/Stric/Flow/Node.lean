import Stric.Flow.Graph
import Stric.Flow.Topic

/-!
# `FlowNode` and its control loop (`node.rs`, `reconciliation.rs`)

The shared state of a node and what the control loop does with one event.  An event gives
the next state and the messages sent, each to the peer whose channel it goes into.

    controlStep clock node event = (node', sends)

* `DashMap`s and `HashSet`s are read in the iteration order of the model's maps.
* `Clock` is what the two system clocks read while the event is processed.
* Counters are `u64`; `+` wraps, as in a release build.
* A handler of the application is known by a number; a decoded message is a value of `δ`.

The arms of the control loop that flood a message share one loop over the peers
(`gossip`), and the two epoch maps one comparison (`isNewer`).
-/

namespace Stric.Flow

/-- `Arc<dyn Fn(&[u8], &[u8]) -> Result<Vec<u8>, String>>`. -/
abbrev StateMergeFn := Bytes → Bytes → Except String Bytes

structure Session where
  sessionId : String
  creatorNode : NodeId
  flowIds : List String
  createdAt : UInt64
  metadata : HashMap String String
  stateData : Bytes
  stateVersion : UInt64
  stateTimestamp : UInt64

/-- The two fields of `TokenBucketRateLimiter` that the control loop writes. -/
structure RateLimiter where
  paused : Bool
  maxRate : UInt32
deriving DecidableEq

/-- The variant of `FlowError` that session calls return. -/
inductive FlowError where
  | session (text : String)
deriving DecidableEq

/-- The parsers of `MessageRegistry`, by message type. -/
abbrev MessageRegistry (δ : Type) := HashMap String (Bytes → Except String δ)

structure FlowNode (γ δ : Type) where
  nodeId : NodeId
  graph : GlobalGraph γ
  sessions : HashMap String Session
  mergeFns : HashMap String StateMergeFn
  topicHandlers : HashMap String Nat
  registry : MessageRegistry δ
  /-- The channel to each registered peer, by its number. -/
  peerWriters : HashMap NodeId Nat
  localSubscriptions : List String
  lastEpochs : HashMap NodeId UInt64
  lastSubscriptionEpochs : HashMap NodeId UInt64
  flowLimiters : HashMap String RateLimiter
  peerAddresses : HashMap NodeId (SocketAddr × String)
  pendingConnects : HashMap SocketAddr String
  reconnectingPeers : List NodeId
  nodeLastSeen : HashMap NodeId Nat
  /-- `core.connection_manager().store`: the `peer_node_id` of each open connection. -/
  store : HashMap Nat (Option NodeId)

/-- `Instant::now()` and the milliseconds since the Unix epoch. -/
structure Clock where
  instant : Nat
  millis : UInt64

inductive ControlEvent where
  | peerConnected (nodeId : NodeId) (tx : Nat)
  | peerDisconnected (nodeId : NodeId)
  | controlMsgReceived (sender : NodeId) (msg : ControlMessage)

/-- A control message on its way into the channel of a peer. -/
abbrev Send := NodeId × ControlMessage

def ControlMessage.of (p : ControlPayload) : ControlMessage := ⟨some p⟩

def ControlMessage.ofSession (m : SessionMessage) : ControlMessage :=
  .of (.sessionControl ⟨some m⟩)

namespace FlowNode

variable {γ δ : Type} [PetGraph γ]

/-- A node as `FlowNode::new` builds it. -/
def new (nodeId : NodeId) (registry : MessageRegistry δ) : FlowNode γ δ where
  nodeId := nodeId
  graph := GlobalGraph.new
  sessions := ∅
  mergeFns := ∅
  topicHandlers := ∅
  registry := registry
  peerWriters := ∅
  localSubscriptions := []
  lastEpochs := ∅
  lastSubscriptionEpochs := ∅
  flowLimiters := ∅
  peerAddresses := ∅
  pendingConnects := ∅
  reconnectingPeers := []
  nodeLastSeen := ∅
  store := ∅

/-! ## Sending to the peers -/

/-- `get_peer_writers`, without the channels. -/
def peers (n : FlowNode γ δ) : List NodeId := n.peerWriters.keys

/-- The loop over the peers that skips two of them: the one the message came from, and the
one it is about. -/
def gossip (n : FlowNode γ δ) (sender about : NodeId) (msg : ControlMessage) : List Send :=
  (n.peers.filter fun peer => peer ≠ sender ∧ peer ≠ about).map fun peer => (peer, msg)

/-- `broadcast_control_message`. -/
def broadcast (n : FlowNode γ δ) (msg : ControlMessage) : List Send :=
  n.peers.map fun peer => (peer, msg)

/-- `node_last_seen.insert(id, Instant::now())`. -/
def seen (clock : Clock) (n : FlowNode γ δ) (id : NodeId) : FlowNode γ δ :=
  { n with nodeLastSeen := n.nodeLastSeen.insert id clock.instant }

/-- `!has_epoch || epoch > current_epoch`. -/
def isNewer (epochs : HashMap NodeId UInt64) (id : NodeId) (epoch : UInt64) : Bool :=
  match epochs.lookup id with
  | none => true
  | some current => decide (epoch > current)

/-! ## Topology and subscription gossip -/

def acceptTopology (n : FlowNode γ δ) (update : TopologyUpdate) : FlowNode γ δ :=
  { n with
    lastEpochs := n.lastEpochs.insert update.originNodeId update.epoch
    graph := n.graph.applyUpdate update }

def onTopologyUpdate (clock : Clock) (n : FlowNode γ δ) (sender : NodeId) (update : TopologyUpdate) :
    FlowNode γ δ × List Send :=
  let n := seen clock n update.originNodeId
  let n := update.nodesAdded.foldl (fun n d => seen clock n d.nodeId) n
  if isNewer n.lastEpochs update.originNodeId update.epoch then
    (n.acceptTopology update,
      n.gossip sender update.originNodeId (.of (.topologyUpdate update)))
  else (n, [])

/-- The capabilities a subscription update gives its node. -/
def subscriptionCapabilities (update : SubscriptionUpdate) : HashMap String String :=
  update.entries.foldl
    (fun caps entry =>
      if entry.action = SubscriptionAction.subscribe.toI32 then caps.insert (subKey entry.pattern) ""
      else caps) ∅

def acceptSubscription (clock : Clock) (n : FlowNode γ δ) (update : SubscriptionUpdate) :
    FlowNode γ δ :=
  { n with
    lastSubscriptionEpochs := n.lastSubscriptionEpochs.insert update.nodeId update.epoch
    graph := n.graph.addNode
      { nodeId := update.nodeId
        role := NodeRole.flow.toI32
        capabilities := subscriptionCapabilities update
        lastSeen := clock.millis } }

def onSubscriptionUpdate (clock : Clock) (n : FlowNode γ δ) (sender : NodeId)
    (update : SubscriptionUpdate) : FlowNode γ δ × List Send :=
  let n := seen clock n update.nodeId
  if isNewer n.lastSubscriptionEpochs update.nodeId update.epoch then
    (n.acceptSubscription clock update,
      n.gossip sender update.nodeId (.of (.subscriptionUpdate update)))
  else (n, [])

/-! ## Heartbeats and backpressure -/

def onPing (clock : Clock) (n : FlowNode γ δ) (sender : NodeId) (ping : Ping) :
    FlowNode γ δ × List Send :=
  match n.peerWriters.lookup sender with
  | some _ => (n, [(sender, .of (.pong ⟨ping.sentAt, clock.millis⟩))])
  | none => (n, [])

/-- `find_edge` between this node and the peer finds an edge. -/
def linkExists (n : FlowNode γ δ) (peer : NodeId) : Bool :=
  match n.graph.nodeIndices.lookup n.nodeId, n.graph.nodeIndices.lookup peer with
  | some a, some b => (PetGraph.findEdge n.graph.graph a b).isSome
  | _, _ => false

/-- The full graph, as an update of this node. -/
def snapshot (n : FlowNode γ δ) (epoch : UInt64) : TopologyUpdate where
  originNodeId := n.nodeId
  epoch := epoch
  nodesAdded := n.graph.getDescriptors.1
  nodesRemoved := []
  linksAdded := n.graph.getDescriptors.2
  linksRemoved := []

/-- `now.saturating_sub(ping_sent_at)`, in milliseconds. -/
def rttMillis (clock : Clock) (pong : Pong) : UInt64 :=
  if pong.pingSentAt ≤ clock.millis then clock.millis - pong.pingSentAt else 0

def onPong (clock : Clock) (n : FlowNode γ δ) (sender : NodeId) (pong : Pong) :
    FlowNode γ δ × List Send :=
  let isNewLink := !n.linkExists sender
  let n := { n with graph := n.graph.addLink ⟨n.nodeId, sender, 1, rttMillis clock pong * 1000⟩ }
  if isNewLink then
    let myEpoch := (n.lastEpochs.lookup n.nodeId).getD 0 + 1
    let n := { n with lastEpochs := n.lastEpochs.insert n.nodeId myEpoch }
    (n, n.broadcast (.of (.topologyUpdate (n.snapshot myEpoch))))
  else (n, [])

def onBackpressure (n : FlowNode γ δ) (signal : BackpressureSignal) : FlowNode γ δ × List Send :=
  let limiter := (n.flowLimiters.lookup signal.flowId).getD ⟨false, 0⟩
  let limiter :=
    if signal.action = 0 then { limiter with paused := true }
    else if signal.action = 1 then { limiter with paused := false }
    else if signal.action = 2 then { paused := false, maxRate := signal.maxRate }
    else limiter
  ({ n with flowLimiters := n.flowLimiters.insert signal.flowId limiter }, [])

/-! ## Sessions -/

def onCreate (n : FlowNode γ δ) (sender : NodeId) (create : SessionCreate) :
    FlowNode γ δ × List Send :=
  match n.sessions.lookup create.sessionId with
  | some _ => (n, [])
  | none =>
    let session : Session :=
      { sessionId := create.sessionId
        creatorNode := create.creatorNode
        flowIds := create.flowIds
        createdAt := create.createdAt
        metadata := create.metadata
        stateData := []
        stateVersion := 0
        stateTimestamp := 0 }
    let n := { n with sessions := n.sessions.insert create.sessionId session }
    (n, n.gossip sender create.creatorNode (.ofSession (.create create)))

def onJoin (n : FlowNode γ δ) (sender : NodeId) (join : SessionJoin) : FlowNode γ δ × List Send :=
  (n, n.gossip sender join.nodeId (.ofSession (.join join)))

def onLeave (n : FlowNode γ δ) (sender : NodeId) (leave : SessionLeave) :
    FlowNode γ δ × List Send :=
  (n, n.gossip sender leave.nodeId (.ofSession (.leave leave)))

def onClose (n : FlowNode γ δ) (sender : NodeId) (close : SessionClose) :
    FlowNode γ δ × List Send :=
  let removed := (n.sessions.lookup close.sessionId).isSome
  let n := { n with sessions := n.sessions.erase close.sessionId }
  if removed ∨ close.closedBy = n.nodeId then
    (n, n.gossip sender close.closedBy (.ofSession (.close close)))
  else (n, [])

/-- `max`, as `std::cmp::max`. -/
def maxU64 (a b : UInt64) : UInt64 := if a ≤ b then b else a

/-- The session after a `StateSync`, if the sync updates it: merged by the registered
function, or replaced by a later write. -/
def mergeSync (mergeFn : Option StateMergeFn) (session : Session) (sync : SessionStateSync) :
    Option Session :=
  match mergeFn with
  | some merge =>
    match merge session.stateData sync.data with
    | .ok merged => some
        { session with
          stateData := merged
          stateVersion := maxU64 session.stateVersion sync.version + 1
          stateTimestamp := maxU64 session.stateTimestamp sync.timestamp }
    | .error _ => none
  | none =>
    if sync.timestamp > session.stateTimestamp ∨
        (sync.timestamp = session.stateTimestamp ∧ sync.version > session.stateVersion) then
      some
        { session with
          stateData := sync.data
          stateVersion := sync.version
          stateTimestamp := sync.timestamp }
    else none

def onStateSync (n : FlowNode γ δ) (sender : NodeId) (sync : SessionStateSync) :
    FlowNode γ δ × List Send :=
  match n.sessions.lookup sync.sessionId with
  | none => (n, [])
  | some session =>
    match mergeSync (n.mergeFns.lookup sync.sessionId) session sync with
    | none => (n, [])
    | some session =>
      let n := { n with sessions := n.sessions.insert sync.sessionId session }
      (n, n.gossip sender sync.sender (.ofSession (.stateSync
        { sync with
          sender := n.nodeId
          timestamp := session.stateTimestamp
          version := session.stateVersion
          data := session.stateData })))

def onSession (n : FlowNode γ δ) (sender : NodeId) : SessionMessage → FlowNode γ δ × List Send
  | .create c => n.onCreate sender c
  | .join j => n.onJoin sender j
  | .leave l => n.onLeave sender l
  | .close c => n.onClose sender c
  | .stateSync s => n.onStateSync sender s

/-! ## The control loop -/

def onPayload (clock : Clock) (n : FlowNode γ δ) (sender : NodeId) :
    ControlPayload → FlowNode γ δ × List Send
  | .topologyUpdate u => n.onTopologyUpdate clock sender u
  | .subscriptionUpdate u => n.onSubscriptionUpdate clock sender u
  | .ping p => n.onPing clock sender p
  | .pong p => n.onPong clock sender p
  | .backpressure s => n.onBackpressure s
  | .sessionControl ⟨some m⟩ => n.onSession sender m
  | _ => (n, [])

def onMessage (clock : Clock) (n : FlowNode γ δ) (sender : NodeId) (msg : ControlMessage) :
    FlowNode γ δ × List Send :=
  let n := seen clock n sender
  match msg.message with
  | some payload => n.onPayload clock sender payload
  | none => (n, [])

/-- One turn of `run_control_loop`.  After a disconnect a reconnection loop is started for a
peer whose address is known, unless one is already running (`reconnectingPeers`). -/
def controlStep (clock : Clock) (n : FlowNode γ δ) : ControlEvent → FlowNode γ δ × List Send
  | .peerConnected id tx => ({ n with peerWriters := n.peerWriters.insert id tx }, [])
  | .peerDisconnected id =>
    let n := { n with peerWriters := n.peerWriters.erase id }
    match n.peerAddresses.lookup id with
    | some _ => ({ n with reconnectingPeers := n.reconnectingPeers.insert id }, [])
    | none => (n, [])
  | .controlMsgReceived sender msg => n.onMessage clock sender msg

/-! ## Calls of the application -/

/-- `subscribe` entries for the patterns. -/
def subscribeEntries (patterns : List String) : List SubscriptionEntry :=
  patterns.map fun pattern => ⟨"", pattern, SubscriptionAction.subscribe.toI32⟩

/-- What the task of `subscribe` enqueues for the control loop, once it has inserted its
pattern and reads the epoch. -/
def subscribeUpdate (n : FlowNode γ δ) : SubscriptionUpdate where
  nodeId := n.nodeId
  entries := subscribeEntries n.localSubscriptions
  epoch := (n.lastSubscriptionEpochs.lookup n.nodeId).getD 0 + 1

/-- The clock is read for the session, and once more for the message. -/
def createSession (clock sentClock : Clock) (n : FlowNode γ δ) (sessionId : String)
    (flowIds : List String) (metadata : HashMap String String) : FlowNode γ δ × List Send :=
  let session : Session :=
    { sessionId := sessionId
      creatorNode := n.nodeId
      flowIds := flowIds
      createdAt := clock.millis
      metadata := metadata
      stateData := []
      stateVersion := 0
      stateTimestamp := 0 }
  let n := { n with sessions := n.sessions.insert sessionId session }
  (n, n.broadcast (.ofSession (.create ⟨sessionId, n.nodeId, flowIds, sentClock.millis, metadata⟩)))

def joinSession (n : FlowNode γ δ) (sessionId : String) : FlowNode γ δ × List Send :=
  (n, n.broadcast (.ofSession (.join ⟨sessionId, n.nodeId⟩)))

def leaveSession (n : FlowNode γ δ) (sessionId : String) : FlowNode γ δ × List Send :=
  (n, n.broadcast (.ofSession (.leave ⟨sessionId, n.nodeId⟩)))

def sessionNotFound (sessionId : String) : FlowError :=
  .session ("Session " ++ sessionId ++ " not found")

def closeSession (n : FlowNode γ δ) (sessionId reason : String) :
    FlowNode γ δ × List Send × Except FlowError Unit :=
  match n.sessions.lookup sessionId with
  | none => (n, [], .error (sessionNotFound sessionId))
  | some _ =>
    let n := { n with sessions := n.sessions.erase sessionId }
    (n, n.broadcast (.ofSession (.close ⟨sessionId, n.nodeId, reason⟩)), .ok ())

def registerMergeFn (n : FlowNode γ δ) (sessionId : String) (mergeFn : StateMergeFn) :
    FlowNode γ δ :=
  { n with mergeFns := n.mergeFns.insert sessionId mergeFn }

/-- The state data a local write leaves, or the error of the merge function. -/
def mergeLocal (mergeFn : Option StateMergeFn) (current data : Bytes) : Except String Bytes :=
  match mergeFn with
  | some merge => merge current data
  | none => .ok data

/-- Version and timestamp are written before the merge function runs, and stay so when it
fails.  What is broadcast is the data passed in, not the merged state. -/
def syncSessionState (clock : Clock) (n : FlowNode γ δ) (sessionId : String) (data : Bytes) :
    FlowNode γ δ × List Send × Except FlowError Unit :=
  match n.sessions.lookup sessionId with
  | none => (n, [], .error (sessionNotFound sessionId))
  | some session =>
    let session := { session with
      stateVersion := session.stateVersion + 1
      stateTimestamp := clock.millis }
    match mergeLocal (n.mergeFns.lookup sessionId) session.stateData data with
    | .error e =>
      ({ n with sessions := n.sessions.insert sessionId session }, [],
        .error (.session ("Local merge error: " ++ e)))
    | .ok merged =>
      let session := { session with stateData := merged }
      let n := { n with sessions := n.sessions.insert sessionId session }
      (n, n.broadcast (.ofSession (.stateSync
        { sessionId := sessionId
          sender := n.nodeId
          mode := SyncMode.snapshot.toI32
          timestamp := session.stateTimestamp
          version := session.stateVersion
          data := data
          codec := Codec.raw.toI32 })), .ok ())

/-! ## The end of a handshake -/

/-- The subscriptions of this node, as sent to a new peer. -/
def subscriptionSync (n : FlowNode γ δ) : SubscriptionUpdate where
  nodeId := n.nodeId
  entries := subscribeEntries n.localSubscriptions
  epoch := (n.lastSubscriptionEpochs.lookup n.nodeId).getD 0

/-- `handle_new_connection`, once both sides have acknowledged the handshake: the peer's
address is kept, and the control loop is told. -/
def registerPeer (n : FlowNode γ δ) (peerId : NodeId) (remoteAddr : SocketAddr) (tx : Nat) :
    FlowNode γ δ × ControlEvent :=
  let serverName := (n.pendingConnects.lookup remoteAddr).getD peerId
  let n := { n with
    pendingConnects := n.pendingConnects.erase remoteAddr
    peerAddresses := n.peerAddresses.insert peerId (remoteAddr, serverName) }
  (n, .peerConnected peerId tx)

/-- What `handle_new_connection` puts into the new channel after that: the full graph and
the subscriptions. -/
def initialSync (n : FlowNode γ δ) (peerId : NodeId) : List Send :=
  [(peerId, .of (.topologyUpdate (n.snapshot 1))),
   (peerId, .of (.subscriptionUpdate n.subscriptionSync))]

end FlowNode

end Stric.Flow
