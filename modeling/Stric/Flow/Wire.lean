import Mathlib.Data.List.AList

/-!
# Wire types of `stric-flow` (`proto/stric_flow.proto`)

The records the control loop and the router read and write, field by field.
`prost` keeps enumerations as `i32` fields, so a received `role` or `action` can be
any number; the enumerations below are compared through `toI32`, as the source does
with `as i32`.

Maps (`HashMap`, `DashMap`) are finite maps with one value per key (`HashMap`);
`HashSet`s are lists filled through `List.insert`.
-/

namespace Stric.Flow

abbrev NodeId := String

abbrev SocketAddr := String

abbrev Bytes := List UInt8

/-- `HashMap<κ, υ>` and `DashMap<κ, υ>`: one value per key. -/
abbrev HashMap (κ υ : Type) := AList fun _ : κ => υ

/-- The values of a map, in its iteration order. -/
def HashMap.values {κ υ : Type} (m : HashMap κ υ) : List υ := m.entries.map fun e => e.2

theorem HashMap.keys_map_val {κ υ υ' : Type} (f : υ → υ') (l : List (Sigma fun _ : κ => υ)) :
    (l.map fun e => (⟨e.1, f e.2⟩ : Sigma fun _ : κ => υ')).keys = l.keys := by
  simp [List.keys, Function.comp_def]

/-- `into_iter().map(|(k, v)| (k, f(v))).collect()`. -/
def HashMap.mapValues {κ υ υ' : Type} (f : υ → υ') (m : HashMap κ υ) : HashMap κ υ' where
  entries := m.entries.map fun e => ⟨e.1, f e.2⟩
  nodupKeys := by
    have h : m.entries.keys.Nodup := m.nodupKeys
    rw [← HashMap.keys_map_val f] at h
    exact h

theorem HashMap.lookup_mapValues {κ υ υ' : Type} [DecidableEq κ] (f : υ → υ') (m : HashMap κ υ)
    (k : κ) : (HashMap.mapValues f m).lookup k = (m.lookup k).map f := by
  show List.dlookup k (m.entries.map fun e => (⟨e.1, f e.2⟩ : Sigma fun _ : κ => υ')) =
    (List.dlookup k m.entries).map f
  induction m.entries with
  | nil => rfl
  | cons e l ih =>
    obtain ⟨a, b⟩ := e
    by_cases h : k = a
    · subst h
      simp
    · rw [List.map_cons, List.dlookup_cons_ne _ _ h, List.dlookup_cons_ne _ _ h, ih]

/-! ## Enumerations -/

inductive NodeRole where
  | flow
  | aggregator
deriving DecidableEq

def NodeRole.toI32 : NodeRole → Int32
  | .flow => 0
  | .aggregator => 1

inductive SubscriptionAction where
  | subscribe
  | unsubscribe
deriving DecidableEq

def SubscriptionAction.toI32 : SubscriptionAction → Int32
  | .subscribe => 0
  | .unsubscribe => 1

inductive BackpressureAction where
  | pause
  | resume
  | throttle
deriving DecidableEq

def BackpressureAction.toI32 : BackpressureAction → Int32
  | .pause => 0
  | .resume => 1
  | .throttle => 2

inductive SyncMode where
  | snapshot
  | diff
deriving DecidableEq

def SyncMode.toI32 : SyncMode → Int32
  | .snapshot => 0
  | .diff => 1

inductive Codec where
  | protobuf
  | json
  | bincode
  | raw
deriving DecidableEq

def Codec.toI32 : Codec → Int32
  | .protobuf => 0
  | .json => 1
  | .bincode => 2
  | .raw => 3

inductive DeliveryMode where
  | guaranteed
  | bestEffort
  | delayTolerant
deriving DecidableEq

def DeliveryMode.toI32 : DeliveryMode → Int32
  | .guaranteed => 0
  | .bestEffort => 1
  | .delayTolerant => 2

/-! ## Data envelopes -/

/-- `repeated string send_to`: the direct neighbours to forward to. -/
structure ForwardingTargets where
  sendTo : List NodeId

structure RoutingHeader where
  sourceNodeId : NodeId
  flowId : String
  topicId : String
  sessionId : String
  nonce : String
  timestamp : UInt64
  deadline : UInt64
  deliveryMode : Int32
  forwardingTable : HashMap NodeId ForwardingTargets

structure Envelope where
  header : Option RoutingHeader
  messageType : String
  codec : Int32
  payload : Bytes

/-! ## Topology gossip -/

structure NodeDescriptor where
  nodeId : NodeId
  role : Int32
  capabilities : HashMap String String
  lastSeen : UInt64

structure LinkDescriptor where
  nodeA : NodeId
  nodeB : NodeId
  hopCost : UInt32
  rttMicros : UInt64
deriving DecidableEq

structure LinkRemoved where
  nodeA : NodeId
  nodeB : NodeId
deriving DecidableEq

structure TopologyUpdate where
  originNodeId : NodeId
  epoch : UInt64
  nodesAdded : List NodeDescriptor
  nodesRemoved : List NodeId
  linksAdded : List LinkDescriptor
  linksRemoved : List LinkRemoved

/-! ## Subscriptions, heartbeats, backpressure -/

structure SubscriptionEntry where
  flowId : String
  pattern : String
  action : Int32
deriving DecidableEq

structure SubscriptionUpdate where
  nodeId : NodeId
  entries : List SubscriptionEntry
  epoch : UInt64
deriving DecidableEq

structure Ping where
  sentAt : UInt64
deriving DecidableEq

structure Pong where
  pingSentAt : UInt64
  pongSentAt : UInt64
deriving DecidableEq

structure BackpressureSignal where
  flowId : String
  topicId : String
  action : Int32
  maxRate : UInt32
deriving DecidableEq

/-! ## Sessions -/

structure SessionCreate where
  sessionId : String
  creatorNode : NodeId
  flowIds : List String
  createdAt : UInt64
  metadata : HashMap String String

structure SessionJoin where
  sessionId : String
  nodeId : NodeId
deriving DecidableEq

structure SessionLeave where
  sessionId : String
  nodeId : NodeId
deriving DecidableEq

structure SessionClose where
  sessionId : String
  closedBy : NodeId
  reason : String
deriving DecidableEq

structure SessionStateSync where
  sessionId : String
  sender : NodeId
  mode : Int32
  timestamp : UInt64
  version : UInt64
  data : Bytes
  codec : Int32
deriving DecidableEq

/-- `oneof message` of `SessionControl`. -/
inductive SessionMessage where
  | create (c : SessionCreate)
  | join (j : SessionJoin)
  | leave (l : SessionLeave)
  | close (c : SessionClose)
  | stateSync (s : SessionStateSync)

structure SessionControl where
  message : Option SessionMessage

/-! ## The control stream -/

/-- `oneof message` of `ControlMessage`.  The handshake and identity messages carry no
fields here: the control loop ignores them. -/
inductive ControlPayload where
  | handshake
  | handshakeAck
  | identityProof
  | identityChallenge
  | topologyUpdate (u : TopologyUpdate)
  | subscriptionUpdate (u : SubscriptionUpdate)
  | backpressure (s : BackpressureSignal)
  | sessionControl (s : SessionControl)
  | ping (p : Ping)
  | pong (p : Pong)

structure ControlMessage where
  message : Option ControlPayload

end Stric.Flow
