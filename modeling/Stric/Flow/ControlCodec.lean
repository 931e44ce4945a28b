import Stric.Flow.Frame
import Stric.Pool.MessageCodec

/-!
# The messages of `stric_flow.proto` on the wire

How `prost` encodes the messages of control streams and data streams is a parameter, `Prost`.  What
is needed of it is that decoding an encoding gives the message back, and that the length of an
envelope's encoding does not depend on the order of maps.

    decode (encode msg) = some msg'   with   msg'.Same msg

`Same` is equality but for the order of the entries of maps.  `Proto.ControlMessage` is a control
message with all its fields; `ControlMessage` leaves out those of the handshake and identity
messages, which the control loop does not read (`Proto.ControlMessage.read`).

`Protobuf.prost` is such an encoding: the protobuf wire format, with the field numbers and types of
`proto/stric_flow.proto`.
-/

namespace Stric.Flow

open Stric.Pool MessageCodec

/-! ## Handshake and identity -/

inductive IdentityMode where
  | tlsDerived
  | challengeResponse
deriving DecidableEq

def IdentityMode.toI32 : IdentityMode → Int32
  | .tlsDerived => 0
  | .challengeResponse => 1

structure FlowHandshake where
  protocolVersion : UInt32
  nodeId : NodeId
  role : Int32
  capabilities : HashMap String String
  supportedCodecs : List String
  subscribedTopics : List String
  identityMode : Int32

structure HandshakeAck where
  accepted : Bool
  rejectReason : String
  protocolVersion : UInt32
deriving DecidableEq

structure IdentityChallenge where
  challengeNonce : Bytes
deriving DecidableEq

structure IdentityProof where
  nodeId : NodeId
  signature : Bytes
  publicKey : Bytes
deriving DecidableEq

namespace Proto

/-- `oneof message` of `ControlMessage`, with all fields. -/
inductive ControlPayload where
  | handshake (h : FlowHandshake)
  | handshakeAck (a : HandshakeAck)
  | identityProof (p : IdentityProof)
  | identityChallenge (c : IdentityChallenge)
  | topologyUpdate (u : TopologyUpdate)
  | subscriptionUpdate (u : SubscriptionUpdate)
  | backpressure (s : BackpressureSignal)
  | sessionControl (s : SessionControl)
  | ping (p : Ping)
  | pong (p : Pong)

structure ControlMessage where
  message : Option ControlPayload

/-- What the control loop reads of a payload. -/
def ControlPayload.read : ControlPayload → Flow.ControlPayload
  | .handshake _ => .handshake
  | .handshakeAck _ => .handshakeAck
  | .identityProof _ => .identityProof
  | .identityChallenge _ => .identityChallenge
  | .topologyUpdate u => .topologyUpdate u
  | .subscriptionUpdate u => .subscriptionUpdate u
  | .backpressure s => .backpressure s
  | .sessionControl s => .sessionControl s
  | .ping p => .ping p
  | .pong p => .pong p

def ControlMessage.read (msg : ControlMessage) : Flow.ControlMessage := ⟨msg.message.map (·.read)⟩

end Proto

/-! ## Equal but for the order of maps -/

structure NodeDescriptor.Same (d d' : NodeDescriptor) : Prop where
  nodeId : d.nodeId = d'.nodeId
  role : d.role = d'.role
  capabilities : ∀ k, d.capabilities.lookup k = d'.capabilities.lookup k
  lastSeen : d.lastSeen = d'.lastSeen

structure TopologyUpdate.Same (u u' : TopologyUpdate) : Prop where
  originNodeId : u.originNodeId = u'.originNodeId
  epoch : u.epoch = u'.epoch
  nodesAdded : List.Forall₂ NodeDescriptor.Same u.nodesAdded u'.nodesAdded
  nodesRemoved : u.nodesRemoved = u'.nodesRemoved
  linksAdded : u.linksAdded = u'.linksAdded
  linksRemoved : u.linksRemoved = u'.linksRemoved

structure FlowHandshake.Same (h h' : FlowHandshake) : Prop where
  protocolVersion : h.protocolVersion = h'.protocolVersion
  nodeId : h.nodeId = h'.nodeId
  role : h.role = h'.role
  capabilities : ∀ k, h.capabilities.lookup k = h'.capabilities.lookup k
  supportedCodecs : h.supportedCodecs = h'.supportedCodecs
  subscribedTopics : h.subscribedTopics = h'.subscribedTopics
  identityMode : h.identityMode = h'.identityMode

structure SessionCreate.Same (c c' : SessionCreate) : Prop where
  sessionId : c.sessionId = c'.sessionId
  creatorNode : c.creatorNode = c'.creatorNode
  flowIds : c.flowIds = c'.flowIds
  createdAt : c.createdAt = c'.createdAt
  metadata : ∀ k, c.metadata.lookup k = c'.metadata.lookup k

inductive SessionMessage.Same : SessionMessage → SessionMessage → Prop
  | create {c c' : SessionCreate} : c.Same c' → Same (.create c) (.create c')
  | refl (m : SessionMessage) : Same m m

def SessionControl.Same (s s' : SessionControl) : Prop :=
  Option.Rel SessionMessage.Same s.message s'.message

namespace Proto

inductive ControlPayload.Same : ControlPayload → ControlPayload → Prop
  | handshake {h h' : FlowHandshake} : h.Same h' → Same (.handshake h) (.handshake h')
  | topologyUpdate {u u' : TopologyUpdate} :
      u.Same u' → Same (.topologyUpdate u) (.topologyUpdate u')
  | sessionControl {s s' : SessionControl} :
      s.Same s' → Same (.sessionControl s) (.sessionControl s')
  | refl (p : ControlPayload) : Same p p

def ControlMessage.Same (m m' : ControlMessage) : Prop :=
  Option.Rel ControlPayload.Same m.message m'.message

end Proto

structure RoutingHeader.Same (h h' : RoutingHeader) : Prop where
  sourceNodeId : h.sourceNodeId = h'.sourceNodeId
  flowId : h.flowId = h'.flowId
  topicId : h.topicId = h'.topicId
  sessionId : h.sessionId = h'.sessionId
  nonce : h.nonce = h'.nonce
  timestamp : h.timestamp = h'.timestamp
  deadline : h.deadline = h'.deadline
  deliveryMode : h.deliveryMode = h'.deliveryMode
  forwardingTable : ∀ k, h.forwardingTable.lookup k = h'.forwardingTable.lookup k

structure Envelope.Same (e e' : Envelope) : Prop where
  header : Option.Rel RoutingHeader.Same e.header e'.header
  messageType : e.messageType = e'.messageType
  codec : e.codec = e'.codec
  payload : e.payload = e'.payload

/-- The encodings that `prost` derives. -/
class Prost where
  encodeControl : Proto.ControlMessage → Bytes
  decodeControl : Bytes → Option Proto.ControlMessage
  encodeEnvelope : Envelope → Bytes
  decodeEnvelope : Bytes → Option Envelope
  control_lossless : ∀ msg, ∃ msg', decodeControl (encodeControl msg) = some msg' ∧ msg'.Same msg
  envelope_lossless : ∀ env, ∃ env', decodeEnvelope (encodeEnvelope env) = some env' ∧ env'.Same env
  envelope_length : ∀ env env', Envelope.Same env env' →
    (encodeEnvelope env).length = (encodeEnvelope env').length

instance [Prost] : Message Proto.ControlMessage where
  encode msg := .ok (Prost.encodeControl msg)

/-! ## The protobuf wire format -/

theorem lookup_of_mapRel {β : Type} {m m' : HashMap String β} (h : MapRel Eq m m') (k : String) :
    m.lookup k = m'.lookup k := by
  have hk := h k
  generalize m.lookup k = o at hk ⊢
  generalize m'.lookup k = o' at hk ⊢
  cases hk with
  | some heq => rw [heq]
  | none => rfl

theorem eq_of_forall₂ {β : Type} {l l' : List β} (h : List.Forall₂ Eq l l') : l = l' :=
  List.forall₂_eq_eq_eq ▸ h

namespace Proto

def string (tag : Nat) : MessageCodec String Eq := implicit tag .string

def bytes (tag : Nat) : MessageCodec Bytes Eq := implicit tag .bytes

def uint32 (tag : Nat) : MessageCodec UInt32 Eq := implicit tag .uint32

def uint64 (tag : Nat) : MessageCodec UInt64 Eq := implicit tag .uint64

def bool (tag : Nat) : MessageCodec Bool Eq := implicit tag .bool

def enum (tag : Nat) : MessageCodec Int32 Eq := implicit tag .enumeration

/-- `repeated string`. -/
def strings (tag : Nat) : MessageCodec (List String) (List.Forall₂ Eq) := repeated tag .string

/-- `map<string, string>`. -/
def stringMap (tag : Nat) : MessageCodec (HashMap String String) (MapRel Eq) := mapField tag .string

/-! ### Heartbeats -/

def ping : MessageCodec Ping Eq :=
  (uint64 1).map (fun p => ⟨p⟩) (fun m => m.sentAt) (fun _ => rfl)
    (fun _ => rfl) fun _ _ h => congrArg Ping.mk h

def pong : MessageCodec Pong Eq :=
  ((uint64 1).both (uint64 2) (by decide)).map
    (fun p => ⟨p.1, p.2⟩) (fun m => (m.pingSentAt, m.pongSentAt)) (fun _ => rfl)
    (fun _ => rfl) fun _ _ h => by simp only [h]

/-! ### Handshake and identity -/

def handshake : MessageCodec FlowHandshake FlowHandshake.Same :=
  ((uint32 1).both ((string 2).both ((enum 3).both ((stringMap 4).both ((strings 5).both
    ((strings 6).both (enum 7) (by decide)) (by decide)) (by decide)) (by decide)) (by decide))
    (by decide)).map
    (fun p => ⟨p.1, p.2.1, p.2.2.1, p.2.2.2.1, p.2.2.2.2.1, p.2.2.2.2.2.1, p.2.2.2.2.2.2⟩)
    (fun m => (m.protocolVersion, m.nodeId, m.role, m.capabilities, m.supportedCodecs,
      m.subscribedTopics, m.identityMode)) (fun _ => rfl) (fun _ => rfl)
    fun _ _ ⟨h1, h2, h3, h4, h5, h6, h7⟩ =>
      ⟨h1, h2, h3, lookup_of_mapRel h4, eq_of_forall₂ h5, eq_of_forall₂ h6, h7⟩

def handshakeAck : MessageCodec HandshakeAck Eq :=
  ((bool 1).both ((string 2).both (uint32 3) (by decide)) (by decide)).map
    (fun p => ⟨p.1, p.2.1, p.2.2⟩) (fun m => (m.accepted, m.rejectReason, m.protocolVersion))
    (fun _ => rfl) (fun _ => rfl) fun _ _ h => by simp only [h]

def identityChallenge : MessageCodec IdentityChallenge Eq :=
  (bytes 1).map (fun p => ⟨p⟩) (fun m => m.challengeNonce) (fun _ => rfl) (fun _ => rfl)
    fun _ _ h => congrArg IdentityChallenge.mk h

def identityProof : MessageCodec IdentityProof Eq :=
  ((string 1).both ((bytes 2).both (bytes 3) (by decide)) (by decide)).map
    (fun p => ⟨p.1, p.2.1, p.2.2⟩) (fun m => (m.nodeId, m.signature, m.publicKey))
    (fun _ => rfl) (fun _ => rfl) fun _ _ h => by simp only [h]

/-! ### Topology -/

def nodeDescriptor : MessageCodec NodeDescriptor NodeDescriptor.Same :=
  ((string 1).both ((enum 2).both ((stringMap 3).both (uint64 4) (by decide)) (by decide))
    (by decide)).map
    (fun p => ⟨p.1, p.2.1, p.2.2.1, p.2.2.2⟩)
    (fun m => (m.nodeId, m.role, m.capabilities, m.lastSeen)) (fun _ => rfl) (fun _ => rfl)
    fun _ _ ⟨h1, h2, h3, h4⟩ => ⟨h1, h2, lookup_of_mapRel h3, h4⟩

def linkDescriptor : MessageCodec LinkDescriptor Eq :=
  ((string 1).both ((string 2).both ((uint32 3).both (uint64 4) (by decide)) (by decide))
    (by decide)).map
    (fun p => ⟨p.1, p.2.1, p.2.2.1, p.2.2.2⟩)
    (fun m => (m.nodeA, m.nodeB, m.hopCost, m.rttMicros)) (fun _ => rfl)
    (fun _ => rfl) fun _ _ h => by simp only [h]

def linkRemoved : MessageCodec LinkRemoved Eq :=
  ((string 1).both (string 2) (by decide)).map
    (fun p => ⟨p.1, p.2⟩) (fun m => (m.nodeA, m.nodeB)) (fun _ => rfl)
    (fun _ => rfl) fun _ _ h => by simp only [h]

def topologyUpdate : MessageCodec TopologyUpdate TopologyUpdate.Same :=
  ((string 1).both ((uint64 2).both ((repeated 3 nodeDescriptor.value).both ((strings 4).both
    ((repeated 5 linkDescriptor.value).both (repeated 6 linkRemoved.value) (by decide)) (by decide))
    (by decide)) (by decide)) (by decide)).map
    (fun p => ⟨p.1, p.2.1, p.2.2.1, p.2.2.2.1, p.2.2.2.2.1, p.2.2.2.2.2⟩)
    (fun m => (m.originNodeId, m.epoch, m.nodesAdded, m.nodesRemoved, m.linksAdded,
      m.linksRemoved)) (fun _ => rfl) (fun _ => rfl)
    fun _ _ ⟨h1, h2, h3, h4, h5, h6⟩ =>
      ⟨h1, h2, h3, eq_of_forall₂ h4, eq_of_forall₂ h5, eq_of_forall₂ h6⟩

/-! ### Subscriptions and backpressure -/

def subscriptionEntry : MessageCodec SubscriptionEntry Eq :=
  ((string 1).both ((string 2).both (enum 3) (by decide)) (by decide)).map
    (fun p => ⟨p.1, p.2.1, p.2.2⟩) (fun m => (m.flowId, m.pattern, m.action))
    (fun _ => rfl) (fun _ => rfl) fun _ _ h => by simp only [h]

def subscriptionUpdate : MessageCodec SubscriptionUpdate Eq :=
  ((string 1).both ((repeated 2 subscriptionEntry.value).both (uint64 3) (by decide))
    (by decide)).map
    (fun p => ⟨p.1, p.2.1, p.2.2⟩) (fun m => (m.nodeId, m.entries, m.epoch))
    (fun _ => rfl) (fun _ => rfl) fun _ _ ⟨h1, h2, h3⟩ => by
      simp only [h1, eq_of_forall₂ h2, h3]

def backpressureSignal : MessageCodec BackpressureSignal Eq :=
  ((string 1).both ((string 2).both ((enum 3).both (uint32 4) (by decide)) (by decide))
    (by decide)).map
    (fun p => ⟨p.1, p.2.1, p.2.2.1, p.2.2.2⟩)
    (fun m => (m.flowId, m.topicId, m.action, m.maxRate)) (fun _ => rfl)
    (fun _ => rfl) fun _ _ h => by simp only [h]

/-! ### Sessions -/

def sessionCreate : MessageCodec SessionCreate SessionCreate.Same :=
  ((string 1).both ((string 2).both ((strings 3).both ((uint64 4).both (stringMap 5) (by decide))
    (by decide)) (by decide)) (by decide)).map
    (fun p => ⟨p.1, p.2.1, p.2.2.1, p.2.2.2.1, p.2.2.2.2⟩)
    (fun m => (m.sessionId, m.creatorNode, m.flowIds, m.createdAt, m.metadata)) (fun _ => rfl) (fun _ => rfl)
    fun _ _ ⟨h1, h2, h3, h4, h5⟩ => ⟨h1, h2, eq_of_forall₂ h3, h4, lookup_of_mapRel h5⟩

def sessionJoin : MessageCodec SessionJoin Eq :=
  ((string 1).both (string 2) (by decide)).map
    (fun p => ⟨p.1, p.2⟩) (fun m => (m.sessionId, m.nodeId)) (fun _ => rfl)
    (fun _ => rfl) fun _ _ h => by simp only [h]

def sessionLeave : MessageCodec SessionLeave Eq :=
  ((string 1).both (string 2) (by decide)).map
    (fun p => ⟨p.1, p.2⟩) (fun m => (m.sessionId, m.nodeId)) (fun _ => rfl)
    (fun _ => rfl) fun _ _ h => by simp only [h]

def sessionClose : MessageCodec SessionClose Eq :=
  ((string 1).both ((string 2).both (string 3) (by decide)) (by decide)).map
    (fun p => ⟨p.1, p.2.1, p.2.2⟩) (fun m => (m.sessionId, m.closedBy, m.reason))
    (fun _ => rfl) (fun _ => rfl) fun _ _ h => by simp only [h]

def sessionStateSync : MessageCodec SessionStateSync Eq :=
  ((string 1).both ((string 2).both ((enum 3).both ((uint64 4).both ((uint64 5).both
    ((bytes 6).both (enum 7) (by decide)) (by decide)) (by decide)) (by decide)) (by decide))
    (by decide)).map
    (fun p => ⟨p.1, p.2.1, p.2.2.1, p.2.2.2.1, p.2.2.2.2.1, p.2.2.2.2.2.1, p.2.2.2.2.2.2⟩)
    (fun m => (m.sessionId, m.sender, m.mode, m.timestamp, m.version, m.data, m.codec))
    (fun _ => rfl) (fun _ => rfl) fun _ _ h => by simp only [h]

/-- The kinds of a `SessionControl`, in the order of their field numbers. -/
abbrev SessionKinds :=
  SessionCreate ⊕ SessionJoin ⊕ SessionLeave ⊕ SessionClose ⊕ SessionStateSync

def sessionOfKinds : SessionKinds → SessionMessage
  | .inl m => .create m
  | .inr (.inl m) => .join m
  | .inr (.inr (.inl m)) => .leave m
  | .inr (.inr (.inr (.inl m))) => .close m
  | .inr (.inr (.inr (.inr m))) => .stateSync m

def sessionKinds : SessionMessage → SessionKinds
  | .create m => .inl m
  | .join m => .inr (.inl m)
  | .leave m => .inr (.inr (.inl m))
  | .close m => .inr (.inr (.inr (.inl m)))
  | .stateSync m => .inr (.inr (.inr (.inr m)))

theorem sessionKinds_ofKinds (k : SessionKinds) : sessionKinds (sessionOfKinds k) = k := by
  rcases k with m | m | m | m | m <;> rfl

theorem sessionOfKinds_kinds (m : SessionMessage) : sessionOfKinds (sessionKinds m) = m := by
  cases m <;> rfl

theorem same_ofKinds {k k' : SessionKinds}
    (h : AltRel SessionCreate.Same (AltRel Eq (AltRel Eq (AltRel Eq Eq))) k k') :
    (sessionOfKinds k).Same (sessionOfKinds k') := by
  rcases h with h | rfl | rfl | rfl | rfl
  · exact .create h
  all_goals exact .refl _

def sessionControl : MessageCodec SessionControl SessionControl.Same :=
  (((optional 1 sessionCreate.value).alt ((optional 2 sessionJoin.value).alt
    ((optional 3 sessionLeave.value).alt ((optional 4 sessionClose.value).alt
    (optional 5 sessionStateSync.value) (by decide) rfl rfl) (by decide) rfl rfl)
    (by decide) rfl rfl) (by decide) rfl rfl).mapChoice sessionOfKinds sessionKinds
    sessionKinds_ofKinds sessionOfKinds_kinds fun _ _ => same_ofKinds).map
    (fun p => ⟨p⟩) (fun m => m.message) (fun _ => rfl) (fun _ => rfl) fun _ _ h => h

/-! ### Control messages -/

/-- The kinds of a `ControlMessage`, in the order of their field numbers. -/
abbrev ControlKinds :=
  FlowHandshake ⊕ HandshakeAck ⊕ IdentityProof ⊕ IdentityChallenge ⊕ TopologyUpdate ⊕
    SubscriptionUpdate ⊕ BackpressureSignal ⊕ SessionControl ⊕ Ping ⊕ Pong

def controlOfKinds : ControlKinds → ControlPayload
  | .inl m => .handshake m
  | .inr (.inl m) => .handshakeAck m
  | .inr (.inr (.inl m)) => .identityProof m
  | .inr (.inr (.inr (.inl m))) => .identityChallenge m
  | .inr (.inr (.inr (.inr (.inl m)))) => .topologyUpdate m
  | .inr (.inr (.inr (.inr (.inr (.inl m))))) => .subscriptionUpdate m
  | .inr (.inr (.inr (.inr (.inr (.inr (.inl m)))))) => .backpressure m
  | .inr (.inr (.inr (.inr (.inr (.inr (.inr (.inl m))))))) => .sessionControl m
  | .inr (.inr (.inr (.inr (.inr (.inr (.inr (.inr (.inl m)))))))) => .ping m
  | .inr (.inr (.inr (.inr (.inr (.inr (.inr (.inr (.inr m)))))))) => .pong m

def controlKinds : ControlPayload → ControlKinds
  | .handshake m => .inl m
  | .handshakeAck m => .inr (.inl m)
  | .identityProof m => .inr (.inr (.inl m))
  | .identityChallenge m => .inr (.inr (.inr (.inl m)))
  | .topologyUpdate m => .inr (.inr (.inr (.inr (.inl m))))
  | .subscriptionUpdate m => .inr (.inr (.inr (.inr (.inr (.inl m)))))
  | .backpressure m => .inr (.inr (.inr (.inr (.inr (.inr (.inl m))))))
  | .sessionControl m => .inr (.inr (.inr (.inr (.inr (.inr (.inr (.inl m)))))))
  | .ping m => .inr (.inr (.inr (.inr (.inr (.inr (.inr (.inr (.inl m))))))))
  | .pong m => .inr (.inr (.inr (.inr (.inr (.inr (.inr (.inr (.inr m))))))))

theorem controlKinds_ofKinds (k : ControlKinds) : controlKinds (controlOfKinds k) = k := by
  rcases k with m | m | m | m | m | m | m | m | m | m <;> rfl

theorem controlOfKinds_kinds (m : ControlPayload) : controlOfKinds (controlKinds m) = m := by
  cases m <;> rfl

theorem controlSame_ofKinds {k k' : ControlKinds}
    (h : AltRel FlowHandshake.Same (AltRel Eq (AltRel Eq (AltRel Eq (AltRel TopologyUpdate.Same
      (AltRel Eq (AltRel Eq (AltRel SessionControl.Same (AltRel Eq Eq)))))))) k k') :
    (controlOfKinds k).Same (controlOfKinds k') := by
  rcases h with h | rfl | rfl | rfl | h | rfl | rfl | h | rfl | rfl
  · exact .handshake h
  · exact .refl _
  · exact .refl _
  · exact .refl _
  · exact .topologyUpdate h
  · exact .refl _
  · exact .refl _
  · exact .sessionControl h
  · exact .refl _
  · exact .refl _

def controlMessage : MessageCodec ControlMessage ControlMessage.Same :=
  (((optional 1 handshake.value).alt ((optional 2 handshakeAck.value).alt
    ((optional 3 identityProof.value).alt ((optional 4 identityChallenge.value).alt
    ((optional 5 topologyUpdate.value).alt ((optional 6 subscriptionUpdate.value).alt
    ((optional 7 backpressureSignal.value).alt ((optional 8 sessionControl.value).alt
    ((optional 9 ping.value).alt (optional 10 pong.value)
    (by decide) rfl rfl) (by decide) rfl rfl) (by decide) rfl rfl) (by decide) rfl rfl)
    (by decide) rfl rfl) (by decide) rfl rfl) (by decide) rfl rfl) (by decide) rfl rfl)
    (by decide) rfl rfl).mapChoice controlOfKinds controlKinds
    controlKinds_ofKinds controlOfKinds_kinds fun _ _ => controlSame_ofKinds).map
    (fun p => ⟨p⟩) (fun m => m.message) (fun _ => rfl) (fun _ => rfl) fun _ _ h => h

/-! ### Data envelopes -/

deriving instance DecidableEq for ForwardingTargets

def forwardingTargets : MessageCodec ForwardingTargets Eq :=
  (strings 1).map (fun p => ⟨p⟩) (fun m => m.sendTo) (fun _ => rfl) (fun _ => rfl)
    fun _ _ h => congrArg ForwardingTargets.mk (eq_of_forall₂ h)

def routingHeader : MessageCodec RoutingHeader RoutingHeader.Same :=
  ((string 1).both ((string 2).both ((string 3).both ((string 4).both ((string 5).both
    ((uint64 6).both ((uint64 7).both ((enum 8).both (mapField 9 forwardingTargets.value)
    (by decide)) (by decide)) (by decide)) (by decide)) (by decide)) (by decide)) (by decide))
    (by decide)).map
    (fun p => ⟨p.1, p.2.1, p.2.2.1, p.2.2.2.1, p.2.2.2.2.1, p.2.2.2.2.2.1, p.2.2.2.2.2.2.1,
      p.2.2.2.2.2.2.2.1, p.2.2.2.2.2.2.2.2⟩)
    (fun m => (m.sourceNodeId, m.flowId, m.topicId, m.sessionId, m.nonce, m.timestamp, m.deadline,
      m.deliveryMode, m.forwardingTable)) (fun _ => rfl) (fun _ => rfl)
    fun _ _ ⟨h1, h2, h3, h4, h5, h6, h7, h8, h9⟩ =>
      ⟨h1, h2, h3, h4, h5, h6, h7, h8, lookup_of_mapRel h9⟩

def envelope : MessageCodec Envelope Envelope.Same :=
  ((optional 1 routingHeader.value).both ((string 2).both ((enum 3).both (bytes 4) (by decide))
    (by decide)) (by decide)).map
    (fun p => ⟨p.1, p.2.1, p.2.2.1, p.2.2.2⟩)
    (fun m => (m.header, m.messageType, m.codec, m.payload)) (fun _ => rfl) (fun _ => rfl)
    fun _ _ ⟨h1, h2, h3, h4⟩ => ⟨h1, h2, h3, h4⟩

end Proto

/-! ### The encoding of envelopes

`Envelope.fields` writes the fields down one by one; the codec writes the same. -/

theorem fields_string (tag : Nat) (s : String) :
    (Proto.string tag).fields s = bytesField tag (utf8 s) := by
  show (if s = "" then [] else _) = if utf8 s = [] then [] else _
  simp only [utf8_eq_nil_iff]
  rfl

theorem fields_uint64 (tag : Nat) (n : UInt64) :
    (Proto.uint64 tag).fields n = varintField tag n.toNat := by
  show (if n = 0 then [] else _) = if n.toNat = 0 then [] else _
  simp only [← UInt64.toNat_inj]
  rfl

theorem fields_enum (tag : Nat) (n : Int32) : (Proto.enum tag).fields n = enumField tag n := by
  show (if n = 0 then [] else _) = if n.toInt64.toUInt64.toNat = 0 then [] else _
  have : n.toInt64.toUInt64.toNat = 0 ↔ n = 0 := by
    constructor
    · intro h
      have := ValueCodec.castI32_toUInt64 n
      rw [h] at this
      exact this.symm
    · rintro rfl
      rfl
  simp only [this]
  rfl

theorem fields_routingHeader (h : RoutingHeader) : Proto.routingHeader.fields h = h.fields := by
  have hentry : ∀ e : (_ : NodeId) × ForwardingTargets,
      (entry Proto.forwardingTargets.value).encode (e.1, e.2) = encodeFields
        (bytesField 1 (utf8 e.1) ++ bytesField 2 (encodeFields e.2.fields)) := by
    rintro ⟨id, targets⟩
    have htargets : encodeFields targets.fields = [] ↔ targets = ⟨[]⟩ := by
      rw [encodeFields_eq_nil_iff]
      cases targets
      simp [ForwardingTargets.fields]
    have hvalue : (if targets = ⟨[]⟩ then [] else
        [(⟨2, .len (encodeFields targets.fields)⟩ : Field)]) =
        bytesField 2 (encodeFields targets.fields) := by
      unfold bytesField
      simp only [htargets]
    rw [← hvalue, ← fields_string]
    rfl
  unfold RoutingHeader.fields
  simp only [← hentry]
  simp only [List.append_assoc, ← fields_string, ← fields_uint64, ← fields_enum]
  rfl

theorem fields_envelope (env : Envelope) : Proto.envelope.fields env = env.fields := by
  unfold Envelope.fields
  simp only [List.append_assoc, ← fields_string, ← fields_enum, ← fields_routingHeader]
  rfl

/-- Envelopes survive the wire. -/
theorem decode_envelope (env : Envelope) :
    ∃ env', Proto.envelope.decode (encodeFields env.fields) = some env' ∧ env'.Same env := by
  rw [← fields_envelope]
  exact Proto.envelope.decode_encode env

/-- Both have a header, or neither. -/
theorem Envelope.Same.header_cases {e e' : Envelope} (h : e.Same e') :
    (e.header = none ∧ e'.header = none) ∨
    ∃ hd hd', e.header = some hd ∧ e'.header = some hd' ∧ hd.Same hd' := by
  have hh := h.header
  generalize e.header = o at hh ⊢
  generalize e'.header = o' at hh ⊢
  cases hh with
  | some hsame => exact Or.inr ⟨_, _, rfl, rfl, hsame⟩
  | none => exact Or.inl ⟨rfl, rfl⟩

/-- The fields are the same; those of the map are in another order. -/
theorem RoutingHeader.Same.perm_fields {h h' : RoutingHeader} (hs : h.Same h') :
    h.fields.Perm h'.fields := by
  have hentries : h.forwardingTable.entries.Perm h'.forwardingTable.entries := by
    refine List.lookup_ext h.forwardingTable.nodupKeys h'.forwardingTable.nodupKeys fun k targets => ?_
    have hk := hs.forwardingTable k
    unfold AList.lookup at hk
    rw [hk]
  unfold RoutingHeader.fields
  rw [hs.sourceNodeId, hs.flowId, hs.topicId, hs.sessionId, hs.nonce, hs.timestamp, hs.deadline,
    hs.deliveryMode]
  exact (hentries.map _).append_left _

/-- So the number of bytes is the same. -/
theorem Envelope.Same.length_encode {e e' : Envelope} (h : e.Same e') :
    (encodeFields e.fields).length = (encodeFields e'.fields).length := by
  unfold Envelope.fields
  rw [h.messageType, h.codec, h.payload]
  rcases h.header_cases with ⟨hn, hn'⟩ | ⟨hd, hd', hs, hs', hsame⟩
  · rw [hn, hn']
  · have hlen : (encodeFields hd.fields).length = (encodeFields hd'.fields).length :=
      (hsame.perm_fields.flatMap_right _).length_eq
    rw [hs, hs']
    simp only [encodeFields, Option.toList_some, List.map_cons, List.map_nil, List.flatMap_append,
      List.flatMap_cons, List.flatMap_nil, List.length_append, Field.encode, WireValue.encode,
      WireValue.wireType] at hlen ⊢
    rw [hlen]

namespace Protobuf

scoped instance prost : Prost where
  encodeControl := Proto.controlMessage.encode
  decodeControl := Proto.controlMessage.decode
  encodeEnvelope env := encodeFields env.fields
  decodeEnvelope := Proto.envelope.decode
  control_lossless := Proto.controlMessage.decode_encode
  envelope_lossless := decode_envelope
  envelope_length _ _ h := h.length_encode

end Protobuf

end Stric.Flow
