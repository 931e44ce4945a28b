import Stric.Flow.Wire
import Stric.Flow.Graph
import Stric.Pool.Labels
import Stric.Flow.GraphInv
import Stric.Flow.VecGraph
import Stric.Flow.Routing
import Stric.Flow.RoutingInv
import Stric.Flow.RoutingSafe
import Stric.Flow.RoutingTree
import Stric.Flow.Node
import Stric.Flow.Multicast
import Stric.Flow.Mesh
import Stric.Flow.GossipBound
import Stric.Flow.GossipAgree
import Stric.Flow.SessionSync
import Stric.Flow.SessionLww
import Stric.Flow.SessionMerge
import Stric.Flow.Subscribe
import Stric.Flow.Snapshot
import Stric.Flow.SubscriptionView
import Stric.Pool.Relay
import Stric.Flow.SessionFlood
import Stric.Flow.SessionClose
import Stric.Flow.SessionTree
import Stric.Flow.SessionReopen
import Stric.Flow.SessionGc
import Stric.Flow.Connections
import Stric.Flow.PeerWriters
import Stric.Flow.Reconnect
import Stric.Flow.HandshakeLock
import Stric.Core.KeepAlive
import Stric.Core.KeepAliveSettle
import Stric.Core.KeepAliveLimit
import Stric.Flow.GraphTransfer
import Stric.Flow.Discovery
import Stric.Pool.Framing
import Stric.Pool.Protobuf
import Stric.Flow.Frame
import Stric.Tower.Headers
import Stric.Tower.Http
import Stric.Tower.Wire
import Stric.Flow.Counters
import Stric.Flow.FailedLink
import Stric.Tower.Adapter
import Stric.Core.KeepAliveFlag
import Stric.Flow.Backpressure
import Stric.Flow.Closest
import Stric.Flow.DialledName
import Stric.Flow.Dispatch
import Stric.Flow.SubscriptionFrame
import Stric.Tower.HeaderOrder
import Stric.Core.KeepAliveTick
import Stric.Flow.BucketOrder
import Stric.Flow.ControlCodec
import Stric.Flow.ControlLink
import Stric.Flow.DataStream
import Stric.Flow.ForwardLoop
import Stric.Flow.MeshRouting
import Stric.Flow.Negotiation
import Stric.Core.KeepAliveTimer
import Stric.Core.Node
import Stric.Pool.FrameReader
import Stric.Tower.Connection
import Stric.Flow.PubSub
import Stric.Flow.SessionReplica
