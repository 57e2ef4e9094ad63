import Mieru.Replay
import Mieru.Lib.BigEndian
import Mieru.Lib.BitSelect
import Mieru.Mathext
import Mieru.Lib.Result
import Mieru.LowEntropy
import Mieru.Lib.ByteReader
import Mieru.Socks5.Net
import Mieru.Socks5.Request
import Mieru.Socks5.Egress
import Mieru.Socks5.Server
import Mieru.Lib.Machine
import Mieru.Socks5.UDPAssociate
import Mieru.Lib.OrderedTree
import Mieru.Protocol.Metadata
import Mieru.Protocol.Segment
import Mieru.TrafficPattern
import Mieru.Session.State
import Mieru.Session.Effect
import Mieru.Session.Write
import Mieru.Session.Output
import Mieru.Session.Input
import Mieru.Session.Close
import Mieru.Session.Step
import Mieru.Lib.ReliableDelivery
import Mieru.Session.Pair
import Mieru.Session.Channel
import Mieru.Session.Delivery
import Mieru.Session.GracefulClose
import Mieru.Lib.Aead
import Mieru.Rng
import Mieru.Lib.ByteBuffer
import Mieru.Protocol.Padding
import Mieru.Protocol.Framing
import Mieru.Protocol.PacketFraming
import Mieru.Session.Outputs
import Mieru.Protocol.PacketUnderlay
import Mieru.Session.EndOfFile
import Mieru.Session.Accounting
import Mieru.Session.AckRequest
import Mieru.Session.HeadOfLine
import Mieru.Session.Flow
import Mieru.Session.WakeUp
import Mieru.Lib.Clock
import Mieru.Metrics.Counter
import Mieru.ServerUser.Quota
import Mieru.Cipher.Nonce
import Mieru.Protocol.NonceUse
import Mieru.Lib.Scan
import Mieru.ServerUser.Registry
import Mieru.Cipher.KeyGen
import Mieru.ServerUser.Acceptance
import Mieru.Lib.KeyedMap
import Mieru.Protocol.PacketServer
import Mieru.Protocol.UserIsolation
import Mieru.Protocol.EventLoop
import Mieru.Cipher.ImplicitNonce
import Mieru.Lib.PieceStream
import Mieru.Protocol.StreamUnderlay
import Mieru.Protocol.StreamLockstep
import Mieru.Session.Opening
import Mieru.Session.Retransmission
import Mieru.Lib.CutLog
import Mieru.Metrics.History
import Mieru.Metrics.Accuracy
import Mieru.Metrics.Dump
import Mieru.Common.PacketOverStream
import Mieru.Common.UDPAssociateWrapper
import Mieru.Lib.Ledger
import Mieru.Protocol.Mux
import Mieru.Protocol.UnderlayClose
import Mieru.ServerUser.Compile
import Mieru.ServerUser.SourceCache
import Mieru.ServerUser.Reload
import Mieru.ServerUser.ReloadSafety
import Mieru.Protocol.MetadataCodec
import Mieru.Socks5.DatagramCodec
import Mieru.Socks5.EgressNames
import Mieru.Socks5.UDPRelay
import Mieru.TrafficConfig
import Mieru.Lib.Recency
import Mieru.ServerUser.SourceRecency
import Mieru.AppCtl.PortBinding
import Mieru.AppCtl.URL
import Mieru.Session.StreamOrder
import Mieru.Session.WriteDeadline
import Mieru.Session.Consumers
import Mieru.Common.Ascii
import Mieru.ServerUser.CacheStats
import Mieru.Cipher.KeyCache
import Mieru.Lib.KeyedMerge
import Mieru.AppCtl.ServerConfig
import Mieru.Lib.JsonTokens
import Mieru.Lib.Json
import Mieru.Lib.JsonObject
import Mieru.Metrics.MarshalJson
import Mieru.Protocol.Tunnel
import Mieru.Lib.CrashDisk
import Mieru.Metrics.Checkpoint
import Mieru.Protocol.MuxServer
import Mieru.Socks5.EarlyConn
