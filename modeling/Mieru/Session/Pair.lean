import Mieru.Lib.Machine
import Mieru.Session.Step

/-! # Two sessions and the network between them

The network keeps every packet that was sent and hands any of them to the other side,
any number of times and in any order. It never makes one up. -/
namespace Mieru.Protocol

namespace Event

def createdSegments : Event → List Segment
  | created seg _ => [seg]
  | _ => []

def acceptedBytes : Event → Bytes
  | created seg true => seg.payload
  | _ => []

def sentPackets : Event → List Packet
  | output packet .sent => [packet]
  | _ => []

def movedSegments : Event → List Segment
  | moved seg => [seg]
  | _ => []

/-- Only what the peer has sent can be received. -/
def isGenuine (peerWire : List Packet) : Event → Bool
  | received packet => packet ∈ peerWire
  | _ => true

def returnedBytes : Event → Bytes
  | returned bytes => bytes
  | _ => []

end Event

/-- A session and what was seen of it so far. -/
structure Endpoint (cfg : SessionConfig) where
  session : Session cfg
  created : List Segment := []
  accepted : Bytes := []
  wire : List Packet := []
  moved : List Segment := []
  returned : Bytes := []

namespace Endpoint

variable {cfg : SessionConfig} (e : Endpoint cfg)

def observe (s : Session cfg) (evs : List Event) : Endpoint cfg where
  session := s
  created := e.created ++ evs.flatMap Event.createdSegments
  accepted := e.accepted ++ evs.flatMap Event.acceptedBytes
  wire := e.wire ++ evs.flatMap Event.sentPackets
  moved := e.moved ++ evs.flatMap Event.movedSegments
  returned := e.returned ++ evs.flatMap Event.returnedBytes

def step (peerWire : List Packet) (a : Action) : Option (Endpoint cfg × List Event) :=
  match e.session.step a with
  | none => none
  | some (s, evs) =>
    if evs.all (Event.isGenuine peerWire) then some (e.observe s evs, evs) else none

end Endpoint

/-- A client and a server session of one id on a packet transport. -/
structure PairConfig where
  client : SessionConfig
  server : SessionConfig
  roles : client.isClient = true ∧ server.isClient = false
  sameID : client.id = server.id
  packets : client.transportProtocol = .packetTransport ∧
    server.transportProtocol = .packetTransport

structure Pair (cfg : PairConfig) where
  client : Endpoint cfg.client
  server : Endpoint cfg.server

inductive Side where
  | client
  | server
  deriving DecidableEq, Repr

namespace Pair

variable {cfg : PairConfig}

def start (now jitter jitter' : ℤ) : Pair cfg where
  client := { session := .attached now jitter }
  server := { session := .attached now jitter' }

def step (p : Pair cfg) : Side × Action → Option (Pair cfg × List (Side × Event))
  | (.client, a) => (p.client.step p.server.wire a).map fun (e, evs) =>
    ({ p with client := e }, evs.map (Prod.mk .client))
  | (.server, a) => (p.server.step p.client.wire a).map fun (e, evs) =>
    ({ p with server := e }, evs.map (Prod.mk .server))

end Pair

end Mieru.Protocol
