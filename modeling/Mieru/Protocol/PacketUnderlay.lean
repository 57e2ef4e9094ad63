import Mieru.Protocol.PacketFraming
import Mieru.Session.Outputs
import Mieru.Socks5.Net

/-! # Sending on a packet underlay

The client has one cipher. The server takes the cipher that a segment came with, or
that of its session. -/
namespace Mieru.Protocol

open Cipher Mathext Net Result Rng TrafficPattern

structure PacketSession where
  id : UInt32
  block : Option StatelessCipher

structure PacketUnderlay where
  isClient : Bool
  mtu : ℤ
  trafficPattern : Option TrafficPattern
  host : Host
  /-- Only used by the client. -/
  serverAddr : UDPAddr
  block : Option StatelessCipher
  sessionMap : List PacketSession

namespace PacketUnderlay

variable (u : PacketUnderlay)

def framing : FramingConfig where
  mtu := u.mtu
  transportProtocol := .packetTransport
  trafficPattern := u.trafficPattern
  host := u.host

def cipherFor (sessionID : UInt32) (segBlock : Option StatelessCipher) :
    Except Fault StatelessCipher :=
  if u.isClient then
    match u.block with
    | none => .error (.panicked "cipher block is not ready")
    | some block => .ok block
  else
    match segBlock with
    | some block => .ok block
    | none =>
      match u.sessionMap.find? fun s => s.id = sessionID with
      | none => .error (.failed s!"session {sessionID} not found")
      | some s =>
        match s.block with
        | none => .error (.notReady "cipher block is not ready, please try again later")
        | some block => .ok block

/-- Whether the socket takes the datagram is up to the environment. -/
def writeOneSegment (packet : Packet) (segBlock : Option StatelessCipher) (addr : UDPAddr)
    (draws : Draws) (now : ℕ) : Except Fault Datagram := do
  ensure (¬(u.isClient = true ∧ addr.key ≠ u.serverAddr.key))
    (.failed "can't write to an address other than the server address")
  let block ← u.cipherFor packet.metadata.sessionID segBlock
  buildDatagram u.framing block.val packet draws now

/-- Every packet of a session, first transmission or not, becomes a datagram that fits the
MTU and that the peer reads back. -/
theorem writeOneSegment_sound {cfg : SessionConfig}
    (hpacket : cfg.transportProtocol = .packetTransport)
    (hmtu : 1280 ≤ cfg.mtu ∧ cfg.mtu ≤ 1500) (hvalid : validate cfg.trafficPattern = .ok ())
    {start jitter : ℤ} {es : List Action} {outs : List Event} {s : Session cfg}
    (hrun : Machine.Reaches Session.step Machine.Free (Session.attached start jitter) es outs s)
    {p : Packet} {fate : Fate} (hout : .output p fate ∈ outs)
    (humtu : u.mtu = cfg.mtu)
    -- the segment may still have the fields of an earlier transmission
    {packet : Packet} (hcontent : packet.metadata.content = p.metadata.content)
    (hpayload : packet.payload = p.payload) {addr : UDPAddr}
    (haddr : u.isClient = true → addr.key = u.serverAddr.key)
    {segBlock : Option StatelessCipher} {block : StatelessCipher}
    (hblock : u.cipherFor packet.metadata.sessionID segBlock = .ok block)
    (draws : Draws) (now : ℕ) :
    ∃ d, u.writeOneSegment packet segBlock addr draws now = .ok d ∧
      SoundDatagram u.framing block.val packet now d := by
  have hproduced := Session.output_produced hrun hout
  have hframable : Framable packet := by
    rw [← framable_content, hcontent, hpayload, framable_content]
    exact hproduced.framable hvalid
  have hlen : packet.metadata.payloadLen = p.metadata.payloadLen := by
    rw [← Metadata.payloadLen_content, hcontent, Metadata.payloadLen_content]
  have hfit := hproduced.fits hpacket hmtu.1
  rw [← hlen, ← humtu] at hfit
  have hsmall : u.framing.mtu ≤ maxDatagramSize := by
    change u.mtu ≤ 1500
    omega
  obtain ⟨d, hd, hsound⟩ := buildDatagram_sound block.property
    (rfl : u.framing.transportProtocol = _) hsmall hframable hfit draws now
  refine ⟨d, ?_, hsound⟩
  have hcheck : ¬(u.isClient = true ∧ addr.key ≠ u.serverAddr.key) :=
    fun hwrong => hwrong.2 (haddr hwrong.1)
  rw [writeOneSegment, ensure_true hcheck, ok_bind, hblock, ok_bind, hd]

def lowEntropyConfig : SessionConfig where
  id := 1
  isClient := true
  mtu := 1280
  transportProtocol := .packetTransport
  trafficPattern := some { lowEntropy := some { mode := some 1, maskRotation := some 1 } }

def lowEntropyRun : List Action := [
  .write [1, 2, 3], .writeOpen, .writeRequest, .writeChunk, .writeReserve, .writeLock,
  .writeFragment,
  .outputWake .notEmpty, .outputStart 0, .sendCheck 16, .outputLock, .sendNext 16 0 1000 .sent,
  .sendNext 16 0 1000 .sent, .ackCheck 0,
  .receive (Session.openResponseSegment lowEntropyConfig 0).toPacket 0, .requestAck 0, .accept,
  .waitSpace, .moveNext, .moveNext, .requestAckAgain 0, .finishInput,
  .outputWake .wakeup, .outputStart 0, .sendCheck 16, .outputLock, .sendNext 16 0 1000 .sent]

def lowEntropyPacket : Packet where
  metadata := .dataAck {
    protocol := .dataClientToServerLowEntropy, lowEntropyMode := 1, sessionID := 1, seq := 1
    unAckSeq := 1, windowSize := 4096, payloadLen := 8, extractedPayloadLen := 3
    lowEntropyMaskRotation := 1 }
  payload := [1, 2, 3]

def zeroKeyCipher : StatelessCipher :=
  ⟨{ aead := Aead.xchacha20Poly1305 (List.replicate 32 0)
     overhead_eq := rfl
     userName := "user"
     enableImplicitNonce := false
     implicitNonce := none }, rfl⟩

def lowEntropyClient : PacketUnderlay where
  isClient := true
  mtu := 1280
  trafficPattern := lowEntropyConfig.trafficPattern
  host := ⟨fun _ => 0, "host"⟩
  serverAddr := ⟨none, 8964, []⟩
  block := some zeroKeyCipher
  sessionMap := []

def zeroDraws : Draws where
  nonce := zeroNonce
  halfMask := fun _ => 0
  padding1 := ⟨0, 0, fun _ => 0⟩
  padding2 := ⟨0, 0, fun _ => 0⟩
  stale := fun _ => 0

theorem low_entropy_datagram_sound :
    ∃ (outs : List Event) (s : Session lowEntropyConfig) (d : Datagram),
      Machine.Reaches Session.step Machine.Free (Session.attached 0 0) lowEntropyRun outs s ∧
      .output lowEntropyPacket .sent ∈ outs ∧
      lowEntropyClient.writeOneSegment lowEntropyPacket none ⟨none, 8964, []⟩ zeroDraws 0 =
        .ok d ∧
      SoundDatagram lowEntropyClient.framing zeroKeyCipher.val lowEntropyPacket 0 d := by
  have hsummary : (Machine.run Session.step (Session.attached 0 0 : Session lowEntropyConfig)
      lowEntropyRun).map (fun r => decide (.output lowEntropyPacket .sent ∈ r.2)) =
        some true := by
    rfl
  obtain ⟨⟨s, outs⟩, hrun, hmem⟩ := Option.map_eq_some_iff.mp hsummary
  have hout : .output lowEntropyPacket .sent ∈ outs := of_decide_eq_true hmem
  have hreach := Machine.reaches_of_run hrun
  obtain ⟨d, hd, hsound⟩ := writeOneSegment_sound lowEntropyClient rfl (by decide) rfl hreach hout
    rfl rfl rfl (fun _ => rfl) (rfl : lowEntropyClient.cipherFor 1 none = .ok zeroKeyCipher)
    zeroDraws 0
  exact ⟨outs, s, d, hreach, hout, hd, hsound⟩

end PacketUnderlay

end Mieru.Protocol
