import Mieru.LowEntropy

/-! # Segment metadata

The 32 bytes in front of every segment. Session metadata opens or closes a
session; data and acknowledgement metadata carry the sliding window. A metadata
value can only be built with a protocol of its own kind. -/
namespace Mieru.Protocol

open Mathext LowEntropy Result

abbrev Bytes := List UInt8

inductive ProtocolType where
  | closeConnRequest
  | closeConnResponse
  | openSessionRequest
  | openSessionResponse
  | closeSessionRequest
  | closeSessionResponse
  | dataClientToServer
  | dataServerToClient
  | ackClientToServer
  | ackServerToClient
  | dataClientToServerLowEntropy
  | dataServerToClientLowEntropy
  deriving DecidableEq, Repr

namespace ProtocolType

def toByte : ProtocolType → UInt8
  | closeConnRequest => 0
  | closeConnResponse => 1
  | openSessionRequest => 2
  | openSessionResponse => 3
  | closeSessionRequest => 4
  | closeSessionResponse => 5
  | dataClientToServer => 6
  | dataServerToClient => 7
  | ackClientToServer => 8
  | ackServerToClient => 9
  | dataClientToServerLowEntropy => 10
  | dataServerToClientLowEntropy => 11

def all : List ProtocolType :=
  [closeConnRequest, closeConnResponse, openSessionRequest, openSessionResponse,
    closeSessionRequest, closeSessionResponse, dataClientToServer, dataServerToClient,
    ackClientToServer, ackServerToClient, dataClientToServerLowEntropy,
    dataServerToClientLowEntropy]

def ofByte (b : UInt8) : Option ProtocolType := all.find? fun p => p.toByte = b

@[simp] theorem ofByte_toByte (p : ProtocolType) : ofByte p.toByte = some p := by
  cases p <;> decide

def string : ProtocolType → String
  | closeConnRequest => "closeConnRequest"
  | closeConnResponse => "closeConnResponse"
  | openSessionRequest => "openSessionRequest"
  | openSessionResponse => "openSessionResponse"
  | closeSessionRequest => "closeSessionRequest"
  | closeSessionResponse => "closeSessionResponse"
  | dataClientToServer => "dataClientToServer"
  | dataServerToClient => "dataServerToClient"
  | ackClientToServer => "ackClientToServer"
  | ackServerToClient => "ackServerToClient"
  | dataClientToServerLowEntropy => "dataClientToServerLowEntropy"
  | dataServerToClientLowEntropy => "dataServerToClientLowEntropy"

end ProtocolType

open ProtocolType

def isSessionProtocol (p : ProtocolType) : Bool :=
  p = openSessionRequest ∨ p = openSessionResponse ∨ p = closeSessionRequest ∨
    p = closeSessionResponse

def isLowEntropyProtocol (p : ProtocolType) : Bool :=
  p = dataClientToServerLowEntropy ∨ p = dataServerToClientLowEntropy

def isDataProtocol (p : ProtocolType) : Bool :=
  p = dataClientToServer ∨ p = dataServerToClient ∨ isLowEntropyProtocol p

def isAckProtocol (p : ProtocolType) : Bool :=
  p = ackClientToServer ∨ p = ackServerToClient

def isDataAckProtocol (p : ProtocolType) : Bool := isDataProtocol p ∨ isAckProtocol p

theorem isSessionProtocol_eq_false {p : ProtocolType} (h : isDataAckProtocol p = true) :
    isSessionProtocol p = false := by
  revert h
  cases p <;> decide

def statusOK : UInt8 := 0
def statusQuotaExhausted : UInt8 := 1

def metadataLength : ℕ := 32
def maxSessionOpenPayload : ℕ := 1024
def maxPDU : ℕ := 32 * 1024

structure SessionStruct where
  protocol : ProtocolType
  timestamp : UInt32 := 0
  sessionID : UInt32
  seq : UInt32
  statusCode : UInt8 := 0
  payloadLen : UInt16 := 0
  suffixLen : UInt8 := 0
  isSession : isSessionProtocol protocol = true := by exact Eq.refl true
  deriving DecidableEq, Repr

structure DataAckStruct where
  protocol : ProtocolType
  timestamp : UInt32 := 0
  lowEntropyMode : UInt8 := 0
  sessionID : UInt32
  seq : UInt32
  unAckSeq : UInt32
  windowSize : UInt16
  fragment : UInt8 := 0
  prefixLen : UInt8 := 0
  payloadLen : UInt16 := 0
  suffixLen : UInt8 := 0
  lowEntropyMask : UInt32 := 0
  extractedPayloadLen : UInt16 := 0
  lowEntropyMaskRotation : UInt8 := 0
  isDataAck : isDataAckProtocol protocol = true := by exact Eq.refl true
  deriving DecidableEq, Repr

inductive Metadata where
  | session (ss : SessionStruct)
  | dataAck (das : DataAckStruct)
  deriving DecidableEq, Repr

namespace Metadata

def protocol : Metadata → ProtocolType
  | session ss => ss.protocol
  | dataAck das => das.protocol

def sessionID : Metadata → UInt32
  | session ss => ss.sessionID
  | dataAck das => das.sessionID

def seq : Metadata → UInt32
  | session ss => ss.seq
  | dataAck das => das.seq

def prefixLen : Metadata → UInt8
  | session _ => 0
  | dataAck das => das.prefixLen

def suffixLen : Metadata → UInt8
  | session ss => ss.suffixLen
  | dataAck das => das.suffixLen

def payloadLen : Metadata → UInt16
  | session ss => ss.payloadLen
  | dataAck das => das.payloadLen

/-- The fields that each transmission sets anew are cleared. -/
def content : Metadata → Metadata
  | session ss => session { ss with timestamp := 0, suffixLen := 0 }
  | dataAck das => dataAck { das with
      timestamp := 0
      prefixLen := 0
      suffixLen := 0
      lowEntropyMask := if isLowEntropyProtocol das.protocol then 0 else das.lowEntropyMask }

theorem payloadLen_content (m : Metadata) : m.content.payloadLen = m.payloadLen := by
  cases m <;> rfl

end Metadata

/-! ## Wire format -/

/-- `uint32(time.Now().Unix() / 60)`. -/
def unixMinutes (now : ℕ) : UInt32 := UInt32.ofNat (now / 60)

def be32 (v : UInt32) : Bytes := BigEndian.encode 4 v.toNat
def be16 (v : UInt16) : Bytes := BigEndian.encode 2 v.toNat

def byteAt (b : Bytes) (i : ℕ) : UInt8 := b.getD i 0
def uint32At (b : Bytes) (i : ℕ) : UInt32 :=
  UInt32.ofNat (BigEndian.decode ((b.drop i).take 4))
def uint16At (b : Bytes) (i : ℕ) : UInt16 :=
  UInt16.ofNat (BigEndian.decode ((b.drop i).take 2))

@[simp] theorem ofNat_decode_be32 (v : UInt32) :
    UInt32.ofNat (BigEndian.decode (be32 v)) = v := by
  have hv : v.toNat < 256 ^ 4 := v.toNat_lt
  rw [be32, BigEndian.decode_encode, Nat.mod_eq_of_lt hv, UInt32.ofNat_toNat]

@[simp] theorem ofNat_decode_be16 (v : UInt16) :
    UInt16.ofNat (BigEndian.decode (be16 v)) = v := by
  have hv : v.toNat < 256 ^ 2 := v.toNat_lt
  rw [be16, BigEndian.decode_encode, Nat.mod_eq_of_lt hv, UInt16.ofNat_toNat]

namespace SessionStruct

/-- `Marshal` stamps the current minute into the struct before it writes the bytes. -/
def stamp (ss : SessionStruct) (now : ℕ) : SessionStruct :=
  { ss with timestamp := unixMinutes now }

def marshal (ss : SessionStruct) (now : ℕ) : Bytes :=
  [ss.protocol.toByte, 0] ++ be32 (unixMinutes now) ++ be32 ss.sessionID ++ be32 ss.seq ++
    [ss.statusCode] ++ be16 ss.payloadLen ++ [ss.suffixLen] ++ List.replicate 14 0

def unmarshal (b : Bytes) (now : ℕ) : Except String SessionStruct := do
  let length := b.length
  ensure (length = metadataLength) s!"input bytes: {length}, want {metadataLength}"
  let first := byteAt b 0
  match ofByte first with
  | none => .error s!"invalid protocol {first}"
  | some p =>
    if hp : isSessionProtocol p = true then do
      let originalTimestamp := uint32At b 2
      let currentTimestamp := unixMinutes now
      let seconds := originalTimestamp * 60
      ensure (withinRange currentTimestamp originalTimestamp 1) s!"invalid timestamp {seconds}"
      let payloadLen := uint16At b 15
      ensure (payloadLen.toNat ≤ maxSessionOpenPayload)
        s!"payload size {payloadLen} exceed maximum value {maxSessionOpenPayload}"
      return {
        protocol := p
        timestamp := originalTimestamp
        sessionID := uint32At b 6
        seq := uint32At b 10
        statusCode := byteAt b 14
        payloadLen := payloadLen
        suffixLen := byteAt b 17
        isSession := hp }
    else .error s!"invalid protocol {first}"

@[simp] theorem length_marshal (ss : SessionStruct) (now : ℕ) :
    (ss.marshal now).length = metadataLength := rfl

@[simp] theorem byteAt_marshal (ss : SessionStruct) (now : ℕ) :
    byteAt (ss.marshal now) 0 = ss.protocol.toByte := rfl

theorem unmarshal_marshal {ss : SessionStruct} {now now' : ℕ}
    (hclock : withinRange (unixMinutes now') (unixMinutes now) 1 = true)
    (hlen : ss.payloadLen.toNat ≤ maxSessionOpenPayload) :
    unmarshal (ss.marshal now) now' = .ok (ss.stamp now) := by
  have htime : uint32At (ss.marshal now) 2 = unixMinutes now := ofNat_decode_be32 _
  have hid : uint32At (ss.marshal now) 6 = ss.sessionID := ofNat_decode_be32 _
  have hseq : uint32At (ss.marshal now) 10 = ss.seq := ofNat_decode_be32 _
  have hpay : uint16At (ss.marshal now) 15 = ss.payloadLen := ofNat_decode_be16 _
  have hstatus : byteAt (ss.marshal now) 14 = ss.statusCode := rfl
  have hsuffix : byteAt (ss.marshal now) 17 = ss.suffixLen := rfl
  simp only [unmarshal, length_marshal, ensure_true, ok_bind, byteAt_marshal, ofByte_toByte,
    ss.isSession, ↓reduceDIte, htime, hclock, hpay, hlen, hid, hseq, hstatus, hsuffix]
  rfl

end SessionStruct

def validateLowEntropyDataAckMetadata (das : DataAckStruct) : Except String Unit := do
  let protocol := das.protocol.toByte
  ensure (isLowEntropyProtocol das.protocol) s!"protocol {protocol} is not low entropy data"
  let extracted := das.extractedPayloadLen
  ensure (extracted.toNat ≤ maxPDU) s!"invalid extracted payload length {extracted}"
  let payloadLen := das.payloadLen
  ensure (payloadLen.toNat % lowEntropyChunkLen = 0)
    s!"invalid low entropy payload length {payloadLen}"
  let _ ← validateLowEntropyCodecParams das.lowEntropyMode.toNat das.lowEntropyMask
    das.lowEntropyMaskRotation.toNat
  if extracted = 0 then
    ensure (payloadLen = 0) s!"low entropy payload length is {payloadLen}, want 0"
  else do
    let expected ← lowEntropyEncodedPayloadLen extracted.toNat das.lowEntropyMode.toNat
    ensure (payloadLen = expected)
      s!"low entropy payload length is {payloadLen}, want {expected}"

/-- The mode, mask and rotation are valid, and the payload is as long as the mode makes it. -/
def LowEntropyFormed (mode rotation : UInt8) (mask : UInt32) (extracted payloadLen : UInt16) :
    Prop :=
  extracted.toNat ≤ maxPDU ∧ isValidLowEntropyRotation rotation.toNat = true ∧
    ∃ params, buildLowEntropyParams mode.toNat = .ok params ∧
      onesCount32 mask = params.halfMaskOnes ∧
      payloadLen.toNat = chunkCount extracted.toNat params.sourceBytesPerChunk * lowEntropyChunkLen

theorem validateLowEntropyDataAckMetadata_eq_ok {das : DataAckStruct} :
    validateLowEntropyDataAckMetadata das = .ok () ↔
      isLowEntropyProtocol das.protocol = true ∧
        LowEntropyFormed das.lowEntropyMode das.lowEntropyMaskRotation das.lowEntropyMask
          das.extractedPayloadLen das.payloadLen := by
  unfold validateLowEntropyDataAckMetadata LowEntropyFormed
  rw [ensure_bind_eq_ok, ensure_bind_eq_ok, ensure_bind_eq_ok]
  simp only [bind_eq_ok, validate_eq_ok]
  refine and_congr_right fun _ => and_congr_right fun _ => ?_
  constructor
  · rintro ⟨-, params, ⟨hbuild, hones, hrot⟩, h⟩
    refine ⟨hrot, params, hbuild, hones, ?_⟩
    split_ifs at h with hzero
    · rw [ensure_eq_ok.mp h, hzero]
      simp [chunkCount]
    · obtain ⟨expected, hexpected, heq⟩ := bind_eq_ok.mp h
      obtain ⟨-, hlen⟩ := (encodedPayloadLen_eq_ok hbuild).mp hexpected
      rw [ensure_eq_ok.mp heq]
      exact eq_encodedLen_iff.mp hlen
  · rintro ⟨hrot, params, hbuild, hones, hlen⟩
    refine ⟨hlen ▸ Nat.mul_mod_left _ _, params, ⟨hbuild, hones, hrot⟩, ?_⟩
    split_ifs with hzero
    · rw [ensure_eq_ok, ← UInt16.toNat_inj, hlen, hzero]
      simp [chunkCount]
    · refine bind_eq_ok.mpr ⟨das.payloadLen, ?_, ensure_eq_ok.mpr rfl⟩
      have hpos : das.extractedPayloadLen.toNat ≠ 0 := fun h => hzero (UInt16.toNat_inj.mp h)
      refine (encodedPayloadLen_eq_ok hbuild).mpr ⟨by omega, eq_encodedLen_iff.mpr hlen⟩

namespace DataAckStruct

def stamp (das : DataAckStruct) (now : ℕ) : DataAckStruct :=
  { das with timestamp := unixMinutes now }

/-- Bytes 25 to 31 are only defined for low entropy data. -/
def lowEntropyFields (das : DataAckStruct) : Bytes :=
  if isLowEntropyProtocol das.protocol then
    be32 das.lowEntropyMask ++ be16 das.extractedPayloadLen ++ [das.lowEntropyMaskRotation]
  else List.replicate 7 0

def marshal (das : DataAckStruct) (now : ℕ) : Bytes :=
  [das.protocol.toByte, if isLowEntropyProtocol das.protocol then das.lowEntropyMode else 0] ++
    be32 (unixMinutes now) ++ be32 das.sessionID ++ be32 das.seq ++ be32 das.unAckSeq ++
    be16 das.windowSize ++ [das.fragment, das.prefixLen] ++ be16 das.payloadLen ++
    [das.suffixLen] ++ das.lowEntropyFields

def unmarshal (b : Bytes) (now : ℕ) : Except String DataAckStruct := do
  let length := b.length
  ensure (length = metadataLength) s!"input bytes: {length}, want {metadataLength}"
  let first := byteAt b 0
  match ofByte first with
  | none => .error s!"invalid protocol {first}"
  | some p =>
    if hp : isDataAckProtocol p = true then do
      let originalTimestamp := uint32At b 2
      let currentTimestamp := unixMinutes now
      let seconds := originalTimestamp * 60
      ensure (withinRange currentTimestamp originalTimestamp 1) s!"invalid timestamp {seconds}"
      let plain : DataAckStruct := {
        protocol := p
        timestamp := originalTimestamp
        sessionID := uint32At b 6
        seq := uint32At b 10
        unAckSeq := uint32At b 14
        windowSize := uint16At b 18
        fragment := byteAt b 20
        prefixLen := byteAt b 21
        payloadLen := uint16At b 22
        suffixLen := byteAt b 24
        isDataAck := hp }
      if isLowEntropyProtocol p then do
        let candidate := { plain with
          lowEntropyMode := byteAt b 1
          lowEntropyMask := uint32At b 25
          extractedPayloadLen := uint16At b 29
          lowEntropyMaskRotation := byteAt b 31 }
        validateLowEntropyDataAckMetadata candidate
        return candidate
      else return plain
    else .error s!"invalid protocol {first}"

/-- What `Unmarshal` can give back: other protocols do not carry the low entropy fields. -/
def Carried (das : DataAckStruct) : Prop :=
  if isLowEntropyProtocol das.protocol = true then
    validateLowEntropyDataAckMetadata das = .ok ()
  else das.lowEntropyMode = 0 ∧ das.lowEntropyMask = 0 ∧ das.extractedPayloadLen = 0 ∧
    das.lowEntropyMaskRotation = 0

theorem length_lowEntropyFields (das : DataAckStruct) : das.lowEntropyFields.length = 7 := by
  unfold lowEntropyFields
  split_ifs <;> rfl

@[simp] theorem length_marshal (das : DataAckStruct) (now : ℕ) :
    (das.marshal now).length = metadataLength := by
  have h := das.length_lowEntropyFields
  simp only [marshal, be32, be16, List.length_append, BigEndian.length_encode, h]
  rfl

@[simp] theorem byteAt_marshal (das : DataAckStruct) (now : ℕ) :
    byteAt (das.marshal now) 0 = das.protocol.toByte := rfl

@[simp] theorem validate_stamp (das : DataAckStruct) (now : ℕ) :
    validateLowEntropyDataAckMetadata (das.stamp now) = validateLowEntropyDataAckMetadata das :=
  rfl

theorem unmarshal_marshal {das : DataAckStruct} {now now' : ℕ}
    (hclock : withinRange (unixMinutes now') (unixMinutes now) 1 = true) (hc : das.Carried) :
    unmarshal (das.marshal now) now' = .ok (das.stamp now) := by
  have htime : uint32At (das.marshal now) 2 = unixMinutes now := ofNat_decode_be32 _
  have hid : uint32At (das.marshal now) 6 = das.sessionID := ofNat_decode_be32 _
  have hseq : uint32At (das.marshal now) 10 = das.seq := ofNat_decode_be32 _
  have hack : uint32At (das.marshal now) 14 = das.unAckSeq := ofNat_decode_be32 _
  have hwin : uint16At (das.marshal now) 18 = das.windowSize := ofNat_decode_be16 _
  have hpay : uint16At (das.marshal now) 22 = das.payloadLen := ofNat_decode_be16 _
  have hfrag : byteAt (das.marshal now) 20 = das.fragment := rfl
  have hpre : byteAt (das.marshal now) 21 = das.prefixLen := rfl
  have hsuf : byteAt (das.marshal now) 24 = das.suffixLen := rfl
  simp only [unmarshal, length_marshal, ensure_true, ok_bind, byteAt_marshal, ofByte_toByte,
    das.isDataAck, ↓reduceDIte, htime, hclock, hid, hseq, hack, hwin, hpay, hfrag, hpre, hsuf]
  by_cases hlow : isLowEntropyProtocol das.protocol = true
  · have hmode : byteAt (das.marshal now) 1 = das.lowEntropyMode := by
      simp [marshal, byteAt, hlow]
    have hfields : das.lowEntropyFields = be32 das.lowEntropyMask ++
        be16 das.extractedPayloadLen ++ [das.lowEntropyMaskRotation] := if_pos hlow
    have hmask : uint32At (das.marshal now) 25 = das.lowEntropyMask := by
      rw [marshal, hfields]
      exact ofNat_decode_be32 _
    have hext : uint16At (das.marshal now) 29 = das.extractedPayloadLen := by
      rw [marshal, hfields]
      exact ofNat_decode_be16 _
    have hrot : byteAt (das.marshal now) 31 = das.lowEntropyMaskRotation := by
      rw [marshal, hfields]
      rfl
    rw [Carried, if_pos hlow, ← validate_stamp das now] at hc
    simp only [hlow, ↓reduceIte, hmode, hmask, hext, hrot]
    exact bind_eq_ok.mpr ⟨(), hc, rfl⟩
  · rw [Carried, if_neg hlow] at hc
    obtain ⟨hmode, hmask, hext, hrot⟩ := hc
    simp only [hlow, Bool.false_eq_true, ↓reduceIte, stamp, hmode, hmask, hext, hrot]
    rfl

end DataAckStruct

end Mieru.Protocol
