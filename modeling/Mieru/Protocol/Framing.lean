import Mieru.Lib.ByteBuffer
import Mieru.Protocol.Padding

/-! # Framing shared by both transports

Both underlays give a segment its padding, seal metadata and payload, spread a low
entropy payload, and lay the pieces out in one buffer. They differ in how the two
pieces are sealed. -/
namespace Mieru.Protocol

open ByteBuffer Cipher LowEntropy Mathext Result Rng

/-! ## Low entropy payloads -/

/-- Stable on a host for a given version. -/
def lowEntropyPaddingBit (host : Host) : UInt8 := UInt8.ofNat (host.fixedIntVH 2)

def newLowEntropyHalfMask (mode : LowEntropyMode) (draws : ℕ → ℕ) : Except Fault UInt32 := do
  let params ← lift (buildLowEntropyParams mode)
  uint32WithBits params.halfMaskOnes draws

def encodeLowEntropyPayload (host : Host) (src : Bytes) (mode : LowEntropyMode)
    (halfMask : UInt32) (rotation : LowEntropyMaskRotation) : Except String Bytes :=
  encodeLowEntropyPayloadWithPaddingBit src mode halfMask rotation (lowEntropyPaddingBit host)

/-- Only the ciphertext body is encoded; the tag behind it stays as it is. -/
def encodeLowEntropyEncryptedPayload (host : Host) (encryptedPayload : Bytes)
    (das : DataAckStruct) : Except String Bytes := do
  let extractedPayloadLen := das.extractedPayloadLen.toNat
  let expectedEncryptedLen := extractedPayloadLen + defaultOverhead
  let length := encryptedPayload.length
  ensure (length = expectedEncryptedLen)
    s!"encrypted payload length is {length}, want {expectedEncryptedLen}"
  let encodedBody ← encodeLowEntropyPayload host (encryptedPayload.take extractedPayloadLen)
    das.lowEntropyMode.toNat das.lowEntropyMask das.lowEntropyMaskRotation.toNat
  let encodedLen := encodedBody.length
  let payloadLen := das.payloadLen
  ensure (encodedLen = payloadLen.toNat)
    s!"encoded payload length is {encodedLen}, want {payloadLen}"
  return encodedBody ++ encryptedPayload.drop extractedPayloadLen

def decodeLowEntropyEncryptedPayload (encryptedPayload : Bytes) (das : DataAckStruct) :
    Except String Bytes := do
  validateLowEntropyDataAckMetadata das
  let wirePayloadLen := das.payloadLen.toNat + defaultOverhead
  let length := encryptedPayload.length
  ensure (length = wirePayloadLen)
    s!"low entropy encrypted payload length is {length}, want {wirePayloadLen}"
  let decodedBody ← decodeLowEntropyPayload (encryptedPayload.take das.payloadLen.toNat)
    das.extractedPayloadLen.toNat das.lowEntropyMode.toNat das.lowEntropyMask
    das.lowEntropyMaskRotation.toNat
  return decodedBody ++ encryptedPayload.drop das.payloadLen.toNat

/-- Checks the metadata made by the session and draws the mask of this transmission. -/
def prepareLowEntropyDataAckForSend (das : DataAckStruct) (plaintextPayloadLen : ℕ)
    (draws : ℕ → ℕ) : Except Fault DataAckStruct := do
  let protocol := das.protocol.toByte
  ensure (isLowEntropyProtocol das.protocol)
    (.failed s!"protocol {protocol} is not low entropy data")
  let extracted := das.extractedPayloadLen
  ensure (plaintextPayloadLen = extracted.toNat)
    (.failed s!"plaintext payload length is {plaintextPayloadLen}, want {extracted}")
  let mode : LowEntropyMode := das.lowEntropyMode.toNat
  let expectedPayloadLen ← lift (lowEntropyEncodedPayloadLen plaintextPayloadLen mode)
  let payloadLen := das.payloadLen
  ensure (payloadLen = expectedPayloadLen)
    (.failed s!"low entropy payload length is {payloadLen}, want {expectedPayloadLen}")
  let rotation : LowEntropyMaskRotation := das.lowEntropyMaskRotation.toNat
  ensure (isValidLowEntropyRotation rotation)
    (.failed s!"invalid low entropy mask rotation {rotation}")
  let mask ← newLowEntropyHalfMask mode draws
  let das := { das with lowEntropyMask := mask }
  lift (validateLowEntropyDataAckMetadata das)
  return das

theorem decode_encodeLowEntropyEncryptedPayload {das : DataAckStruct} (host : Host)
    (hvalid : validateLowEntropyDataAckMetadata das = .ok ()) (hne : das.extractedPayloadLen ≠ 0)
    {encryptedPayload : Bytes}
    (hlen : encryptedPayload.length = das.extractedPayloadLen.toNat + defaultOverhead) :
    ∃ wirePayload, encodeLowEntropyEncryptedPayload host encryptedPayload das = .ok wirePayload ∧
      wirePayload.length = das.payloadLen.toNat + defaultOverhead ∧
      decodeLowEntropyEncryptedPayload wirePayload das = .ok encryptedPayload := by
  obtain ⟨-, -, hrot, params, hbuild, hones, hwire⟩ :=
    validateLowEntropyDataAckMetadata_eq_ok.mp hvalid
  rw [lowEntropyChunkLen] at hwire
  have hparams := validate_eq_ok.mpr ⟨hbuild, hones, hrot⟩
  have hcount := (eq_encodedLen_iff.mpr hwire).1
  have hpos : das.extractedPayloadLen.toNat ≠ 0 := fun h => hne (UInt16.toNat_inj.mp h)
  have hbody : (encryptedPayload.take das.extractedPayloadLen.toNat).length =
      das.extractedPayloadLen.toNat := by
    rw [List.length_take]
    omega
  have hbodyne : encryptedPayload.take das.extractedPayloadLen.toNat ≠ [] := by
    rw [← List.length_pos_iff, hbody]
    omega
  have hbit : lowEntropyPaddingBit host ≤ 1 := by
    have hlt : host.fixedIntVH 2 < 2 := host.fixedIntV_lt _ (by decide)
    rw [UInt8.le_iff_toNat_le, lowEntropyPaddingBit, UInt8.toNat_ofNat']
    change host.fixedIntVH 2 % 256 ≤ 1
    omega
  obtain ⟨encoded, hencode, henclen, hdecode⟩ :=
    decode_encode hparams hbit hbodyne (by rwa [hbody])
  rw [hbody] at henclen hdecode
  have htag : (encryptedPayload.drop das.extractedPayloadLen.toNat).length = defaultOverhead := by
    rw [List.length_drop]
    omega
  have hwirelen : (encoded ++ encryptedPayload.drop das.extractedPayloadLen.toNat).length =
      das.payloadLen.toNat + defaultOverhead := by
    rw [List.length_append, henclen, htag, hwire]
  refine ⟨_, ?_, hwirelen, ?_⟩
  · simp only [encodeLowEntropyEncryptedPayload, encodeLowEntropyPayload, hlen, hencode, ok_bind,
      ensure_true, henclen, hwire]
    rfl
  · simp only [decodeLowEntropyEncryptedPayload, hvalid, hwirelen, ok_bind, ensure_true]
    rw [hwire, ← henclen, List.take_left, List.drop_left, hdecode, ok_bind]
    exact congrArg Except.ok (List.take_append_drop _ _)

/-! ## Padding -/

structure FramingConfig where
  mtu : ℤ
  transportProtocol : TransportProtocol
  trafficPattern : Option TrafficPattern
  host : Host

/-- What chance decides about one outgoing segment, and what a reused buffer still holds. -/
structure Draws where
  nonce : Nonce
  halfMask : ℕ → ℕ
  padding1 : PaddingDraw
  padding2 : PaddingDraw
  stale : ℕ → UInt8

namespace FramingConfig

variable (f : FramingConfig)

def maxPadding (fragmentSize existingPaddingSize : ℕ) (position : PaddingPosition) : ℕ :=
  maxPaddingSizeWithTrafficPattern f.mtu f.transportProtocol fragmentSize existingPaddingSize
    f.trafficPattern position

def padSession (ss : SessionStruct) (userName : String) (draws : Draws) :
    Except Fault (SessionStruct × Bytes) := do
  let maxPaddingSize := f.maxPadding ss.payloadLen.toNat 0 .endPadding
  let padding ← newPadding (buildRecommendedPaddingOpts f.host maxPaddingSize userName)
    draws.padding2
  return ({ ss with suffixLen := UInt8.ofNat padding.length }, padding)

def padDataAck (das : DataAckStruct) (draws : Draws) :
    Except Fault (DataAckStruct × Bytes × Bytes) := do
  let maxLen1 := f.maxPadding das.payloadLen.toNat 0 .middlePadding
  let padding1 ← newPadding { maxLen := maxLen1, ascii := some {} } draws.padding1
  let maxLen2 := f.maxPadding das.payloadLen.toNat padding1.length .endPadding
  let padding2 ← newPadding { maxLen := maxLen2, ascii := some {} } draws.padding2
  return ({ das with
    prefixLen := UInt8.ofNat padding1.length
    suffixLen := UInt8.ofNat padding2.length }, padding1, padding2)

/-- The part of `writeOneSegment` before the buffer is laid out, for data and
acknowledgements. -/
def prepareDataAck (das : DataAckStruct) (payload : Bytes) (draws : Draws) :
    Except Fault (DataAckStruct × Bytes × Bytes) := do
  let das ← if isLowEntropyProtocol das.protocol then
      inContext "prepare low entropy payload failed"
        (prepareLowEntropyDataAckForSend das payload.length draws.halfMask)
    else .ok das
  f.padDataAck das draws

end FramingConfig

def expandPayload (host : Host) (das : DataAckStruct) : Option (Bytes → Except Fault Bytes) :=
  if isLowEntropyProtocol das.protocol then
    some fun encryptedPayload => inContext "encode low entropy payload failed"
      (lift (encodeLowEntropyEncryptedPayload host encryptedPayload das))
  else none

def shrinkPayload (das : DataAckStruct) (wirePayload : Bytes) : Except String Bytes :=
  if isLowEntropyProtocol das.protocol then
    (decodeLowEntropyEncryptedPayload wirePayload das).mapError
      fun err => s!"decode low entropy payload failed: {err}"
  else .ok wirePayload

/-! ## The buffer -/

/-- How the two pieces are sealed into a destination with a given room. The payload may
depend on what sealing the metadata left behind. -/
structure Sealers (σ : Type) where
  metadata (room : ℕ) : Except Fault (σ × Bytes)
  payload (s : σ) (room : ℕ) : Except Fault (σ × Bytes)

structure Layout where
  encryptedMetadataLen : ℕ
  wirePayloadLen : ℕ
  padding1 : Bytes
  padding2 : Bytes

def Layout.size (layout : Layout) : ℕ :=
  layout.encryptedMetadataLen + layout.padding1.length + layout.wirePayloadLen +
    layout.padding2.length

/-- The low entropy coding works on what is already in the buffer. -/
def expandInPlace (expand : Option (Bytes → Except Fault Bytes)) (dataToSend : Bytes)
    (offset encryptedPayloadLen : ℕ) : Except Fault Bytes :=
  match expand with
  | none => .ok dataToSend
  | some encode => do
    let wirePayload ← encode ((dataToSend.drop offset).take encryptedPayloadLen)
    return copyAt dataToSend offset wirePayload

/-- The buffer comes from a pool and is not cleared. -/
def fillBuffer {σ : Type} (sealers : Sealers σ) (stale : ℕ → UInt8) (layout : Layout)
    (payload : Bytes) (expand : Option (Bytes → Except Fault Bytes)) :
    Except Fault (σ × Bytes) := do
  let dataToSend := (List.range layout.size).map stale
  let (s, encryptedMetadata) ← sealers.metadata layout.size
  let dataToSend := copyAt dataToSend 0 encryptedMetadata
  let offset := layout.encryptedMetadataLen
  let dataToSend := copyAt dataToSend offset layout.padding1
  let offset := offset + layout.padding1.length
  if payload = [] then return (s, copyAt dataToSend offset layout.padding2)
  else do
    let (s, encryptedPayload) ← sealers.payload s (layout.size - offset)
    let dataToSend := copyAt dataToSend offset encryptedPayload
    let dataToSend ← expandInPlace expand dataToSend offset (payload.length + defaultOverhead)
    return (s, copyAt dataToSend (offset + layout.wirePayloadLen) layout.padding2)

section Fill

variable {σ : Type} {sealers : Sealers σ} {layout : Layout} {s s' : σ}
  {encryptedMetadata payload encryptedPayload wirePayload : Bytes}
  {expand : Option (Bytes → Except Fault Bytes)}

theorem holds_front (stale : ℕ → UInt8)
    (hlen : encryptedMetadata.length = layout.encryptedMetadataLen) :
    Holds (copyAt (copyAt ((List.range layout.size).map stale) 0 encryptedMetadata)
      layout.encryptedMetadataLen layout.padding1) layout.size
      (encryptedMetadata ++ layout.padding1) := by
  have h := holds_nil ((List.range layout.size).map stale)
  rw [List.length_map, List.length_range] at h
  have hmeta := h.copyAt encryptedMetadata (by
    rw [List.length_nil, Layout.size]
    omega)
  have hpadding := hmeta.copyAt layout.padding1 (by
    rw [List.nil_append, Layout.size]
    omega)
  rwa [List.nil_append, List.length_nil, hlen] at hpadding

theorem fillBuffer_nil (stale : ℕ → UInt8) (expand : Option (Bytes → Except Fault Bytes))
    (hmeta : ∀ room, layout.encryptedMetadataLen ≤ room →
      sealers.metadata room = .ok (s, encryptedMetadata))
    (hlen : encryptedMetadata.length = layout.encryptedMetadataLen)
    (hwire : layout.wirePayloadLen = 0) :
    fillBuffer sealers stale layout [] expand =
      .ok (s, encryptedMetadata ++ layout.padding1 ++ layout.padding2) := by
  have hfront : (encryptedMetadata ++ layout.padding1).length =
      layout.encryptedMetadataLen + layout.padding1.length := by
    rw [List.length_append, hlen]
  have hfull := (holds_front stale hlen).copyAt layout.padding2 (by
    rw [hfront, Layout.size]
    omega)
  have heq := hfull.eq (by
    rw [List.length_append, hfront, Layout.size]
    omega)
  rw [hfront] at heq
  have hsealed := hmeta layout.size (by rw [Layout.size]; omega)
  simp only [fillBuffer, hsealed, ok_bind, ↓reduceIte, heq]
  rfl

def Expands (expand : Option (Bytes → Except Fault Bytes)) (encryptedPayload wirePayload : Bytes) :
    Prop :=
  match expand with
  | none => wirePayload = encryptedPayload
  | some encode => encode encryptedPayload = .ok wirePayload

theorem expandInPlace_ok {buf front : Bytes} {size : ℕ}
    (h : Holds buf size (front ++ encryptedPayload))
    (hexpand : Expands expand encryptedPayload wirePayload)
    (hfit : front.length + wirePayload.length ≤ size) :
    ∃ buf', expandInPlace expand buf front.length encryptedPayload.length = .ok buf' ∧
      Holds buf' size (front ++ wirePayload) := by
  cases expand with
  | none =>
    have hsame : wirePayload = encryptedPayload := hexpand
    exact ⟨buf, rfl, hsame ▸ h⟩
  | some encode =>
    have hencode : encode encryptedPayload = .ok wirePayload := hexpand
    refine ⟨copyAt buf front.length wirePayload, ?_, h.left.copyAt wirePayload hfit⟩
    simp only [expandInPlace, h.slice, hencode, ok_bind]
    rfl

theorem fillBuffer_eq (stale : ℕ → UInt8) (hne : payload ≠ [])
    (hmeta : ∀ room, layout.encryptedMetadataLen ≤ room →
      sealers.metadata room = .ok (s, encryptedMetadata))
    (hlen : encryptedMetadata.length = layout.encryptedMetadataLen)
    (hpayload : ∀ room, payload.length + defaultOverhead ≤ room →
      sealers.payload s room = .ok (s', encryptedPayload))
    (hsealed : encryptedPayload.length = payload.length + defaultOverhead)
    (hexpand : Expands expand encryptedPayload wirePayload)
    (hle : encryptedPayload.length ≤ wirePayload.length)
    (hwire : wirePayload.length = layout.wirePayloadLen) :
    fillBuffer sealers stale layout payload expand =
      .ok (s', encryptedMetadata ++ layout.padding1 ++ wirePayload ++ layout.padding2) := by
  have hsize : layout.size = layout.encryptedMetadataLen + layout.padding1.length +
      layout.wirePayloadLen + layout.padding2.length := rfl
  have hfront : (encryptedMetadata ++ layout.padding1).length =
      layout.encryptedMetadataLen + layout.padding1.length := by
    rw [List.length_append, hlen]
  have hpacked := (holds_front stale hlen).copyAt encryptedPayload (by omega)
  obtain ⟨buf, hbuf, hholds⟩ := expandInPlace_ok hpacked hexpand (by omega)
  have hfull := hholds.copyAt layout.padding2 (by
    rw [List.length_append]
    omega)
  have heq := hfull.eq (by
    rw [List.length_append, List.length_append]
    omega)
  rw [List.length_append, hfront, hwire] at heq
  rw [hfront, hsealed] at hbuf
  have hsealedMeta := hmeta layout.size (by omega)
  have hsealedPayload := hpayload
    (layout.size - (layout.encryptedMetadataLen + layout.padding1.length)) (by omega)
  simp only [fillBuffer, hsealedMeta, ok_bind, hne, ↓reduceIte, hsealedPayload, hbuf, heq]
  rfl

end Fill

/-! ## Segments that can be sent -/

/-- The length fields agree with the payload and the low entropy fields are usable. -/
def Framable (p : Packet) : Prop :=
  match p.metadata with
  | .session ss =>
    ss.payloadLen.toNat = p.payload.length ∧ p.payload.length ≤ maxSessionOpenPayload
  | .dataAck das =>
    if isLowEntropyProtocol das.protocol then
      das.extractedPayloadLen.toNat = p.payload.length ∧ p.payload.length ≤ maxPDU ∧
      lowEntropyEncodedPayloadLen p.payload.length das.lowEntropyMode.toNat =
        .ok das.payloadLen ∧
      isValidLowEntropyRotation das.lowEntropyMaskRotation.toNat = true
    else
      das.payloadLen.toNat = p.payload.length ∧ das.lowEntropyMode = 0 ∧
      das.lowEntropyMask = 0 ∧ das.extractedPayloadLen = 0 ∧ das.lowEntropyMaskRotation = 0

theorem framable_content (p : Packet) : Framable ⟨p.metadata.content, p.payload⟩ ↔ Framable p := by
  cases hm : p.metadata with
  | session ss => simp only [Framable, Metadata.content, hm]
  | dataAck das =>
    by_cases hlow : isLowEntropyProtocol das.protocol = true
    · simp only [Framable, Metadata.content, hm, hlow, ↓reduceIte]
    · simp only [Framable, Metadata.content, hm, hlow, Bool.false_eq_true, ↓reduceIte]

theorem Framable.plain {das : DataAckStruct} {payload : Bytes}
    (h : Framable ⟨.dataAck das, payload⟩) (hlow : isLowEntropyProtocol das.protocol = false) :
    das.payloadLen.toNat = payload.length := by
  simp only [Framable, hlow, Bool.false_eq_true, ↓reduceIte] at h
  exact h.1

theorem Framable.ne_nil {das : DataAckStruct} {payload : Bytes}
    (h : Framable ⟨.dataAck das, payload⟩) (hlow : isLowEntropyProtocol das.protocol = true) :
    payload ≠ [] := by
  simp only [Framable, hlow, ↓reduceIte] at h
  obtain ⟨-, -, hlen, -⟩ := h
  obtain ⟨params, hbuild, -⟩ := bind_eq_ok.mp hlen
  have hpos := ((encodedPayloadLen_eq_ok hbuild).mp hlen).1
  exact List.length_pos_iff.mp (Int.natCast_pos.mp hpos)

structure Padded (field : UInt8) (padding : Bytes) (bound : ℕ) : Prop where
  length_eq : field.toNat = padding.length
  length_le : padding.length ≤ bound

namespace FramingConfig

variable (f : FramingConfig)

theorem padded_of_le {padding : Bytes} {fragmentSize existingPaddingSize : ℕ}
    (position : PaddingPosition)
    (h : padding.length ≤ f.maxPadding fragmentSize existingPaddingSize position) :
    Padded (UInt8.ofNat padding.length) padding
      (maxPaddingSize f.mtu f.transportProtocol fragmentSize existingPaddingSize) := by
  have hle := h.trans (maxPaddingSizeWithTrafficPattern_le _ _ _ _ _ _)
  have hbyte := hle.trans (maxPaddingSize_le _ _ _ _)
  refine ⟨?_, hle⟩
  rw [UInt8.toNat_ofNat']
  exact Nat.mod_eq_of_lt (by omega)

theorem padSession_ok (ss : SessionStruct) (userName : String) (draws : Draws) :
    ∃ padding suffixLen, f.padSession ss userName draws =
        .ok ({ ss with suffixLen := suffixLen }, padding) ∧
      Padded suffixLen padding
        (maxPaddingSize f.mtu f.transportProtocol ss.payloadLen.toNat 0) := by
  obtain ⟨padding, hpadding, hle⟩ := newPadding_ok
    (usable_recommended f.host (f.maxPadding ss.payloadLen.toNat 0 .endPadding) userName)
    draws.padding2
  rw [maxLen_recommended] at hle
  refine ⟨padding, _, ?_, f.padded_of_le .endPadding hle⟩
  simp only [padSession, hpadding, ok_bind]
  rfl

theorem padDataAck_ok (das : DataAckStruct) (draws : Draws) :
    ∃ padding1 padding2 prefixLen suffixLen, f.padDataAck das draws =
        .ok ({ das with prefixLen := prefixLen, suffixLen := suffixLen }, padding1, padding2) ∧
      Padded prefixLen padding1
        (maxPaddingSize f.mtu f.transportProtocol das.payloadLen.toNat 0) ∧
      Padded suffixLen padding2
        (maxPaddingSize f.mtu f.transportProtocol das.payloadLen.toNat padding1.length) := by
  have husable (maxLen : ℕ) :
      PaddingOpts.Usable { maxLen := maxLen, ascii := some {} } := Nat.zero_le _
  obtain ⟨padding1, hpadding1, hle1⟩ := newPadding_ok
    (husable (f.maxPadding das.payloadLen.toNat 0 .middlePadding)) draws.padding1
  obtain ⟨padding2, hpadding2, hle2⟩ := newPadding_ok
    (husable (f.maxPadding das.payloadLen.toNat padding1.length .endPadding)) draws.padding2
  refine ⟨padding1, padding2, _, _, ?_, f.padded_of_le .middlePadding hle1,
    f.padded_of_le .endPadding hle2⟩
  simp only [padDataAck, hpadding1, ok_bind, hpadding2]
  rfl

end FramingConfig

theorem prepareLowEntropyDataAckForSend_ok {das : DataAckStruct} {n : ℕ}
    (hlow : isLowEntropyProtocol das.protocol = true) (hext : das.extractedPayloadLen.toNat = n)
    (hpdu : n ≤ maxPDU)
    (hlen : lowEntropyEncodedPayloadLen n das.lowEntropyMode.toNat = .ok das.payloadLen)
    (hrot : isValidLowEntropyRotation das.lowEntropyMaskRotation.toNat = true) (draws : ℕ → ℕ) :
    ∃ mask, prepareLowEntropyDataAckForSend das n draws =
        .ok { das with lowEntropyMask := mask } ∧
      validateLowEntropyDataAckMetadata { das with lowEntropyMask := mask } = .ok () := by
  obtain ⟨params, hbuild, -⟩ := bind_eq_ok.mp hlen
  obtain ⟨hpos, hcount, hpayloadLen⟩ := (encodedPayloadLen_eq_ok hbuild).mp hlen
  have hones : params.halfMaskOnes ≤ 32 := by
    have := params.ones_eq
    have := params.source_lt
    omega
  obtain ⟨mask, hmask, hcount32⟩ := uint32WithBits_ok draws hones
  have hvalid : validateLowEntropyDataAckMetadata { das with lowEntropyMask := mask } = .ok () := by
    refine validateLowEntropyDataAckMetadata_eq_ok.mpr
      ⟨hlow, hext ▸ hpdu, hrot, params, hbuild, hcount32, ?_⟩
    rw [hext]
    exact eq_encodedLen_iff.mp ⟨hcount, hpayloadLen⟩
  refine ⟨mask, ?_, hvalid⟩
  simp only [prepareLowEntropyDataAckForSend, newLowEntropyHalfMask, hlow, hext, hlen, hrot, hbuild,
    hmask, hvalid, ensure_true, lift_ok, ok_bind]
  rfl

structure PreparedDataAck (f : FramingConfig) (p : Packet) (das : DataAckStruct)
    (padding1 padding2 : Bytes) : Prop where
  content : (Metadata.dataAck das).content = p.metadata.content
  framable : Framable ⟨.dataAck das, p.payload⟩
  carried : das.Carried
  front : Padded das.prefixLen padding1
    (maxPaddingSize f.mtu f.transportProtocol das.payloadLen.toNat 0)
  back : Padded das.suffixLen padding2
    (maxPaddingSize f.mtu f.transportProtocol das.payloadLen.toNat padding1.length)

theorem FramingConfig.prepareDataAck_ok (f : FramingConfig) {p : Packet} {das : DataAckStruct}
    (hm : p.metadata = .dataAck das) (h : Framable p) (draws : Draws) :
    ∃ das' padding1 padding2,
      f.prepareDataAck das p.payload draws = .ok (das', padding1, padding2) ∧
      PreparedDataAck f p das' padding1 padding2 := by
  by_cases hlow : isLowEntropyProtocol das.protocol = true
  · simp only [Framable, hm, hlow, ↓reduceIte] at h
    obtain ⟨hext, hpdu, hlen, hrot⟩ := h
    obtain ⟨mask, hprepare, hvalid⟩ :=
      prepareLowEntropyDataAckForSend_ok hlow hext hpdu hlen hrot draws.halfMask
    obtain ⟨padding1, padding2, prefixLen, suffixLen, hpad, hfront, hback⟩ :=
      f.padDataAck_ok { das with lowEntropyMask := mask } draws
    refine ⟨{ das with
      lowEntropyMask := mask, prefixLen := prefixLen, suffixLen := suffixLen }, padding1, padding2,
      ?_, ?_, ?_, ?_, hfront, hback⟩
    · simp only [prepareDataAck, hlow, ↓reduceIte, hprepare, inContext_ok, ok_bind, hpad]
    · simp only [hm, Metadata.content, hlow, ↓reduceIte]
    · simp only [Framable, hlow, ↓reduceIte]
      exact ⟨hext, hpdu, hlen, hrot⟩
    · simp only [DataAckStruct.Carried, hlow, ↓reduceIte]
      exact hvalid
  · simp only [Framable, hm, hlow, Bool.false_eq_true, ↓reduceIte] at h
    obtain ⟨padding1, padding2, prefixLen, suffixLen, hpad, hfront, hback⟩ :=
      f.padDataAck_ok das draws
    refine ⟨{ das with prefixLen := prefixLen, suffixLen := suffixLen }, padding1, padding2,
      ?_, ?_, ?_, ?_, hfront, hback⟩
    · simp only [prepareDataAck, hlow, Bool.false_eq_true, ↓reduceIte, ok_bind, hpad]
    · rw [hm]
      rfl
    · simp only [Framable, hlow, Bool.false_eq_true, ↓reduceIte]
      exact h
    · simp only [DataAckStruct.Carried, hlow, Bool.false_eq_true, ↓reduceIte]
      exact h.2

theorem expandPayload_ok {das : DataAckStruct} {payload encryptedPayload : Bytes} (host : Host)
    (h : Framable ⟨.dataAck das, payload⟩) (hcarried : das.Carried) (hne : payload ≠ [])
    (hsealed : encryptedPayload.length = payload.length + defaultOverhead) :
    ∃ wirePayload, Expands (expandPayload host das) encryptedPayload wirePayload ∧
      wirePayload.length = das.payloadLen.toNat + defaultOverhead ∧
      encryptedPayload.length ≤ wirePayload.length ∧
      shrinkPayload das wirePayload = .ok encryptedPayload := by
  by_cases hlow : isLowEntropyProtocol das.protocol = true
  · simp only [Framable, hlow, ↓reduceIte] at h
    simp only [DataAckStruct.Carried, hlow, ↓reduceIte] at hcarried
    obtain ⟨hext, hpdu, hlen, hrot⟩ := h
    have hpos := List.length_pos_of_ne_nil hne
    have hextne : das.extractedPayloadLen ≠ 0 := by
      intro hzero
      rw [hzero] at hext
      exact absurd hext (Nat.ne_of_lt hpos)
    obtain ⟨wirePayload, hencode, hwirelen, hdecode⟩ :=
      decode_encodeLowEntropyEncryptedPayload host hcarried hextne (hext ▸ hsealed)
    have hroom : payload.length ≤ das.payloadLen.toNat := le_encodedPayloadLen hlen
    refine ⟨wirePayload, ?_, hwirelen, by omega, ?_⟩
    · simp only [Expands, expandPayload, hlow, ↓reduceIte, hencode, lift_ok, inContext_ok]
    · simp only [shrinkPayload, hlow, ↓reduceIte, hdecode]
      rfl
  · simp only [Framable, hlow, Bool.false_eq_true, ↓reduceIte] at h
    refine ⟨encryptedPayload, ?_, by omega, Nat.le_refl _, ?_⟩
    · simp only [Expands, expandPayload, hlow, Bool.false_eq_true, ↓reduceIte]
    · simp only [shrinkPayload, hlow, Bool.false_eq_true, ↓reduceIte]

end Mieru.Protocol
