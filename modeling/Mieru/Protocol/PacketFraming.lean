import Mieru.Protocol.Framing

/-! # Datagrams

A datagram is the sealed metadata with its nonce in front, the middle padding, the
payload sealed under the same nonce, and the end padding. -/
namespace Mieru.Protocol

open ByteBuffer Cipher LowEntropy Mathext Result Rng ProtocolType

structure Datagram where
  metadata : Metadata
  padding1 : Bytes
  padding2 : Bytes
  bytes : Bytes

/-- The nonce is read back from the front of the sealed metadata. -/
def packetSealers (block : BlockCipher) (fresh : Nonce) (plaintextMetadata payload : Bytes) :
    Sealers Bytes where
  metadata room := do
    let (_, sealed) ← inContext "Encrypt() failed"
      (lift (block.encrypt room fresh plaintextMetadata))
    return (sealed.bytes.take defaultNonceSize, sealed.bytes)
  payload nonce room := do
    let bytes ← inContext "EncryptWithNonce() failed"
      (lift (block.encryptWithNonce room nonce payload))
    return (nonce, bytes)

def wirePayloadLen (payload : Bytes) (payloadLen : ℕ) : ℕ :=
  if payload = [] then 0 else payloadLen + defaultOverhead

def buildDatagram (f : FramingConfig) (block : BlockCipher) (packet : Packet) (draws : Draws)
    (now : ℕ) : Except Fault Datagram :=
  let encryptedMetadataLen := metadataLength + defaultNonceSize + block.aead.overhead
  match packet.metadata with
  | .session ss => do
    let (ss, padding) ← f.padSession ss block.userName draws
    let layout : Layout :=
      ⟨encryptedMetadataLen, wirePayloadLen packet.payload packet.payload.length, [], padding⟩
    let (_, dataToSend) ← fillBuffer
      (packetSealers block draws.nonce (ss.marshal now) packet.payload) draws.stale layout
      packet.payload none
    return ⟨.session (ss.stamp now), [], padding, dataToSend⟩
  | .dataAck das => do
    let (das, padding1, padding2) ← f.prepareDataAck das packet.payload draws
    let lowEntropy := isLowEntropyProtocol das.protocol
    let payloadLen := if lowEntropy then das.payloadLen.toNat else packet.payload.length
    let layout : Layout :=
      ⟨encryptedMetadataLen, wirePayloadLen packet.payload payloadLen, padding1, padding2⟩
    let (_, dataToSend) ← fillBuffer
      (packetSealers block draws.nonce (das.marshal now) packet.payload) draws.stale layout
      packet.payload (expandPayload f.host das)
    let length := dataToSend.length
    let mtu := f.mtu
    ensure (¬(lowEntropy ∧ length > mtu))
      (.failed s!"low entropy datagram length {length} exceeds MTU {mtu}")
    return ⟨.dataAck (das.stamp now), padding1, padding2, dataToSend⟩

/-! ## Reading a datagram -/

def decryptPayload (block : BlockCipher) (encryptedPayload nonce : Bytes) :
    Except String Bytes :=
  (block.decryptWithNonce encryptedPayload nonce).mapError
    fun err => s!"DecryptWithNonce() failed: {err}"

def parseSessionSegment (block : BlockCipher) (ss : SessionStruct) (nonce remaining : Bytes) :
    Except String Packet :=
  if ss.payloadLen > 0 then do
    ensure (ss.payloadLen.toNat + defaultOverhead ≤ remaining.length)
      "payload: received incomplete packet"
    -- the sum is one of 16-bit numbers here
    let encryptedPayload := remaining.take (ss.payloadLen + UInt16.ofNat defaultOverhead).toNat
    let decryptedPayload ← decryptPayload block encryptedPayload nonce
    ensure (ss.payloadLen.toNat + defaultOverhead + ss.suffixLen.toNat = remaining.length)
      "padding: size not match"
    return ⟨.session ss, decryptedPayload⟩
  else do
    ensure (ss.suffixLen.toNat = remaining.length) "padding: size not match"
    return ⟨.session ss, []⟩

def checkLowEntropy (das : DataAckStruct) : Except String Unit :=
  if isLowEntropyProtocol das.protocol then validateLowEntropyDataAckMetadata das else .ok ()

def parseDataAckSegment (block : BlockCipher) (das : DataAckStruct) (nonce remaining : Bytes) :
    Except String Packet := do
  checkLowEntropy das
  let prefixLen := das.prefixLen
  let length := remaining.length
  ensure (prefixLen.toNat ≤ length)
    s!"padding: prefix length {prefixLen} exceeds remaining packet size {length}"
  let remaining := remaining.drop prefixLen.toNat
  if das.payloadLen > 0 then do
    let wirePayloadLen := das.payloadLen.toNat + defaultOverhead
    ensure (wirePayloadLen ≤ remaining.length) "payload: received incomplete packet"
    ensure (remaining.length = wirePayloadLen + das.suffixLen.toNat) "padding: size not match"
    let encryptedPayload ← shrinkPayload das (remaining.take wirePayloadLen)
    let decryptedPayload ← decryptPayload block encryptedPayload nonce
    return ⟨.dataAck das, decryptedPayload⟩
  else do
    ensure (das.suffixLen.toNat = remaining.length) "padding: size not match"
    return ⟨.dataAck das, []⟩

/-- The part of `readOneSegment` after the metadata was decrypted. -/
def parseSegment (block : BlockCipher) (now : ℕ) (decryptedMeta nonce remaining : Bytes) :
    Except String Packet := do
  let size := decryptedMeta.length
  ensure (size = metadataLength) s!"decrypted metadata size {size} is unexpected"
  let p := byteAt decryptedMeta 0
  match ofByte p with
  | none => .error s!"unable to handle unknown protocol {p}"
  | some protocol =>
    if isSessionProtocol protocol then do
      let ss ← (SessionStruct.unmarshal decryptedMeta now).mapError
        fun err => s!"Unmarshal() to sessionStruct failed: {err}"
      parseSessionSegment block ss nonce remaining
    else if isDataAckProtocol protocol then do
      let das ← (DataAckStruct.unmarshal decryptedMeta now).mapError
        fun err => s!"Unmarshal() to dataAckStruct failed: {err}"
      parseDataAckSegment block das nonce remaining
    else .error s!"unable to handle unknown protocol {p}"

def maxDatagramSize : ℕ := 1500

/-- What arrives is cut to the size of the receive buffer. -/
def parseDatagram (block : BlockCipher) (now : ℕ) (datagram : Bytes) : Except String Packet := do
  let b := datagram.take maxDatagramSize
  let n := b.length
  ensure (packetNonHeaderPosition ≤ n)
    s!"received packet with only {n} bytes, which is too short"
  let encryptedMeta := b.take packetNonHeaderPosition
  let opened ← (block.decrypt encryptedMeta).2
  parseSegment block now opened.bytes (encryptedMeta.take defaultNonceSize)
    (b.drop packetNonHeaderPosition)

/-! ## What is built can be read -/

def datagramBytes (block : BlockCipher) (fresh : Nonce)
    (plaintextMetadata padding1 wirePayload padding2 : Bytes) : Bytes :=
  fresh.val ++ block.aead.sealBytes fresh.val plaintextMetadata ++ padding1 ++ wirePayload ++
    padding2

section RoundTrip

variable {block receiver : BlockCipher} {fresh : Nonce} {payload : Bytes}

theorem packetSealers_metadata (hblock : block.enableImplicitNonce = false) (payload : Bytes)
    {plaintextMetadata : Bytes} {room : ℕ} (hlen : plaintextMetadata.length = metadataLength)
    (hroom : metadataLength + defaultNonceSize + block.aead.overhead ≤ room) :
    (packetSealers block fresh plaintextMetadata payload).metadata room =
      .ok (fresh.val, fresh.val ++ block.aead.sealBytes fresh.val plaintextMetadata) := by
  have hfit : plaintextMetadata.length + defaultOverhead + defaultNonceSize ≤ room := by
    rw [block.overhead_eq] at hroom
    omega
  simp only [packetSealers, BlockCipher.encrypt_stateless hblock fresh hfit, lift_ok, inContext_ok,
    ok_bind, BlockCipher.take_nonce]
  rfl

theorem packetSealers_payload (hblock : block.enableImplicitNonce = false)
    (plaintextMetadata : Bytes) {room : ℕ} (hroom : payload.length + defaultOverhead ≤ room) :
    (packetSealers block fresh plaintextMetadata payload).payload fresh.val room =
      .ok (fresh.val, block.aead.sealBytes fresh.val payload) := by
  simp only [packetSealers, BlockCipher.encryptWithNonce_stateless hblock fresh hroom, lift_ok,
    inContext_ok, ok_bind]
  rfl

theorem length_datagramBytes {plaintextMetadata : Bytes}
    (hlen : plaintextMetadata.length = metadataLength) (padding1 wirePayload padding2 : Bytes) :
    (datagramBytes block fresh plaintextMetadata padding1 wirePayload padding2).length =
      packetNonHeaderPosition + padding1.length + wirePayload.length + padding2.length := by
  simp only [datagramBytes, List.length_append, fresh.property, BlockCipher.length_sealed, hlen,
    packetNonHeaderPosition]
  omega

theorem parseDatagram_eq (hreceiver : receiver.enableImplicitNonce = false)
    (hkey : receiver.aead = block.aead) (now : ℕ)
    {plaintextMetadata padding1 wirePayload padding2 : Bytes}
    (hlen : plaintextMetadata.length = metadataLength)
    (hsize : (datagramBytes block fresh plaintextMetadata padding1 wirePayload padding2).length ≤
      maxDatagramSize) :
    parseDatagram receiver now
        (datagramBytes block fresh plaintextMetadata padding1 wirePayload padding2) =
      parseSegment receiver now plaintextMetadata fresh.val
        (padding1 ++ (wirePayload ++ padding2)) := by
  have hlong : packetNonHeaderPosition ≤
      (datagramBytes block fresh plaintextMetadata padding1 wirePayload padding2).length := by
    rw [length_datagramBytes hlen]
    omega
  have hfront : (fresh.val ++ block.aead.sealBytes fresh.val plaintextMetadata).length =
      packetNonHeaderPosition := by
    rw [List.length_append, fresh.property, BlockCipher.length_sealed, hlen]
    rfl
  have hsplit : datagramBytes block fresh plaintextMetadata padding1 wirePayload padding2 =
      fresh.val ++ block.aead.sealBytes fresh.val plaintextMetadata ++
        (padding1 ++ (wirePayload ++ padding2)) := by
    simp only [datagramBytes, List.append_assoc]
  simp only [parseDatagram, List.take_of_length_le hsize, hlong, ensure_true, ok_bind]
  rw [hsplit, ← hfront, List.take_left, List.drop_left,
    BlockCipher.decrypt_stateless hreceiver hkey fresh plaintextMetadata, BlockCipher.take_nonce]
  rfl

theorem decryptPayload_seal (hreceiver : receiver.enableImplicitNonce = false)
    (hkey : receiver.aead = block.aead) :
    decryptPayload receiver (block.aead.sealBytes fresh.val payload) fresh.val = .ok payload := by
  rw [decryptPayload, BlockCipher.decryptWithNonce_stateless hreceiver hkey]
  rfl

theorem parseSessionSegment_nil {ss : SessionStruct} {padding : Bytes} (nonce : Bytes)
    (hlen : ss.payloadLen.toNat = 0) (hsuffix : ss.suffixLen.toNat = padding.length) :
    parseSessionSegment receiver ss nonce padding = .ok ⟨.session ss, []⟩ := by
  have hzero : ¬ss.payloadLen > 0 := by
    rw [gt_iff_lt, UInt16.lt_iff_toNat_lt, hlen]
    exact Nat.lt_irrefl 0
  simp only [parseSessionSegment, hzero, ↓reduceIte, hsuffix, ensure_true, ok_bind]
  rfl

theorem parseSessionSegment_eq (hreceiver : receiver.enableImplicitNonce = false)
    (hkey : receiver.aead = block.aead) {ss : SessionStruct} {padding : Bytes}
    (hne : payload ≠ []) (hlen : ss.payloadLen.toNat = payload.length)
    (hmax : payload.length ≤ maxSessionOpenPayload)
    (hsuffix : ss.suffixLen.toNat = padding.length) :
    parseSessionSegment receiver ss fresh.val
        (block.aead.sealBytes fresh.val payload ++ padding) = .ok ⟨.session ss, payload⟩ := by
  have hpos : ss.payloadLen > 0 := by
    rw [gt_iff_lt, UInt16.lt_iff_toNat_lt, hlen]
    exact List.length_pos_of_ne_nil hne
  have hsealed := BlockCipher.length_sealed (c := block) fresh.val payload
  have hsum : (ss.payloadLen + UInt16.ofNat defaultOverhead).toNat =
      (block.aead.sealBytes fresh.val payload).length := by
    rw [UInt16.toNat_add, hlen, hsealed]
    simp only [maxSessionOpenPayload] at hmax
    exact Nat.mod_eq_of_lt (by simp only [defaultOverhead, UInt16.toNat_ofNat']; omega)
  have hlong : ss.payloadLen.toNat + defaultOverhead ≤
      (block.aead.sealBytes fresh.val payload ++ padding).length := by
    rw [List.length_append, hsealed, hlen]
    exact Nat.le_add_right _ _
  have hexact : ss.payloadLen.toNat + defaultOverhead + ss.suffixLen.toNat =
      (block.aead.sealBytes fresh.val payload ++ padding).length := by
    rw [List.length_append, hsealed, hlen, hsuffix]
  simp only [parseSessionSegment, hpos, ↓reduceIte, hlong, ensure_true, ok_bind, hsum,
    List.take_left, decryptPayload_seal hreceiver hkey, hexact]
  rfl

theorem parseDataAckSegment_front {das : DataAckStruct} {padding1 : Bytes} (nonce rest : Bytes)
    (hcarried : das.Carried) (hfrontLen : das.prefixLen.toNat = padding1.length) :
    parseDataAckSegment receiver das nonce (padding1 ++ rest) =
      if das.payloadLen > 0 then do
        let wirePayloadLen := das.payloadLen.toNat + defaultOverhead
        ensure (wirePayloadLen ≤ rest.length) "payload: received incomplete packet"
        ensure (rest.length = wirePayloadLen + das.suffixLen.toNat) "padding: size not match"
        let encryptedPayload ← shrinkPayload das (rest.take wirePayloadLen)
        let decryptedPayload ← decryptPayload receiver encryptedPayload nonce
        return ⟨.dataAck das, decryptedPayload⟩
      else do
        ensure (das.suffixLen.toNat = rest.length) "padding: size not match"
        return ⟨.dataAck das, []⟩ := by
  have hcheck : checkLowEntropy das = .ok () := by
    unfold DataAckStruct.Carried at hcarried
    unfold checkLowEntropy
    split_ifs at hcarried ⊢
    · exact hcarried
    · rfl
  have hlong : das.prefixLen.toNat ≤ (padding1 ++ rest).length := by
    rw [hfrontLen, List.length_append]
    exact Nat.le_add_right _ _
  simp only [parseDataAckSegment, hcheck, ok_bind, hlong, ensure_true]
  rw [hfrontLen, List.drop_left]

theorem parseDataAckSegment_nil {das : DataAckStruct} {padding1 padding2 : Bytes} (nonce : Bytes)
    (hcarried : das.Carried) (hlen : das.payloadLen.toNat = 0)
    (hfrontLen : das.prefixLen.toNat = padding1.length)
    (hsuffix : das.suffixLen.toNat = padding2.length) :
    parseDataAckSegment receiver das nonce (padding1 ++ padding2) = .ok ⟨.dataAck das, []⟩ := by
  have hzero : ¬das.payloadLen > 0 := by
    rw [gt_iff_lt, UInt16.lt_iff_toNat_lt, hlen]
    exact Nat.lt_irrefl 0
  rw [parseDataAckSegment_front nonce padding2 hcarried hfrontLen, if_neg hzero,
    ensure_true hsuffix]
  rfl

theorem parseDataAckSegment_eq (hreceiver : receiver.enableImplicitNonce = false)
    (hkey : receiver.aead = block.aead) {das : DataAckStruct}
    {padding1 padding2 wirePayload : Bytes} (hcarried : das.Carried)
    (hpos : 0 < das.payloadLen.toNat)
    (hwire : wirePayload.length = das.payloadLen.toNat + defaultOverhead)
    (hshrink : shrinkPayload das wirePayload = .ok (block.aead.sealBytes fresh.val payload))
    (hfrontLen : das.prefixLen.toNat = padding1.length)
    (hsuffix : das.suffixLen.toNat = padding2.length) :
    parseDataAckSegment receiver das fresh.val (padding1 ++ (wirePayload ++ padding2)) =
      .ok ⟨.dataAck das, payload⟩ := by
  have hlong : das.payloadLen.toNat + defaultOverhead ≤ (wirePayload ++ padding2).length := by
    rw [List.length_append, hwire]
    exact Nat.le_add_right _ _
  have hexact : (wirePayload ++ padding2).length =
      das.payloadLen.toNat + defaultOverhead + das.suffixLen.toNat := by
    rw [List.length_append, hwire, hsuffix]
  have htake : (wirePayload ++ padding2).take (das.payloadLen.toNat + defaultOverhead) =
      wirePayload := List.take_left' hwire
  have hlt : das.payloadLen > 0 := by
    rw [gt_iff_lt, UInt16.lt_iff_toNat_lt]
    exact hpos
  rw [parseDataAckSegment_front fresh.val _ hcarried hfrontLen, if_pos hlt]
  simp only [ensure_true hlong, ensure_true hexact, ok_bind, htake, hshrink,
    decryptPayload_seal hreceiver hkey]
  rfl

theorem parseSegment_session {ss : SessionStruct} {now now' : ℕ} (nonce rest : Bytes)
    (hclock : withinRange (unixMinutes now') (unixMinutes now) 1 = true)
    (hlen : ss.payloadLen.toNat ≤ maxSessionOpenPayload) :
    parseSegment receiver now' (ss.marshal now) nonce rest =
      parseSessionSegment receiver (ss.stamp now) nonce rest := by
  simp only [parseSegment, SessionStruct.length_marshal, ensure_true, ok_bind,
    SessionStruct.byteAt_marshal, ofByte_toByte, ss.isSession, ↓reduceIte,
    SessionStruct.unmarshal_marshal hclock hlen]
  rfl

theorem parseSegment_dataAck {das : DataAckStruct} {now now' : ℕ} (nonce rest : Bytes)
    (hclock : withinRange (unixMinutes now') (unixMinutes now) 1 = true) (hc : das.Carried) :
    parseSegment receiver now' (das.marshal now) nonce rest =
      parseDataAckSegment receiver (das.stamp now) nonce rest := by
  have hkind := isSessionProtocol_eq_false das.isDataAck
  simp only [parseSegment, DataAckStruct.length_marshal, ensure_true, ok_bind,
    DataAckStruct.byteAt_marshal, ofByte_toByte, hkind, das.isDataAck, Bool.false_eq_true,
    ↓reduceIte, DataAckStruct.unmarshal_marshal hclock hc]
  rfl

end RoundTrip

/-- The datagram fits the MTU, its length fields are right, and the peer reads the packet. -/
structure SoundDatagram (f : FramingConfig) (block : BlockCipher) (p : Packet) (now : ℕ)
    (d : Datagram) : Prop where
  fits : d.bytes.length ≤ f.mtu
  prefix_eq : d.metadata.prefixLen.toNat = d.padding1.length
  suffix_eq : d.metadata.suffixLen.toNat = d.padding2.length
  content_eq : d.metadata.content = p.metadata.content
  parses : ∀ (receiver : BlockCipher) (now' : ℕ), receiver.enableImplicitNonce = false →
    receiver.aead = block.aead → withinRange (unixMinutes now') (unixMinutes now) 1 = true →
    parseDatagram receiver now' d.bytes = .ok ⟨d.metadata, p.payload⟩

section Build

variable {f : FramingConfig} {block : BlockCipher} {p : Packet}

def OnWire (block : BlockCipher) (fresh : Nonce) (payload : Bytes)
    (expand : Option (Bytes → Except Fault Bytes)) (wirePayload : Bytes) : Prop :=
  if payload = [] then wirePayload = []
  else Expands expand (block.aead.sealBytes fresh.val payload) wirePayload ∧
    payload.length + defaultOverhead ≤ wirePayload.length

theorem fillBuffer_packet (hblock : block.enableImplicitNonce = false) {fresh : Nonce}
    {plaintextMetadata payload wirePayload padding1 padding2 : Bytes} {n : ℕ}
    {expand : Option (Bytes → Except Fault Bytes)} (stale : ℕ → UInt8)
    (hlen : plaintextMetadata.length = metadataLength)
    (hwire : OnWire block fresh payload expand wirePayload) (hn : n = wirePayload.length) :
    fillBuffer (packetSealers block fresh plaintextMetadata payload) stale
        ⟨metadataLength + defaultNonceSize + block.aead.overhead, n, padding1, padding2⟩ payload
        expand =
      .ok (fresh.val,
        datagramBytes block fresh plaintextMetadata padding1 wirePayload padding2) := by
  have hmeta : ∀ room, metadataLength + defaultNonceSize + block.aead.overhead ≤ room →
      (packetSealers block fresh plaintextMetadata payload).metadata room =
        .ok (fresh.val, fresh.val ++ block.aead.sealBytes fresh.val plaintextMetadata) :=
    fun room hroom => packetSealers_metadata hblock payload hlen hroom
  have hfront : (fresh.val ++ block.aead.sealBytes fresh.val plaintextMetadata).length =
      metadataLength + defaultNonceSize + block.aead.overhead := by
    rw [List.length_append, fresh.property, BlockCipher.length_sealed, block.overhead_eq, hlen]
    omega
  by_cases hne : payload = []
  · rw [OnWire, if_pos hne] at hwire
    subst hne hwire
    rw [fillBuffer_nil stale expand hmeta hfront hn, datagramBytes, List.append_nil]
  · rw [OnWire, if_neg hne] at hwire
    obtain ⟨hexpand, hle⟩ := hwire
    have hsealed := BlockCipher.length_sealed (c := block) fresh.val payload
    exact fillBuffer_eq stale hne hmeta hfront
      (fun room hroom => packetSealers_payload hblock plaintextMetadata hroom) hsealed hexpand
      (hsealed.trans_le hle) hn.symm

theorem buildDatagram_session (hblock : block.enableImplicitNonce = false)
    (hpacket : f.transportProtocol = .packetTransport) (hmtu : f.mtu ≤ maxDatagramSize)
    {ss : SessionStruct} (hm : p.metadata = .session ss) (h : Framable p)
    (hfit : (ss.payloadLen.toNat + packetOverhead : ℕ) ≤ f.mtu) (draws : Draws) (now : ℕ) :
    ∃ d, buildDatagram f block p draws now = .ok d ∧ SoundDatagram f block p now d := by
  simp only [Framable, hm] at h
  obtain ⟨hlen, hmax⟩ := h
  obtain ⟨padding, suffixLen, hpad, hpadded⟩ := f.padSession_ok ss block.userName draws
  have hcontent : (Metadata.session ({ ss with suffixLen := suffixLen }.stamp now)).content =
      p.metadata.content := by
    rw [hm]
    rfl
  have hsuffix : ({ ss with suffixLen := suffixLen } : SessionStruct).suffixLen.toNat =
      padding.length := hpadded.length_eq
  have hlen' : ({ ss with suffixLen := suffixLen } : SessionStruct).payloadLen.toNat =
      p.payload.length := hlen
  generalize ({ ss with suffixLen := suffixLen } : SessionStruct) = sent at *
  have hsize : (padding.length + ss.payloadLen.toNat + packetOverhead : ℕ) ≤ f.mtu := by
    have hbound : (maxPaddingSize f.mtu .packetTransport ss.payloadLen.toNat 0 + 0 +
      ss.payloadLen.toNat + packetOverhead : ℕ) ≤ f.mtu := maxPaddingSize_fits (by omega)
    have hle := hpadded.length_le
    rw [hpacket] at hle
    omega
  -- the payload on the wire is the sealed payload, if there is one
  obtain ⟨wirePayload, hwire, hwirelen, hparse⟩ : ∃ wirePayload,
      OnWire block draws.nonce p.payload none wirePayload ∧
      wirePayloadLen p.payload p.payload.length = wirePayload.length ∧
      ∀ receiver : BlockCipher, receiver.enableImplicitNonce = false →
        receiver.aead = block.aead →
        parseSessionSegment receiver (sent.stamp now) draws.nonce.val (wirePayload ++ padding) =
          .ok ⟨.session (sent.stamp now), p.payload⟩ := by
    by_cases hne : p.payload = []
    · refine ⟨[], by rw [OnWire, if_pos hne], by rw [wirePayloadLen, if_pos hne]; rfl, ?_⟩
      intro receiver _ _
      rw [hne, List.nil_append]
      exact parseSessionSegment_nil _ (hlen'.trans (by rw [hne]; rfl)) hsuffix
    · refine ⟨block.aead.sealBytes draws.nonce.val p.payload, ?_, ?_, ?_⟩
      · rw [OnWire, if_neg hne]
        exact ⟨rfl, (BlockCipher.length_sealed _ _).ge⟩
      · rw [wirePayloadLen, if_neg hne, BlockCipher.length_sealed]
      · intro receiver hreceiver hkey
        exact parseSessionSegment_eq hreceiver hkey hne hlen' hmax hsuffix
  have hwirele : wirePayload.length ≤ ss.payloadLen.toNat + defaultOverhead := by
    rw [← hwirelen, wirePayloadLen, hlen]
    split_ifs <;> omega
  have hfits : (datagramBytes block draws.nonce (sent.marshal now) [] wirePayload
      padding).length ≤ f.mtu := by
    rw [length_datagramBytes (sent.length_marshal now)]
    simp only [packetOverhead, packetNonHeaderPosition, List.length_nil] at hsize ⊢
    omega
  refine ⟨⟨.session (sent.stamp now), [], padding,
    datagramBytes block draws.nonce (sent.marshal now) [] wirePayload padding⟩, ?_, hfits, rfl,
    hsuffix, hcontent, ?_⟩
  · simp only [buildDatagram, hm, hpad, ok_bind]
    rw [fillBuffer_packet hblock draws.stale (sent.length_marshal now) hwire hwirelen]
    rfl
  · intro receiver now' hreceiver hkey hclock
    rw [parseDatagram_eq hreceiver hkey now' (sent.length_marshal now) (by omega),
      List.nil_append, parseSegment_session _ _ hclock (hlen'.trans_le hmax)]
    exact hparse receiver hreceiver hkey

theorem PreparedDataAck.onWire {das : DataAckStruct} {padding1 padding2 : Bytes}
    (h : PreparedDataAck f p das padding1 padding2) (block : BlockCipher) (fresh : Nonce)
    (now : ℕ) :
    ∃ wirePayload, OnWire block fresh p.payload (expandPayload f.host das) wirePayload ∧
      wirePayloadLen p.payload (if isLowEntropyProtocol das.protocol = true then
        das.payloadLen.toNat else p.payload.length) = wirePayload.length ∧
      wirePayload.length ≤ das.payloadLen.toNat + defaultOverhead ∧
      ∀ receiver : BlockCipher, receiver.enableImplicitNonce = false →
        receiver.aead = block.aead →
        parseDataAckSegment receiver (das.stamp now) fresh.val
          (padding1 ++ (wirePayload ++ padding2)) = .ok ⟨.dataAck (das.stamp now), p.payload⟩ := by
  have hcarried : (das.stamp now).Carried := h.carried
  have hfrontLen : (das.stamp now).prefixLen.toNat = padding1.length := h.front.length_eq
  have hsuffix : (das.stamp now).suffixLen.toNat = padding2.length := h.back.length_eq
  by_cases hne : p.payload = []
  · have hlow : isLowEntropyProtocol das.protocol = false :=
      Bool.eq_false_iff.mpr fun hlow => h.framable.ne_nil hlow hne
    refine ⟨[], by rw [OnWire, if_pos hne], by rw [wirePayloadLen, if_pos hne]; rfl,
      Nat.zero_le _, ?_⟩
    intro receiver _ _
    have hzero : (das.stamp now).payloadLen.toNat = 0 :=
      (h.framable.plain hlow).trans (by rw [hne]; rfl)
    rw [hne, List.nil_append]
    exact parseDataAckSegment_nil _ hcarried hzero hfrontLen hsuffix
  · have hsealed := BlockCipher.length_sealed (c := block) fresh.val p.payload
    obtain ⟨wirePayload, hexpand, hwire, hle, hshrink⟩ :=
      expandPayload_ok f.host h.framable h.carried hne hsealed
    refine ⟨wirePayload, ?_, ?_, hwire.le, ?_⟩
    · rw [OnWire, if_neg hne]
      exact ⟨hexpand, hsealed ▸ hle⟩
    · rw [wirePayloadLen, if_neg hne, hwire]
      split_ifs with hlow
      · rfl
      · rw [h.framable.plain (Bool.eq_false_iff.mpr hlow)]
    · intro receiver hreceiver hkey
      have hpos : 0 < (das.stamp now).payloadLen.toNat := by
        have hlen := List.length_pos_of_ne_nil hne
        change 0 < das.payloadLen.toNat
        omega
      exact parseDataAckSegment_eq hreceiver hkey hcarried hpos hwire hshrink hfrontLen hsuffix

theorem buildDatagram_dataAck (hblock : block.enableImplicitNonce = false)
    (hpacket : f.transportProtocol = .packetTransport) (hmtu : f.mtu ≤ maxDatagramSize)
    {das : DataAckStruct} (hm : p.metadata = .dataAck das) (h : Framable p)
    (hfit : (das.payloadLen.toNat + packetOverhead : ℕ) ≤ f.mtu) (draws : Draws) (now : ℕ) :
    ∃ d, buildDatagram f block p draws now = .ok d ∧ SoundDatagram f block p now d := by
  obtain ⟨sent, padding1, padding2, hprepare, hprepared⟩ := f.prepareDataAck_ok hm h draws
  obtain ⟨wirePayload, hwire, hwirelen, hwirele, hparse⟩ :=
    hprepared.onWire block draws.nonce now
  have hlen : sent.payloadLen = das.payloadLen := by
    have hcontent := hprepared.content
    rw [hm] at hcontent
    exact congrArg Metadata.payloadLen hcontent
  have hfits : (datagramBytes block draws.nonce (sent.marshal now) padding1 wirePayload
      padding2).length ≤ f.mtu := by
    have hfront := hprepared.front.length_le
    have hback := hprepared.back.length_le
    rw [hpacket, hlen] at hfront hback
    -- the first padding leaves room for the second
    have hfirst : (maxPaddingSize f.mtu .packetTransport das.payloadLen.toNat 0 + 0 +
      das.payloadLen.toNat + packetOverhead : ℕ) ≤ f.mtu := maxPaddingSize_fits (by omega)
    have hsecond : (maxPaddingSize f.mtu .packetTransport das.payloadLen.toNat padding1.length +
      padding1.length + das.payloadLen.toNat + packetOverhead : ℕ) ≤ f.mtu :=
      maxPaddingSize_fits (by omega)
    rw [length_datagramBytes (sent.length_marshal now)]
    rw [hlen] at hwirele
    simp only [packetOverhead, packetNonHeaderPosition] at hsecond ⊢
    omega
  refine ⟨⟨.dataAck (sent.stamp now), padding1, padding2,
    datagramBytes block draws.nonce (sent.marshal now) padding1 wirePayload padding2⟩, ?_, hfits,
    hprepared.front.length_eq, hprepared.back.length_eq, hprepared.content, ?_⟩
  · have hmtuCheck : ¬(isLowEntropyProtocol sent.protocol = true ∧
        (datagramBytes block draws.nonce (sent.marshal now) padding1 wirePayload
          padding2).length > f.mtu) := fun hover => absurd hover.2 (Int.not_lt.mpr hfits)
    simp only [buildDatagram, hm, hprepare, ok_bind]
    rw [fillBuffer_packet hblock draws.stale (sent.length_marshal now) hwire hwirelen]
    simp only [ok_bind, ensure_true hmtuCheck]
    rfl
  · intro receiver now' hreceiver hkey hclock
    rw [parseDatagram_eq hreceiver hkey now' (sent.length_marshal now) (by omega),
      parseSegment_dataAck _ _ hclock hprepared.carried]
    exact hparse receiver hreceiver hkey

theorem buildDatagram_sound (hblock : block.enableImplicitNonce = false)
    (hpacket : f.transportProtocol = .packetTransport) (hmtu : f.mtu ≤ maxDatagramSize)
    (h : Framable p) (hfit : (p.metadata.payloadLen.toNat + packetOverhead : ℕ) ≤ f.mtu)
    (draws : Draws) (now : ℕ) :
    ∃ d, buildDatagram f block p draws now = .ok d ∧ SoundDatagram f block p now d := by
  cases hm : p.metadata with
  | session ss =>
    rw [hm] at hfit
    exact buildDatagram_session hblock hpacket hmtu hm h hfit draws now
  | dataAck das =>
    rw [hm] at hfit
    exact buildDatagram_dataAck hblock hpacket hmtu hm h hfit draws now

end Build

end Mieru.Protocol
