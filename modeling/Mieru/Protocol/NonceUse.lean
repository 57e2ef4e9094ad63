import Mieru.Cipher.Nonce
import Mieru.Protocol.PacketUnderlay

/-! # The nonces of a packet underlay

What `Seal` is called with in a run of `writeOneSegment` calls. A segment has one nonce,
and its payload is sealed under the nonce of its metadata. -/
namespace Mieru.Protocol

open Cipher LowEntropy Net Result TrafficPattern

/-- One call of `Seal`. A scheme is an AEAD under one key. -/
structure SealCall where
  aead : Aead.Scheme
  nonce : Bytes

structure DatagramPlan where
  metadata : Metadata
  layout : Layout

def Metadata.marshal (now : ℕ) : Metadata → Bytes
  | session ss => ss.marshal now
  | dataAck das => das.marshal now

def planDatagram (f : FramingConfig) (block : BlockCipher) (packet : Packet) (draws : Draws) :
    Except Fault DatagramPlan :=
  let encryptedMetadataLen := metadataLength + defaultNonceSize + block.aead.overhead
  match packet.metadata with
  | .session ss => do
    let (ss, padding) ← f.padSession ss block.userName draws
    return ⟨.session ss, encryptedMetadataLen,
      wirePayloadLen packet.payload packet.payload.length, [], padding⟩
  | .dataAck das => do
    let (das, padding1, padding2) ← f.prepareDataAck das packet.payload draws
    let lowEntropy := isLowEntropyProtocol das.protocol
    let payloadLen := if lowEntropy then das.payloadLen.toNat else packet.payload.length
    return ⟨.dataAck das, encryptedMetadataLen, wirePayloadLen packet.payload payloadLen,
      padding1, padding2⟩

def finishDatagram (f : FramingConfig) (block : BlockCipher) (payload : Bytes) (draws : Draws)
    (now : ℕ) (plan : DatagramPlan) : Except Fault Datagram :=
  match plan.metadata with
  | .session ss => do
    let (_, dataToSend) ← fillBuffer
      (packetSealers block draws.nonce (ss.marshal now) payload) draws.stale plan.layout payload
      none
    return ⟨.session (ss.stamp now), [], plan.layout.padding2, dataToSend⟩
  | .dataAck das => do
    let (_, dataToSend) ← fillBuffer
      (packetSealers block draws.nonce (das.marshal now) payload) draws.stale plan.layout payload
      (expandPayload f.host das)
    let length := dataToSend.length
    let mtu := f.mtu
    ensure (¬(isLowEntropyProtocol das.protocol ∧ length > mtu))
      (.failed s!"low entropy datagram length {length} exceeds MTU {mtu}")
    return ⟨.dataAck (das.stamp now), plan.layout.padding1, plan.layout.padding2, dataToSend⟩

theorem buildDatagram_eq_plan (f : FramingConfig) (block : BlockCipher) (packet : Packet)
    (draws : Draws) (now : ℕ) :
    buildDatagram f block packet draws now =
      planDatagram f block packet draws >>= finishDatagram f block packet.payload draws now := by
  unfold buildDatagram planDatagram
  cases packet.metadata with
  | session ss =>
    cases hpad : f.padSession ss block.userName draws with
    | error e => simp only [hpad, error_bind]
    | ok padded =>
      simp only [hpad, ok_bind]
      rfl
  | dataAck das =>
    cases hprepare : f.prepareDataAck das packet.payload draws with
    | error e => simp only [hprepare, error_bind]
    | ok prepared =>
      simp only [hprepare, ok_bind]
      rfl

def sealCalls (block : BlockCipher) (fresh : Nonce) (plaintextMetadata payload : Bytes)
    (layout : Layout) : List SealCall :=
  match block.encrypt layout.size fresh plaintextMetadata with
  | .error _ => []
  | .ok (_, sealed) =>
    let nonce := sealed.bytes.take defaultNonceSize
    let offset := layout.encryptedMetadataLen + layout.padding1.length
    ⟨block.aead, sealed.nonce.val⟩ ::
      if payload = [] then []
      else
        match block.encryptWithNonce (layout.size - offset) nonce payload with
        | .error _ => []
        | .ok _ => [⟨block.aead, nonce⟩]

/-- `packetSealers`, with a record of the calls of `Seal`. -/
def recordingSealers (block : BlockCipher) (fresh : Nonce) (plaintextMetadata payload : Bytes) :
    Sealers (Bytes × List SealCall) where
  metadata room := do
    let (_, sealed) ← inContext "Encrypt() failed"
      (lift (block.encrypt room fresh plaintextMetadata))
    return ((sealed.bytes.take defaultNonceSize, [⟨block.aead, sealed.nonce.val⟩]), sealed.bytes)
  payload s room := do
    let bytes ← inContext "EncryptWithNonce() failed"
      (lift (block.encryptWithNonce room s.1 payload))
    return ((s.1, s.2 ++ [⟨block.aead, s.1⟩]), bytes)

theorem fillBuffer_recording (block : BlockCipher) (fresh : Nonce)
    (plaintextMetadata payload : Bytes) (stale : ℕ → UInt8) (layout : Layout)
    (expand : Option (Bytes → Except Fault Bytes)) :
    fillBuffer (recordingSealers block fresh plaintextMetadata payload) stale layout payload
        expand =
      (fillBuffer (packetSealers block fresh plaintextMetadata payload) stale layout payload
        expand).map fun (nonce, dataToSend) =>
          ((nonce, sealCalls block fresh plaintextMetadata payload layout), dataToSend) := by
  unfold fillBuffer sealCalls
  cases hmeta : block.encrypt layout.size fresh plaintextMetadata with
  | error e =>
    simp only [recordingSealers, packetSealers, hmeta]
    rfl
  | ok r =>
    simp only [recordingSealers, packetSealers, hmeta, lift_ok, inContext_ok, ok_bind]
    by_cases hpayload : payload = []
    · simp only [hpayload, ↓reduceIte]
      rfl
    · simp only [hpayload, ↓reduceIte, pure, Except.pure, ok_bind]
      cases hseal : block.encryptWithNonce
          (layout.size - (layout.encryptedMetadataLen + layout.padding1.length))
          (r.2.bytes.take defaultNonceSize) payload with
      | error e => rfl
      | ok bytes =>
        simp only [lift_ok, inContext_ok, ok_bind]
        cases expandInPlace expand _ _ _ <;> rfl

/-- One call of `writeOneSegment`. The nonce of the draws is the one that `newNonceTo`
gives, to which the cipher adds the hint of its user. -/
structure Write where
  underlay : PacketUnderlay
  packet : Packet
  segBlock : Option StatelessCipher
  addr : UDPAddr
  draws : Draws
  now : ℕ

/-- A call that has come to its first `Seal`. -/
structure Start where
  block : StatelessCipher
  nonce : Nonce
  plan : DatagramPlan

namespace Write

def start (w : Write) : Except Fault Start := do
  ensure (¬(w.underlay.isClient = true ∧ w.addr.key ≠ w.underlay.serverAddr.key))
    (.failed "can't write to an address other than the server address")
  let block ← w.underlay.cipherFor w.packet.metadata.sessionID w.segBlock
  let plan ← planDatagram w.underlay.framing block.val w.packet w.draws
  let nonce ← addUserHintToNonce block.val.userName w.draws.nonce
  return ⟨block, nonce, plan⟩

def seals (w : Write) : List SealCall :=
  match w.start with
  | .error _ => []
  | .ok s =>
    sealCalls s.block.val s.nonce (s.plan.metadata.marshal w.now) w.packet.payload s.plan.layout

variable {w w' : Write} {s s' : Start}

theorem start_eq_ok (h : w.start = .ok s) :
    ¬(w.underlay.isClient = true ∧ w.addr.key ≠ w.underlay.serverAddr.key) ∧
    w.underlay.cipherFor w.packet.metadata.sessionID w.segBlock = .ok s.block ∧
    planDatagram w.underlay.framing s.block.val w.packet w.draws = .ok s.plan ∧
    addUserHintToNonce s.block.val.userName w.draws.nonce = .ok s.nonce := by
  obtain ⟨haddr, h⟩ := ensure_bind_eq_ok.mp h
  obtain ⟨block, hblock, h⟩ := bind_eq_ok.mp h
  obtain ⟨plan, hplan, h⟩ := bind_eq_ok.mp h
  obtain ⟨nonce, hnonce, h⟩ := bind_eq_ok.mp h
  cases h
  exact ⟨haddr, hblock, hplan, hnonce⟩

theorem writeOneSegment_start (h : w.start = .ok s) :
    w.underlay.writeOneSegment w.packet w.segBlock w.addr { w.draws with nonce := s.nonce } w.now =
      finishDatagram w.underlay.framing s.block.val w.packet.payload
        { w.draws with nonce := s.nonce } w.now s.plan := by
  obtain ⟨haddr, hblock, hplan, -⟩ := start_eq_ok h
  have hplan' : planDatagram w.underlay.framing s.block.val w.packet
      { w.draws with nonce := s.nonce } = .ok s.plan := hplan
  rw [PacketUnderlay.writeOneSegment, ensure_true haddr, ok_bind, hblock, ok_bind,
    buildDatagram_eq_plan, hplan', ok_bind]

end Write

/-! ## What is sealed -/

theorem Metadata.length_marshal (m : Metadata) (now : ℕ) :
    (m.marshal now).length = metadataLength := by
  cases m with
  | session ss => exact ss.length_marshal now
  | dataAck das => exact das.length_marshal now

theorem prepareLowEntropyDataAckForSend_room {das prepared : DataAckStruct} {n : ℕ}
    {draws : ℕ → ℕ} (h : prepareLowEntropyDataAckForSend das n draws = .ok prepared) :
    n ≤ prepared.payloadLen.toNat := by
  obtain ⟨-, h⟩ := ensure_bind_eq_ok.mp h
  obtain ⟨-, h⟩ := ensure_bind_eq_ok.mp h
  obtain ⟨expected, hexpected, h⟩ := bind_eq_ok.mp h
  obtain ⟨heq, h⟩ := ensure_bind_eq_ok.mp h
  obtain ⟨-, h⟩ := ensure_bind_eq_ok.mp h
  obtain ⟨mask, -, h⟩ := bind_eq_ok.mp h
  obtain ⟨-, -, h⟩ := bind_eq_ok.mp h
  cases h
  exact heq ▸ le_encodedPayloadLen (lift_eq_ok.mp hexpected)

theorem padDataAck_frame {f : FramingConfig} {das sent : DataAckStruct} {draws : Draws}
    {padding1 padding2 : Bytes} (h : f.padDataAck das draws = .ok (sent, padding1, padding2)) :
    sent.protocol = das.protocol ∧ sent.payloadLen = das.payloadLen := by
  obtain ⟨front, -, h⟩ := bind_eq_ok.mp h
  obtain ⟨back, -, h⟩ := bind_eq_ok.mp h
  cases h
  exact ⟨rfl, rfl⟩

theorem prepareDataAck_room {f : FramingConfig} {das sent : DataAckStruct} {payload : Bytes}
    {draws : Draws} {padding1 padding2 : Bytes}
    (h : f.prepareDataAck das payload draws = .ok (sent, padding1, padding2))
    (hlow : isLowEntropyProtocol sent.protocol = true) :
    payload.length ≤ sent.payloadLen.toNat := by
  unfold FramingConfig.prepareDataAck at h
  split_ifs at h with hlow'
  · obtain ⟨prepared, hprepared, h⟩ := bind_eq_ok.mp h
    rw [(padDataAck_frame h).2]
    exact prepareLowEntropyDataAckForSend_room (inContext_eq_ok.mp hprepared)
  · change f.padDataAck das draws = _ at h
    rw [(padDataAck_frame h).1] at hlow
    exact absurd hlow hlow'

theorem planDatagram_layout {f : FramingConfig} {block : BlockCipher} {packet : Packet}
    {draws : Draws} {plan : DatagramPlan} (h : planDatagram f block packet draws = .ok plan) :
    plan.layout.encryptedMetadataLen = metadataLength + defaultNonceSize + block.aead.overhead ∧
    (packet.payload ≠ [] →
      packet.payload.length + defaultOverhead ≤ plan.layout.wirePayloadLen) := by
  unfold planDatagram at h
  cases hm : packet.metadata with
  | session ss =>
    rw [hm] at h
    obtain ⟨⟨ss', padding⟩, -, h⟩ := bind_eq_ok.mp h
    cases h
    exact ⟨rfl, fun hne => by rw [wirePayloadLen, if_neg hne]⟩
  | dataAck das =>
    rw [hm] at h
    obtain ⟨⟨sent, padding1, padding2⟩, hprepare, h⟩ := bind_eq_ok.mp h
    cases h
    refine ⟨rfl, fun hne => ?_⟩
    simp only [wirePayloadLen, if_neg hne]
    split_ifs with hlow
    · exact Nat.add_le_add_right (prepareDataAck_room hprepare hlow) _
    · exact Nat.le_refl _

theorem sealCalls_eq {block : BlockCipher} (hblock : block.enableImplicitNonce = false)
    {plaintextMetadata payload : Bytes} (hlen : plaintextMetadata.length = metadataLength)
    {layout : Layout}
    (hfront : layout.encryptedMetadataLen =
      metadataLength + defaultNonceSize + block.aead.overhead)
    (hroom : payload ≠ [] → payload.length + defaultOverhead ≤ layout.wirePayloadLen)
    (fresh : Nonce) :
    sealCalls block fresh plaintextMetadata payload layout =
      ⟨block.aead, fresh.val⟩ :: if payload = [] then [] else [⟨block.aead, fresh.val⟩] := by
  have hsize : layout.size = layout.encryptedMetadataLen + layout.padding1.length +
    layout.wirePayloadLen + layout.padding2.length := rfl
  have hmeta : plaintextMetadata.length + defaultOverhead + defaultNonceSize ≤ layout.size := by
    rw [hsize, hfront, hlen, block.overhead_eq]
    omega
  simp only [sealCalls, BlockCipher.encrypt_stateless hblock fresh hmeta, BlockCipher.take_nonce]
  split_ifs with hne
  · rfl
  · have hfits : payload.length + defaultOverhead ≤
        layout.size - (layout.encryptedMetadataLen + layout.padding1.length) := by
      have hpayload := hroom hne
      omega
    rw [BlockCipher.encryptWithNonce_stateless hblock fresh hfits]

namespace Write

variable {w w' : Write} {s s' : Start}

theorem seals_eq (h : w.start = .ok s) :
    w.seals = ⟨s.block.val.aead, s.nonce.val⟩ ::
      if w.packet.payload = [] then [] else [⟨s.block.val.aead, s.nonce.val⟩] := by
  obtain ⟨-, -, hplan, -⟩ := start_eq_ok h
  obtain ⟨hfront, hroom⟩ := planDatagram_layout hplan
  simp only [seals, h]
  exact sealCalls_eq s.block.property (s.plan.metadata.length_marshal w.now) hfront hroom s.nonce

theorem mem_seals {c : SealCall} :
    c ∈ w.seals ↔ ∃ s, w.start = .ok s ∧ c = ⟨s.block.val.aead, s.nonce.val⟩ := by
  cases h : w.start with
  | error e => simp [seals, h]
  | ok s =>
    rw [seals_eq h]
    split_ifs <;> simp

def NoncesUnique (calls : List SealCall) : Prop :=
  calls.Pairwise fun c c' => c.aead = c'.aead → c.nonce ≠ c'.nonce

/-- Two calls of `writeOneSegment` under one key have different nonces once the hint is in. -/
def Apart (w w' : Write) : Prop :=
  ∀ s s', w.start = .ok s → w'.start = .ok s' → s.block.val.aead = s'.block.val.aead →
    addUserHintToNonce s.block.val.userName w.draws.nonce ≠
      addUserHintToNonce s'.block.val.userName w'.draws.nonce

theorem noncesUnique_seals :
    NoncesUnique w.seals ↔ ((∃ s, w.start = .ok s) → w.packet.payload = []) := by
  cases h : w.start with
  | error e => simp [seals, h, NoncesUnique]
  | ok s =>
    rw [seals_eq h]
    split_ifs with hne
    · simp [NoncesUnique, hne]
    · simp [NoncesUnique, hne]

theorem apart_iff :
    Apart w w' ↔ ∀ c ∈ w.seals, ∀ c' ∈ w'.seals, c.aead = c'.aead → c.nonce ≠ c'.nonce := by
  constructor
  · intro hapart c hc c' hc' hkey hnonce
    obtain ⟨s, hs, rfl⟩ := mem_seals.mp hc
    obtain ⟨s', hs', rfl⟩ := mem_seals.mp hc'
    apply hapart s s' hs hs' hkey
    rw [(start_eq_ok hs).2.2.2, (start_eq_ok hs').2.2.2]
    exact congrArg Except.ok (Subtype.ext hnonce)
  · intro hcalls s s' hs hs' hkey hnonce
    rw [(start_eq_ok hs).2.2.2, (start_eq_ok hs').2.2.2] at hnonce
    have hval : s.nonce.val = s'.nonce.val := congrArg Subtype.val (Except.ok.inj hnonce)
    exact hcalls _ (mem_seals.mpr ⟨s, hs, rfl⟩) _ (mem_seals.mpr ⟨s', hs', rfl⟩) hkey hval

theorem noncesUnique_flatMap {run : List Write} :
    NoncesUnique (run.flatMap seals) ↔
      (∀ w ∈ run, NoncesUnique w.seals) ∧ run.Pairwise Apart := by
  rw [NoncesUnique, List.pairwise_flatMap]
  exact and_congr_right fun _ => List.Pairwise.iff fun _ _ => apart_iff.symm

/-- A run keeps its nonces apart exactly when no segment that is sealed has a payload and
the hint does not make two nonces equal. -/
theorem run_nonces_unique_iff (run : List Write) :
    NoncesUnique (run.flatMap seals) ↔
      (∀ w ∈ run, (∃ s, w.start = .ok s) → w.packet.payload = []) ∧ run.Pairwise Apart := by
  rw [noncesUnique_flatMap]
  exact and_congr_left fun _ => forall₂_congr fun _ _ => noncesUnique_seals

def dataWrite : Write where
  underlay := { PacketUnderlay.lowEntropyClient with trafficPattern := none }
  packet := {
    metadata := .dataAck {
      protocol := .dataClientToServer, sessionID := 1, seq := 1, unAckSeq := 1
      windowSize := 4096, payloadLen := 3 }
    payload := [1, 2, 3] }
  segBlock := none
  addr := ⟨none, 8964, []⟩
  draws := PacketUnderlay.zeroDraws
  now := 0

def ackWrite (last : UInt8) : Write where
  underlay := dataWrite.underlay
  packet := {
    metadata := .dataAck {
      protocol := .ackClientToServer, sessionID := 1, seq := 1, unAckSeq := 1, windowSize := 4096
      payloadLen := 0 }
    payload := [] }
  segBlock := none
  addr := dataWrite.addr
  draws := { dataWrite.draws with nonce := ⟨List.replicate 23 0 ++ [last], rfl⟩ }
  now := 0

theorem exists_start_of_isOk (h : w.start.isOk = true) : ∃ s, w.start = .ok s := by
  cases hs : w.start with
  | error e =>
    rw [hs] at h
    cases h
  | ok s => exact ⟨s, rfl⟩

/-- The nonces that are drawn never repeat, and those that are used do. -/
theorem payload_reuses_nonce :
    (([dataWrite].map fun w => w.draws.nonce).Nodup ∧
      ¬NoncesUnique ([dataWrite].flatMap seals)) ∧
    (([ackWrite 0, ackWrite 1].map fun w => w.draws.nonce).Nodup ∧
      ¬NoncesUnique ([ackWrite 0, ackWrite 1].flatMap seals)) := by
  refine ⟨⟨List.nodup_singleton _, fun hunique => ?_⟩, by decide, fun hunique => ?_⟩
  · have hdata := (noncesUnique_flatMap.mp hunique).1 dataWrite (List.mem_singleton.mpr rfl)
    have hnil := noncesUnique_seals.mp hdata (exists_start_of_isOk (by decide +kernel))
    cases hnil
  · have hpair := List.pairwise_pair.mp (noncesUnique_flatMap.mp hunique).2
    obtain ⟨s, hs⟩ : ∃ s, (ackWrite 0).start = .ok s := exists_start_of_isOk (by decide +kernel)
    obtain ⟨s', hs'⟩ : ∃ s, (ackWrite 1).start = .ok s := exists_start_of_isOk (by decide +kernel)
    have hblock : PacketUnderlay.zeroKeyCipher = s.block := Except.ok.inj (start_eq_ok hs).2.1
    have hblock' : PacketUnderlay.zeroKeyCipher = s'.block := Except.ok.inj (start_eq_ok hs').2.1
    have hsame : addUserHintToNonce "user" (ackWrite 0).draws.nonce =
        addUserHintToNonce "user" (ackWrite 1).draws.nonce := by decide +kernel
    exact hpair s s' hs hs' (hblock ▸ hblock' ▸ rfl) (hblock ▸ hblock' ▸ hsame)

end Write

end Mieru.Protocol
