import Mieru.Protocol.StreamUnderlay
import Mieru.Protocol.UserIsolation

/-! # Both ends of a stream stay in step

Whatever is drawn and however the bytes are cut on the way, the reader gets back the
segments that were written, and opens each message with the nonce that sealed it. -/
namespace Mieru.Protocol

open Cipher Mathext PieceStream ProtocolType Result Rng ServerUser TrafficPattern

/-! ## The bytes of a segment -/

def payloadSeal (c : BlockCipher) (fresh : Nonce) (payload : Bytes) : BlockCipher × List Nonce :=
  if payload = [] then (c, []) else (c.advance fresh, [c.nextNonce fresh])

def segmentSeal (c : BlockCipher) (fresh : Nonce) (payload : Bytes) : BlockCipher × List Nonce :=
  let r := payloadSeal (c.advance fresh) fresh payload
  (r.1, c.nextNonce fresh :: r.2)

def streamFront (c : BlockCipher) (fresh : Nonce) (plaintextMetadata : Bytes) : Bytes :=
  c.noncePart fresh ++ c.aead.sealBytes (c.nextNonce fresh).val plaintextMetadata

section Bytes

variable {c d : BlockCipher} {fresh : Nonce} {plaintextMetadata payload wirePayload : Bytes}

theorem length_streamFront (hlen : plaintextMetadata.length = metadataLength) :
    (streamFront c fresh plaintextMetadata).length =
      if c.implicitNonce.isNone then metadataLength + defaultOverhead + defaultNonceSize
      else metadataLength + defaultOverhead := by
  rw [streamFront, List.length_append, BlockCipher.length_sealed, hlen]
  cases hn : c.implicitNonce with
  | none =>
    simp only [BlockCipher.noncePart, hn, fresh.property, Option.isNone_none, ↓reduceIte]
    omega
  | some last =>
    simp only [BlockCipher.noncePart, hn, List.length_nil, Option.isNone_some, Bool.false_eq_true,
      ↓reduceIte]
    omega

theorem noncePart_advance : (c.advance fresh).noncePart fresh = [] := rfl

theorem streamSealers_metadata (hc : c.enableImplicitNonce = true) (payload : Bytes) {room : ℕ}
    (hroom : (streamFront c fresh plaintextMetadata).length ≤ room) :
    (streamSealers c fresh plaintextMetadata payload).metadata room =
      .ok ((c.advance fresh, [c.nextNonce fresh]), streamFront c fresh plaintextMetadata) := by
  have hfit : (c.noncePart fresh).length + plaintextMetadata.length + defaultOverhead ≤ room := by
    rw [streamFront, List.length_append, BlockCipher.length_sealed] at hroom
    omega
  simp only [streamSealers, BlockCipher.encrypt_implicit hc fresh hfit, lift_ok, inContext_ok,
    ok_bind]
  rfl

theorem streamSealers_payload (hc : c.enableImplicitNonce = true) (plaintextMetadata : Bytes)
    {room : ℕ} (hroom : payload.length + defaultOverhead ≤ room) (nonces : List Nonce) :
    (streamSealers c fresh plaintextMetadata payload).payload (c.advance fresh, nonces) room =
      .ok (((c.advance fresh).advance fresh, nonces ++ [(c.advance fresh).nextNonce fresh]),
        (c.advance fresh).aead.sealBytes ((c.advance fresh).nextNonce fresh).val payload) := by
  have hfit : ((c.advance fresh).noncePart fresh).length + payload.length + defaultOverhead ≤
      room := by
    rw [noncePart_advance, List.length_nil]
    omega
  have hadvance : (c.advance fresh).enableImplicitNonce = true := hc
  simp only [streamSealers, BlockCipher.encrypt_implicit hadvance fresh hfit, lift_ok,
    inContext_ok, ok_bind, noncePart_advance, List.nil_append]
  rfl

theorem fillBuffer_stream (hc : c.enableImplicitNonce = true) {padding1 padding2 : Bytes}
    {m n : ℕ} {expand : Option (Bytes → Except Fault Bytes)} (stale : ℕ → UInt8)
    (hm : (streamFront c fresh plaintextMetadata).length = m)
    (hwire : OnWire (c.advance fresh) ((c.advance fresh).nextNonce fresh) payload expand
      wirePayload) (hn : n = wirePayload.length) :
    fillBuffer (streamSealers c fresh plaintextMetadata payload) stale ⟨m, n, padding1, padding2⟩
        payload expand =
      .ok (segmentSeal c fresh payload,
        streamFront c fresh plaintextMetadata ++ (padding1 ++ (wirePayload ++ padding2))) := by
  have hmeta : ∀ room, m ≤ room →
      (streamSealers c fresh plaintextMetadata payload).metadata room =
        .ok ((c.advance fresh, [c.nextNonce fresh]), streamFront c fresh plaintextMetadata) :=
    fun room hroom => streamSealers_metadata hc payload (hm.trans_le hroom)
  by_cases hne : payload = []
  · rw [OnWire, if_pos hne] at hwire
    subst hne hwire
    rw [fillBuffer_nil stale expand hmeta hm hn, segmentSeal, payloadSeal, if_pos rfl]
    simp only [List.append_assoc, List.nil_append]
  · rw [OnWire, if_neg hne] at hwire
    obtain ⟨hexpand, hle⟩ := hwire
    have hsealed := BlockCipher.length_sealed (c := c.advance fresh)
      ((c.advance fresh).nextNonce fresh).val payload
    rw [fillBuffer_eq stale hne hmeta hm
      (fun room hroom => streamSealers_payload hc plaintextMetadata hroom _) hsealed hexpand
      (hsealed.trans_le hle) hn.symm, segmentSeal, payloadSeal, if_neg hne]
    simp only [List.append_assoc, List.cons_append, List.nil_append]

end Bytes

/-! ## Reading one segment -/

section Read

variable {c d : BlockCipher} {fresh : Nonce} {conn : List Piece} {tail : List (Option UInt8)}

theorem readExact_ok (what : String) {bs : Bytes} (h : symbols conn = bs.map some ++ tail) :
    ∃ rest, readExact what bs.length conn = .ok (bs, rest) ∧ symbols rest = tail := by
  obtain ⟨rest, hread, hrest⟩ := readFull_ok h
  exact ⟨rest, by rw [readExact, hread]; rfl, hrest⟩

theorem skipPadding_ok {len : UInt8} {padding : Bytes} (hlen : len.toNat = padding.length)
    (h : symbols conn = padding.map some ++ tail) :
    ∃ rest, skipPadding len conn = .ok rest ∧ symbols rest = tail := by
  by_cases hpos : len > 0
  · obtain ⟨rest, hread, hrest⟩ := readExact_ok "padding" h
    refine ⟨rest, ?_, hrest⟩
    rw [skipPadding, if_pos hpos, hlen, hread]
    rfl
  · have hzero : padding = [] := by
      rw [gt_iff_lt, UInt8.lt_iff_toNat_lt] at hpos
      exact List.eq_nil_of_length_eq_zero (by rw [← hlen]; exact Nat.eq_zero_of_not_pos hpos)
    refine ⟨conn, if_neg hpos, ?_⟩
    rw [h, hzero]
    rfl

def PayloadOnWire (c : BlockCipher) (fresh : Nonce) (payload : Bytes) (payloadLen : UInt16)
    (shrink : Bytes → Except StreamError Bytes) (wirePayload : Bytes) : Prop :=
  if payload = [] then payloadLen = 0 ∧ wirePayload = []
  else 0 < payloadLen.toNat ∧ wirePayload.length = payloadLen.toNat + defaultOverhead ∧
    shrink wirePayload = .ok (c.aead.sealBytes (c.nextNonce fresh).val payload)

theorem decryptNext_ok (h : c.InStep d) (plaintext : Bytes) :
    decryptNext d (streamFront c fresh plaintext) =
      .ok (d.advance fresh, ⟨plaintext, c.nextNonce fresh⟩) := by
  rw [decryptNext, streamFront, h.decrypt]

theorem readPayload_ok (h : c.InStep d) (hused : c.noncePart fresh = []) {payload : Bytes}
    {payloadLen : UInt16} {shrink : Bytes → Except StreamError Bytes} {wirePayload : Bytes}
    (hwire : PayloadOnWire c fresh payload payloadLen shrink wirePayload)
    (hconn : symbols conn = wirePayload.map some ++ tail) :
    ∃ rest, readPayload d payloadLen shrink conn =
        .ok ⟨(payloadSeal d fresh payload).1, rest, payload, (payloadSeal c fresh payload).2⟩ ∧
      symbols rest = tail := by
  unfold PayloadOnWire at hwire
  split_ifs at hwire with hnil
  · obtain ⟨rfl, rfl⟩ := hwire
    subst hnil
    exact ⟨conn, rfl, hconn⟩
  · obtain ⟨hpos, hlen, hshrink⟩ := hwire
    have hgt : payloadLen > 0 := by
      rw [gt_iff_lt, UInt16.lt_iff_toNat_lt]
      exact hpos
    obtain ⟨rest, hread, hrest⟩ := readExact_ok "payload" hconn
    rw [hlen] at hread
    have hopen : decryptNext d (c.aead.sealBytes (c.nextNonce fresh).val payload) =
        .ok (d.advance fresh, ⟨payload, c.nextNonce fresh⟩) := by
      have hfront : decryptNext d (streamFront c fresh payload) = _ := decryptNext_ok h payload
      rwa [streamFront, hused, List.nil_append] at hfront
    refine ⟨rest, ?_, hrest⟩
    simp only [readPayload, hgt, ↓reduceIte, hread, ok_bind, hshrink, hopen, payloadSeal, hnil]
    rfl

theorem readSessionSegment_ok (h : c.InStep d) (hused : c.noncePart fresh = [])
    {ss : SessionStruct} {payload wirePayload padding : Bytes}
    (hwire : PayloadOnWire c fresh payload ss.payloadLen .ok wirePayload)
    (hsuffix : ss.suffixLen.toNat = padding.length)
    (hconn : symbols conn = (wirePayload ++ padding).map some ++ tail) :
    ∃ rest, readSessionSegment d ss conn =
        .ok ⟨(payloadSeal d fresh payload).1, rest, payload, (payloadSeal c fresh payload).2⟩ ∧
      symbols rest = tail := by
  rw [List.map_append, List.append_assoc] at hconn
  obtain ⟨rest1, hpayload, hrest1⟩ := readPayload_ok h hused hwire hconn
  obtain ⟨rest2, hskip, hrest2⟩ := skipPadding_ok hsuffix hrest1
  refine ⟨rest2, ?_, hrest2⟩
  simp only [readSessionSegment, hpayload, ok_bind, hskip]
  rfl

theorem readDataAckSegment_ok (h : c.InStep d) (hused : c.noncePart fresh = [])
    {das : DataAckStruct} {payload padding1 wirePayload padding2 : Bytes}
    (hfront : das.prefixLen.toNat = padding1.length)
    (hwire : PayloadOnWire c fresh payload das.payloadLen
      (fun b => (shrinkPayload das b).mapError fun err => ⟨.protocolError, err⟩) wirePayload)
    (hsuffix : das.suffixLen.toNat = padding2.length)
    (hconn : symbols conn = (padding1 ++ (wirePayload ++ padding2)).map some ++ tail) :
    ∃ rest, readDataAckSegment d das conn =
        .ok ⟨(payloadSeal d fresh payload).1, rest, payload, (payloadSeal c fresh payload).2⟩ ∧
      symbols rest = tail := by
  rw [List.map_append, List.map_append, List.append_assoc, List.append_assoc] at hconn
  obtain ⟨rest1, hskip1, hrest1⟩ := skipPadding_ok hfront hconn
  obtain ⟨rest2, hpayload, hrest2⟩ := readPayload_ok h hused hwire hrest1
  obtain ⟨rest3, hskip2, hrest3⟩ := skipPadding_ok hsuffix hrest2
  refine ⟨rest3, ?_, hrest3⟩
  simp only [readDataAckSegment, hskip1, ok_bind, hpayload, hskip2]
  rfl

theorem payloadSeal_inStep (h : c.InStep d) (payload : Bytes) :
    (payloadSeal c fresh payload).1.InStep (payloadSeal d fresh payload).1 := by
  unfold payloadSeal
  split_ifs
  · exact h
  · exact h.advance fresh

theorem readBody_session {ss : SessionStruct} {now now' : ℕ}
    (hclock : withinRange (unixMinutes now') (unixMinutes now) 1 = true)
    (hlen : ss.payloadLen.toNat ≤ maxSessionOpenPayload) (conn : List Piece) :
    readBody d now' (ss.marshal now) conn = do
      let read ← readSessionSegment d (ss.stamp now) conn
      return (.session (ss.stamp now), read) := by
  simp only [readBody, SessionStruct.length_marshal, ensure_true, ok_bind,
    SessionStruct.byteAt_marshal, ofByte_toByte, ss.isSession, ↓reduceIte,
    SessionStruct.unmarshal_marshal hclock hlen]
  rfl

theorem readBody_dataAck {das : DataAckStruct} {now now' : ℕ}
    (hclock : withinRange (unixMinutes now') (unixMinutes now) 1 = true) (hc : das.Carried)
    (conn : List Piece) :
    readBody d now' (das.marshal now) conn = do
      let read ← readDataAckSegment d (das.stamp now) conn
      return (.dataAck (das.stamp now), read) := by
  have hkind := isSessionProtocol_eq_false das.isDataAck
  simp only [readBody, DataAckStruct.length_marshal, ensure_true, ok_bind,
    DataAckStruct.byteAt_marshal, ofByte_toByte, hkind, das.isDataAck, Bool.false_eq_true,
    ↓reduceIte, DataAckStruct.unmarshal_marshal hclock hc]
  rfl

end Read

/-! ## Writing one segment -/

/-- The bytes behind the sealed metadata lead the reader to the segment and back in step. -/
def BodyReads (c : BlockCipher) (w : WriteEnv) (frame : Frame) (plaintextMetadata body : Bytes) :
    Prop :=
  ∀ (d : BlockCipher) (now' : ℕ) (conn : List Piece) (tail : List (Option UInt8)),
    (c.advance w.draws.nonce).InStep d →
    withinRange (unixMinutes now') (unixMinutes w.now) 1 = true →
    symbols conn = body.map some ++ tail →
    ∃ rest, readBody d now' plaintextMetadata conn =
        .ok (frame.packet.metadata, ⟨(payloadSeal d w.draws.nonce frame.packet.payload).1, rest,
          frame.packet.payload,
          (payloadSeal (c.advance w.draws.nonce) w.draws.nonce frame.packet.payload).2⟩) ∧
      symbols rest = tail

structure Sent (c : BlockCipher) (packet : Packet) (w : WriteEnv) (frame : Frame) : Prop where
  content_eq : frame.packet.metadata.content = packet.metadata.content
  payload_eq : frame.packet.payload = packet.payload
  nonces_eq : frame.nonces = (segmentSeal c w.draws.nonce packet.payload).2
  reads : ∃ plaintextMetadata body, plaintextMetadata.length = metadataLength ∧
    frame.bytes = streamFront c w.draws.nonce plaintextMetadata ++ body ∧
    BodyReads c w frame plaintextMetadata body

section Write

variable {t : StreamUnderlay} {c : BlockCipher} {packet : Packet} {w : WriteEnv}

structure SendReady (t : StreamUnderlay) (c : BlockCipher) : Prop where
  cipher_eq : t.maybeInitSendBlockCipher = .ok c
  implicit : c.enableImplicitNonce = true
  first_eq : t.send.isNone = c.implicitNonce.isNone

theorem SendReady.length_front (h : SendReady t c) (fresh : Nonce) {plaintextMetadata : Bytes}
    (hlen : plaintextMetadata.length = metadataLength) :
    (streamFront c fresh plaintextMetadata).length =
      if t.send.isNone then metadataLength + c.aead.overhead + defaultNonceSize
      else metadataLength + c.aead.overhead := by
  rw [length_streamFront hlen, h.first_eq, c.overhead_eq]

theorem StreamUnderlay.flatten_writeWithPossibleFragment (t : StreamUnderlay) (fragmentLen : ℕ → ℕ)
    (dataToSend : Bytes) :
    (t.writeWithPossibleFragment fragmentLen dataToSend).flatten = dataToSend := by
  unfold StreamUnderlay.writeWithPossibleFragment
  split
  · exact flatten_writeFragments _ _ _ _
  · rw [List.flatten_cons, List.flatten_nil, List.append_nil]

theorem plainPayload_onWire (c : BlockCipher) (fresh : Nonce) {payload : Bytes}
    {payloadLen : UInt16} (hlen : payloadLen.toNat = payload.length) :
    ∃ wirePayload, OnWire c (c.nextNonce fresh) payload none wirePayload ∧
      wirePayloadLen payload payload.length = wirePayload.length ∧
      PayloadOnWire c fresh payload payloadLen .ok wirePayload := by
  by_cases hne : payload = []
  · refine ⟨[], by rw [OnWire, if_pos hne], by rw [wirePayloadLen, if_pos hne]; rfl, ?_⟩
    rw [PayloadOnWire, if_pos hne]
    rw [hne] at hlen
    exact ⟨UInt16.toNat_inj.mp hlen, rfl⟩
  · have hsealed := BlockCipher.length_sealed (c := c) (c.nextNonce fresh).val payload
    refine ⟨c.aead.sealBytes (c.nextNonce fresh).val payload, ?_, ?_, ?_⟩
    · rw [OnWire, if_neg hne]
      exact ⟨rfl, hsealed.ge⟩
    · rw [wirePayloadLen, if_neg hne, hsealed]
    · rw [PayloadOnWire, if_neg hne, hlen]
      exact ⟨List.length_pos_of_ne_nil hne, hsealed, rfl⟩

theorem writeOneSegment_session (hready : SendReady t c) {ss : SessionStruct}
    (hm : packet.metadata = .session ss) (h : Framable packet) (w : WriteEnv) :
    ∃ frame, t.writeOneSegment packet w =
        .ok ({ t with send := some (segmentSeal c w.draws.nonce packet.payload).1 }, frame) ∧
      Sent c packet w frame := by
  simp only [Framable, hm] at h
  obtain ⟨hlen, hmax⟩ := h
  obtain ⟨padding, suffixLen, hpad, hpadded⟩ := t.framing.padSession_ok ss c.userName w.draws
  have hcontent : (Metadata.session ({ ss with suffixLen := suffixLen }.stamp w.now)).content =
      packet.metadata.content := by
    rw [hm]
    rfl
  have hsuffix : ({ ss with suffixLen := suffixLen } : SessionStruct).suffixLen.toNat =
      padding.length := hpadded.length_eq
  have hlen' : ({ ss with suffixLen := suffixLen } : SessionStruct).payloadLen.toNat =
      packet.payload.length := hlen
  generalize ({ ss with suffixLen := suffixLen } : SessionStruct) = sent at *
  obtain ⟨wirePayload, hwire, hwirelen, hread⟩ :=
    plainPayload_onWire (c.advance w.draws.nonce) w.draws.nonce hlen'
  replace hread : PayloadOnWire (c.advance w.draws.nonce) w.draws.nonce packet.payload
    (sent.stamp w.now).payloadLen .ok wirePayload := hread
  refine ⟨⟨⟨.session (sent.stamp w.now), packet.payload⟩,
    t.writeWithPossibleFragment w.fragmentLen
      (streamFront c w.draws.nonce (sent.marshal w.now) ++ (wirePayload ++ padding)),
    (segmentSeal c w.draws.nonce packet.payload).2⟩, ?_, hcontent, rfl, rfl, sent.marshal w.now,
    wirePayload ++ padding, sent.length_marshal w.now,
    t.flatten_writeWithPossibleFragment _ _, ?_⟩
  · simp only [StreamUnderlay.writeOneSegment, hready.cipher_eq, inContext_ok, ok_bind, hm, hpad]
    rw [fillBuffer_stream hready.implicit w.draws.stale
      (hready.length_front w.draws.nonce (sent.length_marshal w.now)) hwire hwirelen]
    rfl
  · intro d now' conn tail hstep hclock hconn
    have hsuffix' : (sent.stamp w.now).suffixLen.toNat = padding.length := hsuffix
    obtain ⟨rest, hsegment, hrest⟩ :=
      readSessionSegment_ok hstep noncePart_advance hread hsuffix' hconn
    refine ⟨rest, ?_, hrest⟩
    rw [readBody_session hclock (hlen'.trans_le hmax), hsegment]
    rfl

theorem PreparedDataAck.payloadOnWire {f : FramingConfig} {das : DataAckStruct}
    {padding1 padding2 : Bytes} (h : PreparedDataAck f packet das padding1 padding2)
    (c : BlockCipher) (fresh : Nonce) (now : ℕ) :
    ∃ wirePayload,
      OnWire c (c.nextNonce fresh) packet.payload (expandPayload f.host das) wirePayload ∧
      wirePayloadLen packet.payload (if isLowEntropyProtocol das.protocol = true then
        das.payloadLen.toNat else packet.payload.length) = wirePayload.length ∧
      PayloadOnWire c fresh packet.payload (das.stamp now).payloadLen
        (fun b => (shrinkPayload (das.stamp now) b).mapError fun err => ⟨.protocolError, err⟩)
        wirePayload := by
  by_cases hne : packet.payload = []
  · have hlow : isLowEntropyProtocol das.protocol = false :=
      Bool.eq_false_iff.mpr fun hlow => h.framable.ne_nil hlow hne
    refine ⟨[], by rw [OnWire, if_pos hne], by rw [wirePayloadLen, if_pos hne]; rfl, ?_⟩
    have hzero : (das.stamp now).payloadLen.toNat = 0 :=
      (h.framable.plain hlow).trans (by rw [hne]; rfl)
    rw [PayloadOnWire, if_pos hne]
    exact ⟨UInt16.toNat_inj.mp hzero, rfl⟩
  · have hsealed := BlockCipher.length_sealed (c := c) (c.nextNonce fresh).val packet.payload
    obtain ⟨wirePayload, hexpand, hwire, hle, hshrink⟩ :=
      expandPayload_ok f.host h.framable h.carried hne hsealed
    refine ⟨wirePayload, ?_, ?_, ?_⟩
    · rw [OnWire, if_neg hne]
      exact ⟨hexpand, hsealed ▸ hle⟩
    · rw [wirePayloadLen, if_neg hne, hwire]
      split_ifs with hlow
      · rfl
      · rw [h.framable.plain (Bool.eq_false_iff.mpr hlow)]
    · have hpos : 0 < (das.stamp now).payloadLen.toNat := by
        have hlen := List.length_pos_of_ne_nil hne
        change 0 < das.payloadLen.toNat
        omega
      have hback : shrinkPayload (das.stamp now) wirePayload = .ok _ := hshrink
      rw [PayloadOnWire, if_neg hne, hback]
      exact ⟨hpos, hwire, rfl⟩

theorem writeOneSegment_dataAck (hready : SendReady t c) {das : DataAckStruct}
    (hm : packet.metadata = .dataAck das) (h : Framable packet) (w : WriteEnv) :
    ∃ frame, t.writeOneSegment packet w =
        .ok ({ t with send := some (segmentSeal c w.draws.nonce packet.payload).1 }, frame) ∧
      Sent c packet w frame := by
  obtain ⟨sent, padding1, padding2, hprepare, hprepared⟩ :=
    t.framing.prepareDataAck_ok hm h w.draws
  obtain ⟨wirePayload, hwire, hwirelen, hread⟩ :=
    hprepared.payloadOnWire (c.advance w.draws.nonce) w.draws.nonce w.now
  replace hwire : OnWire (c.advance w.draws.nonce)
    ((c.advance w.draws.nonce).nextNonce w.draws.nonce) packet.payload
    (expandPayload t.host sent) wirePayload := hwire
  refine ⟨⟨⟨.dataAck (sent.stamp w.now), packet.payload⟩,
    [streamFront c w.draws.nonce (sent.marshal w.now) ++ (padding1 ++ (wirePayload ++ padding2))],
    (segmentSeal c w.draws.nonce packet.payload).2⟩, ?_, hprepared.content, rfl, rfl,
    sent.marshal w.now, padding1 ++ (wirePayload ++ padding2), sent.length_marshal w.now,
    by rw [Frame.bytes, List.flatten_cons, List.flatten_nil, List.append_nil], ?_⟩
  · simp only [StreamUnderlay.writeOneSegment, hready.cipher_eq, inContext_ok, ok_bind, hm,
      hprepare]
    rw [fillBuffer_stream hready.implicit w.draws.stale
      (hready.length_front w.draws.nonce (sent.length_marshal w.now)) hwire hwirelen]
    rfl
  · intro d now' conn tail hstep hclock hconn
    have hfront : (sent.stamp w.now).prefixLen.toNat = padding1.length :=
      hprepared.front.length_eq
    have hsuffix : (sent.stamp w.now).suffixLen.toNat = padding2.length :=
      hprepared.back.length_eq
    obtain ⟨rest, hsegment, hrest⟩ :=
      readDataAckSegment_ok hstep noncePart_advance hfront hread hsuffix hconn
    refine ⟨rest, ?_, hrest⟩
    rw [readBody_dataAck hclock hprepared.carried, hsegment]
    rfl

theorem writeOneSegment_sent (hready : SendReady t c) (h : Framable packet) (w : WriteEnv) :
    ∃ frame, t.writeOneSegment packet w =
        .ok ({ t with send := some (segmentSeal c w.draws.nonce packet.payload).1 }, frame) ∧
      Sent c packet w frame := by
  cases hm : packet.metadata with
  | session ss => exact writeOneSegment_session hready hm h w
  | dataAck das => exact writeOneSegment_dataAck hready hm h w

theorem SendReady.next (hready : SendReady t c) (fresh : Nonce) (payload : Bytes) :
    SendReady { t with send := some (segmentSeal c fresh payload).1 }
      (segmentSeal c fresh payload).1 := by
  refine ⟨rfl, ?_, ?_⟩
  · unfold segmentSeal payloadSeal
    split_ifs
    · exact hready.implicit
    · exact hready.implicit
  · unfold segmentSeal payloadSeal
    split_ifs <;> rfl

/-- Segments that a writer with cipher `c` has sent one after the other. -/
inductive SentAll : BlockCipher → List (Packet × WriteEnv) → List Frame → Prop
  | nil {c : BlockCipher} : SentAll c [] []
  | cons {c : BlockCipher} {packet : Packet} {w : WriteEnv} {frame : Frame}
      {segments : List (Packet × WriteEnv)} {frames : List Frame} :
      Sent c packet w frame →
      SentAll (segmentSeal c w.draws.nonce packet.payload).1 segments frames →
      SentAll c ((packet, w) :: segments) (frame :: frames)

theorem writeAll_sent {segments : List (Packet × WriteEnv)} (hready : SendReady t c)
    (h : ∀ s ∈ segments, Framable s.1) :
    ∃ t' frames, t.writeAll segments = .ok (t', frames) ∧ SentAll c segments frames := by
  induction segments generalizing t c with
  | nil => exact ⟨t, [], rfl, .nil⟩
  | cons s segments ih =>
    obtain ⟨packet, w⟩ := s
    obtain ⟨frame, hwrite, hsent⟩ := writeOneSegment_sent hready (h _ List.mem_cons_self) w
    obtain ⟨t', frames, hrest, hall⟩ := ih (hready.next w.draws.nonce packet.payload)
      fun s hs => h s (List.mem_cons_of_mem _ hs)
    refine ⟨t', frame :: frames, ?_, .cons hsent hall⟩
    simp only [StreamUnderlay.writeAll, hwrite, ok_bind, hrest]
    rfl

end Write

/-! ## The nonces of a direction -/

section Nonces

variable {c : BlockCipher} {segments : List (Packet × WriteEnv)} {frames : List Frame}

def Consecutive (nonces : List Nonce) : Prop := nonces.IsChain fun a b => b = increaseNonce a

theorem Consecutive.getElem {first nonce : Nonce} {nonces : List Nonce} {i : ℕ}
    (h : Consecutive (first :: nonces)) (hi : (first :: nonces)[i]? = some nonce) :
    nonce = nonceAt first i := by
  induction nonces generalizing first i with
  | nil =>
    cases i with
    | zero => exact (Option.some.inj hi).symm
    | succ i => cases hi
  | cons second nonces ih =>
    cases i with
    | zero => exact (Option.some.inj hi).symm
    | succ i =>
      obtain ⟨hnext, hrest⟩ := List.isChain_cons_cons.mp h
      rw [ih hrest hi, hnext, nonceAt, nonceAt, Function.iterate_succ_apply]

theorem segmentSeal_cases (c : BlockCipher) (fresh : Nonce) (payload : Bytes) :
    ((segmentSeal c fresh payload).1.implicitNonce = some (c.nextNonce fresh) ∧
      (segmentSeal c fresh payload).2 = [c.nextNonce fresh]) ∨
    ((segmentSeal c fresh payload).1.implicitNonce = some (increaseNonce (c.nextNonce fresh)) ∧
      (segmentSeal c fresh payload).2 =
        [c.nextNonce fresh, increaseNonce (c.nextNonce fresh)]) := by
  unfold segmentSeal payloadSeal
  split_ifs
  · exact .inl ⟨rfl, rfl⟩
  · exact .inr ⟨rfl, rfl⟩

theorem SentAll.consecutive_used (h : SentAll c segments frames) {last : Nonce}
    (hlast : c.implicitNonce = some last) : Consecutive (last :: frames.flatMap Frame.nonces) := by
  induction h generalizing last with
  | nil => exact .singleton _
  | @cons c packet w frame segments frames hsent _ ih =>
    have hnext : c.nextNonce w.draws.nonce = increaseNonce last := by
      rw [BlockCipher.nextNonce, hlast]
    rw [List.flatMap_cons, hsent.nonces_eq]
    rcases segmentSeal_cases c w.draws.nonce packet.payload with ⟨hc, hn⟩ | ⟨hc, hn⟩
    · rw [hn, List.singleton_append]
      exact .cons_cons hnext (ih hc)
    · rw [hn]
      exact .cons_cons hnext (.cons_cons rfl (ih hc))

theorem SentAll.consecutive (h : SentAll c segments frames) :
    Consecutive (frames.flatMap Frame.nonces) := by
  cases h with
  | nil => exact .nil
  | @cons _ packet w frame segments frames hsent hall =>
    rw [List.flatMap_cons, hsent.nonces_eq]
    rcases segmentSeal_cases c w.draws.nonce packet.payload with ⟨hc, hn⟩ | ⟨hc, hn⟩
    · rw [hn, List.singleton_append]
      exact hall.consecutive_used hc
    · rw [hn]
      exact .cons_cons rfl (hall.consecutive_used hc)

theorem SentAll.nonceNumber (h : SentAll c segments frames) {first nonce : Nonce} {i : ℕ}
    (hfirst : (frames.flatMap Frame.nonces)[0]? = some first)
    (hi : (frames.flatMap Frame.nonces)[i]? = some nonce) :
    nonceNumber nonce = (nonceNumber first + i) % 2 ^ 192 := by
  have hchain := h.consecutive
  cases hl : frames.flatMap Frame.nonces with
  | nil =>
    rw [hl] at hi
    cases hi
  | cons head rest =>
    rw [hl] at hchain hfirst hi
    cases hfirst
    rw [hchain.getElem hi, nonceNumber_nonceAt]

end Nonces

/-! ## The reader follows -/

section Follow

variable {kdf : Pbkdf2} {t : StreamUnderlay} {c : BlockCipher} {packet : Packet} {w : WriteEnv}
  {frame : Frame} {segments : List (Packet × WriteEnv)} {frames : List Frame}

/-- The reader has the key of `c`, or finds it with the first frame and has not seen the
frame before. -/
def Admits (t : StreamUnderlay) (e : ReadEnv kdf) (c : BlockCipher) (frames : List Frame) : Prop :=
  match t.role with
  | .client block => block.val.aead = c.aead
  | .server => e.duplicate = false ∧ ∀ frame ∈ frames.head?, ∃ found,
    discover (decryptors e.env) e.published e.hintMandatory
      (frame.bytes.take (metadataLength + defaultOverhead + defaultNonceSize)) e.source =
        .ok found ∧
    found.block.val.aead = c.aead

/-- The reader is ready for what a writer with cipher `c` sends next. -/
inductive Listens (t : StreamUnderlay) (e : ReadEnv kdf) (c : BlockCipher) (frames : List Frame) :
    Prop
  | used {d : BlockCipher} (recv_eq : t.recv = some d) (in_step : c.InStep d)
      (last : c.implicitNonce.isNone = false)
  | first (recv_eq : t.recv = none) (implicit : c.enableImplicitNonce = true)
      (unused : c.implicitNonce = none) (admits : Admits t e c frames)

theorem Listens.length_front {e : ReadEnv kdf} (h : Listens t e c frames) (fresh : Nonce)
    {plaintextMetadata : Bytes} (hlen : plaintextMetadata.length = metadataLength) :
    t.readLen = (streamFront c fresh plaintextMetadata).length := by
  rw [length_streamFront hlen, StreamUnderlay.readLen]
  cases h with
  | used hrecv _ hlast => rw [hrecv, hlast, Option.isNone_some]
  | first hrecv _ hunused _ =>
    rw [hrecv, hunused]
    rfl

theorem serverInit_ok {e : ReadEnv kdf} {found : Discovery} {fresh : Nonce} {plaintext : Bytes}
    (hdiscover : discover (decryptors e.env) e.published e.hintMandatory
      (streamFront c fresh plaintext) e.source = .ok found)
    (hstep : c.InStep (found.block.val.setImplicitNonceMode true)) :
    serverInitRecvBlockCipherAndDecryptMetadata e (streamFront c fresh plaintext) =
      .ok ((found.block.val.setImplicitNonceMode true).advance fresh,
        ⟨plaintext, c.nextNonce fresh⟩) := by
  have hopen : (found.block.val.setImplicitNonceMode true).decrypt (streamFront c fresh plaintext) =
      ((found.block.val.setImplicitNonceMode true).advance fresh,
        .ok ⟨plaintext, c.nextNonce fresh⟩) := hstep.decrypt fresh plaintext
  simp only [serverInitRecvBlockCipherAndDecryptMetadata, hdiscover, ok_bind, hopen]
  rfl

theorem Listens.decryptMetadata {e : ReadEnv kdf} (h : Listens t e c (frame :: frames))
    {fresh : Nonce} {plaintext body : Bytes} (hlen : plaintext.length = metadataLength)
    (hbytes : frame.bytes = streamFront c fresh plaintext ++ body) :
    ∃ d, c.InStep d ∧ t.decryptMetadata e (streamFront c fresh plaintext) =
      .ok (d.advance fresh, ⟨plaintext, c.nextNonce fresh⟩) := by
  cases h with
  | @used d hrecv hstep _ =>
    refine ⟨d, hstep, ?_⟩
    simp only [StreamUnderlay.decryptMetadata, hrecv]
    exact decryptNext_ok hstep plaintext
  | first hrecv hc hunused hadmits =>
    have hfront : (streamFront c fresh plaintext).length =
        metadataLength + defaultOverhead + defaultNonceSize := by
      rw [length_streamFront hlen, hunused]
      rfl
    unfold Admits at hadmits
    split at hadmits
    · rename_i block hrole
      have hstep : c.InStep block.val :=
        ⟨hc, block.property.1, hadmits, block.property.2.trans hunused.symm⟩
      refine ⟨block.val, hstep, ?_⟩
      simp only [StreamUnderlay.decryptMetadata, hrecv, hrole]
      exact decryptNext_ok hstep plaintext
    · rename_i hrole
      obtain ⟨hnew, hfound⟩ := hadmits
      obtain ⟨found, hdiscover, hkey⟩ := hfound frame rfl
      have hstep : c.InStep (found.block.val.setImplicitNonceMode true) :=
        ⟨hc, rfl, hkey, (discover_unused hdiscover).trans hunused.symm⟩
      rw [hbytes, ← hfront, List.take_left] at hdiscover
      refine ⟨_, hstep, ?_⟩
      simp only [StreamUnderlay.decryptMetadata, hrecv, hrole, serverInit_ok hdiscover hstep, hnew,
        Bool.false_eq_true, ↓reduceIte]

theorem readOneSegment_sent {e : ReadEnv kdf} {conn : List Piece} {tail : List (Option UInt8)}
    (hsent : Sent c packet w frame) (h : Listens t e c (frame :: frames))
    (hclock : withinRange (unixMinutes e.now) (unixMinutes w.now) 1 = true)
    (hconn : symbols conn = frame.bytes.map some ++ tail) :
    ∃ d rest, t.readOneSegment e conn =
        .ok (.segment { t with recv := some d } rest frame.packet frame.nonces) ∧
      symbols rest = tail ∧ (segmentSeal c w.draws.nonce packet.payload).1.InStep d := by
  obtain ⟨plaintext, body, hlen, hbytes, hbody⟩ := hsent.reads
  obtain ⟨d, hstep, hopen⟩ := h.decryptMetadata hlen hbytes
  rw [hbytes, List.map_append, List.append_assoc] at hconn
  obtain ⟨rest1, hfull, hrest1⟩ := readFull_ok hconn
  obtain ⟨rest2, hread, hrest2⟩ :=
    hbody (d.advance w.draws.nonce) e.now rest1 tail (hstep.advance _) hclock hrest1
  refine ⟨(payloadSeal (d.advance w.draws.nonce) w.draws.nonce frame.packet.payload).1, rest2, ?_,
    hrest2, ?_⟩
  · simp only [StreamUnderlay.readOneSegment, h.length_front w.draws.nonce hlen, hfull, hopen,
      ok_bind, hread]
    rw [hsent.nonces_eq, ← hsent.payload_eq]
    rfl
  · rw [hsent.payload_eq]
    exact payloadSeal_inStep (hstep.advance _) packet.payload

theorem readLen_pos (t : StreamUnderlay) : 0 < t.readLen := by
  unfold StreamUnderlay.readLen
  split_ifs <;> decide

theorem readOneSegment_wait {e : ReadEnv kdf} {conn : List Piece} {tail : List (Option UInt8)}
    (hconn : symbols conn = none :: tail) :
    ∃ rest, t.readOneSegment e conn = .ok (.retry rest) ∧ symbols rest = tail := by
  have hconn' : symbols conn = ([] : Bytes).map some ++ none :: tail := hconn
  obtain ⟨rest, hfull, hrest⟩ := readFull_timeout hconn' (readLen_pos t)
  refine ⟨rest, ?_, hrest⟩
  simp only [StreamUnderlay.readOneSegment, hfull, and_self, ↓reduceIte]

theorem readOneSegment_late {e : ReadEnv kdf} {conn : List Piece} {bs : Bytes}
    {tail : List (Option UInt8)} (hsome : bs ≠ []) (hshort : bs.length < t.readLen)
    (hconn : symbols conn = bs.map some ++ none :: tail) :
    t.readOneSegment e conn = .error ⟨.networkError, "metadata: read " ++ toString t.readLen ++
      " bytes from StreamUnderlay failed: " ++ "i/o timeout"⟩ := by
  obtain ⟨rest, hfull, -⟩ := readFull_timeout hconn hshort
  simp only [StreamUnderlay.readOneSegment, hfull, hsome, and_false, ↓reduceIte, shortText]
  rfl

theorem readOneSegment_replayed {e : ReadEnv kdf} {conn : List Piece} {fresh : Nonce}
    {plaintext : Bytes} {tail : List (Option UInt8)} {found : Discovery}
    (hrole : t.role = .server) (hrecv : t.recv = none) (hunused : c.implicitNonce = none)
    (hlen : plaintext.length = metadataLength) (hknown : e.duplicate = true)
    (hdiscover : discover (decryptors e.env) e.published e.hintMandatory
      (streamFront c fresh plaintext) e.source = .ok found)
    (hstep : c.InStep (found.block.val.setImplicitNonceMode true))
    (hconn : symbols conn = (streamFront c fresh plaintext).map some ++ tail) :
    t.readOneSegment e conn =
      .error ⟨.replayError, "found possible replay attack with payload decrypted"⟩ := by
  obtain ⟨rest, hfull, -⟩ := readFull_ok hconn
  have hfront : (streamFront c fresh plaintext).length = t.readLen := by
    rw [length_streamFront hlen, hunused, StreamUnderlay.readLen, hrecv]
    rfl
  rw [hfront] at hfull
  simp only [StreamUnderlay.readOneSegment, hfull, StreamUnderlay.decryptMetadata, hrecv, hrole,
    serverInit_ok hdiscover hstep, hknown, ↓reduceIte]
  rfl

theorem readAll_error {e : ℕ → ReadEnv kdf} {conn : List Piece} {err : StreamError} (fuel : ℕ)
    (h : t.readOneSegment (e 0) conn = .error err) :
    t.readAll e (fuel + 1) conn = ([], some err) := by
  rw [StreamUnderlay.readAll, h]

theorem readOneSegment_end {e : ReadEnv kdf} {conn : List Piece} (hconn : symbols conn = []) :
    ∃ err, t.readOneSegment e conn = .error err ∧ err.type = .networkError := by
  have hconn' : symbols conn = ([] : Bytes).map some := hconn
  have hfull := readFull_eof hconn' (readLen_pos t)
  refine ⟨_, by simp only [StreamUnderlay.readOneSegment, hfull]; rfl, rfl⟩

def Clocks (e : ℕ → ReadEnv kdf) (segments : List (Packet × WriteEnv)) : Prop :=
  ∀ i s, segments[i]? = some s →
    withinRange (unixMinutes (e i).now) (unixMinutes s.2.now) 1 = true

/-- The reader gets everything that was sent and then finds the connection closed. -/
def ReadsAll (t : StreamUnderlay) (e : ℕ → ReadEnv kdf) (frames : List Frame)
    (conn : List Piece) : Prop :=
  ∃ n, ∀ fuel ≥ n, ∃ err : StreamError, err.type = .networkError ∧
    t.readAll e fuel conn = (frames.map fun frame => (frame.packet, frame.nonces), some err)

theorem readAll_sent {e : ℕ → ReadEnv kdf} {conn : List Piece} (hsent : SentAll c segments frames)
    (h : Listens t (e 0) c frames) (hclock : Clocks e segments)
    (hcarries : Carries (frames.map Frame.bytes) (symbols conn)) :
    ReadsAll t e frames conn := by
  generalize hfs : frames.map Frame.bytes = fs at hcarries
  generalize hs : symbols conn = s at hcarries
  induction hcarries generalizing t c e conn segments frames with
  | done =>
    obtain rfl := List.map_eq_nil_iff.mp hfs
    obtain ⟨err, hread, htype⟩ := readOneSegment_end (t := t) (e := e 0) hs
    refine ⟨1, fun fuel hfuel => ⟨err, htype, ?_⟩⟩
    obtain ⟨fuel, rfl⟩ : ∃ k, fuel = k + 1 := ⟨fuel - 1, by omega⟩
    simp only [StreamUnderlay.readAll, hread, List.map_nil]
  | wait _ ih =>
    obtain ⟨rest, hread, hrest⟩ := readOneSegment_wait (t := t) (e := e 0) hs
    obtain ⟨n, hn⟩ := ih hsent h hclock hfs hrest
    refine ⟨n + 1, fun fuel hfuel => ?_⟩
    obtain ⟨fuel, rfl⟩ : ∃ k, fuel = k + 1 := ⟨fuel - 1, by omega⟩
    simp only [StreamUnderlay.readAll, hread]
    exact hn fuel (by omega)
  | frame _ ih =>
    cases hsent with
    | nil => cases hfs
    | @cons _ packet w frame segments frames hone hall =>
      obtain ⟨hbytes, hfs⟩ := List.cons.inj hfs
      rw [← hbytes] at hs
      have hnow := hclock 0 (packet, w) rfl
      obtain ⟨d, rest, hread, hrest, hstep⟩ := readOneSegment_sent hone h hnow hs
      have hlast : (segmentSeal c w.draws.nonce packet.payload).1.implicitNonce.isNone = false := by
        rcases segmentSeal_cases c w.draws.nonce packet.payload with ⟨hc, -⟩ | ⟨hc, -⟩
        · rw [hc, Option.isNone_some]
        · rw [hc, Option.isNone_some]
      obtain ⟨n, hn⟩ := ih hall (t := { t with recv := some d }) (e := fun i => e (i + 1))
        (.used rfl hstep hlast) (fun i s hi => hclock (i + 1) s hi) hfs hrest
      refine ⟨n + 1, fun fuel hfuel => ?_⟩
      obtain ⟨fuel, rfl⟩ : ∃ k, fuel = k + 1 := ⟨fuel - 1, by omega⟩
      obtain ⟨err, htype, hreads⟩ := hn fuel (by omega)
      refine ⟨err, htype, ?_⟩
      simp only [StreamUnderlay.readAll, hread, hreads, List.map_cons]

end Follow

/-! ## A connection from its start -/

def FromSession (p : Packet) : Prop :=
  ∃ (cfg : SessionConfig) (start jitter : ℤ) (es : List Action) (outs : List Event)
    (s : Session cfg) (fate : Fate), validate cfg.trafficPattern = .ok () ∧
    Machine.Reaches Session.step Machine.Free (Session.attached start jitter) es outs s ∧
    .output p fate ∈ outs

theorem FromSession.framable {p : Packet} (h : FromSession p) : Framable p := by
  obtain ⟨cfg, start, jitter, es, outs, s, fate, hvalid, hrun, hout⟩ := h
  exact (Session.output_produced hrun hout).framable hvalid

section Connection

variable {writer : StreamUnderlay} {c : BlockCipher} {segments : List (Packet × WriteEnv)}

theorem initCipher_fresh (hsend : writer.send = none)
    (hcipher : writer.maybeInitSendBlockCipher = .ok c) :
    c.enableImplicitNonce = true ∧ c.implicitNonce = none := by
  simp only [StreamUnderlay.maybeInitSendBlockCipher, hsend] at hcipher
  split at hcipher
  · rename_i block _
    cases hcipher
    exact block.property
  · split at hcipher
    · cases hcipher
    · cases hcipher
      exact ⟨rfl, rfl⟩

theorem SendReady.start (hsend : writer.send = none)
    (hcipher : writer.maybeInitSendBlockCipher = .ok c) : SendReady writer c := by
  obtain ⟨himplicit, hunused⟩ := initCipher_fresh hsend hcipher
  refine ⟨hcipher, himplicit, ?_⟩
  rw [hsend, hunused]
  rfl

theorem SentAll.contents {frames : List Frame} (h : SentAll c segments frames) :
    frames.map (fun frame => (frame.packet.metadata.content, frame.packet.payload)) =
      segments.map fun s => (s.1.metadata.content, s.1.payload) := by
  induction h with
  | nil => rfl
  | cons hsent _ ih => rw [List.map_cons, List.map_cons, ih, hsent.content_eq, hsent.payload_eq]

/-- Whatever sessions hand over, whatever is drawn and however the bytes are cut: all of it
can be written, the nonces of the messages count up from the first, and a reader that
admits the connection gets the segments as they were sent and opens each message with the
nonce that sealed it. -/
theorem stream_in_lockstep (hsend : writer.send = none)
    (hcipher : writer.maybeInitSendBlockCipher = .ok c)
    (hsession : ∀ s ∈ segments, FromSession s.1) :
    ∃ writer' frames, writer.writeAll segments = .ok (writer', frames) ∧
      frames.map (fun frame => (frame.packet.metadata.content, frame.packet.payload)) =
        segments.map (fun s => (s.1.metadata.content, s.1.payload)) ∧
      (∀ i first nonce, (frames.flatMap Frame.nonces)[0]? = some first →
        (frames.flatMap Frame.nonces)[i]? = some nonce →
        nonceNumber nonce = (nonceNumber first + i) % 2 ^ 192) ∧
      ∀ (kdf : Pbkdf2) (reader : StreamUnderlay) (e : ℕ → ReadEnv kdf) (conn : List Piece),
        reader.recv = none → Admits reader (e 0) c frames → Clocks e segments →
        Carries (frames.map Frame.bytes) (symbols conn) → ReadsAll reader e frames conn := by
  obtain ⟨himplicit, hunused⟩ := initCipher_fresh hsend hcipher
  obtain ⟨writer', frames, hwrite, hsent⟩ := writeAll_sent (SendReady.start hsend hcipher)
    fun s hs => (hsession s hs).framable
  refine ⟨writer', frames, hwrite, hsent.contents, ?_, ?_⟩
  · intro i first nonce hfirst hi
    exact hsent.nonceNumber hfirst hi
  · intro kdf reader e conn hrecv hadmits hclock hcarries
    exact readAll_sent hsent (.first hrecv himplicit hunused hadmits) hclock hcarries

end Connection

/-! ## A client and a server -/

namespace StreamUnderlay

open PacketServer

def streamConfig : SessionConfig where
  id := 1
  isClient := true
  mtu := 1400
  transportProtocol := .streamTransport
  trafficPattern := some { lowEntropy := some { mode := some 1, maskRotation := some 1 } }

def streamRun : List Action := [
  .write [1, 2, 3], .writeOpen, .writeRequest, .writeChunk, .writeReserve, .writeLock,
  .writeFragment,
  .outputWake .notEmpty, .outputStart 0, .outputLock, .streamNext 0 .sent, .streamNext 0 .sent]

def requestPacket : Packet where
  metadata := .session { protocol := .openSessionRequest, sessionID := 1, seq := 0 }
  payload := []

def dataPacket : Packet where
  metadata := .dataAck {
    protocol := .dataClientToServerLowEntropy, lowEntropyMode := 1, sessionID := 1, seq := 1
    unAckSeq := 0, windowSize := 4096, payloadLen := 8, extractedPayloadLen := 3
    lowEntropyMaskRotation := 1 }
  payload := [1, 2, 3]

def aliceDraws : Draws := { PacketUnderlay.zeroDraws with nonce := nonceOf aliceUser }

def aliceEnv : WriteEnv := ⟨aliceDraws, fun _ => 0, 1750000000⟩

def aliceSegments : List (Packet × WriteEnv) :=
  [(requestPacket, aliceEnv), (dataPacket, aliceEnv)]

theorem aliceSegments_fromSession : ∀ s ∈ aliceSegments, FromSession s.1 := by
  have hsummary : (Machine.run Session.step (Session.attached 0 0 : Session streamConfig)
      streamRun).map (fun r => decide (.output requestPacket .sent ∈ r.2 ∧
        .output dataPacket .sent ∈ r.2)) = some true := by
    rfl
  obtain ⟨⟨s, outs⟩, hrun, hmem⟩ := Option.map_eq_some_iff.mp hsummary
  obtain ⟨hrequest, hdata⟩ := of_decide_eq_true hmem
  have hreach := Machine.reaches_of_run hrun
  intro x hx
  rcases List.mem_cons.mp hx with rfl | hx
  · exact ⟨streamConfig, 0, 0, streamRun, outs, s, .sent, rfl, hreach, hrequest⟩
  · cases List.mem_singleton.mp hx
    exact ⟨streamConfig, 0, 0, streamRun, outs, s, .sent, rfl, hreach, hdata⟩

def aliceCipher : FreshCipher :=
  ⟨(cipherOf aliceUser).val.setImplicitNonceMode true, rfl, rfl⟩

def aliceClient : StreamUnderlay where
  role := .client aliceCipher
  mtu := 1400
  trafficPattern := streamConfig.trafficPattern
  host := ⟨fun _ => 0, "host"⟩

def streamServer : StreamUnderlay where
  role := .server
  mtu := 1400
  trafficPattern := none
  host := ⟨fun _ => 0, "host"⟩

/-- Both users are registered; the replay cache says whether the connection is known. -/
def serverEnv (duplicate : Bool) : ReadEnv serverConfig.kdf where
  duplicate := duplicate
  now := 1750000000
  published := some twoUsersState
  hintMandatory := false
  env := ⟨fun _ => none, fun _ => none, fun _ => 1750000000000000000, fun _ => 0⟩
  source := sourceFromAddr ⟨none, 1000, []⟩

theorem discover_alice (duplicate : Bool) (plaintext : Bytes) :
    ∃ found, discover (decryptors (serverEnv duplicate).env) (some twoUsersState) false
        (streamFront aliceCipher.val (nonceOf aliceUser) plaintext)
        (serverEnv duplicate).source = .ok found ∧
      found.block.val.aead = aliceCipher.val.aead := by
  obtain ⟨rest, hrest⟩ := candidates_sentBy (.inl rfl) false
  have hfound : (allCandidates twoUsersState (nonceOf aliceUser) [] false).findSome?
      (tryUser (decryptors (serverEnv duplicate).env) ((nonceOf aliceUser).val ++
        (cipherOf aliceUser).val.aead.sealBytes (nonceOf aliceUser).val plaintext)) =
      some ⟨behindCipher aliceUser, plaintext, aliceUser.id, aliceUser.name,
        aliceUser.policy⟩ := by
    rw [hrest, List.findSome?_cons, tryUser, decryptors_sentBy aliceUser plaintext rfl]
    rfl
  exact ⟨_, discover_of_found hfound, rfl⟩

theorem aliceClocks (duplicate : Bool) :
    Clocks (fun _ => serverEnv duplicate) aliceSegments := by
  have hnow : withinRange (unixMinutes 1750000000) (unixMinutes 1750000000) 1 = true := by decide
  rintro (_ | _ | i) s hs
  · cases hs
    exact hnow
  · cases hs
    exact hnow
  · cases hs

theorem aliceClient_writes :
    ∃ writer' frames, aliceClient.writeAll aliceSegments = .ok (writer', frames) ∧
      Admits streamServer (serverEnv false) aliceCipher.val frames ∧
      ∃ plaintext tail, plaintext.length = metadataLength ∧ frames.flatMap Frame.bytes =
        streamFront aliceCipher.val (nonceOf aliceUser) plaintext ++ tail := by
  obtain ⟨writer', frames, hwrite, hsent⟩ := writeAll_sent
    (SendReady.start (rfl : aliceClient.send = none) rfl)
    fun s hs => (aliceSegments_fromSession s hs).framable
  refine ⟨writer', frames, hwrite, ?_⟩
  cases hsent with
  | @cons _ _ _ frame _ frames hone hall =>
    obtain ⟨plaintext, body, hlen, hbytes, -⟩ := hone.reads
    refine ⟨⟨rfl, ?_⟩, plaintext, body ++ frames.flatMap Frame.bytes, hlen, ?_⟩
    · intro head hhead
      cases hhead
      have hfront : (streamFront aliceCipher.val (nonceOf aliceUser) plaintext).length =
          metadataLength + defaultOverhead + defaultNonceSize := length_streamFront hlen
      rw [hbytes]
      change ∃ found, discover _ _ _ ((streamFront aliceCipher.val (nonceOf aliceUser) plaintext ++
        body).take _) _ = _ ∧ _
      rw [← hfront, List.take_left]
      exact discover_alice false plaintext
    · rw [List.flatMap_cons, hbytes, List.append_assoc]
      rfl

/-- The server gets what the client has sent, also when it had to wait and the nonce came
in two pieces. -/
theorem alice_read_by_server : ∃ writer' frames,
    aliceClient.writeAll aliceSegments = .ok (writer', frames) ∧ frames.length = 2 ∧
    ReadsAll streamServer (fun _ => serverEnv false) frames [.deadline,
      .bytes ((frames.flatMap Frame.bytes).take 5),
      .bytes ((frames.flatMap Frame.bytes).drop 5)] := by
  obtain ⟨writer', frames, hwrite, hcontents, -, hreads⟩ := stream_in_lockstep
    (rfl : aliceClient.send = none) (rfl : aliceClient.maybeInitSendBlockCipher = .ok _)
    aliceSegments_fromSession
  obtain ⟨_, _, hwrite', hadmits, -⟩ := aliceClient_writes
  rw [hwrite] at hwrite'
  cases hwrite'
  refine ⟨writer', frames, hwrite, ?_, hreads _ _ _ _ rfl hadmits (aliceClocks _) ?_⟩
  · have hlen := congrArg List.length hcontents
    rwa [List.length_map, List.length_map] at hlen
  · have hsymbols : symbols [.deadline, .bytes ((frames.flatMap Frame.bytes).take 5),
        .bytes ((frames.flatMap Frame.bytes).drop 5)] =
        none :: (frames.map Frame.bytes).flatten.map some := by
      rw [← List.flatMap_def]
      simp only [symbols, Piece.symbols, List.flatMap_cons, List.flatMap_nil, List.append_nil,
        ← List.map_append, List.take_append_drop, List.singleton_append]
    rw [hsymbols]
    exact .wait (carries_flatten _)

/-- A server whose replay cache knows the connection refuses it, and so does one whose
deadline passes between the nonce and the metadata. -/
theorem alice_refused_by_server : ∃ writer' frames,
    aliceClient.writeAll aliceSegments = .ok (writer', frames) ∧
    (∀ s ∈ aliceSegments, FromSession s.1) ∧
    Clocks (fun _ => serverEnv true) aliceSegments ∧
    Clocks (fun _ => serverEnv false) aliceSegments ∧
    (∀ fuel, streamServer.readAll (fun _ => serverEnv true) (fuel + 1)
      [.bytes (frames.flatMap Frame.bytes)] =
        ([], some ⟨.replayError, "found possible replay attack with payload decrypted"⟩)) ∧
    ∀ fuel, streamServer.readAll (fun _ => serverEnv false) (fuel + 1)
      [.bytes ((frames.flatMap Frame.bytes).take 24), .deadline,
        .bytes ((frames.flatMap Frame.bytes).drop 24)] =
        ([], some ⟨.networkError,
          "metadata: read 72 bytes from StreamUnderlay failed: i/o timeout"⟩) := by
  obtain ⟨writer', frames, hwrite, -, plaintext, tail, hlen, hbytes⟩ := aliceClient_writes
  refine ⟨writer', frames, hwrite, aliceSegments_fromSession, aliceClocks _, aliceClocks _, ?_, ?_⟩
  · intro fuel
    have hconn : symbols [.bytes (frames.flatMap Frame.bytes)] =
        (streamFront aliceCipher.val (nonceOf aliceUser) plaintext).map some ++
          tail.map some := by
      rw [hbytes, ← List.map_append]
      exact List.append_nil _
    obtain ⟨found, hdiscover, hkey⟩ := discover_alice true plaintext
    have hstep : aliceCipher.val.InStep (found.block.val.setImplicitNonceMode true) :=
      ⟨rfl, rfl, hkey, discover_unused hdiscover⟩
    exact readAll_error fuel (readOneSegment_replayed rfl rfl rfl hlen rfl hdiscover hstep hconn)
  · intro fuel
    have hnonce : (frames.flatMap Frame.bytes).take 24 = (nonceOf aliceUser).val := by
      rw [hbytes, streamFront, List.append_assoc]
      exact List.take_left' (nonceOf aliceUser).property
    have hconn : symbols [.bytes ((frames.flatMap Frame.bytes).take 24), .deadline,
        .bytes ((frames.flatMap Frame.bytes).drop 24)] =
        (nonceOf aliceUser).val.map some ++
          none :: ((frames.flatMap Frame.bytes).drop 24).map some := by
      rw [hnonce]
      simp only [symbols, Piece.symbols, List.flatMap_cons, List.flatMap_nil, List.append_nil,
        List.singleton_append]
    have hshort : (nonceOf aliceUser).val.length < streamServer.readLen := by
      rw [(nonceOf aliceUser).property]
      decide
    have hsome : (nonceOf aliceUser).val ≠ [] := by
      intro hnil
      have hlen := (nonceOf aliceUser).property
      rw [hnil] at hlen
      cases hlen
    have htext : "metadata: read " ++ toString streamServer.readLen ++
        " bytes from StreamUnderlay failed: " ++ "i/o timeout" =
          "metadata: read 72 bytes from StreamUnderlay failed: i/o timeout" := by
      decide +kernel
    rw [readAll_error fuel (readOneSegment_late hsome hshort hconn), htext]

end StreamUnderlay

end Mieru.Protocol
