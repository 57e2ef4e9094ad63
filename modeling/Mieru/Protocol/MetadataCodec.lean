import Mieru.Protocol.Metadata

/-! # Metadata on the wire and back

When `Unmarshal` takes a time stamp, what it leaves in the struct it is called on, and
which bytes come back from `Marshal`. -/
namespace Mieru.Protocol

open Mathext Result ProtocolType

/-! ## The time stamp -/

theorem mid_eq_left_iff {a b c : UInt32} :
    mid a b c = a ↔ (b ≤ a ∧ a ≤ c) ∨ (c ≤ a ∧ a ≤ b) := by
  simp only [mid, gt_iff_lt, UInt32.lt_iff_toNat_lt, UInt32.le_iff_toNat_le, ← UInt32.toNat_inj]
  split_ifs <;> dsimp only at * <;> omega

def maxMinute : UInt32 := 4294967295

def Recent (timestamp : UInt32) (now : ℕ) : Prop :=
  timestamp.toNat ≤ (unixMinutes now).toNat + 1 ∧ (unixMinutes now).toNat ≤ timestamp.toNat + 1

instance (timestamp : UInt32) (now : ℕ) : Decidable (Recent timestamp now) :=
  inferInstanceAs (Decidable (_ ∧ _))

/-- The time stamps at which a bound of the accepted range wraps around. -/
def EdgeTimestamp (timestamp : UInt32) : Prop := timestamp = 0 ∨ timestamp = maxMinute

instance (timestamp : UInt32) : Decidable (EdgeTimestamp timestamp) :=
  inferInstanceAs (Decidable (_ ∨ _))

theorem withinRange_one_iff {current timestamp : UInt32} :
    withinRange current timestamp 1 = true ↔
      if EdgeTimestamp timestamp then current ≠ timestamp
      else timestamp.toNat ≤ current.toNat + 1 ∧ current.toNat ≤ timestamp.toNat + 1 := by
  have hlow := timestamp.toNat_sub 1
  have hhigh := timestamp.toNat_add 1
  have ht := timestamp.toNat_lt
  have hc := current.toNat_lt
  rw [withinRange, decide_eq_true_eq, mid_eq_left_iff]
  simp only [UInt32.le_iff_toNat_le, hlow, hhigh, EdgeTimestamp, maxMinute, ne_eq,
    ← UInt32.toNat_inj, UInt32.reduceToNat]
  split_ifs <;> omega

theorem withinRange_of_edge {timestamp : UInt32} {now : ℕ} (hedge : EdgeTimestamp timestamp)
    (hold : ¬Recent timestamp now) : withinRange (unixMinutes now) timestamp 1 = true := by
  rw [withinRange_one_iff, if_pos hedge]
  rintro rfl
  exact hold ⟨Nat.le_succ _, Nat.le_succ _⟩

theorem recent_of_withinRange {timestamp : UInt32} {now : ℕ} (hedge : ¬EdgeTimestamp timestamp)
    (h : withinRange (unixMinutes now) timestamp 1 = true) : Recent timestamp now := by
  rwa [withinRange_one_iff, if_neg hedge] at h

structure TimeChecked {α : Type} (unmarshal : Bytes → ℕ → Except String α) : Prop where
  inRange : ∀ {b now m}, unmarshal b now = .ok m →
    withinRange (unixMinutes now) (uint32At b 2) 1 = true
  same : ∀ {b now now' m}, unmarshal b now = .ok m →
    withinRange (unixMinutes now') (uint32At b 2) 1 = true → unmarshal b now' = .ok m

theorem SessionStruct.timeChecked : TimeChecked SessionStruct.unmarshal where
  inRange := by
    intro b now ss h
    simp only [unmarshal, ensure_bind_eq_ok] at h
    obtain ⟨-, h⟩ := h
    split at h
    · cases h
    · split_ifs at h
      exact (ensure_bind_eq_ok.mp h).1
  same := by
    intro b now now' ss h hrange
    simp only [unmarshal, ensure_bind_eq_ok] at h ⊢
    refine ⟨h.1, ?_⟩
    obtain ⟨-, h⟩ := h
    cases hp : ofByte (byteAt b 0) with
    | none =>
      simp only [hp] at h
      cases h
    | some p =>
      simp only [hp] at h ⊢
      split_ifs at h ⊢
      obtain ⟨-, h⟩ := ensure_bind_eq_ok.mp h
      exact ensure_bind_eq_ok.mpr ⟨hrange, h⟩

theorem DataAckStruct.timeChecked : TimeChecked DataAckStruct.unmarshal where
  inRange := by
    intro b now das h
    simp only [unmarshal, ensure_bind_eq_ok] at h
    obtain ⟨-, h⟩ := h
    split at h
    · cases h
    · split_ifs at h
      · exact (ensure_bind_eq_ok.mp h).1
      · exact (ensure_bind_eq_ok.mp h).1
  same := by
    intro b now now' das h hrange
    simp only [unmarshal, ensure_bind_eq_ok] at h ⊢
    refine ⟨h.1, ?_⟩
    obtain ⟨-, h⟩ := h
    cases hp : ofByte (byteAt b 0) with
    | none =>
      simp only [hp] at h
      cases h
    | some p =>
      simp only [hp] at h ⊢
      split_ifs at h ⊢
      · obtain ⟨-, h⟩ := ensure_bind_eq_ok.mp h
        exact ensure_bind_eq_ok.mpr ⟨hrange, h⟩
      · obtain ⟨-, h⟩ := ensure_bind_eq_ok.mp h
        exact ensure_bind_eq_ok.mpr ⟨hrange, h⟩

def SessionStruct.Formed (b : Bytes) : Prop :=
  b.length = metadataLength ∧
    ∃ p, ofByte (byteAt b 0) = some p ∧ isSessionProtocol p = true ∧
      (uint16At b 15).toNat ≤ maxSessionOpenPayload

def DataAckStruct.Formed (b : Bytes) : Prop :=
  b.length = metadataLength ∧
    ∃ p, ofByte (byteAt b 0) = some p ∧ isDataAckProtocol p = true ∧
      (isLowEntropyProtocol p = true →
        LowEntropyFormed (byteAt b 1) (byteAt b 31) (uint32At b 25) (uint16At b 29) (uint16At b 22))

theorem SessionStruct.unmarshal_ok_iff {b : Bytes} {now : ℕ} :
    (∃ ss, unmarshal b now = .ok ss) ↔
      withinRange (unixMinutes now) (uint32At b 2) 1 = true ∧ Formed b := by
  unfold unmarshal Formed
  simp only [ensure_bind_eq_ok]
  cases hp : ofByte (byteAt b 0) with
  | none => simp
  | some p =>
    by_cases hsession : isSessionProtocol p = true
    · simp only [hsession, ↓reduceDIte, ensure_bind_eq_ok, exists_and_left, pure, Except.pure,
        Except.ok.injEq, ↓existsAndEq, Option.some.injEq, true_and, and_true]
      exact and_left_comm
    · simp [hsession]

theorem DataAckStruct.unmarshal_ok_iff {b : Bytes} {now : ℕ} :
    (∃ das, unmarshal b now = .ok das) ↔
      withinRange (unixMinutes now) (uint32At b 2) 1 = true ∧ Formed b := by
  unfold unmarshal Formed
  simp only [ensure_bind_eq_ok]
  cases hp : ofByte (byteAt b 0) with
  | none => simp
  | some p =>
    by_cases hdata : isDataAckProtocol p = true
    · by_cases hlow : isLowEntropyProtocol p = true
      · simp only [hdata, hlow, ↓reduceDIte, ↓reduceIte, bind_eq_ok, ensure_eq_ok,
          Unique.exists_iff, PUnit.default_eq_unit, validateLowEntropyDataAckMetadata_eq_ok,
          exists_and_left, pure, Except.pure, Except.ok.injEq, ↓existsAndEq, Option.some.injEq,
          true_and, and_true, forall_const]
        exact and_left_comm
      · simp only [hdata, hlow, ↓reduceDIte, ↓reduceIte, Bool.false_eq_true, ensure_bind_eq_ok,
          exists_and_left, pure, Except.pure, Except.ok.injEq, ↓existsAndEq, Option.some.injEq,
          and_true, IsEmpty.forall_iff]
        exact and_comm
    · simp [hdata]

theorem recent_iff_of_accepted {accepted formed : Prop} {timestamp : UInt32} {now : ℕ}
    (h : accepted ↔ withinRange (unixMinutes now) timestamp 1 = true ∧ formed) :
    (accepted → Recent timestamp now) ↔
      (EdgeTimestamp timestamp → Recent timestamp now ∨ ¬formed) := by
  constructor
  · intro hrecent hedge
    by_cases hold : Recent timestamp now
    · exact .inl hold
    · exact .inr fun hformed => hold (hrecent (h.mpr ⟨withinRange_of_edge hedge hold, hformed⟩))
  · intro hguard haccepted
    obtain ⟨hrange, hformed⟩ := h.mp haccepted
    by_cases hedge : EdgeTimestamp timestamp
    · exact (hguard hedge).resolve_right (not_not_intro hformed)
    · exact recent_of_withinRange hedge hrange

/-- Accepted metadata is recent, except that the first and the last minute of the 32 bits
pass at any time. -/
theorem accepted_recent_iff (b : Bytes) (now : ℕ) :
    (((∃ ss, SessionStruct.unmarshal b now = .ok ss) → Recent (uint32At b 2) now) ↔
      (EdgeTimestamp (uint32At b 2) →
        Recent (uint32At b 2) now ∨ ¬SessionStruct.Formed b)) ∧
    (((∃ das, DataAckStruct.unmarshal b now = .ok das) → Recent (uint32At b 2) now) ↔
      (EdgeTimestamp (uint32At b 2) →
        Recent (uint32At b 2) now ∨ ¬DataAckStruct.Formed b)) :=
  ⟨recent_iff_of_accepted SessionStruct.unmarshal_ok_iff,
    recent_iff_of_accepted DataAckStruct.unmarshal_ok_iff⟩

/-- An open session request and a data segment of minute 0, read in June 2025. -/
theorem minute_zero_accepted_in_2025 :
    (∃ ss, SessionStruct.unmarshal (openSessionRequest.toByte :: List.replicate 31 0)
      1750000000 = .ok ss) ∧
    (∃ das, DataAckStruct.unmarshal (dataClientToServer.toByte :: List.replicate 31 0)
      1750000000 = .ok das) ∧
    ¬Recent (uint32At (openSessionRequest.toByte :: List.replicate 31 0) 2) 1750000000 ∧
    ¬Recent (uint32At (dataClientToServer.toByte :: List.replicate 31 0) 2) 1750000000 :=
  ⟨⟨_, rfl⟩, ⟨_, rfl⟩, by decide, by decide⟩

/-! ## The struct that is filled in -/

/-- A struct that `Unmarshal` is called on; a fresh one has no session protocol yet. -/
structure SessionFields where
  protocol : UInt8 := 0
  timestamp : UInt32 := 0
  sessionID : UInt32 := 0
  seq : UInt32 := 0
  statusCode : UInt8 := 0
  payloadLen : UInt16 := 0
  suffixLen : UInt8 := 0
  deriving DecidableEq, Repr

def SessionStruct.fields (ss : SessionStruct) : SessionFields where
  protocol := ss.protocol.toByte
  timestamp := ss.timestamp
  sessionID := ss.sessionID
  seq := ss.seq
  statusCode := ss.statusCode
  payloadLen := ss.payloadLen
  suffixLen := ss.suffixLen

def SessionFields.unmarshal (b : Bytes) (now : ℕ) : ExceptT String (StateM SessionFields) Unit := do
  let length := b.length
  ensure (length = metadataLength) s!"input bytes: {length}, want {metadataLength}"
  let first := byteAt b 0
  ensure (openSessionRequest.toByte = first ∨ openSessionResponse.toByte = first ∨
    closeSessionRequest.toByte = first ∨ closeSessionResponse.toByte = first)
    s!"invalid protocol {first}"
  let originalTimestamp := uint32At b 2
  let currentTimestamp := unixMinutes now
  let seconds := originalTimestamp * 60
  ensure (withinRange currentTimestamp originalTimestamp 1) s!"invalid timestamp {seconds}"
  let payloadLen := uint16At b 15
  ensure (payloadLen.toNat ≤ maxSessionOpenPayload)
    s!"payload size {payloadLen} exceed maximum value {maxSessionOpenPayload}"
  modify fun ss => { ss with protocol := first }
  modify fun ss => { ss with timestamp := originalTimestamp }
  modify fun ss => { ss with sessionID := uint32At b 6 }
  modify fun ss => { ss with seq := uint32At b 10 }
  modify fun ss => { ss with statusCode := byteAt b 14 }
  modify fun ss => { ss with payloadLen := payloadLen }
  modify fun ss => { ss with suffixLen := byteAt b 17 }

theorem toByte_of_ofByte {b : UInt8} {p : ProtocolType} (h : ofByte b = some p) : p.toByte = b := by
  simpa using List.find?_some h

theorem sessionByte_iff {b : UInt8} :
    (openSessionRequest.toByte = b ∨ openSessionResponse.toByte = b ∨
      closeSessionRequest.toByte = b ∨ closeSessionResponse.toByte = b) ↔
    ∃ p, ofByte b = some p ∧ isSessionProtocol p = true := by
  constructor
  · rintro (rfl | rfl | rfl | rfl)
    · exact ⟨_, rfl, rfl⟩
    · exact ⟨_, rfl, rfl⟩
    · exact ⟨_, rfl, rfl⟩
    · exact ⟨_, rfl, rfl⟩
  · rintro ⟨p, hp, hsession⟩
    rw [← toByte_of_ofByte hp]
    revert hsession
    cases p <;> decide

theorem SessionFields.run_unmarshal (b : Bytes) (now : ℕ) (ss : SessionFields) :
    ((unmarshal b now).run).run ss =
      match SessionStruct.unmarshal b now with
      | .ok read => (.ok (), read.fields)
      | .error e => (.error e, ss) := by
  simp only [unmarshal, SessionStruct.unmarshal, run_ensure_bind, ensure_bind, sessionByte_iff]
  by_cases hlen : b.length = metadataLength
  · cases hp : ofByte (byteAt b 0) with
    | none => simp [hlen]
    | some p =>
      by_cases hsession : isSessionProtocol p = true
      · simp only [hlen, Option.some.injEq, exists_eq_left', hsession, ↓reduceIte, ↓reduceDIte,
          ← toByte_of_ofByte hp]
        split_ifs <;> rfl
      · simp [hlen, hsession]
  · simp [hlen]

structure DataAckFields where
  protocol : UInt8 := 0
  timestamp : UInt32 := 0
  lowEntropyMode : UInt8 := 0
  sessionID : UInt32 := 0
  seq : UInt32 := 0
  unAckSeq : UInt32 := 0
  windowSize : UInt16 := 0
  fragment : UInt8 := 0
  prefixLen : UInt8 := 0
  payloadLen : UInt16 := 0
  suffixLen : UInt8 := 0
  lowEntropyMask : UInt32 := 0
  extractedPayloadLen : UInt16 := 0
  lowEntropyMaskRotation : UInt8 := 0
  deriving DecidableEq, Repr

def DataAckStruct.fields (das : DataAckStruct) : DataAckFields where
  protocol := das.protocol.toByte
  timestamp := das.timestamp
  lowEntropyMode := das.lowEntropyMode
  sessionID := das.sessionID
  seq := das.seq
  unAckSeq := das.unAckSeq
  windowSize := das.windowSize
  fragment := das.fragment
  prefixLen := das.prefixLen
  payloadLen := das.payloadLen
  suffixLen := das.suffixLen
  lowEntropyMask := das.lowEntropyMask
  extractedPayloadLen := das.extractedPayloadLen
  lowEntropyMaskRotation := das.lowEntropyMaskRotation

def DataAckFields.unmarshal (b : Bytes) (now : ℕ) : ExceptT String (StateM DataAckFields) Unit := do
  let length := b.length
  ensure (length = metadataLength) s!"input bytes: {length}, want {metadataLength}"
  let first := byteAt b 0
  match ofByte first with
  | none => throw s!"invalid protocol {first}"
  | some p =>
    if hp : isDataAckProtocol p = true then do
      let originalTimestamp := uint32At b 2
      let currentTimestamp := unixMinutes now
      let seconds := originalTimestamp * 60
      ensure (withinRange currentTimestamp originalTimestamp 1) s!"invalid timestamp {seconds}"
      let mut lowEntropyMode : UInt8 := 0
      let mut lowEntropyMask : UInt32 := 0
      let mut extractedPayloadLen : UInt16 := 0
      let mut lowEntropyMaskRotation : UInt8 := 0
      if isLowEntropyProtocol p then
        lowEntropyMode := byteAt b 1
        lowEntropyMask := uint32At b 25
        extractedPayloadLen := uint16At b 29
        lowEntropyMaskRotation := byteAt b 31
        validateLowEntropyDataAckMetadata {
          protocol := p
          lowEntropyMode := lowEntropyMode
          sessionID := 0
          seq := 0
          unAckSeq := 0
          windowSize := 0
          payloadLen := uint16At b 22
          lowEntropyMask := lowEntropyMask
          extractedPayloadLen := extractedPayloadLen
          lowEntropyMaskRotation := lowEntropyMaskRotation
          isDataAck := hp }
      modify fun das => { das with protocol := first }
      modify fun das => { das with timestamp := originalTimestamp }
      modify fun das => { das with lowEntropyMode := lowEntropyMode }
      modify fun das => { das with sessionID := uint32At b 6 }
      modify fun das => { das with seq := uint32At b 10 }
      modify fun das => { das with unAckSeq := uint32At b 14 }
      modify fun das => { das with windowSize := uint16At b 18 }
      modify fun das => { das with fragment := byteAt b 20 }
      modify fun das => { das with prefixLen := byteAt b 21 }
      modify fun das => { das with payloadLen := uint16At b 22 }
      modify fun das => { das with suffixLen := byteAt b 24 }
      modify fun das => { das with lowEntropyMask := lowEntropyMask }
      modify fun das => { das with extractedPayloadLen := extractedPayloadLen }
      modify fun das => { das with lowEntropyMaskRotation := lowEntropyMaskRotation }
    else throw s!"invalid protocol {first}"

theorem validate_mk (timestamp sessionID seq unAckSeq : UInt32) (windowSize payloadLen : UInt16)
    (fragment prefixLen suffixLen mode rotation : UInt8) (mask : UInt32) (extracted : UInt16)
    {p : ProtocolType} (hp : isDataAckProtocol p = true) :
    validateLowEntropyDataAckMetadata ⟨p, timestamp, mode, sessionID, seq, unAckSeq, windowSize,
      fragment, prefixLen, payloadLen, suffixLen, mask, extracted, rotation, hp⟩ =
    validateLowEntropyDataAckMetadata ⟨p, 0, mode, 0, 0, 0, 0, 0, 0, payloadLen, 0, mask, extracted,
      rotation, hp⟩ := rfl

theorem DataAckFields.run_unmarshal (b : Bytes) (now : ℕ) (das : DataAckFields) :
    ((unmarshal b now).run).run das =
      match DataAckStruct.unmarshal b now with
      | .ok read => (.ok (), read.fields)
      | .error e => (.error e, das) := by
  simp only [unmarshal, DataAckStruct.unmarshal, run_ensure_bind, ensure_bind]
  by_cases hlen : b.length = metadataLength
  · cases hp : ofByte (byteAt b 0) with
    | none =>
      simp only [hlen, ↓reduceIte]
      rfl
    | some p =>
      by_cases hdata : isDataAckProtocol p = true
      · simp only [hlen, hdata, ↓reduceIte, ↓reduceDIte, ← toByte_of_ofByte hp, run_ensure_bind]
        by_cases hlow : isLowEntropyProtocol p = true
        · simp only [hlow, ↓reduceIte]
          rw [validate_mk (uint32At b 2)]
          cases validateLowEntropyDataAckMetadata _ <;> split_ifs <;> rfl
        · simp only [hlow, Bool.false_eq_true, ↓reduceIte]
          split_ifs <;> rfl
      · simp only [hlen, hdata, ↓reduceIte]
        rfl
  · simp only [hlen, ↓reduceIte]

/-! ## There and back -/

def definesByte (p : ProtocolType) (i : ℕ) : Bool :=
  if isSessionProtocol p then i = 0 ∨ (2 ≤ i ∧ i < 18)
  else if isLowEntropyProtocol p then i < metadataLength
  else i = 0 ∨ (2 ≤ i ∧ i < 25)

theorem be32_uint32At {b : Bytes} {i : ℕ} (h : i + 4 ≤ b.length) :
    be32 (uint32At b i) = (b.drop i).take 4 := by
  have hlen : ((b.drop i).take 4).length = 4 := by
    simp only [List.length_take, List.length_drop]
    omega
  have hlt := BigEndian.decode_lt ((b.drop i).take 4)
  rw [hlen] at hlt
  have hcode := BigEndian.encode_decode ((b.drop i).take 4)
  rwa [hlen, ← UInt32.toNat_ofNat_of_lt' hlt] at hcode

theorem be16_uint16At {b : Bytes} {i : ℕ} (h : i + 2 ≤ b.length) :
    be16 (uint16At b i) = (b.drop i).take 2 := by
  have hlen : ((b.drop i).take 2).length = 2 := by
    simp only [List.length_take, List.length_drop]
    omega
  have hlt := BigEndian.decode_lt ((b.drop i).take 2)
  rw [hlen] at hlt
  have hcode := BigEndian.encode_decode ((b.drop i).take 2)
  rwa [hlen, ← UInt16.toNat_ofNat_of_lt' hlt] at hcode

theorem singleton_byteAt {b : Bytes} {i : ℕ} (h : i < b.length) :
    [byteAt b i] = (b.drop i).take 1 := by
  rw [List.drop_eq_getElem_cons h, byteAt, List.getD_eq_getElem?_getD, List.getElem?_eq_getElem h]
  rfl

theorem take_drop_append (b : Bytes) (i m n : ℕ) :
    (b.drop i).take m ++ (b.drop (i + m)).take n = (b.drop i).take (m + n) := by
  rw [List.take_add, List.drop_drop]

theorem SessionStruct.fields_of_unmarshal {b : Bytes} {now : ℕ} {ss : SessionStruct}
    (h : unmarshal b now = .ok ss) : b.length = metadataLength ∧ ss.fields =
      { protocol := byteAt b 0, timestamp := uint32At b 2, sessionID := uint32At b 6,
        seq := uint32At b 10, statusCode := byteAt b 14, payloadLen := uint16At b 15,
        suffixLen := byteAt b 17 } := by
  simp only [unmarshal, ensure_bind_eq_ok] at h
  obtain ⟨hlen, h⟩ := h
  refine ⟨hlen, ?_⟩
  split at h
  · cases h
  · rename_i p hp
    split_ifs at h
    simp only [ensure_bind_eq_ok] at h
    obtain ⟨-, -, h⟩ := h
    cases h
    simp only [fields, toByte_of_ofByte hp]

theorem DataAckStruct.fields_of_unmarshal {b : Bytes} {now : ℕ} {das : DataAckStruct}
    (h : unmarshal b now = .ok das) : b.length = metadataLength ∧
      let low := isLowEntropyProtocol das.protocol
      das.fields =
      { protocol := byteAt b 0, timestamp := uint32At b 2
        lowEntropyMode := if low then byteAt b 1 else 0
        sessionID := uint32At b 6, seq := uint32At b 10, unAckSeq := uint32At b 14
        windowSize := uint16At b 18, fragment := byteAt b 20, prefixLen := byteAt b 21
        payloadLen := uint16At b 22, suffixLen := byteAt b 24
        lowEntropyMask := if low then uint32At b 25 else 0
        extractedPayloadLen := if low then uint16At b 29 else 0
        lowEntropyMaskRotation := if low then byteAt b 31 else 0 } := by
  simp only [unmarshal, ensure_bind_eq_ok] at h
  obtain ⟨hlen, h⟩ := h
  refine ⟨hlen, ?_⟩
  split at h
  · cases h
  · rename_i p hp
    split_ifs at h with hdata hlow
    · obtain ⟨-, h⟩ := ensure_bind_eq_ok.mp h
      obtain ⟨_, -, h⟩ := bind_eq_ok.mp h
      cases h
      simp only [fields, toByte_of_ofByte hp, hlow, ↓reduceIte]
    · obtain ⟨-, h⟩ := ensure_bind_eq_ok.mp h
      cases h
      simp only [fields, toByte_of_ofByte hp, hlow, Bool.false_eq_true, ↓reduceIte]

theorem SessionStruct.marshal_of_unmarshal {b : Bytes} {now : ℕ} {ss : SessionStruct}
    (h : unmarshal b now = .ok ss) (now' : ℕ) :
    ss.marshal now' = [byteAt b 0, 0] ++ be32 (unixMinutes now') ++ (b.drop 6).take 12 ++
      List.replicate 14 0 := by
  obtain ⟨hlen, hfields⟩ := fields_of_unmarshal h
  simp only [metadataLength] at hlen
  simp only [fields, SessionFields.mk.injEq] at hfields
  obtain ⟨hp, -, hid, hseq, hstatus, hpay, hsuffix⟩ := hfields
  have hbody : be32 ss.sessionID ++ be32 ss.seq ++ [ss.statusCode] ++ be16 ss.payloadLen ++
      [ss.suffixLen] = (b.drop 6).take 12 := by
    rw [hid, hseq, hstatus, hpay, hsuffix, be32_uint32At (by omega), be32_uint32At (by omega),
      singleton_byteAt (by omega), be16_uint16At (by omega), singleton_byteAt (by omega)]
    rw [take_drop_append, take_drop_append, take_drop_append, take_drop_append]
  rw [← hbody, marshal, hp]
  simp only [List.append_assoc]

theorem DataAckStruct.marshal_of_unmarshal {b : Bytes} {now : ℕ} {das : DataAckStruct}
    (h : unmarshal b now = .ok das) (now' : ℕ) :
    das.marshal now' =
      if isLowEntropyProtocol das.protocol then
        [byteAt b 0, byteAt b 1] ++ be32 (unixMinutes now') ++ (b.drop 6).take 26 ++ []
      else
        [byteAt b 0, 0] ++ be32 (unixMinutes now') ++ (b.drop 6).take 19 ++
          List.replicate 7 0 := by
  obtain ⟨hlen, hfields⟩ := fields_of_unmarshal h
  simp only [metadataLength] at hlen
  simp only [fields, DataAckFields.mk.injEq] at hfields
  obtain ⟨hp, -, hmode, hid, hseq, hack, hwindow, hfragment, hpre, hpay, hsuffix, hmask,
    hextracted, hrotation⟩ := hfields
  have hbody : be32 das.sessionID ++ be32 das.seq ++ be32 das.unAckSeq ++ be16 das.windowSize ++
      [das.fragment] ++ [das.prefixLen] ++ be16 das.payloadLen ++ [das.suffixLen] =
      (b.drop 6).take 19 := by
    rw [hid, hseq, hack, hwindow, hfragment, hpre, hpay, hsuffix, be32_uint32At (by omega),
      be32_uint32At (by omega), be32_uint32At (by omega), be16_uint16At (by omega),
      singleton_byteAt (by omega), singleton_byteAt (by omega), be16_uint16At (by omega),
      singleton_byteAt (by omega)]
    rw [take_drop_append, take_drop_append, take_drop_append, take_drop_append, take_drop_append,
      take_drop_append, take_drop_append]
  split_ifs with hlow
  · simp only [hlow, ↓reduceIte] at hmode hmask hextracted hrotation
    have htail : das.lowEntropyFields = (b.drop 25).take 7 := by
      rw [lowEntropyFields, if_pos hlow, hmask, hextracted, hrotation, be32_uint32At (by omega),
        be16_uint16At (by omega), singleton_byteAt (by omega), take_drop_append, take_drop_append]
    rw [← take_drop_append b 6 19 7, ← hbody, ← htail, marshal, hp, hmode, if_pos hlow]
    simp only [List.append_assoc, List.cons_append, List.nil_append, List.append_nil]
  · rw [← hbody, marshal, hp, if_neg hlow, lowEntropyFields, if_neg hlow]
    simp only [List.append_assoc, List.cons_append, List.nil_append]

theorem byteAt_middle (front : Bytes) {b rest : Bytes} {n i : ℕ} (hle : front.length ≤ i)
    (hlt : i < front.length + n) (hlen : front.length + n ≤ b.length) :
    byteAt (front ++ (b.drop front.length).take n ++ rest) i = byteAt b i := by
  have hshort : i - front.length < ((b.drop front.length).take n).length := by
    simp only [List.length_take, List.length_drop]
    omega
  simp only [byteAt, List.getD_eq_getElem?_getD]
  rw [List.append_assoc, List.getElem?_append_right hle, List.getElem?_append_left hshort,
    List.getElem?_take_of_lt (by omega), List.getElem?_drop, Nat.add_sub_cancel' hle]

theorem byteAt_stamped {b : Bytes} {x y : UInt8} {minute : UInt32} {n : ℕ} {rest : Bytes}
    (hlen : 6 + n ≤ b.length) {i : ℕ} (hle : 2 ≤ i) (hlt : i < 6 + n)
    (hstamp : uint32At b 2 = minute ∨ ¬(2 ≤ i ∧ i < 6)) :
    byteAt ([x, y] ++ be32 minute ++ (b.drop 6).take n ++ rest) i = byteAt b i := by
  by_cases hi : 6 ≤ i
  · have hsix : ([x, y] ++ be32 minute).length = 6 := rfl
    exact byteAt_middle ([x, y] ++ be32 minute) (by omega) (by omega) (by omega)
  · have htwo : [x, y].length = 2 := rfl
    rw [← hstamp.resolve_right (by omega), be32_uint32At (by omega), List.append_assoc [x, y],
      take_drop_append b 2 4 n]
    exact byteAt_middle [x, y] (by omega) (by omega) (by omega)

/-- `out` is `b` on the bytes of the protocol, up to the time stamp, which is the clock's. -/
structure MarshalsBack (p : ProtocolType) (b out : Bytes) (now : ℕ) : Prop where
  length : out.length = metadataLength
  stamped : uint32At out 2 = unixMinutes now
  same : ∀ i, definesByte p i = true → uint32At b 2 = unixMinutes now ∨ ¬(2 ≤ i ∧ i < 6) →
    byteAt out i = byteAt b i

theorem SessionStruct.marshalsBack {b : Bytes} {now : ℕ} {ss : SessionStruct}
    (h : unmarshal b now = .ok ss) (now' : ℕ) :
    MarshalsBack ss.protocol b (ss.marshal now') now' where
  length := ss.length_marshal now'
  stamped := ofNat_decode_be32 _
  same := by
    intro i hdefined hstamp
    have hlen : b.length = 32 := (fields_of_unmarshal h).1
    simp only [definesByte, ss.isSession, ↓reduceIte, decide_eq_true_eq] at hdefined
    rw [marshal_of_unmarshal h]
    rcases hdefined with rfl | ⟨hle, hlt⟩
    · rfl
    · exact byteAt_stamped (by omega) hle (by omega) hstamp

theorem DataAckStruct.marshalsBack {b : Bytes} {now : ℕ} {das : DataAckStruct}
    (h : unmarshal b now = .ok das) (now' : ℕ) :
    MarshalsBack das.protocol b (das.marshal now') now' where
  length := das.length_marshal now'
  stamped := ofNat_decode_be32 _
  same := by
    intro i hdefined hstamp
    have hlen : b.length = 32 := (fields_of_unmarshal h).1
    simp only [definesByte, isSessionProtocol_eq_false das.isDataAck, Bool.false_eq_true,
      ↓reduceIte] at hdefined
    rw [marshal_of_unmarshal h]
    split_ifs at hdefined ⊢ with hlow
    · have hlt : i < 32 := of_decide_eq_true hdefined
      by_cases hhead : i < 2
      · obtain rfl | rfl : i = 0 ∨ i = 1 := by omega
        · rfl
        · rfl
      · exact byteAt_stamped (by omega) (by omega) (by omega) hstamp
    · rcases decide_eq_true_eq.mp hdefined with rfl | ⟨hle, hlt⟩
      · rfl
      · exact byteAt_stamped (by omega) hle (by omega) hstamp

/-- The fields that other protocols do not carry are zero. -/
def DataAckStruct.onWire (das : DataAckStruct) : DataAckStruct :=
  if isLowEntropyProtocol das.protocol then das
  else { das with
    lowEntropyMode := 0, lowEntropyMask := 0, extractedPayloadLen := 0,
    lowEntropyMaskRotation := 0 }

theorem DataAckStruct.marshal_onWire (das : DataAckStruct) (now : ℕ) :
    das.onWire.marshal now = das.marshal now := by
  unfold onWire
  split_ifs with hlow
  · rfl
  · simp only [marshal, lowEntropyFields, if_neg hlow]

theorem DataAckStruct.carried_onWire {das : DataAckStruct}
    (h : isLowEntropyProtocol das.protocol = true →
      validateLowEntropyDataAckMetadata das = .ok ()) :
    das.onWire.Carried := by
  unfold onWire
  split_ifs with hlow
  · rw [Carried, if_pos hlow]
    exact h hlow
  · rw [Carried, if_neg hlow]
    exact ⟨rfl, rfl, rfl, rfl⟩

theorem withinRange_same {now : ℕ} (hedge : ¬EdgeTimestamp (unixMinutes now)) :
    withinRange (unixMinutes now) (unixMinutes now) 1 = true := by
  rw [withinRange_one_iff, if_neg hedge]
  omega

/-- What is marshalled is read back in the same minute, what is accepted marshals back, and a
failed `Unmarshal` has not touched its struct. -/
theorem metadata_codec_sound :
    (∀ (ss : SessionStruct) (now : ℕ) (receiver : SessionFields),
      ss.payloadLen.toNat ≤ maxSessionOpenPayload → ¬EdgeTimestamp (unixMinutes now) →
      ((SessionFields.unmarshal (ss.marshal now) now).run).run receiver =
        (.ok (), (ss.stamp now).fields)) ∧
    (∀ (das : DataAckStruct) (now : ℕ) (receiver : DataAckFields),
      (isLowEntropyProtocol das.protocol = true →
        validateLowEntropyDataAckMetadata das = .ok ()) → ¬EdgeTimestamp (unixMinutes now) →
      ((DataAckFields.unmarshal (das.marshal now) now).run).run receiver =
        (.ok (), (das.onWire.stamp now).fields)) ∧
    (∀ (b : Bytes) (now now' : ℕ) (receiver read : SessionFields),
      ((SessionFields.unmarshal b now).run).run receiver = (.ok (), read) →
      ∃ ss : SessionStruct, ss.fields = read ∧ MarshalsBack ss.protocol b (ss.marshal now') now') ∧
    (∀ (b : Bytes) (now now' : ℕ) (receiver read : DataAckFields),
      ((DataAckFields.unmarshal b now).run).run receiver = (.ok (), read) →
      ∃ das : DataAckStruct, das.fields = read ∧
        MarshalsBack das.protocol b (das.marshal now') now') ∧
    (∀ (b : Bytes) (now : ℕ) (receiver left : SessionFields) (e : String),
      ((SessionFields.unmarshal b now).run).run receiver = (.error e, left) → left = receiver) ∧
    (∀ (b : Bytes) (now : ℕ) (receiver left : DataAckFields) (e : String),
      ((DataAckFields.unmarshal b now).run).run receiver = (.error e, left) → left = receiver) := by
  refine ⟨?_, ?_, ?_, ?_, ?_, ?_⟩
  · intro ss now receiver hlen hedge
    rw [SessionFields.run_unmarshal, SessionStruct.unmarshal_marshal (withinRange_same hedge) hlen]
  · intro das now receiver hvalid hedge
    rw [DataAckFields.run_unmarshal, ← das.marshal_onWire,
      DataAckStruct.unmarshal_marshal (withinRange_same hedge)
        (DataAckStruct.carried_onWire hvalid)]
  · intro b now now' receiver read hread
    rw [SessionFields.run_unmarshal] at hread
    split at hread
    · rename_i ss haccepted
      cases hread
      exact ⟨ss, rfl, SessionStruct.marshalsBack haccepted now'⟩
    · cases hread
  · intro b now now' receiver read hread
    rw [DataAckFields.run_unmarshal] at hread
    split at hread
    · rename_i das haccepted
      cases hread
      exact ⟨das, rfl, DataAckStruct.marshalsBack haccepted now'⟩
    · cases hread
  · intro b now receiver left e hfailed
    rw [SessionFields.run_unmarshal] at hfailed
    split at hfailed <;> cases hfailed
    rfl
  · intro b now receiver left e hfailed
    rw [DataAckFields.run_unmarshal] at hfailed
    split at hfailed <;> cases hfailed
    rfl

/-- A data segment that passes at once, into a fresh struct. -/
theorem fresh_data_restored :
    ((DataAckFields.unmarshal (DataAckStruct.marshal
      { protocol := .dataClientToServer, sessionID := 7, seq := 3, unAckSeq := 2,
        windowSize := 256, payloadLen := 5 } 1750000000) 1750000000).run).run {} =
      (.ok (),
        { protocol := 6, timestamp := 29166666, sessionID := 7, seq := 3, unAckSeq := 2,
          windowSize := 256, payloadLen := 5 }) :=
  metadata_codec_sound.2.1
    { protocol := .dataClientToServer, sessionID := 7, seq := 3, unAckSeq := 2, windowSize := 256,
      payloadLen := 5 } 1750000000 {} (fun h => absurd h (by decide)) (by decide)

/-- A request of the minute before gets the current minute, and in the first minute of the
32 bits a request is not even read back. -/
theorem old_request_restamped :
    (∃ ss, SessionStruct.unmarshal
        ([openSessionRequest.toByte, 0] ++ be32 29166665 ++ List.replicate 26 0) 1750000000 =
        .ok ss ∧
      definesByte ss.protocol 5 = true ∧
      byteAt (ss.marshal 1750000000) 5 ≠
        byteAt ([openSessionRequest.toByte, 0] ++ be32 29166665 ++ List.replicate 26 0) 5) ∧
    SessionStruct.unmarshal
      (SessionStruct.marshal { protocol := .openSessionRequest, sessionID := 7, seq := 0 } 30) 30 =
      .error "invalid timestamp 0" := by
  exact ⟨⟨_, rfl, rfl, by decide⟩, rfl⟩

end Mieru.Protocol
