import Mieru.Lib.BigEndian
import Mieru.Lib.Result
import Mieru.Mathext

/-! # Low entropy payload codec

A payload is cut into groups of 4 to 7 bytes. Each group is deposited into the
one-bits of an 8-byte mask and every other bit of the chunk carries the same
padding bit. The mask is rotated from chunk to chunk. -/
namespace Mieru.LowEntropy

open Mathext BitSelect Result

/-- Protobuf enumerations are open: any integer can arrive from a peer. -/
abbrev LowEntropyMode := ℤ
abbrev LowEntropyMaskRotation := ℤ

def modeOff : LowEntropyMode := 0
def mode32 : LowEntropyMode := 1
def mode40 : LowEntropyMode := 2
def mode48 : LowEntropyMode := 3
def mode56 : LowEntropyMode := 4

def noRotation : LowEntropyMaskRotation := 0
def rotateRight1 : LowEntropyMaskRotation := 1
def rotateRight15 : LowEntropyMaskRotation := 15
def rotateLeft1 : LowEntropyMaskRotation := 16
def rotateLeft15 : LowEntropyMaskRotation := 240

def lowEntropyChunkLen : ℕ := 8

structure LowEntropyModeParams where
  sourceBytesPerChunk : ℕ
  halfMaskOnes : ℕ
  source_pos : 0 < sourceBytesPerChunk
  source_lt : sourceBytesPerChunk < 8
  ones_eq : 2 * halfMaskOnes = sourceBytesPerChunk * 8

def buildLowEntropyParams (mode : LowEntropyMode) : Except String LowEntropyModeParams :=
  if mode = mode32 then .ok ⟨4, 16, by decide, by decide, by decide⟩
  else if mode = mode40 then .ok ⟨5, 20, by decide, by decide, by decide⟩
  else if mode = mode48 then .ok ⟨6, 24, by decide, by decide, by decide⟩
  else if mode = mode56 then .ok ⟨7, 28, by decide, by decide, by decide⟩
  else .error s!"invalid low entropy mode {mode}"

def chunkCount (n perChunk : ℕ) : ℕ := n / perChunk + if n % perChunk ≠ 0 then 1 else 0

def lowEntropyEncodedPayloadLen (extractedPayloadLen : ℤ) (mode : LowEntropyMode) :
    Except String UInt16 := do
  let params ← buildLowEntropyParams mode
  ensure (0 < extractedPayloadLen) s!"invalid extracted payload length {extractedPayloadLen}"
  let count := chunkCount extractedPayloadLen.toNat params.sourceBytesPerChunk
  ensure (count ≤ 65535 / lowEntropyChunkLen)
    s!"encoded payload length for {extractedPayloadLen} bytes exceeds 65535"
  return UInt16.ofNat (count * lowEntropyChunkLen)

def isValidLowEntropyRotation (rotation : LowEntropyMaskRotation) : Bool :=
  rotation = noRotation ∨ (rotateRight1 ≤ rotation ∧ rotation ≤ rotateRight15) ∨
    (rotateLeft1 ≤ rotation ∧ rotation ≤ rotateLeft15 ∧ rotation % 16 = 0)

def rotateLowEntropyMask (initialMask : BitVec 64) (rotation : LowEntropyMaskRotation)
    (chunkIndex : ℕ) : BitVec 64 :=
  if rotation = noRotation ∨ chunkIndex = 0 then initialMask
  else if rotation ≤ rotateRight15 then
    rotateLeft64 initialMask (-(((chunkIndex % 64 : ℕ) : ℤ) * rotation))
  else rotateLeft64 initialMask (((chunkIndex % 64 : ℕ) : ℤ) * (rotation / 16))

def validateLowEntropyCodecParams (mode : LowEntropyMode) (halfMask : UInt32)
    (rotation : LowEntropyMaskRotation) : Except String LowEntropyModeParams := do
  let params ← buildLowEntropyParams mode
  let count := onesCount32 halfMask
  let want := params.halfMaskOnes
  ensure (count = want) s!"low entropy mask has {count} one-bits, want {want}"
  ensure (isValidLowEntropyRotation rotation) s!"invalid low entropy mask rotation {rotation}"
  return params

def lowBits (n : ℕ) : BitVec 64 :=
  if n ≥ 64 then BitVec.allOnes 64 else 1#64 <<< n - 1#64

def encodeChunk (chunkMask : BitVec 64) (paddingBit : UInt8) (src : List UInt8) : List UInt8 :=
  let sourceLen := src.length
  let scratch := List.replicate (lowEntropyChunkLen - sourceLen) 0 ++ src
  let source := BitVec.ofNat 64 (BigEndian.decode scratch)
  let dataMask := PDEP (lowBits (sourceLen * 8)) chunkMask
  let chunk := PDEP source chunkMask
  let chunk := if paddingBit = 1 then chunk ||| ~~~dataMask else chunk
  BigEndian.encode lowEntropyChunkLen chunk.toNat

/-- The loop takes at most `sourceBytesPerChunk` bytes a round; `src.length` rounds suffice. -/
def encodeLoop (perChunk : ℕ) (initialMask : BitVec 64) (rotation : LowEntropyMaskRotation)
    (paddingBit : UInt8) : ℕ → ℕ → List UInt8 → List UInt8
  | 0, _, _ => []
  | n + 1, chunkIndex, src =>
    if src = [] then []
    else
      encodeChunk (rotateLowEntropyMask initialMask rotation chunkIndex) paddingBit
          (src.take perChunk) ++
        encodeLoop perChunk initialMask rotation paddingBit n (chunkIndex + 1) (src.drop perChunk)

def encodeLowEntropyPayloadWithPaddingBit (src : List UInt8) (mode : LowEntropyMode)
    (halfMask : UInt32) (rotation : LowEntropyMaskRotation) (paddingBit : UInt8) :
    Except String (List UInt8) := do
  let params ← validateLowEntropyCodecParams mode halfMask rotation
  ensure (paddingBit ≤ 1) s!"invalid low entropy padding bit {paddingBit}"
  let _ ← lowEntropyEncodedPayloadLen src.length mode
  return encodeLoop params.sourceBytesPerChunk (repeatUint32 halfMask) rotation paddingBit
    src.length 0 src

/-- The padding polarity comes from the first chunk and binds all later ones. -/
def checkPadding (chunkIndex : ℕ) (paddingBit : UInt8) (padding paddingMask : BitVec 64) :
    Except String UInt8 :=
  if chunkIndex = 0 then
    if padding = 0#64 then .ok 0
    else if padding = paddingMask then .ok 1
    else .error s!"low entropy chunk {chunkIndex} has mixed padding bits"
  else if (paddingBit = 0 ∧ padding ≠ 0#64) ∨ (paddingBit = 1 ∧ padding ≠ paddingMask) then
    .error s!"low entropy chunk {chunkIndex} has non-uniform padding bits"
  else .ok paddingBit

def decodeLoop (perChunk : ℕ) (initialMask : BitVec 64) (rotation : LowEntropyMaskRotation) :
    ℕ → ℕ → UInt8 → List UInt8 → ℕ → Except String (List UInt8)
  | 0, _, _, _, _ => .ok []
  | n + 1, chunkIndex, paddingBit, encoded, remaining =>
    if remaining = 0 then .ok []
    else do
      let sourceLen := min perChunk remaining
      let chunk := BitVec.ofNat 64 (BigEndian.decode (encoded.take lowEntropyChunkLen))
      let chunkMask := rotateLowEntropyMask initialMask rotation chunkIndex
      let dataMask := PDEP (lowBits (sourceLen * 8)) chunkMask
      let paddingMask := ~~~dataMask
      let paddingBit ← checkPadding chunkIndex paddingBit (chunk &&& paddingMask) paddingMask
      let source := PEXT chunk chunkMask
      let scratch := BigEndian.encode lowEntropyChunkLen source.toNat
      let rest ← decodeLoop perChunk initialMask rotation n (chunkIndex + 1) paddingBit
        (encoded.drop lowEntropyChunkLen) (remaining - perChunk)
      return scratch.drop (lowEntropyChunkLen - sourceLen) ++ rest

def decodeLowEntropyPayload (encoded : List UInt8) (extractedPayloadLen : ℤ)
    (mode : LowEntropyMode) (halfMask : UInt32) (rotation : LowEntropyMaskRotation) :
    Except String (List UInt8) := do
  let params ← validateLowEntropyCodecParams mode halfMask rotation
  let expectedEncodedLen ← lowEntropyEncodedPayloadLen extractedPayloadLen mode
  let length := encoded.length
  ensure (length = expectedEncodedLen.toNat)
    s!"encoded payload length is {length}, want {expectedEncodedLen}"
  decodeLoop params.sourceBytesPerChunk (repeatUint32 halfMask) rotation
    extractedPayloadLen.toNat 0 0 encoded extractedPayloadLen.toNat

/-! ## One chunk -/

section Chunk

variable {mask : BitVec 64} {n : ℕ}

theorem getLsbD_lowBits (n : ℕ) {i : ℕ} (hi : i < 64) :
    (lowBits n).getLsbD i = decide (i < n) := by
  by_cases hn : n ≥ 64
  · rw [lowBits, if_pos hn, BitVec.getLsbD_allOnes]
    simp [hi, show i < n by omega]
  · have hbit : (1#64 <<< n).getLsbD n = true := by
      rw [← BitVec.twoPow_eq, BitVec.getLsbD_twoPow]
      simp [show n < 64 by omega]
    have hlow : ∀ j < n, (1#64 <<< n).getLsbD j = false := by
      intro j hj
      rw [← BitVec.twoPow_eq, BitVec.getLsbD_twoPow]
      simp [show n ≠ j by omega]
    rw [lowBits, if_neg hn, getLsbD_sub_one hbit hlow, ← BitVec.twoPow_eq,
      BitVec.getLsbD_twoPow]
    rcases lt_trichotomy i n with hj | hj | hj
    · simp [hj]
    · simp [hj]
    · simp [show ¬ i < n by omega, show n ≠ i by omega]

theorem getLsbD_dataMask (mask : BitVec 64) (n : ℕ) {i : ℕ} (hi : i < 64) :
    (PDEP (lowBits n) mask).getLsbD i = (mask.getLsbD i && decide (rank mask i < n)) := by
  rw [getLsbD_PDEP _ _ hi]
  by_cases hm : mask.getLsbD i = true
  · have hlt := rank_lt_ones hm
    have hle := ones_le mask
    rw [getLsbD_lowBits n (by omega)]
  · simp [hm]

/-- The chunk as a word: data at the data positions, the padding bit elsewhere. -/
def chunkWord (mask : BitVec 64) (paddingBit : UInt8) (n : ℕ) (source : BitVec 64) : BitVec 64 :=
  if paddingBit = 1 then PDEP source mask ||| ~~~PDEP (lowBits n) mask else PDEP source mask

theorem encodeChunk_eq (paddingBit : UInt8) (src : List UInt8) :
    encodeChunk mask paddingBit src = BigEndian.encode 8
      (chunkWord mask paddingBit (src.length * 8)
        (BitVec.ofNat 64 (BigEndian.decode src))).toNat := by
  simp only [encodeChunk, chunkWord, lowEntropyChunkLen, BigEndian.decode_replicate_zero]

theorem getLsbD_chunkWord (paddingBit : UInt8) (source : BitVec 64) {i : ℕ} (hi : i < 64)
    (hsource : source.toNat < 2 ^ n) :
    (chunkWord mask paddingBit n source).getLsbD i =
      if (PDEP (lowBits n) mask).getLsbD i = true then source.getLsbD (rank mask i)
      else decide (paddingBit = 1) := by
  have hsmall : ¬ rank mask i < n → source.getLsbD (rank mask i) = false := by
    intro hr
    rw [← BitVec.testBit_toNat]
    exact Nat.testBit_lt_two_pow
      (lt_of_lt_of_le hsource (Nat.pow_le_pow_right (by decide) (by omega)))
  have hdata := getLsbD_dataMask mask n hi
  have hword : (chunkWord mask paddingBit n source).getLsbD i =
      ((mask.getLsbD i && source.getLsbD (rank mask i)) ||
        (decide (paddingBit = 1) && !(PDEP (lowBits n) mask).getLsbD i)) := by
    by_cases hp : paddingBit = 1
    · rw [chunkWord, if_pos hp, BitVec.getLsbD_or, BitVec.getLsbD_not, getLsbD_PDEP source _ hi]
      simp only [hp, hi, decide_true, Bool.true_and]
    · rw [chunkWord, if_neg hp, getLsbD_PDEP source _ hi]
      simp only [hp, decide_false, Bool.false_and, Bool.or_false]
  rw [hword, hdata]
  by_cases hm : mask.getLsbD i = true
  · by_cases hr : rank mask i < n
    · simp [hm, hr]
    · simp [hm, hr, hsmall hr]
  · simp [hm]

/-- Extraction returns the source bits: every rank below `n` is the rank of a data position. -/
theorem PEXT_chunkWord (paddingBit : UInt8) (source : BitVec 64) (hn : n ≤ ones mask)
    (hsource : source.toNat < 2 ^ n) :
    (PEXT (chunkWord mask paddingBit n source) mask).toNat % 2 ^ n = source.toNat := by
  apply Nat.eq_of_testBit_eq
  intro k
  rw [Nat.testBit_mod_two_pow, BitVec.testBit_toNat, BitVec.testBit_toNat]
  by_cases hk : k < n
  · obtain ⟨i, hi, hm, hr⟩ := exists_rank_eq (m := mask) (k := k) (by omega)
    have hdata : (PDEP (lowBits n) mask).getLsbD i = true := by
      rw [getLsbD_dataMask mask n hi, hm, hr]
      simp [hk]
    have hbit := getLsbD_PEXT_rank (chunkWord mask paddingBit n source) mask hm
    rw [getLsbD_chunkWord paddingBit source hi hsource, if_pos hdata, hr] at hbit
    simp [hk, hbit]
  · have hzero : source.getLsbD k = false := by
      rw [← BitVec.testBit_toNat]
      exact Nat.testBit_lt_two_pow
        (lt_of_lt_of_le hsource (Nat.pow_le_pow_right (by decide) (by omega)))
    simp [hk, hzero]

def UniformPadding (mask : BitVec 64) (n : ℕ) (paddingBit : UInt8) (chunk : BitVec 64) : Prop :=
  chunk &&& ~~~PDEP (lowBits n) mask =
    if paddingBit = 1 then ~~~PDEP (lowBits n) mask else 0#64

theorem uniformPadding_iff {paddingBit : UInt8} {chunk : BitVec 64} :
    UniformPadding mask n paddingBit chunk ↔
      ∀ i < 64, (PDEP (lowBits n) mask).getLsbD i = false →
        chunk.getLsbD i = decide (paddingBit = 1) := by
  have hbit : ∀ i < 64, (if paddingBit = 1 then ~~~PDEP (lowBits n) mask else 0#64).getLsbD i =
      (decide (paddingBit = 1) && !(PDEP (lowBits n) mask).getLsbD i) := by
    intro i hi
    by_cases hp : paddingBit = 1
    · simp [hp, hi]
    · simp [hp]
  constructor
  · intro h i hi hd
    have hc := congrArg (fun x => BitVec.getLsbD x i) h
    simp only [BitVec.getLsbD_and, BitVec.getLsbD_not, hbit i hi, hd] at hc
    simpa [hi] using hc
  · intro h
    apply BitVec.eq_of_getLsbD_eq
    intro i hi
    rw [hbit i hi, BitVec.getLsbD_and, BitVec.getLsbD_not]
    cases hd : (PDEP (lowBits n) mask).getLsbD i with
    | true => simp only [Bool.not_true, Bool.and_false]
    | false => simp only [h i hi hd, hi, decide_true, Bool.not_false, Bool.and_true]

theorem uniformPadding_chunkWord (paddingBit : UInt8) (source : BitVec 64)
    (hsource : source.toNat < 2 ^ n) :
    UniformPadding mask n paddingBit (chunkWord mask paddingBit n source) := by
  rw [uniformPadding_iff]
  intro i hi hd
  rw [getLsbD_chunkWord paddingBit source hi hsource]
  simp [hd]

theorem chunkWord_PEXT {paddingBit : UInt8} {chunk : BitVec 64}
    (h : UniformPadding mask n paddingBit chunk) :
    chunkWord mask paddingBit n (BitVec.ofNat 64 ((PEXT chunk mask).toNat % 2 ^ n)) = chunk := by
  rw [uniformPadding_iff] at h
  have hsource : (BitVec.ofNat 64 ((PEXT chunk mask).toNat % 2 ^ n)).toNat =
      (PEXT chunk mask).toNat % 2 ^ n := by
    rw [BitVec.toNat_ofNat]
    exact Nat.mod_eq_of_lt (lt_of_le_of_lt (Nat.mod_le _ _) (PEXT chunk mask).isLt)
  have hlt : (PEXT chunk mask).toNat % 2 ^ n < 2 ^ n := Nat.mod_lt _ (Nat.two_pow_pos n)
  apply BitVec.eq_of_getLsbD_eq
  intro i hi
  rw [getLsbD_chunkWord paddingBit _ hi (by rw [hsource]; exact hlt)]
  by_cases hd : (PDEP (lowBits n) mask).getLsbD i = true
  · have hdata := hd
    rw [getLsbD_dataMask mask n hi] at hdata
    simp only [Bool.and_eq_true, decide_eq_true_eq] at hdata
    rw [if_pos hd, ← BitVec.testBit_toNat, hsource, Nat.testBit_mod_two_pow,
      BitVec.testBit_toNat, getLsbD_PEXT_rank chunk mask hdata.1]
    simp [hdata.2]
  · rw [if_neg hd, h i hi (by simpa using hd)]

theorem paddingBit_cases {b : UInt8} (h : b ≤ 1) : b = 0 ∨ b = 1 := by
  have hle : b.toNat ≤ 1 := UInt8.le_iff_toNat_le.mp h
  have hcases : b.toNat = 0 ∨ b.toNat = 1 := by omega
  rcases hcases with hb | hb
  · exact Or.inl (UInt8.toNat_inj.mp hb)
  · exact Or.inr (UInt8.toNat_inj.mp hb)

theorem checkPadding_ok {chunkIndex : ℕ} {paddingBit bit : UInt8} {chunk : BitVec 64}
    (hb : paddingBit ≤ 1)
    (h : checkPadding chunkIndex paddingBit (chunk &&& ~~~PDEP (lowBits n) mask)
      (~~~PDEP (lowBits n) mask) = .ok bit) :
    UniformPadding mask n bit chunk ∧ bit ≤ 1 ∧ (chunkIndex ≠ 0 → bit = paddingBit) := by
  unfold checkPadding at h
  by_cases hidx : chunkIndex = 0
  · rw [if_pos hidx] at h
    split_ifs at h with hzero hones
    · cases h
      exact ⟨hzero, by decide, fun hne => absurd hidx hne⟩
    · cases h
      exact ⟨hones, by decide, fun hne => absurd hidx hne⟩
  · rw [if_neg hidx] at h
    split_ifs at h with hbad
    cases h
    push Not at hbad
    refine ⟨?_, hb, fun _ => rfl⟩
    rcases paddingBit_cases hb with rfl | rfl
    · exact hbad.1 rfl
    · exact hbad.2 rfl

theorem checkPadding_uniform {chunkIndex : ℕ} {paddingBit bit : UInt8} {chunk : BitVec 64}
    (h : UniformPadding mask n bit chunk) (hbit : bit ≤ 1)
    (hpad : ~~~PDEP (lowBits n) mask ≠ 0#64) (hidx : chunkIndex = 0 ∨ paddingBit = bit) :
    checkPadding chunkIndex paddingBit (chunk &&& ~~~PDEP (lowBits n) mask)
      (~~~PDEP (lowBits n) mask) = .ok bit := by
  unfold UniformPadding at h
  rw [h]
  rcases paddingBit_cases hbit with rfl | rfl
  · rcases hidx with hidx | hidx
    · simp [checkPadding, hidx]
    · simp [checkPadding, hidx]
  · rcases hidx with hidx | hidx
    · simp [checkPadding, hidx, hpad]
    · simp [checkPadding, hidx, hpad]

theorem paddingMask_ne_zero (hones : ones mask < 64) : ~~~PDEP (lowBits n) mask ≠ 0#64 := by
  intro hzero
  have hall : ∀ i < 64, mask.getLsbD i = true := by
    intro i hi
    have hbit := congrArg (fun x => BitVec.getLsbD x i) hzero
    simp only [BitVec.getLsbD_not, hi, decide_true, Bool.true_and, getLsbD_dataMask mask n hi,
      BitVec.getLsbD_zero] at hbit
    simp only [Bool.not_eq_false', Bool.and_eq_true] at hbit
    exact hbit.1
  have hfull : ones mask = 64 := Nat.count_of_forall hall
  omega

theorem two_pow_mul_eight (k : ℕ) : 2 ^ (k * 8) = 256 ^ k := by
  rw [Nat.mul_comm, Nat.pow_mul]

theorem ofNat_decode_encode (chunk : BitVec 64) :
    BitVec.ofNat 64 (BigEndian.decode (BigEndian.encode 8 chunk.toNat)) = chunk := by
  apply BitVec.eq_of_toNat_eq
  have hlt := chunk.isLt
  rw [BigEndian.decode_encode, BitVec.toNat_ofNat]
  omega

theorem drop_scratch (sourceLen : ℕ) (h : sourceLen ≤ 8) (v : ℕ) :
    (BigEndian.encode lowEntropyChunkLen v).drop (lowEntropyChunkLen - sourceLen) =
      BigEndian.encode sourceLen v := by
  have hdrop := BigEndian.drop_encode (8 - sourceLen) sourceLen v
  rwa [show 8 - sourceLen + sourceLen = 8 by omega] at hdrop

theorem decode_encodeChunk (mask : BitVec 64) (bit : UInt8) (src : List UInt8)
    (hlen : src.length < 8) (hones : src.length * 8 ≤ ones mask) :
    ∃ chunk, BitVec.ofNat 64 (BigEndian.decode (encodeChunk mask bit src)) = chunk ∧
      UniformPadding mask (src.length * 8) bit chunk ∧
      BigEndian.encode src.length (PEXT chunk mask).toNat = src := by
  have hdec := BigEndian.decode_lt src
  have hsource : (BitVec.ofNat 64 (BigEndian.decode src)).toNat = BigEndian.decode src := by
    rw [BitVec.toNat_ofNat]
    apply Nat.mod_eq_of_lt
    calc BigEndian.decode src < 256 ^ src.length := hdec
      _ ≤ 256 ^ 8 := Nat.pow_le_pow_right (by decide) (by omega)
      _ = 2 ^ 64 := by norm_num
  have hlt : (BitVec.ofNat 64 (BigEndian.decode src)).toNat < 2 ^ (src.length * 8) := by
    rw [hsource, two_pow_mul_eight]
    exact hdec
  refine ⟨_, rfl, ?_, ?_⟩
  · rw [encodeChunk_eq, ofNat_decode_encode]
    exact uniformPadding_chunkWord bit _ hlt
  · rw [encodeChunk_eq, ofNat_decode_encode]
    have hext := PEXT_chunkWord bit _ hones hlt
    rw [hsource, two_pow_mul_eight] at hext
    have hcongr : BigEndian.encode src.length (PEXT (chunkWord mask bit (src.length * 8)
        (BitVec.ofNat 64 (BigEndian.decode src))) mask).toNat =
        BigEndian.encode src.length (BigEndian.decode src) := by
      apply BigEndian.encode_congr
      rw [hext, Nat.mod_eq_of_lt hdec]
    rw [hcongr, BigEndian.encode_decode]

theorem encodeChunk_decode {bit : UInt8} {sourceLen : ℕ} (block : List UInt8)
    (hblock : block.length = 8)
    (h : UniformPadding mask (sourceLen * 8) bit (BitVec.ofNat 64 (BigEndian.decode block))) :
    encodeChunk mask bit (BigEndian.encode sourceLen
      (PEXT (BitVec.ofNat 64 (BigEndian.decode block)) mask).toNat) = block := by
  have hword : (BitVec.ofNat 64 (BigEndian.decode block)).toNat = BigEndian.decode block := by
    rw [BitVec.toNat_ofNat]
    apply Nat.mod_eq_of_lt
    have hlt := BigEndian.decode_lt block
    rw [hblock] at hlt
    omega
  rw [encodeChunk_eq, BigEndian.length_encode, BigEndian.decode_encode, ← two_pow_mul_eight,
    chunkWord_PEXT h, hword]
  have hround := BigEndian.encode_decode block
  rwa [hblock] at hround

end Chunk

/-! ## The whole payload -/

section Payload

theorem ones_rotateLowEntropyMask (m : BitVec 64) (rotation : LowEntropyMaskRotation) (idx : ℕ) :
    ones (rotateLowEntropyMask m rotation idx) = ones m := by
  unfold rotateLowEntropyMask
  split
  · rfl
  · split <;> exact ones_rotateLeft64 _ _

@[simp] theorem chunkCount_zero (perChunk : ℕ) : chunkCount 0 perChunk = 0 := by
  simp [chunkCount]

theorem chunkCount_le_iff {n perChunk k : ℕ} (hper : 0 < perChunk) :
    chunkCount n perChunk ≤ k ↔ n ≤ k * perChunk := by
  unfold chunkCount
  by_cases hmod : n % perChunk = 0
  · have hmul := Nat.div_mul_cancel (Nat.dvd_of_mod_eq_zero hmod)
    rw [if_neg (not_not.mpr hmod), Nat.add_zero, ← Nat.mul_le_mul_right_iff hper, hmul]
  · have hne : n ≠ k * perChunk := by
      intro heq
      exact hmod (heq ▸ Nat.mul_mod_left _ _)
    rw [if_pos hmod, Nat.succ_le_iff, Nat.div_lt_iff_lt_mul hper]
    exact ⟨Nat.le_of_lt, fun hle => Nat.lt_of_le_of_ne hle hne⟩

theorem chunkCount_step {n perChunk : ℕ} (hper : 0 < perChunk) (hn : 0 < n) :
    chunkCount n perChunk = chunkCount (n - perChunk) perChunk + 1 := by
  by_cases hle : perChunk ≤ n
  · have hdiv : n / perChunk = (n - perChunk) / perChunk + 1 := Nat.div_eq_sub_div hper hle
    have hmod : n % perChunk = (n - perChunk) % perChunk := Nat.mod_eq_sub_mod hle
    rw [chunkCount, chunkCount, hdiv, hmod]
    omega
  · have hlt : n < perChunk := by omega
    rw [show n - perChunk = 0 by omega, chunkCount_zero, chunkCount, Nat.div_eq_of_lt hlt,
      Nat.mod_eq_of_lt hlt, if_pos (by omega)]

variable {perChunk : ℕ} {m : BitVec 64} {rotation : LowEntropyMaskRotation}

theorem length_encodeChunk (mask : BitVec 64) (paddingBit : UInt8) (src : List UInt8) :
    (encodeChunk mask paddingBit src).length = 8 := by
  simp [encodeChunk, lowEntropyChunkLen]

theorem length_encodeLoop (hper : 0 < perChunk) (paddingBit : UInt8) (fuel idx : ℕ)
    (src : List UInt8) (hfuel : src.length ≤ fuel) :
    (encodeLoop perChunk m rotation paddingBit fuel idx src).length =
      chunkCount src.length perChunk * 8 := by
  induction fuel generalizing idx src with
  | zero =>
    have hnil : src = [] := List.eq_nil_of_length_eq_zero (by omega)
    simp [encodeLoop, hnil]
  | succ fuel ih =>
    by_cases hsrc : src = []
    · simp [encodeLoop, hsrc]
    · have hpos : 0 < src.length := List.length_pos_of_ne_nil hsrc
      have hrest := ih (idx + 1) (src.drop perChunk) (by simp; omega)
      rw [encodeLoop, if_neg hsrc, List.length_append, length_encodeChunk, hrest,
        List.length_drop, chunkCount_step hper hpos]
      omega

theorem decodeLoop_encodeLoop (hper : 0 < perChunk) (hlt : perChunk < 8)
    (hones : ones m = perChunk * 8) {bit : UInt8} (hbit : bit ≤ 1) (fuel idx : ℕ)
    (paddingBit : UInt8) (src : List UInt8) (hfuel : src.length ≤ fuel)
    (hidx : idx = 0 ∨ paddingBit = bit) :
    decodeLoop perChunk m rotation fuel idx paddingBit
      (encodeLoop perChunk m rotation bit fuel idx src) src.length = .ok src := by
  induction fuel generalizing idx paddingBit src with
  | zero =>
    have hnil : src = [] := List.eq_nil_of_length_eq_zero (by omega)
    simp [decodeLoop, hnil]
  | succ fuel ih =>
    by_cases hsrc : src = []
    · simp [decodeLoop, hsrc]
    · have hpos : 0 < src.length := List.length_pos_of_ne_nil hsrc
      have hrest := ih (idx + 1) bit (src.drop perChunk) (by simp; omega) (Or.inr rfl)
      rw [List.length_drop] at hrest
      have hmask := ones_rotateLowEntropyMask m rotation idx
      have htake : (src.take perChunk).length = min perChunk src.length := List.length_take
      obtain ⟨chunk, hchunk, huni, hbytes⟩ :=
        decode_encodeChunk (rotateLowEntropyMask m rotation idx) bit (src.take perChunk)
          (by omega) (by omega)
      rw [htake] at huni hbytes
      have hcheck := checkPadding_uniform huni hbit (paddingMask_ne_zero (by omega)) hidx
      have hlen := length_encodeChunk (rotateLowEntropyMask m rotation idx) bit (src.take perChunk)
      rw [decodeLoop, if_neg (by omega), encodeLoop, if_neg hsrc]
      simp only [lowEntropyChunkLen, List.take_left' hlen, List.drop_left' hlen, hchunk, hcheck,
        ok_bind, hrest]
      have hdrop := drop_scratch (min perChunk src.length) (by omega)
        (PEXT chunk (rotateLowEntropyMask m rotation idx)).toNat
      simp only [lowEntropyChunkLen] at hdrop
      rw [hdrop, hbytes, List.take_append_drop]
      rfl

theorem encodeLoop_of_decodeLoop (hper : 0 < perChunk) (hlt : perChunk < 8) (fuel idx : ℕ)
    (paddingBit : UInt8) (encoded : List UInt8) (remaining : ℕ) {s : List UInt8}
    (hbit : paddingBit ≤ 1)
    (hfuel : remaining ≤ fuel) (hlen : encoded.length = chunkCount remaining perChunk * 8)
    (h : decodeLoop perChunk m rotation fuel idx paddingBit encoded remaining = .ok s) :
    s.length = remaining ∧ ∃ bit ≤ 1, (idx ≠ 0 → bit = paddingBit) ∧
      encodeLoop perChunk m rotation bit fuel idx s = encoded := by
  induction fuel generalizing idx paddingBit encoded remaining s with
  | zero =>
    have hrem : remaining = 0 := by omega
    have hnil : encoded = [] := List.eq_nil_of_length_eq_zero (by simp [hlen, hrem])
    cases h
    exact ⟨by simp [hrem], paddingBit, hbit, fun _ => rfl, by simp [encodeLoop, hnil]⟩
  | succ fuel ih =>
    by_cases hrem : remaining = 0
    · have hnil : encoded = [] := List.eq_nil_of_length_eq_zero (by simp [hlen, hrem])
      rw [decodeLoop, if_pos hrem] at h
      cases h
      exact ⟨by simp [hrem], paddingBit, hbit, fun _ => rfl, by simp [encodeLoop, hnil]⟩
    · rw [chunkCount_step hper (by omega)] at hlen
      have hblock : (encoded.take 8).length = 8 := by simp; omega
      rw [decodeLoop, if_neg hrem] at h
      simp only [bind_eq_ok, lowEntropyChunkLen] at h
      obtain ⟨bit, hcheck, rest, hrest, hs⟩ := h
      obtain ⟨huni, hle, hsame⟩ := checkPadding_ok hbit hcheck
      obtain ⟨hrlen, bit', hle', hsame', henc⟩ := ih (idx + 1) bit (encoded.drop 8)
        (remaining - perChunk) hle (by omega) (by simp; omega) hrest
      have hbits : bit' = bit := hsame' (by omega)
      subst hbits
      have hdrop := drop_scratch (min perChunk remaining) (by omega)
        (PEXT (BitVec.ofNat 64 (BigEndian.decode (encoded.take 8)))
          (rotateLowEntropyMask m rotation idx)).toNat
      simp only [lowEntropyChunkLen] at hdrop
      rw [hdrop] at hs
      cases hs
      have hchunk := encodeChunk_decode (encoded.take 8) hblock huni
      generalize hd : BigEndian.encode (min perChunk remaining) _ = group at hchunk ⊢
      have hglen : group.length = min perChunk remaining := by simp [← hd]
      refine ⟨by simp [hglen, hrlen]; omega, bit', hle, hsame, ?_⟩
      -- a short group is the last one, so the cut at `perChunk` gives it back
      have hcut : (group ++ rest).take perChunk = group ∧ (group ++ rest).drop perChunk = rest := by
        by_cases hshort : remaining ≤ perChunk
        · have hnil : rest = [] := List.eq_nil_of_length_eq_zero (by omega)
          simp only [hnil, List.append_nil]
          exact ⟨List.take_of_length_le (by omega), List.drop_eq_nil_of_le (by omega)⟩
        · exact ⟨List.take_left' (by omega), List.drop_left' (by omega)⟩
      have hne : group ++ rest ≠ [] := by
        intro hnil
        have hzero := congrArg List.length hnil
        simp only [List.length_append, List.length_nil] at hzero
        omega
      rw [encodeLoop, if_neg hne, hcut.1, hcut.2, hchunk, henc, List.take_append_drop]

theorem validate_eq_ok {mode : LowEntropyMode} {halfMask : UInt32}
    {rotation : LowEntropyMaskRotation} {params : LowEntropyModeParams} :
    validateLowEntropyCodecParams mode halfMask rotation = .ok params ↔
      buildLowEntropyParams mode = .ok params ∧ onesCount32 halfMask = params.halfMaskOnes ∧
        isValidLowEntropyRotation rotation = true := by
  unfold validateLowEntropyCodecParams
  constructor
  · intro h
    obtain ⟨params', hbuild, h⟩ := bind_eq_ok.mp h
    obtain ⟨hcount, h⟩ := ensure_bind_eq_ok.mp h
    obtain ⟨hrot, h⟩ := ensure_bind_eq_ok.mp h
    cases h
    exact ⟨hbuild, hcount, hrot⟩
  · rintro ⟨hbuild, hcount, hrot⟩
    simp [hbuild, hcount, hrot, pure, Except.pure]

theorem encodedPayloadLen_eq_ok {n : ℤ} {mode : LowEntropyMode} {params : LowEntropyModeParams}
    (hbuild : buildLowEntropyParams mode = .ok params) {len : UInt16} :
    lowEntropyEncodedPayloadLen n mode = .ok len ↔
      0 < n ∧ chunkCount n.toNat params.sourceBytesPerChunk ≤ 8191 ∧
        len = UInt16.ofNat (chunkCount n.toNat params.sourceBytesPerChunk * 8) := by
  unfold lowEntropyEncodedPayloadLen
  rw [hbuild, ok_bind, ensure_bind_eq_ok, ensure_bind_eq_ok]
  simp only [lowEntropyChunkLen, pure, Except.pure, Except.ok.injEq]
  exact and_congr_right fun _ => and_congr_right fun _ => eq_comm

theorem toNat_encodedLen {count : ℕ} (h : count ≤ 8191) :
    (UInt16.ofNat (count * 8)).toNat = count * 8 := by
  rw [UInt16.toNat_ofNat']
  omega

theorem eq_encodedLen_iff {count : ℕ} {len : UInt16} :
    (count ≤ 8191 ∧ len = UInt16.ofNat (count * 8)) ↔ len.toNat = count * 8 := by
  constructor
  · rintro ⟨hle, rfl⟩
    exact toNat_encodedLen hle
  · intro heq
    have hlt := len.toNat_lt
    have hle : count ≤ 8191 := by omega
    refine ⟨hle, UInt16.toNat_inj.mp ?_⟩
    rw [heq, toNat_encodedLen hle]

theorem le_encodedPayloadLen {n : ℕ} {mode : LowEntropyMode} {len : UInt16}
    (h : lowEntropyEncodedPayloadLen n mode = .ok len) : n ≤ len.toNat := by
  obtain ⟨params, hbuild, -⟩ := bind_eq_ok.mp h
  obtain ⟨-, hcount, rfl⟩ := (encodedPayloadLen_eq_ok hbuild).mp h
  rw [Int.toNat_natCast] at hcount ⊢
  rw [toNat_encodedLen hcount]
  have hle := (chunkCount_le_iff params.source_pos).mp (Nat.le_refl
    (chunkCount n params.sourceBytesPerChunk))
  exact hle.trans (Nat.mul_le_mul_left _ (Nat.le_of_lt params.source_lt))

theorem ones_repeat_params {halfMask : UInt32} {params : LowEntropyModeParams}
    (hones : onesCount32 halfMask = params.halfMaskOnes) :
    ones (repeatUint32 halfMask) = params.sourceBytesPerChunk * 8 := by
  have hparams := params.ones_eq
  rw [ones_repeatUint32, hones, hparams]

theorem encode_eq_ok {src encoded : List UInt8} {mode : LowEntropyMode} {halfMask : UInt32}
    {rotation : LowEntropyMaskRotation} {bit : UInt8} {params : LowEntropyModeParams}
    (hvalid : validateLowEntropyCodecParams mode halfMask rotation = .ok params) :
    encodeLowEntropyPayloadWithPaddingBit src mode halfMask rotation bit = .ok encoded ↔
      bit ≤ 1 ∧ src ≠ [] ∧ chunkCount src.length params.sourceBytesPerChunk ≤ 8191 ∧
        encodeLoop params.sourceBytesPerChunk (repeatUint32 halfMask) rotation bit
          src.length 0 src = encoded := by
  have hbuild := (validate_eq_ok.mp hvalid).1
  unfold encodeLowEntropyPayloadWithPaddingBit
  rw [hvalid, ok_bind, ensure_bind_eq_ok]
  refine and_congr_right fun _ => ?_
  have hpos : (0 : ℤ) < src.length ↔ src ≠ [] := by
    rw [Int.natCast_pos]
    exact List.length_pos_iff
  constructor
  · intro h
    obtain ⟨len, hlen, h⟩ := bind_eq_ok.mp h
    obtain ⟨hne, hcount, -⟩ := (encodedPayloadLen_eq_ok hbuild).mp hlen
    cases h
    exact ⟨hpos.mp hne, hcount, rfl⟩
  · rintro ⟨hne, hcount, rfl⟩
    exact bind_eq_ok.mpr
      ⟨_, (encodedPayloadLen_eq_ok hbuild).mpr ⟨hpos.mpr hne, hcount, rfl⟩, rfl⟩

theorem decode_eq_ok {encoded s : List UInt8} {n : ℤ} {mode : LowEntropyMode} {halfMask : UInt32}
    {rotation : LowEntropyMaskRotation} {params : LowEntropyModeParams}
    (hvalid : validateLowEntropyCodecParams mode halfMask rotation = .ok params) :
    decodeLowEntropyPayload encoded n mode halfMask rotation = .ok s ↔
      0 < n ∧ chunkCount n.toNat params.sourceBytesPerChunk ≤ 8191 ∧
        encoded.length = chunkCount n.toNat params.sourceBytesPerChunk * 8 ∧
        decodeLoop params.sourceBytesPerChunk (repeatUint32 halfMask) rotation n.toNat 0 0
          encoded n.toNat = .ok s := by
  have hbuild := (validate_eq_ok.mp hvalid).1
  unfold decodeLowEntropyPayload
  rw [hvalid, ok_bind]
  constructor
  · intro h
    obtain ⟨len, hlen, h⟩ := bind_eq_ok.mp h
    obtain ⟨hpos, hcount, rfl⟩ := (encodedPayloadLen_eq_ok hbuild).mp hlen
    obtain ⟨heq, h⟩ := ensure_bind_eq_ok.mp h
    rw [toNat_encodedLen hcount] at heq
    exact ⟨hpos, hcount, heq, h⟩
  · rintro ⟨hpos, hcount, heq, h⟩
    refine bind_eq_ok.mpr ⟨_, (encodedPayloadLen_eq_ok hbuild).mpr ⟨hpos, hcount, rfl⟩, ?_⟩
    exact ensure_bind_eq_ok.mpr ⟨by rw [toNat_encodedLen hcount]; exact heq, h⟩

theorem decode_encode {src : List UInt8} {mode : LowEntropyMode} {halfMask : UInt32}
    {rotation : LowEntropyMaskRotation} {bit : UInt8} {params : LowEntropyModeParams}
    (hvalid : validateLowEntropyCodecParams mode halfMask rotation = .ok params) (hbit : bit ≤ 1)
    (hne : src ≠ []) (hcount : chunkCount src.length params.sourceBytesPerChunk ≤ 8191) :
    ∃ encoded, encodeLowEntropyPayloadWithPaddingBit src mode halfMask rotation bit = .ok encoded ∧
      encoded.length = chunkCount src.length params.sourceBytesPerChunk * 8 ∧
      decodeLowEntropyPayload encoded src.length mode halfMask rotation = .ok src := by
  have hlen : (encodeLoop params.sourceBytesPerChunk (repeatUint32 halfMask) rotation bit
      src.length 0 src).length = chunkCount src.length params.sourceBytesPerChunk * 8 :=
    length_encodeLoop params.source_pos _ _ _ _ le_rfl
  have hones := ones_repeat_params (validate_eq_ok.mp hvalid).2.1
  refine ⟨_, (encode_eq_ok hvalid).mpr ⟨hbit, hne, hcount, rfl⟩, hlen, ?_⟩
  refine (decode_eq_ok hvalid).mpr
    ⟨Int.natCast_pos.mpr (List.length_pos_of_ne_nil hne), hcount, hlen, ?_⟩
  exact decodeLoop_encodeLoop params.source_pos params.source_lt hones hbit _ _ _ _ le_rfl
    (Or.inl rfl)

end Payload

/-- Decoding inverts encoding for both polarities, and accepts nothing but encodings. -/
theorem decode_accepts_exactly_encodings (mode : LowEntropyMode) (halfMask : UInt32)
    (rotation : LowEntropyMaskRotation) :
    (∀ (params : LowEntropyModeParams) (paddingBit : UInt8) (src : List UInt8),
      buildLowEntropyParams mode = .ok params → onesCount32 halfMask = params.halfMaskOnes →
      isValidLowEntropyRotation rotation = true → paddingBit ≤ 1 → src ≠ [] →
      chunkCount src.length params.sourceBytesPerChunk ≤ 8191 →
      ∃ encoded,
        encodeLowEntropyPayloadWithPaddingBit src mode halfMask rotation paddingBit =
          .ok encoded ∧
        decodeLowEntropyPayload encoded src.length mode halfMask rotation = .ok src) ∧
    (∀ (encoded : List UInt8) (n : ℤ) (s : List UInt8),
      decodeLowEntropyPayload encoded n mode halfMask rotation = .ok s →
      s.length = n ∧
        (encodeLowEntropyPayloadWithPaddingBit s mode halfMask rotation 0 = .ok encoded ∨
          encodeLowEntropyPayloadWithPaddingBit s mode halfMask rotation 1 = .ok encoded)) := by
  constructor
  · intro params paddingBit src hbuild hones hrot hbit hne hcount
    have hvalid := validate_eq_ok.mpr ⟨hbuild, hones, hrot⟩
    obtain ⟨encoded, hencode, -, hdecode⟩ := decode_encode hvalid hbit hne hcount
    exact ⟨encoded, hencode, hdecode⟩
  · intro encoded n s h
    obtain ⟨params, hvalid, -⟩ := bind_eq_ok.mp h
    obtain ⟨hpos, hcount, hlen, hloop⟩ := (decode_eq_ok hvalid).mp h
    obtain ⟨hslen, bit, hbit, -, henc⟩ := encodeLoop_of_decodeLoop params.source_pos
      params.source_lt _ _ _ _ _ (by decide) le_rfl hlen hloop
    have hne : s ≠ [] := by
      intro hnil
      simp only [hnil, List.length_nil] at hslen
      omega
    have hok : encodeLowEntropyPayloadWithPaddingBit s mode halfMask rotation bit = .ok encoded :=
      (encode_eq_ok hvalid).mpr ⟨hbit, hne, by rwa [hslen], by rwa [hslen]⟩
    refine ⟨by omega, ?_⟩
    rcases paddingBit_cases hbit with rfl | rfl
    · exact Or.inl hok
    · exact Or.inr hok

/-- A five-byte source has a full chunk and a partial one; a one-byte source is a
single partial chunk whose padding fills 56 bits. -/
theorem decode_accepts_partial_chunks :
    (∃ encoded,
      encodeLowEntropyPayloadWithPaddingBit [1, 2, 3, 4, 5] mode32 0xffff 1 1 = .ok encoded ∧
      decodeLowEntropyPayload encoded 5 mode32 0xffff 1 = .ok [1, 2, 3, 4, 5]) ∧
    (encodeLowEntropyPayloadWithPaddingBit [171] mode32 0xffff 0 0 =
        .ok [0, 0, 0, 0, 0, 0, 0, 171] ∨
      encodeLowEntropyPayloadWithPaddingBit [171] mode32 0xffff 0 1 =
        .ok [0, 0, 0, 0, 0, 0, 0, 171]) := by
  constructor
  · exact (decode_accepts_exactly_encodings mode32 0xffff 1).1
      ⟨4, 16, by decide, by decide, by decide⟩ 1 [1, 2, 3, 4, 5] rfl (by decide) (by decide)
      (by decide) (by decide) (by decide)
  · exact ((decode_accepts_exactly_encodings mode32 0xffff 0).2 [0, 0, 0, 0, 0, 0, 0, 171] 1 [171]
      rfl).2

/-- The empty source needs no chunk at all, and is refused. -/
theorem empty_source_refused :
    (∃ params, buildLowEntropyParams mode32 = .ok params ∧
      onesCount32 0xffff = params.halfMaskOnes ∧
      chunkCount ([] : List UInt8).length params.sourceBytesPerChunk ≤ 8191) ∧
    isValidLowEntropyRotation noRotation = true ∧
    encodeLowEntropyPayloadWithPaddingBit [] mode32 0xffff noRotation 0 =
      .error "invalid extracted payload length 0" := by
  refine ⟨⟨⟨4, 16, by decide, by decide, by decide⟩, rfl, by decide, by decide⟩, by decide, rfl⟩

end Mieru.LowEntropy
