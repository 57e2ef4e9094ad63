import Mieru.Protocol.Segment
import Mieru.Rng
import Mieru.TrafficPattern

/-! # Padding

How much padding a segment may get and how the random padding is made. -/
namespace Mieru.Protocol

open Result Rng

inductive PaddingPosition where
  | middlePadding
  | endPadding
  deriving DecidableEq, Repr

def maxPaddingSize (mtu : ℤ) (transport : TransportProtocol)
    (fragmentSize existingPaddingSize : ℕ) : ℕ :=
  if transport = .streamTransport then 255
  else
    let res := mtu - fragmentSize - packetOverhead
    if res ≤ existingPaddingSize then 0 else min (res - existingPaddingSize).toNat 255

def maxPaddingSizeWithTrafficPattern (mtu : ℤ) (transport : TransportProtocol)
    (fragmentSize existingPaddingSize : ℕ) (trafficPattern : Option TrafficPattern)
    (position : PaddingPosition) : ℕ :=
  let maxPaddingSize := maxPaddingSize mtu transport fragmentSize existingPaddingSize
  match trafficPattern.bind TrafficPattern.padding with
  | none => maxPaddingSize
  | some padding =>
    let configured := match position with
      | .middlePadding => padding.maxMiddlePaddingLen
      | .endPadding => padding.maxEndPaddingLen
    match configured with
    | none => maxPaddingSize
    | some configured => if configured < 0 then 0 else min maxPaddingSize configured.toNat

structure AsciiPaddingOpts where
  minConsecutiveASCIILen : ℕ := 0

/-- The data that entropy padding is measured against is random itself, so all that is
left of the entropy options is whether they are there. -/
structure PaddingOpts where
  maxLen : ℕ
  ascii : Option AsciiPaddingOpts := none
  entropy : Bool := false

def recommendedConsecutiveASCIILen (host : Host) : ℕ := 24 + host.fixedIntVH 17

def buildRecommendedPaddingOpts (host : Host) (maxLen : ℕ) (strategySource : String) :
    PaddingOpts :=
  if host.fixedIntV 2 strategySource = 0 then
    { maxLen := maxLen, ascii := some ⟨min maxLen (recommendedConsecutiveASCIILen host)⟩ }
  else { maxLen := maxLen, entropy := true }

/-- What chance decides about one padding. `minPaddingBytes` is a function of the random
data, and `content` stands for the bytes after all rewriting. -/
structure PaddingDraw where
  length : ℕ
  minPaddingBytes : ℕ
  content : ℕ → UInt8

def PaddingDraw.bytes (draw : PaddingDraw) (n : ℕ) : Bytes := (List.range n).map draw.content

def newPadding (opts : PaddingOpts) (draw : PaddingDraw) : Except Fault Bytes :=
  match opts.ascii with
  | some ascii =>
    let maxLen := opts.maxLen
    let minLen := ascii.minConsecutiveASCIILen
    if maxLen < minLen then .error (.panicked
      s!"Invalid padding options: maxLen {maxLen} is smaller than minConsecutiveASCIILen {minLen}")
    else .ok (draw.bytes (intn (maxLen - minLen + 1) draw.length + minLen))
  | none =>
    if opts.entropy then
      let minLen := draw.minPaddingBytes
      if opts.maxLen ≤ minLen then .ok (draw.bytes opts.maxLen)
      else .ok (draw.bytes (intn (opts.maxLen - minLen + 1) draw.length + minLen))
    else .error (.panicked "Detailed padding options are not provided")

/-- Options under which `newPadding` does not panic. -/
def PaddingOpts.Usable (opts : PaddingOpts) : Prop :=
  match opts.ascii with
  | some ascii => ascii.minConsecutiveASCIILen ≤ opts.maxLen
  | none => opts.entropy = true

theorem usable_recommended (host : Host) (maxLen : ℕ) (strategySource : String) :
    (buildRecommendedPaddingOpts host maxLen strategySource).Usable := by
  unfold buildRecommendedPaddingOpts
  split_ifs
  · exact Nat.min_le_left _ _
  · rfl

theorem maxLen_recommended (host : Host) (maxLen : ℕ) (strategySource : String) :
    (buildRecommendedPaddingOpts host maxLen strategySource).maxLen = maxLen := by
  unfold buildRecommendedPaddingOpts
  split_ifs <;> rfl

@[simp] theorem PaddingDraw.length_bytes (draw : PaddingDraw) (n : ℕ) :
    (draw.bytes n).length = n := by
  simp [bytes]

theorem newPadding_ok {opts : PaddingOpts} (h : opts.Usable) (draw : PaddingDraw) :
    ∃ padding, newPadding opts draw = .ok padding ∧ padding.length ≤ opts.maxLen := by
  have hfit {minLen : ℕ} (hle : minLen ≤ opts.maxLen) :
      (draw.bytes (intn (opts.maxLen - minLen + 1) draw.length + minLen)).length ≤
        opts.maxLen := by
    have hlt : intn (opts.maxLen - minLen + 1) draw.length < opts.maxLen - minLen + 1 :=
      intn_lt _ (Nat.succ_pos _)
    rw [PaddingDraw.length_bytes]
    omega
  unfold PaddingOpts.Usable at h
  unfold newPadding
  split at h
  · exact ⟨_, if_neg (Nat.not_lt.mpr h), hfit h⟩
  · rw [if_pos h]
    by_cases hmin : opts.maxLen ≤ draw.minPaddingBytes
    · exact ⟨_, if_pos hmin, by rw [PaddingDraw.length_bytes]⟩
    · exact ⟨_, if_neg hmin, hfit (Nat.le_of_not_le hmin)⟩

theorem maxPaddingSize_le (mtu : ℤ) (transport : TransportProtocol)
    (fragmentSize existingPaddingSize : ℕ) :
    maxPaddingSize mtu transport fragmentSize existingPaddingSize ≤ 255 := by
  unfold maxPaddingSize
  dsimp only
  split_ifs
  · exact Nat.le_refl _
  · exact Nat.zero_le _
  · exact Nat.min_le_right _ _

theorem maxPaddingSize_fits {mtu : ℤ} {fragmentSize existingPaddingSize : ℕ}
    (h : (existingPaddingSize + fragmentSize + packetOverhead : ℕ) ≤ mtu) :
    (maxPaddingSize mtu .packetTransport fragmentSize existingPaddingSize + existingPaddingSize +
      fragmentSize + packetOverhead : ℕ) ≤ mtu := by
  push_cast at h
  have hstream : TransportProtocol.packetTransport ≠ .streamTransport := by decide
  simp only [maxPaddingSize, hstream, ↓reduceIte]
  split_ifs with hres <;> push_cast <;> omega

theorem maxPaddingSizeWithTrafficPattern_le (mtu : ℤ) (transport : TransportProtocol)
    (fragmentSize existingPaddingSize : ℕ) (trafficPattern : Option TrafficPattern)
    (position : PaddingPosition) :
    maxPaddingSizeWithTrafficPattern mtu transport fragmentSize existingPaddingSize trafficPattern
      position ≤ maxPaddingSize mtu transport fragmentSize existingPaddingSize := by
  unfold maxPaddingSizeWithTrafficPattern
  dsimp only
  split
  · exact Nat.le_refl _
  · split
    · exact Nat.le_refl _
    · split_ifs
      · exact Nat.zero_le _
      · exact Nat.min_le_left _ _

end Mieru.Protocol
