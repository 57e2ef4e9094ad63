import Mieru.LowEntropy

/-! # Traffic patterns

The user's choices of padding, low entropy coding, nonce shape and TCP
fragmentation. Protobuf fields are optional and enumerations are open integers. -/
namespace Mieru

open LowEntropy Result

structure TCPFragment where
  enable : Option Bool := none
  maxSleepMs : Option ℤ := none
  deriving DecidableEq

structure NoncePattern where
  type : Option ℤ := none
  applyToAllUDPPacket : Option Bool := none
  minLen : Option ℤ := none
  maxLen : Option ℤ := none
  customHexStrings : List String := []
  deriving DecidableEq

structure PaddingPattern where
  maxMiddlePaddingLen : Option ℤ := none
  maxEndPaddingLen : Option ℤ := none
  deriving DecidableEq

structure LowEntropyPattern where
  mode : Option LowEntropyMode := none
  maskRotation : Option LowEntropyMaskRotation := none
  deriving DecidableEq

structure TrafficPattern where
  seed : Option ℤ := none
  unlockAll : Option Bool := none
  tcpFragment : Option TCPFragment := none
  nonce : Option NoncePattern := none
  padding : Option PaddingPattern := none
  lowEntropy : Option LowEntropyPattern := none
  deriving DecidableEq

namespace TrafficPattern

def maxPaddingLen : ℤ := 255

/-- The shape shared by all integer fields: unset, or between 0 and a maximum. -/
def checkRange (name : String) (max : ℤ) : Option ℤ → Except String Unit
  | none => .ok ()
  | some v => do
    ensure (0 ≤ v) s!"{name} {v} is negative"
    ensure (v ≤ max) s!"{name} {v} exceeds maximum value {max}"

def validateTCPFragment : Option TCPFragment → Except String Unit
  | none => .ok ()
  | some fragment => checkRange "TCPFragment maxSleepMs" 100 fragment.maxSleepMs

def fromHexChar (c : UInt8) : Option UInt8 :=
  if 48 ≤ c ∧ c ≤ 57 then some (c - 48)
  else if 97 ≤ c ∧ c ≤ 102 then some (c - 97 + 10)
  else if 65 ≤ c ∧ c ≤ 70 then some (c - 65 + 10)
  else none

/-- The format `%#U`: the byte as a code point, and in quotes if it is printable. -/
def invalidByteError (c : UInt8) : String :=
  let digit (n : ℕ) := (Nat.digitChar n).toUpper
  let isPrint := 32 ≤ c && c ≤ 126 || 161 ≤ c && c ≠ 173
  "encoding/hex: invalid byte: U+00" ++
    String.ofList [digit (c.toNat / 16), digit (c.toNat % 16)] ++
    if isPrint then " '" ++ String.singleton (Char.ofNat c.toNat) ++ "'" else ""

def hexDecode : List UInt8 → Except String (List UInt8)
  | [] => .ok []
  | [c] =>
    match fromHexChar c with
    | none => .error (invalidByteError c)
    | some _ => .error "encoding/hex: odd length hex string"
  | hi :: lo :: rest =>
    match fromHexChar hi, fromHexChar lo with
    | none, _ => .error (invalidByteError hi)
    | _, none => .error (invalidByteError lo)
    | some a, some b => do
      let tail ← hexDecode rest
      return (a * 16 + b) :: tail

def validateHexStrings : ℕ → List String → Except String Unit
  | _, [] => .ok ()
  | i, hexStr :: rest => do
    let quoted := hexStr.quote
    match hexDecode hexStr.toUTF8.toList with
    | .error err =>
      .error s!"NoncePattern customHexStrings[{i}] {quoted} is not a valid hex string: {err}"
    | .ok decoded =>
      let length := decoded.length
      ensure (length ≤ 12)
        s!"NoncePattern customHexStrings[{i}] decoded length {length} exceeds maximum 12 bytes"
      validateHexStrings (i + 1) rest

def validateNoncePattern : Option NoncePattern → Except String Unit
  | none => .ok ()
  | some nonce => do
    checkRange "NoncePattern minLen" 12 nonce.minLen
    checkRange "NoncePattern maxLen" 12 nonce.maxLen
    match nonce.minLen, nonce.maxLen with
    | some minLen, some maxLen =>
      ensure (minLen ≤ maxLen) s!"NoncePattern minLen {minLen} is greater than maxLen {maxLen}"
    | _, _ => .ok ()
    validateHexStrings 0 nonce.customHexStrings

def validatePaddingPattern : Option PaddingPattern → Except String Unit
  | none => .ok ()
  | some padding => do
    checkRange "PaddingPattern maxMiddlePaddingLen" maxPaddingLen padding.maxMiddlePaddingLen
    checkRange "PaddingPattern maxEndPaddingLen" maxPaddingLen padding.maxEndPaddingLen

def lowEntropyModes : List LowEntropyMode := [modeOff, mode32, mode40, mode48, mode56]

/-- The keys of `LowEntropyMaskRotation_name`: none, right by 1 to 15, left by 1 to 15. -/
def lowEntropyMaskRotations : List LowEntropyMaskRotation :=
  (List.range 16).map (fun i => (i : ℤ)) ++ (List.range 15).map (fun i => (i + 1 : ℤ) * 16)

def checkKnown (name : String) (known : List ℤ) : Option ℤ → Except String Unit
  | none => .ok ()
  | some v => ensure (v ∈ known) s!"{name} {v} is invalid"

def validateLowEntropyPattern : Option LowEntropyPattern → Except String Unit
  | none => .ok ()
  | some lowEntropy => do
    checkKnown "LowEntropyPattern mode" lowEntropyModes lowEntropy.mode
    checkKnown "LowEntropyPattern maskRotation" lowEntropyMaskRotations lowEntropy.maskRotation

def validate : Option TrafficPattern → Except String Unit
  | none => .ok ()
  | some pattern => do
    validateTCPFragment pattern.tcpFragment
    validateNoncePattern pattern.nonce
    validatePaddingPattern pattern.padding
    validateLowEntropyPattern pattern.lowEntropy

/-- The decision whether to send low entropy data, and how. -/
def extractLowEntropyConfig (pattern : Option TrafficPattern) :
    LowEntropyMode × LowEntropyMaskRotation × Bool :=
  match pattern.bind lowEntropy with
  | none => (modeOff, noRotation, false)
  | some lowEntropy =>
    let mode := lowEntropy.mode.getD modeOff
    if mode = modeOff then (mode, noRotation, false)
    else (mode, lowEntropy.maskRotation.getD noRotation, true)

theorem checkRange_eq_ok {name : String} {max : ℤ} {v : Option ℤ} :
    checkRange name max v = .ok () ↔ ∀ x ∈ v, 0 ≤ x ∧ x ≤ max := by
  cases v with
  | none => simp [checkRange]
  | some x => simp [checkRange, ensure_bind_eq_ok, ensure_eq_ok]

theorem checkKnown_eq_ok {name : String} {known : List ℤ} {v : Option ℤ} :
    checkKnown name known v = .ok () ↔ ∀ x ∈ v, x ∈ known := by
  cases v with
  | none => simp [checkKnown]
  | some x => simp [checkKnown, ensure_eq_ok]

theorem getD_mem_of_checkKnown {name : String} {known : List ℤ} {v : Option ℤ} {d : ℤ}
    (hd : d ∈ known) (h : checkKnown name known v = .ok ()) : v.getD d ∈ known := by
  cases v with
  | none => exact hd
  | some v => exact checkKnown_eq_ok.mp h v rfl

theorem extractLowEntropyConfig_valid {pattern : Option TrafficPattern} {mode : LowEntropyMode}
    {rotation : LowEntropyMaskRotation} (hv : validate pattern = .ok ())
    (hx : extractLowEntropyConfig pattern = (mode, rotation, true)) :
    mode ∈ lowEntropyModes ∧ mode ≠ modeOff ∧ rotation ∈ lowEntropyMaskRotations := by
  cases pattern with
  | none => simp [extractLowEntropyConfig] at hx
  | some pattern =>
    simp only [validate, bind_eq_ok] at hv
    obtain ⟨-, -, -, -, -, -, hlow⟩ := hv
    unfold extractLowEntropyConfig at hx
    cases hpat : pattern.lowEntropy with
    | none => simp [hpat] at hx
    | some lowEntropy =>
      rw [hpat] at hlow
      simp only [Option.bind_some, hpat] at hx
      simp only [validateLowEntropyPattern, bind_eq_ok] at hlow
      obtain ⟨_, hmode, hrotation⟩ := hlow
      split_ifs at hx with hoff
      · simp at hx
      simp only [Prod.mk.injEq, and_true] at hx
      obtain ⟨rfl, rfl⟩ := hx
      exact ⟨getD_mem_of_checkKnown (by decide) hmode, hoff,
        getD_mem_of_checkKnown (by decide) hrotation⟩

end TrafficPattern

end Mieru
