import Mieru.Rng
import Mieru.TrafficPattern

/-! # Traffic patterns with their implicit part

What the user has left open is derived from a seed, field by field: values that stay
the same because they come from the hash of a hint. -/
namespace Mieru.TrafficPattern

open LowEntropy Result Rng

structure Config where
  original : TrafficPattern
  effective : TrafficPattern

def fill {α : Type} (original effective : Option α) (generated : α) : Option α :=
  if original.isNone then some generated else effective

/-! Each generator reads and writes its own part of the two patterns. -/
section generators

variable (hash : String → ℕ) (seed : ℤ) (unlockAll : Bool)

def generateTCPFragment (original effective : Option TCPFragment) : TCPFragment :=
  let f := effective.getD {}
  let enable := fill (original.bind TCPFragment.enable) f.enable
    (unlockAll && fixedInt hash 2 s!"{seed}:tcpFragment.enable" == 1)
  let maxSleepMs := fill (original.bind TCPFragment.maxSleepMs) f.maxSleepMs
    (if unlockAll then fixedInt hash 100 s!"{seed}:tcpFragment.maxSleepMs" + 1 else 0)
  ⟨enable, maxSleepMs⟩

/-- With all options unlocked from 0 to 12, otherwise from 6 on. -/
def generateMinLen : ℤ :=
  if unlockAll then fixedInt hash 13 s!"{seed}:nonce.minLen"
  else fixedInt hash 7 s!"{seed}:nonce.minLen" + 6

/-- The upper length starts from the lower one, set or generated. -/
def generateNoncePattern (original effective : Option NoncePattern) : NoncePattern :=
  let n := effective.getD {}
  -- Never the fixed type, which needs strings.
  let type := fill (original.bind NoncePattern.type) n.type
    (if unlockAll then fixedInt hash 3 s!"{seed}:nonce.type"
      else fixedInt hash 2 s!"{seed}:nonce.type" + 1)
  let applyToAllUDPPacket :=
    fill (original.bind NoncePattern.applyToAllUDPPacket) n.applyToAllUDPPacket
      (fixedInt hash 2 s!"{seed}:nonce.applyToAllUDPPacket" == 1)
  let minLen := fill (original.bind NoncePattern.minLen) n.minLen
    (generateMinLen hash seed unlockAll)
  let least := minLen.getD 0
  let maxLen := fill (original.bind NoncePattern.maxLen) n.maxLen
    (least + fixedInt hash (13 - least) s!"{seed}:nonce.maxLen")
  ⟨type, applyToAllUDPPacket, minLen, maxLen, n.customHexStrings⟩

def generatePaddingPattern (original effective : Option PaddingPattern) : PaddingPattern :=
  let p := effective.getD {}
  let middle := fixedInt hash (maxPaddingLen + 1) s!"{seed}:padding.maxMiddlePaddingLen" - 128
  let maxMiddlePaddingLen :=
    fill (original.bind PaddingPattern.maxMiddlePaddingLen) p.maxMiddlePaddingLen
      (if middle ≤ 0 then 0 else middle)
  let maxEndPaddingLen :=
    fill (original.bind PaddingPattern.maxEndPaddingLen) p.maxEndPaddingLen
      (if unlockAll then
        fixedInt hash (maxPaddingLen + 1) s!"{seed}:padding.maxEndPaddingLen"
      else maxPaddingLen)
  ⟨maxMiddlePaddingLen, maxEndPaddingLen⟩

def generateLowEntropyPattern (original effective : Option LowEntropyPattern) :
    LowEntropyPattern :=
  let lowEntropy := effective.getD {}
  let mode := fill (original.bind LowEntropyPattern.mode) lowEntropy.mode
    (if unlockAll then fixedInt hash lowEntropyModes.length s!"{seed}:lowEntropy.mode"
      else modeOff)
  let rotationIndex :=
    fixedInt hash lowEntropyMaskRotations.length s!"{seed}:lowEntropy.maskRotation"
  -- No rotation or rotate right, then rotate left.
  let maskRotation :=
    fill (original.bind LowEntropyPattern.maskRotation) lowEntropy.maskRotation
      (if rotationIndex ≤ 15 then rotationIndex else (rotationIndex - 15) * 16)
  ⟨mode, maskRotation⟩

end generators

/-- The seed of the user, or one that is fixed for host and version. -/
def implicitSeed (host : Host) (pattern : TrafficPattern) : ℤ :=
  pattern.seed.getD (host.fixedIntVH 2147483647)

def generateImplicitTrafficPattern (hash : String → ℕ) (host : Host) (c : Config) : Config :=
  let seed := implicitSeed host c.original
  let unlockAll := c.original.unlockAll.getD false
  { c with effective := { c.effective with
    tcpFragment := some
      (generateTCPFragment hash seed unlockAll c.original.tcpFragment c.effective.tcpFragment)
    nonce := some
      (generateNoncePattern hash seed unlockAll c.original.nonce c.effective.nonce)
    padding := some
      (generatePaddingPattern hash seed unlockAll c.original.padding c.effective.padding)
    lowEntropy := some
      (generateLowEntropyPattern hash seed unlockAll c.original.lowEntropy
        c.effective.lowEntropy) } }

/-- The effective pattern starts as a clone of the original. -/
def newConfig (hash : String → ℕ) (host : Host) (original : Option TrafficPattern) :
    Except String Config :=
  let original := original.getD {}
  match validate (some original) with
  | .error err => .error s!"TrafficPattern is invalid: {err}"
  | .ok () => .ok (generateImplicitTrafficPattern hash host ⟨original, original⟩)

/-! ## What the user has set stays -/

def Kept {α : Type} (original effective : Option α) : Prop := ∀ v ∈ original, effective = some v

structure AgreesWith (effective original : TrafficPattern) : Prop where
  seed : Kept original.seed effective.seed
  unlockAll : Kept original.unlockAll effective.unlockAll
  tcpFragment : ∀ f ∈ original.tcpFragment, ∃ f' ∈ effective.tcpFragment,
    Kept f.enable f'.enable ∧ Kept f.maxSleepMs f'.maxSleepMs
  nonce : ∀ n ∈ original.nonce, ∃ n' ∈ effective.nonce,
    Kept n.type n'.type ∧ Kept n.applyToAllUDPPacket n'.applyToAllUDPPacket ∧
      Kept n.minLen n'.minLen ∧ Kept n.maxLen n'.maxLen ∧
      n'.customHexStrings = n.customHexStrings
  padding : ∀ p ∈ original.padding, ∃ p' ∈ effective.padding,
    Kept p.maxMiddlePaddingLen p'.maxMiddlePaddingLen ∧ Kept p.maxEndPaddingLen p'.maxEndPaddingLen
  lowEntropy : ∀ l ∈ original.lowEntropy, ∃ l' ∈ effective.lowEntropy,
    Kept l.mode l'.mode ∧ Kept l.maskRotation l'.maskRotation

theorem kept_fill {α : Type} (v : Option α) (generated : α) : Kept v (fill v v generated) := by
  intro x hx
  cases hx
  rfl

theorem agreesWith_generated (hash : String → ℕ) (host : Host) (original : TrafficPattern) :
    (generateImplicitTrafficPattern hash host ⟨original, original⟩).effective.AgreesWith
      original where
  seed := fun _ hv => hv
  unlockAll := fun _ hv => hv
  tcpFragment := by
    intro f hf
    refine ⟨_, rfl, ?_⟩
    rw [Option.mem_def.mp hf]
    exact ⟨kept_fill _ _, kept_fill _ _⟩
  nonce := by
    intro n hn
    refine ⟨_, rfl, ?_⟩
    rw [Option.mem_def.mp hn]
    exact ⟨kept_fill _ _, kept_fill _ _, kept_fill _ _, kept_fill _ _, rfl⟩
  padding := by
    intro p hp
    refine ⟨_, rfl, ?_⟩
    rw [Option.mem_def.mp hp]
    exact ⟨kept_fill _ _, kept_fill _ _⟩
  lowEntropy := by
    intro l hl
    refine ⟨_, rfl, ?_⟩
    rw [Option.mem_def.mp hl]
    exact ⟨kept_fill _ _, kept_fill _ _⟩

/-! ## What is generated is valid -/

theorem forall_mem_fill {α : Type} {P : α → Prop} {original effective : Option α} {generated : α}
    (h : ∀ x ∈ effective, P x) (hgenerated : P generated) :
    ∀ x ∈ fill original effective generated, P x := by
  unfold fill
  split_ifs
  · intro x hx
    cases hx
    exact hgenerated
  · exact h

section valid

variable (hash : String → ℕ) (seed : ℤ) (unlockAll : Bool)

theorem generateTCPFragment_valid {original : Option TCPFragment}
    (h : validateTCPFragment original = .ok ()) :
    validateTCPFragment (some (generateTCPFragment hash seed unlockAll original original)) =
      .ok () := by
  have hset : ∀ x ∈ (original.getD {}).maxSleepMs, 0 ≤ x ∧ x ≤ 100 := by
    cases original with
    | none => simp
    | some f => exact checkRange_eq_ok.mp h
  refine checkRange_eq_ok.mpr (forall_mem_fill hset ?_)
  have hrange := fixedInt_range hash s!"{seed}:tcpFragment.maxSleepMs" (n := 100) (by decide)
  split_ifs <;> omega

theorem generatePaddingPattern_valid {original : Option PaddingPattern}
    (h : validatePaddingPattern original = .ok ()) :
    validatePaddingPattern (some (generatePaddingPattern hash seed unlockAll original original)) =
      .ok () := by
  have hset : (∀ x ∈ (original.getD {}).maxMiddlePaddingLen, 0 ≤ x ∧ x ≤ maxPaddingLen) ∧
      ∀ x ∈ (original.getD {}).maxEndPaddingLen, 0 ≤ x ∧ x ≤ maxPaddingLen := by
    cases original with
    | none => simp
    | some p =>
      obtain ⟨hmiddle, hend⟩ := check_bind_eq_ok.mp h
      exact ⟨checkRange_eq_ok.mp hmiddle, checkRange_eq_ok.mp hend⟩
  have hrange (hint : String) := fixedInt_range hash hint (n := maxPaddingLen + 1) (by decide)
  have hmax : maxPaddingLen = 255 := rfl
  refine check_bind_eq_ok.mpr ⟨checkRange_eq_ok.mpr (forall_mem_fill hset.1 ?_),
    checkRange_eq_ok.mpr (forall_mem_fill hset.2 ?_)⟩
  · have hmiddle := hrange s!"{seed}:padding.maxMiddlePaddingLen"
    split_ifs <;> omega
  · have hend := hrange s!"{seed}:padding.maxEndPaddingLen"
    split_ifs <;> omega

theorem mem_lowEntropyModes {mode : ℤ} (h : 0 ≤ mode) (hlt : mode < lowEntropyModes.length) :
    mode ∈ lowEntropyModes := by
  obtain ⟨k, rfl⟩ := Int.eq_ofNat_of_zero_le h
  have hall : ∀ k < lowEntropyModes.length, (k : ℤ) ∈ lowEntropyModes := by decide
  exact hall k (Int.ofNat_lt.mp hlt)

theorem mem_lowEntropyMaskRotations {index : ℤ} (h : 0 ≤ index)
    (hlt : index < lowEntropyMaskRotations.length) :
    (if index ≤ 15 then index else (index - 15) * 16) ∈ lowEntropyMaskRotations := by
  obtain ⟨k, rfl⟩ := Int.eq_ofNat_of_zero_le h
  have hall : ∀ k < lowEntropyMaskRotations.length,
      (if (k : ℤ) ≤ 15 then (k : ℤ) else (k - 15) * 16) ∈ lowEntropyMaskRotations := by decide
  exact hall k (Int.ofNat_lt.mp hlt)

theorem generateLowEntropyPattern_valid {original : Option LowEntropyPattern}
    (h : validateLowEntropyPattern original = .ok ()) :
    validateLowEntropyPattern
      (some (generateLowEntropyPattern hash seed unlockAll original original)) = .ok () := by
  have hset : (∀ x ∈ (original.getD {}).mode, x ∈ lowEntropyModes) ∧
      ∀ x ∈ (original.getD {}).maskRotation, x ∈ lowEntropyMaskRotations := by
    cases original with
    | none => simp
    | some l =>
      obtain ⟨hmode, hrotation⟩ := check_bind_eq_ok.mp h
      exact ⟨checkKnown_eq_ok.mp hmode, checkKnown_eq_ok.mp hrotation⟩
  refine check_bind_eq_ok.mpr ⟨checkKnown_eq_ok.mpr (forall_mem_fill hset.1 ?_),
    checkKnown_eq_ok.mpr (forall_mem_fill hset.2 ?_)⟩
  · split_ifs
    · obtain ⟨hle, hlt⟩ := fixedInt_range hash s!"{seed}:lowEntropy.mode"
        (n := lowEntropyModes.length) (by decide)
      exact mem_lowEntropyModes hle hlt
    · decide
  · obtain ⟨hle, hlt⟩ := fixedInt_range hash s!"{seed}:lowEntropy.maskRotation"
      (n := lowEntropyMaskRotations.length) (by decide)
    exact mem_lowEntropyMaskRotations hle hlt

theorem validateNoncePattern_eq_ok {n : NoncePattern} :
    validateNoncePattern (some n) = .ok () ↔
      (∀ x ∈ n.minLen, 0 ≤ x ∧ x ≤ 12) ∧ (∀ x ∈ n.maxLen, 0 ≤ x ∧ x ≤ 12) ∧
      (∀ minLen ∈ n.minLen, ∀ maxLen ∈ n.maxLen, minLen ≤ maxLen) ∧
      validateHexStrings 0 n.customHexStrings = .ok () := by
  simp only [validateNoncePattern, check_bind_eq_ok, checkRange_eq_ok]
  cases hmin : n.minLen with
  | none => simp
  | some minLen =>
    cases hmax : n.maxLen with
    | none => simp
    | some maxLen => simp [check_bind_eq_ok, ensure_eq_ok]

theorem fill_self {α : Type} (v : Option α) (generated : α) :
    fill v v generated = some (v.getD generated) := by
  cases v <;> rfl

theorem generateMinLen_range :
    0 ≤ generateMinLen hash seed unlockAll ∧ generateMinLen hash seed unlockAll ≤ 12 := by
  have hall := fixedInt_range hash s!"{seed}:nonce.minLen" (n := 13) (by decide)
  have hsome := fixedInt_range hash s!"{seed}:nonce.minLen" (n := 7) (by decide)
  unfold generateMinLen
  split_ifs <;> omega

/-- An upper length of the user meets the lower one that is generated for it. -/
def LengthsFit (original : Option NoncePattern) : Prop :=
  ∀ n ∈ original, n.minLen = none →
    ∀ maxLen ∈ n.maxLen, generateMinLen hash seed unlockAll ≤ maxLen

theorem generateNoncePattern_valid_iff {original : Option NoncePattern}
    (h : validateNoncePattern original = .ok ()) :
    validateNoncePattern (some (generateNoncePattern hash seed unlockAll original original)) =
      .ok () ↔ LengthsFit hash seed unlockAll original := by
  -- a pattern that is not there is an empty one
  obtain ⟨n, hn, hvalid, hfit, hfield⟩ : ∃ n, original.getD {} = n ∧
      validateNoncePattern (some n) = .ok () ∧
      (LengthsFit hash seed unlockAll original ↔ (n.minLen = none → ∀ maxLen ∈ n.maxLen,
        generateMinLen hash seed unlockAll ≤ maxLen)) ∧
      original.bind NoncePattern.minLen = n.minLen ∧
      original.bind NoncePattern.maxLen = n.maxLen := by
    cases original with
    | none => exact ⟨{}, rfl, rfl, by simp [LengthsFit], rfl, rfl⟩
    | some n => exact ⟨n, rfl, h, by simp [LengthsFit], rfl, rfl⟩
  obtain ⟨hmin, hmax, hle, hhex⟩ := validateNoncePattern_eq_ok.mp hvalid
  simp only [generateNoncePattern, hn, hfield, hfit, fill_self, validateNoncePattern_eq_ok,
    Option.mem_some_iff, forall_eq', Option.getD_some]
  have hleast : 0 ≤ n.minLen.getD (generateMinLen hash seed unlockAll) ∧
      n.minLen.getD (generateMinLen hash seed unlockAll) ≤ 12 := by
    cases hset : n.minLen with
    | none => exact generateMinLen_range hash seed unlockAll
    | some minLen => exact hmin minLen hset
  cases hset : n.maxLen with
  | none =>
    generalize n.minLen.getD (generateMinLen hash seed unlockAll) = least at hleast
    have hrange := fixedInt_range hash s!"{seed}:nonce.maxLen" (n := 13 - least) (by omega)
    refine iff_of_true ⟨hleast, ?_, ?_, hhex⟩ (fun _ maxLen hmem => by cases hmem)
    · rw [Option.getD_none]
      omega
    · rw [Option.getD_none]
      omega
  | some maxLen =>
    have hlengths : n.minLen.getD (generateMinLen hash seed unlockAll) ≤ maxLen ↔
        (n.minLen = none → generateMinLen hash seed unlockAll ≤ maxLen) := by
      cases hlow : n.minLen with
      | none => simp
      | some minLen => simpa using hle minLen hlow maxLen hset
    simp only [Option.getD_some, Option.mem_some_iff, forall_eq']
    rw [← hlengths]
    exact ⟨fun hall => hall.2.2.1, fun hlow => ⟨hleast, hmax maxLen hset, hlow, hhex⟩⟩

end valid

/-- The configuration of a valid pattern keeps what is set, and its effective pattern is
valid exactly when an upper nonce length that is set alone meets the lower one that is
generated. -/
theorem newConfig_effective_valid_iff (hash : String → ℕ) (host : Host)
    (pattern : Option TrafficPattern) (h : validate pattern = .ok ()) :
    ∃ c, newConfig hash host pattern = .ok c ∧ c.original = pattern.getD {} ∧
      c.effective.AgreesWith c.original ∧
      (validate (some c.effective) = .ok () ↔
        LengthsFit hash (implicitSeed host c.original) (c.original.unlockAll.getD false)
          c.original.nonce) := by
  have hvalid : validate (some (pattern.getD {})) = .ok () := by
    cases pattern with
    | none => rfl
    | some pattern => exact h
  simp only [newConfig]
  generalize pattern.getD {} = original at hvalid ⊢
  rw [hvalid]
  refine ⟨_, rfl, rfl, agreesWith_generated hash host original, ?_⟩
  simp only [validate, check_bind_eq_ok] at hvalid
  obtain ⟨htcp, hnonce, hpadding, hlow⟩ := hvalid
  simp only [generateImplicitTrafficPattern, validate, check_bind_eq_ok,
    generateTCPFragment_valid _ _ _ htcp, generateNoncePattern_valid_iff _ _ _ hnonce,
    generatePaddingPattern_valid _ _ _ hpadding, generateLowEntropyPattern_valid _ _ _ hlow,
    true_and, and_true]

theorem bothLengths_effective_valid :
    ∃ c, newConfig (fun _ => 0) ⟨fun _ => 0, ""⟩
        (some { nonce := some { minLen := some 2, maxLen := some 3 } }) = .ok c ∧
      validate (some c.effective) = .ok () := by
  obtain ⟨c, hc, horiginal, -, hiff⟩ := newConfig_effective_valid_iff (fun _ => 0)
    ⟨fun _ => 0, ""⟩ (some { nonce := some { minLen := some 2, maxLen := some 3 } }) rfl
  refine ⟨c, hc, hiff.mpr ?_⟩
  rw [horiginal]
  intro n hn hnone
  cases hn
  cases hnone

theorem validateNoncePattern_of_lt {n : NoncePattern} {minLen maxLen : ℤ}
    (hmin : n.minLen = some minLen) (hmax : n.maxLen = some maxLen)
    (h : 0 ≤ maxLen ∧ maxLen < minLen ∧ minLen ≤ 12) :
    validateNoncePattern (some n) =
      .error s!"NoncePattern minLen {minLen} is greater than maxLen {maxLen}" := by
  have hlow : checkRange "NoncePattern minLen" 12 (some minLen) = .ok () := by
    rw [checkRange_eq_ok]
    intro x hx
    cases hx
    omega
  have hhigh : checkRange "NoncePattern maxLen" 12 (some maxLen) = .ok () := by
    rw [checkRange_eq_ok]
    intro x hx
    cases hx
    omega
  simp only [validateNoncePattern, hmin, hmax]
  rw [hlow, ok_bind, hhigh, ok_bind, ensure_bind, if_neg (by omega)]

def shortMaxLen : TrafficPattern := { nonce := some { maxLen := some 3 } }

/-- A pattern that only bounds the nonce length by 3 gets a lower length of at least 6. -/
theorem shortMaxLen_effective_refused :
    validate (some shortMaxLen) = .ok () ∧
    ∀ (hash : String → ℕ) (host : Host), ∃ c, ∃ minLen : ℤ,
      newConfig hash host (some shortMaxLen) = .ok c ∧ c.effective.nonce.bind (·.minLen) = minLen ∧
      validate (some c.effective) =
        .error s!"NoncePattern minLen {minLen} is greater than maxLen 3" := by
  refine ⟨rfl, fun hash host => ?_⟩
  have hrange := generateMinLen_range hash (implicitSeed host shortMaxLen) false
  have hsix : 6 ≤ generateMinLen hash (implicitSeed host shortMaxLen) false := by
    have hdrawn := fixedInt_range hash s!"{implicitSeed host shortMaxLen}:nonce.minLen" (n := 7)
      (by decide)
    simp only [generateMinLen, Bool.false_eq_true, if_false]
    omega
  have hconfig : newConfig hash host (some shortMaxLen) =
      .ok (generateImplicitTrafficPattern hash host ⟨shortMaxLen, shortMaxLen⟩) := rfl
  have hrefused := validateNoncePattern_of_lt
    (n := generateNoncePattern hash (implicitSeed host shortMaxLen) false shortMaxLen.nonce
      shortMaxLen.nonce) rfl rfl ⟨by decide, by omega, hrange.2⟩
  refine ⟨_, generateMinLen hash (implicitSeed host shortMaxLen) false, hconfig, rfl, ?_⟩
  simp only [validate, generateImplicitTrafficPattern]
  rw [generateTCPFragment_valid _ _ _ rfl, ok_bind]
  refine (congrArg (· >>= _) hrefused).trans ?_
  rw [error_bind, String.append_assoc]
  rfl

end Mieru.TrafficPattern
