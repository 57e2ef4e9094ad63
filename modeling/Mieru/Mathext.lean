import Mieru.Lib.BitSelect

/-! # Bit and number helpers

`pdepGeneric` and `pextGeneric` are loops that peel off the lowest set bit of the
mask. Their specifications are stated bit by bit through the rank of the mask. -/
namespace Mieru.Mathext

open BitSelect

def repeatUint32 (v : UInt32) : BitVec 64 :=
  v.toBitVec.setWidth 64 <<< 32 ||| v.toBitVec.setWidth 64

def onesCount32 (v : UInt32) : ℕ := ones v.toBitVec

/-- `bits.RotateLeft64`: a negative `k` rotates right. -/
def rotateLeft64 (x : BitVec 64) (k : ℤ) : BitVec 64 :=
  let s := (k % 64).toNat
  x <<< s ||| x >>> (64 - s)

/-- The loop runs once per set bit of the mask, so 64 rounds always suffice. -/
def pdepLoop (x : BitVec 64) : ℕ → BitVec 64 → BitVec 64 → BitVec 64 → BitVec 64
  | 0, _, _, result => result
  | n + 1, srcBit, mask, result =>
    if mask = 0#64 then result
    else
      let maskBit := mask &&& -mask
      let result := if x &&& srcBit ≠ 0#64 then result ||| maskBit else result
      pdepLoop x n (srcBit <<< 1) (mask &&& (mask - 1#64)) result

def pdepGeneric (x mask : BitVec 64) : BitVec 64 := pdepLoop x 64 1#64 mask 0#64

def pextLoop (x : BitVec 64) : ℕ → BitVec 64 → BitVec 64 → BitVec 64 → BitVec 64
  | 0, _, _, result => result
  | n + 1, resultBit, mask, result =>
    if mask = 0#64 then result
    else
      let maskBit := mask &&& -mask
      let result := if x &&& maskBit ≠ 0#64 then result ||| resultBit else result
      pextLoop x n (resultBit <<< 1) (mask &&& (mask - 1#64)) result

def pextGeneric (x mask : BitVec 64) : BitVec 64 := pextLoop x 64 1#64 mask 0#64

def PDEP (x mask : BitVec 64) : BitVec 64 := pdepGeneric x mask
def PEXT (x mask : BitVec 64) : BitVec 64 := pextGeneric x mask

def mid {α : Type*} [LT α] [DecidableLT α] (a b c : α) : α :=
  let (v0, v1) := if a > b then (b, a) else (a, b)
  let (_, v2) := if v0 > c then (c, v0) else (v0, c)
  if v1 > v2 then v2 else v1

def withinRange {α : Type*} [LT α] [DecidableLT α] [DecidableEq α] [Add α] [Sub α]
    (v target margin : α) : Bool :=
  mid v (target - margin) (target + margin) = v

theorem ones_repeatUint32 (v : UInt32) : ones (repeatUint32 v) = 2 * onesCount32 v := by
  have happ : repeatUint32 v = v.toBitVec ++ v.toBitVec := by
    apply BitVec.eq_of_getLsbD_eq
    intro i hi
    simp only [repeatUint32, BitVec.getLsbD_or, BitVec.getLsbD_shiftLeft, BitVec.getLsbD_setWidth,
      BitVec.getLsbD_append]
    by_cases h : i < 32
    · simp [h, hi]
    · simp [h, hi, BitVec.getLsbD_of_ge v.toBitVec i (by omega), show i - 32 < 64 by omega]
  rw [happ, ones_append, onesCount32]
  omega

theorem rotateLeft64_eq (x : BitVec 64) (k : ℤ) :
    rotateLeft64 x k = x.rotateLeft (k % 64).toNat := by
  have hlt : (k % 64).toNat < 64 := by omega
  rw [BitVec.rotateLeft_def, Nat.mod_eq_of_lt hlt]
  rfl

theorem ones_rotateLeft64 (x : BitVec 64) (k : ℤ) : ones (rotateLeft64 x k) = ones x := by
  rw [rotateLeft64_eq, ones_rotateLeft]

theorem and_twoPow_ne_zero (x : BitVec 64) (k : ℕ) :
    x &&& BitVec.twoPow 64 k ≠ 0#64 ↔ x.getLsbD k = true := by
  rw [BitVec.and_twoPow]
  by_cases h : x.getLsbD k = true
  · have hk := BitVec.lt_of_getLsbD h
    rw [if_pos h]
    refine iff_of_true (fun hz => ?_) h
    have hbit := congrArg (fun y => BitVec.getLsbD y k) hz
    simp [hk] at hbit
  · simp [h]

theorem twoPow_shiftLeft_one (k : ℕ) :
    BitVec.twoPow 64 k <<< 1 = BitVec.twoPow 64 (k + 1) := by
  rw [BitVec.twoPow_eq, BitVec.twoPow_eq, ← BitVec.shiftLeft_add]

/-- One round of either loop: bit `t` is added when bit `q` of `x` is set. -/
theorem getLsbD_round (x result : BitVec 64) (q t i : ℕ) (hi : i < 64) :
    (if x &&& BitVec.twoPow 64 q ≠ 0#64 then result ||| BitVec.twoPow 64 t else result).getLsbD i =
      (result.getLsbD i || (decide (i = t) && x.getLsbD q)) := by
  by_cases hx : x.getLsbD q = true
  · rw [if_pos ((and_twoPow_ne_zero x q).mpr hx), BitVec.getLsbD_or, BitVec.getLsbD_twoPow, hx,
      Bool.and_true]
    by_cases ht : i = t
    · simp [← ht, hi]
    · simp [ht, Ne.symm ht]
  · rw [if_neg ((and_twoPow_ne_zero x q).not.mpr hx)]
    simp [hx]

/-- The induction follows the loop; after `k` rounds the mask has lost its `k`
lowest bits, so ranks in it are `k` short of those in the original mask. -/
theorem getLsbD_pdepLoop (x : BitVec 64) (n k : ℕ) (mask result : BitVec 64)
    (hn : ones mask ≤ n) (i : ℕ) (hi : i < 64) :
    (pdepLoop x n (BitVec.twoPow 64 k) mask result).getLsbD i =
      (result.getLsbD i || (mask.getLsbD i && x.getLsbD (k + rank mask i))) := by
  induction n generalizing k mask result with
  | zero =>
    have hbit : mask.getLsbD i = false := by
      by_contra h
      have := rank_lt_ones (m := mask) (i := i) (by simpa using h)
      omega
    simp [pdepLoop, hbit]
  | succ n ih =>
    by_cases hz : mask = 0#64
    · simp [pdepLoop, hz]
    · obtain ⟨p, hpw, hp, hlow⟩ := exists_lowest hz
      have hones := ones_clear_lowest hp hlow
      have hrank := rank_clear_lowest hp hlow i
      simp only [pdepLoop, if_neg hz, twoPow_shiftLeft_one, and_neg_eq_twoPow hp hlow]
      rw [ih (k + 1) _ _ (by omega), getLsbD_round x result k p i hi,
        getLsbD_clear_lowest hp hlow]
      rcases lt_trichotomy i p with hj | hj | hj
      · simp [hlow i hj, show i ≠ p by omega]
      · subst hj
        simp [hp, rank_lowest hlow]
      · rw [if_pos hj] at hrank
        simp [show i ≠ p by omega, hrank, Nat.add_assoc, Nat.add_comm 1]

theorem getLsbD_PDEP (x mask : BitVec 64) {i : ℕ} (hi : i < 64) :
    (PDEP x mask).getLsbD i = (mask.getLsbD i && x.getLsbD (rank mask i)) := by
  have hones := ones_le mask
  have h := getLsbD_pdepLoop x 64 0 mask 0#64 hones i hi
  simpa [PDEP, pdepGeneric, BitVec.twoPow_eq] using h

theorem getLsbD_pextLoop (x : BitVec 64) (n k : ℕ) (mask result : BitVec 64)
    (hn : ones mask ≤ n) (j : ℕ) (hj : j < 64) :
    (pextLoop x n (BitVec.twoPow 64 k) mask result).getLsbD j = true ↔
      result.getLsbD j = true ∨
        ∃ i, mask.getLsbD i = true ∧ k + rank mask i = j ∧ x.getLsbD i = true := by
  induction n generalizing k mask result with
  | zero =>
    refine ⟨Or.inl, fun h => h.resolve_right ?_⟩
    rintro ⟨i, hm, -⟩
    have := rank_lt_ones hm
    omega
  | succ n ih =>
    by_cases hz : mask = 0#64
    · simp [pextLoop, hz]
    · obtain ⟨p, hpw, hp, hlow⟩ := exists_lowest hz
      have hones := ones_clear_lowest hp hlow
      simp only [pextLoop, if_neg hz, twoPow_shiftLeft_one, and_neg_eq_twoPow hp hlow]
      rw [ih (k + 1) _ _ (by omega), getLsbD_round x result p k j hj]
      -- a set bit of the mask is either the lowest one or survives the round
      have hsplit : (∃ i, mask.getLsbD i = true ∧ k + rank mask i = j ∧ x.getLsbD i = true) ↔
          (j = k ∧ x.getLsbD p = true) ∨
            ∃ i, (mask &&& (mask - 1#64)).getLsbD i = true ∧
              k + 1 + rank (mask &&& (mask - 1#64)) i = j ∧ x.getLsbD i = true := by
        constructor
        · rintro ⟨i, hm, hr, hx⟩
          by_cases hip : i = p
          · subst hip
            rw [rank_lowest hlow] at hr
            exact Or.inl ⟨by omega, hx⟩
          · have hlt : p < i := by
              by_contra hle
              simp [hlow i (by omega)] at hm
            have hrank := rank_clear_lowest hp hlow i
            rw [if_pos hlt] at hrank
            refine Or.inr ⟨i, ?_, by omega, hx⟩
            simp [getLsbD_clear_lowest hp hlow, hm, hip]
        · rintro (⟨rfl, hx⟩ | ⟨i, hm, hr, hx⟩)
          · exact ⟨p, hp, by rw [rank_lowest hlow, Nat.add_zero], hx⟩
          · rw [getLsbD_clear_lowest hp hlow] at hm
            simp only [Bool.and_eq_true, decide_eq_true_eq] at hm
            have hlt : p < i := by
              by_contra hle
              simp [hlow i (by omega)] at hm
            have hrank := rank_clear_lowest hp hlow i
            rw [if_pos hlt] at hrank
            exact ⟨i, hm.1, by omega, hx⟩
      rw [hsplit]
      simp [or_assoc]

theorem getLsbD_PEXT (x mask : BitVec 64) {j : ℕ} (hj : j < 64) :
    (PEXT x mask).getLsbD j = true ↔
      ∃ i, mask.getLsbD i = true ∧ rank mask i = j ∧ x.getLsbD i = true := by
  have h := getLsbD_pextLoop x 64 0 mask 0#64 (ones_le mask) j hj
  simpa [PEXT, pextGeneric, BitVec.twoPow_eq] using h

theorem getLsbD_PEXT_rank (x mask : BitVec 64) {i : ℕ} (hm : mask.getLsbD i = true) :
    (PEXT x mask).getLsbD (rank mask i) = x.getLsbD i := by
  have hones := ones_le mask
  have hlt := rank_lt_ones hm
  apply Bool.eq_iff_iff.mpr
  rw [getLsbD_PEXT x mask (by omega)]
  constructor
  · rintro ⟨i', hm', hr, hx⟩
    have heq : i' = i := Nat.count_injective (p := fun j => mask.getLsbD j = true) hm' hm hr
    exact heq ▸ hx
  · intro hx
    exact ⟨i, hm, rfl, hx⟩

theorem pdepLoop_of_ones_le (x mask : BitVec 64) {n : ℕ} (hn : ones mask ≤ n) :
    pdepLoop x n 1#64 mask 0#64 = pdepGeneric x mask := by
  apply BitVec.eq_of_getLsbD_eq
  intro i hi
  have hmore := getLsbD_pdepLoop x n 0 mask 0#64 hn i hi
  have hall := getLsbD_pdepLoop x 64 0 mask 0#64 (ones_le mask) i hi
  exact hmore.trans hall.symm

theorem pextLoop_of_ones_le (x mask : BitVec 64) {n : ℕ} (hn : ones mask ≤ n) :
    pextLoop x n 1#64 mask 0#64 = pextGeneric x mask := by
  apply BitVec.eq_of_getLsbD_eq
  intro j hj
  have hmore := getLsbD_pextLoop x n 0 mask 0#64 hn j hj
  have hall := getLsbD_pextLoop x 64 0 mask 0#64 (ones_le mask) j hj
  exact Bool.eq_iff_iff.mpr (hmore.trans hall.symm)

/-! ## The two are inverse on the mask -/

theorem getLsbD_PEXT_PDEP (x mask : BitVec 64) {j : ℕ} (hj : j < 64) :
    (PEXT (PDEP x mask) mask).getLsbD j = (decide (j < ones mask) && x.getLsbD j) := by
  apply Bool.eq_iff_iff.mpr
  rw [getLsbD_PEXT _ mask hj, Bool.and_eq_true, decide_eq_true_eq]
  constructor
  · rintro ⟨i, hm, rfl, hbit⟩
    rw [getLsbD_PDEP x mask (BitVec.lt_of_getLsbD hm), hm, Bool.true_and] at hbit
    exact ⟨rank_lt_ones hm, hbit⟩
  · rintro ⟨hlt, hbit⟩
    obtain ⟨i, hi, hm, rfl⟩ := exists_rank_eq hlt
    refine ⟨i, hm, rfl, ?_⟩
    rw [getLsbD_PDEP x mask hi, hm, hbit]
    rfl

/-- Extraction undoes a deposit up to the bits there was no room for, a deposit puts the
extracted bits back, and a deposit stays within the mask. -/
theorem pext_pdep_inverse (x y mask : BitVec 64) :
    (pextGeneric (pdepGeneric x mask) mask).toNat = x.toNat % 2 ^ ones mask ∧
      pdepGeneric (pextGeneric y mask) mask = y &&& mask ∧
      pdepGeneric x mask &&& ~~~mask = 0#64 := by
  refine ⟨?_, ?_, ?_⟩
  · have hcut : pextGeneric (pdepGeneric x mask) mask = (x.setWidth (ones mask)).setWidth 64 := by
      apply BitVec.eq_of_getLsbD_eq
      intro j hj
      have hbit := getLsbD_PEXT_PDEP x mask hj
      simpa [PEXT, PDEP, hj] using hbit
    have hlt : x.toNat % 2 ^ ones mask < 2 ^ 64 :=
      lt_of_lt_of_le (Nat.mod_lt _ (Nat.two_pow_pos _))
        (Nat.pow_le_pow_right Nat.zero_lt_two (ones_le mask))
    rw [hcut, BitVec.toNat_setWidth, BitVec.toNat_setWidth, Nat.mod_eq_of_lt hlt]
  · apply BitVec.eq_of_getLsbD_eq
    intro i hi
    have hdep := getLsbD_PDEP (PEXT y mask) mask hi
    by_cases hm : mask.getLsbD i = true
    · have hext := getLsbD_PEXT_rank y mask hm
      rw [hext, hm, Bool.true_and] at hdep
      rw [BitVec.getLsbD_and, hm, Bool.and_true]
      exact hdep
    · rw [Bool.eq_false_iff.mpr hm, Bool.false_and] at hdep
      rw [BitVec.getLsbD_and, Bool.eq_false_iff.mpr hm, Bool.and_false]
      exact hdep
  · apply BitVec.eq_of_getLsbD_eq
    intro i hi
    have hdep : (pdepGeneric x mask).getLsbD i = _ := getLsbD_PDEP x mask hi
    rw [BitVec.getLsbD_and, BitVec.getLsbD_not, hdep]
    cases mask.getLsbD i <;> simp

end Mieru.Mathext
