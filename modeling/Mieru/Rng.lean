import Mathlib.Logic.Equiv.Basic
import Mieru.Lib.Result
import Mieru.Mathext

/-! # Random numbers

A random value is a function of a draw that the environment makes; each draw is
reduced to the range of the call. Values fixed per host and version come from a
hash of a hint. -/
namespace Mieru.Rng

open BitSelect Mathext Result

def mrandIntn (n draw : ℕ) : ℕ := draw % n

/-- The scaled value is always below `n`, except that `Intn(0)` is 0. -/
def intn (n draw : ℕ) : ℕ := if n = 0 then 0 else draw % n

/-- `bitPositions` is an array that is only ever changed by swapping two entries. -/
def uint32WithBitsLoop (draws : ℕ → ℕ) :
    ℕ → ℕ → Equiv.Perm (Fin 32) → UInt32 → UInt32
  | 0, _, _, result => result
  | left + 1, i, bitPositions, result =>
    let j := i + mrandIntn (32 - i) (draws i)
    let bitPositions := (Equiv.swap (Fin.ofNat 32 i) (Fin.ofNat 32 j)).trans bitPositions
    let result := result ||| 1 <<< UInt32.ofNat (bitPositions (Fin.ofNat 32 i))
    uint32WithBitsLoop draws left (i + 1) bitPositions result

def uint32WithBits (n : ℤ) (draws : ℕ → ℕ) : Except Fault UInt32 :=
  if n < 0 ∨ n > 32 then
    .error (.panicked "number of set bits must be between 0 and 32")
  else .ok (uint32WithBitsLoop draws n.toNat 0 (Equiv.refl _) 0)

/-- `FixedInt` by the hash of its hint; the cache only saves hashing a hint again. -/
def fixedInt (hash : String → ℕ) (n : ℤ) (hint : String) : ℤ :=
  if n ≤ 0 then 0 else hash hint % n

structure Host where
  hash : String → ℕ
  hostName : String

def Host.fixedIntV (host : Host) (n : ℕ) (hint : String) : ℕ :=
  if n = 0 then 0 else host.hash hint % n

def Host.fixedIntVH (host : Host) (n : ℕ) : ℕ := host.fixedIntV n host.hostName

theorem intn_lt {n : ℕ} (draw : ℕ) (h : 0 < n) : intn n draw < n := by
  rw [intn, if_neg (Nat.ne_of_gt h)]
  exact Nat.mod_lt _ h

theorem fixedInt_range (hash : String → ℕ) {n : ℤ} (hint : String) (h : 0 < n) :
    0 ≤ fixedInt hash n hint ∧ fixedInt hash n hint < n := by
  rw [fixedInt, if_neg (by omega)]
  exact ⟨Int.emod_nonneg _ (by omega), Int.emod_lt_of_pos _ h⟩

theorem Host.fixedIntV_lt (host : Host) {n : ℕ} (hint : String) (h : 0 < n) :
    host.fixedIntV n hint < n := by
  rw [fixedIntV, if_neg (Nat.ne_of_gt h)]
  exact Nat.mod_lt _ h

theorem toBitVec_shiftLeft_one (k : Fin 32) :
    (1 <<< UInt32.ofNat (k : ℕ) : UInt32).toBitVec = BitVec.twoPow 32 k := by
  revert k
  decide

theorem getLsbD_setBit (result : UInt32) (k l : Fin 32) :
    (result ||| 1 <<< UInt32.ofNat (k : ℕ)).toBitVec.getLsbD l =
      (result.toBitVec.getLsbD l || decide (l = k)) := by
  rw [UInt32.toBitVec_or, toBitVec_shiftLeft_one, BitVec.getLsbD_or, BitVec.getLsbD_twoPow]
  simp [Fin.ext_iff, eq_comm]

theorem uint32WithBitsLoop_round (draws : ℕ → ℕ) (left : ℕ) {a b : Fin 32}
    (hb : (a : ℕ) + mrandIntn (32 - a) (draws a) = b) (bitPositions : Equiv.Perm (Fin 32))
    (result : UInt32) :
    uint32WithBitsLoop draws (left + 1) a bitPositions result =
      uint32WithBitsLoop draws left (a + 1) ((Equiv.swap a b).trans bitPositions)
        (result ||| 1 <<< UInt32.ofNat (bitPositions b)) := by
  have hfin (k : Fin 32) : Fin.ofNat 32 (k : ℕ) = k := Fin.ext (Nat.mod_eq_of_lt k.isLt)
  rw [uint32WithBitsLoop, hb, hfin, hfin, Equiv.trans_apply, Equiv.swap_apply_left]

theorem swap_tail {a b k : Fin 32} (hab : a ≤ b) (hk : a ≤ k) (hne : k ≠ b) :
    a < Equiv.swap a b k := by
  rw [Equiv.swap_apply_def]
  split_ifs with ha
  · exact lt_of_le_of_ne hab (ha ▸ hne)
  · exact lt_of_le_of_ne hk (Ne.symm ha)

theorem le_swap {a b k : Fin 32} (hab : a ≤ b) (hk : a ≤ k) : a ≤ Equiv.swap a b k := by
  rw [Equiv.swap_apply_def]
  split_ifs
  · exact hab
  · exact le_rfl
  · exact hk

/-- The entries from `i` on are positions that are still clear in the result. -/
theorem onesCount32_uint32WithBitsLoop (draws : ℕ → ℕ) (left i : ℕ)
    (bitPositions : Equiv.Perm (Fin 32)) (result : UInt32) (hle : i + left ≤ 32)
    (hclear : ∀ k : Fin 32, i ≤ k → result.toBitVec.getLsbD (bitPositions k) = false) :
    onesCount32 (uint32WithBitsLoop draws left i bitPositions result) =
      onesCount32 result + left := by
  induction left generalizing i bitPositions result with
  | zero => rfl
  | succ left ih =>
    have hi : i < 32 := by omega
    have hj : i + mrandIntn (32 - i) (draws i) < 32 := by
      have := Nat.mod_lt (draws i) (show 32 - i > 0 by omega)
      rw [mrandIntn]
      omega
    obtain ⟨a, rfl⟩ : ∃ a : Fin 32, i = a := ⟨⟨i, hi⟩, rfl⟩
    obtain ⟨b, hb⟩ : ∃ b : Fin 32, (a : ℕ) + mrandIntn (32 - a) (draws a) = b := ⟨⟨_, hj⟩, rfl⟩
    have hab : a ≤ b := Fin.le_def.mpr (hb ▸ Nat.le_add_right _ _)
    rw [uint32WithBitsLoop_round draws left hb, ih _ _ _ (by omega)]
    · rw [onesCount32, UInt32.toBitVec_or, toBitVec_shiftLeft_one,
        ones_or_twoPow (hclear b hab) (Fin.isLt _), onesCount32]
      omega
    · intro k hk
      have hak : a < k := Fin.lt_def.mpr hk
      have hne : Equiv.swap a b k ≠ b := by
        have hmoved := (Equiv.swap a b).injective.ne hak.ne'
        rwa [Equiv.swap_apply_left] at hmoved
      rw [Equiv.trans_apply, getLsbD_setBit, hclear _ (le_swap hab hak.le), Bool.false_or,
        decide_eq_false_iff_not]
      exact fun heq => hne (bitPositions.injective heq)

theorem uint32WithBits_ok {n : ℕ} (draws : ℕ → ℕ) (h : n ≤ 32) :
    ∃ v, uint32WithBits n draws = .ok v ∧ onesCount32 v = n := by
  refine ⟨_, if_neg (by omega), ?_⟩
  rw [Int.toNat_natCast, onesCount32_uint32WithBitsLoop draws n 0 _ 0 (by omega)]
  · simp [onesCount32, ones, rank]
  · intro k _
    simp

/-! ## Every set of positions can come out -/

theorem uint32WithBitsLoop_congr {draws draws' : ℕ → ℕ} (left i : ℕ)
    (bitPositions : Equiv.Perm (Fin 32)) (result : UInt32)
    (h : ∀ k, i ≤ k → draws k = draws' k) :
    uint32WithBitsLoop draws left i bitPositions result =
      uint32WithBitsLoop draws' left i bitPositions result := by
  induction left generalizing i bitPositions result with
  | zero => rfl
  | succ left ih =>
    simp only [uint32WithBitsLoop, h i le_rfl]
    exact ih _ _ _ fun k hk => h k (by omega)

theorem exists_draws_loop (positions : Finset (Fin 32)) (i : ℕ)
    (bitPositions : Equiv.Perm (Fin 32)) (result : UInt32)
    (htail : ∀ k ∈ positions, i ≤ (bitPositions.symm k : ℕ)) :
    ∃ draws : ℕ → ℕ, (∀ k < 32, draws k < 32 - k) ∧ ∀ l : Fin 32,
      (uint32WithBitsLoop draws positions.card i bitPositions result).toBitVec.getLsbD l =
        (result.toBitVec.getLsbD l || decide (l ∈ positions)) := by
  induction positions using Finset.induction_on generalizing i bitPositions result with
  | empty =>
    refine ⟨fun _ => 0, ?_, by simp [uint32WithBitsLoop]⟩
    intro k hk
    exact Nat.sub_pos_of_lt hk
  | insert p positions hp ih =>
    have hip := htail p (Finset.mem_insert_self p positions)
    obtain ⟨a, rfl⟩ : ∃ a : Fin 32, i = a :=
      ⟨⟨i, lt_of_le_of_lt hip (bitPositions.symm p).isLt⟩, rfl⟩
    let b := bitPositions.symm p
    have hab : a ≤ b := Fin.le_def.mpr hip
    -- after the round, what is left stands behind `a`
    have hrest : ∀ k ∈ positions,
        (a : ℕ) + 1 ≤ (((Equiv.swap a b).trans bitPositions).symm k : ℕ) := by
      intro k hk
      have hne : bitPositions.symm k ≠ b :=
        bitPositions.symm.injective.ne (ne_of_mem_of_not_mem hk hp)
      have hak : a ≤ bitPositions.symm k :=
        Fin.le_def.mpr (htail k (Finset.mem_insert_of_mem hk))
      rw [Equiv.symm_trans_apply, Equiv.symm_swap]
      exact Fin.lt_def.mp (swap_tail hab hak hne)
    obtain ⟨draws, hrange, hbits⟩ := ih (a + 1) ((Equiv.swap a b).trans bitPositions)
      (result ||| 1 <<< UInt32.ofNat (bitPositions b)) hrest
    refine ⟨Function.update draws a (b - a), ?_, ?_⟩
    · intro k hk
      by_cases hka : k = a
      · rw [hka, Function.update_self]
        have := b.isLt
        omega
      · rw [Function.update_of_ne hka]
        exact hrange k hk
    · intro l
      have hdraw : (a : ℕ) + mrandIntn (32 - a) (Function.update draws a (b - a) a) = b := by
        rw [Function.update_self, mrandIntn, Nat.mod_eq_of_lt (by omega)]
        omega
      have hlater : ∀ k, (a : ℕ) + 1 ≤ k → Function.update draws a (b - a) k = draws k :=
        fun k hk => Function.update_of_ne (by omega) _ _
      have hpb : bitPositions b = p := bitPositions.apply_symm_apply p
      rw [Finset.card_insert_of_notMem hp, uint32WithBitsLoop_round _ _ hdraw,
        uint32WithBitsLoop_congr _ _ _ _ hlater, hbits l, getLsbD_setBit, hpb, Bool.or_assoc]
      simp only [Finset.mem_insert, Bool.decide_or]

/-- For every `n` from 0 to 32, whatever is drawn, exactly `n` bits are set, and every set of `n`
positions comes out of some draws. -/
theorem uint32WithBits_every_set {n : ℤ} (hn : 0 ≤ n ∧ n ≤ 32) :
    (∀ draws : ℕ → ℕ, ∃ v, uint32WithBits n draws = .ok v ∧ (onesCount32 v : ℤ) = n) ∧
      ∀ positions : Finset (Fin 32), (positions.card : ℤ) = n →
        ∃ draws : ℕ → ℕ, (∀ k < 32, draws k < 32 - k) ∧ ∃ v, uint32WithBits n draws = .ok v ∧
          ∀ l : Fin 32, v.toBitVec.getLsbD l = true ↔ l ∈ positions := by
  obtain ⟨n, rfl⟩ := Int.eq_ofNat_of_zero_le hn.1
  constructor
  · intro draws
    obtain ⟨v, hv, hcount⟩ := uint32WithBits_ok draws (show n ≤ 32 by omega)
    exact ⟨v, hv, congrArg Nat.cast hcount⟩
  · intro positions hcard
    obtain ⟨draws, hrange, hbits⟩ := exists_draws_loop positions 0 (Equiv.refl _) 0 (by simp)
    refine ⟨draws, hrange, _, if_neg (by omega), ?_⟩
    intro l
    have hbit := hbits l
    rw [Int.ofNat.inj hcard] at hbit
    rw [Int.toNat_natCast, hbit]
    simp

theorem uint32WithBits_two_ends :
    (0 ≤ (2 : ℤ) ∧ (2 : ℤ) ≤ 32) ∧
      ∃ draws : ℕ → ℕ, (∀ k < 32, draws k < 32 - k) ∧ ∃ v, uint32WithBits 2 draws = .ok v ∧
        ∀ l : Fin 32, v.toBitVec.getLsbD l = true ↔ l ∈ ({0, 31} : Finset (Fin 32)) := by
  have hrange : 0 ≤ (2 : ℤ) ∧ (2 : ℤ) ≤ 32 := by decide
  exact ⟨hrange, (uint32WithBits_every_set hrange).2 {0, 31} (by decide)⟩

end Mieru.Rng
