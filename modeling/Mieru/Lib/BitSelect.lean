import Mathlib.Data.Nat.Count
import Mathlib.Tactic.Common
import Mathlib.Tactic.Ring

/-! # Rank and lowest set bit of a fixed-width word

`rank m i` counts the set bits of `m` below position `i`. Word loops that peel
off the lowest set bit of a mask visit its bits in the order of their ranks. -/
namespace BitSelect

variable {w : ℕ}

def rank (m : BitVec w) (i : ℕ) : ℕ := Nat.count (fun j => m.getLsbD j = true) i

def ones (m : BitVec w) : ℕ := rank m w

theorem rank_succ (m : BitVec w) (i : ℕ) :
    rank m (i + 1) = rank m i + if m.getLsbD i = true then 1 else 0 :=
  Nat.count_succ _ i

theorem count_congr {p q : ℕ → Prop} [DecidablePred p] [DecidablePred q] {n : ℕ}
    (h : ∀ j < n, p j ↔ q j) : Nat.count p n = Nat.count q n :=
  le_antisymm (Nat.count_mono_left fun j hj => (h j hj).mp)
    (Nat.count_mono_left fun j hj => (h j hj).mpr)

theorem ones_le (m : BitVec w) : ones m ≤ w := Nat.count_le _

theorem rank_lt_ones {m : BitVec w} {i : ℕ} (h : m.getLsbD i = true) : rank m i < ones m :=
  Nat.count_strict_mono (p := fun j => m.getLsbD j = true) h (BitVec.lt_of_getLsbD h)

theorem exists_rank_eq {m : BitVec w} {k : ℕ} (h : k < ones m) :
    ∃ i < w, m.getLsbD i = true ∧ rank m i = k := by
  have hall : ∀ n, k < rank m n → ∃ i < n, m.getLsbD i = true ∧ rank m i = k := by
    intro n
    induction n with
    | zero => simp [rank]
    | succ n ih =>
      intro hn
      rw [rank_succ] at hn
      by_cases hk : k < rank m n
      · obtain ⟨i, hi, hs⟩ := ih hk
        exact ⟨i, by omega, hs⟩
      · by_cases hb : m.getLsbD n = true
        · rw [if_pos hb] at hn
          exact ⟨n, by omega, hb, by omega⟩
        · rw [if_neg hb] at hn
          omega
  exact hall w h

/-! ## The lowest set bit -/

theorem exists_lowest {m : BitVec w} (h : m ≠ 0#w) :
    ∃ p < w, m.getLsbD p = true ∧ ∀ j < p, m.getLsbD j = false :=
  ⟨m.ctz.toNat, BitVec.lt_of_getLsbD (BitVec.getLsbD_true_ctz_of_ne_zero h),
    BitVec.getLsbD_true_ctz_of_ne_zero h, fun _ hj => BitVec.getLsbD_false_of_lt_ctz hj⟩

theorem rank_lowest {m : BitVec w} {p : ℕ} (hlow : ∀ j < p, m.getLsbD j = false) :
    rank m p = 0 :=
  Nat.count_of_forall_not fun j hj => by simp [hlow j hj]

theorem getLsbD_sub_one {m : BitVec w} {p : ℕ} (hp : m.getLsbD p = true)
    (hlow : ∀ j < p, m.getLsbD j = false) (i : ℕ) :
    (m - 1#w).getLsbD i = if i < p then true else if i = p then false else m.getLsbD i := by
  have hpw := BitVec.lt_of_getLsbD hp
  have hmod : m.toNat % 2 ^ (p + 1) = 2 ^ p := by
    apply Nat.eq_of_testBit_eq
    intro j
    rw [Nat.testBit_mod_two_pow, Nat.testBit_two_pow, BitVec.testBit_toNat]
    rcases lt_trichotomy j p with hj | hj | hj
    · simp [hlow j hj, show p ≠ j by omega]
    · simp [hj, hp]
    · simp [show ¬ j < p + 1 by omega, show p ≠ j by omega]
  -- split the number at the lowest set bit
  have hsplit := Nat.div_add_mod m.toNat (2 ^ (p + 1))
  rw [hmod] at hsplit
  have hpos := Nat.two_pow_pos p
  have hlt := m.isLt
  have hone : (1#w).toNat = 1 := by
    rw [BitVec.toNat_ofNat]
    exact Nat.mod_eq_of_lt (Nat.one_lt_two_pow (by omega))
  have hsub : (m - 1#w).toNat = 2 ^ (p + 1) * (m.toNat / 2 ^ (p + 1)) + (2 ^ p - 1) := by
    rw [BitVec.toNat_sub_of_le (by rw [BitVec.le_def, hone]; omega), hone]
    omega
  have hpow : 2 ^ p - 1 < 2 ^ (p + 1) := by
    rw [Nat.pow_succ]
    omega
  rw [← BitVec.testBit_toNat, hsub, Nat.testBit_two_pow_mul_add _ hpow]
  rcases lt_trichotomy i p with hj | hj | hj
  · simp [hj, show i < p + 1 by omega]
  · simp [hj]
  · rw [if_neg (by omega), if_neg (by omega), if_neg (by omega), Nat.testBit_div_two_pow,
      BitVec.testBit_toNat]
    congr 1
    omega

theorem and_neg_eq_twoPow {m : BitVec w} {p : ℕ} (hp : m.getLsbD p = true)
    (hlow : ∀ j < p, m.getLsbD j = false) : m &&& -m = BitVec.twoPow w p := by
  apply BitVec.eq_of_getLsbD_eq
  intro i hi
  have hneg : -m = ~~~(m - 1#w) := by rw [← BitVec.not_neg, BitVec.not_not]
  rw [hneg, BitVec.getLsbD_and, BitVec.getLsbD_not, getLsbD_sub_one hp hlow i,
    BitVec.getLsbD_twoPow]
  rcases lt_trichotomy i p with hj | hj | hj
  · simp [hlow i hj, show p ≠ i by omega]
  · simp [hj, hp, BitVec.lt_of_getLsbD hp]
  · simp [show ¬ i < p by omega, show i ≠ p by omega, show p ≠ i by omega, hi]

theorem getLsbD_clear_lowest {m : BitVec w} {p : ℕ} (hp : m.getLsbD p = true)
    (hlow : ∀ j < p, m.getLsbD j = false) (i : ℕ) :
    (m &&& (m - 1#w)).getLsbD i = (m.getLsbD i && decide (i ≠ p)) := by
  rw [BitVec.getLsbD_and, getLsbD_sub_one hp hlow i]
  rcases lt_trichotomy i p with hj | hj | hj
  · simp [hlow i hj]
  · simp [hj]
  · simp [show ¬ i < p by omega, show i ≠ p by omega]

theorem rank_clear_lowest {m : BitVec w} {p : ℕ} (hp : m.getLsbD p = true)
    (hlow : ∀ j < p, m.getLsbD j = false) (i : ℕ) :
    rank m i = rank (m &&& (m - 1#w)) i + if p < i then 1 else 0 := by
  induction i with
  | zero => simp [rank]
  | succ i ih =>
    rw [rank_succ, rank_succ, ih, getLsbD_clear_lowest hp hlow]
    rcases lt_trichotomy i p with hj | hj | hj
    · simp [hlow i hj, show ¬ p < i by omega, show ¬ p < i + 1 by omega]
    · simp [hj, hp]
    · simp only [show i ≠ p by omega, show p < i by omega, show p < i + 1 by omega, ne_eq,
        not_false_eq_true, decide_true, Bool.and_true, if_true]
      omega

theorem ones_clear_lowest {m : BitVec w} {p : ℕ} (hp : m.getLsbD p = true)
    (hlow : ∀ j < p, m.getLsbD j = false) : ones m = ones (m &&& (m - 1#w)) + 1 := by
  have h := rank_clear_lowest hp hlow w
  rwa [if_pos (BitVec.lt_of_getLsbD hp)] at h

theorem rank_or_twoPow {m : BitVec w} {p : ℕ} (hp : m.getLsbD p = false) (hpw : p < w) (i : ℕ) :
    rank (m ||| BitVec.twoPow w p) i = rank m i + if p < i then 1 else 0 := by
  induction i with
  | zero => simp [rank]
  | succ i ih =>
    rw [rank_succ, rank_succ, ih, BitVec.getLsbD_or, BitVec.getLsbD_twoPow]
    rcases lt_trichotomy i p with hj | hj | hj
    · simp [show p ≠ i by omega, show ¬ p < i by omega, show ¬ p < i + 1 by omega]
    · rw [hj, hp]
      simp [hpw]
    · simp only [show p ≠ i by omega, show p < i by omega, show p < i + 1 by omega, decide_false,
        Bool.and_false, Bool.or_false, if_true]
      omega

theorem ones_or_twoPow {m : BitVec w} {p : ℕ} (hp : m.getLsbD p = false) (hpw : p < w) :
    ones (m ||| BitVec.twoPow w p) = ones m + 1 := by
  have h := rank_or_twoPow hp hpw w
  rwa [if_pos hpw] at h

/-! ## Rotation and repetition -/

theorem ones_rotateLeft (m : BitVec w) (r : ℕ) : ones (m.rotateLeft r) = ones m := by
  rcases Nat.eq_zero_or_pos w with rfl | hw
  · rfl
  rw [← BitVec.rotateLeft_mod_eq_rotateLeft]
  have hr := Nat.mod_lt r hw
  generalize r % w = s at hr
  -- the word is two blocks, and rotation swaps them
  calc ones (m.rotateLeft s)
      = Nat.count (fun j => (m.rotateLeft s).getLsbD j = true) (s + (w - s)) := by
        rw [show s + (w - s) = w by omega]
        rfl
    _ = Nat.count (fun j => m.getLsbD (w - s + j) = true) s +
          Nat.count (fun j => m.getLsbD j = true) (w - s) := by
        rw [Nat.count_add]
        congr 1
        · refine count_congr fun j hj => ?_
          rw [BitVec.getLsbD_rotateLeft_of_le hr]
          simp [hj]
        · refine count_congr fun j hj => ?_
          rw [BitVec.getLsbD_rotateLeft_of_le hr]
          simp [show s + j < w by omega]
    _ = Nat.count (fun j => m.getLsbD j = true) (w - s + s) := by
        rw [Nat.count_add, Nat.add_comm]
    _ = ones m := by
        rw [show w - s + s = w by omega]
        rfl

theorem ones_append {v : ℕ} (x : BitVec v) (y : BitVec w) : ones (x ++ y) = ones x + ones y := by
  calc ones (x ++ y)
      = Nat.count (fun j => (x ++ y).getLsbD j = true) (w + v) := by
        rw [Nat.add_comm w v]
        rfl
    _ = Nat.count (fun j => y.getLsbD j = true) w + Nat.count (fun j => x.getLsbD j = true) v := by
        rw [Nat.count_add]
        congr 1
        · exact count_congr fun j hj => by simp [BitVec.getLsbD_append, hj]
        · exact count_congr fun j hj => by simp [BitVec.getLsbD_append]
    _ = ones x + ones y := Nat.add_comm _ _

end BitSelect
