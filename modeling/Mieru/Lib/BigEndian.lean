import Mathlib.Data.UInt
import Mathlib.Tactic.Common
import Mathlib.Tactic.Ring

/-! # Big-endian byte strings

`encode n v` is the `n`-byte big-endian form of `v` modulo `256 ^ n`, and
`decode` reads a byte string of any length. -/
namespace BigEndian

def decode (bs : List UInt8) : ℕ := bs.foldl (fun acc b => acc * 256 + b.toNat) 0

def encode : ℕ → ℕ → List UInt8
  | 0, _ => []
  | n + 1, v => UInt8.ofNat (v / 256 ^ n) :: encode n v

@[simp] theorem length_encode (n v : ℕ) : (encode n v).length = n := by
  induction n with
  | zero => rfl
  | succ n ih => simp [encode, ih]

theorem foldl_decode (acc : ℕ) (bs : List UInt8) :
    bs.foldl (fun acc b => acc * 256 + b.toNat) acc = acc * 256 ^ bs.length + decode bs := by
  induction bs generalizing acc with
  | nil => simp [decode]
  | cons b bs ih =>
    have hb := ih b.toNat
    simp only [decode, List.foldl_cons, List.length_cons, Nat.zero_mul, Nat.zero_add] at hb ⊢
    rw [ih, hb]
    simp only [decode]
    ring

@[simp] theorem decode_nil : decode [] = 0 := rfl

theorem decode_cons (b : UInt8) (bs : List UInt8) :
    decode (b :: bs) = b.toNat * 256 ^ bs.length + decode bs := by
  have h := foldl_decode b.toNat bs
  simpa [decode] using h

theorem decode_append (xs ys : List UInt8) :
    decode (xs ++ ys) = decode xs * 256 ^ ys.length + decode ys := by
  have h := foldl_decode (decode xs) ys
  simpa [decode] using h

theorem decode_lt (bs : List UInt8) : decode bs < 256 ^ bs.length := by
  induction bs with
  | nil => simp
  | cons b bs ih =>
    have hb : b.toNat + 1 ≤ 256 := b.toNat_lt
    have hmul := Nat.mul_le_mul_right (256 ^ bs.length) hb
    rw [Nat.add_mul, Nat.one_mul] at hmul
    rw [decode_cons, List.length_cons, Nat.pow_succ]
    omega

theorem decode_replicate_zero (k : ℕ) (bs : List UInt8) :
    decode (List.replicate k 0 ++ bs) = decode bs := by
  induction k with
  | zero => simp
  | succ k ih => simp [List.replicate_succ, decode_cons, ih]

theorem decode_encode (n v : ℕ) : decode (encode n v) = v % 256 ^ n := by
  induction n with
  | zero => simp [encode, Nat.mod_one]
  | succ n ih =>
    have hbyte : (UInt8.ofNat (v / 256 ^ n)).toNat = v / 256 ^ n % 256 := by simp
    rw [encode, decode_cons, ih, length_encode, hbyte, Nat.pow_succ, Nat.mod_mul]
    ring

theorem encode_congr {n v u : ℕ} (h : v % 256 ^ n = u % 256 ^ n) : encode n v = encode n u := by
  induction n with
  | zero => rfl
  | succ n ih =>
    have hmod : v % 256 ^ n = u % 256 ^ n := by
      have h' := congrArg (· % 256 ^ n) h
      simpa [Nat.pow_succ, Nat.mod_mul_right_mod] using h'
    have hdiv : v / 256 ^ n % 256 = u / 256 ^ n % 256 := by
      have h' := congrArg (· / 256 ^ n) h
      simpa [Nat.pow_succ, Nat.mod_mul_right_div_self] using h'
    have hbyte : UInt8.ofNat (v / 256 ^ n) = UInt8.ofNat (u / 256 ^ n) := by
      apply UInt8.toNat_inj.mp
      simpa using hdiv
    rw [encode, encode, ih hmod, hbyte]

theorem encode_decode (bs : List UInt8) : encode bs.length (decode bs) = bs := by
  induction bs with
  | nil => rfl
  | cons b bs ih =>
    have hlt := decode_lt bs
    have hpos : 0 < 256 ^ bs.length := Nat.pow_pos (by decide)
    have htail : encode bs.length (decode (b :: bs)) = bs := by
      have hlow : decode (b :: bs) % 256 ^ bs.length = decode bs % 256 ^ bs.length := by
        rw [decode_cons, Nat.mul_add_mod_self_right]
      rw [encode_congr hlow, ih]
    have hhead : decode (b :: bs) / 256 ^ bs.length = b.toNat := by
      rw [decode_cons, Nat.mul_comm, Nat.mul_add_div hpos, Nat.div_eq_of_lt hlt, Nat.add_zero]
    rw [List.length_cons, encode, hhead, htail, UInt8.ofNat_toNat]

theorem drop_encode (k n v : ℕ) : (encode (k + n) v).drop k = encode n v := by
  induction k with
  | zero => simp
  | succ k ih =>
    rw [show k + 1 + n = k + n + 1 by omega, encode, List.drop_succ_cons, ih]

end BigEndian
