import Mieru.Cipher
import Mieru.Lib.BigEndian

/-! # Ciphers in step

In implicit nonce mode both ends count nonces. The nonce is a number of 24 bytes, the
highest first, that goes up by one with each message. -/
namespace Mieru.Cipher

open BigEndian Result

/-! ## Counting -/

def nonceNumber (nonce : Nonce) : ℕ := decode nonce.val

theorem decode_increaseBytes (bs : List UInt8) :
    decode (increaseBytes bs).reverse = (decode bs.reverse + 1) % 256 ^ bs.length := by
  induction bs with
  | nil => rfl
  | cons b bs ih =>
    have hlow : decode (b :: bs).reverse = decode bs.reverse * 256 + b.toNat := by
      rw [List.reverse_cons, decode_append]
      simp [decode_cons]
    have hrest := decode_lt bs.reverse
    rw [List.length_reverse] at hrest
    have hb := b.toNat_lt
    rw [hlow, List.length_cons, Nat.pow_succ]
    unfold increaseBytes
    split_ifs with hcarry
    · have hne : b.toNat ≠ 255 := by
        intro h
        apply hcarry
        apply UInt8.toNat_inj.mp
        rw [UInt8.toNat_add, h]
        rfl
      have hbyte : (b + 1).toNat = b.toNat + 1 := by
        rw [UInt8.toNat_add]
        change (b.toNat + 1) % 256 = b.toNat + 1
        omega
      have hroom : (decode bs.reverse + 1) * 256 ≤ 256 ^ bs.length * 256 :=
        Nat.mul_le_mul_right 256 hrest
      rw [List.reverse_cons, decode_append, Nat.mod_eq_of_lt (by omega)]
      simp only [decode_cons, decode_nil, List.length_cons, List.length_nil, hbyte]
      omega
    · have hmax : b.toNat = 255 := by
        have hzero := congrArg UInt8.toNat (not_not.mp hcarry)
        rw [UInt8.toNat_add] at hzero
        change (b.toNat + 1) % 256 = 0 at hzero
        omega
      have hsum : decode bs.reverse * 256 + b.toNat + 1 = (decode bs.reverse + 1) * 256 := by
        omega
      rw [List.reverse_cons, decode_append, ih, hsum, Nat.mul_mod_mul_right]
      simp [decode_cons]

theorem nonceNumber_increaseNonce (nonce : Nonce) :
    nonceNumber (increaseNonce nonce) = (nonceNumber nonce + 1) % 2 ^ 192 := by
  have h := decode_increaseBytes nonce.val.reverse
  rw [List.length_reverse, nonce.property, List.reverse_reverse] at h
  rw [nonceNumber, nonceNumber, increaseNonce, h]
  rfl

def nonceAt (first : Nonce) (i : ℕ) : Nonce := increaseNonce^[i] first

theorem nonceNumber_nonceAt (first : Nonce) (i : ℕ) :
    nonceNumber (nonceAt first i) = (nonceNumber first + i) % 2 ^ 192 := by
  induction i with
  | zero =>
    have hlt : nonceNumber first < 2 ^ 192 := by
      have h := decode_lt first.val
      rw [first.property] at h
      exact h
    exact (Nat.mod_eq_of_lt hlt).symm
  | succ i ih =>
    rw [nonceAt, Function.iterate_succ_apply', ← nonceAt, nonceNumber_increaseNonce, ih]
    omega

/-! ## Sealing and opening -/

namespace BlockCipher

variable (c : BlockCipher)

def nextNonce (fresh : Nonce) : Nonce :=
  match c.implicitNonce with
  | none => fresh
  | some last => increaseNonce last

def noncePart (fresh : Nonce) : List UInt8 :=
  match c.implicitNonce with
  | none => fresh.val
  | some _ => []

def advance (fresh : Nonce) : BlockCipher :=
  { c with implicitNonce := some (c.nextNonce fresh) }

/-- Both ends have the same key and have seen the same messages. -/
structure InStep (c d : BlockCipher) : Prop where
  sender : c.enableImplicitNonce = true
  receiver : d.enableImplicitNonce = true
  aead_eq : d.aead = c.aead
  nonce_eq : d.implicitNonce = c.implicitNonce

variable {c} {d : BlockCipher}

theorem encrypt_implicit (hc : c.enableImplicitNonce = true) {room : ℕ} {plaintext : List UInt8}
    (fresh : Nonce)
    (hroom : (c.noncePart fresh).length + plaintext.length + defaultOverhead ≤ room) :
    c.encrypt room fresh plaintext =
      .ok (c.advance fresh, ⟨c.noncePart fresh ++
        c.aead.sealBytes (c.nextNonce fresh).val plaintext, c.nextNonce fresh⟩) := by
  cases hn : c.implicitNonce with
  | none =>
    have hfit : plaintext.length + defaultOverhead + defaultNonceSize ≤ room := by
      simp only [noncePart, hn, fresh.property] at hroom
      omega
    simp only [encrypt, hc, hn, Option.isNone_none, Bool.or_true, ↓reduceIte, c.overhead_eq, hfit,
      ensure_true, ok_bind, noncePart, nextNonce, advance]
    rfl
  | some last =>
    have hfit : plaintext.length + defaultOverhead ≤ room := by
      simp only [noncePart, hn, List.length_nil] at hroom
      omega
    simp only [encrypt, hc, hn, Option.isNone_some, Bool.not_true, Bool.or_false,
      Bool.false_eq_true, ↓reduceIte, c.overhead_eq, hfit, ensure_true, ok_bind, noncePart,
      nextNonce, advance, List.nil_append]
    rfl

theorem InStep.decrypt (h : InStep c d) (fresh : Nonce) (plaintext : List UInt8) :
    d.decrypt (c.noncePart fresh ++ c.aead.sealBytes (c.nextNonce fresh).val plaintext) =
      (d.advance fresh, .ok ⟨plaintext, c.nextNonce fresh⟩) := by
  have hn := h.nonce_eq
  cases hc : c.implicitNonce with
  | none =>
    rw [hc] at hn
    simp only [BlockCipher.decrypt, h.receiver, ↓reduceIte, hn, noncePart, nextNonce, hc,
      splitNonce_append, openWithNonce_seal h.aead_eq, advance]
  | some last =>
    rw [hc] at hn
    simp only [BlockCipher.decrypt, h.receiver, ↓reduceIte, hn, noncePart, nextNonce, hc,
      List.nil_append, openWithNonce_seal h.aead_eq, advance]

theorem InStep.advance (h : InStep c d) (fresh : Nonce) :
    InStep (c.advance fresh) (d.advance fresh) := by
  refine ⟨h.sender, h.receiver, h.aead_eq, ?_⟩
  simp only [BlockCipher.advance, nextNonce, h.nonce_eq]

end BlockCipher

end Mieru.Cipher
