import Mieru.Lib.Aead
import Mieru.Lib.Result

/-! # Block ciphers

An AEAD under one key with two ways to handle nonces. A stateless cipher draws a
fresh nonce for each call and sends it along. In implicit nonce mode only the first
call does, and every later call uses the successor of the nonce before. -/
namespace Mieru.Cipher

open Result

def defaultNonceSize : ℕ := 24
def defaultOverhead : ℕ := 16

abbrev Nonce := { n : List UInt8 // n.length = defaultNonceSize }

def zeroNonce : Nonce := ⟨List.replicate defaultNonceSize 0, List.length_replicate⟩

/-- Add one to a number given by its bytes, lowest first, until no byte overflows. -/
def increaseBytes : List UInt8 → List UInt8
  | [] => []
  | b :: bs => if b + 1 ≠ 0 then (b + 1) :: bs else 0 :: increaseBytes bs

theorem length_increaseBytes (bs : List UInt8) : (increaseBytes bs).length = bs.length := by
  induction bs with
  | nil => rfl
  | cons b bs ih =>
    unfold increaseBytes
    split_ifs <;> simp [ih]

def increaseNonce (nonce : Nonce) : Nonce :=
  ⟨(increaseBytes nonce.val.reverse).reverse, by
    rw [List.length_reverse, length_increaseBytes, List.length_reverse, nonce.property]⟩

/-- `implicitNonce` is the one last used. -/
structure BlockCipher where
  aead : Aead.Scheme
  overhead_eq : aead.overhead = defaultOverhead
  userName : String
  enableImplicitNonce : Bool
  implicitNonce : Option Nonce

abbrev StatelessCipher := { c : BlockCipher // c.enableImplicitNonce = false }

/-- What `Encrypt` appends, and the nonce it gave to `Seal`. -/
structure Sealed where
  bytes : List UInt8
  nonce : Nonce

structure Opened where
  bytes : List UInt8
  nonce : Nonce

namespace BlockCipher

variable (c : BlockCipher)

/-- `room` is the free capacity of the destination and `fresh` the nonce that is drawn
when one is needed. -/
def encrypt (room : ℕ) (fresh : Nonce) (plaintext : List UInt8) :
    Except String (BlockCipher × Sealed) := do
  let needSendNonce := !c.enableImplicitNonce || c.implicitNonce.isNone
  let resultLen := plaintext.length + c.aead.overhead
  let resultLen := if needSendNonce then resultLen + defaultNonceSize else resultLen
  ensure (resultLen ≤ room) "destination capacity is too small"
  if c.enableImplicitNonce then
    match c.implicitNonce with
    | none =>
      return ({ c with implicitNonce := some fresh },
        ⟨fresh.val ++ c.aead.sealBytes fresh.val plaintext, fresh⟩)
    | some last =>
      let nonce := increaseNonce last
      return ({ c with implicitNonce := some nonce },
        ⟨c.aead.sealBytes nonce.val plaintext, nonce⟩)
  else return (c, ⟨fresh.val ++ c.aead.sealBytes fresh.val plaintext, fresh⟩)

def encryptWithNonce (room : ℕ) (nonce plaintext : List UInt8) : Except String (List UInt8) := do
  ensure (c.enableImplicitNonce = false)
    "EncryptWithNonce() is not supported when implicit nonce is enabled"
  let got := nonce.length
  ensure (got = defaultNonceSize) s!"want nonce size {defaultNonceSize}, got {got}"
  ensure (plaintext.length + c.aead.overhead ≤ room) "destination capacity is too small"
  return c.aead.sealBytes nonce plaintext

def openWithNonce (nonce : Nonce) (ciphertext : List UInt8) : Except String Opened :=
  match c.aead.openBytes nonce.val ciphertext with
  | none => .error "cipher.AEAD.Open() failed: chacha20poly1305: message authentication failed"
  | some plaintext => .ok ⟨plaintext, nonce⟩

def splitNonce (ciphertext : List UInt8) : Except String (Nonce × List UInt8) :=
  if h : defaultNonceSize ≤ ciphertext.length then
    .ok (⟨ciphertext.take defaultNonceSize, by rw [List.length_take, Nat.min_eq_left h]⟩,
      ciphertext.drop defaultNonceSize)
  else .error "ciphertext is smaller than nonce size"

def decrypt (ciphertext : List UInt8) : BlockCipher × Except String Opened :=
  if c.enableImplicitNonce then
    match c.implicitNonce with
    | none =>
      match splitNonce ciphertext with
      | .error err => (c, .error err)
      | .ok (nonce, rest) =>
        ({ c with implicitNonce := some nonce }, c.openWithNonce nonce rest)
    | some last =>
      let nonce := increaseNonce last
      ({ c with implicitNonce := some nonce }, c.openWithNonce nonce ciphertext)
  else
    match splitNonce ciphertext with
    | .error err => (c, .error err)
    | .ok (nonce, rest) => (c, c.openWithNonce nonce rest)

def decryptWithNonce (ciphertext nonce : List UInt8) : Except String (List UInt8) := do
  ensure (c.enableImplicitNonce = false)
    "EncryptWithNonce() is not supported when implicit nonce is enabled"
  let got := nonce.length
  if h : got = defaultNonceSize then
    let opened ← c.openWithNonce ⟨nonce, h⟩ ciphertext
    return opened.bytes
  else .error s!"want nonce size {defaultNonceSize}, got {got}"

def setImplicitNonceMode (enable : Bool) : BlockCipher :=
  { c with
    enableImplicitNonce := enable
    implicitNonce := if enable then c.implicitNonce else none }

variable {c}

@[simp] theorem length_sealed (nonce plaintext : List UInt8) :
    (c.aead.sealBytes nonce plaintext).length = plaintext.length + defaultOverhead := by
  rw [Aead.Scheme.length_seal, c.overhead_eq]

theorem openWithNonce_seal {d : BlockCipher} (h : d.aead = c.aead) (nonce : Nonce)
    (plaintext : List UInt8) :
    d.openWithNonce nonce (c.aead.sealBytes nonce.val plaintext) = .ok ⟨plaintext, nonce⟩ := by
  simp [openWithNonce, h]

theorem take_nonce (nonce : Nonce) (rest : List UInt8) :
    (nonce.val ++ rest).take defaultNonceSize = nonce.val :=
  List.take_left' nonce.property

theorem splitNonce_append (nonce : Nonce) (rest : List UInt8) :
    splitNonce (nonce.val ++ rest) = .ok (nonce, rest) := by
  have hlen := nonce.property
  have hle : defaultNonceSize ≤ (nonce.val ++ rest).length := by
    rw [List.length_append]
    omega
  rw [splitNonce, dif_pos hle]
  simp only [← hlen, List.take_left, List.drop_left]

theorem encrypt_stateless (hc : c.enableImplicitNonce = false) {room : ℕ} {plaintext : List UInt8}
    (fresh : Nonce) (hroom : plaintext.length + defaultOverhead + defaultNonceSize ≤ room) :
    c.encrypt room fresh plaintext =
      .ok (c, ⟨fresh.val ++ c.aead.sealBytes fresh.val plaintext, fresh⟩) := by
  simp only [encrypt, hc, Bool.not_false, Bool.true_or, ↓reduceIte, c.overhead_eq, hroom,
    ensure_true, ok_bind, Bool.false_eq_true]
  rfl

theorem decrypt_stateless {d : BlockCipher} (hd : d.enableImplicitNonce = false)
    (h : d.aead = c.aead) (nonce : Nonce) (plaintext : List UInt8) :
    d.decrypt (nonce.val ++ c.aead.sealBytes nonce.val plaintext) =
      (d, .ok ⟨plaintext, nonce⟩) := by
  simp only [decrypt, hd, Bool.false_eq_true, ↓reduceIte, splitNonce_append, openWithNonce_seal h]

theorem encryptWithNonce_stateless (hc : c.enableImplicitNonce = false) {room : ℕ}
    {plaintext : List UInt8} (nonce : Nonce) (hroom : plaintext.length + defaultOverhead ≤ room) :
    c.encryptWithNonce room nonce.val plaintext = .ok (c.aead.sealBytes nonce.val plaintext) := by
  simp only [encryptWithNonce, hc, nonce.property, c.overhead_eq, hroom, ensure_true, ok_bind]
  rfl

theorem decryptWithNonce_stateless {d : BlockCipher} (hd : d.enableImplicitNonce = false)
    (h : d.aead = c.aead) (nonce : Nonce) (plaintext : List UInt8) :
    d.decryptWithNonce (c.aead.sealBytes nonce.val plaintext) nonce.val = .ok plaintext := by
  simp only [decryptWithNonce, hd, ensure_true, ok_bind, nonce.property, ↓reduceDIte,
    openWithNonce_seal h]
  rfl

end BlockCipher

end Mieru.Cipher
