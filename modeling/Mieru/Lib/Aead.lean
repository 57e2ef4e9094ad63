import Mieru.Lib.BigEndian

/-! # Authenticated encryption

A scheme under a fixed key, with the two laws that framing relies on, and
XChaCha20-Poly1305 without additional data as an instance. -/
namespace Aead

structure Scheme where
  sealBytes (nonce plaintext : List UInt8) : List UInt8
  openBytes (nonce ciphertext : List UInt8) : Option (List UInt8)
  overhead : ℕ
  length_seal (nonce plaintext : List UInt8) :
    (sealBytes nonce plaintext).length = plaintext.length + overhead
  open_seal (nonce plaintext : List UInt8) :
    openBytes nonce (sealBytes nonce plaintext) = some plaintext

attribute [simp] Scheme.length_seal Scheme.open_seal

/-! ## ChaCha20 -/

def leDecode (bs : List UInt8) : ℕ := BigEndian.decode bs.reverse
def leEncode (n v : ℕ) : List UInt8 := (BigEndian.encode n v).reverse

/-- The words are numbers below `2 ^ 32`. -/
structure State where
  (x₀ x₁ x₂ x₃ x₄ x₅ x₆ x₇ x₈ x₉ x₁₀ x₁₁ x₁₂ x₁₃ x₁₄ x₁₅ : ℕ)

def State.words (s : State) : List ℕ :=
  [s.x₀, s.x₁, s.x₂, s.x₃, s.x₄, s.x₅, s.x₆, s.x₇, s.x₈, s.x₉, s.x₁₀, s.x₁₁, s.x₁₂, s.x₁₃, s.x₁₄,
    s.x₁₅]

def wordAt (bs : List UInt8) (i : ℕ) : ℕ := leDecode ((bs.drop (4 * i)).take 4)

def plus (x y : ℕ) : ℕ := (x + y) % 2 ^ 32

def rotl (x n : ℕ) : ℕ := x <<< n % 2 ^ 32 ||| x >>> (32 - n)

def quarterRound (a b c d : ℕ) : ℕ × ℕ × ℕ × ℕ :=
  let a := plus a b
  let d := rotl (d ^^^ a) 16
  let c := plus c d
  let b := rotl (b ^^^ c) 12
  let a := plus a b
  let d := rotl (d ^^^ a) 8
  let c := plus c d
  let b := rotl (b ^^^ c) 7
  (a, b, c, d)

def doubleRound (s : State) : State :=
  let (x₀, x₄, x₈, x₁₂) := quarterRound s.x₀ s.x₄ s.x₈ s.x₁₂
  let (x₁, x₅, x₉, x₁₃) := quarterRound s.x₁ s.x₅ s.x₉ s.x₁₃
  let (x₂, x₆, x₁₀, x₁₄) := quarterRound s.x₂ s.x₆ s.x₁₀ s.x₁₄
  let (x₃, x₇, x₁₁, x₁₅) := quarterRound s.x₃ s.x₇ s.x₁₁ s.x₁₅
  let (x₀, x₅, x₁₀, x₁₅) := quarterRound x₀ x₅ x₁₀ x₁₅
  let (x₁, x₆, x₁₁, x₁₂) := quarterRound x₁ x₆ x₁₁ x₁₂
  let (x₂, x₇, x₈, x₁₃) := quarterRound x₂ x₇ x₈ x₁₃
  let (x₃, x₄, x₉, x₁₄) := quarterRound x₃ x₄ x₉ x₁₄
  ⟨x₀, x₁, x₂, x₃, x₄, x₅, x₆, x₇, x₈, x₉, x₁₀, x₁₁, x₁₂, x₁₃, x₁₄, x₁₅⟩

def rounds : ℕ → State → State
  | 0, s => s
  | n + 1, s => rounds n (doubleRound s)

def initialState (key : List UInt8) (w₀ w₁ w₂ w₃ : ℕ) : State :=
  ⟨0x61707865, 0x3320646e, 0x79622d32, 0x6b206574,
    wordAt key 0, wordAt key 1, wordAt key 2, wordAt key 3,
    wordAt key 4, wordAt key 5, wordAt key 6, wordAt key 7, w₀, w₁, w₂, w₃⟩

def serialize (words : List ℕ) : List UInt8 := words.flatMap (leEncode 4)

/-- The subkey for the first 16 bytes of an extended nonce. -/
def hchacha20 (key nonce : List UInt8) : List UInt8 :=
  let s := rounds 10
    (initialState key (wordAt nonce 0) (wordAt nonce 1) (wordAt nonce 2) (wordAt nonce 3))
  serialize (s.words.take 4 ++ s.words.drop 12)

def block (key nonce : List UInt8) (counter : ℕ) : List UInt8 :=
  let s := initialState key (counter % 2 ^ 32) (wordAt nonce 0) (wordAt nonce 1) (wordAt nonce 2)
  serialize (List.zipWith plus s.words (rounds 10 s).words)

/-- Block 0 is kept for the one-time key of the authenticator. -/
def keystream (key nonce : List UInt8) (n : ℕ) : List UInt8 :=
  (List.range ((n + 63) / 64)).flatMap fun i => block key nonce (i + 1)

/-! ## Poly1305 -/

def poly1305 (key msg : List UInt8) : List UInt8 :=
  let r := leDecode (key.take 16) &&& 0x0ffffffc0ffffffc0ffffffc0fffffff
  let s := leDecode (key.drop 16)
  let blocks := (List.range ((msg.length + 15) / 16)).map fun i => (msg.drop (16 * i)).take 16
  let acc := blocks.foldl (fun acc b => (acc + leDecode (b ++ [1])) * r % (2 ^ 130 - 5)) 0
  leEncode 16 (acc + s)

/-! ## The composed scheme -/

def derive (key nonce : List UInt8) : List UInt8 × List UInt8 :=
  (hchacha20 key (nonce.take 16), List.replicate 4 0 ++ nonce.drop 16)

def xorKeystream (key nonce bs : List UInt8) : List UInt8 :=
  List.zipWith (· ^^^ ·) bs (keystream key nonce bs.length)

def tag (key nonce ciphertext : List UInt8) : List UInt8 :=
  let zeros := List.replicate ((16 - ciphertext.length % 16) % 16) 0
  poly1305 ((block key nonce 0).take 32)
    (ciphertext ++ zeros ++ leEncode 8 0 ++ leEncode 8 ciphertext.length)

def tagSize : ℕ := 16

def sealWith (key nonce plaintext : List UInt8) : List UInt8 :=
  let (k, n) := derive key nonce
  let ciphertext := xorKeystream k n plaintext
  ciphertext ++ tag k n ciphertext

def openWith (key nonce sealed : List UInt8) : Option (List UInt8) :=
  let (k, n) := derive key nonce
  let ciphertext := sealed.take (sealed.length - tagSize)
  if tagSize ≤ sealed.length ∧ sealed.drop (sealed.length - tagSize) = tag k n ciphertext then
    some (xorKeystream k n ciphertext)
  else none

theorem length_serialize (words : List ℕ) : (serialize words).length = 4 * words.length := by
  induction words with
  | nil => rfl
  | cons w words ih =>
    simp only [serialize, leEncode, List.flatMap_cons, List.length_append, List.length_reverse,
      BigEndian.length_encode, List.length_cons] at ih ⊢
    omega

theorem length_block (key nonce : List UInt8) (counter : ℕ) :
    (block key nonce counter).length = 64 := by
  simp [block, length_serialize, State.words]

theorem length_keystream (key nonce : List UInt8) (n : ℕ) :
    (keystream key nonce n).length = (n + 63) / 64 * 64 := by
  simp [keystream, List.length_flatMap, length_block]

theorem length_xorKeystream (key nonce bs : List UInt8) :
    (xorKeystream key nonce bs).length = bs.length := by
  rw [xorKeystream, List.length_zipWith, length_keystream]
  omega

theorem xorKeystream_twice (key nonce bs : List UInt8) :
    xorKeystream key nonce (xorKeystream key nonce bs) = bs := by
  apply List.ext_getElem
  · rw [length_xorKeystream, length_xorKeystream]
  · intro i hi hi'
    simp only [xorKeystream, List.getElem_zipWith, List.length_zipWith, length_keystream]
    have hmin : min bs.length ((bs.length + 63) / 64 * 64) = bs.length := by omega
    simp only [hmin, UInt8.xor_assoc, UInt8.xor_self, UInt8.xor_zero]

theorem length_tag (key nonce ciphertext : List UInt8) :
    (tag key nonce ciphertext).length = tagSize := by
  simp [tag, poly1305, leEncode, tagSize]

theorem length_sealWith (key nonce plaintext : List UInt8) :
    (sealWith key nonce plaintext).length = plaintext.length + tagSize := by
  simp [sealWith, length_xorKeystream, length_tag]

theorem openWith_sealWith (key nonce plaintext : List UInt8) :
    openWith key nonce (sealWith key nonce plaintext) = some plaintext := by
  have hlen := length_sealWith key nonce plaintext
  have hcut : (sealWith key nonce plaintext).length - tagSize =
      (xorKeystream (derive key nonce).1 (derive key nonce).2 plaintext).length := by
    rw [hlen, length_xorKeystream, Nat.add_sub_cancel]
  simp only [openWith, hcut]
  simp only [sealWith, List.take_left, List.drop_left, xorKeystream_twice]
  rw [if_pos ⟨by rw [List.length_append, length_tag]; omega, trivial⟩]

/-- The first word of a key stream, under the key of the bytes from 0 to 31. -/
example : wordAt (block ((List.range 32).map UInt8.ofNat) [0, 0, 0, 9, 0, 0, 0, 0x4a, 0, 0, 0, 0] 1)
    0 = 0xe4e7f110 := by decide +kernel

def xchacha20Poly1305 (key : List UInt8) : Scheme where
  sealBytes := sealWith key
  openBytes := openWith key
  overhead := tagSize
  length_seal := length_sealWith key
  open_seal := openWith_sealWith key

end Aead
