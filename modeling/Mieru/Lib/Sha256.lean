import Mieru.Lib.BigEndian

/-! # SHA-256 on byte strings, and the keys that PBKDF2 derives with it -/
namespace Sha256

def roundConstants : List UInt32 := [
  0x428a2f98, 0x71374491, 0xb5c0fbcf, 0xe9b5dba5, 0x3956c25b, 0x59f111f1, 0x923f82a4, 0xab1c5ed5,
  0xd807aa98, 0x12835b01, 0x243185be, 0x550c7dc3, 0x72be5d74, 0x80deb1fe, 0x9bdc06a7, 0xc19bf174,
  0xe49b69c1, 0xefbe4786, 0x0fc19dc6, 0x240ca1cc, 0x2de92c6f, 0x4a7484aa, 0x5cb0a9dc, 0x76f988da,
  0x983e5152, 0xa831c66d, 0xb00327c8, 0xbf597fc7, 0xc6e00bf3, 0xd5a79147, 0x06ca6351, 0x14292967,
  0x27b70a85, 0x2e1b2138, 0x4d2c6dfc, 0x53380d13, 0x650a7354, 0x766a0abb, 0x81c2c92e, 0x92722c85,
  0xa2bfe8a1, 0xa81a664b, 0xc24b8b70, 0xc76c51a3, 0xd192e819, 0xd6990624, 0xf40e3585, 0x106aa070,
  0x19a4c116, 0x1e376c08, 0x2748774c, 0x34b0bcb5, 0x391c0cb3, 0x4ed8aa4a, 0x5b9cca4f, 0x682e6ff3,
  0x748f82ee, 0x78a5636f, 0x84c87814, 0x8cc70208, 0x90befffa, 0xa4506ceb, 0xbef9a3f7, 0xc67178f2]

structure Digest where
  a : UInt32
  b : UInt32
  c : UInt32
  d : UInt32
  e : UInt32
  f : UInt32
  g : UInt32
  h : UInt32

def Digest.initial : Digest where
  a := 0x6a09e667
  b := 0xbb67ae85
  c := 0x3c6ef372
  d := 0xa54ff53a
  e := 0x510e527f
  f := 0x9b05688c
  g := 0x1f83d9ab
  h := 0x5be0cd19

def rotr (x n : UInt32) : UInt32 := x >>> n ||| x <<< (32 - n)

def extend : ℕ → List UInt32 → List UInt32
  | 0, ws => ws
  | n + 1, ws =>
    let w₂ := ws.getD 1 0
    let w₁₅ := ws.getD 14 0
    let s₀ := rotr w₁₅ 7 ^^^ rotr w₁₅ 18 ^^^ w₁₅ >>> 3
    let s₁ := rotr w₂ 17 ^^^ rotr w₂ 19 ^^^ w₂ >>> 10
    extend n ((s₁ + ws.getD 6 0 + s₀ + ws.getD 15 0) :: ws)

def wordAt (bs : List UInt8) (i : ℕ) : UInt32 :=
  UInt32.ofNat (BigEndian.decode ((bs.drop (4 * i)).take 4))

def schedule (block : List UInt8) : List UInt32 :=
  (extend 48 ((List.range 16).map (wordAt block)).reverse).reverse

def round (s : Digest) (kw : UInt32 × UInt32) : Digest :=
  let ch := (s.e &&& s.f) ^^^ (~~~s.e &&& s.g)
  let maj := (s.a &&& s.b) ^^^ (s.a &&& s.c) ^^^ (s.b &&& s.c)
  let t₁ := s.h + (rotr s.e 6 ^^^ rotr s.e 11 ^^^ rotr s.e 25) + ch + kw.1 + kw.2
  let t₂ := (rotr s.a 2 ^^^ rotr s.a 13 ^^^ rotr s.a 22) + maj
  ⟨t₁ + t₂, s.a, s.b, s.c, s.d + t₁, s.e, s.f, s.g⟩

def compress (s : Digest) (block : List UInt8) : Digest :=
  let r := (roundConstants.zip (schedule block)).foldl round s
  ⟨s.a + r.a, s.b + r.b, s.c + r.c, s.d + r.d, s.e + r.e, s.f + r.f, s.g + r.g, s.h + r.h⟩

def pad (msg : List UInt8) : List UInt8 :=
  msg ++ [0x80] ++ List.replicate ((119 - msg.length % 64) % 64) 0 ++
    BigEndian.encode 8 (8 * msg.length)

def Digest.toBytes (s : Digest) : List UInt8 :=
  [s.a, s.b, s.c, s.d, s.e, s.f, s.g, s.h].flatMap fun w => BigEndian.encode 4 w.toNat

def sum256 (msg : List UInt8) : List UInt8 :=
  let padded := pad msg
  let blocks := (List.range (padded.length / 64)).map fun i => (padded.drop (64 * i)).take 64
  (blocks.foldl compress Digest.initial).toBytes

@[simp] theorem length_sum256 (msg : List UInt8) : (sum256 msg).length = 32 := by
  simp [sum256, Digest.toBytes]

/-- The first word of the digest of `abc`. -/
example : (sum256 [0x61, 0x62, 0x63]).take 4 = [0xba, 0x78, 0x16, 0xbf] := by decide +kernel

def hmac (key msg : List UInt8) : List UInt8 :=
  let key := if 64 < key.length then sum256 key else key
  let block := key ++ List.replicate (64 - key.length) 0
  sum256 (block.map (· ^^^ 0x5c) ++ sum256 (block.map (· ^^^ 0x36) ++ msg))

/-- The exclusive or of `u` and the next `n` codes, each of them the code of the one before. -/
def chain (password : List UInt8) : ℕ → List UInt8 → List UInt8
  | 0, u => u
  | n + 1, u => List.zipWith (· ^^^ ·) u (chain password n (hmac password u))

def pbkdf2 (password salt : List UInt8) (iter keyLen : ℕ) : List UInt8 :=
  ((List.range ((keyLen + 31) / 32)).flatMap fun i =>
    chain password (iter - 1) (hmac password (salt ++ BigEndian.encode 4 (i + 1)))).take keyLen

theorem length_chain (password : List UInt8) (n : ℕ) {u : List UInt8} (hu : u.length = 32) :
    (chain password n u).length = 32 := by
  induction n generalizing u with
  | zero => exact hu
  | succ n ih =>
    have hnext : (chain password n (hmac password u)).length = 32 := ih (length_sum256 _)
    rw [chain, List.length_zipWith, hu, hnext, Nat.min_self]

theorem length_pbkdf2 (password salt : List UInt8) (iter keyLen : ℕ) :
    (pbkdf2 password salt iter keyLen).length = keyLen := by
  have hblock (i : ℕ) : (chain password (iter - 1)
      (hmac password (salt ++ BigEndian.encode 4 (i + 1)))).length = 32 :=
    length_chain password _ (length_sum256 _)
  simp only [pbkdf2, List.length_take, List.length_flatMap, hblock, List.map_const',
    List.sum_replicate_nat, List.length_range]
  omega

/-- The derived key of `password` and `salt` after one round. -/
example : (pbkdf2 [0x70, 0x61, 0x73, 0x73, 0x77, 0x6f, 0x72, 0x64] [0x73, 0x61, 0x6c, 0x74]
    1 32).take 4 = [0x12, 0x0f, 0xb6, 0xcf] := by decide +kernel

end Sha256
