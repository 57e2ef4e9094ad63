import Mieru.Cipher
import Mieru.Lib.Clock
import Mieru.Lib.Sha256

/-! # Keys that change with the time

A key is derived from a password and a salt, and the salt from the time in steps of two
minutes. The client takes the step that is nearest to its clock, and the server tries the
steps before and after its own as well. -/
namespace Mieru.Cipher

open Clock Result

def keyIter : ℕ := 64
def defaultKeyLen : ℕ := 32
def keyRefreshInterval : Duration := 120000000000
def cacheValidInterval : Duration := keyRefreshInterval / 4

/-- Key derivation is third-party code: it gives as many bytes as it is asked for. -/
structure Pbkdf2 where
  key (password salt : List UInt8) (iter keyLen : ℕ) : List UInt8
  length_key (password salt : List UInt8) (iter keyLen : ℕ) :
    (key password salt iter keyLen).length = keyLen

def pbkdf2Sha256 : Pbkdf2 := ⟨Sha256.pbkdf2, Sha256.length_pbkdf2⟩

def saltAt (t : Time) : List UInt8 :=
  Sha256.sum256 (BigEndian.encode 8 (unix t).toUInt64.toNat)

def saltFromTime (t : Time) : List (List UInt8) :=
  let rounded := round t keyRefreshInterval
  [add rounded (-keyRefreshInterval), rounded, add rounded keyRefreshInterval].map saltAt

def cipherKeyEpoch (t : Time) : Int64 := unix (round t keyRefreshInterval)

def newXChaCha20Poly1305BlockCipher (key : List UInt8) : Except String StatelessCipher := do
  let keyLen := key.length
  ensure (keyLen = 32) s!"XChaCha20-Poly1305 key length is {keyLen} bytes, want 32 bytes"
  return ⟨{
    aead := Aead.xchacha20Poly1305 key
    overhead_eq := rfl
    userName := ""
    enableImplicitNonce := false
    implicitNonce := none }, rfl⟩

section Keys

variable (kdf : Pbkdf2) (password : List UInt8)

def newKey (salt : List UInt8) (keyLen : ℕ) : Except String (List UInt8) := do
  ensure (password ≠ []) "password is empty"
  return kdf.key password salt keyIter keyLen

def newBlockCipher (salt : List UInt8) : Except String StatelessCipher := do
  let cipherKey ← (newKey kdf password salt defaultKeyLen).mapError
    fun err => s!"NewKey() failed: {err}"
  (newXChaCha20Poly1305BlockCipher cipherKey).mapError
    fun err => s!"newXChaCha20Poly1305BlockCipher() failed: {err}"

def newBlockCipherList (now : Time) : Except String (List StatelessCipher) :=
  (saltFromTime now).mapM (newBlockCipher kdf password)

structure CachedCiphers where
  cipherList : List StatelessCipher
  createTime : Time
  epoch : Int64
  made : newBlockCipherList kdf password createTime = .ok cipherList
  epoch_eq : epoch = cipherKeyEpoch createTime

def createCiphers (now : Time) : Except String (CachedCiphers kdf password) :=
  match h : newBlockCipherList kdf password now with
  | .error err => .error s!"newBlockCipherList() failed: {err}"
  | .ok blockCiphers => .ok ⟨blockCiphers, now, cipherKeyEpoch now, h, rfl⟩

variable {kdf password}

/-- `cached` is the entry of the process-wide cache. -/
def getCachedCiphers (cached : Option (CachedCiphers kdf password)) (now : Time)
    (jitter : Duration) : Except String (CachedCiphers kdf password) :=
  match cached with
  | none => createCiphers kdf password now
  | some entry =>
    if entry.epoch ≠ cipherKeyEpoch now ∨
        add entry.createTime (cacheValidInterval - jitter) < now then
      createCiphers kdf password now
    else .ok entry

def blockCipherFromPassword (cached : Option (CachedCiphers kdf password)) (now : Time)
    (jitter : Duration) : Except String StatelessCipher := do
  let entry ← getCachedCiphers cached now jitter
  match entry.cipherList[1]? with
  | none => .error "index out of range"
  | some block => return block

def decryptStateless (block : StatelessCipher) (ciphertext : List UInt8) :
    Except String (List UInt8) :=
  (block.val.decrypt ciphertext).2.map Opened.bytes

def selectDecryptStateless (ciphertext : List UInt8) (blocks : List StatelessCipher) :
    Option (StatelessCipher × List UInt8) :=
  blocks.findSome? fun block =>
    match decryptStateless block ciphertext with
    | .error _ => none
    | .ok decrypted => some (block, decrypted)

/-- `own` is what the decryptor has kept from its last call. -/
def tryDecryptAt (own cached : Option (CachedCiphers kdf password)) (ciphertext : List UInt8)
    (now : Time) (jitter : Duration) : Option (StatelessCipher × List UInt8) :=
  let entry :=
    match own with
    | none => getCachedCiphers cached now jitter
    | some entry =>
      if entry.epoch ≠ cipherKeyEpoch now then getCachedCiphers cached now jitter else .ok entry
  match entry with
  | .error _ => none
  | .ok entry => selectDecryptStateless ciphertext entry.cipherList

end Keys

/-! ## Three keys at any time -/

theorem toInt_keyRefreshInterval : keyRefreshInterval.toInt = 120000000000 := rfl

theorem toInt_neg_keyRefreshInterval : (-keyRefreshInterval).toInt = -120000000000 := rfl

theorem round_keyRefreshInterval (t : ℤ) :
    ∃ k : ℤ, round t keyRefreshInterval = 120000000000 * k ∧
      120000000000 * k - 60000000000 ≤ t ∧ t < 120000000000 * k + 60000000000 := by
  have hpos : ¬keyRefreshInterval.toInt ≤ 0 := by decide
  have hround : round t keyRefreshInterval =
      if (t + 62135596800000000000) % 120000000000 + (t + 62135596800000000000) % 120000000000 <
          120000000000 then
        t - (t + 62135596800000000000) % 120000000000
      else t + (120000000000 - (t + 62135596800000000000) % 120000000000) := by
    rw [Clock.round, if_neg hpos]
    rfl
  rw [hround]
  split_ifs with hhalf
  -- year 1 begins with a step, and there are 517796640 steps from there to 1970
  · refine ⟨(t + 62135596800000000000) / 120000000000 - 517796640, ?_, by omega, by omega⟩
    change @Eq ℤ _ _
    omega
  · refine ⟨(t + 62135596800000000000) / 120000000000 - 517796639, ?_, by omega, by omega⟩
    change @Eq ℤ _ _
    omega

/-- The salt of the client is one of the server's: the underlay was made at most a minute
before, and the clocks are at most a minute apart. -/
theorem saltAt_mem_saltFromTime {t₀ t s : ℤ} (hlife : t₀ ≤ t ∧ t ≤ t₀ + 60000000000)
    (hskew : t - 60000000000 ≤ s ∧ s ≤ t + 60000000000) :
    saltAt (round t₀ keyRefreshInterval) ∈ saltFromTime s := by
  obtain ⟨k₀, hround₀, hlow₀, hhigh₀⟩ := round_keyRefreshInterval t₀
  obtain ⟨k, hround, hlow, hhigh⟩ := round_keyRefreshInterval s
  have hnear : k₀ = k - 1 ∨ k₀ = k ∨ k₀ = k + 1 := by omega
  simp only [saltFromTime, List.map_cons, List.map_nil, hround₀, hround, add,
    toInt_keyRefreshInterval, toInt_neg_keyRefreshInterval]
  rcases hnear with rfl | rfl | rfl
  · exact List.mem_cons.mpr (.inl (congrArg saltAt (by ring)))
  · exact List.mem_cons.mpr (.inr (List.mem_cons.mpr (.inl rfl)))
  · exact List.mem_cons.mpr (.inr (List.mem_cons.mpr (.inr
      (List.mem_singleton.mpr (congrArg saltAt (by ring))))))

theorem saltFromTime_congr {t t' : Time} (h : cipherKeyEpoch t = cipherKeyEpoch t') :
    saltFromTime t = saltFromTime t' := by
  obtain ⟨k, hround, -⟩ := round_keyRefreshInterval t
  obtain ⟨k', hround', -⟩ := round_keyRefreshInterval t'
  have hshift : ∀ j c : ℤ, unix (120000000000 * j + 120000000000 * c) =
      unix (120000000000 * j) + Int64.ofInt (120 * c) := by
    intro j c
    have hsum : (120000000000 * j + 120000000000 * c) / 1000000000 =
        120000000000 * j / 1000000000 + 120 * c := by omega
    rw [unix, hsum, Int64.ofInt_add]
    rfl
  rw [cipherKeyEpoch, cipherKeyEpoch, hround, hround'] at h
  have hbefore : unix (120000000000 * k + -120000000000) =
      unix (120000000000 * k' + -120000000000) := by
    have hk := hshift k (-1)
    have hk' := hshift k' (-1)
    rw [h] at hk
    exact hk.trans hk'.symm
  have hafter : unix (120000000000 * k + 120000000000) =
      unix (120000000000 * k' + 120000000000) := by
    have hk := hshift k 1
    have hk' := hshift k' 1
    rw [h] at hk
    exact hk.trans hk'.symm
  simp only [saltFromTime, List.map_cons, List.map_nil, hround, hround', add, saltAt,
    toInt_keyRefreshInterval, toInt_neg_keyRefreshInterval, h, hbefore, hafter]

section Keys

variable {kdf : Pbkdf2} {password : List UInt8}

def saltCipher (kdf : Pbkdf2) (password salt : List UInt8) : StatelessCipher :=
  ⟨{
    aead := Aead.xchacha20Poly1305 (kdf.key password salt keyIter defaultKeyLen)
    overhead_eq := rfl
    userName := ""
    enableImplicitNonce := false
    implicitNonce := none }, rfl⟩

theorem newBlockCipher_eq (hne : password ≠ []) (salt : List UInt8) :
    newBlockCipher kdf password salt = .ok (saltCipher kdf password salt) := by
  have hlen : (kdf.key password salt keyIter defaultKeyLen).length = 32 := kdf.length_key _ _ _ _
  simp only [newBlockCipher, newKey, ensure_true hne, ok_bind]
  change (newXChaCha20Poly1305BlockCipher (kdf.key password salt keyIter defaultKeyLen)).mapError
    _ = _
  rw [newXChaCha20Poly1305BlockCipher, ensure_true hlen]
  rfl

theorem newBlockCipherList_eq (hne : password ≠ []) (now : Time) :
    newBlockCipherList kdf password now =
      .ok ((saltFromTime now).map (saltCipher kdf password)) := by
  simp only [newBlockCipherList, saltFromTime, List.map_cons, List.map_nil, List.mapM_cons,
    List.mapM_nil, newBlockCipher_eq hne, ok_bind]
  rfl

theorem CachedCiphers.cipherList_eq (hne : password ≠ []) (entry : CachedCiphers kdf password)
    {now : Time} (h : entry.epoch = cipherKeyEpoch now) :
    entry.cipherList = (saltFromTime now).map (saltCipher kdf password) := by
  have hmade := entry.made
  rw [newBlockCipherList_eq hne] at hmade
  rw [saltFromTime_congr (h.symm.trans entry.epoch_eq)]
  exact (Except.ok.inj hmade).symm

theorem createCiphers_ok (hne : password ≠ []) (now : Time) :
    ∃ entry, createCiphers kdf password now = .ok entry ∧ entry.epoch = cipherKeyEpoch now := by
  unfold createCiphers
  split
  · rename_i err herr
    rw [newBlockCipherList_eq hne] at herr
    cases herr
  · exact ⟨_, rfl, rfl⟩

theorem getCachedCiphers_ok (hne : password ≠ []) (cached : Option (CachedCiphers kdf password))
    (now : Time) (jitter : Duration) :
    ∃ entry, getCachedCiphers cached now jitter = .ok entry ∧
      entry.epoch = cipherKeyEpoch now := by
  cases cached with
  | none => exact createCiphers_ok hne now
  | some entry =>
    simp only [getCachedCiphers]
    split_ifs with hstale
    · exact createCiphers_ok hne now
    · exact ⟨entry, rfl, not_not.mp (not_or.mp hstale).1⟩

theorem blockCipherFromPassword_eq (hne : password ≠ [])
    (cached : Option (CachedCiphers kdf password)) (now : Time) (jitter : Duration) :
    blockCipherFromPassword cached now jitter =
      .ok (saltCipher kdf password (saltAt (round now keyRefreshInterval))) := by
  obtain ⟨entry, hentry, hepoch⟩ := getCachedCiphers_ok hne cached now jitter
  rw [blockCipherFromPassword, hentry, ok_bind, entry.cipherList_eq hne hepoch]
  rfl

/-- The caches do not show. -/
theorem tryDecryptAt_eq (hne : password ≠ []) (own cached : Option (CachedCiphers kdf password))
    (ciphertext : List UInt8) (now : Time) (jitter : Duration) :
    tryDecryptAt own cached ciphertext now jitter =
      selectDecryptStateless ciphertext ((saltFromTime now).map (saltCipher kdf password)) := by
  obtain ⟨entry, hentry, hepoch⟩ := getCachedCiphers_ok hne cached now jitter
  have hfetched : entry.cipherList = _ := entry.cipherList_eq hne hepoch
  unfold tryDecryptAt
  cases own with
  | none => simp only [hentry, hfetched]
  | some kept =>
    simp only
    split_ifs with hstale
    · simp only [hentry, hfetched]
    · simp only [kept.cipherList_eq hne (not_not.mp hstale)]

end Keys

end Mieru.Cipher
