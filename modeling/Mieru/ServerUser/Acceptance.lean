import Mieru.Cipher.KeyGen
import Mieru.Protocol.MetadataCodec
import Mieru.ServerUser.Registry

/-! # Honest clients are let in

What a client sends in its first minute, and what the server makes of it when the clocks
are at most a minute apart. -/
namespace Mieru.ServerUser

open Cipher Clock Mathext Protocol Result

/-! ## Discovery with the keys of the users -/

def RegistryUser.password (user : RegistryUser) : List UInt8 := user.credential.toList

theorem RegistryUser.password_ne (user : RegistryUser) : user.password ≠ [] := by
  have hlen : user.password.length = 32 := by simp [RegistryUser.password]
  intro hnil
  rw [hnil] at hlen
  cases hlen

/-- What the decryptors of the users find when they are called. -/
structure DecryptorEnv (kdf : Pbkdf2) where
  own (user : RegistryUser) : Option (CachedCiphers kdf user.password)
  cached (user : RegistryUser) : Option (CachedCiphers kdf user.password)
  now : RegistryUser → Time
  jitter : RegistryUser → Duration

def decryptors {kdf : Pbkdf2} (env : DecryptorEnv kdf) : Decryptors := fun user ciphertext =>
  tryDecryptAt (env.own user) (env.cached user) ciphertext (env.now user) (env.jitter user)

/-- `published` is the generation of users at the time of the call. -/
def discover (tryDecrypt : Decryptors) (published : Option State) (hintMandatory : Bool)
    (encryptedMetadata : List UInt8) (source : Source) : Except String Discovery :=
  match BlockCipher.splitNonce encryptedMetadata with
  | .error _ => .error "encrypted metadata is shorter than nonce"
  | .ok (nonce, _) =>
    match published with
    | none => .error "no server user found"
    | some state =>
      if state.users.isEmpty then .error "no server user found"
      else
        match (tryState tryDecrypt state encryptedMetadata nonce source hintMandatory).found with
        | none => .error "cipher.TryDecrypt() failed for all users"
        | some (found, _) =>
          .ok { found with
            block := ⟨{ found.block.val with userName := found.userName }, found.block.property⟩ }

/-- Who is found is registered and has opened the metadata, and the cipher bears the name. -/
theorem discover_eq_ok {tryDecrypt : Decryptors} {published : Option State} {hintMandatory : Bool}
    {encryptedMetadata : List UInt8} {source : Source} {found : Discovery}
    (h : discover tryDecrypt published hintMandatory encryptedMetadata source = .ok found) :
    ∃ state, published = some state ∧ ∃ user ∈ state.users, ∃ opened,
      tryDecrypt user encryptedMetadata = some opened ∧ found.policy = user.policy ∧
      found.block.val = { opened.1.val with userName := user.name } := by
  unfold discover at h
  split at h
  · cases h
  · rename_i nonce rest _
    cases published with
    | none => cases h
    | some state =>
      simp only at h
      split_ifs at h
      split at h
      · cases h
      · rename_i discovery origin hstate
        cases h
        have hfound : (tryState tryDecrypt state encryptedMetadata nonce source
            hintMandatory).found.map Prod.fst = _ := tryState_found source
        rw [hstate] at hfound
        obtain ⟨user, hmem, htry⟩ := List.exists_of_findSome?_eq_some hfound.symm
        obtain ⟨opened, hopened, rfl⟩ := Option.map_eq_some_iff.mp htry
        exact ⟨state, rfl, user, (mem_allCandidates.mp hmem).1, opened, hopened, rfl, rfl⟩

theorem discover_unused {kdf : Pbkdf2} {env : DecryptorEnv kdf} {published : Option State}
    {hintMandatory : Bool} {encryptedMetadata : List UInt8} {source : Source} {found : Discovery}
    (h : discover (decryptors env) published hintMandatory encryptedMetadata source = .ok found) :
    found.block.val.implicitNonce = none := by
  obtain ⟨_, _, user, _, opened, hopened, _, hblock⟩ := discover_eq_ok h
  rw [decryptors, tryDecryptAt_eq user.password_ne] at hopened
  obtain ⟨block, hmem, hblockOpens⟩ := List.exists_of_findSome?_eq_some hopened
  obtain ⟨salt, -, rfl⟩ := List.mem_map.mp hmem
  rw [hblock]
  split at hblockOpens
  · cases hblockOpens
  · cases hblockOpens
    rfl

theorem discover_of_found {tryDecrypt : Decryptors} {state : State} {hintMandatory : Bool}
    {nonce : Nonce} {rest : List UInt8} {source : Source} {found : Discovery}
    (h : (allCandidates state nonce (state.lookup source).val hintMandatory).findSome?
      (tryUser tryDecrypt (nonce.val ++ rest)) = some found) :
    discover tryDecrypt (some state) hintMandatory (nonce.val ++ rest) source =
      .ok { found with
        block := ⟨{ found.block.val with userName := found.userName }, found.block.property⟩ } := by
  obtain ⟨user, hmem, -⟩ := List.exists_of_findSome?_eq_some h
  have husers : state.users.isEmpty = false := by
    rw [List.isEmpty_eq_false_iff]
    exact List.ne_nil_of_mem (mem_allCandidates.mp hmem).1
  rw [← tryState_found source] at h
  obtain ⟨⟨found', origin⟩, hstate, rfl⟩ := Option.map_eq_some_iff.mp h
  simp only [discover, BlockCipher.splitNonce_append, husers, Bool.false_eq_true, ↓reduceIte,
    hstate]

/-! ## A request -/

def seconds (t : ℕ) : ℕ := t / 1000000000

def minute : ℕ := 60000000000

/-- A client of a registered user sends a request to open a session. The underlay is made at
`created` and the request is sealed at `sent`; the server tries the keys of the user at
`tried` and reads the metadata at `read`. -/
structure OpenRequest (kdf : Pbkdf2) (state : State) where
  user : RegistryUser
  registered : user ∈ state.users
  noncePattern : Option NoncePattern
  validated : TrafficPattern.validateNoncePattern noncePattern = .ok ()
  patternApplied : Bool
  nonceDraws : NonceDraws
  cached : Option (CachedCiphers kdf user.password)
  jitter : Duration
  ss : SessionStruct
  opens : ss.protocol = .openSessionRequest
  payload_le : ss.payloadLen.toNat ≤ maxSessionOpenPayload
  /-- The rest of the buffer that the metadata is sealed into. -/
  rest : ℕ
  env : DecryptorEnv kdf
  created : ℕ
  sent : ℕ
  tried : ℕ
  read : ℕ
  tried_eq : env.now user = tried
  lifetime : created ≤ sent ∧ sent ≤ created + minute
  skew_tried : sent ≤ tried + minute ∧ tried ≤ sent + minute
  skew_read : sent ≤ read + minute ∧ read ≤ sent + minute

namespace OpenRequest

variable {kdf : Pbkdf2} {state : State} (r : OpenRequest kdf state)

def cipher : Except String StatelessCipher :=
  blockCipherFromPassword r.cached (r.created : ℤ) r.jitter

def nonce : Except Fault Nonce := do
  let (_, nonce) ← newNonceTo r.noncePattern false r.patternApplied r.nonceDraws
  addUserHintToNonce r.user.name nonce

def metadata : List UInt8 := r.ss.marshal (seconds r.sent)

def encryptedMeta : Except Fault (List UInt8) := do
  let block ← lift r.cipher
  let nonce ← r.nonce
  let (_, sealed) ← lift (block.val.encrypt
    (metadataLength + defaultNonceSize + defaultOverhead + r.rest) nonce r.metadata)
  return sealed.bytes

def Unambiguous (bytes : List UInt8) : Prop :=
  ∀ other ∈ state.users, (decryptors r.env other bytes).isSome → other = r.user

def KeyBound (bytes : List UInt8) : Prop :=
  ∀ block blocks block', r.cipher = .ok block →
    newBlockCipherList kdf r.user.password (r.tried : ℤ) = .ok blocks → block' ∈ blocks →
    (decryptStateless block' bytes).isOk = true → block' = block

/-- The server knows the key, the hint and the time of the request, and discovery gives the
user, with any cache and from any source. -/
structure Accepted : Prop where
  key_known : ∃ block blocks, r.cipher = .ok block ∧
    newBlockCipherList kdf r.user.password (r.tried : ℤ) = .ok blocks ∧ block ∈ blocks
  hint_passes : ∃ nonce, r.nonce = .ok nonce ∧
    checkUserFromHint (userBytes r.user.name) nonce.val = .ok true
  time_passes : SessionStruct.unmarshal r.metadata (seconds r.read) =
    .ok (r.ss.stamp (seconds r.sent))
  discovered : ∃ bytes, r.encryptedMeta = .ok bytes ∧ ∀ hintMandatory source, ∃ found,
    discover (decryptors r.env) (some state) hintMandatory bytes source = .ok found ∧
    (r.Unambiguous bytes →
      found.userID = r.user.id ∧ found.userName = r.user.name ∧ found.policy = r.user.policy ∧
      (r.KeyBound bytes → found.decryptedMetadata = r.metadata))

/-- Both clocks are in one minute, and its number is the first or last of 32 bits. -/
def EdgeMinute : Prop :=
  seconds r.sent / 60 = seconds r.read / 60 ∧
    (unixMinutes (seconds r.sent) = 0 ∨ unixMinutes (seconds r.sent) = -1)

end OpenRequest

/-! ## The time stamp -/

theorem withinRange_self {x : UInt32} : withinRange x x 1 = true ↔ ¬(x = 0 ∨ x = -1) := by
  rw [withinRange_one_iff]
  split_ifs with hedge
  · exact iff_of_false (fun hne => hne rfl) (fun h => h hedge)
  · exact iff_of_true (by omega) hedge

theorem withinRange_next (x : UInt32) :
    withinRange x (x + 1) 1 = true ∧ withinRange (x + 1) x 1 = true := by
  have hnext := x.toNat_add 1
  have hx := x.toNat_lt
  simp only [withinRange_one_iff, EdgeTimestamp, maxMinute, ne_eq, ← UInt32.toNat_inj, hnext,
    UInt32.reduceToNat]
  constructor <;> split_ifs <;> omega

theorem withinRange_unixMinutes {t t' : ℕ} (h : t ≤ t' + minute ∧ t' ≤ t + minute) :
    withinRange (unixMinutes (seconds t')) (unixMinutes (seconds t)) 1 = true ↔
      ¬(seconds t / 60 = seconds t' / 60 ∧
        (unixMinutes (seconds t) = 0 ∨ unixMinutes (seconds t) = -1)) := by
  have hminutes : ∀ m : ℕ, UInt32.ofNat (m + 1) = UInt32.ofNat m + 1 := fun m =>
    UInt32.ofNat_add m 1
  have hnear : seconds t' / 60 + 1 = seconds t / 60 ∨ seconds t / 60 = seconds t' / 60 ∨
      seconds t' / 60 = seconds t / 60 + 1 := by
    simp only [seconds, minute] at *
    omega
  simp only [unixMinutes]
  rcases hnear with hearly | hsame | hlate
  · refine iff_of_true ?_ (fun hedge => by omega)
    rw [← hearly, hminutes]
    exact (withinRange_next _).1
  · rw [← hsame, withinRange_self]
    exact not_congr (and_iff_right rfl).symm
  · refine iff_of_true ?_ (fun hedge => by omega)
    rw [hlate, hminutes]
    exact (withinRange_next _).2

theorem withinRange_of_unmarshal {ss read : SessionStruct} {now now' : ℕ}
    (h : SessionStruct.unmarshal (ss.marshal now) now' = .ok read) :
    withinRange (unixMinutes now') (unixMinutes now) 1 = true := by
  have htime : uint32At (ss.marshal now) 2 = unixMinutes now := ofNat_decode_be32 _
  have hrange := SessionStruct.timeChecked.inRange h
  rwa [htime] at hrange

/-! ## The request is found out -/

namespace OpenRequest

variable {kdf : Pbkdf2} {state : State} (r : OpenRequest kdf state)

def block : StatelessCipher :=
  saltCipher kdf r.user.password (saltAt (round (r.created : ℤ) keyRefreshInterval))

theorem cipher_eq : r.cipher = .ok r.block :=
  blockCipherFromPassword_eq r.user.password_ne _ _ _

theorem serverCiphers_eq :
    newBlockCipherList kdf r.user.password (r.tried : ℤ) =
      .ok ((saltFromTime (r.tried : ℤ)).map (saltCipher kdf r.user.password)) :=
  newBlockCipherList_eq r.user.password_ne _

theorem block_mem :
    r.block ∈ (saltFromTime (r.tried : ℤ)).map (saltCipher kdf r.user.password) := by
  apply List.mem_map_of_mem
  have hlife := r.lifetime
  have hskew := r.skew_tried
  simp only [minute] at hlife hskew
  apply saltAt_mem_saltFromTime (t := (r.sent : ℤ))
  · omega
  · omega

theorem nonce_eq : ∃ drawn, r.nonce = .ok (withHint (userBytes r.user.name) drawn) := by
  obtain ⟨applied, drawn, hdrawn⟩ := newNonceTo_ok r.validated false r.patternApplied r.nonceDraws
  refine ⟨drawn, ?_⟩
  rw [nonce, hdrawn, ok_bind]
  exact addUserHintToNonce_eq r.user.name_ne r.user.name_le drawn

theorem encryptedMeta_eq {nonce : Nonce} (h : r.nonce = .ok nonce) :
    r.encryptedMeta = .ok (nonce.val ++ r.block.val.aead.sealBytes nonce.val r.metadata) := by
  have hroom : r.metadata.length + defaultOverhead + defaultNonceSize ≤
      metadataLength + defaultNonceSize + defaultOverhead + r.rest := by
    rw [metadata, SessionStruct.length_marshal]
    omega
  rw [encryptedMeta, cipher_eq, lift_ok, ok_bind, h, ok_bind,
    BlockCipher.encrypt_stateless r.block.property nonce hroom, lift_ok, ok_bind]
  rfl

theorem decryptStateless_block (nonce : Nonce) :
    decryptStateless r.block (nonce.val ++ r.block.val.aead.sealBytes nonce.val r.metadata) =
      .ok r.metadata := by
  rw [decryptStateless, BlockCipher.decrypt_stateless r.block.property rfl]
  rfl

theorem decryptors_user (bytes : List UInt8) :
    decryptors r.env r.user bytes = selectDecryptStateless bytes
      ((saltFromTime (r.tried : ℤ)).map (saltCipher kdf r.user.password)) := by
  rw [decryptors, tryDecryptAt_eq r.user.password_ne, r.tried_eq]

theorem decryptors_isSome (nonce : Nonce) :
    (decryptors r.env r.user
      (nonce.val ++ r.block.val.aead.sealBytes nonce.val r.metadata)).isSome = true := by
  rw [decryptors_user, selectDecryptStateless, List.findSome?_isSome_iff]
  refine ⟨r.block, r.block_mem, ?_⟩
  rw [decryptStateless_block]
  rfl

theorem hinted_withHint (user : RegistryUser) (drawn : Nonce) :
    user.hinted (withHint (userBytes user.name) drawn) = true := by
  have hcheck := checkUserFromHint_hinted user (withHint (userBytes user.name) drawn)
  rw [checkUserFromHint_withHint user.name_ne user.name_le] at hcheck
  exact (Except.ok.inj hcheck).symm

theorem discover_hinted {tryDecrypt : Decryptors} {nonce : Nonce} {rest : List UInt8}
    {user : RegistryUser} (hmem : user ∈ state.users) (hhint : user.hinted nonce = true)
    (hopen : (tryDecrypt user (nonce.val ++ rest)).isSome = true) (hintMandatory : Bool)
    (source : Source) :
    ∃ winner ∈ state.users, ∃ block plaintext found,
      tryDecrypt winner (nonce.val ++ rest) = some (block, plaintext) ∧
      discover tryDecrypt (some state) hintMandatory (nonce.val ++ rest) source = .ok found ∧
      found.userID = winner.id ∧ found.userName = winner.name ∧ found.policy = winner.policy ∧
      found.decryptedMetadata = plaintext := by
  obtain ⟨winner, hwinner, -, discovery, htry, hfound⟩ : ∃ winner ∈ state.users,
      winner.hinted nonce = true ∧ ∃ discovery,
        tryUser tryDecrypt (nonce.val ++ rest) winner = some discovery ∧
        (allCandidates state nonce (state.lookup source).val hintMandatory).findSome?
          (tryUser tryDecrypt (nonce.val ++ rest)) = some discovery :=
    findSome?_hinted hmem hhint hopen
  have hdiscover := discover_of_found hfound
  obtain ⟨⟨block, plaintext⟩, hdecrypt, rfl⟩ := Option.map_eq_some_iff.mp htry
  exact ⟨winner, hwinner, block, plaintext, _, hdecrypt, hdiscover, rfl, rfl, rfl, rfl⟩

theorem plaintext_eq {nonce : Nonce} {block : StatelessCipher} {plaintext : List UInt8}
    (hbound : r.KeyBound (nonce.val ++ r.block.val.aead.sealBytes nonce.val r.metadata))
    (h : decryptors r.env r.user
      (nonce.val ++ r.block.val.aead.sealBytes nonce.val r.metadata) = some (block, plaintext)) :
    plaintext = r.metadata := by
  rw [decryptors_user, selectDecryptStateless] at h
  obtain ⟨block', hmem, hopen⟩ := List.exists_of_findSome?_eq_some h
  cases hdecrypt : decryptStateless block'
      (nonce.val ++ r.block.val.aead.sealBytes nonce.val r.metadata) with
  | error err =>
    rw [hdecrypt] at hopen
    cases hopen
  | ok decrypted =>
    rw [hdecrypt] at hopen
    have hblock : block' = r.block :=
      hbound _ _ _ r.cipher_eq r.serverCiphers_eq hmem (by rw [hdecrypt]; rfl)
    rw [hblock, decryptStateless_block] at hdecrypt
    have hplain : decrypted = plaintext := congrArg Prod.snd (Option.some.inj hopen)
    rw [← hplain]
    exact (Except.ok.inj hdecrypt).symm

/-- An honest client is let in, except in the first and the last minute that the time
stamp can tell when both clocks are in it. -/
theorem accepted_iff : r.Accepted ↔ ¬r.EdgeMinute := by
  have htime := withinRange_unixMinutes r.skew_read
  constructor
  · intro haccepted
    exact htime.mp (withinRange_of_unmarshal haccepted.time_passes)
  · intro hedge
    obtain ⟨drawn, hnonce⟩ := r.nonce_eq
    refine ⟨⟨_, _, r.cipher_eq, r.serverCiphers_eq, r.block_mem⟩, ⟨_, hnonce, ?_⟩, ?_,
      ⟨_, r.encryptedMeta_eq hnonce, ?_⟩⟩
    · exact checkUserFromHint_withHint r.user.name_ne r.user.name_le drawn
    · exact SessionStruct.unmarshal_marshal (htime.mpr hedge) r.payload_le
    · intro hintMandatory source
      obtain ⟨winner, hwinner, block, plaintext, found, hdecrypt, hfound, hid, hname, hpolicy,
        hplain⟩ := discover_hinted r.registered (hinted_withHint r.user drawn)
          (r.decryptors_isSome _) hintMandatory source
      refine ⟨found, hfound, fun hunambiguous => ?_⟩
      obtain rfl : winner = r.user := hunambiguous winner hwinner (by rw [hdecrypt]; rfl)
      refine ⟨hid, hname, hpolicy, fun hbound => ?_⟩
      rw [hplain]
      exact r.plaintext_eq hbound hdecrypt

end OpenRequest

/-! ## A request half a minute early -/

def onlyUser : RegistryUser where
  id := 1
  name := "user"
  credential := Vector.replicate 32 0
  policy := { name := "user" }
  name_ne := by decide +kernel
  name_le := by decide +kernel

def onlyUserState : State where
  users := [onlyUser]
  cache := none
  dense := by
    rintro (_ | i) user h
    · cases h
      rfl
    · cases h

/-- The client sends ten seconds after it has made its key, and the clock of the server is half a
minute ahead. -/
def requestAt (t : ℕ) : OpenRequest pbkdf2Sha256 onlyUserState where
  user := onlyUser
  registered := List.mem_singleton.mpr rfl
  noncePattern := some { type := some 3, customHexStrings := ["00010203"] }
  validated := by decide +kernel
  patternApplied := false
  nonceDraws := ⟨zeroNonce, 0, 0, fun _ => 0⟩
  cached := none
  jitter := 0
  ss := { protocol := .openSessionRequest, sessionID := 1, seq := 0, payloadLen := 0 }
  opens := rfl
  payload_le := by decide
  rest := 0
  env := ⟨fun _ => none, fun _ => none, fun _ => (t + 40000000000 : ℕ), fun _ => 0⟩
  created := t
  sent := t + 10000000000
  tried := t + 40000000000
  read := t + 40000000000
  tried_eq := rfl
  lifetime := by simp [minute]
  skew_tried := by simp [minute, Nat.add_assoc]
  skew_read := by simp [minute, Nat.add_assoc]

/-- In June 2025 the request is accepted. -/
theorem request_accepted_in_2025 : ¬(requestAt 1750000000000000000).EdgeMinute ∧
    (requestAt 1750000000000000000).Accepted := by
  have hedge : ¬(requestAt 1750000000000000000).EdgeMinute := by
    rintro ⟨-, hfirst | hlast⟩
    · exact absurd hfirst (by decide)
    · exact absurd hlast (by decide)
  exact ⟨hedge, (requestAt 1750000000000000000).accepted_iff.mpr hedge⟩

/-- At the start of 1970 it is not. -/
theorem request_refused_in_1970 : ¬(requestAt 0).Accepted := by
  intro haccepted
  have hrange := withinRange_of_unmarshal haccepted.time_passes
  exact absurd hrange (by decide)

end Mieru.ServerUser
