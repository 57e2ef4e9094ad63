import Mieru.Cipher
import Mieru.Lib.Sha256
import Mieru.Rng
import Mieru.TrafficPattern

/-! # Fresh nonces

A fresh nonce is random, rewritten at its front as the user's pattern says. Its last
bytes then carry a hint at the user name. -/
namespace Mieru.Cipher

open Result Rng

def noncePrefixLenForUserHint : ℕ := 16
def nonceSuffixLenForUserHint : ℕ := 4
def maxUserNameLen : ℕ := 64

def userBytes (userName : String) : List UInt8 := userName.toUTF8.toList

/-! ## The pattern -/

def nonceTypePrintable : ℤ := 1
def nonceTypePrintableSubset : ℤ := 2
def nonceTypeFixed : ℤ := 3

def printableCharSub : ℕ := 0x20
def printableCharSup : ℕ := 0x7E
def printableCharLen : ℕ := printableCharSup - printableCharSub + 1

def common64Set : List UInt8 :=
  userBytes "WKYu29q87rl6ifoVgGGyiAN7JwYx8sgTSAebhHsySEeTfZKzWDOzhX6D1xneQlx0"

structure NonceDraws where
  random : Nonce
  rewriteLen : ℕ
  hexString : ℕ
  printable : ℕ → ℕ

def rewriteRange (rewrite : ℕ → UInt8 → UInt8) (nonce : Nonce) (beginIdx endIdx : ℤ) :
    Except Fault Nonce := do
  ensure (beginIdx ≤ endIdx) (.panicked "begin index > end index")
  ensure (endIdx ≤ nonce.val.length) (.panicked "index out of range")
  return ⟨nonce.val.mapIdx fun i c => if beginIdx ≤ i ∧ i < endIdx then rewrite i c else c, by
    rw [List.length_mapIdx, nonce.property]⟩

def isPrintable (c : UInt8) : Bool := printableCharSub ≤ c.toNat ∧ c.toNat ≤ printableCharSup

/-- A byte that is not printable loses its high bit, or is drawn anew. -/
def toPrintableChar (nonce : Nonce) (beginIdx endIdx : ℤ) (draws : ℕ → ℕ) : Except Fault Nonce :=
  rewriteRange (fun i c =>
    if isPrintable c then c
    else if c &&& 0x80 > 0 ∧ isPrintable (c &&& 0x7F) then c &&& 0x7F
    else UInt8.ofNat (draws i % printableCharLen + printableCharSub)) nonce beginIdx endIdx

def toCommon64Set (nonce : Nonce) (beginIdx endIdx : ℤ) : Except Fault Nonce :=
  rewriteRange (fun _ c => common64Set.getD (c &&& 0x3f).toNat 0) nonce beginIdx endIdx

def nonceRewriteLen (noncePattern : NoncePattern) (draw : ℕ) : ℤ :=
  let minLen := noncePattern.minLen.getD 0
  let maxLen := noncePattern.maxLen.getD 0
  let maxLen : ℤ := if maxLen > defaultNonceSize then defaultNonceSize else maxLen
  let minLen := if minLen > maxLen then maxLen else minLen
  if minLen = maxLen then minLen else minLen + draw % (maxLen - minLen + 1)

def copyHexString (hexStrings : List String) (draws : NonceDraws) : Except Fault Nonce :=
  match hexStrings[mrandIntn hexStrings.length draws.hexString]? with
  | none => .ok draws.random
  | some hexString =>
    match TrafficPattern.hexDecode hexString.toUTF8.toList with
    | .error err => .error (.panicked s!"fail to decode hex string: {err}")
    | .ok front =>
      let copyLen := min front.length defaultNonceSize
      .ok ⟨front.take copyLen ++ draws.random.val.drop copyLen, by
        rw [List.length_append, List.length_take, List.length_drop, draws.random.property]
        omega⟩

/-- The type is an open enumeration. -/
def rewriteNonce (noncePattern : NoncePattern) (draws : NonceDraws) : Except Fault Nonce :=
  let rewriteLen := nonceRewriteLen noncePattern draws.rewriteLen
  let type := noncePattern.type.getD 0
  if type = nonceTypePrintable then toPrintableChar draws.random 0 rewriteLen draws.printable
  else if type = nonceTypePrintableSubset then toCommon64Set draws.random 0 rewriteLen
  else if type = nonceTypeFixed then copyHexString noncePattern.customHexStrings draws
  else .ok draws.random

/-- Also whether the pattern was applied, now or before. -/
def newNonceTo (noncePattern : Option NoncePattern) (enableImplicitNonce applied : Bool)
    (draws : NonceDraws) : Except Fault (Bool × Nonce) :=
  match noncePattern with
  | none => .ok (applied, draws.random)
  | some noncePattern =>
    if enableImplicitNonce = false ∧ applied = true ∧
        noncePattern.applyToAllUDPPacket.getD false = false then
      .ok (applied, draws.random)
    else do
      let nonce ← rewriteNonce noncePattern draws
      return (true, nonce)

theorem checkRange_eq_ok {name : String} {max : ℤ} {v : Option ℤ}
    (h : TrafficPattern.checkRange name max v = .ok ()) (hmax : 0 ≤ max) :
    0 ≤ v.getD 0 ∧ v.getD 0 ≤ max := by
  cases v with
  | none => exact ⟨Int.le_refl 0, hmax⟩
  | some v =>
    obtain ⟨hlow, h⟩ := ensure_bind_eq_ok.mp h
    exact ⟨hlow, ensure_eq_ok.mp h⟩

theorem hexDecode_of_validate {hexString : String} :
    ∀ {i : ℕ} {hexStrings : List String}, TrafficPattern.validateHexStrings i hexStrings = .ok () →
      hexString ∈ hexStrings →
      ∃ decoded, TrafficPattern.hexDecode hexString.toUTF8.toList = .ok decoded
  | _, [], _, hmem => absurd hmem List.not_mem_nil
  | i, first :: rest, h, hmem => by
    unfold TrafficPattern.validateHexStrings at h
    simp only at h
    split at h
    · cases h
    · rename_i decoded hdecoded
      obtain ⟨-, hrest⟩ := ensure_bind_eq_ok.mp h
      rcases List.mem_cons.mp hmem with rfl | hmem
      · exact ⟨decoded, hdecoded⟩
      · exact hexDecode_of_validate hrest hmem

theorem nonceRewriteLen_bounds {noncePattern : NoncePattern}
    (hmin : 0 ≤ noncePattern.minLen.getD 0) (hmax : 0 ≤ noncePattern.maxLen.getD 0) (draw : ℕ) :
    0 ≤ nonceRewriteLen noncePattern draw ∧
      nonceRewriteLen noncePattern draw ≤ defaultNonceSize := by
  simp only [nonceRewriteLen]
  generalize noncePattern.minLen.getD 0 = minLen at *
  generalize noncePattern.maxLen.getD 0 = maxLen at *
  have hhi : ∃ hi : ℤ, (if maxLen > (defaultNonceSize : ℤ) then (defaultNonceSize : ℤ)
      else maxLen) = hi ∧ 0 ≤ hi ∧ hi ≤ defaultNonceSize := by
    refine ⟨_, rfl, ?_⟩
    simp only [defaultNonceSize]
    split_ifs <;> omega
  obtain ⟨hi, hhi, hhi0, hhiSize⟩ := hhi
  rw [hhi]
  have hlo : ∃ lo, (if minLen > hi then hi else minLen) = lo ∧ 0 ≤ lo ∧ lo ≤ hi := by
    refine ⟨_, rfl, ?_⟩
    split_ifs <;> omega
  obtain ⟨lo, hlo, hlo0, hlohi⟩ := hlo
  rw [hlo]
  have hnonneg := Int.emod_nonneg (draw : ℤ) (show hi - lo + 1 ≠ 0 by omega)
  have hlt := Int.emod_lt_of_pos (draw : ℤ) (show 0 < hi - lo + 1 by omega)
  split_ifs <;> omega

theorem rewriteRange_ok {rewrite : ℕ → UInt8 → UInt8} {nonce : Nonce} {endIdx : ℤ}
    (hlow : 0 ≤ endIdx) (hhigh : endIdx ≤ defaultNonceSize) :
    ∃ nonce', rewriteRange rewrite nonce 0 endIdx = .ok nonce' := by
  have hlen : endIdx ≤ nonce.val.length := by rwa [nonce.property]
  simp only [rewriteRange, ensure_true hlow, ensure_true hlen, ok_bind]
  exact ⟨_, rfl⟩

theorem newNonceTo_ok {noncePattern : Option NoncePattern}
    (hvalid : TrafficPattern.validateNoncePattern noncePattern = .ok ())
    (enableImplicitNonce applied : Bool) (draws : NonceDraws) :
    ∃ applied' nonce,
      newNonceTo noncePattern enableImplicitNonce applied draws = .ok (applied', nonce) := by
  cases noncePattern with
  | none => exact ⟨_, _, rfl⟩
  | some noncePattern =>
    obtain ⟨⟨⟩, hmin, hvalid⟩ := bind_eq_ok.mp hvalid
    obtain ⟨⟨⟩, hmax, hvalid⟩ := bind_eq_ok.mp hvalid
    have hhex : TrafficPattern.validateHexStrings 0 noncePattern.customHexStrings = .ok () := by
      simp only at hvalid
      split at hvalid
      · exact (ensure_bind_eq_ok.mp hvalid).2
      · exact hvalid
    have hrewrite : ∃ nonce, rewriteNonce noncePattern draws = .ok nonce := by
      obtain ⟨hlow, hhigh⟩ := nonceRewriteLen_bounds (checkRange_eq_ok hmin (by decide)).1
        (checkRange_eq_ok hmax (by decide)).1 draws.rewriteLen
      unfold rewriteNonce
      simp only
      split_ifs
      · exact rewriteRange_ok hlow hhigh
      · exact rewriteRange_ok hlow hhigh
      · unfold copyHexString
        split
        · exact ⟨_, rfl⟩
        · rename_i hexString hget
          obtain ⟨decoded, hdecoded⟩ := hexDecode_of_validate hhex (List.mem_of_getElem? hget)
          rw [hdecoded]
          exact ⟨_, rfl⟩
      · exact ⟨_, rfl⟩
    obtain ⟨nonce, hnonce⟩ := hrewrite
    simp only [newNonceTo, hnonce, ok_bind]
    split_ifs
    · exact ⟨_, _, rfl⟩
    · exact ⟨_, _, rfl⟩

/-! ## The user hint -/

def userHint (user nonce : List UInt8) : List UInt8 :=
  (Sha256.sum256 (user ++ nonce.take noncePrefixLenForUserHint)).take nonceSuffixLenForUserHint

@[simp] theorem length_userHint (user nonce : List UInt8) : (userHint user nonce).length = 4 := by
  simp [userHint, nonceSuffixLenForUserHint]

def withHint (user : List UInt8) (nonce : Nonce) : Nonce :=
  ⟨nonce.val.take (nonce.val.length - nonceSuffixLenForUserHint) ++ userHint user nonce.val, by
    simp only [List.length_append, List.length_take, length_userHint, nonce.property,
      nonceSuffixLenForUserHint, defaultNonceSize]
    rfl⟩

/-- A nonce is never too short here. -/
def addUserHintToNonce (userName : String) (nonce : Nonce) : Except Fault Nonce := do
  let user := userBytes userName
  let length := user.length
  if user = [] then return nonce
  else do
    ensure (length ≤ maxUserNameLen)
      (.panicked s!"user name length {length} exceeds maximum {maxUserNameLen}")
    return withHint user nonce

def checkUserFromHint (user nonce : List UInt8) : Except Fault Bool := do
  ensure (user ≠ []) (.panicked "user is empty")
  let length := user.length
  ensure (length ≤ maxUserNameLen)
    (.panicked s!"user name length {length} exceeds maximum {maxUserNameLen}")
  let nonceLen := nonce.length
  ensure (noncePrefixLenForUserHint + nonceSuffixLenForUserHint ≤ nonceLen)
    (.panicked s!"nonce length {nonceLen} is too short")
  return userHint user nonce = nonce.drop (nonceLen - nonceSuffixLenForUserHint)

theorem addUserHintToNonce_eq {userName : String} (hne : userBytes userName ≠ [])
    (hlen : (userBytes userName).length ≤ maxUserNameLen) (nonce : Nonce) :
    addUserHintToNonce userName nonce = .ok (withHint (userBytes userName) nonce) := by
  simp only [addUserHintToNonce, if_neg hne, ensure_true hlen, ok_bind]
  rfl

theorem length_take_nonce (nonce : Nonce) : (nonce.val.take 20).length = 20 := by
  rw [List.length_take, nonce.property]
  rfl

theorem take_withHint (user : List UInt8) (nonce : Nonce) :
    (withHint user nonce).val.take 20 = nonce.val.take 20 := by
  have hlen : nonce.val.length = 24 := nonce.property
  simp only [withHint, hlen, nonceSuffixLenForUserHint, Nat.reduceSub]
  exact List.take_left' (length_take_nonce nonce)

theorem drop_withHint (user : List UInt8) (nonce : Nonce) :
    (withHint user nonce).val.drop 20 = userHint user nonce.val := by
  have hlen : nonce.val.length = 24 := nonce.property
  simp only [withHint, hlen, nonceSuffixLenForUserHint, Nat.reduceSub]
  exact List.drop_left' (length_take_nonce nonce)

/-- The hint is about bytes that it does not overwrite. -/
theorem userHint_withHint (user other : List UInt8) (nonce : Nonce) :
    userHint other (withHint user nonce).val = userHint other nonce.val := by
  have htake : ∀ bs : List UInt8, bs.take 16 = (bs.take 20).take 16 := by
    intro bs
    rw [List.take_take]
    rfl
  simp only [userHint, noncePrefixLenForUserHint]
  rw [htake, take_withHint, ← htake]

/-- Two nonces of one user collide exactly when they agree before the hint. -/
theorem withHint_inj {user : List UInt8} {n m : Nonce} :
    withHint user n = withHint user m ↔ n.val.take 20 = m.val.take 20 := by
  constructor
  · intro h
    rw [← take_withHint user n, h, take_withHint]
  · intro h
    have hhint : userHint user n.val = userHint user m.val := by
      have hprefix := congrArg (List.take 16) h
      simp only [List.take_take] at hprefix
      simp only [userHint, noncePrefixLenForUserHint]
      exact congrArg (fun front => (Sha256.sum256 (user ++ front)).take _) hprefix
    apply Subtype.ext
    rw [← List.take_append_drop 20 (withHint user n).val, take_withHint, drop_withHint, h, hhint,
      ← take_withHint user m, ← drop_withHint user m, List.take_append_drop]

theorem checkUserFromHint_withHint {user : List UInt8} (hne : user ≠ [])
    (hlen : user.length ≤ maxUserNameLen) (nonce : Nonce) :
    checkUserFromHint user (withHint user nonce).val = .ok true := by
  have hnonce : (withHint user nonce).val.length = 24 := (withHint user nonce).property
  have hlong : noncePrefixLenForUserHint + nonceSuffixLenForUserHint ≤
      (withHint user nonce).val.length := by
    rw [hnonce]
    decide
  simp only [checkUserFromHint, ensure_true hne, ensure_true hlen, ensure_true hlong, ok_bind]
  rw [userHint_withHint, hnonce]
  exact congrArg Except.ok (decide_eq_true (drop_withHint user nonce).symm)

end Mieru.Cipher
