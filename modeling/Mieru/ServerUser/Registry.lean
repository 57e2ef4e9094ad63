import Mieru.Cipher.Nonce
import Mieru.Lib.Scan
import Mieru.ServerUser.Quota

/-! # User discovery

The server finds out who sent a segment by trying the keys of its users. Users that the
source was seen with and users that the nonce hints at come first. -/
namespace Mieru.ServerUser

open Cipher Scan

structure RegistryUser where
  id : UInt32
  name : String
  credential : Vector UInt8 32
  policy : Policy
  name_ne : userBytes name ≠ []
  name_le : (userBytes name).length ≤ Cipher.maxUserNameLen

def RegistryUser.hinted (user : RegistryUser) (nonce : Nonce) : Bool :=
  userHint (userBytes user.name) nonce.val = nonce.val.drop 20

theorem checkUserFromHint_hinted (user : RegistryUser) (nonce : Nonce) :
    checkUserFromHint (userBytes user.name) nonce.val = .ok (user.hinted nonce) := by
  have hnonce : nonce.val.length = 24 := nonce.property
  simp only [checkUserFromHint, Result.ensure_true user.name_ne, Result.ensure_true user.name_le,
    Result.ok_bind, RegistryUser.hinted, hnonce]
  rfl

def sourceUserCacheUsers : ℕ := 16

/-- What a lookup in the source cache may give. -/
abbrev CachedIDs := { ids : List UInt32 // ids.length ≤ sourceUserCacheUsers }

structure Source where
  key : Vector UInt8 16
  valid : Bool

/-- The IDs of a generation are dense and start at 1. The cache is known by its answers. -/
structure State where
  users : List RegistryUser
  cache : Option (Vector UInt8 16 → CachedIDs)
  dense : ∀ i user, users[i]? = some user → user.id.toNat = i + 1

def State.lookup (state : State) (source : Source) : CachedIDs :=
  match state.cache with
  | none => ⟨[], Nat.zero_le _⟩
  | some lookup => if source.valid then lookup source.key else ⟨[], Nat.zero_le _⟩

inductive MatchOrigin where
  | cachedHint
  | registryHint
  | cachedFallback
  | registryFallback
  deriving DecidableEq, Repr

structure Discovery where
  block : StatelessCipher
  decryptedMetadata : List UInt8
  userID : UInt32
  userName : String
  policy : Policy

theorem Discovery.stateless (found : Discovery) : found.block.val.enableImplicitNonce = false :=
  found.block.property

/-- The users whose decryptor was tried are kept in order. -/
structure DiscoveryResult where
  found : Option (Discovery × MatchOrigin)
  tried : List RegistryUser

def markUserIDAttempted (attempted : List UInt32) (userID : UInt32) : List UInt32 :=
  if attempted.length < sourceUserCacheUsers ∧ userID ∉ attempted then attempted ++ [userID]
  else attempted

def userByID (state : State) (userID : UInt32) : Option RegistryUser :=
  if userID = 0 ∨ userID > UInt32.ofNat state.users.length then none
  else
    match state.users[userID.toNat - 1]? with
    | none => none
    | some user => if user.id ≠ userID then none else some user

/-- The decryptor of a user: a function of the ciphertext during one call. -/
abbrev Decryptors := RegistryUser → List UInt8 → Option (StatelessCipher × List UInt8)

/-- What `tryState` keeps between its loops. -/
structure Trial where
  attempted : List UInt32
  tried : List RegistryUser

abbrev Phase := Trial → Option (Discovery × MatchOrigin) × Trial

/-- A phase that finds somebody is the last. -/
def Phase.andThen (p q : Phase) : Phase := fun t =>
  match p t with
  | (some found, t) => (some found, t)
  | (none, t) => q t

section Discover

variable (tryDecrypt : Decryptors) (state : State) (encryptedMeta : List UInt8)

def tryUser (user : RegistryUser) : Option Discovery :=
  (tryDecrypt user encryptedMeta).map fun opened =>
    { block := opened.1
      decryptedMetadata := opened.2
      userID := user.id
      userName := user.name
      policy := user.policy }

def cachedPhase (eligible : RegistryUser → Bool) (origin : MatchOrigin) : List UInt32 → Phase
  | [], t => (none, t)
  | userID :: ids, t =>
    match userByID state userID with
    | none => cachedPhase eligible origin ids t
    | some user =>
      if user.id ∈ t.attempted ∨ eligible user = false then cachedPhase eligible origin ids t
      else
        let t : Trial := ⟨markUserIDAttempted t.attempted user.id, t.tried ++ [user]⟩
        match tryUser tryDecrypt encryptedMeta user with
        | some found => (some (found, origin), t)
        | none => cachedPhase eligible origin ids t

def registryPhase (eligible : RegistryUser → Bool) (origin : MatchOrigin) :
    List RegistryUser → Phase
  | [], t => (none, t)
  | user :: users, t =>
    if user.id ∈ t.attempted ∨ eligible user = false then registryPhase eligible origin users t
    else
      let t : Trial := { t with tried := t.tried ++ [user] }
      match tryUser tryDecrypt encryptedMeta user with
      | some found => (some (found, origin), t)
      | none => registryPhase eligible origin users t

/-- The users that meet a condition, those of the cache first. -/
def bothPhases (eligible : RegistryUser → Bool) (cached registry : MatchOrigin)
    (cachedIDs : List UInt32) : Phase :=
  (cachedPhase tryDecrypt state encryptedMeta eligible cached cachedIDs).andThen
    (registryPhase tryDecrypt encryptedMeta eligible registry state.users)

/-- The nonce is the front of the encrypted metadata. -/
def tryState (nonce : Nonce) (source : Source) (hintMandatory : Bool) : DiscoveryResult :=
  let cachedIDs := (state.lookup source).val
  let hinted := fun user : RegistryUser => user.hinted nonce
  let phases := bothPhases tryDecrypt state encryptedMeta
  let hints := phases hinted .cachedHint .registryHint cachedIDs
  let others := phases (fun user => !hinted user) .cachedFallback .registryFallback cachedIDs
  let (found, t) := (if hintMandatory then hints else hints.andThen others) ⟨[], []⟩
  ⟨found, t.tried⟩

end Discover

/-! ## The candidates of a call

Which decryptors a call tries, and in which order, does not depend on what they give. -/

section Candidates

variable {tryDecrypt : Decryptors} {state : State} {encryptedMeta : List UInt8}

theorem State.id_inj {u v : RegistryUser} (hu : u ∈ state.users) (hv : v ∈ state.users)
    (h : u.id = v.id) : u = v := by
  obtain ⟨i, hi⟩ := List.mem_iff_getElem?.mp hu
  obtain ⟨j, hj⟩ := List.mem_iff_getElem?.mp hv
  have hiid := state.dense i u hi
  have hjid := state.dense j v hj
  rw [h] at hiid
  obtain rfl : i = j := by omega
  exact Option.some.inj (hi.symm.trans hj)

theorem State.users_nodup (state : State) : state.users.Nodup := by
  rw [List.nodup_iff_getElem?_ne_getElem?]
  intro i j hij hj heq
  have hv := List.getElem?_eq_getElem hj
  have hi := state.dense i _ (heq.trans hv)
  have hj := state.dense j _ hv
  omega

theorem State.length_lt (state : State) : state.users.length < 2 ^ 32 := by
  by_contra hlarge
  have hlast : 2 ^ 32 - 1 < state.users.length := by omega
  have hid := state.dense (2 ^ 32 - 1) _ (List.getElem?_eq_getElem hlast)
  have hlt := (state.users[2 ^ 32 - 1]).id.toNat_lt
  omega

theorem userByID_eq_some {userID : UInt32} {user : RegistryUser} :
    userByID state userID = some user ↔ user ∈ state.users ∧ user.id = userID := by
  constructor
  · intro h
    unfold userByID at h
    split_ifs at h with hrange
    split at h
    · cases h
    · rename_i u hu
      split_ifs at h with hid
      cases h
      exact ⟨List.mem_of_getElem? hu, not_not.mp hid⟩
  · rintro ⟨hmem, rfl⟩
    obtain ⟨i, hi⟩ := List.mem_iff_getElem?.mp hmem
    have hid := state.dense i user hi
    have hlt : i < state.users.length := (List.getElem?_eq_some_iff.mp hi).1
    have hsize : (UInt32.ofNat state.users.length).toNat = state.users.length := by
      rw [UInt32.toNat_ofNat', Nat.mod_eq_of_lt state.length_lt]
    have hrange : ¬(user.id = 0 ∨ user.id > UInt32.ofNat state.users.length) := by
      rintro (hzero | hlarge)
      · rw [hzero] at hid
        exact absurd hid (Nat.zero_ne_add_one i)
      · have hgt := UInt32.lt_iff_toNat_lt.mp hlarge
        omega
    rw [userByID, if_neg hrange, hid, Nat.add_sub_cancel, hi]
    exact if_neg (not_not.mpr rfl)

theorem markUserIDAttempted_eq {attempted all : List UInt32} {userID : UInt32}
    (hall : all.length ≤ sourceUserCacheUsers) (hnodup : attempted.Nodup)
    (hsub : attempted ⊆ all) (hmem : userID ∈ all) (hnew : userID ∉ attempted) :
    markUserIDAttempted attempted userID = attempted ++ [userID] := by
  have hnodup' : (userID :: attempted).Nodup := List.nodup_cons.mpr ⟨hnew, hnodup⟩
  have hsub' : userID :: attempted ⊆ all := List.cons_subset.mpr ⟨hmem, hsub⟩
  have hlen := (hnodup'.subperm hsub').length_le
  rw [List.length_cons] at hlen
  rw [markUserIDAttempted, if_pos ⟨by omega, hnew⟩]

def cachedCandidates (state : State) (eligible : RegistryUser → Bool) :
    List UInt32 → List UInt32 → List RegistryUser
  | [], _ => []
  | userID :: ids, attempted =>
    match userByID state userID with
    | none => cachedCandidates state eligible ids attempted
    | some user =>
      if user.id ∈ attempted ∨ eligible user = false then
        cachedCandidates state eligible ids attempted
      else user :: cachedCandidates state eligible ids (attempted ++ [user.id])

def registryCandidates (users : List RegistryUser) (eligible : RegistryUser → Bool)
    (attempted : List UInt32) : List RegistryUser :=
  users.filter fun user => decide (user.id ∉ attempted) && eligible user

def scanned (tryDecrypt : Decryptors) (encryptedMeta : List UInt8) (origin : MatchOrigin)
    (cs : List RegistryUser) : Option (Discovery × MatchOrigin) × List RegistryUser :=
  let r := scan (tryUser tryDecrypt encryptedMeta) cs
  (r.1.map fun found => (found, origin), r.2)

theorem cachedPhase_eq {eligible : RegistryUser → Bool} (origin : MatchOrigin)
    {all : List UInt32} (hall : all.length ≤ sourceUserCacheUsers) {ids : List UInt32}
    (hids : ids ⊆ all) {t : Trial} (hnodup : t.attempted.Nodup) (hsub : t.attempted ⊆ all) :
    cachedPhase tryDecrypt state encryptedMeta eligible origin ids t =
      let r := scanned tryDecrypt encryptedMeta origin
        (cachedCandidates state eligible ids t.attempted)
      (r.1, ⟨t.attempted ++ r.2.map RegistryUser.id, t.tried ++ r.2⟩) := by
  induction ids generalizing t with
  | nil => simp [cachedPhase, cachedCandidates, scanned, scan]
  | cons userID ids ih =>
    obtain ⟨hmem, hids⟩ := List.cons_subset.mp hids
    unfold cachedPhase cachedCandidates
    cases huser : userByID state userID with
    | none => exact ih hids hnodup hsub
    | some user =>
      obtain ⟨-, hid⟩ := userByID_eq_some.mp huser
      simp only
      split_ifs with hskip
      · exact ih hids hnodup hsub
      · obtain ⟨hnew, -⟩ := not_or.mp hskip
        have hmem' : user.id ∈ all := hid ▸ hmem
        have hmark := markUserIDAttempted_eq hall hnodup hsub hmem' hnew
        have hnodup' : (t.attempted ++ [user.id]).Nodup :=
          List.nodup_append'.mpr ⟨hnodup, List.nodup_singleton _, by simpa using hnew⟩
        have hsub' : t.attempted ++ [user.id] ⊆ all :=
          List.append_subset.mpr ⟨hsub, by simpa using hmem'⟩
        rw [hmark]
        cases htry : tryUser tryDecrypt encryptedMeta user with
        | some found => simp [scanned, scan_cons_some htry]
        | none =>
          simp only [ih (t := ⟨t.attempted ++ [user.id], _⟩) hids hnodup' hsub', scanned,
            scan_cons_none htry]
          simp

theorem registryPhase_eq {eligible : RegistryUser → Bool} (origin : MatchOrigin)
    (users : List RegistryUser) (t : Trial) :
    registryPhase tryDecrypt encryptedMeta eligible origin users t =
      let r := scanned tryDecrypt encryptedMeta origin
        (registryCandidates users eligible t.attempted)
      (r.1, ⟨t.attempted, t.tried ++ r.2⟩) := by
  induction users generalizing t with
  | nil => simp [registryPhase, registryCandidates, scanned, scan]
  | cons user users ih =>
    unfold registryPhase
    split_ifs with hskip
    · have hout : (decide (user.id ∉ t.attempted) && eligible user) = false := by
        rcases hskip with h | h
        · simp [h]
        · simp [h]
      rw [ih, registryCandidates, registryCandidates, List.filter_cons, hout]
      rfl
    · obtain ⟨hnew, helig⟩ := not_or.mp hskip
      have hin : (decide (user.id ∉ t.attempted) && eligible user) = true := by
        simp [hnew, Bool.eq_true_of_not_eq_false helig]
      rw [registryCandidates, List.filter_cons, if_pos hin]
      cases htry : tryUser tryDecrypt encryptedMeta user with
      | some found => simp [scanned, scan_cons_some htry]
      | none =>
        simp only [ih, scanned, scan_cons_none htry, registryCandidates]
        simp

theorem mem_cachedCandidates {eligible : RegistryUser → Bool} {ids attempted : List UInt32}
    {u : RegistryUser} :
    u ∈ cachedCandidates state eligible ids attempted ↔
      u ∈ state.users ∧ u.id ∈ ids ∧ eligible u = true ∧ u.id ∉ attempted := by
  induction ids generalizing attempted with
  | nil => simp [cachedCandidates]
  | cons userID ids ih =>
    unfold cachedCandidates
    cases huser : userByID state userID with
    | none =>
      have hnot : ∀ v ∈ state.users, v.id ≠ userID := by
        intro v hv hid
        rw [userByID_eq_some.mpr ⟨hv, hid⟩] at huser
        cases huser
      simp only [ih, List.mem_cons]
      refine and_congr_right fun hu => and_congr_left fun _ => ?_
      exact (or_iff_right (hnot u hu)).symm
    | some user =>
      obtain ⟨hmem, rfl⟩ := userByID_eq_some.mp huser
      have hsame : u ∈ state.users → (u.id = user.id ↔ u = user) :=
        fun hu => ⟨State.id_inj hu hmem, congrArg RegistryUser.id⟩
      simp only
      split_ifs with hskip
      · rw [ih]
        refine and_congr_right fun hu => ?_
        rw [List.mem_cons, hsame hu]
        constructor
        · rintro ⟨hid, hrest⟩
          exact ⟨.inr hid, hrest⟩
        · rintro ⟨rfl | hid, helig, hnew⟩
          · rcases hskip with h | h
            · exact absurd h hnew
            · rw [h] at helig
              cases helig
          · exact ⟨hid, helig, hnew⟩
      · obtain ⟨hnew, helig⟩ := not_or.mp hskip
        rw [List.mem_cons, ih, List.mem_cons, List.mem_append, List.mem_singleton]
        constructor
        · rintro (rfl | ⟨hu, hid, he, hn⟩)
          · exact ⟨hmem, .inl rfl, Bool.eq_true_of_not_eq_false helig, hnew⟩
          · exact ⟨hu, .inr hid, he, fun h => hn (.inl h)⟩
        · rintro ⟨hu, hid, he, hn⟩
          by_cases heq : u = user
          · exact .inl heq
          · have hne := mt (hsame hu).mp heq
            exact .inr ⟨hu, hid.resolve_left hne, he, not_or.mpr ⟨hn, hne⟩⟩

theorem nodup_cachedCandidates {eligible : RegistryUser → Bool} {ids attempted : List UInt32} :
    (cachedCandidates state eligible ids attempted).Nodup := by
  induction ids generalizing attempted with
  | nil => exact List.nodup_nil
  | cons userID ids ih =>
    unfold cachedCandidates
    cases userByID state userID with
    | none => exact ih
    | some user =>
      simp only
      split_ifs with hskip
      · exact ih
      · refine List.nodup_cons.mpr ⟨fun hmem => ?_, ih⟩
        have hnew := (mem_cachedCandidates.mp hmem).2.2.2
        exact hnew (List.mem_append_right _ (List.mem_singleton.mpr rfl))

def candidates (state : State) (eligible : RegistryUser → Bool) (ids attempted : List UInt32) :
    List RegistryUser :=
  let cached := cachedCandidates state eligible ids attempted
  cached ++ registryCandidates state.users eligible (attempted ++ cached.map RegistryUser.id)

theorem mem_registryCandidates {users : List RegistryUser} {eligible : RegistryUser → Bool}
    {attempted : List UInt32} {u : RegistryUser} :
    u ∈ registryCandidates users eligible attempted ↔
      u ∈ users ∧ u.id ∉ attempted ∧ eligible u = true := by
  simp [registryCandidates]

theorem mem_candidates {eligible : RegistryUser → Bool} {ids attempted : List UInt32}
    {u : RegistryUser} :
    u ∈ candidates state eligible ids attempted ↔
      u ∈ state.users ∧ eligible u = true ∧ u.id ∉ attempted := by
  rw [candidates, List.mem_append, mem_registryCandidates]
  constructor
  · rintro (h | ⟨hu, hnew, helig⟩)
    · obtain ⟨hu, -, helig, hnew⟩ := mem_cachedCandidates.mp h
      exact ⟨hu, helig, hnew⟩
    · exact ⟨hu, helig, fun h => hnew (List.mem_append_left _ h)⟩
  · rintro ⟨hu, helig, hnew⟩
    by_cases hcached : u ∈ cachedCandidates state eligible ids attempted
    · exact .inl hcached
    · refine .inr ⟨hu, ?_, helig⟩
      intro h
      rcases List.mem_append.mp h with h | h
      · exact hnew h
      · -- somebody else with this ID would be the same user
        obtain ⟨v, hv, hid⟩ := List.mem_map.mp h
        exact hcached (State.id_inj (mem_cachedCandidates.mp hv).1 hu hid ▸ hv)

theorem nodup_candidates {eligible : RegistryUser → Bool} {ids attempted : List UInt32} :
    (candidates state eligible ids attempted).Nodup := by
  refine List.nodup_append'.mpr ⟨nodup_cachedCandidates, state.users_nodup.filter _, ?_⟩
  intro u hcached hregistry
  have hnew := (mem_registryCandidates.mp hregistry).2.1
  exact hnew (List.mem_append_right _ (List.mem_map_of_mem hcached))

structure Phase.Scans (p : Phase) (tryDecrypt : Decryptors) (encryptedMeta : List UInt8)
    (t : Trial) (cs : List RegistryUser) : Prop where
  found : (p t).1.map Prod.fst = (scan (tryUser tryDecrypt encryptedMeta) cs).1
  tried : (p t).2.tried = t.tried ++ (scan (tryUser tryDecrypt encryptedMeta) cs).2

theorem Phase.Scans.andThen {p q : Phase} {t : Trial} {cs ds : List RegistryUser}
    (hp : p.Scans tryDecrypt encryptedMeta t cs)
    (hq : (p t).1 = none → q.Scans tryDecrypt encryptedMeta (p t).2 ds) :
    (p.andThen q).Scans tryDecrypt encryptedMeta t (cs ++ ds) := by
  obtain ⟨hfound, htried⟩ := hp
  cases hpt : p t with
  | mk found t' =>
    rw [hpt] at hfound htried hq
    cases found with
    | some found =>
      have hrun : p.andThen q t = (some found, t') := by simp only [Phase.andThen, hpt]
      have hscan : (scan (tryUser tryDecrypt encryptedMeta) cs).1 = some found.1 := hfound.symm
      constructor
      · rw [hrun, scan_append, hscan]
        rfl
      · rw [hrun, scan_append, hscan]
        exact htried
    | none =>
      have hrun : p.andThen q t = q t' := by simp only [Phase.andThen, hpt]
      have hscan : (scan (tryUser tryDecrypt encryptedMeta) cs).1 = none := hfound.symm
      obtain ⟨hfound', htried'⟩ := hq rfl
      constructor
      · rw [hrun, scan_append, hscan]
        exact hfound'
      · rw [hrun, scan_append, hscan, htried', htried, List.append_assoc]

theorem Phase.andThen_none {p q : Phase} {t : Trial} (h : (p.andThen q t).1 = none) :
    (p t).1 = none ∧ p.andThen q t = q (p t).2 := by
  cases hpt : p t with
  | mk found t' =>
    cases found with
    | some found =>
      simp only [Phase.andThen, hpt] at h
      cases h
    | none => exact ⟨rfl, by simp only [Phase.andThen, hpt]⟩

theorem scanned_found (origin : MatchOrigin) (cs : List RegistryUser) :
    (scanned tryDecrypt encryptedMeta origin cs).1.map Prod.fst =
      (scan (tryUser tryDecrypt encryptedMeta) cs).1 := by
  rw [scanned, Option.map_map]
  exact congrFun Option.map_id _

theorem cachedPhase_scans {eligible : RegistryUser → Bool} (origin : MatchOrigin)
    {ids : List UInt32} (hall : ids.length ≤ sourceUserCacheUsers) {t : Trial}
    (hnodup : t.attempted.Nodup) (hsub : t.attempted ⊆ ids) :
    (cachedPhase tryDecrypt state encryptedMeta eligible origin ids).Scans tryDecrypt encryptedMeta
      t (cachedCandidates state eligible ids t.attempted) := by
  have heq : cachedPhase tryDecrypt state encryptedMeta eligible origin ids t = _ :=
    cachedPhase_eq origin hall (List.Subset.refl ids) hnodup hsub
  constructor
  · rw [heq]
    exact scanned_found origin _
  · rw [heq]
    rfl

theorem registryPhase_scans {eligible : RegistryUser → Bool} (origin : MatchOrigin)
    (users : List RegistryUser) (t : Trial) :
    (registryPhase tryDecrypt encryptedMeta eligible origin users).Scans tryDecrypt encryptedMeta
      t (registryCandidates users eligible t.attempted) := by
  have heq : registryPhase tryDecrypt encryptedMeta eligible origin users t = _ :=
    registryPhase_eq origin users t
  constructor
  · rw [heq]
    exact scanned_found origin _
  · rw [heq]
    rfl

theorem cachedPhase_attempted {eligible : RegistryUser → Bool} (origin : MatchOrigin)
    {ids : List UInt32} (hall : ids.length ≤ sourceUserCacheUsers) {t : Trial}
    (hnodup : t.attempted.Nodup) (hsub : t.attempted ⊆ ids)
    (hnone : (cachedPhase tryDecrypt state encryptedMeta eligible origin ids t).1 = none) :
    (cachedPhase tryDecrypt state encryptedMeta eligible origin ids t).2.attempted =
      t.attempted ++ (cachedCandidates state eligible ids t.attempted).map RegistryUser.id := by
  have heq : cachedPhase tryDecrypt state encryptedMeta eligible origin ids t = _ :=
    cachedPhase_eq origin hall (List.Subset.refl ids) hnodup hsub
  rw [heq] at hnone ⊢
  have hscan := Option.map_eq_none_iff.mp hnone
  exact congrArg (fun cs => t.attempted ++ List.map RegistryUser.id cs) (scan_snd_of_none hscan)

theorem bothPhases_scans {eligible : RegistryUser → Bool} (o o' : MatchOrigin)
    {ids : List UInt32} (hall : ids.length ≤ sourceUserCacheUsers) {t : Trial}
    (hnodup : t.attempted.Nodup) (hsub : t.attempted ⊆ ids) :
    (bothPhases tryDecrypt state encryptedMeta eligible o o' ids).Scans tryDecrypt encryptedMeta t
      (candidates state eligible ids t.attempted) := by
  refine (cachedPhase_scans o hall hnodup hsub).andThen fun hnone => ?_
  rw [← cachedPhase_attempted o hall hnodup hsub hnone]
  exact registryPhase_scans o' state.users _

theorem bothPhases_attempted {eligible : RegistryUser → Bool} {o o' : MatchOrigin}
    {ids : List UInt32} (hall : ids.length ≤ sourceUserCacheUsers) {t : Trial}
    (hnodup : t.attempted.Nodup) (hsub : t.attempted ⊆ ids)
    (hnone : (bothPhases tryDecrypt state encryptedMeta eligible o o' ids t).1 = none) :
    (bothPhases tryDecrypt state encryptedMeta eligible o o' ids t).2.attempted =
      t.attempted ++ (cachedCandidates state eligible ids t.attempted).map RegistryUser.id := by
  obtain ⟨hcached, hrun⟩ := Phase.andThen_none hnone
  rw [bothPhases, hrun, registryPhase_eq]
  exact cachedPhase_attempted o hall hnodup hsub hcached

def allCandidates (state : State) (nonce : Nonce) (ids : List UInt32) (hintMandatory : Bool) :
    List RegistryUser :=
  let hinted := fun user : RegistryUser => user.hinted nonce
  let attempted := (cachedCandidates state hinted ids []).map RegistryUser.id
  candidates state hinted ids [] ++
    if hintMandatory then [] else candidates state (fun user => !hinted user) ids attempted

theorem nodup_attempted {eligible : RegistryUser → Bool} {ids attempted : List UInt32} :
    ((cachedCandidates state eligible ids attempted).map RegistryUser.id).Nodup := by
  refine List.Nodup.map_on ?_ nodup_cachedCandidates
  intro u hu v hv hid
  exact State.id_inj (mem_cachedCandidates.mp hu).1 (mem_cachedCandidates.mp hv).1 hid

theorem attempted_subset {eligible : RegistryUser → Bool} {ids attempted : List UInt32} :
    (cachedCandidates state eligible ids attempted).map RegistryUser.id ⊆ ids := by
  intro userID h
  obtain ⟨u, hu, rfl⟩ := List.mem_map.mp h
  exact (mem_cachedCandidates.mp hu).2.1

theorem both_andThen_scans {eligible eligible' : RegistryUser → Bool} (o₁ o₂ o₃ o₄ : MatchOrigin)
    {ids : List UInt32} (hall : ids.length ≤ sourceUserCacheUsers) :
    ((bothPhases tryDecrypt state encryptedMeta eligible o₁ o₂ ids).andThen
      (bothPhases tryDecrypt state encryptedMeta eligible' o₃ o₄ ids)).Scans tryDecrypt
      encryptedMeta ⟨[], []⟩ (candidates state eligible ids [] ++
        candidates state eligible' ids
          ((cachedCandidates state eligible ids []).map RegistryUser.id)) := by
  have hfirst : (bothPhases tryDecrypt state encryptedMeta eligible o₁ o₂ ids).Scans tryDecrypt
      encryptedMeta ⟨[], []⟩ (candidates state eligible ids []) :=
    bothPhases_scans o₁ o₂ hall List.nodup_nil (List.nil_subset ids)
  refine hfirst.andThen fun hnone => ?_
  have hattempted := bothPhases_attempted hall List.nodup_nil (List.nil_subset ids) hnone
  rw [List.nil_append] at hattempted
  rw [← hattempted]
  apply bothPhases_scans o₃ o₄ hall
  · rw [hattempted]
    exact nodup_attempted
  · rw [hattempted]
    exact attempted_subset

theorem tryState_scans (tryDecrypt : Decryptors) (state : State) (encryptedMeta : List UInt8)
    (nonce : Nonce) (source : Source) (hintMandatory : Bool) :
    let r := tryState tryDecrypt state encryptedMeta nonce source hintMandatory
    let s := scan (tryUser tryDecrypt encryptedMeta)
      (allCandidates state nonce (state.lookup source).val hintMandatory)
    r.found.map Prod.fst = s.1 ∧ r.tried = s.2 := by
  have hall := (state.lookup source).property
  unfold tryState allCandidates
  cases hintMandatory with
  | true =>
    have hhints : (bothPhases tryDecrypt state encryptedMeta (fun user => user.hinted nonce)
        .cachedHint .registryHint (state.lookup source).val).Scans tryDecrypt encryptedMeta
        ⟨[], []⟩ _ := bothPhases_scans _ _ hall List.nodup_nil (List.nil_subset _)
    simp only [↓reduceIte, List.append_nil]
    exact ⟨hhints.found, hhints.tried⟩
  | false =>
    have hboth : ((bothPhases tryDecrypt state encryptedMeta (fun user => user.hinted nonce)
        .cachedHint .registryHint (state.lookup source).val).andThen
        (bothPhases tryDecrypt state encryptedMeta (fun user => !user.hinted nonce)
          .cachedFallback .registryFallback (state.lookup source).val)).Scans tryDecrypt
        encryptedMeta ⟨[], []⟩ _ := both_andThen_scans _ _ _ _ hall
    simp only [Bool.false_eq_true, ↓reduceIte]
    exact ⟨hboth.found, hboth.tried⟩

theorem mem_allCandidates {nonce : Nonce} {ids : List UInt32} {hintMandatory : Bool}
    {u : RegistryUser} :
    u ∈ allCandidates state nonce ids hintMandatory ↔
      u ∈ state.users ∧ (u.hinted nonce = true ∨ hintMandatory = false) := by
  unfold allCandidates
  rw [List.mem_append, mem_candidates]
  constructor
  · rintro (⟨hu, hhint, -⟩ | h)
    · exact ⟨hu, .inl hhint⟩
    · split_ifs at h with hmandatory
      · cases h
      · exact ⟨(mem_candidates.mp h).1, .inr (Bool.eq_false_of_not_eq_true hmandatory)⟩
  · rintro ⟨hu, h⟩
    cases hhint : u.hinted nonce with
    | true => exact .inl ⟨hu, rfl, List.not_mem_nil⟩
    | false =>
      rcases h with h | h
      · rw [hhint] at h
        cases h
      · rw [h]
        refine .inr (mem_candidates.mpr ⟨hu, by simp [hhint], fun hmem => ?_⟩)
        -- the attempted users are hinted
        obtain ⟨v, hv, hid⟩ := List.mem_map.mp hmem
        obtain ⟨hv, -, hhint', -⟩ := mem_cachedCandidates.mp hv
        rw [State.id_inj hv hu hid, hhint] at hhint'
        cases hhint'

theorem nodup_allCandidates {nonce : Nonce} {ids : List UInt32} {hintMandatory : Bool} :
    (allCandidates state nonce ids hintMandatory).Nodup := by
  unfold allCandidates
  refine List.nodup_append'.mpr ⟨nodup_candidates, ?_, ?_⟩
  · split_ifs
    · exact List.nodup_nil
    · exact nodup_candidates
  · intro u hu hu'
    split_ifs at hu'
    · cases hu'
    · have hhint := (mem_candidates.mp hu).2.1
      have hother := (mem_candidates.mp hu').2.1
      simp only [hhint] at hother
      cases hother

end Candidates

/-! ## What discovery amounts to -/

/-- Everybody the nonce hints at is tried, then everybody else if hints are optional. -/
def plainScan (tryDecrypt : Decryptors) (state : State) (encryptedMeta : List UInt8)
    (nonce : Nonce) (hintMandatory : Bool) : Option Discovery :=
  (state.users.filter (fun user => user.hinted nonce) ++
    if hintMandatory then [] else state.users.filter fun user => !user.hinted nonce).findSome?
    (tryUser tryDecrypt encryptedMeta)

def State.withoutCache (state : State) : State := { state with cache := none }

/-- `tryState` is the plain scan up to the order of equals. -/
structure LikePlainScan (tryDecrypt : Decryptors) (state : State) (encryptedMeta : List UInt8)
    (nonce : Nonce) (source : Source) (hintMandatory : Bool) : Prop where
  found_iff : (tryState tryDecrypt state encryptedMeta nonce source hintMandatory).found.isSome =
    (plainScan tryDecrypt state encryptedMeta nonce hintMandatory).isSome
  hint_wins : ∀ user ∈ state.users, user.hinted nonce = true →
    (tryDecrypt user encryptedMeta).isSome →
    ∃ winner ∈ state.users, winner.hinted nonce = true ∧ ∃ discovery,
      tryUser tryDecrypt encryptedMeta winner = some discovery ∧
      (tryState tryDecrypt state encryptedMeta nonce source hintMandatory).found.map Prod.fst =
        some discovery
  unique : (∀ u ∈ state.users, ∀ v ∈ state.users, (tryDecrypt u encryptedMeta).isSome →
      (tryDecrypt v encryptedMeta).isSome → u = v) →
    (tryState tryDecrypt state encryptedMeta nonce source hintMandatory).found.map Prod.fst =
      (tryState tryDecrypt state.withoutCache encryptedMeta nonce source
        hintMandatory).found.map Prod.fst
  tried_once : (tryState tryDecrypt state encryptedMeta nonce source hintMandatory).tried.Nodup

section Equivalence

variable {tryDecrypt : Decryptors} {state : State} {encryptedMeta : List UInt8} {nonce : Nonce}
  {hintMandatory : Bool}

theorem mem_plain {u : RegistryUser} :
    (u ∈ state.users.filter (fun user => user.hinted nonce) ++
      if hintMandatory then [] else state.users.filter fun user => !user.hinted nonce) ↔
      u ∈ state.users ∧ (u.hinted nonce = true ∨ hintMandatory = false) := by
  cases hintMandatory with
  | true => simp
  | false => cases hhint : u.hinted nonce <;> simp [hhint]

theorem isSome_tryUser (user : RegistryUser) :
    (tryUser tryDecrypt encryptedMeta user).isSome = (tryDecrypt user encryptedMeta).isSome := by
  rw [tryUser, Option.isSome_map]

theorem tryState_found (source : Source) :
    (tryState tryDecrypt state encryptedMeta nonce source hintMandatory).found.map Prod.fst =
      (allCandidates state nonce (state.lookup source).val hintMandatory).findSome?
        (tryUser tryDecrypt encryptedMeta) :=
  ((tryState_scans tryDecrypt state encryptedMeta nonce source hintMandatory).1).trans
    (scan_fst _ _)

theorem findSome?_hinted {ids : List UInt32} {user : RegistryUser} (hmem : user ∈ state.users)
    (hhint : user.hinted nonce = true) (hopen : (tryDecrypt user encryptedMeta).isSome) :
    ∃ winner ∈ state.users, winner.hinted nonce = true ∧ ∃ discovery,
      tryUser tryDecrypt encryptedMeta winner = some discovery ∧
      (allCandidates state nonce ids hintMandatory).findSome? (tryUser tryDecrypt encryptedMeta) =
        some discovery := by
  have hcandidate : user ∈ candidates state (fun user => user.hinted nonce) ids [] :=
    mem_candidates.mpr ⟨hmem, hhint, List.not_mem_nil⟩
  have hsome := List.findSome?_isSome_iff.mpr
    ⟨user, hcandidate, (isSome_tryUser user).trans hopen⟩
  obtain ⟨discovery, hfound⟩ := Option.isSome_iff_exists.mp hsome
  obtain ⟨winner, hwinner, htry⟩ := List.exists_of_findSome?_eq_some hfound
  obtain ⟨hw, hwhint, -⟩ := mem_candidates.mp hwinner
  refine ⟨winner, hw, hwhint, discovery, htry, ?_⟩
  rw [allCandidates, List.findSome?_append, hfound]
  rfl

end Equivalence

/-- Whatever the cache says, discovery finds who the plain scan finds, prefers the hinted
users and tries nobody twice. -/
theorem tryState_like_plainScan (tryDecrypt : Decryptors) (state : State)
    (encryptedMeta : List UInt8) (nonce : Nonce) (source : Source) (hintMandatory : Bool) :
    LikePlainScan tryDecrypt state encryptedMeta nonce source hintMandatory := by
  constructor
  · rw [← Option.isSome_map (f := Prod.fst), tryState_found, plainScan]
    exact findSome?_isSome_congr fun u => mem_allCandidates.trans mem_plain.symm
  · intro user hmem hhint hopen
    rw [tryState_found]
    exact findSome?_hinted hmem hhint hopen
  · intro hunique
    rw [tryState_found, tryState_found]
    apply findSome?_congr
    · intro u
      have hwithout : u ∈ allCandidates state.withoutCache nonce
          (state.withoutCache.lookup source).val hintMandatory ↔
          u ∈ state.users ∧ (u.hinted nonce = true ∨ hintMandatory = false) := mem_allCandidates
      exact mem_allCandidates.trans hwithout.symm
    · intro u hu v hv hopen hopen'
      rw [isSome_tryUser] at hopen hopen'
      rw [hunique u (mem_allCandidates.mp hu).1 v (mem_allCandidates.mp hv).1 hopen hopen']
  · rw [(tryState_scans tryDecrypt state encryptedMeta nonce source hintMandatory).2]
    exact nodup_allCandidates.sublist (scan_snd_sublist _ _)

end Mieru.ServerUser
