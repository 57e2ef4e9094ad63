import Mieru.Lib.Machine
import Mieru.ServerUser.Compile
import Mieru.ServerUser.SourceCache

/-! # Reloading the users

`SetUsers` publishes a new generation of users and then retires the source cache of the old one.
Calls of `Discover` and `Record` run at the same time and share the published pointer and the
caches of the generations. One step of a call is one access to what is shared. A writer of a
cache bucket has a lock, so what it reads there and its next write are one step. -/
namespace Mieru.ServerUser.Reload

open Cipher

structure SourceUserCache where
  table : Table := .empty
  /-- The pointer to the table was swapped for nil. -/
  retired : Bool := false
  bucketLocks : Fin sourceUserCacheLockStripes → Bool := fun _ => false

structure Generation where
  config : UserMap
  cache : SourceUserCache := {}

def Generation.state (generation : Generation) (ids : CachedIDs) : ServerUser.State where
  users := generation.config.compile.users
  cache := some fun _ => ids
  dense := generation.config.compile.dense

abbrev Found := Discovery × MatchOrigin

/-- `SetBlockContext`. -/
def named (found : Discovery) : Discovery :=
  { found with
    block := ⟨{ found.block.val with userName := found.userName }, found.stateless⟩ }

inductive Lookup where
  | table
  | way (now : UInt32) (way : ℕ)
  | lastActive (now : UInt32) (entry : ℕ)
  | slots (now : UInt32) (entry : ℕ) (read : List UInt64)

/-- Where a call of `Discover` is. Generations are known by their number. -/
inductive DiscoverStage where
  | load
  | hint (generation : ℕ)
  | lookup (generation : ℕ) (mandatory : Bool) (lookup : Lookup)
  | trying (generation : ℕ) (mandatory : Bool) (cachedIDs : CachedIDs)
  | tried (generation : ℕ) (result : Option Found)
  | current (generation : ℕ) (found : Found)
  | returned (result : Except String (ℕ × Discovery))

structure DiscoverCall where
  encryptedMetadata : List UInt8
  source : Source
  requireCurrent : Bool
  stage : DiscoverStage

structure Authentication where
  userID : UInt32
  policy : Policy
  origin : MatchOrigin
  generation : Option ℕ
  source : Source

def Authentication.valid (a : Authentication) : Bool := a.userID ≠ 0 && a.generation.isSome

inductive RecordStage where
  | table
  | lock
  | write
  | refresh (entry : ℕ) (now : UInt32)
  | unlock
  | returned (written : Bool)

/-- An entry that was there is marked as active next. -/
def RecordStage.afterWrite (found : Option ℕ) (now : UInt32) : RecordStage :=
  match found with
  | some entry => .refresh entry now
  | none => .unlock

structure RecordCall where
  generation : ℕ
  source : Source
  userID : UInt32
  stage : RecordStage

structure State where
  generations : List Generation := []
  published : Option ℕ := none
  hintMandatory : Bool := false
  /-- Calls of `SetUsers` that have the generation to retire. -/
  retiring : List ℕ := []
  discovers : List DiscoverCall := []
  authentications : List Authentication := []
  records : List RecordCall := []

inductive Event where
  | setUsers (users : UserMap)
  | retire (generation : ℕ)
  | setHintMandatory (mandatory : Bool)
  | discover (encryptedMetadata : List UInt8) (source : Source) (requireCurrent : Bool)
  /-- The clock and the decryptors are those of the moment. -/
  | discoverStep (n : ℕ) (tick : UInt32) (tryDecrypt : Decryptors)
  | copy (authentication : ℕ)
  | record (authentication : ℕ)
  | recordStep (n : ℕ) (tick : UInt32)

def State.toDiscover (s : State) (n : ℕ) (stage : DiscoverStage) : State :=
  { s with discovers := s.discovers.modify n fun c => { c with stage } }

def State.toRecord (s : State) (n : ℕ) (stage : RecordStage) : State :=
  { s with records := s.records.modify n fun r => { r with stage } }

def State.setCache (s : State) (g : ℕ) (cache : SourceUserCache) : State :=
  { s with generations := s.generations.modify g fun generation => { generation with cache } }

def noIDs : CachedIDs := ⟨[], Nat.zero_le _⟩

section Step

-- the hash that gives a key its bucket has a random seed
variable (bucketIndex : SourceKey → Bucket)

def lockStripe (key : SourceKey) : Fin sourceUserCacheLockStripes :=
  ⟨(bucketIndex key).val % sourceUserCacheLockStripes, Nat.mod_lt _ (by decide)⟩

def lookupStep (cache : SourceUserCache) (key : SourceKey) (tick : UInt32) :
    Lookup → Option (Lookup ⊕ CachedIDs)
  | .table => if cache.retired then some (.inr noIDs) else some (.inl (.way tick 0))
  | .way now way =>
    if hway : way < sourceUserCacheWays then
      match cache.table.ways (bucketIndex key) ⟨way, hway⟩ with
      | none => some (.inl (.way now (way + 1)))
      | some n =>
        (cache.table.entries[n]?).map fun entry =>
          if entry.key ≠ key then .inl (.way now (way + 1)) else .inl (.lastActive now n)
    else some (.inr noIDs)
  | .lastActive now n =>
    (cache.table.entries[n]?).map fun entry =>
      if sourceUserCacheExpired now entry.lastActive then .inr noIDs else .inl (.slots now n [])
  | .slots now n read =>
    if hread : read.length = sourceUserCacheUsers then
      some (.inr ⟨lookupResult now read, (length_lookupResult now read).trans_eq hread⟩)
    else
      (cache.table.entries[n]?).bind fun entry =>
        (entry.users[read.length]?).map fun packed => .inl (.slots now n (read ++ [packed]))

def discoverStep (s : State) (n : ℕ) (c : DiscoverCall) (tick : UInt32)
    (tryDecrypt : Decryptors) : Option State :=
  match c.stage with
  | .load =>
    match s.published with
    | none => some (s.toDiscover n (.returned (.error "no server user found")))
    | some g =>
      (s.generations[g]?).map fun generation =>
        if generation.config.compile.users.isEmpty then
          s.toDiscover n (.returned (.error "no server user found"))
        else s.toDiscover n (.hint g)
  | .hint g =>
    if c.source.valid then some (s.toDiscover n (.lookup g s.hintMandatory .table))
    else some (s.toDiscover n (.trying g s.hintMandatory noIDs))
  | .lookup g mandatory lookup =>
    (s.generations[g]?).bind fun generation =>
      (lookupStep bucketIndex generation.cache c.source.key tick lookup).map fun
        | .inl lookup => s.toDiscover n (.lookup g mandatory lookup)
        | .inr ids => s.toDiscover n (.trying g mandatory ids)
  | .trying g mandatory ids =>
    (s.generations[g]?).bind fun generation =>
      match BlockCipher.splitNonce c.encryptedMetadata with
      | .error _ => none
      | .ok (nonce, _) =>
        some (s.toDiscover n (.tried g (tryState tryDecrypt (generation.state ids)
          c.encryptedMetadata nonce c.source mandatory).found))
  | .tried g result =>
    if c.requireCurrent && s.published ≠ some g then some (s.toDiscover n .load)
    else
      match result with
      | none =>
        some (s.toDiscover n (.returned (.error "cipher.TryDecrypt() failed for all users")))
      | some found => some (s.toDiscover n (.current g found))
  | .current g found =>
    let authentication : Authentication :=
      ⟨found.1.userID, found.1.policy, found.2, some g, c.source⟩
    some { s.toDiscover n (.returned (.ok (g, named found.1))) with
      authentications := s.authentications ++ [authentication] }
  | .returned _ => none

def recordStep (s : State) (n : ℕ) (r : RecordCall) (tick : UInt32) : Option State :=
  (s.generations[r.generation]?).bind fun generation =>
    let cache := generation.cache
    let stripe := lockStripe bucketIndex r.source.key
    match r.stage with
    | .table =>
      if cache.retired then some (s.toRecord n (.returned false)) else some (s.toRecord n .lock)
    | .lock =>
      if cache.bucketLocks stripe then none
      else
        let locks := Function.update cache.bucketLocks stripe true
        some ((s.setCache r.generation { cache with bucketLocks := locks }).toRecord n .write)
    | .write =>
      let (table, found) :=
        cache.table.record (bucketIndex r.source.key) r.source.key r.userID tick
      some ((s.setCache r.generation { cache with table }).toRecord n (.afterWrite found tick))
    | .refresh entry now =>
      let table := cache.table.refresh entry now
      some ((s.setCache r.generation { cache with table }).toRecord n .unlock)
    | .unlock =>
      let locks := Function.update cache.bucketLocks stripe false
      some ((s.setCache r.generation { cache with bucketLocks := locks }).toRecord n
        (.returned true))
    | .returned _ => none

def next (s : State) : Event → Option State
  | .setUsers users =>
    some { s with
      generations := s.generations ++ [{ config := users }]
      published := some s.generations.length
      retiring := s.retiring ++ s.published.toList }
  | .retire g =>
    if g ∈ s.retiring then
      (s.generations[g]?).map fun generation =>
        { s.setCache g { generation.cache with retired := true } with
          retiring := s.retiring.erase g }
    else none
  | .setHintMandatory mandatory => some { s with hintMandatory := mandatory }
  | .discover encryptedMetadata source requireCurrent =>
    let stage : DiscoverStage :=
      match BlockCipher.splitNonce encryptedMetadata with
      | .error _ => .returned (.error "encrypted metadata is shorter than nonce")
      | .ok _ => .load
    some { s with
      discovers := s.discovers ++ [⟨encryptedMetadata, source, requireCurrent, stage⟩] }
  | .discoverStep n tick tryDecrypt =>
    (s.discovers[n]?).bind fun c => discoverStep bucketIndex s n c tick tryDecrypt
  | .copy i =>
    (s.authentications[i]?).map fun a => { s with authentications := s.authentications ++ [a] }
  | .record i =>
    (s.authentications[i]?).map fun a =>
      match a.generation with
      | none => s
      | some g =>
        if a.valid then
          let taken := s.authentications.modify i fun a => { a with generation := none }
          let started := if a.source.valid then [⟨g, a.source, a.userID, .table⟩] else []
          { s with authentications := taken, records := s.records ++ started }
        else s
  | .recordStep n tick => (s.records[n]?).bind fun r => recordStep bucketIndex s n r tick

def step (s : State) (e : Event) : Option (State × List Empty) :=
  (next bucketIndex s e).map fun s' => (s', [])

end Step

end Mieru.ServerUser.Reload
