import Mathlib.Data.List.DropRight
import Mathlib.Logic.Function.Basic
import Mieru.ServerUser.Registry

/-! # The table of a source cache

The table says with which users an address was seen. A bucket has four ways, each for the entry
of one address, and an entry has a slot for each of sixteen users. What was not seen for ten
minutes counts as absent and stays where it is until the place is needed. -/
namespace Mieru.ServerUser

def sourceUserCacheLifeSeconds : UInt32 := 10 * 60
def sourceUserCacheBucketCount : ℕ := 4096
def sourceUserCacheWays : ℕ := 4
def sourceUserCacheLockStripes : ℕ := 256

abbrev SourceKey := Vector UInt8 16
abbrev Bucket := Fin sourceUserCacheBucketCount
abbrev Way := Fin sourceUserCacheWays

theorem bucketCount_pos : 0 < sourceUserCacheBucketCount := by decide

def firstBucket (_ : SourceKey) : Bucket := ⟨0, bucketCount_pos⟩

def sourceUserCachePackUser (userID tick : UInt32) : UInt64 :=
  userID.toUInt64 <<< 32 ||| tick.toUInt64

def sourceUserCacheUnpackUser (packed : UInt64) : UInt32 × UInt32 :=
  ((packed >>> 32).toUInt32, packed.toUInt32)

def sourceUserCacheAge (now seen : UInt32) : UInt32 := now - seen

def sourceUserCacheExpired (now seen : UInt32) : Bool :=
  sourceUserCacheLifeSeconds ≤ sourceUserCacheAge now seen

structure Entry where
  key : SourceKey
  lastActive : UInt32
  users : Vector UInt64 sourceUserCacheUsers

/-- Entries are known by their number in the order of allocation. -/
structure Table where
  entries : List Entry
  ways : Bucket → Way → Option ℕ

def Table.empty : Table := ⟨[], fun _ _ => none⟩

/-! ## Lookup -/

structure Candidate where
  id : UInt32
  age : UInt32

/-- A user may occupy more than one slot; the youngest counts. -/
def addCandidate (candidates : List Candidate) (userID age : UInt32) : List Candidate :=
  match candidates.findIdx? fun candidate => candidate.id = userID with
  | some duplicate =>
    candidates.modify duplicate fun candidate =>
      if age < candidate.age then { candidate with age := age } else candidate
  | none => candidates ++ [⟨userID, age⟩]

def slotCandidates (now : UInt32) : List UInt64 → List Candidate → List Candidate
  | [], candidates => candidates
  | packed :: slots, candidates =>
    let (userID, seen) := sourceUserCacheUnpackUser packed
    if userID = 0 ∨ sourceUserCacheExpired now seen then slotCandidates now slots candidates
    else
      slotCandidates now slots (addCandidate candidates userID (sourceUserCacheAge now seen))

/-- Older candidates at the end are moved up by one. -/
def insertCandidate (sorted : List Candidate) (candidate : Candidate) : List Candidate :=
  let older := fun c : Candidate => decide (candidate.age < c.age)
  sorted.rdropWhile older ++ candidate :: sorted.rtakeWhile older

def lookupResult (now : UInt32) (slots : List UInt64) : List UInt32 :=
  ((slotCandidates now slots []).foldl insertCandidate []).map Candidate.id

/-! ## Recording -/

structure SlotScan where
  same : Option ℕ := none
  empty : Option ℕ := none
  expired : Option ℕ := none
  oldest : Option ℕ := none
  oldestAge : UInt32 := 0

def SlotScan.add (userID now : UInt32) (scan : SlotScan) (slot : UInt64 × ℕ) : SlotScan :=
  let (id, seen) := sourceUserCacheUnpackUser slot.1
  if id = userID ∧ scan.same = none then { scan with same := some slot.2 }
  else if id = 0 ∧ scan.empty = none then { scan with empty := some slot.2 }
  else if id ≠ 0 ∧ sourceUserCacheExpired now seen ∧ scan.expired = none then
    { scan with expired := some slot.2 }
  else if id ≠ 0 ∧ ¬ sourceUserCacheExpired now seen then
    let age := sourceUserCacheAge now seen
    if scan.oldest = none ∨ scan.oldestAge < age then
      { scan with oldest := some slot.2, oldestAge := age }
    else scan
  else scan

def SlotScan.slot (scan : SlotScan) : Option ℕ :=
  scan.same <|> scan.empty <|> scan.expired <|> scan.oldest

def findSlot (userID now : UInt32) (slots : List UInt64) : Option ℕ :=
  (slots.zipIdx.foldl (SlotScan.add userID now) {}).slot

theorem SlotScan.slot_isSome {scan : SlotScan} :
    scan.slot.isSome = true ↔
      scan.same ≠ none ∨ scan.empty ≠ none ∨ scan.expired ≠ none ∨ scan.oldest ≠ none := by
  simp [SlotScan.slot, Option.isSome_iff_ne_none]

theorem SlotScan.add_slot (userID now : UInt32) (scan : SlotScan) (slot : UInt64 × ℕ) :
    (scan.add userID now slot).slot.isSome = true := by
  rw [SlotScan.slot_isSome]
  unfold SlotScan.add
  simp only
  split_ifs with hsame hempty hexpired hlive holdest
  · simp
  · simp
  · simp
  · simp
  · exact Or.inr (Or.inr (Or.inr (not_or.mp holdest).1))
  · by_cases hid : (sourceUserCacheUnpackUser slot.1).1 = 0
    · exact Or.inr (Or.inl fun hnone => hempty ⟨hid, hnone⟩)
    · have hold := not_not.mp fun hlives => hlive ⟨hid, hlives⟩
      exact Or.inr (Or.inr (Or.inl fun hnone => hexpired ⟨hid, hold, hnone⟩))

theorem SlotScan.foldl_slot {userID now : UInt32} (slots : List (UInt64 × ℕ)) {scan : SlotScan}
    (h : scan.slot.isSome = true) :
    (slots.foldl (SlotScan.add userID now) scan).slot.isSome = true := by
  induction slots generalizing scan with
  | nil => exact h
  | cons slot slots ih => exact ih (scan.add_slot userID now slot)

theorem findSlot_isSome {userID now : UInt32} {slots : List UInt64} (h : slots ≠ []) :
    (findSlot userID now slots).isSome = true := by
  cases slots with
  | nil => exact absurd rfl h
  | cons packed slots =>
    rw [findSlot, List.zipIdx_cons, List.foldl_cons]
    exact SlotScan.foldl_slot _ (SlotScan.add_slot userID now _ _)

def Entry.userSlot (entry : Entry) (userID now : UInt32) : ℕ :=
  have hslots : entry.users.toList ≠ [] :=
    List.ne_nil_of_length_pos (by rw [Vector.length_toList]; decide)
  (findSlot userID now entry.users.toList).get (findSlot_isSome hslots)

/-- `recordUser` up to its statistics. No other writer has the lock, so the slot is as it was read
when it is swapped. -/
def recordUser (userID now : UInt32) (entry : Entry) : Entry :=
  if (entry.users[entry.userSlot userID now]?).any fun old =>
      sourceUserCacheUnpackUser old = (userID, now) then entry
  else
    { entry with
      users := entry.users.setIfInBounds (entry.userSlot userID now)
        (sourceUserCachePackUser userID now) }

def selectSourceUserCacheWay (ways : Way → Option Entry) (now : UInt32) : Way :=
  let all : List Way := List.finRange sourceUserCacheWays
  match all.find? fun way => (ways way).isNone with
  | some way => way
  | none =>
    match all.find? fun way => (ways way).any fun e => sourceUserCacheExpired now e.lastActive with
    | some way => way
    | none =>
      let age := fun way => sourceUserCacheAge now ((ways way).elim 0 Entry.lastActive)
      all.tail.foldl (fun oldest way => if age oldest < age way then way else oldest)
        ⟨0, by decide⟩

def Table.entryAt (table : Table) (bucket : Bucket) (way : Way) : Option Entry :=
  (table.ways bucket way).bind fun n => table.entries[n]?

def Table.find (table : Table) (bucket : Bucket) (key : SourceKey) : Option ℕ :=
  (List.finRange sourceUserCacheWays).findSome? fun way =>
    if (table.entryAt bucket way).any fun entry => entry.key = key then table.ways bucket way
    else none

def newEntry (key : SourceKey) (userID now : UInt32) : Entry where
  key := key
  lastActive := now
  users := (Vector.replicate sourceUserCacheUsers 0).set 0 (sourceUserCachePackUser userID now)
    (by decide)

/-- `recordAuthenticatedInTable` under the lock, up to the refresh of the entry that it
returns. -/
def Table.record (table : Table) (bucket : Bucket) (key : SourceKey) (userID now : UInt32) :
    Table × Option ℕ :=
  match table.find bucket key with
  | some n => ({ table with entries := table.entries.modify n (recordUser userID now) }, some n)
  | none =>
    let way := selectSourceUserCacheWay (table.entryAt bucket) now
    let ways := Function.update (table.ways bucket) way (some table.entries.length)
    ({ entries := table.entries ++ [newEntry key userID now]
       ways := Function.update table.ways bucket ways }, none)

def Table.refresh (table : Table) (n : ℕ) (now : UInt32) : Table :=
  { table with entries := table.entries.modify n fun entry => { entry with lastActive := now } }

/-! ## Where the IDs come from -/

theorem unpack_pack (userID tick : UInt32) :
    sourceUserCacheUnpackUser (sourceUserCachePackUser userID tick) = (userID, tick) := by
  have hid := userID.toNat_lt
  have htick := tick.toNat_lt
  have hshift : (userID.toUInt64 <<< 32).toNat = 2 ^ 32 * userID.toNat := by
    simp only [UInt64.toNat_shiftLeft, UInt32.toNat_toUInt64, UInt64.reduceToNat, Nat.reduceMod,
      Nat.shiftLeft_eq]
    omega
  have hpacked : (sourceUserCachePackUser userID tick).toNat =
      2 ^ 32 * userID.toNat + tick.toNat := by
    rw [sourceUserCachePackUser, UInt64.toNat_or, hshift, UInt32.toNat_toUInt64,
      Nat.two_pow_add_eq_or_of_lt htick]
  refine Prod.ext (UInt32.toNat_inj.mp ?_) (UInt32.toNat_inj.mp ?_)
  · simp only [sourceUserCacheUnpackUser, UInt64.toNat_toUInt32, UInt64.toNat_shiftRight, hpacked,
      UInt64.reduceToNat, Nat.reduceMod, Nat.shiftRight_eq_div_pow]
    omega
  · simp only [sourceUserCacheUnpackUser, UInt64.toNat_toUInt32, hpacked]
    omega

theorem insertCandidate_perm (sorted : List Candidate) (candidate : Candidate) :
    (insertCandidate sorted candidate).Perm (candidate :: sorted) := by
  unfold insertCandidate
  refine List.perm_middle.trans ?_
  rw [List.rdropWhile_append_rtakeWhile]

theorem sortCandidates_perm (candidates sorted : List Candidate) :
    (candidates.foldl insertCandidate sorted).Perm (sorted ++ candidates) := by
  induction candidates generalizing sorted with
  | nil => simp
  | cons candidate candidates ih =>
    refine (ih _).trans ?_
    refine ((insertCandidate_perm sorted candidate).append_right candidates).trans ?_
    exact List.perm_middle.symm

theorem addCandidate_spec (candidates : List Candidate) (userID age : UInt32) :
    (addCandidate candidates userID age).length ≤ candidates.length + 1 ∧
      ∀ c ∈ addCandidate candidates userID age,
        c.id = userID ∨ ∃ old ∈ candidates, old.id = c.id := by
  unfold addCandidate
  split
  · rename_i duplicate _
    refine ⟨by simp, ?_⟩
    intro c hc
    obtain ⟨i, hi⟩ := List.mem_iff_getElem?.mp hc
    rw [List.getElem?_modify] at hi
    obtain ⟨old, hold, rfl⟩ := Option.map_eq_some_iff.mp hi
    refine Or.inr ⟨old, List.mem_of_getElem? hold, ?_⟩
    split_ifs <;> rfl
  · refine ⟨by simp, ?_⟩
    intro c hc
    rcases List.mem_append.mp hc with hc | hc
    · exact Or.inr ⟨c, hc, rfl⟩
    · cases List.mem_singleton.mp hc
      exact Or.inl rfl

theorem slotCandidates_spec (now : UInt32) (slots : List UInt64) (candidates : List Candidate) :
    (slotCandidates now slots candidates).length ≤ candidates.length + slots.length ∧
      ∀ c ∈ slotCandidates now slots candidates, (∃ old ∈ candidates, old.id = c.id) ∨
        c.id ≠ 0 ∧ ∃ packed ∈ slots, (sourceUserCacheUnpackUser packed).1 = c.id := by
  induction slots generalizing candidates with
  | nil => exact ⟨Nat.le_refl _, fun c hc => Or.inl ⟨c, hc, rfl⟩⟩
  | cons packed slots ih =>
    unfold slotCandidates
    simp only
    split_ifs with hskip
    · obtain ⟨hlen, hids⟩ := ih candidates
      refine ⟨by rw [List.length_cons]; omega, ?_⟩
      intro c hc
      refine (hids c hc).imp_right fun ⟨hne, old, hold, hid⟩ => ?_
      exact ⟨hne, old, List.mem_cons_of_mem _ hold, hid⟩
    · have hne := (not_or.mp hskip).1
      obtain ⟨hadded, hsource⟩ := addCandidate_spec candidates
        (sourceUserCacheUnpackUser packed).1
        (sourceUserCacheAge now (sourceUserCacheUnpackUser packed).2)
      obtain ⟨hlen, hids⟩ := ih (addCandidate candidates (sourceUserCacheUnpackUser packed).1
        (sourceUserCacheAge now (sourceUserCacheUnpackUser packed).2))
      refine ⟨by rw [List.length_cons]; omega, ?_⟩
      intro c hc
      rcases hids c hc with ⟨old, hold, hid⟩ | ⟨hne, old, hold, hid⟩
      · rcases hsource old hold with hnew | ⟨older, holder, heq⟩
        · rw [hid] at hnew
          exact Or.inr ⟨hnew ▸ hne, packed, List.mem_cons_self, hnew.symm⟩
        · exact Or.inl ⟨older, holder, heq.trans hid⟩
      · exact Or.inr ⟨hne, old, List.mem_cons_of_mem _ hold, hid⟩

theorem length_lookupResult (now : UInt32) (slots : List UInt64) :
    (lookupResult now slots).length ≤ slots.length := by
  have hlen := (slotCandidates_spec now slots []).1
  rw [lookupResult, List.length_map, (sortCandidates_perm _ []).length_eq]
  simpa using hlen

theorem mem_lookupResult {now id : UInt32} {slots : List UInt64}
    (h : id ∈ lookupResult now slots) :
    id ≠ 0 ∧ ∃ packed ∈ slots, (sourceUserCacheUnpackUser packed).1 = id := by
  obtain ⟨c, hc, rfl⟩ := List.mem_map.mp h
  have hmem := (sortCandidates_perm _ []).mem_iff.mp hc
  rcases (slotCandidates_spec now slots []).2 c hmem with ⟨old, hold, -⟩ | hslot
  · cases hold
  · exact hslot

def Entry.Holds (entry : Entry) (P : UInt32 → Prop) : Prop :=
  ∀ (i : ℕ) packed, entry.users[i]? = some packed → (sourceUserCacheUnpackUser packed).1 ≠ 0 →
    P (sourceUserCacheUnpackUser packed).1

def Table.Holds (table : Table) (P : SourceKey → UInt32 → Prop) : Prop :=
  ∀ (n : ℕ) entry, table.entries[n]? = some entry → entry.Holds (P entry.key)

def Table.Keeps (table later : Table) : Prop :=
  ∀ (n : ℕ) entry, table.entries[n]? = some entry →
    ∃ entry', later.entries[n]? = some entry' ∧ entry'.key = entry.key

variable {table : Table} {P Q : SourceKey → UInt32 → Prop} {bucket : Bucket} {key : SourceKey}
  {userID now : UInt32}

theorem Table.keeps_refl (table : Table) : table.Keeps table :=
  fun _ entry hentry => ⟨entry, hentry, rfl⟩

theorem Table.holds_empty : Table.empty.Holds P := by
  intro n entry hentry
  cases hentry

theorem Table.Holds.mono (h : table.Holds P) (hPQ : ∀ key id, P key id → Q key id) :
    table.Holds Q :=
  fun n entry hentry i packed hpacked hne => hPQ _ _ (h n entry hentry i packed hpacked hne)

theorem recordUser_key (userID now : UInt32) (entry : Entry) :
    (recordUser userID now entry).key = entry.key := by
  unfold recordUser
  split_ifs <;> rfl

theorem Entry.Holds.recordUser {entry : Entry} {P : UInt32 → Prop} (h : entry.Holds P)
    (hnew : P userID) : (recordUser userID now entry).Holds P := by
  unfold ServerUser.recordUser
  split_ifs
  · exact h
  · intro i packed hpacked hne
    simp only [Vector.getElem?_setIfInBounds] at hpacked
    split_ifs at hpacked
    · cases hpacked
      rw [unpack_pack]
      exact hnew
    · exact h i packed hpacked hne

theorem newEntry_holds {P : UInt32 → Prop} (hnew : P userID) :
    (newEntry key userID now).Holds P := by
  intro i packed hpacked hne
  simp only [newEntry, Vector.getElem?_set] at hpacked
  split_ifs at hpacked
  · cases hpacked
    rw [unpack_pack]
    exact hnew
  · rw [Vector.getElem?_replicate] at hpacked
    split_ifs at hpacked
    cases hpacked
    exact absurd rfl hne

theorem Table.modify_keeps {n : ℕ} {f : Entry → Entry} (hf : ∀ entry, (f entry).key = entry.key) :
    table.Keeps { table with entries := table.entries.modify n f } := by
  intro m entry hentry
  refine ⟨if n = m then f entry else entry, by simp [List.getElem?_modify, hentry], ?_⟩
  split_ifs
  · exact hf entry
  · rfl

theorem Table.Holds.modify {n : ℕ} {f : Entry → Entry} (h : table.Holds P)
    (hkey : ∀ entry, (f entry).key = entry.key)
    (hf : ∀ entry, table.entries[n]? = some entry → (f entry).Holds (P entry.key)) :
    Table.Holds { table with entries := table.entries.modify n f } P := by
  intro m entry' hentry'
  change (table.entries.modify n f)[m]? = some entry' at hentry'
  rw [List.getElem?_modify] at hentry'
  obtain ⟨entry, hentry, rfl⟩ := Option.map_eq_some_iff.mp hentry'
  split_ifs with hm
  · subst hm
    rw [hkey]
    exact hf entry hentry
  · exact h m entry hentry

theorem Table.key_of_find {n : ℕ} {entry : Entry} (hfind : table.find bucket key = some n)
    (hentry : table.entries[n]? = some entry) : entry.key = key := by
  obtain ⟨way, -, hway⟩ := List.exists_of_findSome?_eq_some hfind
  split_ifs at hway with hkey
  rw [Table.entryAt, hway, Option.bind_some, hentry] at hkey
  simpa using hkey

theorem Table.record_keeps : table.Keeps (table.record bucket key userID now).1 := by
  unfold Table.record
  split
  · exact Table.modify_keeps (recordUser_key userID now)
  · intro n entry hentry
    have hlt := (List.getElem?_eq_some_iff.mp hentry).1
    exact ⟨entry, (List.getElem?_append_left hlt).trans hentry, rfl⟩

theorem Table.Holds.record (h : table.Holds P) (hnew : P key userID) :
    (table.record bucket key userID now).1.Holds P := by
  unfold Table.record
  split
  · rename_i n hfind
    refine h.modify (recordUser_key userID now) ?_
    intro entry hentry
    have hkey := Table.key_of_find hfind hentry
    exact (h n entry hentry).recordUser (hkey ▸ hnew)
  · intro n entry hentry
    change (table.entries ++ [_])[n]? = some entry at hentry
    rw [List.getElem?_append] at hentry
    split_ifs at hentry
    · exact h n entry hentry
    · obtain rfl := List.mem_singleton.mp (List.mem_of_getElem? hentry)
      exact newEntry_holds hnew

theorem Table.refresh_keeps {n : ℕ} : table.Keeps (table.refresh n now) :=
  Table.modify_keeps fun _ => rfl

theorem Table.Holds.refresh {n : ℕ} (h : table.Holds P) : (table.refresh n now).Holds P :=
  h.modify (fun _ => rfl) fun entry hentry => h n entry hentry

end Mieru.ServerUser
