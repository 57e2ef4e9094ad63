import Mathlib.Data.List.Dedup
import Mieru.ServerUser.SourceShelf

/-! # What a source cache remembers

The cache as it is used by one caller after another: which users a lookup finds, told from the
calls before it. Recency is counted in ticks. -/
namespace Mieru.ServerUser

open Recency

/-! ## Histories -/

inductive Op where
  | record (key : SourceKey) (userID : UInt32)
  | lookup (key : SourceKey)
  deriving DecidableEq

structure Call where
  time : ℕ
  op : Op
  deriving DecidableEq

/-- The clock does not run backwards, and not for 2^32 seconds. -/
structure Timed (start : ℕ) (calls : List Call) : Prop where
  sorted : calls.Pairwise fun c d => c.time ≤ d.time
  span : ∀ c ∈ calls, start ≤ c.time ∧ c.time < start + 2 ^ 32

/-- A record of user 0 is ignored. -/
def Op.isRecordOf (key : SourceKey) (userID : UInt32) (op : Op) : Bool :=
  userID ≠ 0 ∧ op = .record key userID

def Op.source : Op → Option SourceKey
  | .record key userID => if userID = 0 then none else some key
  | .lookup _ => none

def lastTime (p : Op → Bool) (calls : List Call) : Option ℕ :=
  (calls.filter fun c => p c.op).getLast?.map Call.time

def lastOfUser (calls : List Call) (key : SourceKey) (userID : UInt32) : Option ℕ :=
  lastTime (Op.isRecordOf key userID) calls

section history

variable (bucketIndex : SourceKey → Bucket)

def lastOfSource (calls : List Call) (bucket : Bucket) (key : SourceKey) : Option ℕ :=
  lastTime (fun op => bucketIndex key = bucket ∧ op.source = some key) calls

def Call.apply (table : Table) (c : Call) : Table :=
  match c.op with
  | .record key userID =>
    table.recordAuthenticated (bucketIndex key) key userID (tickAt c.time)
  | .lookup _ => table

def tableAfter (calls : List Call) : Table := calls.foldl (Call.apply bucketIndex) Table.empty

def liveSources (calls : List Call) (bucket : Bucket) (now : ℕ) : List SourceKey :=
  ((calls.filter fun c => now < c.time + life).filterMap fun c =>
    c.op.source.filter fun key => bucketIndex key = bucket).dedup

def liveUsers (calls : List Call) (key : SourceKey) (now : ℕ) : List UInt32 :=
  ((calls.filter fun c => now < c.time + life).filterMap fun c =>
    match c.op with
    | .record key' userID => if key' = key ∧ userID ≠ 0 then some userID else none
    | .lookup _ => none).dedup

/-- At no time more sources in the bucket of the key, or users of the key, than there are
places. -/
def Uncrowded (calls : List Call) (key : SourceKey) : Prop :=
  ∀ front c, front ++ [c] <+: calls →
    (liveSources bucketIndex (front ++ [c]) (bucketIndex key) c.time).length ≤
      sourceUserCacheWays ∧
    (liveUsers (front ++ [c]) key c.time).length ≤ sourceUserCacheUsers

end history

/-! ## Last times -/

section last

variable {p q : Op → Bool} {calls : List Call} {c : Call} {start t : ℕ}

theorem lastTime_append (p : Op → Bool) (calls : List Call) (c : Call) :
    lastTime p (calls ++ [c]) = if p c.op then some c.time else lastTime p calls := by
  unfold lastTime
  rw [List.filter_append]
  split_ifs with hp
  · simp [hp]
  · simp [hp]

theorem Timed.front (h : Timed start (calls ++ [c])) : Timed start calls :=
  ⟨(List.pairwise_append.mp h.sorted).1, fun d hd => h.span d (List.mem_append_left _ hd)⟩

theorem Timed.le_last (h : Timed start (calls ++ [c])) {d : Call} (hd : d ∈ calls) :
    d.time ≤ c.time :=
  (List.pairwise_append.mp h.sorted).2.2 d hd c (List.mem_singleton_self c)

theorem mem_of_lastTime (h : lastTime p calls = some t) :
    ∃ d ∈ calls, p d.op = true ∧ d.time = t := by
  obtain ⟨d, hd, rfl⟩ := Option.map_eq_some_iff.mp h
  obtain ⟨hmem, hp⟩ := List.mem_filter.mp (List.mem_of_getLast? hd)
  exact ⟨d, hmem, hp, rfl⟩

theorem Timed.lastTime_le (h : Timed start (calls ++ [c])) (hlast : lastTime p calls = some t) :
    t ≤ c.time := by
  obtain ⟨d, hd, -, rfl⟩ := mem_of_lastTime hlast
  exact h.le_last hd

theorem Timed.exists_lastTime (h : Timed start calls) {d : Call} (hd : d ∈ calls)
    (hp : p d.op = true) : ∃ t, lastTime p calls = some t ∧ d.time ≤ t := by
  induction calls using List.reverseRecOn with
  | nil => cases hd
  | append_singleton calls c ih =>
    rw [lastTime_append]
    split_ifs with hc
    · refine ⟨c.time, rfl, ?_⟩
      rcases List.mem_append.mp hd with hd | hd
      · exact h.le_last hd
      · obtain rfl := List.mem_singleton.mp hd
        exact le_rfl
    · rcases List.mem_append.mp hd with hd | hd
      · exact ih h.front hd
      · obtain rfl := List.mem_singleton.mp hd
        exact absurd hp hc

theorem Timed.lastTime_mono (h : Timed start calls) (hpq : ∀ op, p op = true → q op = true)
    (hlast : lastTime p calls = some t) : ∃ u, lastTime q calls = some u ∧ t ≤ u := by
  obtain ⟨d, hd, hp, rfl⟩ := mem_of_lastTime hlast
  exact h.exists_lastTime hd (hpq _ hp)

variable (bucketIndex : SourceKey → Bucket) {key : SourceKey} {userID : UInt32} {time : ℕ}

theorem lastOfSource_record (hid : userID ≠ 0) (bucket : Bucket) :
    lastOfSource bucketIndex (calls ++ [⟨time, .record key userID⟩]) bucket =
      if bucket = bucketIndex key then
        Function.update (lastOfSource bucketIndex calls bucket) key (some time)
      else lastOfSource bucketIndex calls bucket := by
  funext other
  simp only [lastOfSource, lastTime_append, Op.source, hid, if_false, Option.some.injEq,
    decide_eq_true_iff]
  by_cases hother : key = other
  · subst hother
    by_cases hbucket : bucket = bucketIndex key
    · subst hbucket
      simp
    · simp [hbucket, Ne.symm hbucket, lastOfSource]
  · rw [if_neg (fun h => hother h.2)]
    split_ifs
    · rw [Function.update_of_ne (Ne.symm hother)]
      rfl
    · rfl

theorem lastOfUser_record (hid : userID ≠ 0) (other : SourceKey) :
    lastOfUser (calls ++ [⟨time, .record key userID⟩]) other =
      if other = key then Function.update (lastOfUser calls other) userID (some time)
      else lastOfUser calls other := by
  funext id
  simp only [lastOfUser, lastTime_append, Op.isRecordOf, Op.record.injEq, decide_eq_true_iff]
  by_cases hother : other = key
  · subst hother
    rw [if_pos rfl]
    by_cases huser : id = userID
    · subst huser
      simp [hid]
    · rw [if_neg (fun h => huser h.2.2.symm), Function.update_of_ne huser]
      rfl
  · rw [if_neg (fun h => hother h.2.1.symm), if_neg hother]
    rfl

variable {bucketIndex} in
theorem bucket_of_lastOfSource {bucket : Bucket}
    (h : lastOfSource bucketIndex calls bucket key = some t) : bucketIndex key = bucket := by
  obtain ⟨d, -, hd, -⟩ := mem_of_lastTime h
  exact (of_decide_eq_true hd).1

theorem Timed.lastOfUser_le (h : Timed start calls) (hlast : lastOfUser calls key userID = some t) :
    ∃ u, lastOfSource bucketIndex calls (bucketIndex key) key = some u ∧ t ≤ u := by
  refine h.lastTime_mono (fun op hop => ?_) hlast
  obtain ⟨hid, rfl⟩ := of_decide_eq_true hop
  simp [Op.source, hid]

theorem last_silent (calls : List Call) (hsilent : c.op.source = none) :
    (∀ bucket, lastOfSource bucketIndex (calls ++ [c]) bucket =
      lastOfSource bucketIndex calls bucket) ∧
    ∀ key, lastOfUser (calls ++ [c]) key = lastOfUser calls key := by
  constructor
  · intro bucket
    funext key
    simp only [lastOfSource, lastTime_append, hsilent]
    simp
  · intro key
    funext userID
    have hno : ¬ (userID ≠ 0 ∧ c.op = .record key userID) := by
      rintro ⟨hid, hop⟩
      rw [hop, Op.source, if_neg hid] at hsilent
      cases hsilent
    simp only [lastOfUser, lastTime_append, Op.isRecordOf, decide_eq_true_iff]
    rw [if_neg hno]

end last

/-! ## What the shelves hold -/

structure Remembers (bucketIndex : SourceKey → Bucket) (start : ℕ) (calls : List Call)
    (table : Table) : Prop where
  separate : table.Separate
  sources : ∀ bucket, (table.shelf start bucket).Tracks (lastOfSource bucketIndex calls bucket)
  users : ∀ bucket way entry, table.entryAt bucket way = some entry →
    (entry.shelf start).Tracks (lastOfUser calls entry.key)

section step

variable {bucketIndex : SourceKey → Bucket} {start : ℕ} {calls : List Call} {table : Table}
  {c : Call}

theorem remembers_empty : Remembers bucketIndex start [] Table.empty := by
  have hempty (bucket : Bucket) (way : Way) : Table.empty.entryAt bucket way = none := rfl
  refine ⟨⟨?_, ?_⟩, fun bucket => ⟨?_, ?_⟩, ?_⟩
  · intro bucket way n hn
    cases hn
  · intro bucket way bucket' way' n hn
    cases hn
  · intro way way' key t u h
    cases h
  · intro way key t h
    cases h
  · intro bucket way entry h
    cases h

theorem Remembers.notAfter (h : Remembers bucketIndex start calls table)
    (htimed : Timed start (calls ++ [c])) (bucket : Bucket) :
    NotAfter (table.shelf start bucket) c.time ∧
      ∀ way entry, table.entryAt bucket way = some entry → NotAfter (entry.shelf start) c.time :=
  ⟨fun _ _ _ hway => htimed.lastTime_le ((h.sources bucket).seen hway),
    fun way entry hentry _ _ _ hslot =>
      htimed.lastTime_le ((h.users bucket way entry hentry).seen hslot)⟩

structure Recorded (bucketIndex : SourceKey → Bucket) (start : ℕ) (table table' : Table)
    (key : SourceKey) (userID : UInt32) (now : ℕ) (way : Way) (entry : Entry) : Prop where
  key_eq : entry.key = key
  entryAt : ∀ bucket' way', table'.entryAt bucket' way' =
    if bucket' = bucketIndex key ∧ way' = way then some entry else table.entryAt bucket' way'
  choice : (table.shelf start (bucketIndex key)).Choice life now key way
  shelf : ∀ bucket, table'.shelf start bucket =
    if bucket = bucketIndex key then (table.shelf start bucket).put way key now
    else table.shelf start bucket
  users : (∃ old slot, table.entryAt (bucketIndex key) way = some old ∧ old.key = key ∧
      (old.shelf start).Choice life now userID slot ∧
      entry.shelf start = (old.shelf start).put slot userID now) ∨
    (∀ way entry, table.entryAt (bucketIndex key) way = some entry → entry.key ≠ key) ∧
      ∃ slot, entry.shelf start = Shelf.put (fun _ => none) slot userID now

theorem Remembers.recorded (h : Remembers bucketIndex start calls table) {key : SourceKey}
    {userID : UInt32} {now : ℕ} (htimed : Timed start (calls ++ [⟨now, .record key userID⟩]))
    (hid : userID ≠ 0) :
    (Call.apply bucketIndex table ⟨now, .record key userID⟩).Separate ∧
    ∃ way entry, Recorded bucketIndex start table
      (Call.apply bucketIndex table ⟨now, .record key userID⟩) key userID now way entry := by
  obtain ⟨hstart, hspan⟩ := htimed.span ⟨now, .record key userID⟩ (by simp)
  obtain ⟨hpast, hpastUsers⟩ := h.notAfter htimed (bucketIndex key)
  obtain ⟨hseparate, way, entry, hat, hentryAt⟩ :=
    h.separate.recordAuthenticated (bucketIndex key) key (tickAt now) hid
  refine ⟨hseparate, way, entry, hat.of_key.1, hentryAt, hat.choice hspan hpast, ?_,
    hat.users hid hstart hspan hpastUsers⟩
  intro bucket
  funext way'
  have htick := timeOf_tickAt hstart hspan
  simp only [Table.shelf, Call.apply, hentryAt]
  by_cases hbucket : bucket = bucketIndex key
  · rw [if_pos hbucket]
    by_cases hway : way' = way
    · rw [if_pos ⟨hbucket, hway⟩, hway, Shelf.put_self, Option.map_some, hat.of_key.1,
        hat.of_key.2, htick]
    · rw [if_neg (fun hhere => hway hhere.2), Shelf.put_of_ne hway]
      rfl
  · rw [if_neg (fun hhere => hbucket hhere.1), if_neg hbucket]
    rfl

section

variable {table' : Table} {key : SourceKey} {userID : UInt32} {now : ℕ} {way : Way} {entry : Entry}

theorem Recorded.key_ne (hr : Recorded bucketIndex start table table' key userID now way entry)
    (h : Remembers bucketIndex start calls table) {bucket : Bucket} {way' : Way} {entry' : Entry}
    (hentry' : table.entryAt bucket way' = some entry')
    (hhere : ¬ (bucket = bucketIndex key ∧ way' = way)) : entry'.key ≠ key := by
  intro hkey
  have hshelf : table.shelf start bucket way' = some (key, _) :=
    Table.shelf_eq_some.mpr ⟨entry', hentry', hkey, rfl⟩
  obtain rfl := bucket_of_lastOfSource ((h.sources bucket).seen hshelf)
  exact hhere ⟨rfl, hr.choice.apart (h.sources _) hshelf⟩

theorem Recorded.remembers (hr : Recorded bucketIndex start table table' key userID now way entry)
    (hseparate : table'.Separate) (h : Remembers bucketIndex start calls table)
    (hid : userID ≠ 0) :
    Remembers bucketIndex start (calls ++ [⟨now, .record key userID⟩]) table' where
  separate := hseparate
  sources := by
    intro bucket
    rw [hr.shelf, lastOfSource_record bucketIndex hid]
    split_ifs with hbucket
    · subst hbucket
      exact (h.sources _).put hr.choice
    · exact h.sources bucket
  users := by
    intro bucket way' entry' hentry'
    rw [hr.entryAt] at hentry'
    rw [lastOfUser_record hid]
    split_ifs at hentry' with hhere
    · cases hentry'
      rw [if_pos hr.key_eq]
      rcases hr.users with ⟨old, slot, hold, hkey, hchoice, hshelf⟩ | ⟨-, slot, hshelf⟩
      · rw [hshelf]
        have htracks := h.users _ _ _ hold
        rw [hkey, ← hr.key_eq] at htracks
        exact htracks.put hchoice
      · rw [hshelf]
        exact Shelf.tracks_put_empty
    · rw [if_neg (hr.key_ne h hentry' hhere)]
      exact h.users bucket way' entry' hentry'

/-- A live source or user gives way only where there is no place left, and only as the
oldest. -/
def SparesRecent (start now : ℕ) (table table' : Table) : Prop :=
  (∀ bucket, (table.shelf start bucket).Spares (table'.shelf start bucket) life now) ∧
  ∀ bucket way entry entry', table.entryAt bucket way = some entry →
    table'.entryAt bucket way = some entry' → entry'.key = entry.key →
    (entry.shelf start).Spares (entry'.shelf start) life now

theorem Recorded.spares (hr : Recorded bucketIndex start table table' key userID now way entry) :
    SparesRecent start now table table' := by
  constructor
  · intro bucket
    rw [hr.shelf]
    split_ifs with hbucket
    · subst hbucket
      exact hr.choice.spares
    · exact Shelf.spares_refl _
  · intro bucket way' old new hold hnew hkey
    rw [hr.entryAt] at hnew
    split_ifs at hnew with hhere
    · obtain ⟨rfl, rfl⟩ := hhere
      cases hnew
      rcases hr.users with ⟨old', slot, hold', -, hchoice, hshelf⟩ | ⟨hno, -⟩
      · cases hold.symm.trans hold'
        rw [hshelf]
        exact hchoice.spares
      · exact absurd (hkey.symm.trans hr.key_eq) (hno _ _ hold)
    · cases hold.symm.trans hnew
      exact Shelf.spares_refl _

end

theorem Remembers.silent (h : Remembers bucketIndex start calls table)
    (hsilent : c.op.source = none) : Remembers bucketIndex start (calls ++ [c]) table := by
  obtain ⟨hsources, husers⟩ := last_silent bucketIndex calls hsilent
  refine ⟨h.separate, ?_, ?_⟩
  · intro bucket
    rw [hsources]
    exact h.sources bucket
  · intro bucket way entry hentry
    rw [husers]
    exact h.users bucket way entry hentry

theorem Remembers.step (h : Remembers bucketIndex start calls table)
    (htimed : Timed start (calls ++ [c])) :
    Remembers bucketIndex start (calls ++ [c]) (Call.apply bucketIndex table c) ∧
      SparesRecent start c.time table (Call.apply bucketIndex table c) := by
  have hkept : SparesRecent start c.time table table := by
    refine ⟨fun bucket => Shelf.spares_refl _, ?_⟩
    intro bucket way entry entry' hentry hentry' _
    cases hentry.symm.trans hentry'
    exact Shelf.spares_refl _
  obtain ⟨now, op⟩ := c
  cases op with
  | lookup key => exact ⟨h.silent rfl, hkept⟩
  | record key userID =>
    by_cases hid : userID = 0
    · have hsame : Call.apply bucketIndex table ⟨now, .record key userID⟩ = table := if_pos hid
      rw [hsame]
      exact ⟨h.silent (if_pos hid), hkept⟩
    · obtain ⟨hseparate, way, entry, hr⟩ := h.recorded htimed hid
      exact ⟨hr.remembers hseparate h hid, hr.spares⟩

end step

theorem remembers_tableAfter (bucketIndex : SourceKey → Bucket) {start : ℕ} {calls : List Call}
    (htimed : Timed start calls) :
    Remembers bucketIndex start calls (tableAfter bucketIndex calls) := by
  induction calls using List.reverseRecOn with
  | nil => exact remembers_empty
  | append_singleton calls c ih =>
    rw [tableAfter, List.foldl_append]
    exact ((ih htimed.front).step htimed).1

/-! ## Nothing is lost without need -/

theorem mem_liveSources {bucketIndex : SourceKey → Bucket} {calls : List Call} {bucket : Bucket}
    {key : SourceKey} {now : ℕ}
    (h : ∃ t, lastOfSource bucketIndex calls bucket key = some t ∧ now < t + life) :
    key ∈ liveSources bucketIndex calls bucket now := by
  obtain ⟨t, ht, hlive⟩ := h
  obtain ⟨d, hd, hp, rfl⟩ := mem_of_lastTime ht
  obtain ⟨hbucket, hsource⟩ := of_decide_eq_true hp
  refine List.mem_dedup.mpr (List.mem_filterMap.mpr ⟨d, ?_, ?_⟩)
  · exact List.mem_filter.mpr ⟨hd, decide_eq_true hlive⟩
  · simp [hsource, Option.filter, hbucket]

theorem mem_liveUsers {calls : List Call} {key : SourceKey} {userID : UInt32} {now : ℕ}
    (h : ∃ t, lastOfUser calls key userID = some t ∧ now < t + life) :
    userID ∈ liveUsers calls key now := by
  obtain ⟨t, ht, hlive⟩ := h
  obtain ⟨d, hd, hp, rfl⟩ := mem_of_lastTime ht
  obtain ⟨hid, hop⟩ := of_decide_eq_true hp
  refine List.mem_dedup.mpr (List.mem_filterMap.mpr ⟨d, ?_, ?_⟩)
  · exact List.mem_filter.mpr ⟨hd, decide_eq_true hlive⟩
  · simp [hop, hid]

theorem card_le_of_length {α : Type} [DecidableEq α] {l : List α} {n : ℕ} {P : α → Prop}
    (h : l.length ≤ n) (hP : ∀ a, P a → a ∈ l) (S : Finset α) (hS : ∀ a ∈ S, P a) : S.card ≤ n :=
  calc
    S.card ≤ l.toFinset.card :=
      Finset.card_le_card fun a ha => List.mem_toFinset.mpr (hP a (hS a ha))
    _ ≤ l.length := List.toFinset_card_le l
    _ ≤ n := h

structure Knows (bucketIndex : SourceKey → Bucket) (start : ℕ) (calls : List Call)
    (key : SourceKey) (now : ℕ) (table : Table) : Prop where
  sources : (table.shelf start (bucketIndex key)).Complete
    (lastOfSource bucketIndex calls (bucketIndex key)) life now
  users : ∀ way entry, table.entryAt (bucketIndex key) way = some entry → entry.key = key →
    (entry.shelf start).Complete (lastOfUser calls key) life now

section knows

variable {bucketIndex : SourceKey → Bucket} {start now : ℕ} {calls : List Call} {table : Table}
  {c : Call} {key : SourceKey}

theorem Knows.later {now' : ℕ} (h : Knows bucketIndex start calls key now table)
    (hle : now ≤ now') : Knows bucketIndex start calls key now' table :=
  ⟨h.sources.later hle, fun way entry hentry hkey => (h.users way entry hentry hkey).later hle⟩

theorem Knows.silent (h : Knows bucketIndex start calls key now table)
    (hsilent : c.op.source = none) : Knows bucketIndex start (calls ++ [c]) key now table := by
  obtain ⟨hsources, husers⟩ := last_silent bucketIndex calls hsilent
  refine ⟨?_, ?_⟩
  · rw [hsources]
    exact h.sources
  · rw [husers]
    exact h.users

theorem Knows.forgotten (h : Knows bucketIndex start calls key now table)
    (htimed : Timed start calls)
    (hno : ∀ way entry, table.entryAt (bucketIndex key) way = some entry → entry.key ≠ key)
    {userID : UInt32} {t : ℕ} (hlast : lastOfUser calls key userID = some t) :
    t + life ≤ now := by
  obtain ⟨u, hu, hle⟩ := htimed.lastOfUser_le bucketIndex hlast
  by_contra hlive
  obtain ⟨way, hway⟩ := h.sources key u hu (by omega)
  obtain ⟨entry, hentry, hkey, -⟩ := Table.shelf_eq_some.mp hway
  exact hno way entry hentry hkey

theorem Recorded.knows {table' : Table} {other : SourceKey} {userID : UInt32} {way : Way}
    {entry : Entry}
    (hr : Recorded bucketIndex start table table' other userID now way entry)
    (hremembers : Remembers bucketIndex start calls table)
    (h : Knows bucketIndex start calls key now table)
    (htimed : Timed start calls) (hid : userID ≠ 0)
    (hsources : (liveSources bucketIndex (calls ++ [⟨now, .record other userID⟩])
      (bucketIndex key) now).length ≤ sourceUserCacheWays)
    (husers : (liveUsers (calls ++ [⟨now, .record other userID⟩]) key now).length ≤
      sourceUserCacheUsers) :
    Knows bucketIndex start (calls ++ [⟨now, .record other userID⟩]) key now table' := by
  have hlife : 0 < life := by decide
  constructor
  · have hfew : ∀ S : Finset SourceKey, (∀ k ∈ S, ∃ t, lastOfSource bucketIndex
        (calls ++ [⟨now, .record other userID⟩]) (bucketIndex key) k = some t ∧ now < t + life) →
        S.card ≤ sourceUserCacheWays :=
      card_le_of_length hsources fun _ => mem_liveSources
    rw [lastOfSource_record bucketIndex hid] at hfew ⊢
    rw [hr.shelf]
    split_ifs at hfew ⊢ with hbucket
    · have hchoice := hr.choice
      rw [← hbucket] at hchoice
      refine Shelf.Complete.put (hremembers.sources _) h.sources hlife hchoice ?_
      rw [Fintype.card_fin]
      exact hfew
    · exact h.sources
  · intro way' entry' hentry' hkey'
    have hfew : ∀ S : Finset UInt32, (∀ id ∈ S, ∃ t, lastOfUser
        (calls ++ [⟨now, .record other userID⟩]) key id = some t ∧ now < t + life) →
        S.card ≤ sourceUserCacheUsers :=
      card_le_of_length husers fun _ => mem_liveUsers
    rw [lastOfUser_record hid] at hfew ⊢
    rw [hr.entryAt] at hentry'
    split_ifs at hentry' with hhere
    · cases hentry'
      obtain rfl : key = other := hkey'.symm.trans hr.key_eq
      rw [if_pos rfl] at hfew ⊢
      rcases hr.users with ⟨old, slot, hold, hkey, hchoice, hshelf⟩ | ⟨hno, slot, hshelf⟩
      · have htracks := hremembers.users _ _ _ hold
        rw [hkey] at htracks
        rw [hshelf]
        refine Shelf.Complete.put htracks (h.users way old hold hkey) hlife hchoice ?_
        rw [Fintype.card_fin]
        exact hfew
      · -- the source was not live, so none of its users was
        rw [hshelf]
        intro id t hlast hlive
        by_cases huser : id = userID
        · subst huser
          rw [Function.update_self] at hlast
          cases hlast
          exact ⟨slot, Shelf.put_self⟩
        · rw [Function.update_of_ne huser] at hlast
          have := h.forgotten htimed hno hlast
          omega
    · have hne := hr.key_ne hremembers hentry' hhere
      rw [if_neg (hkey' ▸ hne)]
      exact h.users way' entry' hentry' hkey'

theorem knows_tableAfter {time : ℕ} (htimed : Timed start calls)
    (hpast : ∀ c ∈ calls, c.time ≤ time) (huncrowded : Uncrowded bucketIndex calls key) :
    Knows bucketIndex start calls key time (tableAfter bucketIndex calls) := by
  induction calls using List.reverseRecOn generalizing time with
  | nil =>
    refine ⟨?_, ?_⟩
    · intro k t h
      cases h
    · intro way entry h
      cases h
  | append_singleton calls c ih =>
    have hknows := ih htimed.front (fun d hd => htimed.le_last hd)
      fun front d hpre => huncrowded front d (hpre.trans (List.prefix_append _ _))
    have htable : tableAfter bucketIndex (calls ++ [c]) =
        Call.apply bucketIndex (tableAfter bucketIndex calls) c := List.foldl_append ..
    refine Knows.later ?_ (hpast c (by simp))
    rw [htable]
    obtain ⟨now, op⟩ := c
    cases op with
    | lookup other => exact hknows.silent rfl
    | record other userID =>
      by_cases hid : userID = 0
      · have hsame : Call.apply bucketIndex (tableAfter bucketIndex calls)
            ⟨now, .record other userID⟩ = tableAfter bucketIndex calls := if_pos hid
        rw [hsame]
        exact hknows.silent (if_pos hid)
      · have hremembers := remembers_tableAfter bucketIndex htimed.front
        obtain ⟨-, way, entry, hr⟩ := hremembers.recorded htimed hid
        obtain ⟨hsources, husers⟩ := huncrowded calls _ (List.prefix_refl _)
        exact hr.knows hremembers hknows htimed.front hid hsources husers

end knows

theorem lookup_spec {bucketIndex : SourceKey → Bucket} {start time : ℕ} {calls : List Call}
    {key : SourceKey} (htimed : Timed start (calls ++ [⟨time, .lookup key⟩]))
    (huncrowded : Uncrowded bucketIndex calls key) :
    ((tableAfter bucketIndex calls).lookup (bucketIndex key) key (tickAt time)).Nodup ∧
    (∀ id, id ∈ (tableAfter bucketIndex calls).lookup (bucketIndex key) key (tickAt time) ↔
      ∃ t, lastOfUser calls key id = some t ∧ time < t + life) ∧
    ((tableAfter bucketIndex calls).lookup (bucketIndex key) key (tickAt time)).Pairwise
      fun id id' => ∀ t ∈ lastOfUser calls key id, ∀ t' ∈ lastOfUser calls key id', t' ≤ t := by
  have hremembers := remembers_tableAfter bucketIndex htimed.front
  have hknows := knows_tableAfter htimed.front (fun c hc => htimed.le_last hc) huncrowded
  obtain ⟨hpast, hpastUsers⟩ := hremembers.notAfter htimed (bucketIndex key)
  generalize tableAfter bucketIndex calls = table at *
  have hspan := (htimed.span ⟨time, .lookup key⟩ (by simp)).2
  have hmiss (hno : ∀ id t, lastOfUser calls key id = some t → t + life ≤ time) :
      ([] : List UInt32).Nodup ∧
      (∀ id, id ∈ [] ↔ ∃ t, lastOfUser calls key id = some t ∧ time < t + life) ∧
      [].Pairwise fun id id' => ∀ t ∈ lastOfUser calls key id,
        ∀ t' ∈ lastOfUser calls key id', t' ≤ t := by
    refine ⟨.nil, fun id => iff_of_false (by simp) ?_, .nil⟩
    rintro ⟨t, ht, hlive⟩
    have := hno id t ht
    omega
  unfold Table.lookup
  cases hfind : table.find (bucketIndex key) key with
  | none =>
    refine hmiss fun id t ht => hknows.forgotten htimed.front ?_ ht
    exact fun way entry hentry hkey => Table.find_of_entryAt hentry hkey hfind
  | some n =>
    obtain ⟨way, entry, -, hentry, hn, hkey⟩ := Table.entryAt_of_find hfind
    rw [Option.bind_some, hn]
    have htracks := hremembers.users _ _ _ hentry
    rw [hkey] at htracks
    have hcomplete := hknows.users way entry hentry hkey
    have hshelf : table.shelf start (bucketIndex key) way = some (key, _) :=
      Table.shelf_eq_some.mpr ⟨entry, hentry, hkey, rfl⟩
    simp only
    split_ifs with hexpired
    · rw [expired_iff hspan (hpast _ _ _ hshelf)] at hexpired
      refine hmiss fun id t ht => ?_
      obtain ⟨u, hu, hle⟩ := htimed.front.lastOfUser_le bucketIndex ht
      cases hu.symm.trans ((hremembers.sources _).seen hshelf)
      exact le_trans (Nat.add_le_add_right hle life) hexpired
    · obtain ⟨hnodup, hmem, hsorted⟩ := lookupResult_spec hspan (hpastUsers _ _ hentry) htracks
      refine ⟨hnodup, fun id => (hmem id).trans ?_, hsorted⟩
      constructor
      · rintro ⟨i, t, ht, hlive⟩
        exact ⟨t, htracks.seen ht, hlive⟩
      · rintro ⟨t, ht, hlive⟩
        obtain ⟨i, hi⟩ := hcomplete id t ht hlive
        exact ⟨i, t, hi, hlive⟩

theorem Timed.recent_iff {start now : ℕ} {calls : List Call} (h : Timed start calls)
    (key : SourceKey) (id : UInt32) :
    (∃ t, lastOfUser calls key id = some t ∧ now < t + life) ↔
      id ≠ 0 ∧ ∃ t, ⟨t, .record key id⟩ ∈ calls ∧ now < t + life := by
  constructor
  · rintro ⟨t, ht, hlive⟩
    obtain ⟨⟨time, op⟩, hd, hp, rfl⟩ := mem_of_lastTime ht
    obtain ⟨hid, rfl⟩ := of_decide_eq_true hp
    exact ⟨hid, time, hd, hlive⟩
  · rintro ⟨hid, t, hmem, hlive⟩
    obtain ⟨u, hu, hle⟩ := h.exists_lastTime (p := Op.isRecordOf key id) hmem
      (decide_eq_true ⟨hid, rfl⟩)
    exact ⟨u, hu, lt_of_lt_of_le hlive (Nat.add_le_add_right hle life)⟩

/-- Whatever is called, sources and users have one place each, with the time of their last
record, and a live one gives way only as the oldest of all. Where there are never more live ones
than places, a lookup finds the users recorded in the last ten minutes, the most recent
first. -/
theorem source_cache_recency (bucketIndex : SourceKey → Bucket) (start : ℕ) (calls : List Call)
    (htimed : Timed start calls) :
    (∀ bucket, ((tableAfter bucketIndex calls).shelf start bucket).Tracks
      (lastOfSource bucketIndex calls bucket)) ∧
    (∀ bucket way entry, (tableAfter bucketIndex calls).entryAt bucket way = some entry →
      (entry.shelf start).Tracks (lastOfUser calls entry.key)) ∧
    (∀ c, Timed start (calls ++ [c]) → SparesRecent start c.time (tableAfter bucketIndex calls)
      (tableAfter bucketIndex (calls ++ [c]))) ∧
    ∀ key time, Timed start (calls ++ [⟨time, .lookup key⟩]) → Uncrowded bucketIndex calls key →
      ((tableAfter bucketIndex calls).lookup (bucketIndex key) key (tickAt time)).Nodup ∧
      (∀ id, id ∈ (tableAfter bucketIndex calls).lookup (bucketIndex key) key (tickAt time) ↔
        id ≠ 0 ∧ ∃ t, ⟨t, .record key id⟩ ∈ calls ∧ time < t + life) ∧
      ((tableAfter bucketIndex calls).lookup (bucketIndex key) key (tickAt time)).Pairwise
        fun id id' => ∀ t ∈ lastOfUser calls key id, ∀ t' ∈ lastOfUser calls key id', t' ≤ t := by
  have hremembers := remembers_tableAfter bucketIndex htimed
  refine ⟨hremembers.sources, hremembers.users, ?_, ?_⟩
  · intro c hc
    have htable : tableAfter bucketIndex (calls ++ [c]) =
        Call.apply bucketIndex (tableAfter bucketIndex calls) c := List.foldl_append ..
    rw [htable]
    exact (hremembers.step hc).2
  · intro key time hlookup huncrowded
    obtain ⟨hnodup, hmem, hsorted⟩ := lookup_spec hlookup huncrowded
    exact ⟨hnodup, fun id => (hmem id).trans (htimed.recent_iff key id), hsorted⟩

theorem uncrowded_of_length {bucketIndex : SourceKey → Bucket} {calls : List Call}
    (h : calls.length ≤ sourceUserCacheWays) (key : SourceKey) :
    Uncrowded bucketIndex calls key := by
  intro front c hpre
  have hlive {α : Type} [DecidableEq α] (p : Call → Bool) (f : Call → Option α) :
      (((front ++ [c]).filter p).filterMap f).dedup.length ≤ sourceUserCacheWays :=
    calc
      _ ≤ (((front ++ [c]).filter p).filterMap f).length := (List.dedup_sublist _).length_le
      _ ≤ ((front ++ [c]).filter p).length := List.length_filterMap_le _ _
      _ ≤ (front ++ [c]).length := List.length_filter_le _ _
      _ ≤ calls.length := hpre.length_le
      _ ≤ sourceUserCacheWays := h
  exact ⟨hlive _ _, le_trans (hlive _ _) (by decide)⟩

def localhostKey : SourceKey := #v[0, 0, 0, 0, 0, 0, 0, 0, 0, 0, 255, 255, 127, 0, 0, 1]

/-- Two users around the end of the tick range. -/
def wrappingCalls : List Call :=
  [⟨2 ^ 32 - 1, .record localhostKey 1⟩, ⟨2 ^ 32 + 3, .record localhostKey 2⟩]

theorem users_found_across_wrap :
    (tableAfter firstBucket wrappingCalls).lookup (firstBucket localhostKey) localhostKey
      (tickAt (2 ^ 32 + 5)) = [2, 1] ∧
    ∀ id, id ∈ ([2, 1] : List UInt32) ↔ id ≠ 0 ∧
      ∃ t, ⟨t, .record localhostKey id⟩ ∈ wrappingCalls ∧ 2 ^ 32 + 5 < t + life := by
  have hfound : (tableAfter firstBucket wrappingCalls).lookup (firstBucket localhostKey)
      localhostKey (tickAt (2 ^ 32 + 5)) = [2, 1] := by
    decide +kernel
  have htimed : Timed (2 ^ 32 - 1) (wrappingCalls ++ [⟨2 ^ 32 + 5, .lookup localhostKey⟩]) :=
    ⟨by decide, by decide⟩
  have hlookup := (source_cache_recency firstBucket (2 ^ 32 - 1) wrappingCalls
    htimed.front).2.2.2 localhostKey (2 ^ 32 + 5) htimed (uncrowded_of_length (by decide) _)
  rw [hfound] at hlookup
  exact ⟨hfound, hlookup.2.1⟩

end Mieru.ServerUser
