import Mieru.Lib.Recency
import Mieru.ServerUser.SourceCache

/-! # The shelves of a source cache

The ways of a bucket and the slots of an entry are shelves for what was recorded last, by a clock
that counts seconds in 32 bits. -/
namespace Mieru.ServerUser

open Recency

/-! ## Seconds in 32 bits -/

def tickAt (time : ℕ) : UInt32 := UInt32.ofNat time

/-- The second that a tick stands for in the 2^32 seconds from `start` on. -/
def timeOf (start : ℕ) (tick : UInt32) : ℕ := start + (tick - tickAt start).toNat

def life : ℕ := 600

section clock

variable {start now : ℕ} {tick : UInt32}

theorem timeOf_tickAt {time : ℕ} (hstart : start ≤ time) (hspan : time < start + 2 ^ 32) :
    timeOf start (tickAt time) = time := by
  simp only [timeOf, tickAt, UInt32.toNat_sub, UInt32.toNat_ofNat']
  omega

theorem toNat_age (hspan : now < start + 2 ^ 32) (hle : timeOf start tick ≤ now) :
    (sourceUserCacheAge (tickAt now) tick).toNat = now - timeOf start tick := by
  have htick := tick.toNat_lt
  simp only [timeOf, tickAt, sourceUserCacheAge, UInt32.toNat_sub, UInt32.toNat_ofNat'] at hle ⊢
  omega

theorem expired_iff (hspan : now < start + 2 ^ 32) (hle : timeOf start tick ≤ now) :
    sourceUserCacheExpired (tickAt now) tick = true ↔ timeOf start tick + life ≤ now := by
  have hage := toNat_age hspan hle
  have hlife : sourceUserCacheLifeSeconds.toNat = 600 := by decide
  rw [sourceUserCacheExpired, decide_eq_true_iff, UInt32.le_iff_toNat_le, hlife, hage, life]
  omega

end clock

/-! ## Slots -/

def slotOf (start : ℕ) (packed : UInt64) : Option (UInt32 × ℕ) :=
  let (id, seen) := sourceUserCacheUnpackUser packed
  if id = 0 then none else some (id, timeOf start seen)

def Entry.shelf (start : ℕ) (entry : Entry) : Shelf (Fin sourceUserCacheUsers) UInt32 :=
  fun i => slotOf start entry.users[i]

theorem slotOf_eq_some {start : ℕ} {packed : UInt64} {id : UInt32} {t : ℕ} :
    slotOf start packed = some (id, t) ↔ id ≠ 0 ∧ (sourceUserCacheUnpackUser packed).1 = id ∧
      timeOf start (sourceUserCacheUnpackUser packed).2 = t := by
  unfold slotOf
  simp only
  split_ifs with hid
  · refine iff_of_false (by simp) ?_
    rintro ⟨hne, rfl, -⟩
    exact hne hid
  · simp only [Option.some.injEq, Prod.mk.injEq]
    refine ⟨?_, fun h => h.2⟩
    rintro ⟨rfl, ht⟩
    exact ⟨hid, rfl, ht⟩

theorem slotOf_pack {start now : ℕ} {userID : UInt32} (hid : userID ≠ 0) (hstart : start ≤ now)
    (hspan : now < start + 2 ^ 32) :
    slotOf start (sourceUserCachePackUser userID (tickAt now)) = some (userID, now) := by
  rw [slotOf_eq_some, unpack_pack]
  exact ⟨hid, rfl, timeOf_tickAt hstart hspan⟩

section scan

variable {p : UInt64 → Prop} {slots : List (UInt64 × ℕ)} {slot : UInt64 × ℕ} {found : Option ℕ}

structure Found (p : UInt64 → Prop) (slots : List (UInt64 × ℕ)) (found : Option ℕ) : Prop where
  hit : ∀ i, found = some i → ∃ packed, (packed, i) ∈ slots ∧ p packed
  miss : found = none → ∀ slot ∈ slots, ¬ p slot.1

theorem Found.skip (h : Found p slots found) (hslot : p slot.1 → found ≠ none) :
    Found p (slots ++ [slot]) found where
  hit := by
    intro i hi
    obtain ⟨packed, hmem, hp⟩ := h.hit i hi
    exact ⟨packed, List.mem_append_left _ hmem, hp⟩
  miss := by
    intro hnone other hmem hp
    rcases List.mem_append.mp hmem with hold | hnew
    · exact h.miss hnone other hold hp
    · obtain rfl := List.mem_singleton.mp hnew
      exact hslot hp hnone

theorem Found.take (hslot : p slot.1) : Found p (slots ++ [slot]) (some slot.2) where
  hit := by
    intro i hi
    cases hi
    exact ⟨slot.1, by simp, hslot⟩
  miss := by
    intro hnone
    cases hnone

def userOf (packed : UInt64) : UInt32 := (sourceUserCacheUnpackUser packed).1

def ageOf (now : UInt32) (packed : UInt64) : UInt32 :=
  sourceUserCacheAge now (sourceUserCacheUnpackUser packed).2

def ExpiredSlot (now : UInt32) (packed : UInt64) : Prop :=
  userOf packed ≠ 0 ∧ sourceUserCacheExpired now (sourceUserCacheUnpackUser packed).2

def LiveSlot (now : UInt32) (packed : UInt64) : Prop :=
  userOf packed ≠ 0 ∧ ¬ sourceUserCacheExpired now (sourceUserCacheUnpackUser packed).2

structure Largest (now : UInt32) (slots : List (UInt64 × ℕ)) (oldest : Option ℕ) (age : UInt32) :
    Prop where
  hit : ∀ i, oldest = some i → ∃ packed, (packed, i) ∈ slots ∧ ageOf now packed = age
  most : ∀ slot ∈ slots, LiveSlot now slot.1 → oldest ≠ none ∧ ageOf now slot.1 ≤ age

theorem Largest.skip {now age : UInt32} (h : Largest now slots found age)
    (hslot : LiveSlot now slot.1 → found ≠ none ∧ ageOf now slot.1 ≤ age) :
    Largest now (slots ++ [slot]) found age where
  hit := by
    intro i hi
    obtain ⟨packed, hmem, hage⟩ := h.hit i hi
    exact ⟨packed, List.mem_append_left _ hmem, hage⟩
  most := by
    intro other hmem hlive
    rcases List.mem_append.mp hmem with hold | hnew
    · exact h.most other hold hlive
    · obtain rfl := List.mem_singleton.mp hnew
      exact hslot hlive

theorem Largest.take {now age : UInt32} (h : Largest now slots found age)
    (hslot : found = none ∨ age < ageOf now slot.1) :
    Largest now (slots ++ [slot]) (some slot.2) (ageOf now slot.1) where
  hit := by
    intro i hi
    cases hi
    exact ⟨slot.1, by simp, rfl⟩
  most := by
    intro other hmem hlive
    refine ⟨by simp, ?_⟩
    rcases List.mem_append.mp hmem with hold | hnew
    · obtain ⟨hsome, hle⟩ := h.most other hold hlive
      exact UInt32.le_trans hle (UInt32.le_of_lt (hslot.resolve_left hsome))
    · obtain rfl := List.mem_singleton.mp hnew
      exact UInt32.le_refl _

/-- What the scan knows of the slots it has seen; once the user has a slot, the rest does not
matter. -/
structure Scanned (userID now : UInt32) (slots : List (UInt64 × ℕ)) (scan : SlotScan) : Prop where
  same : Found (fun packed => userOf packed = userID) slots scan.same
  empty : scan.same = none → Found (fun packed => userOf packed = 0) slots scan.empty
  expired : scan.same = none → Found (ExpiredSlot now) slots scan.expired
  oldest : scan.same = none → Largest now slots scan.oldest scan.oldestAge

theorem Scanned.add {userID now : UInt32} {scan : SlotScan} (h : Scanned userID now slots scan) :
    Scanned userID now (slots ++ [slot]) (scan.add userID now slot) := by
  unfold SlotScan.add
  simp only
  split_ifs with hsame hempty hexp hlive holdest
  · refine ⟨.take hsame.1, ?_, ?_, ?_⟩ <;>
    · intro hnone
      cases hnone
  all_goals have hkeep : Found _ (slots ++ [slot]) _ :=
    h.same.skip fun hid hnone => hsame ⟨hid, hnone⟩
  · refine ⟨hkeep, fun _ => .take hempty.1, fun hnone => (h.expired hnone).skip ?_,
      fun hnone => (h.oldest hnone).skip ?_⟩
    · exact fun hexp => absurd hempty.1 hexp.1
    · exact fun hlive => absurd hempty.1 hlive.1
  · refine ⟨hkeep, fun hnone => (h.empty hnone).skip ?_, fun _ => .take ⟨hexp.1, hexp.2.1⟩,
      fun hnone => (h.oldest hnone).skip ?_⟩
    · exact fun hid => absurd hid hexp.1
    · exact fun hlive => absurd hexp.2.1 hlive.2
  · refine ⟨hkeep, fun hnone => (h.empty hnone).skip ?_, fun hnone => (h.expired hnone).skip ?_,
      fun hnone => (h.oldest hnone).take holdest⟩
    · exact fun hid => absurd hid hlive.1
    · exact fun hexp => absurd hexp.2 hlive.2
  · obtain ⟨hsome, hle⟩ := not_or.mp holdest
    refine ⟨hkeep, fun hnone => (h.empty hnone).skip ?_, fun hnone => (h.expired hnone).skip ?_,
      fun hnone => (h.oldest hnone).skip fun _ => ⟨hsome, UInt32.not_lt.mp hle⟩⟩
    · exact fun hid => absurd hid hlive.1
    · exact fun hexp => absurd hexp.2 hlive.2
  · refine ⟨hkeep, fun hnone => (h.empty hnone).skip ?_, fun hnone => (h.expired hnone).skip ?_,
      fun hnone => (h.oldest hnone).skip fun hlives => absurd hlives hlive⟩
    · exact fun hid hnone => hempty ⟨hid, hnone⟩
    · exact fun hexpired hnone => hexp ⟨hexpired.1, hexpired.2, hnone⟩

theorem scanned_foldl (userID now : UInt32) (slots : List (UInt64 × ℕ)) :
    Scanned userID now slots (slots.foldl (SlotScan.add userID now) {}) := by
  induction slots using List.reverseRecOn with
  | nil =>
    have hfound (p : UInt64 → Prop) : Found p [] none :=
      ⟨fun i hi => (by cases hi), fun _ slot hslot => (by cases hslot)⟩
    exact ⟨hfound _, fun _ => hfound _, fun _ => hfound _,
      fun _ => ⟨fun i hi => (by cases hi), fun slot hslot => (by cases hslot)⟩⟩
  | append_singleton slots slot ih =>
    rw [List.foldl_append]
    exact ih.add

end scan

/-- The order in which slots are preferred. -/
theorem SlotScan.slot_eq_some {scan : SlotScan} {i : ℕ} (h : scan.slot = some i) :
    scan.same = some i ∨ scan.same = none ∧ (scan.empty = some i ∨ scan.empty = none ∧
      (scan.expired = some i ∨ scan.expired = none ∧ scan.oldest = some i)) := by
  unfold SlotScan.slot at h
  cases hsame : scan.same with
  | some j => exact .inl (by simpa [hsame] using h)
  | none =>
    cases hempty : scan.empty with
    | some j => exact .inr ⟨rfl, .inl (by simpa [hsame, hempty] using h)⟩
    | none =>
      cases hexpired : scan.expired with
      | some j => exact .inr ⟨rfl, .inr ⟨rfl, .inl (by simpa [hsame, hempty, hexpired] using h)⟩⟩
      | none => exact .inr ⟨rfl, .inr ⟨rfl, .inr ⟨rfl, by simpa [hsame, hempty, hexpired] using h⟩⟩⟩

section choice

variable {start now : ℕ} {entry : Entry} {userID : UInt32}

def NotAfter {ι α : Type} (s : Shelf ι α) (now : ℕ) : Prop := ∀ i a t, s i = some (a, t) → t ≤ now

theorem slotOf_cases (hspan : now < start + 2 ^ 32) {packed : UInt64}
    (hpast : ∀ a t, slotOf start packed = some (a, t) → t ≤ now) :
    userOf packed = 0 ∧ slotOf start packed = none ∨
      userOf packed ≠ 0 ∧ ∃ t, slotOf start packed = some (userOf packed, t) ∧ t ≤ now ∧
        (ageOf (tickAt now) packed).toNat = now - t ∧
        (sourceUserCacheExpired (tickAt now) (sourceUserCacheUnpackUser packed).2 = true ↔
          t + life ≤ now) := by
  by_cases hid : userOf packed = 0
  · exact .inl ⟨hid, if_pos hid⟩
  · have hslot : slotOf start packed = some (userOf packed, _) := if_neg hid
    have hle := hpast _ _ hslot
    exact .inr ⟨hid, _, hslot, hle, toNat_age hspan hle, expired_iff hspan hle⟩

theorem Entry.mem_zipIdx {packed : UInt64} {i : ℕ} :
    (packed, i) ∈ entry.users.toList.zipIdx ↔
      ∃ h : i < sourceUserCacheUsers,
        entry.users[(⟨i, h⟩ : Fin sourceUserCacheUsers)] = packed := by
  rw [List.mem_zipIdx_iff_getElem?, Vector.getElem?_toList, Vector.getElem?_eq_some_iff]
  rfl

theorem Entry.userSlot_choice (hid : userID ≠ 0) (hspan : now < start + 2 ^ 32)
    (hpast : NotAfter (entry.shelf start) now) :
    ∃ h : entry.userSlot userID (tickAt now) < sourceUserCacheUsers,
      (entry.shelf start).Choice life now userID ⟨entry.userSlot userID (tickAt now), h⟩ := by
  have hslot : findSlot userID (tickAt now) entry.users.toList =
      some (entry.userSlot userID (tickAt now)) := (Option.some_get _).symm
  have hscanned := scanned_foldl userID (tickAt now) entry.users.toList.zipIdx
  rw [findSlot] at hslot
  generalize entry.users.toList.zipIdx.foldl (SlotScan.add userID (tickAt now)) {} = scan
    at hslot hscanned
  generalize entry.userSlot userID (tickAt now) = slot at hslot ⊢
  have hcases (j : Fin sourceUserCacheUsers) := slotOf_cases hspan (hpast j)
  have hmem (j : Fin sourceUserCacheUsers) : (entry.users[j], j.1) ∈ entry.users.toList.zipIdx :=
    entry.mem_zipIdx.mpr ⟨j.2, rfl⟩
  rcases SlotScan.slot_eq_some hslot with hsame | ⟨hsame, hrest⟩
  · obtain ⟨packed, hpacked, huser⟩ := hscanned.same.hit slot hsame
    obtain ⟨h, rfl⟩ := entry.mem_zipIdx.mp hpacked
    refine ⟨h, .inl ?_⟩
    rcases hcases ⟨slot, h⟩ with ⟨hzero, -⟩ | ⟨-, t, ht, -⟩
    · exact absurd (huser.symm.trans hzero) hid
    · exact ⟨t, ht.trans (by rw [huser])⟩
  have hno (j : Fin sourceUserCacheUsers) (t : ℕ) : entry.shelf start j ≠ some (userID, t) := by
    intro hj
    exact hscanned.same.miss hsame _ (hmem j) (slotOf_eq_some.mp hj).2.1
  rcases hrest with hempty | ⟨hempty, hexpired | ⟨hexpired, holdest⟩⟩
  · obtain ⟨packed, hpacked, hzero⟩ := (hscanned.empty hsame).hit slot hempty
    obtain ⟨h, rfl⟩ := entry.mem_zipIdx.mp hpacked
    refine ⟨h, .inr ⟨hno, .inl fun a t hslot => ?_⟩⟩
    have hnone : slotOf start entry.users[(⟨slot, h⟩ : Fin sourceUserCacheUsers)] = none :=
      if_pos hzero
    cases hnone.symm.trans hslot
  · obtain ⟨packed, hpacked, hne, hexp⟩ := (hscanned.expired hsame).hit slot hexpired
    obtain ⟨h, rfl⟩ := entry.mem_zipIdx.mp hpacked
    refine ⟨h, .inr ⟨hno, .inl fun a t hslot => ?_⟩⟩
    rcases hcases ⟨slot, h⟩ with ⟨hzero, -⟩ | ⟨-, u, hu, -, -, hiff⟩
    · exact absurd hzero hne
    · cases hu.symm.trans hslot
      exact hiff.mp hexp
  · -- every slot is live, so the largest age is the earliest time
    have hlive (j : Fin sourceUserCacheUsers) : LiveSlot (tickAt now) entry.users[j] := by
      have hne := (hscanned.empty hsame).miss hempty _ (hmem j)
      exact ⟨hne, fun hexp => (hscanned.expired hsame).miss hexpired _ (hmem j) ⟨hne, hexp⟩⟩
    obtain ⟨packed, hpacked, hage⟩ := (hscanned.oldest hsame).hit slot holdest
    obtain ⟨h, rfl⟩ := entry.mem_zipIdx.mp hpacked
    have htime (j : Fin sourceUserCacheUsers) : ∃ b u, entry.shelf start j = some (b, u) ∧
        now < u + life ∧ (ageOf (tickAt now) entry.users[j]).toNat = now - u := by
      rcases hcases j with ⟨hzero, -⟩ | ⟨-, u, hu, -, hnat, hiff⟩
      · exact absurd hzero (hlive j).1
      · exact ⟨_, u, hu, not_le.mp fun hle => (hlive j).2 (hiff.mpr hle), hnat⟩
    obtain ⟨a, t, ht, -, hnat⟩ := htime ⟨slot, h⟩
    refine ⟨h, .inr ⟨hno, .inr ⟨a, t, ht, fun j => ?_⟩⟩⟩
    obtain ⟨b, u, hu, hlives, hnat'⟩ := htime j
    have hle := ((hscanned.oldest hsame).most _ (hmem j) (hlive j)).2
    rw [← hage, UInt32.le_iff_toNat_le, hnat, hnat'] at hle
    have hpast' := hpast j b u hu
    have hpast'' := hpast _ a t ht
    exact ⟨b, u, hu, hlives, by omega⟩

theorem Entry.shelf_recordUser (hid : userID ≠ 0) (hstart : start ≤ now)
    (hspan : now < start + 2 ^ 32)
    (h : entry.userSlot userID (tickAt now) < sourceUserCacheUsers) :
    (recordUser userID (tickAt now) entry).shelf start =
      (entry.shelf start).put ⟨entry.userSlot userID (tickAt now), h⟩ userID now := by
  funext j
  unfold recordUser
  generalize entry.userSlot userID (tickAt now) = slot at h ⊢
  rw [Vector.getElem?_eq_getElem h, Option.any_some]
  split_ifs with hsame
  · by_cases hj : j = ⟨slot, h⟩
    · subst hj
      have hunpack : sourceUserCacheUnpackUser entry.users[(⟨slot, h⟩ : Fin sourceUserCacheUsers)] =
          (userID, tickAt now) := of_decide_eq_true hsame
      rw [Shelf.put_self, Entry.shelf, slotOf_eq_some, hunpack]
      exact ⟨hid, rfl, timeOf_tickAt hstart hspan⟩
    · rw [Shelf.put_of_ne hj]
  · by_cases hj : j = ⟨slot, h⟩
    · subst hj
      rw [Shelf.put_self, Entry.shelf]
      simp only [Fin.getElem_fin, Vector.getElem_setIfInBounds_self]
      exact slotOf_pack hid hstart hspan
    · rw [Shelf.put_of_ne hj, Entry.shelf, Entry.shelf]
      have hne : slot ≠ j.1 := fun heq => hj (Fin.ext heq.symm)
      simp only [Fin.getElem_fin, Vector.getElem_setIfInBounds_ne _ hne]

theorem shelf_newEntry {key : SourceKey} (hid : userID ≠ 0) (hstart : start ≤ now)
    (hspan : now < start + 2 ^ 32) :
    (newEntry key userID (tickAt now)).shelf start =
      Shelf.put (fun _ => none) ⟨0, by decide⟩ userID now := by
  funext j
  by_cases hj : j = ⟨0, by decide⟩
  · subst hj
    rw [Shelf.put_self]
    exact slotOf_pack hid hstart hspan
  · have hzero : (newEntry key userID (tickAt now)).users[j] = 0 := by
      have hne : 0 ≠ j.1 := fun heq => hj (Fin.ext heq.symm)
      simp only [newEntry, Fin.getElem_fin, Vector.getElem_set_ne _ _ hne, Vector.getElem_replicate]
    rw [Shelf.put_of_ne hj, Entry.shelf, hzero]
    rfl

end choice

/-! ## Ways -/

def Table.shelf (start : ℕ) (table : Table) (bucket : Bucket) : Shelf Way SourceKey :=
  fun way => (table.entryAt bucket way).map fun entry => (entry.key, timeOf start entry.lastActive)

theorem Table.shelf_eq_some {start : ℕ} {table : Table} {bucket : Bucket} {way : Way}
    {key : SourceKey} {t : ℕ} :
    table.shelf start bucket way = some (key, t) ↔ ∃ entry, table.entryAt bucket way = some entry ∧
      entry.key = key ∧ timeOf start entry.lastActive = t := by
  simp [Table.shelf]

theorem selectSourceUserCacheWay_choice {start now : ℕ} {table : Table} {bucket : Bucket}
    {key : SourceKey} (hspan : now < start + 2 ^ 32)
    (hpast : NotAfter (table.shelf start bucket) now)
    (hno : ∀ way entry, table.entryAt bucket way = some entry → entry.key ≠ key) :
    (table.shelf start bucket).Choice life now key
      (selectSourceUserCacheWay (table.entryAt bucket) (tickAt now)) := by
  refine .inr ⟨?_, ?_⟩
  · intro way t hway
    obtain ⟨entry, hentry, hkey, -⟩ := Table.shelf_eq_some.mp hway
    exact hno way entry hentry hkey
  have hall (way : Way) : way ∈ List.finRange sourceUserCacheWays := List.mem_finRange way
  have htime {way : Way} {entry : Entry} (hentry : table.entryAt bucket way = some entry) :
      timeOf start entry.lastActive ≤ now :=
    hpast way entry.key _ (Table.shelf_eq_some.mpr ⟨entry, hentry, rfl, rfl⟩)
  unfold selectSourceUserCacheWay
  simp only
  split
  · rename_i way hfind
    have hnone := List.find?_some hfind
    refine .inl fun a t hway => ?_
    obtain ⟨entry, hentry, -⟩ := Table.shelf_eq_some.mp hway
    rw [hentry] at hnone
    cases hnone
  · rename_i hfull
    split
    · rename_i way hfind
      have hexpired := List.find?_some hfind
      refine .inl fun a t hway => ?_
      obtain ⟨entry, hentry, -, rfl⟩ := Table.shelf_eq_some.mp hway
      rw [hentry, Option.any_some] at hexpired
      exact (expired_iff hspan (htime hentry)).mp hexpired
    · -- all ways are live, so the largest age is the earliest time
      rename_i hlive
      have hentries (way : Way) : ∃ entry, table.entryAt bucket way = some entry ∧
          now < timeOf start entry.lastActive + life := by
        have hsome := List.find?_eq_none.mp hfull way (hall way)
        have hexpired := List.find?_eq_none.mp hlive way (hall way)
        cases hentry : table.entryAt bucket way with
        | none => simp [hentry] at hsome
        | some entry =>
          rw [hentry, Option.any_some] at hexpired
          exact ⟨entry, rfl, not_le.mp fun hle =>
            hexpired ((expired_iff hspan (htime hentry)).mpr hle)⟩
      have hage {way : Way} {entry : Entry} (hentry : table.entryAt bucket way = some entry) :
          (sourceUserCacheAge (tickAt now)
            ((table.entryAt bucket way).elim 0 Entry.lastActive)).toNat =
              now - timeOf start entry.lastActive := by
        rw [hentry]
        exact toNat_age hspan (htime hentry)
      have hways : ∀ way : Way,
          way ∈ ⟨0, by decide⟩ :: (List.finRange sourceUserCacheWays).tail := by decide
      have hlargest := le_foldl_largest (fun way : Way => (sourceUserCacheAge (tickAt now)
        ((table.entryAt bucket way).elim 0 Entry.lastActive)).toNat)
        (List.finRange sourceUserCacheWays).tail ⟨0, by decide⟩
      simp only [UInt32.lt_iff_toNat_lt]
      generalize List.foldl _ _ _ = oldest at hlargest ⊢
      obtain ⟨entry, hentry, -⟩ := hentries oldest
      refine .inr ⟨_, _, Table.shelf_eq_some.mpr ⟨entry, hentry, rfl, rfl⟩, fun way => ?_⟩
      obtain ⟨other, hother, hlives⟩ := hentries way
      have hle := hlargest way (hways way)
      simp only [hage hentry, hage hother] at hle
      have hpast' := htime hentry
      have hpast'' := htime hother
      exact ⟨_, _, Table.shelf_eq_some.mpr ⟨other, hother, rfl, rfl⟩, hlives, by omega⟩

/-! ## One call after another -/

def Table.recordAuthenticated (table : Table) (bucket : Bucket) (key : SourceKey)
    (userID now : UInt32) : Table :=
  if userID = 0 then table
  else
    match table.record bucket key userID now with
    | (table, some n) => table.refresh n now
    | (table, none) => table

def Table.lookup (table : Table) (bucket : Bucket) (key : SourceKey) (now : UInt32) :
    List UInt32 :=
  match (table.find bucket key).bind fun n => table.entries[n]? with
  | none => []
  | some entry =>
    if sourceUserCacheExpired now entry.lastActive then []
    else lookupResult now entry.users.toList

/-- Every way has an entry of its own. -/
structure Table.Separate (table : Table) : Prop where
  known : ∀ bucket way n, table.ways bucket way = some n → n < table.entries.length
  own : ∀ bucket way bucket' way' n, table.ways bucket way = some n →
    table.ways bucket' way' = some n → bucket = bucket' ∧ way = way'

/-- Where a record goes, and what is there then. -/
inductive Table.RecordsAt (table : Table) (bucket : Bucket) (key : SourceKey)
    (userID now : UInt32) : Way → Entry → Prop
  | again {way : Way} {entry : Entry} (hentry : table.entryAt bucket way = some entry)
      (hkey : entry.key = key) :
      table.RecordsAt bucket key userID now way
        { recordUser userID now entry with lastActive := now }
  | fresh (hno : ∀ way entry, table.entryAt bucket way = some entry → entry.key ≠ key) :
      table.RecordsAt bucket key userID now (selectSourceUserCacheWay (table.entryAt bucket) now)
        (newEntry key userID now)

section table

variable {table : Table} {bucket : Bucket} {key : SourceKey} {userID now : UInt32}

theorem Table.entryAt_of_find {n : ℕ} (h : table.find bucket key = some n) :
    ∃ way entry, table.ways bucket way = some n ∧ table.entryAt bucket way = some entry ∧
      table.entries[n]? = some entry ∧ entry.key = key := by
  obtain ⟨way, -, hway⟩ := List.exists_of_findSome?_eq_some h
  split_ifs at hway with hkey
  obtain ⟨entry, hentry, heq⟩ := Option.any_eq_true .. |>.mp hkey
  refine ⟨way, entry, hway, hentry, ?_, of_decide_eq_true heq⟩
  rwa [Table.entryAt, hway, Option.bind_some] at hentry

theorem Table.find_of_entryAt {way : Way} {entry : Entry}
    (h : table.entryAt bucket way = some entry) (hkey : entry.key = key) :
    table.find bucket key ≠ none := by
  intro hnone
  have hway := List.findSome?_eq_none_iff.mp hnone way (List.mem_finRange way)
  have hsome : ∃ n, table.ways bucket way = some n := by
    obtain ⟨n, hn, -⟩ := Option.bind_eq_some_iff.mp h
    exact ⟨n, hn⟩
  obtain ⟨n, hn⟩ := hsome
  rw [h, Option.any_some, decide_eq_true hkey, if_pos rfl, hn] at hway
  cases hway

theorem Table.Separate.entryAt_modify (h : table.Separate) {n : ℕ} {way : Way}
    (hway : table.ways bucket way = some n) (f : Entry → Entry) (bucket' : Bucket) (way' : Way) :
    Table.entryAt { table with entries := table.entries.modify n f } bucket' way' =
      if bucket' = bucket ∧ way' = way then (table.entryAt bucket way).map f
      else table.entryAt bucket' way' := by
  unfold Table.entryAt
  simp only [List.getElem?_modify]
  split_ifs with hhere
  · rw [hhere.1, hhere.2, hway]
    simp
  · cases hother : table.ways bucket' way' with
    | none => rfl
    | some m =>
      have hne : n ≠ m := by
        rintro rfl
        exact hhere (h.own bucket' way' bucket way n hother hway)
      simp [hne]

theorem Table.Separate.entryAt_append (h : table.Separate) (entry : Entry) (way : Way)
    (bucket' : Bucket) (way' : Way) :
    Table.entryAt ⟨table.entries ++ [entry], Function.update table.ways bucket
      (Function.update (table.ways bucket) way (some table.entries.length))⟩ bucket' way' =
      if bucket' = bucket ∧ way' = way then some entry else table.entryAt bucket' way' := by
  have hold (bucket' : Bucket) (way' : Way) :
      ((table.ways bucket' way').bind fun m => (table.entries ++ [entry])[m]?) =
        table.entryAt bucket' way' := by
    unfold Table.entryAt
    cases hways : table.ways bucket' way' with
    | none => rfl
    | some m => exact List.getElem?_append_left (h.known bucket' way' m hways)
  unfold Table.entryAt
  simp only
  by_cases hbucket : bucket' = bucket
  · subst hbucket
    rw [Function.update_self]
    by_cases hway : way' = way
    · subst hway
      simp
    · rw [Function.update_of_ne hway, if_neg (fun hhere => hway hhere.2)]
      exact hold bucket' way'
  · rw [Function.update_of_ne hbucket, if_neg (fun hhere => hbucket hhere.1)]
    exact hold bucket' way'

theorem Table.Separate.append (h : table.Separate) (entry : Entry) (way : Way) :
    Table.Separate ⟨table.entries ++ [entry], Function.update table.ways bucket
      (Function.update (table.ways bucket) way (some table.entries.length))⟩ := by
  have hways {bucket' : Bucket} {way' : Way} {m : ℕ} (hm : Function.update table.ways bucket
      (Function.update (table.ways bucket) way (some table.entries.length)) bucket' way' = some m) :
      bucket' = bucket ∧ way' = way ∧ m = table.entries.length ∨
        table.ways bucket' way' = some m := by
    by_cases hbucket : bucket' = bucket
    · subst hbucket
      rw [Function.update_self] at hm
      by_cases hway : way' = way
      · subst hway
        rw [Function.update_self] at hm
        cases hm
        exact .inl ⟨rfl, rfl, rfl⟩
      · rw [Function.update_of_ne hway] at hm
        exact .inr hm
    · rw [Function.update_of_ne hbucket] at hm
      exact .inr hm
  refine ⟨?_, ?_⟩
  · intro bucket' way' m hm
    rw [List.length_append, List.length_singleton]
    rcases hways hm with ⟨-, -, rfl⟩ | hold
    · omega
    · have := h.known bucket' way' m hold
      omega
  · intro bucket₁ way₁ bucket₂ way₂ m h₁ h₂
    rcases hways h₁ with ⟨rfl, rfl, rfl⟩ | hold₁
    · rcases hways h₂ with ⟨rfl, rfl, -⟩ | hold₂
      · exact ⟨rfl, rfl⟩
      · exact absurd (h.known _ _ _ hold₂) (lt_irrefl _)
    · rcases hways h₂ with ⟨-, -, rfl⟩ | hold₂
      · exact absurd (h.known _ _ _ hold₁) (lt_irrefl _)
      · exact h.own _ _ _ _ m hold₁ hold₂

theorem Table.Separate.recordAuthenticated (h : table.Separate) (bucket : Bucket)
    (key : SourceKey) (now : UInt32) (hid : userID ≠ 0) :
    (table.recordAuthenticated bucket key userID now).Separate ∧
    ∃ way entry, table.RecordsAt bucket key userID now way entry ∧
      ∀ bucket' way', (table.recordAuthenticated bucket key userID now).entryAt bucket' way' =
        if bucket' = bucket ∧ way' = way then some entry else table.entryAt bucket' way' := by
  unfold Table.recordAuthenticated Table.record
  rw [if_neg hid]
  cases hfind : table.find bucket key with
  | some n =>
    obtain ⟨way, entry, hway, hentry, hn, hkey⟩ := Table.entryAt_of_find hfind
    simp only [Table.refresh]
    have hmodified : Table.Separate
        { table with entries := table.entries.modify n (recordUser userID now) } :=
      ⟨fun bucket' way' m hm => by simpa using h.known bucket' way' m hm, h.own⟩
    refine ⟨⟨fun bucket' way' m hm => by simpa using h.known bucket' way' m hm, h.own⟩,
      way, _, .again hentry hkey, fun bucket' way' => ?_⟩
    rw [hmodified.entryAt_modify hway]
    split_ifs with hhere
    · rw [h.entryAt_modify hway, if_pos ⟨rfl, rfl⟩, hentry]
      rfl
    · rw [h.entryAt_modify hway, if_neg hhere]
  | none =>
    have hno : ∀ way entry, table.entryAt bucket way = some entry → entry.key ≠ key :=
      fun way entry hentry hkey => Table.find_of_entryAt hentry hkey hfind
    simp only
    exact ⟨h.append _ _, _, _, .fresh hno, h.entryAt_append _ _⟩

end table

section record

variable {table : Table} {bucket : Bucket} {key : SourceKey} {userID : UInt32} {start now : ℕ}
  {way : Way} {entry : Entry}

theorem Table.RecordsAt.of_key
    (h : table.RecordsAt bucket key userID (tickAt now) way entry) :
    entry.key = key ∧ entry.lastActive = tickAt now := by
  cases h with
  | again hentry hkey => exact ⟨(recordUser_key ..).trans hkey, rfl⟩
  | fresh hno => exact ⟨rfl, rfl⟩

theorem Table.RecordsAt.choice (h : table.RecordsAt bucket key userID (tickAt now) way entry)
    (hspan : now < start + 2 ^ 32) (hpast : NotAfter (table.shelf start bucket) now) :
    (table.shelf start bucket).Choice life now key way := by
  cases h with
  | again hentry hkey => exact .inl ⟨_, Table.shelf_eq_some.mpr ⟨_, hentry, hkey, rfl⟩⟩
  | fresh hno => exact selectSourceUserCacheWay_choice hspan hpast hno

theorem Table.RecordsAt.users (h : table.RecordsAt bucket key userID (tickAt now) way entry)
    (hid : userID ≠ 0) (hstart : start ≤ now) (hspan : now < start + 2 ^ 32)
    (hpast : ∀ way entry, table.entryAt bucket way = some entry →
      NotAfter (entry.shelf start) now) :
    (∃ old slot, table.entryAt bucket way = some old ∧ old.key = key ∧
      (old.shelf start).Choice life now userID slot ∧
      entry.shelf start = (old.shelf start).put slot userID now) ∨
    (∀ way entry, table.entryAt bucket way = some entry → entry.key ≠ key) ∧
      ∃ slot, entry.shelf start = Shelf.put (fun _ => none) slot userID now := by
  cases h with
  | again hentry hkey =>
    obtain ⟨hslot, hchoice⟩ := Entry.userSlot_choice hid hspan (hpast _ _ hentry)
    exact .inl ⟨_, _, hentry, hkey, hchoice, Entry.shelf_recordUser hid hstart hspan hslot⟩
  | fresh hno => exact .inr ⟨hno, _, shelf_newEntry hid hstart hspan⟩

end record

/-! ## What a lookup makes of the slots -/

section lookup

def candidateOf (now : UInt32) (packed : UInt64) : Option Candidate :=
  if userOf packed = 0 ∨ sourceUserCacheExpired now (sourceUserCacheUnpackUser packed).2 then none
  else some ⟨userOf packed, ageOf now packed⟩

theorem slotCandidates_eq (now : UInt32) (slots : List UInt64) (candidates : List Candidate)
    (h : ((candidates ++ slots.filterMap (candidateOf now)).map Candidate.id).Nodup) :
    slotCandidates now slots candidates = candidates ++ slots.filterMap (candidateOf now) := by
  induction slots generalizing candidates with
  | nil => simp [slotCandidates]
  | cons packed slots ih =>
    rw [slotCandidates]
    by_cases hskip : userOf packed = 0 ∨
        sourceUserCacheExpired now (sourceUserCacheUnpackUser packed).2 = true
    · have hnone : candidateOf now packed = none := if_pos hskip
      rw [List.filterMap_cons_none hnone] at h ⊢
      exact (if_pos hskip).trans (ih candidates h)
    · have hsome : candidateOf now packed = some ⟨userOf packed, ageOf now packed⟩ := if_neg hskip
      rw [List.filterMap_cons_some hsome] at h ⊢
      have hadd : addCandidate candidates (userOf packed) (ageOf now packed) =
          candidates ++ [⟨userOf packed, ageOf now packed⟩] := by
        have hnew : (candidates.findIdx? fun c => c.id = userOf packed) = none := by
          rw [List.findIdx?_eq_none_iff]
          intro c hc
          rw [List.map_append, List.map_cons, List.nodup_append] at h
          exact decide_eq_false (h.2.2 _ (List.mem_map_of_mem hc) _ List.mem_cons_self)
        rw [addCandidate, hnew]
      refine (if_neg hskip).trans ?_
      rw [← List.singleton_append, ← List.append_assoc] at h ⊢
      rw [← hadd] at h ⊢
      exact ih _ h

theorem insertCandidate_sorted {sorted : List Candidate} (candidate : Candidate)
    (h : sorted.Pairwise fun c d => c.age ≤ d.age) :
    (insertCandidate sorted candidate).Pairwise fun c d => c.age ≤ d.age := by
  unfold insertCandidate
  simp only
  generalize heq : (fun c : Candidate => decide (candidate.age < c.age)) = older
  have holder (c : Candidate) : older c = true ↔ candidate.age < c.age := by
    rw [← heq]
    exact decide_eq_true_iff
  have hsplit : sorted.rdropWhile older ++ sorted.rtakeWhile older = sorted :=
    List.rdropWhile_append_rtakeWhile
  rw [← hsplit, List.pairwise_append] at h
  obtain ⟨hfront, hback, hacross⟩ := h
  rw [List.pairwise_append, List.pairwise_cons]
  refine ⟨hfront, ⟨fun d hd => ?_, hback⟩, fun c hc d hd => ?_⟩
  · exact UInt32.le_of_lt ((holder d).mp (List.mem_rtakeWhile_imp hd))
  · rcases List.mem_cons.mp hd with rfl | hd
    · -- the last of those in front is not older, and none before it is
      have hne := List.ne_nil_of_mem hc
      have hlast := List.rdropWhile_last_not older sorted hne
      rw [holder, UInt32.not_lt] at hlast
      rw [← List.dropLast_concat_getLast hne] at hc hfront
      rcases List.mem_append.mp hc with hc | hc
      · have hle := (List.pairwise_append.mp hfront).2.2 c hc _ (List.mem_singleton_self _)
        exact UInt32.le_trans hle hlast
      · rw [List.mem_singleton.mp hc]
        exact hlast
    · exact hacross c hc d hd

theorem sortCandidates_sorted (candidates : List Candidate) {sorted : List Candidate}
    (h : sorted.Pairwise fun c d => c.age ≤ d.age) :
    (candidates.foldl insertCandidate sorted).Pairwise fun c d => c.age ≤ d.age := by
  induction candidates generalizing sorted with
  | nil => exact h
  | cons candidate candidates ih => exact ih (insertCandidate_sorted candidate h)

variable {start now : ℕ} {entry : Entry} {last : UInt32 → Option ℕ}

theorem candidateOf_eq_some (hspan : now < start + 2 ^ 32)
    (hpast : NotAfter (entry.shelf start) now) {i : Fin sourceUserCacheUsers} {c : Candidate} :
    candidateOf (tickAt now) entry.users[i] = some c ↔
      ∃ t, entry.shelf start i = some (c.id, t) ∧ now < t + life ∧ c.age.toNat = now - t := by
  unfold candidateOf
  rcases slotOf_cases hspan (hpast i) with ⟨hzero, hnone⟩ | ⟨hne, t, ht, -, hage, hiff⟩
  · rw [if_pos (.inl hzero)]
    refine iff_of_false (by simp) ?_
    rintro ⟨t, ht, -⟩
    cases hnone.symm.trans ht
  · by_cases hexpired : t + life ≤ now
    · rw [if_pos (.inr (hiff.mpr hexpired))]
      refine iff_of_false (by simp) ?_
      rintro ⟨u, hu, hlive, -⟩
      obtain ⟨-, rfl⟩ := Prod.mk.inj (Option.some.inj (ht.symm.trans hu))
      omega
    · rw [if_neg (not_or.mpr ⟨hne, fun h => hexpired (hiff.mp h)⟩), Option.some_inj]
      constructor
      · rintro rfl
        exact ⟨t, ht, by omega, hage⟩
      · rintro ⟨u, hu, -, hage'⟩
        obtain ⟨hid, rfl⟩ := Prod.mk.inj (Option.some.inj (ht.symm.trans hu))
        obtain ⟨id, age⟩ := c
        congr
        exact UInt32.toNat_inj.mp (hage.trans hage'.symm)

theorem lookupResult_spec (hspan : now < start + 2 ^ 32)
    (hpast : NotAfter (entry.shelf start) now) (htracks : (entry.shelf start).Tracks last) :
    (lookupResult (tickAt now) entry.users.toList).Nodup ∧
    (∀ id, id ∈ lookupResult (tickAt now) entry.users.toList ↔
      ∃ i t, entry.shelf start i = some (id, t) ∧ now < t + life) ∧
    (lookupResult (tickAt now) entry.users.toList).Pairwise fun id id' =>
      ∀ t ∈ last id, ∀ t' ∈ last id', t' ≤ t := by
  have hcandidate (i : Fin sourceUserCacheUsers) (c : Candidate) :=
    candidateOf_eq_some hspan hpast (i := i) (c := c)
  have hmem (c : Candidate) : c ∈ entry.users.toList.filterMap (candidateOf (tickAt now)) ↔
      ∃ i : Fin sourceUserCacheUsers, candidateOf (tickAt now) entry.users[i] = some c := by
    rw [List.mem_filterMap]
    constructor
    · rintro ⟨packed, hpacked, hc⟩
      obtain ⟨i, hi, rfl⟩ := Vector.getElem_of_mem (Vector.mem_toList_iff.mp hpacked)
      exact ⟨⟨i, hi⟩, hc⟩
    · rintro ⟨i, hc⟩
      exact ⟨_, Vector.mem_toList_iff.mpr (Vector.getElem_mem i.2), hc⟩
  have hnodup : ((entry.users.toList.filterMap (candidateOf (tickAt now))).map
      Candidate.id).Nodup := by
    rw [List.Nodup, List.pairwise_map, List.pairwise_filterMap, List.pairwise_iff_getElem]
    intro i j hi hj hlt c hc d hd heq
    rw [Vector.length_toList] at hi hj
    obtain ⟨t, ht, -⟩ := (hcandidate ⟨i, hi⟩ c).mp hc
    obtain ⟨u, hu, -⟩ := (hcandidate ⟨j, hj⟩ d).mp hd
    rw [← heq] at hu
    exact absurd (congrArg Fin.val (htracks.once ht hu)) (by simp only; omega)
  have hcandidates := slotCandidates_eq (tickAt now) entry.users.toList [] hnodup
  rw [List.nil_append] at hcandidates
  rw [lookupResult, hcandidates]
  generalize entry.users.toList.filterMap (candidateOf (tickAt now)) = candidates at hmem hnodup ⊢
  have hperm := sortCandidates_perm candidates []
  have hsorted := sortCandidates_sorted candidates List.Pairwise.nil
  rw [List.nil_append] at hperm
  generalize candidates.foldl insertCandidate [] = sorted at hperm hsorted ⊢
  refine ⟨(hperm.map _).nodup_iff.mpr hnodup, ?_, ?_⟩
  · intro id
    rw [List.mem_map]
    constructor
    · rintro ⟨c, hc, rfl⟩
      obtain ⟨i, hi⟩ := (hmem c).mp (hperm.mem_iff.mp hc)
      obtain ⟨t, ht, hlive, -⟩ := (hcandidate i c).mp hi
      exact ⟨i, t, ht, hlive⟩
    · rintro ⟨i, t, ht, hlive⟩
      have hage : (UInt32.ofNat (now - t)).toNat = now - t := by
        rw [UInt32.toNat_ofNat']
        simp only [life] at hlive
        omega
      refine ⟨⟨id, UInt32.ofNat (now - t)⟩, hperm.mem_iff.mpr ((hmem _).mpr ⟨i, ?_⟩), rfl⟩
      exact (hcandidate i _).mpr ⟨t, ht, hlive, hage⟩
  · rw [List.pairwise_map]
    refine hsorted.imp_of_mem ?_
    intro c d hc hd hle t ht t' ht'
    obtain ⟨i, hi⟩ := (hmem c).mp (hperm.mem_iff.mp hc)
    obtain ⟨j, hj⟩ := (hmem d).mp (hperm.mem_iff.mp hd)
    obtain ⟨u, hu, -, hage⟩ := (hcandidate i c).mp hi
    obtain ⟨u', hu', -, hage'⟩ := (hcandidate j d).mp hj
    cases (htracks.seen hu).symm.trans ht
    cases (htracks.seen hu').symm.trans ht'
    rw [UInt32.le_iff_toNat_le, hage, hage'] at hle
    have hpast' := hpast j _ _ hu'
    omega

end lookup

end Mieru.ServerUser
