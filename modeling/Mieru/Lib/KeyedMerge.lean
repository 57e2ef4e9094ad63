import Mathlib.Data.List.AList
import Mathlib.Data.List.Sort
import Mathlib.Order.Basic

/-! # Merging lists of items that know their key

The items are entered into a map one after another, so a later item replaces an earlier one with
the same key. The merged list is the map in the order of the keys. -/
namespace KeyedMerge

variable {α κ : Type*} (key : α → κ)

variable {key} in
theorem map_key_filterMap {f : κ → Option α} {ks : List κ}
    (h : ∀ k ∈ ks, ∃ a, f k = some a ∧ key a = k) : (ks.filterMap f).map key = ks := by
  induction ks with
  | nil => rfl
  | cons k ks ih =>
    obtain ⟨a, ha, hk⟩ := h k List.mem_cons_self
    rw [List.filterMap_cons_some ha, List.map_cons, hk,
      ih fun k' hk' => h k' (List.mem_cons_of_mem _ hk')]

section Map

variable [DecidableEq κ]

def lastWith (k : κ) (items : List α) : Option α := items.reverse.find? fun a => key a = k

def enter (m : AList fun _ : κ => α) (items : List α) : AList fun _ : κ => α :=
  items.foldl (fun m a => m.insert (key a) a) m

variable {key}

theorem lastWith_cons (k : κ) (a : α) (items : List α) :
    lastWith key k (a :: items) =
      (lastWith key k items).or (if key a = k then some a else none) := by
  unfold lastWith
  rw [List.reverse_cons, List.find?_append]
  by_cases h : key a = k <;> simp [h]

theorem mem_of_lastWith {k : κ} {a : α} {items : List α} (h : lastWith key k items = some a) :
    a ∈ items ∧ key a = k :=
  ⟨List.mem_reverse.mp (List.mem_of_find?_eq_some h), by simpa using List.find?_some h⟩

theorem lastWith_of_nodup {k : κ} {a : α} {items : List α} (hkeys : (items.map key).Nodup)
    (ha : a ∈ items) (hk : key a = k) : lastWith key k items = some a := by
  cases h : lastWith key k items with
  | none =>
    have hnone := List.find?_eq_none.mp h a (List.mem_reverse.mpr ha)
    simp [hk] at hnone
  | some b =>
    obtain ⟨hb, hkb⟩ := mem_of_lastWith h
    exact congrArg some (List.inj_on_of_nodup_map hkeys hb ha (hkb.trans hk.symm))

theorem lookup_enter (k : κ) (m : AList fun _ : κ => α) (items : List α) :
    (enter key m items).lookup k = (lastWith key k items).or (m.lookup k) := by
  induction items generalizing m with
  | nil => rfl
  | cons a items ih =>
    have hinsert : (m.insert (key a) a).lookup k =
        (if key a = k then some a else none).or (m.lookup k) := by
      by_cases h : key a = k
      · subst h
        simp
      · rw [AList.lookup_insert_ne (Ne.symm h), if_neg h, Option.none_or]
    have hstep : enter key m (a :: items) = enter key (m.insert (key a) a) items := rfl
    rw [hstep, ih, hinsert, lastWith_cons, Option.or_assoc]

end Map

variable [LinearOrder κ]

def sortedKeys (m : AList fun _ : κ => α) : List κ := m.keys.insertionSort (· ≤ ·)

def listed (m : AList fun _ : κ => α) : List α := (sortedKeys m).filterMap m.lookup

def merge (xs ys : List α) : List α := listed (enter key (enter key ∅ xs) ys)

theorem mem_sortedKeys {m : AList fun _ : κ => α} {k : κ} :
    k ∈ sortedKeys m ↔ (m.lookup k).isSome := by
  rw [AList.lookup_isSome, AList.mem_keys]
  exact List.mem_insertionSort _

theorem pairwise_sortedKeys (m : AList fun _ : κ => α) : (sortedKeys m).Pairwise (· < ·) := by
  have hle : (sortedKeys m).Pairwise (· ≤ ·) := List.pairwise_insertionSort _ _
  have hne : (sortedKeys m).Nodup := (List.perm_insertionSort _ _).nodup_iff.mpr m.keys_nodup
  exact (hle.and hne).imp fun h => lt_of_le_of_ne h.1 h.2

theorem listed_congr {m m' : AList fun _ : κ => α} (h : ∀ k, m.lookup k = m'.lookup k) :
    listed m = listed m' := by
  have hmem : ∀ k, k ∈ sortedKeys m ↔ k ∈ sortedKeys m' := by
    intro k
    rw [mem_sortedKeys, mem_sortedKeys, h]
  have hkeys : sortedKeys m = sortedKeys m' :=
    (pairwise_sortedKeys m).eq_of_mem_iff (pairwise_sortedKeys m') hmem
  have hlookup : (fun k => m.lookup k) = fun k => m'.lookup k := funext h
  unfold listed
  rw [hkeys]
  exact congrArg (fun f => List.filterMap f _) hlookup

variable {key}

theorem lookup_merged (xs ys : List α) (k : κ) :
    (enter key (enter key ∅ xs) ys).lookup k =
      (lastWith key k ys).or (lastWith key k xs) := by
  rw [lookup_enter, lookup_enter, AList.lookup_empty, Option.or_none]

theorem mem_sortedKeys_merged {xs ys : List α} {k : κ} :
    k ∈ sortedKeys (enter key (enter key ∅ xs) ys) ↔
      ∃ a, (lastWith key k ys).or (lastWith key k xs) = some a := by
  rw [mem_sortedKeys, lookup_merged, Option.isSome_iff_exists]

theorem key_of_or {k : κ} {a : α} {xs ys : List α}
    (h : (lastWith key k ys).or (lastWith key k xs) = some a) :
    (a ∈ ys ∨ a ∈ xs) ∧ key a = k := by
  rcases Option.or_eq_some_iff.mp h with hys | ⟨-, hxs⟩
  · exact ⟨.inl (mem_of_lastWith hys).1, (mem_of_lastWith hys).2⟩
  · exact ⟨.inr (mem_of_lastWith hxs).1, (mem_of_lastWith hxs).2⟩

theorem mem_merge {a : α} {xs ys : List α} :
    a ∈ merge key xs ys ↔ (lastWith key (key a) ys).or (lastWith key (key a) xs) = some a := by
  unfold merge listed
  rw [List.mem_filterMap]
  constructor
  · rintro ⟨k, -, hk⟩
    rw [lookup_merged] at hk
    rwa [(key_of_or hk).2]
  · intro h
    exact ⟨key a, mem_sortedKeys_merged.mpr ⟨a, h⟩, by rwa [lookup_merged]⟩

theorem pairwise_merge (xs ys : List α) : ((merge key xs ys).map key).Pairwise (· < ·) := by
  have hkeys : (merge key xs ys).map key =
      sortedKeys (enter key (enter key ∅ xs) ys) := by
    refine map_key_filterMap fun k hk => ?_
    obtain ⟨a, ha⟩ := mem_sortedKeys_merged.mp hk
    exact ⟨a, by rwa [lookup_merged], (key_of_or ha).2⟩
  rw [hkeys]
  exact pairwise_sortedKeys _

theorem lastWith_merge (k : κ) (xs ys : List α) :
    lastWith key k (merge key xs ys) = (lastWith key k ys).or (lastWith key k xs) := by
  have hnodup : ((merge key xs ys).map key).Nodup := (pairwise_merge xs ys).imp ne_of_lt
  cases h : (lastWith key k ys).or (lastWith key k xs) with
  | some a =>
    have hk := (key_of_or h).2
    refine lastWith_of_nodup hnodup (mem_merge.mpr ?_) hk
    rwa [hk]
  | none =>
    refine Option.eq_none_iff_forall_not_mem.mpr fun a ha => ?_
    obtain ⟨hmem, rfl⟩ := mem_of_lastWith ha
    rw [mem_merge.mp hmem] at h
    exact absurd h (by simp)

theorem mem_or_mem_of_mem_merge {a : α} {xs ys : List α} (h : a ∈ merge key xs ys) :
    a ∈ ys ∨ a ∈ xs := (key_of_or (mem_merge.mp h)).1

theorem merge_merge (xs ys : List α) : merge key (merge key xs ys) ys = merge key xs ys := by
  refine listed_congr fun k => ?_
  rw [lookup_merged, lookup_merged, lastWith_merge, ← Option.or_assoc, Option.or_self]

end KeyedMerge
