import Mathlib.Data.List.Basic
import Mathlib.Tactic.Common

/-! # Maps of items that know their key

No two items have the same key. The order of the items means nothing. -/

structure KeyedMap {α κ : Type*} (key : α → κ) where
  items : List α
  distinct : items.Pairwise fun a b => key a ≠ key b

namespace KeyedMap

variable {α κ : Type*} {key : α → κ} (m : KeyedMap key)

def empty : KeyedMap key := ⟨[], .nil⟩

def filter (p : α → Bool) : KeyedMap key := ⟨m.items.filter p, m.distinct.filter p⟩

variable [DecidableEq κ]

def lookup (k : κ) : Option α := m.items.find? fun a => key a = k

theorem lookup_eq_none {k : κ} : m.lookup k = none ↔ ∀ a ∈ m.items, key a ≠ k := by
  simp [lookup]

theorem mem_of_lookup {m : KeyedMap key} {k : κ} {a : α} (h : m.lookup k = some a) :
    a ∈ m.items ∧ key a = k := by
  refine ⟨List.mem_of_find?_eq_some h, ?_⟩
  simpa using List.find?_some h

def set (a : α) : KeyedMap key where
  items := m.items.map fun b => if key b = key a then a else b
  distinct := by
    have hkey : ∀ b, key (if key b = key a then a else b) = key b := by
      intro b
      split_ifs with h
      · exact h.symm
      · rfl
    refine List.pairwise_map.mpr (m.distinct.imp ?_)
    intro b c hne
    rw [hkey, hkey]
    exact hne

def loadOrStore (a : α) : KeyedMap key :=
  if h : m.lookup (key a) = none then
    { items := m.items ++ [a]
      distinct := by
        refine List.pairwise_append.mpr ⟨m.distinct, List.pairwise_singleton _ _, ?_⟩
        intro b hb c hc
        rw [List.mem_singleton.mp hc]
        exact m.lookup_eq_none.mp h b hb }
  else m

/-! ## What holds of all items -/

variable {m} {P : α → Prop} {a : α}

theorem forall_set (hm : ∀ b ∈ m.items, P b) (ha : P a) : ∀ b ∈ (m.set a).items, P b := by
  intro b hb
  obtain ⟨c, hc, rfl⟩ := List.mem_map.mp hb
  split_ifs
  · exact ha
  · exact hm c hc

theorem forall_loadOrStore (hm : ∀ b ∈ m.items, P b) (ha : P a) :
    ∀ b ∈ (m.loadOrStore a).items, P b := by
  intro b hb
  unfold loadOrStore at hb
  split_ifs at hb
  · rcases List.mem_append.mp hb with hb | hb
    · exact hm b hb
    · rw [List.mem_singleton.mp hb]
      exact ha
  · exact hm b hb

end KeyedMap
