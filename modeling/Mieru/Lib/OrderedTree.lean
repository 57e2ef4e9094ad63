import Mathlib.Data.List.Basic
import Mathlib.Order.Interval.Finset.Nat
import Mathlib.Tactic.Common

/-! # Bounded ordered sets

A set of items with pairwise distinct keys and a capacity, held in ascending key
order. Placing an item whose key is present replaces the old one. -/
namespace OrderedTree

variable {α : Type*} (key : α → ℕ)

def place (a : α) : List α → List α
  | [] => [a]
  | b :: bs =>
    if key a < key b then a :: b :: bs
    else if key a = key b then a :: bs
    else b :: place a bs

structure Tree (cap : ℕ) where
  items : List α
  sorted : items.Pairwise (fun a b => key a < key b)
  bounded : items.length ≤ cap

variable {key} {cap : ℕ} {a b : α} {l : List α}

theorem mem_place (h : l.Pairwise (fun a b => key a < key b)) :
    b ∈ place key a l ↔ b = a ∨ (b ∈ l ∧ key b ≠ key a) := by
  induction l with
  | nil => simp [place]
  | cons c l ih =>
    obtain ⟨hc, hl⟩ := List.pairwise_cons.mp h
    have hother : key a ≤ key c → b ∈ l → key b ≠ key a := fun hle hb => by
      have := hc b hb
      omega
    unfold place
    split_ifs with hlt heq
    · have hne : b = c → key b ≠ key a := by rintro rfl; omega
      simp only [List.mem_cons]
      have := hother (by omega)
      grind
    · have hne : b = c → key b = key a := by rintro rfl; exact heq.symm
      simp only [List.mem_cons]
      have := hother (by omega)
      grind
    · have hne : b = c → key b ≠ key a := by rintro rfl; omega
      simp only [List.mem_cons, ih hl]
      grind

theorem pairwise_place (h : l.Pairwise (fun a b => key a < key b)) :
    (place key a l).Pairwise (fun a b => key a < key b) := by
  induction l with
  | nil => simp [place]
  | cons c l ih =>
    obtain ⟨hc, hl⟩ := List.pairwise_cons.mp h
    unfold place
    split_ifs with hlt heq
    · refine List.pairwise_cons.mpr ⟨?_, h⟩
      intro d hd
      rcases List.mem_cons.mp hd with rfl | hd
      · exact hlt
      · exact Nat.lt_trans hlt (hc d hd)
    · refine List.pairwise_cons.mpr ⟨?_, hl⟩
      intro d hd
      rw [heq]
      exact hc d hd
    · refine List.pairwise_cons.mpr ⟨?_, ih hl⟩
      intro d hd
      rcases (mem_place hl).mp hd with rfl | ⟨hd, -⟩
      · omega
      · exact hc d hd

theorem length_place_le : (place key a l).length ≤ l.length + 1 := by
  induction l with
  | nil => simp [place]
  | cons c l ih =>
    unfold place
    split_ifs <;> simp only [List.length_cons] <;> omega

theorem place_of_forall_lt (h : ∀ b ∈ l, key b < key a) : place key a l = l ++ [a] := by
  induction l with
  | nil => rfl
  | cons c l ih =>
    have hc := h c List.mem_cons_self
    unfold place
    rw [if_neg (by omega), if_neg (by omega), ih fun b hb => h b (List.mem_cons_of_mem _ hb)]
    rfl

theorem length_le_of_keys_lt {lo hi : ℕ} (h : l.Pairwise (fun a b => key a < key b))
    (hkeys : ∀ b ∈ l, lo ≤ key b ∧ key b < hi) : l.length ≤ hi - lo := by
  have hnodup : (l.map key).Nodup :=
    List.Pairwise.map _ (fun _ _ => Nat.ne_of_lt) h
  have hsub : (l.map key).toFinset ⊆ Finset.Ico lo hi := by
    intro k hk
    obtain ⟨b, hb, rfl⟩ := List.mem_map.mp (List.mem_toFinset.mp hk)
    exact Finset.mem_Ico.mpr (hkeys b hb)
  have hcard := Finset.card_le_card hsub
  rwa [List.toFinset_card_of_nodup hnodup, List.length_map, Nat.card_Ico] at hcard

theorem le_length_of_keys_mem {lo hi : ℕ} (hkeys : ∀ k, lo ≤ k → k < hi → ∃ b ∈ l, key b = k) :
    hi - lo ≤ l.length := by
  have hsub : Finset.Ico lo hi ⊆ (l.map key).toFinset := by
    intro k hk
    obtain ⟨hlo, hhi⟩ := Finset.mem_Ico.mp hk
    obtain ⟨b, hb, rfl⟩ := hkeys k hlo hhi
    exact List.mem_toFinset.mpr (List.mem_map_of_mem hb)
  have hcard := (Finset.card_le_card hsub).trans (List.toFinset_card_le _)
  rwa [List.length_map, Nat.card_Ico] at hcard

namespace Tree

def empty : Tree key cap := ⟨[], List.Pairwise.nil, Nat.zero_le _⟩

/-- `none` when the tree is full, also if the item would only replace another. -/
def insert (t : Tree key cap) (a : α) : Option (Tree key cap) :=
  if h : t.items.length < cap then
    some ⟨place key a t.items, pairwise_place t.sorted, Nat.le_trans length_place_le h⟩
  else none

def tail (t : Tree key cap) : Tree key cap :=
  ⟨t.items.tail, t.sorted.tail, by have := t.bounded; simp only [List.length_tail]; omega⟩

/-- Change items in place; a change never moves an item. -/
def map (t : Tree key cap) (f : α → α) (hf : ∀ a, key (f a) = key a) : Tree key cap :=
  ⟨t.items.map f, List.pairwise_map.mpr (t.sorted.imp fun h => by rw [hf, hf]; exact h),
    by rw [List.length_map]; exact t.bounded⟩

@[simp] theorem items_empty : (empty : Tree key cap).items = [] := rfl

@[simp] theorem items_tail (t : Tree key cap) : t.tail.items = t.items.tail := rfl

@[simp] theorem items_map (t : Tree key cap) (f : α → α) (hf : ∀ a, key (f a) = key a) :
    (t.map f hf).items = t.items.map f := rfl

theorem insert_eq_some {t t' : Tree key cap} (h : t.insert a = some t') :
    t.items.length < cap ∧ t'.items = place key a t.items := by
  unfold insert at h
  split_ifs at h with hlt
  cases h
  exact ⟨hlt, rfl⟩

theorem insert_eq_none {t : Tree key cap} (h : t.insert a = none) : cap ≤ t.items.length := by
  unfold insert at h
  split_ifs at h with hlt
  omega

end Tree

end OrderedTree
