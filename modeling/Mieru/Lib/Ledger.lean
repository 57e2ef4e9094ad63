import Mathlib.Data.Int.Notation
import Mathlib.Data.List.Basic

/-! # Counts and tickets

A count for each resource, and for each user at most one ticket. A ticket is taken when the count
of its resource goes up and given back when the count goes down, so the counts say how many
tickets are out. -/

/-- `counts` by resource and `tickets` by user. -/
structure Ledger where
  counts : List ℤ
  tickets : List (Option ℕ)

namespace Ledger

structure Balanced (l : Ledger) : Prop where
  count_eq : ∀ (r : ℕ) (c : ℤ), l.counts[r]? = some c → c = l.tickets.count (some r)
  ticket_lt : ∀ r, some r ∈ l.tickets → r < l.counts.length

variable {counts : List ℤ} {tickets : List (Option ℕ)}

theorem balanced_empty : Balanced ⟨[], []⟩ := ⟨by simp, by simp⟩

theorem Balanced.resource (h : Balanced ⟨counts, tickets⟩) : Balanced ⟨counts ++ [0], tickets⟩ := by
  constructor
  · intro r c hc
    rw [List.getElem?_append] at hc
    split_ifs at hc with hr
    · exact h.count_eq r c hc
    · obtain ⟨rfl, rfl⟩ : r = counts.length ∧ c = 0 := by
        have hlast := List.getElem?_eq_some_iff.mp hc
        simp at hlast
        omega
      have hnone : some counts.length ∉ tickets := fun hmem => Nat.lt_irrefl _ (h.ticket_lt _ hmem)
      rw [List.count_eq_zero_of_not_mem hnone]
      rfl
  · intro r hr
    have hlt := h.ticket_lt r hr
    simp only [List.length_append] at hlt ⊢
    omega

theorem Balanced.user (h : Balanced ⟨counts, tickets⟩) : Balanced ⟨counts, tickets ++ [none]⟩ := by
  constructor
  · intro r c hc
    rw [List.count_append, h.count_eq r c hc]
    simp
  · intro r hr
    exact h.ticket_lt r (by simpa using hr)

theorem count_set {i : ℕ} {old : Option ℕ} (h : tickets[i]? = some old) (new t : Option ℕ) :
    (tickets.set i new).count t + (if old = t then 1 else 0) =
      tickets.count t + (if new = t then 1 else 0) := by
  obtain ⟨hi, hold⟩ := List.getElem?_eq_some_iff.mp h
  have hmem : old = t → 0 < tickets.count t := by
    rintro rfl
    exact List.count_pos_iff.mpr (List.mem_of_getElem? h)
  rw [List.count_set hi, hold]
  simp only [beq_iff_eq]
  split_ifs with h1 h2
  · have := hmem h1
    omega
  · have := hmem h1
    omega
  · omega
  · omega

theorem Balanced.take (h : Balanced ⟨counts, tickets⟩) {i r : ℕ} (hi : tickets[i]? = some none)
    (hr : r < counts.length) :
    Balanced ⟨counts.modify r (· + 1), tickets.set i (some r)⟩ := by
  constructor
  · intro q c hc
    have hset := count_set hi (some r) (some q)
    rw [List.getElem?_modify] at hc
    obtain ⟨c', hc', rfl⟩ := Option.map_eq_some_iff.mp hc
    rw [h.count_eq q c' hc']
    simp only [Option.some.injEq, reduceCtorEq, if_false] at hset
    dsimp only
    split_ifs at hset ⊢ with hq
    · omega
    · omega
  · intro q hq
    rw [List.length_modify]
    rcases List.mem_or_eq_of_mem_set hq with hq | hq
    · exact h.ticket_lt q hq
    · cases hq
      exact hr

theorem Balanced.give (h : Balanced ⟨counts, tickets⟩) {i r : ℕ}
    (hi : tickets[i]? = some (some r)) :
    Balanced ⟨counts.modify r (· - 1), tickets.set i none⟩ := by
  constructor
  · intro q c hc
    have hset := count_set hi none (some q)
    rw [List.getElem?_modify] at hc
    obtain ⟨c', hc', rfl⟩ := Option.map_eq_some_iff.mp hc
    rw [h.count_eq q c' hc']
    simp only [Option.some.injEq, reduceCtorEq, if_false] at hset
    dsimp only
    split_ifs at hset ⊢ with hq
    · omega
    · omega
  · intro q hq
    rw [List.length_modify]
    rcases List.mem_or_eq_of_mem_set hq with hq | hq
    · exact h.ticket_lt q hq
    · cases hq

end Ledger
