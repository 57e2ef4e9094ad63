import Mathlib.Data.Set.Insert
import Mathlib.Logic.Relation

/-! # Reliable delivery over a lossy network

One direction of a connection. Messages are numbered from zero. The network may lose,
duplicate, delay and reorder what was transmitted but never forges it, so it is the set
of everything transmitted so far. Acknowledgements are cumulative and may be stale. -/
namespace ReliableDelivery

variable {π : Type*}

@[ext]
structure Channel (π : Type*) where
  log : List π
  /-- What the sender can still transmit. -/
  held : Set (ℕ × π)
  wire : Set (ℕ × π)
  delivered : List π
  /-- The acknowledgements sent so far; `n` says that everything below `n` arrived. -/
  acks : Set ℕ

namespace Channel

inductive Step : Channel π → Channel π → Prop
  | create (c : Channel π) (m : π) :
      Step c { c with log := c.log ++ [m], held := insert (c.log.length, m) c.held }
  | transmit (c : Channel π) {m : ℕ × π} (hheld : m ∈ c.held) :
      Step c { c with wire := insert m c.wire }
  | deliver (c : Channel π) {m : π} (hwire : (c.delivered.length, m) ∈ c.wire) :
      Step c { c with delivered := c.delivered ++ [m] }
  | acknowledge (c : Channel π) {n : ℕ} (hle : n ≤ c.delivered.length) :
      Step c { c with acks := insert n c.acks }
  | release (c : Channel π) {n : ℕ} {held : Set (ℕ × π)} (hack : n ∈ c.acks)
      (hsub : held ⊆ c.held) (hkeep : ∀ m ∈ c.held, n ≤ m.1 → m ∈ held) :
      Step c { c with held := held }

def Steps : Channel π → Channel π → Prop := Relation.ReflTransGen Step

structure Invariant (c : Channel π) : Prop where
  held_log : ∀ m ∈ c.held, c.log[m.1]? = some m.2
  wire_log : ∀ m ∈ c.wire, c.log[m.1]? = some m.2
  delivered_prefix : c.delivered <+: c.log
  acks_le : ∀ n ∈ c.acks, n ≤ c.delivered.length
  undelivered_held : ∀ n m, c.log[n]? = some m → c.delivered.length ≤ n → (n, m) ∈ c.held

variable {c d : Channel π}

theorem prefix_concat {l k : List π} {m : π} (h : l <+: k) (hm : k[l.length]? = some m) :
    l ++ [m] <+: k := by
  obtain ⟨t, rfl⟩ := h
  cases t with
  | nil => simp at hm
  | cons a t =>
    simp only [List.getElem?_append_right (le_refl l.length), Nat.sub_self,
      List.getElem?_cons_zero, Option.some.injEq] at hm
    exact ⟨t, by simp [hm]⟩

theorem getElem?_log_append {l : List π} {n : ℕ} {a m : π} (h : l[n]? = some a) :
    (l ++ [m])[n]? = some a := by
  obtain ⟨hn, -⟩ := List.getElem?_eq_some_iff.mp h
  rw [List.getElem?_append_left hn]
  exact h

theorem Invariant.step (hc : Invariant c) (hstep : Step c d) : Invariant d := by
  cases hstep with
  | create m =>
    refine ⟨?_, ?_, ?_, hc.acks_le, ?_⟩
    · intro x hx
      rcases Set.mem_insert_iff.mp hx with rfl | hx
      · simp
      · exact getElem?_log_append (hc.held_log x hx)
    · intro x hx
      exact getElem?_log_append (hc.wire_log x hx)
    · exact hc.delivered_prefix.trans (List.prefix_append _ _)
    · intro n x hx hle
      rcases Nat.lt_or_ge n c.log.length with hlt | hge
      · rw [List.getElem?_append_left hlt] at hx
        exact Set.mem_insert_of_mem _ (hc.undelivered_held n x hx hle)
      · have hn : n = c.log.length := by
          have := (List.getElem?_eq_some_iff.mp hx).1
          simp only [List.length_append, List.length_singleton] at this
          omega
        subst hn
        simp only [List.getElem?_concat_length, Option.some.injEq] at hx
        exact hx ▸ Set.mem_insert _ _
  | transmit hheld =>
    refine ⟨hc.held_log, ?_, hc.delivered_prefix, hc.acks_le, hc.undelivered_held⟩
    intro x hx
    rcases Set.mem_insert_iff.mp hx with rfl | hx
    · exact hc.held_log x hheld
    · exact hc.wire_log x hx
  | deliver hwire =>
    refine ⟨hc.held_log, hc.wire_log, ?_, ?_, ?_⟩
    · exact prefix_concat hc.delivered_prefix (hc.wire_log _ hwire)
    · intro n hn
      have := hc.acks_le n hn
      simp only [List.length_append, List.length_singleton]
      omega
    · intro n x hx hle
      simp only [List.length_append, List.length_singleton] at hle
      exact hc.undelivered_held n x hx (by omega)
  | acknowledge hle =>
    refine ⟨hc.held_log, hc.wire_log, hc.delivered_prefix, ?_, hc.undelivered_held⟩
    intro n hn
    rcases Set.mem_insert_iff.mp hn with rfl | hn
    · exact hle
    · exact hc.acks_le n hn
  | release hack hsub hkeep =>
    -- whatever is given up is below an acknowledgement and so was delivered
    refine ⟨?_, hc.wire_log, hc.delivered_prefix, hc.acks_le, ?_⟩
    · intro x hx
      exact hc.held_log x (hsub hx)
    · intro n x hx hle
      exact hkeep _ (hc.undelivered_held n x hx hle) ((hc.acks_le _ hack).trans hle)

theorem Invariant.steps (hc : Invariant c) (hsteps : Steps c d) : Invariant d := by
  induction hsteps with
  | refl => exact hc
  | tail _ hstep ih => exact ih.step hstep

end Channel

end ReliableDelivery
