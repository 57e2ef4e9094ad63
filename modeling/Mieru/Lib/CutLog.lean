import Mathlib.Algebra.BigOperators.Group.List.Basic
import Mathlib.Algebra.Order.Monoid.Defs

/-! # A log cut into pieces

A summary of a log keeps one record for each of its consecutive pieces. What is known of the
records and their pieces carries over to sums over the summary and over the log. -/
namespace CutLog

variable {β ε : Type*}

/-- The log is cut into consecutive pieces, one for each record. -/
inductive Cut (P : β → List ε → Prop) : List β → List ε → Prop
  | nil : Cut P [] []
  | cons {b : β} {piece : List ε} {bs : List β} {log : List ε} (hb : P b piece)
      (hbs : Cut P bs log) : Cut P (b :: bs) (piece ++ log)

namespace Cut

variable {P Q : β → List ε → Prop} {b : β} {bs bs' : List β} {piece log log' : List ε}

theorem append (h : Cut P bs log) (h' : Cut P bs' log') : Cut P (bs ++ bs') (log ++ log') := by
  induction h with
  | nil => exact h'
  | cons hb _ ih =>
    rw [List.append_assoc]
    exact .cons hb ih

theorem singleton (hb : P b piece) : Cut P [b] piece := by
  have hcut := Cut.cons hb .nil
  rwa [List.append_nil] at hcut

theorem split (h : Cut P (bs ++ bs') log) :
    ∃ front back, log = front ++ back ∧ Cut P bs front ∧ Cut P bs' back := by
  induction bs generalizing log with
  | nil => exact ⟨[], log, rfl, .nil, h⟩
  | cons b bs ih =>
    cases h with
    | @cons _ piece _ rest hb hrest =>
      obtain ⟨front, back, rfl, hfront, hback⟩ := ih hrest
      exact ⟨piece ++ front, back, (List.append_assoc ..).symm, .cons hb hfront, hback⟩

theorem split_last (h : Cut P (bs ++ [b]) log) :
    ∃ front piece, log = front ++ piece ∧ Cut P bs front ∧ P b piece := by
  obtain ⟨front, back, rfl, hfront, hback⟩ := h.split
  cases hback with
  | cons hb hnil =>
    cases hnil
    exact ⟨front, _, by rw [List.append_nil], hfront, hb⟩

theorem mono (h : Cut P bs log)
    (hPQ : ∀ b piece, b ∈ bs → piece <:+: log → P b piece → Q b piece) : Cut Q bs log := by
  induction h with
  | nil => exact .nil
  | @cons b piece bs log hb _ ih =>
    have hpiece : piece <:+: piece ++ log := (List.prefix_append piece log).isInfix
    have hlog : log <:+: piece ++ log := (List.suffix_append piece log).isInfix
    refine .cons (hPQ b piece List.mem_cons_self hpiece hb) (ih fun b' piece' hmem hpiece' => ?_)
    exact hPQ b' piece' (List.mem_cons_of_mem b hmem) (hpiece'.trans hlog)

theorem exists_piece (h : Cut P bs log) (hb : b ∈ bs) : ∃ piece, P b piece := by
  induction h with
  | nil => cases hb
  | cons hfirst _ ih =>
    rcases List.mem_cons.mp hb with rfl | hb
    · exact ⟨_, hfirst⟩
    · exact ih hb

variable {M : Type*} [AddCommMonoid M] [PartialOrder M] [IsOrderedAddMonoid M]
  {f : β → M} {measure : List ε → M}

theorem sum_le_measure (h : Cut P bs log) (hnil : measure [] = 0)
    (happend : ∀ log log', measure (log ++ log') = measure log + measure log')
    (hP : ∀ b piece, P b piece → f b ≤ measure piece) : (bs.map f).sum ≤ measure log := by
  induction h with
  | nil => exact hnil.ge
  | cons hb _ ih =>
    rw [List.map_cons, List.sum_cons, happend]
    exact add_le_add (hP _ _ hb) ih

theorem measure_le_sum (h : Cut P bs log) (hnil : measure [] = 0)
    (happend : ∀ log log', measure (log ++ log') = measure log + measure log')
    (hP : ∀ b piece, P b piece → measure piece ≤ f b) : measure log ≤ (bs.map f).sum := by
  induction h with
  | nil => exact hnil.le
  | cons hb _ ih =>
    rw [List.map_cons, List.sum_cons, happend]
    exact add_le_add (hP _ _ hb) ih

end Cut

end CutLog
