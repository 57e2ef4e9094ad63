import Mathlib.Data.List.Perm.Subperm
import Mathlib.Tactic.Common

/-! # Trying candidates in order

A scan tries candidates one after another and stops at the first that succeeds. What it
finds hardly depends on the order: not whether it finds anything, and nothing at all
when the successes agree. -/
namespace Scan

variable {α β : Type} {f : α → Option β} {xs ys : List α} {b : β}

/-- The first success, and the candidates that were tried for it. -/
def scan (f : α → Option β) : List α → Option β × List α
  | [] => (none, [])
  | x :: xs =>
    match f x with
    | some b => (some b, [x])
    | none => ((scan f xs).1, x :: (scan f xs).2)

theorem scan_cons_some {x : α} (h : f x = some b) (xs : List α) :
    scan f (x :: xs) = (some b, [x]) := by
  simp only [scan, h]

theorem scan_cons_none {x : α} (h : f x = none) (xs : List α) :
    scan f (x :: xs) = ((scan f xs).1, x :: (scan f xs).2) := by
  simp only [scan, h]

theorem scan_fst (f : α → Option β) (xs : List α) : (scan f xs).1 = xs.findSome? f := by
  induction xs with
  | nil => rfl
  | cons x xs ih =>
    cases h : f x with
    | some b => rw [scan_cons_some h, List.findSome?_cons, h]
    | none => rw [scan_cons_none h, List.findSome?_cons, h, ih]

theorem scan_snd_of_none (h : (scan f xs).1 = none) : (scan f xs).2 = xs := by
  induction xs with
  | nil => rfl
  | cons x xs ih =>
    cases hx : f x with
    | some b =>
      rw [scan_cons_some hx] at h
      cases h
    | none =>
      rw [scan_cons_none hx] at h ⊢
      rw [ih h]

theorem scan_append (f : α → Option β) (xs ys : List α) :
    scan f (xs ++ ys) =
      match (scan f xs).1 with
      | some b => (some b, (scan f xs).2)
      | none => ((scan f ys).1, (scan f xs).2 ++ (scan f ys).2) := by
  induction xs with
  | nil => rfl
  | cons x xs ih =>
    rw [List.cons_append]
    cases h : f x with
    | some b => rw [scan_cons_some h, scan_cons_some h]
    | none =>
      rw [scan_cons_none h, scan_cons_none h, ih]
      cases (scan f xs).1 with
      | some b => rfl
      | none => rfl

theorem scan_snd_sublist (f : α → Option β) (xs : List α) : (scan f xs).2.Sublist xs := by
  induction xs with
  | nil => exact List.Sublist.refl _
  | cons x xs ih =>
    cases h : f x with
    | some b =>
      rw [scan_cons_some h]
      exact (List.nil_sublist xs).cons_cons x
    | none =>
      rw [scan_cons_none h]
      exact ih.cons_cons x

theorem findSome?_isSome_congr (h : ∀ x, x ∈ xs ↔ x ∈ ys) :
    (xs.findSome? f).isSome = (ys.findSome? f).isSome := by
  rw [Bool.eq_iff_iff, List.findSome?_isSome_iff, List.findSome?_isSome_iff]
  exact exists_congr fun x => and_congr_left fun _ => h x

/-- One candidate at most succeeds: then any order finds it. -/
theorem findSome?_congr (h : ∀ x, x ∈ xs ↔ x ∈ ys)
    (hunique : ∀ x ∈ xs, ∀ y ∈ xs, (f x).isSome → (f y).isSome → f x = f y) :
    xs.findSome? f = ys.findSome? f := by
  cases hxs : xs.findSome? f with
  | none =>
    have hsome := findSome?_isSome_congr (f := f) h
    rw [hxs] at hsome
    have hnot : ¬(ys.findSome? f).isSome = true := by
      rw [← hsome]
      exact Bool.false_ne_true
    exact (Option.not_isSome_iff_eq_none.mp hnot).symm
  | some b =>
    cases hys : ys.findSome? f with
    | none =>
      have hsome := findSome?_isSome_congr (f := f) h
      rw [hxs, hys] at hsome
      cases hsome
    | some b' =>
      obtain ⟨x, hx, hfx⟩ := List.exists_of_findSome?_eq_some hxs
      obtain ⟨y, hy, hfy⟩ := List.exists_of_findSome?_eq_some hys
      rw [← hfx, ← hfy]
      exact hunique x hx y ((h y).mpr hy) (by rw [hfx]; rfl) (by rw [hfy]; rfl)

end Scan
