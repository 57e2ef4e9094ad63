import Mathlib.Algebra.BigOperators.Fin
import Mathlib.Order.Monotone.Basic
import Mieru.Lib.Machine

/-! # Publishing the cache statistics

The hot paths only increment a total. A flush claims what was counted since the last flush by a
compare-and-swap of `published`, and then adds the difference to the metric. Any number of
flushes may run at once. -/
namespace Mieru.ServerUser

open Machine

inductive FlushPc where
  | idle
  | looping
  | loaded (before : UInt64)
  | comparing (before now : UInt64)
  | adding (before now : UInt64)
  | panicked
  deriving DecidableEq, Repr

inductive FlushAction (n : ℕ) where
  | increment
  | call (i : Fin n)
  | loadPublished (i : Fin n)
  | loadTotal (i : Fin n)
  | compareAndSwap (i : Fin n)
  | add (i : Fin n)
  deriving DecidableEq, Repr

inductive FlushEvent where
  | incremented
  /-- The increments from number `before` up to `now` are added to the metric. -/
  | added (before now : UInt64)
  deriving DecidableEq, Repr

structure CacheCounter (n : ℕ) where
  total : UInt64 := 0
  published : UInt64 := 0
  metric : Int64 := 0
  flushes : Fin n → FlushPc := fun _ => .idle

namespace CacheCounter

variable {n : ℕ} {s s' : CacheCounter n} {outs out : List FlushEvent}

def goto (s : CacheCounter n) (i : Fin n) (pc : FlushPc) : CacheCounter n :=
  { s with flushes := Function.update s.flushes i pc }

@[simp] theorem flushes_goto (s : CacheCounter n) (i : Fin n) (pc : FlushPc) :
    (s.goto i pc).flushes = Function.update s.flushes i pc := rfl

@[simp] theorem published_goto (s : CacheCounter n) (i : Fin n) (pc : FlushPc) :
    (s.goto i pc).published = s.published := rfl

theorem goto_goto (s : CacheCounter n) (i : Fin n) (pc pc' : FlushPc) :
    (s.goto i pc).goto i pc' = s.goto i pc' := by
  simp only [goto, Function.update_idem]

/-- A counter panics on a negative difference. -/
def addDelta (s : CacheCounter n) (i : Fin n) (before now : UInt64) :
    CacheCounter n × List FlushEvent :=
  let delta := (now - before).toInt64
  if delta < 0 then (s.goto i .panicked, [])
  else ({ s with metric := s.metric + delta }.goto i .idle, [.added before now])

def step (s : CacheCounter n) : FlushAction n → Option (CacheCounter n × List FlushEvent)
  | .increment => some ({ s with total := s.total + 1 }, [.incremented])
  | .call i =>
    match s.flushes i with
    | .idle => some (s.goto i .looping, [])
    | _ => none
  | .loadPublished i =>
    match s.flushes i with
    | .looping => some (s.goto i (.loaded s.published), [])
    | _ => none
  | .loadTotal i =>
    match s.flushes i with
    | .loaded before =>
      if s.total = before then some (s.goto i .idle, [])
      else some (s.goto i (.comparing before s.total), [])
    | _ => none
  | .compareAndSwap i =>
    match s.flushes i with
    | .comparing before now =>
      if s.published = before then
        some ({ s with published := now }.goto i (.adding before now), [])
      else some (s.goto i .looping, [])
    | _ => none
  | .add i =>
    match s.flushes i with
    | .adding before now => some (s.addDelta i before now)
    | _ => none

def Quiet (s : CacheCounter n) : Prop := ∀ i, s.flushes i = .idle

end CacheCounter

/-! ## What was claimed -/

section Claims

def claimOf (F : ℕ → ℕ) (before now : UInt64) : ℕ := F now.toNat - F before.toNat

def FlushEvent.claim (F : ℕ → ℕ) : FlushEvent → ℕ
  | incremented => 0
  | added before now => claimOf F before now

/-- What a flush has claimed and not added yet. -/
def FlushPc.claim (F : ℕ → ℕ) : FlushPc → ℕ
  | adding before now => claimOf F before now
  | _ => 0

def increments (outs : List FlushEvent) : ℕ := outs.count .incremented

def addedClaims (F : ℕ → ℕ) (outs : List FlushEvent) : ℕ := (outs.map (FlushEvent.claim F)).sum

def timesAdded (k : ℕ) (outs : List FlushEvent) : ℕ :=
  outs.countP fun
    | .incremented => false
    | .added before now => before.toNat ≤ k ∧ k < now.toNat

variable {F : ℕ → ℕ} {outs outs' : List FlushEvent}

@[simp] theorem increments_append :
    increments (outs ++ outs') = increments outs + increments outs' :=
  List.count_append

@[simp] theorem addedClaims_append :
    addedClaims F (outs ++ outs') = addedClaims F outs + addedClaims F outs' := by
  simp [addedClaims]

theorem timesAdded_eq (k : ℕ) (outs : List FlushEvent) :
    timesAdded k outs = addedClaims (fun x => if k < x then 1 else 0) outs := by
  induction outs with
  | nil => rfl
  | cons ev outs ih =>
    unfold timesAdded addedClaims at ih ⊢
    rw [List.countP_cons, ih, List.map_cons, List.sum_cons, Nat.add_comm]
    congr 1
    cases ev with
    | incremented => rfl
    | added before now =>
      simp only [FlushEvent.claim, claimOf, decide_eq_true_eq]
      split_ifs <;> omega

end Claims

namespace CacheCounter

variable {n : ℕ} {s s' : CacheCounter n} {outs out : List FlushEvent}

def Knows (s : CacheCounter n) : FlushPc → Prop
  | .loaded before => before ≤ s.published
  | .comparing before now => before ≤ now ∧ now ≤ s.total
  | .adding before now => before ≤ now ∧ now ≤ s.published
  | .panicked => False
  | _ => True

/-- Every number below `published` was added, or is claimed by one flush. -/
structure Settled (s : CacheCounter n) (outs : List FlushEvent) : Prop where
  counted : s.total.toNat = increments outs
  le : s.published ≤ s.total
  knows : ∀ i, s.Knows (s.flushes i)
  claimed : ∀ F : ℕ → ℕ, Monotone F → F 0 = 0 →
    addedClaims F outs + ∑ i, (s.flushes i).claim F = F s.published.toNat
  grown : s.metric.toInt = addedClaims id outs

theorem settled_start : Settled ({} : CacheCounter n) [] where
  counted := rfl
  le := UInt64.le_refl 0
  knows := fun _ => trivial
  claimed := by
    intro F _ hzero
    simp [addedClaims, FlushPc.claim, hzero]
  grown := rfl

theorem Knows.mono {pc : FlushPc} (h : s.Knows pc) (hpub : s.published ≤ s'.published)
    (htotal : s.total ≤ s'.total) : s'.Knows pc := by
  cases pc with
  | loaded before => exact UInt64.le_trans h hpub
  | comparing before now => exact ⟨h.1, UInt64.le_trans h.2 htotal⟩
  | adding before now => exact ⟨h.1, UInt64.le_trans h.2 hpub⟩
  | panicked => exact h
  | _ => trivial

theorem knows_goto {i : Fin n} {pc : FlushPc} (h : ∀ j, s.Knows (s.flushes j))
    (hpc : s.Knows pc) (j : Fin n) : (s.goto i pc).Knows ((s.goto i pc).flushes j) := by
  have hpc' : s.Knows (Function.update s.flushes i pc j) := by
    by_cases hij : j = i
    · rw [hij, Function.update_self]
      exact hpc
    · rw [Function.update_of_ne hij]
      exact h j
  exact Knows.mono hpc' (UInt64.le_refl _) (UInt64.le_refl _)

theorem sum_goto (s : CacheCounter n) (i : Fin n) (pc : FlushPc) (F : ℕ → ℕ) :
    ∑ j, ((s.goto i pc).flushes j).claim F + (s.flushes i).claim F =
      ∑ j, (s.flushes j).claim F + pc.claim F := by
  have hrest : ∑ j ∈ Finset.univ.erase i, ((s.goto i pc).flushes j).claim F =
      ∑ j ∈ Finset.univ.erase i, (s.flushes j).claim F := by
    refine Finset.sum_congr rfl fun j hj => ?_
    rw [flushes_goto, Function.update_of_ne (Finset.ne_of_mem_erase hj)]
  have hself : (s.goto i pc).flushes i = pc := by rw [flushes_goto, Function.update_self]
  rw [← Finset.add_sum_erase _ _ (Finset.mem_univ i), hrest, hself,
    ← Finset.add_sum_erase _ (fun j => (s.flushes j).claim F) (Finset.mem_univ i)]
  omega

theorem Settled.goto {i : Fin n} {pc : FlushPc} (h : s.Settled outs)
    (hold : ∀ F, (s.flushes i).claim F = 0) (hnew : ∀ F, pc.claim F = 0) (hpc : s.Knows pc) :
    (s.goto i pc).Settled (outs ++ []) := by
  rw [List.append_nil]
  refine ⟨h.counted, h.le, knows_goto h.knows hpc, ?_, h.grown⟩
  intro F hmono hzero
  have hsum := sum_goto s i pc F
  rw [hold, hnew] at hsum
  rw [Nat.add_zero, Nat.add_zero] at hsum
  rw [hsum]
  exact h.claimed F hmono hzero

theorem Settled.increment (h : s.Settled outs) (hfew : increments outs + 1 < 2 ^ 64) :
    ({ s with total := s.total + 1 } : CacheCounter n).Settled (outs ++ [.incremented]) := by
  have hnext : (s.total + 1).toNat = s.total.toNat + 1 := by
    rw [UInt64.toNat_add, h.counted]
    exact Nat.mod_eq_of_lt hfew
  have hle : s.total ≤ s.total + 1 := by
    rw [UInt64.le_iff_toNat_le, hnext]
    omega
  refine ⟨?_, UInt64.le_trans h.le hle, ?_, ?_, ?_⟩
  · rw [hnext, h.counted, increments_append]
    rfl
  · intro i
    exact (h.knows i).mono (UInt64.le_refl _) hle
  · intro F hmono hzero
    simpa [addedClaims, FlushEvent.claim] using h.claimed F hmono hzero
  · simpa [addedClaims, FlushEvent.claim] using h.grown

theorem Settled.swap {i : Fin n} {now : UInt64} (h : s.Settled outs)
    (hpc : s.flushes i = .comparing s.published now) :
    ({ s with published := now }.goto i (.adding s.published now)).Settled (outs ++ []) := by
  have hknows := h.knows i
  rw [hpc] at hknows
  obtain ⟨hle, htotal⟩ := hknows
  rw [List.append_nil]
  refine ⟨h.counted, htotal, ?_, ?_, h.grown⟩
  · refine knows_goto (fun j => ?_) ⟨hle, UInt64.le_refl now⟩
    exact (h.knows j).mono hle (UInt64.le_refl _)
  · intro F hmono hzero
    have hsum : _ + (s.flushes i).claim F =
        ∑ j, (s.flushes j).claim F + (F now.toNat - F s.published.toNat) :=
      sum_goto { s with published := now } i (.adding s.published now) F
    have hnone : (s.flushes i).claim F = 0 := by rw [hpc]; rfl
    have hbase := h.claimed F hmono hzero
    have hF : F s.published.toNat ≤ F now.toNat := hmono (UInt64.le_iff_toNat_le.mp hle)
    rw [hnone, Nat.add_zero] at hsum
    rw [hsum]
    show _ = F now.toNat
    omega

theorem toInt_toInt64 {x : UInt64} (h : x.toNat < 2 ^ 63) : x.toInt64.toInt = x.toNat := by
  have hsmall : 2 * x.toBitVec.toNat < 2 ^ 64 := by
    rw [UInt64.toNat_toBitVec]
    omega
  exact BitVec.toInt_eq_toNat_of_lt hsmall

theorem toInt_sub {before now : UInt64} (hle : before ≤ now) (hnow : now.toNat < 2 ^ 63) :
    (now - before).toInt64.toInt = (now.toNat - before.toNat : ℕ) := by
  have hsub := UInt64.toNat_sub_of_le now before hle
  rw [toInt_toInt64 (by omega), hsub]

theorem not_negative {before now : UInt64} (hle : before ≤ now) (hnow : now.toNat < 2 ^ 63) :
    ¬(now - before).toInt64 < 0 := by
  rw [Int64.lt_iff_toInt_lt, toInt_sub hle hnow]
  exact not_lt.mpr (Int.natCast_nonneg _)

theorem Settled.add {i : Fin n} {before now : UInt64} (h : s.Settled outs)
    (hfew : increments outs < 2 ^ 63) (hpc : s.flushes i = .adding before now) :
    (s.addDelta i before now).1.Settled (outs ++ (s.addDelta i before now).2) := by
  have hknows := h.knows i
  rw [hpc] at hknows
  have hpub : s.published.toNat ≤ s.total.toNat := UInt64.le_iff_toNat_le.mp h.le
  have hnow : now.toNat ≤ s.published.toNat := UInt64.le_iff_toNat_le.mp hknows.2
  have hcounted := h.counted
  have hmove (F : ℕ → ℕ) : ∑ j, ((s.goto i .idle).flushes j).claim F + claimOf F before now =
      ∑ j, (s.flushes j).claim F := by
    have hsum := sum_goto s i .idle F
    rwa [hpc] at hsum
  have hone (F : ℕ → ℕ) : addedClaims F [.added before now] = claimOf F before now := rfl
  have hgrown : (s.metric + (now - before).toInt64).toInt =
      addedClaims id (outs ++ [.added before now]) := by
    have hall := h.claimed id monotone_id rfl
    have hsplit := hmove id
    have hclaim : claimOf id before now = now.toNat - before.toNat := rfl
    simp only [id_eq] at hall
    rw [Int64.toInt_add, toInt_sub hknows.1 (by omega), h.grown, addedClaims_append, hone, hclaim]
    push_cast
    apply Int.bmod_eq_of_le
    · omega
    · omega
  unfold addDelta
  rw [if_neg (not_negative hknows.1 (by omega))]
  refine ⟨?_, h.le, knows_goto h.knows trivial, ?_, hgrown⟩
  · rw [increments_append]
    exact h.counted
  · intro F hmono hzero
    have hbase := h.claimed F hmono hzero
    have hsplit := hmove F
    show addedClaims F (outs ++ [.added before now]) +
      ∑ j, ((s.goto i .idle).flushes j).claim F = F s.published.toNat
    rw [addedClaims_append, hone]
    omega

theorem Settled.step {a : FlushAction n} (h : s.Settled outs)
    (hfew : increments (outs ++ out) < 2 ^ 63) (hstep : s.step a = some (s', out)) :
    s'.Settled (outs ++ out) := by
  cases a with
  | increment =>
    cases hstep
    rw [increments_append] at hfew
    exact h.increment (lt_of_lt_of_le hfew (by decide))
  | call i =>
    simp only [CacheCounter.step] at hstep
    split at hstep
    · rename_i hpc
      cases hstep
      exact h.goto (fun F => by rw [hpc]; rfl) (fun _ => rfl) trivial
    · cases hstep
  | loadPublished i =>
    simp only [CacheCounter.step] at hstep
    split at hstep
    · rename_i hpc
      cases hstep
      exact h.goto (fun F => by rw [hpc]; rfl) (fun _ => rfl) (UInt64.le_refl _)
    · cases hstep
  | loadTotal i =>
    simp only [CacheCounter.step] at hstep
    split at hstep
    · rename_i before hpc
      have hbefore := h.knows i
      rw [hpc] at hbefore
      split at hstep
      · cases hstep
        exact h.goto (fun F => by rw [hpc]; rfl) (fun _ => rfl) trivial
      · cases hstep
        exact h.goto (fun F => by rw [hpc]; rfl) (fun _ => rfl)
          ⟨UInt64.le_trans hbefore h.le, UInt64.le_refl _⟩
    · cases hstep
  | compareAndSwap i =>
    simp only [CacheCounter.step] at hstep
    split at hstep
    · rename_i before now hpc
      split at hstep
      · rename_i heq
        subst heq
        cases hstep
        exact h.swap hpc
      · cases hstep
        exact h.goto (fun F => by rw [hpc]; rfl) (fun _ => rfl) trivial
    · cases hstep
  | add i =>
    simp only [CacheCounter.step] at hstep
    split at hstep
    · rename_i before now hpc
      have heq := Option.some.inj hstep
      rw [increments_append] at hfew
      have hadd := h.add (by omega) hpc
      rwa [heq] at hadd
    · cases hstep

theorem settled_of_reaches {es : List (FlushAction n)} (h : Reaches step Free {} es outs s)
    (hfew : increments outs < 2 ^ 63) : s.Settled outs := by
  induction h with
  | start => exact settled_start
  | next _ _ hstep ih =>
    refine (ih ?_).step hfew hstep
    rw [increments_append] at hfew
    omega

/-! ## The last flush -/

/-- While the total stands still, this holds from the call of a flush on. -/
def Covers (s : CacheCounter n) : FlushPc → Prop
  | .idle | .adding _ _ => s.published = s.total
  | .comparing _ now => now = s.total
  | _ => True

theorem Covers.mono {pc : FlushPc} (h : s.Covers pc) (htotal : s'.total = s.total)
    (hpub : s.published = s.total → s'.published = s'.total) : s'.Covers pc := by
  cases pc with
  | idle => exact hpub h
  | adding before now => exact hpub h
  | comparing before now => exact h.trans htotal.symm
  | _ => trivial

theorem covers_goto {i j : Fin n} {pc : FlushPc} (h : s.Covers (s.flushes i))
    (hpc : j = i → s.Covers pc) : (s.goto j pc).Covers ((s.goto j pc).flushes i) := by
  have hpc' : s.Covers (Function.update s.flushes j pc i) := by
    by_cases hij : j = i
    · subst hij
      rw [Function.update_self]
      exact hpc rfl
    · rw [Function.update_of_ne (Ne.symm hij)]
      exact h
  exact Covers.mono hpc' rfl id

theorem covers_step {a : FlushAction n} {i : Fin n} (hs : s.Settled outs) (ha : a ≠ .increment)
    (h : s.Covers (s.flushes i)) (hstep : s.step a = some (s', out)) :
    s'.Covers (s'.flushes i) := by
  cases a with
  | increment => exact absurd rfl ha
  | call j =>
    simp only [CacheCounter.step] at hstep
    split at hstep
    · cases hstep
      exact covers_goto h fun _ => trivial
    · cases hstep
  | loadPublished j =>
    simp only [CacheCounter.step] at hstep
    split at hstep
    · cases hstep
      exact covers_goto h fun _ => trivial
    · cases hstep
  | loadTotal j =>
    simp only [CacheCounter.step] at hstep
    split at hstep
    · rename_i before hpc
      have hbefore := hs.knows j
      rw [hpc] at hbefore
      split at hstep
      · rename_i heq
        cases hstep
        -- the total was published before it was looked at
        refine covers_goto h fun _ => UInt64.le_antisymm hs.le ?_
        rw [heq]
        exact hbefore
      · cases hstep
        exact covers_goto h fun _ => rfl
    · cases hstep
  | compareAndSwap j =>
    simp only [CacheCounter.step] at hstep
    split at hstep
    · rename_i before now hpc
      split at hstep
      · rename_i heq
        subst heq
        cases hstep
        have hnow := hs.knows j
        rw [hpc] at hnow
        have hkept : s.published = s.total → now = s.total := by
          intro hpub
          exact UInt64.le_antisymm hnow.2 (hpub ▸ hnow.1)
        refine covers_goto (Covers.mono h rfl hkept) ?_
        rintro rfl
        rw [hpc] at h
        exact h
      · cases hstep
        exact covers_goto h fun _ => trivial
    · cases hstep
  | add j =>
    simp only [CacheCounter.step] at hstep
    split at hstep
    · rename_i before now hpc
      have hdone : j = i → s.published = s.total := by
        rintro rfl
        rw [hpc] at h
        exact h
      have heq := Option.some.inj hstep
      unfold addDelta at heq
      dsimp only at heq
      split at heq
      · cases heq
        exact covers_goto h fun _ => trivial
      · cases heq
        exact covers_goto (Covers.mono h rfl id) hdone
    · cases hstep

theorem increments_of_step {a : FlushAction n} (ha : a ≠ .increment)
    (hstep : s.step a = some (s', out)) : increments out = 0 := by
  cases a with
  | increment => exact absurd rfl ha
  | add i =>
    simp only [CacheCounter.step] at hstep
    split at hstep
    · have heq := Option.some.inj hstep
      unfold addDelta at heq
      dsimp only at heq
      split at heq <;> (cases heq; rfl)
    · cases hstep
  | call i | loadPublished i =>
    simp only [CacheCounter.step] at hstep
    split at hstep
    · cases hstep
      rfl
    · cases hstep
  | loadTotal i | compareAndSwap i =>
    simp only [CacheCounter.step] at hstep
    split at hstep
    · split_ifs at hstep <;> (cases hstep; rfl)
    · cases hstep

theorem covers_of_reaches {es' : List (FlushAction n)} {outs' : List FlushEvent} {i : Fin n}
    (hs : s.Settled outs) (hfew : increments outs < 2 ^ 63)
    (h : Reaches step (fun _ a => a ≠ .increment) s es' outs' s') :
    s'.Settled (outs ++ outs') ∧ increments outs' = 0 ∧
      (.call i ∈ es' → s'.Covers (s'.flushes i)) := by
  induction h with
  | start => exact ⟨by rwa [List.append_nil], rfl, fun hcall => absurd hcall List.not_mem_nil⟩
  | @next es outs' out t t' a _ ha hstep ih =>
    obtain ⟨ht, hnone, hcovers⟩ := ih
    have hout := increments_of_step ha hstep
    rw [← List.append_assoc]
    refine ⟨ht.step (by simp only [increments_append]; omega) hstep, ?_, ?_⟩
    · rw [increments_append, hnone, hout]
    · intro hcall
      rcases List.mem_append.mp hcall with hbefore | hnow
      · exact covers_step ht ha (hcovers hbefore) hstep
      · rw [← List.mem_singleton.mp hnow] at hstep
        simp only [CacheCounter.step] at hstep
        split at hstep
        · cases hstep
          rw [flushes_goto, Function.update_self]
          trivial
        · cases hstep

theorem flush_run {i : Fin n} (hidle : s.flushes i = .idle)
    (hdelta : ¬(s.total - s.published).toInt64 < 0) :
    ∃ es' outs' s', Reaches step (fun _ a => a ≠ .increment) s es' outs' s' ∧ .call i ∈ es' ∧
      s'.flushes = s.flushes ∧ s'.total = s.total ∧ s'.published = s.total := by
  have hcall : s.step (.call i) = some (s.goto i .looping, []) := by
    simp only [step, hidle]
  have hload : (s.goto i .looping).step (.loadPublished i) =
      some (s.goto i (.loaded s.published), []) := by
    simp only [step, flushes_goto, Function.update_self, goto_goto]
    rfl
  have hloaded : Reaches step (fun _ a => a ≠ FlushAction.increment) s _ _ _ :=
    .next (.next .start (by simp) hcall) (by simp) hload
  have hback : Function.update s.flushes i .idle = s.flushes := by
    rw [← hidle, Function.update_eq_self]
  by_cases heq : s.total = s.published
  · have hdone : (s.goto i (.loaded s.published)).step (.loadTotal i) =
        some (s.goto i .idle, []) := by
      simp only [step, flushes_goto, Function.update_self, goto_goto]
      exact if_pos heq
    exact ⟨_, _, _, hloaded.next (by simp) hdone, by simp, hback, rfl, heq.symm⟩
  · have htotal : (s.goto i (.loaded s.published)).step (.loadTotal i) =
        some (s.goto i (.comparing s.published s.total), []) := by
      simp only [step, flushes_goto, Function.update_self, goto_goto]
      exact if_neg heq
    have hswap : (s.goto i (.comparing s.published s.total)).step (.compareAndSwap i) =
        some ({ s with published := s.total }.goto i (.adding s.published s.total), []) := by
      simp only [step, flushes_goto, Function.update_self, published_goto, if_true]
      simp only [goto, Function.update_idem]
    have hadd :
        ({ s with published := s.total }.goto i (.adding s.published s.total)).step (.add i) =
        some ({ s with
          published := s.total
          metric := s.metric + (s.total - s.published).toInt64 }.goto i .idle,
          [.added s.published s.total]) := by
      simp only [step, flushes_goto, Function.update_self, addDelta, if_neg hdelta]
      simp only [goto, Function.update_idem]
    have hrun := ((hloaded.next (by simp) htotal).next (by simp) hswap).next (by simp) hadd
    exact ⟨_, _, _, hrun, by simp, hback, rfl, rfl⟩

theorem Settled.quiet (hs : s.Settled outs) (hquiet : s.Quiet) :
    s.metric.toInt = s.published.toNat := by
  have hall := hs.claimed id monotone_id rfl
  have hnone : ∑ i, (s.flushes i).claim id = 0 := by
    refine Finset.sum_eq_zero fun i _ => ?_
    rw [hquiet i]
    rfl
  rw [hs.grown, ← Nat.add_zero (addedClaims id outs), ← hnone, hall]
  rfl

/-- As long as fewer than 2 ^ 63 increments were counted, each is added to the metric once at
most. When no flush is in progress, the metric has grown by what is published, which is never
more than the total, and a flush after the last increment makes the three equal. -/
theorem flush_once {es : List (FlushAction n)} (h : Reaches step Free {} es outs s)
    (hfew : increments outs < 2 ^ 63) :
    (∀ k, timesAdded k outs ≤ 1) ∧ s.published ≤ s.total ∧
      (s.Quiet → s.metric.toInt = s.published.toNat) ∧
      (∀ i es' outs' s', Reaches step (fun _ a => a ≠ .increment) s es' outs' s' →
        .call i ∈ es' → s'.Quiet →
        s'.total = s.total ∧ s'.published = s.total ∧ s'.metric.toInt = s.total.toNat) ∧
      (∀ i, s.flushes i = .idle → ∃ es' outs' s',
        Reaches step (fun _ a => a ≠ .increment) s es' outs' s' ∧ .call i ∈ es' ∧
          s'.flushes = s.flushes) := by
  have hs := settled_of_reaches h hfew
  refine ⟨?_, hs.le, hs.quiet, ?_, ?_⟩
  · intro k
    have hmono : Monotone fun x => if k < x then 1 else 0 := by
      intro x y hxy
      dsimp only
      split_ifs <;> omega
    have hall := hs.claimed _ hmono (if_neg (Nat.not_lt_zero k))
    rw [timesAdded_eq]
    split_ifs at hall <;> omega
  · intro i es' outs' s' h' hcall hquiet
    obtain ⟨hs', hnone, hcovers⟩ := covers_of_reaches hs hfew h'
    have htotal : s'.total = s.total := by
      rw [← UInt64.toNat_inj, hs'.counted, hs.counted, increments_append, hnone, Nat.add_zero]
    have hpub : s'.published = s'.total := by
      have hdone := hcovers hcall
      rwa [hquiet i] at hdone
    refine ⟨htotal, hpub.trans htotal, ?_⟩
    rw [hs'.quiet hquiet, hpub, htotal]
  · intro i hidle
    have hdelta := not_negative hs.le (by rw [hs.counted]; exact hfew)
    obtain ⟨es', outs', s', hrun, hcall, hback, -, -⟩ := flush_run hidle hdelta
    exact ⟨es', outs', s', hrun, hcall, hback⟩

/-- Two flushes meet: the second one loses the swap and finds nothing left. -/
theorem two_flushes_once : ∃ es outs, ∃ s : CacheCounter 2,
    Reaches step Free {} es outs s ∧ increments outs < 2 ^ 63 ∧ s.Quiet ∧
      s.total = 3 ∧ s.published = 3 ∧ s.metric.toInt = s.published.toNat := by
  have hsummary : (run step ({} : CacheCounter 2)
      [.increment, .call 0, .loadPublished 0, .increment, .call 1, .loadPublished 1, .loadTotal 0,
        .increment, .loadTotal 1, .compareAndSwap 1, .compareAndSwap 0, .loadPublished 0, .add 1,
        .loadTotal 0]).map (fun r => (increments r.2, r.1.flushes 0, r.1.flushes 1, r.1.total,
          r.1.published)) = some (3, .idle, .idle, 3, 3) := by decide +kernel
  obtain ⟨⟨s, outs⟩, hrun, heq⟩ := Option.map_eq_some_iff.mp hsummary
  simp only [Prod.mk.injEq] at heq
  obtain ⟨hcount, hzero, hone, htotal, hpub⟩ := heq
  have hreach := reaches_of_run hrun
  have hfew : increments outs < 2 ^ 63 := by rw [hcount]; decide
  have hquiet : s.Quiet := by
    intro i
    match i with
    | 0 => exact hzero
    | 1 => exact hone
  exact ⟨_, outs, s, hreach, hfew, hquiet, htotal, hpub, (flush_once hreach hfew).2.2.1 hquiet⟩

/-! ## When the total wraps -/

theorem reaches_published (k : ℕ) : ∃ es outs, ∃ s : CacheCounter 1,
    Reaches step Free {} es outs s ∧ s.Quiet ∧ s.total = UInt64.ofNat k ∧
      s.published = UInt64.ofNat k := by
  induction k with
  | zero => exact ⟨[], [], {}, .start, fun _ => rfl, rfl, rfl⟩
  | succ k ih =>
    obtain ⟨es, outs, s, hreach, hquiet, htotal, hpub⟩ := ih
    have hnext := hreach.next trivial (show s.step .increment = _ from rfl)
    have hdelta : ¬(s.total + 1 - s.published).toInt64 < 0 := by
      rw [htotal, hpub, UInt64.add_comm, UInt64.add_sub_cancel]
      decide
    obtain ⟨es', outs', s', hrun, -, hflushes, htotal', hpub'⟩ :=
      flush_run (s := { s with total := s.total + 1 }) (hquiet 0) hdelta
    have hone : UInt64.ofNat (k + 1) = s.total + 1 := by rw [htotal, UInt64.ofNat_add]; rfl
    refine ⟨_, _, s', hnext.trans hrun.free, ?_, ?_, ?_⟩
    · intro i
      rw [hflushes]
      exact hquiet i
    · rw [htotal', hone]
    · rw [hpub', hone]

/-- After 2 ^ 64 increments the total is 0 again, and less than what was published. -/
theorem published_exceeds_total : ∃ es outs, ∃ s : CacheCounter 1,
    Reaches step Free {} es outs s ∧ s.Quiet ∧ ¬s.published ≤ s.total := by
  obtain ⟨es, outs, s, hreach, hquiet, htotal, hpub⟩ := reaches_published (2 ^ 64 - 1)
  refine ⟨_, _, _, hreach.next trivial (show s.step .increment = _ from rfl), hquiet, ?_⟩
  dsimp only
  rw [htotal, hpub]
  decide

end CacheCounter

end Mieru.ServerUser
