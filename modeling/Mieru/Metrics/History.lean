import Mieru.Lib.CutLog
import Mieru.Metrics.Counter
import Mathlib.Algebra.Order.BigOperators.Group.List
import Mathlib.Data.List.TakeWhile
import Mathlib.Tactic.Ring

/-! # The history of a counter is its log

Buckets move from tier to tier and are merged, but always at the ends: read from the coarsest
tier to the finest, the buckets cut the log of increments into consecutive pieces. -/
namespace Mieru.Metrics

open Clock CutLog

structure Increment where
  delta : Int64
  time : ℤ

def Increment.ms (a : Increment) : Int64 := unixMilli a.time

def total (log : List Increment) : ℤ := (log.map fun a => a.delta.toInt).sum

@[simp] theorem total_append (log log' : List Increment) :
    total (log ++ log') = total log + total log' := by
  simp [total]

@[simp] theorem total_singleton (a : Increment) : total [a] = a.delta.toInt := by
  simp [total]

theorem total_nonneg {log : List Increment} (h : ∀ a ∈ log, 0 ≤ a.delta.toInt) :
    0 ≤ total log := by
  refine List.sum_nonneg fun x hx => ?_
  obtain ⟨a, ha, rfl⟩ := List.mem_map.mp hx
  exact h a ha

def Tier.rollUps : List (Tier × Tier) := [(second, minute), (minute, hour), (hour, day)]

theorem Tier.ne_of_rollUps {i next : Tier} (h : (i, next) ∈ rollUps) : i ≠ next := by
  rintro rfl
  cases i <;> simp [rollUps] at h

/-- What is known of a bucket in a tier and of the increments it stands for. -/
abbrev Account := Tier → Bucket → List Increment → Prop

/-- An account that stays right when a bucket moves on and when it is merged with the last one
of its new tier, which stands for the increments just before. -/
structure Account.Admits (P : Account) (log : List Increment) (now : Int64) : Prop where
  move : ∀ {i next b piece}, (i, next) ∈ Tier.rollUps → piece <:+: log → P i b piece →
    i.retain < now - b.start → P next ⟨floorTo b.start next.width, b.delta⟩ piece
  merge : ∀ {i last front start delta piece}, front ++ piece <:+: log → P i last front →
    P i ⟨start, delta⟩ piece → start ≤ last.start →
    P i { last with delta := last.delta + delta } (front ++ piece)

namespace Buckets

variable {P : Account} {log front mid piece : List Increment} {now : Int64} {i next : Tier}

theorem cut_recorded {items : List Bucket} {start delta : Int64} (hP : P.Admits log now)
    (h : Cut (P i) items front) (hnew : P i ⟨start, delta⟩ piece) (hlog : front ++ piece <:+: log) :
    Cut (P i) (recorded items start delta) (front ++ piece) := by
  unfold recorded
  split
  · rename_i hnone
    rw [List.getLast?_eq_none_iff] at hnone
    subst hnone
    exact h.append (.singleton hnew)
  · rename_i last hlast
    obtain ⟨init, rfl⟩ := List.getLast?_eq_some_iff.mp hlast
    split_ifs with hle
    · obtain ⟨before, held, rfl, hinit, hheld⟩ := h.split_last
      rw [List.append_assoc] at hlog
      have hsuffix : held ++ piece <:+: before ++ (held ++ piece) :=
        (List.suffix_append before _).isInfix
      rw [List.dropLast_concat, List.append_assoc]
      exact hinit.append (.singleton (hP.merge (hsuffix.trans hlog) hheld hnew hle))
    · exact h.append (.singleton hnew)

theorem cut_moved {items expired : List Bucket} (hP : P.Admits log now)
    (hpair : (i, next) ∈ Tier.rollUps) (h : Cut (P next) items front)
    (hexpired : Cut (fun b piece => P i b piece ∧ i.retain < now - b.start) expired mid)
    (hlog : front ++ mid <:+: log) :
    Cut (P next) (expired.foldl (fun items b =>
      recorded items (floorTo b.start next.width) b.delta) items) (front ++ mid) := by
  induction hexpired generalizing items front with
  | nil =>
    rw [List.append_nil]
    exact h
  | @cons b piece bs rest hb _ ih =>
    rw [← List.append_assoc] at hlog ⊢
    have hfront : front ++ piece <:+: log :=
      (List.prefix_append (front ++ piece) rest).isInfix.trans hlog
    have hpiece : piece <:+: log := (List.suffix_append front piece).isInfix.trans hfront
    exact ih (cut_recorded hP h (hP.move hpair hpiece hb.1 hb.2) hfront) hlog

end Buckets

namespace Counter

def inOrder (part : Tier → List Increment) : List Increment :=
  part .day ++ part .hour ++ part .minute ++ part .second

theorem part_within (part : Tier → List Increment) (i : Tier) : part i <:+: inOrder part := by
  cases i with
  | second => exact ⟨part .day ++ part .hour ++ part .minute, [], by simp [inOrder]⟩
  | minute => exact ⟨part .day ++ part .hour, part .second, by simp [inOrder]⟩
  | hour => exact ⟨part .day, part .minute ++ part .second, by simp [inOrder]⟩
  | day => exact ⟨[], part .hour ++ part .minute ++ part .second, by simp [inOrder]⟩

/-- The buckets stand for the increments of the log, the oldest in the coarsest tier. -/
def Stands (P : Account) (c : Counter) (log : List Increment) : Prop :=
  ∃ part, log = inOrder part ∧ ∀ i, Cut (P i) (c.history i).items (part i)

variable {P : Account} {c : Counter} {log : List Increment} {now : Int64}

theorem Stands.of_history {c' : Counter} (h : c.Stands P log) (heq : c'.history = c.history) :
    c'.Stands P log := by
  unfold Stands
  rw [heq]
  exact h

theorem history_foldl_record (next : Tier) (bs : List Bucket) (c : Counter) :
    let moved := bs.foldl (fun c b => c.record next b.start b.delta) c
    (moved.history next).items = bs.foldl (fun items b =>
      Buckets.recorded items (floorTo b.start next.width) b.delta) (c.history next).items ∧
    ∀ j, j ≠ next → moved.history j = c.history j := by
  induction bs generalizing c with
  | nil => exact ⟨rfl, fun _ _ => rfl⟩
  | cons b bs ih =>
    obtain ⟨hnext, hothers⟩ := ih (c.record next b.start b.delta)
    refine ⟨?_, fun j hj => ?_⟩
    · rw [List.foldl_cons, hnext]
      simp only [record, Function.update_self]
      rfl
    · rw [List.foldl_cons, hothers j hj]
      exact Function.update_of_ne hj _ _

theorem history_compactTier (now : Int64) (c : Counter) {i next : Tier} (hne : i ≠ next) :
    let expired := (c.history i).items.takeWhile fun b => i.retain < now - b.start
    ((compactTier now c (i, next)).history next).items = expired.foldl (fun items b =>
      Buckets.recorded items (floorTo b.start next.width) b.delta) (c.history next).items ∧
    (c.history i).items = expired ++ ((compactTier now c (i, next)).history i).items ∧
    ∀ j, j ≠ i → j ≠ next → (compactTier now c (i, next)).history j = c.history j := by
  intro expired
  obtain ⟨hnext, hothers⟩ := history_foldl_record next expired c
  refine ⟨?_, ?_, fun j hi hj => ?_⟩
  · rw [← hnext]
    exact congrArg Buckets.items (Function.update_of_ne hne.symm _ _)
  · have hrest : (compactTier now c (i, next)).history i =
        (c.history i).drop expired.length := Function.update_self ..
    rw [hrest]
    exact (List.prefix_iff_eq_append.mp (List.takeWhile_prefix _)).symm
  · exact (Function.update_of_ne hi _ _).trans (hothers j hj)

theorem inOrder_rollUp {part : Tier → List Increment} {i next : Tier} {mid rest : List Increment}
    (hpair : (i, next) ∈ Tier.rollUps) (hpart : part i = mid ++ rest) :
    part next ++ mid <:+: inOrder part ∧
      inOrder (Function.update (Function.update part i rest) next (part next ++ mid)) =
        inOrder part := by
  simp only [Tier.rollUps, List.mem_cons, Prod.mk.injEq, List.not_mem_nil, or_false] at hpair
  rcases hpair with ⟨rfl, rfl⟩ | ⟨rfl, rfl⟩ | ⟨rfl, rfl⟩
  · refine ⟨⟨part .day ++ part .hour, rest, ?_⟩, ?_⟩
    · simp [inOrder, hpart]
    · simp [inOrder, Function.update, hpart]
  · refine ⟨⟨part .day, rest ++ part .second, ?_⟩, ?_⟩
    · simp [inOrder, hpart]
    · simp [inOrder, Function.update, hpart]
  · refine ⟨⟨[], rest ++ part .minute ++ part .second, ?_⟩, ?_⟩
    · simp [inOrder, hpart]
    · simp [inOrder, Function.update, hpart]

theorem Stands.compactTier {i next : Tier} (h : c.Stands P log) (hP : P.Admits log now)
    (hpair : (i, next) ∈ Tier.rollUps) : (compactTier now c (i, next)).Stands P log := by
  obtain ⟨part, rfl, hcut⟩ := h
  obtain ⟨hnext, hrest, hothers⟩ := history_compactTier now c (Tier.ne_of_rollUps hpair)
  have hold := hcut i
  rw [hrest] at hold
  obtain ⟨mid, rest, hpart, hexpired, hkept⟩ := hold.split
  obtain ⟨hwithin, horder⟩ := inOrder_rollUp hpair hpart
  have hall : Cut (fun b piece => P i b piece ∧ i.retain < now - b.start)
      ((c.history i).items.takeWhile fun b => i.retain < now - b.start) mid := by
    refine hexpired.mono fun b piece hmem _ hb => ⟨hb, ?_⟩
    have hold := List.mem_takeWhile_imp hmem
    exact of_decide_eq_true hold
  refine ⟨Function.update (Function.update part i rest) next (part next ++ mid), horder.symm,
    fun j => ?_⟩
  by_cases hj : j = next
  · subst hj
    rw [Function.update_self, hnext]
    exact Buckets.cut_moved hP hpair (hcut j) hall hwithin
  · rw [Function.update_of_ne hj]
    by_cases hi : j = i
    · subst hi
      rw [Function.update_self]
      exact hkept
    · rw [Function.update_of_ne hi, hothers j hi hj]
      exact hcut j

theorem Stands.compact (h : c.Stands P log) (hP : P.Admits log now) :
    (c.compact now).Stands P log := by
  have hminute : (Counter.compactTier now c (.second, .minute)).Stands P log :=
    h.compactTier hP (by simp [Tier.rollUps])
  have hhour : (Counter.compactTier now _ (.minute, .hour)).Stands P log :=
    hminute.compactTier hP (by simp [Tier.rollUps])
  exact hhour.compactTier hP (by simp [Tier.rollUps])

theorem Stands.record {ms delta : Int64} {a : Increment} (h : c.Stands P log)
    (hP : P.Admits (log ++ [a]) now)
    (hnew : P .second ⟨floorTo ms Tier.second.width, delta⟩ [a]) :
    (c.record .second ms delta).Stands P (log ++ [a]) := by
  obtain ⟨part, rfl, hcut⟩ := h
  refine ⟨Function.update part .second (part .second ++ [a]), ?_, fun j => ?_⟩
  · simp [inOrder, Function.update]
  · by_cases hj : j = .second
    · subst hj
      have hwithin : part .second ++ [a] <:+: inOrder part ++ [a] := by
        rw [inOrder, List.append_assoc _ (part .second)]
        exact (List.suffix_append _ _).isInfix
      rw [Function.update_self]
      simp only [Counter.record, Function.update_self]
      exact Buckets.cut_recorded hP (hcut .second) hnew hwithin
    · rw [Function.update_of_ne hj]
      simp only [Counter.record, Function.update_of_ne hj]
      exact hcut j

theorem Stands.addWithTime {a : Increment} (h : c.Stands P log) (hseries : c.timeSeries = true)
    (hdelta : a.delta ≠ 0) (hP : P.Admits (log ++ [a]) a.ms)
    (hnew : P .second ⟨floorTo a.ms Tier.second.width, a.delta⟩ [a]) :
    (c.addWithTime a.delta a.time).Stands P (log ++ [a]) := by
  have hrecord : Stands P { c.record .second a.ms a.delta with
      lastUpdate := max (c.record .second a.ms a.delta).lastUpdate a.ms } (log ++ [a]) :=
    (h.record hP hnew).of_history rfl
  unfold Counter.addWithTime
  rw [if_neg hdelta, if_neg (not_not.mpr hseries)]
  dsimp only
  split_ifs
  · exact (hrecord.compact hP).of_history rfl
  · exact hrecord.of_history rfl

end Counter

/-! ## Rounding -/

/-- The first millisecond that can be rounded down to a whole day. -/
def firstDay : Int64 := -9223372036828800000

theorem toInt_floorTo {ms w : Int64} (hw : 0 < w.toInt)
    (hfit : -2 ^ 63 ≤ ms.toInt / w.toInt * w.toInt) :
    (floorTo ms w).toInt = ms.toInt / w.toInt * w.toInt := by
  have hcut := Int.emod_add_mul_ediv ms.toInt w.toInt
  have hnonneg := Int.emod_nonneg ms.toInt hw.ne'
  have hlt := Int.emod_lt_of_pos ms.toInt hw
  have hms := ms.toInt_lt
  have hwmax := w.toInt_lt
  rw [mul_comm] at hcut
  have hrest : (if ms % w < 0 then ms % w + w else ms % w).toInt = ms.toInt % w.toInt := by
    have hmod : (ms % w).toInt = ms.toInt.tmod w.toInt := Int64.toInt_mod ms w
    rw [Int.tmod_eq_emod] at hmod
    split_ifs with hneg
    · rw [Int64.lt_iff_toInt_lt, hmod] at hneg
      split_ifs at hmod hneg with hsign
      · rw [Int64.toInt_zero] at hneg
        omega
      · rw [Int64.toInt_add, hmod, Int.bmod_eq_of_le (by omega) (by omega)]
        omega
    · rw [Int64.lt_iff_toInt_lt, hmod] at hneg
      split_ifs at hmod hneg with hsign
      · omega
      · rw [Int64.toInt_zero] at hneg
        omega
  unfold floorTo
  dsimp only
  rw [Int64.toInt_sub, hrest, Int.bmod_eq_of_le (by omega) (by omega)]
  omega

theorem Tier.width_pos (i : Tier) : 0 < i.width.toInt := by
  cases i <;> decide

theorem firstDay_le_round {ms : Int64} (h : firstDay ≤ ms) (i : Tier) :
    firstDay.toInt ≤ ms.toInt / i.width.toInt * i.width.toInt := by
  rw [Int64.le_iff_toInt_le] at h
  have hfirst : firstDay.toInt = -9223372036828800000 := rfl
  have hwidth : i.width.toInt = 1000 ∨ i.width.toInt = 60000 ∨ i.width.toInt = 3600000 ∨
      i.width.toInt = 86400000 := by
    cases i <;> decide
  rcases hwidth with hwidth | hwidth | hwidth | hwidth <;> rw [hwidth] <;> omega

theorem toInt_floorTo_width {ms : Int64} (h : firstDay ≤ ms) (i : Tier) :
    (floorTo ms i.width).toInt = ms.toInt / i.width.toInt * i.width.toInt := by
  have hround := firstDay_le_round h i
  have hfirst : firstDay.toInt = -9223372036828800000 := rfl
  exact toInt_floorTo i.width_pos (by omega)

theorem firstDay_le_floorTo {ms : Int64} (h : firstDay ≤ ms) (i : Tier) :
    firstDay ≤ floorTo ms i.width := by
  rw [Int64.le_iff_toInt_le, toInt_floorTo_width h]
  exact firstDay_le_round h i

/-! ## Nothing is lost -/

/-- The sum is right, and if no time is too early, so is the start. -/
def Account.exact (early : Prop) : Account := fun i b piece =>
  b.delta = Int64.ofInt (total piece) ∧
    (early ∨ i.width.toInt ∣ b.start.toInt ∧ firstDay ≤ b.start)

theorem Account.exact_admits (early : Prop) (log : List Increment) (now : Int64) :
    (exact early).Admits log now where
  move := by
    rintro i next b piece - - ⟨hsum, hstart⟩ -
    refine ⟨hsum, hstart.imp_right fun ⟨_, hfirst⟩ => ⟨?_, firstDay_le_floorTo hfirst next⟩⟩
    change next.width.toInt ∣ (floorTo b.start next.width).toInt
    rw [toInt_floorTo_width hfirst]
    exact Dvd.intro_left _ rfl
  merge := by
    rintro i last front start delta piece - ⟨hlast, hstart⟩ ⟨hdelta, -⟩ -
    refine ⟨?_, hstart⟩
    change delta = _ at hdelta
    change last.delta + delta = _
    rw [hlast, hdelta, total_append, Int64.ofInt_add]

theorem Account.exact_new {early : Prop} {a : Increment} (h : early ∨ firstDay ≤ a.ms) :
    exact early .second ⟨floorTo a.ms Tier.second.width, a.delta⟩ [a] := by
  refine ⟨by rw [total_singleton, Int64.ofInt_toInt], h.imp_right fun hfirst => ⟨?_, ?_⟩⟩
  · change Tier.second.width.toInt ∣ (floorTo a.ms Tier.second.width).toInt
    rw [toInt_floorTo_width hfirst]
    exact Dvd.intro_left _ rfl
  · exact firstDay_le_floorTo hfirst .second

namespace Counter

def addAll (c : Counter) (log : List Increment) : Counter :=
  log.foldl (fun c a => c.addWithTime a.delta a.time) c

theorem addAll_concat (c : Counter) (log : List Increment) (a : Increment) :
    c.addAll (log ++ [a]) = (c.addAll log).addWithTime a.delta a.time := by
  rw [addAll, List.foldl_append]
  rfl

/-- Increments of zero leave no trace. -/
def noted (log : List Increment) : List Increment := log.filter fun a => a.delta ≠ 0

theorem noted_concat (log : List Increment) (a : Increment) :
    noted (log ++ [a]) = if a.delta = 0 then noted log else noted log ++ [a] := by
  unfold noted
  rw [List.filter_append]
  by_cases ha : a.delta = 0
  · simp [ha]
  · simp [ha]

theorem total_noted (log : List Increment) : total (noted log) = total log := by
  induction log using List.reverseRecOn with
  | nil => rfl
  | append_singleton log a ih =>
    rw [noted_concat, total_append, total_singleton]
    split_ifs with ha
    · rw [ih, ha]
      exact (add_zero _).symm
    · rw [total_append, total_singleton, ih]

theorem compactTier_eq (now : Int64) (c : Counter) (tiers : Tier × Tier) :
    ∃ history, c.compactTier now tiers = { c with history := history } := by
  have hfold (next : Tier) (bs : List Bucket) (c : Counter) :
      ∃ history, bs.foldl (fun c b => c.record next b.start b.delta) c =
        { c with history := history } := by
    induction bs generalizing c with
    | nil => exact ⟨c.history, rfl⟩
    | cons b bs ih =>
      obtain ⟨history, heq⟩ := ih (c.record next b.start b.delta)
      exact ⟨history, heq⟩
  obtain ⟨history, heq⟩ := hfold tiers.2
    ((c.history tiers.1).items.takeWhile fun b => tiers.1.retain < now - b.start) c
  unfold compactTier
  dsimp only
  rw [heq]
  exact ⟨_, rfl⟩

theorem compact_eq (now : Int64) (c : Counter) :
    ∃ history, c.compact now = { c with history := history } := by
  obtain ⟨h1, heq1⟩ := compactTier_eq now c (.second, .minute)
  obtain ⟨h2, heq2⟩ := compactTier_eq now { c with history := h1 } (.minute, .hour)
  obtain ⟨h3, heq3⟩ := compactTier_eq now { c with history := h2 } (.hour, .day)
  refine ⟨h3, ?_⟩
  simp only [compact, List.foldl_cons, List.foldl_nil, heq1, heq2, heq3]

theorem addWithTime_eq (c : Counter) (delta : Int64) (t : Time) :
    ∃ history lastUpdate nextCompact, c.addWithTime delta t = { c with
      value := c.value + delta
      history := history
      lastUpdate := lastUpdate
      nextCompact := nextCompact } := by
  unfold addWithTime
  split_ifs with hdelta hseries
  · subst hdelta
    exact ⟨c.history, c.lastUpdate, c.nextCompact, by rw [Int64.add_zero]⟩
  · dsimp only
    split_ifs
    · obtain ⟨history, heq⟩ := compact_eq (unixMilli t) { c.record .second (unixMilli t) delta with
        lastUpdate := max (c.record .second (unixMilli t) delta).lastUpdate (unixMilli t) }
      rw [heq]
      exact ⟨_, _, _, rfl⟩
    · exact ⟨_, _, _, rfl⟩
  · exact ⟨c.history, c.lastUpdate, c.nextCompact, rfl⟩

theorem addAll_eq (c : Counter) (log : List Increment) :
    ∃ history lastUpdate nextCompact, c.addAll log = { c with
      value := c.value + Int64.ofInt (total log)
      history := history
      lastUpdate := lastUpdate
      nextCompact := nextCompact } := by
  induction log using List.reverseRecOn with
  | nil => exact ⟨c.history, c.lastUpdate, c.nextCompact, by simp [addAll, total]⟩
  | append_singleton log a ih =>
    obtain ⟨history, lastUpdate, nextCompact, heq⟩ := ih
    obtain ⟨history', lastUpdate', nextCompact', heq'⟩ :=
      addWithTime_eq (c.addAll log) a.delta a.time
    refine ⟨history', lastUpdate', nextCompact', ?_⟩
    rw [addAll_concat, heq', heq, total_append, total_singleton, Int64.ofInt_add,
      Int64.ofInt_toInt, Int64.add_assoc]

theorem stands_addAll {early : Prop} (name : String) (log : List Increment)
    (h : ∀ a ∈ log, early ∨ firstDay ≤ a.ms) :
    (addAll { name, timeSeries := true } log).Stands (Account.exact early) (noted log) := by
  induction log using List.reverseRecOn with
  | nil => exact ⟨fun _ => [], rfl, fun _ => .nil⟩
  | append_singleton log a ih =>
    have hstands := ih fun x hx => h x (List.mem_append_left _ hx)
    rw [addAll_concat, noted_concat]
    split_ifs with hdelta
    · rw [hdelta]
      exact hstands
    · obtain ⟨history, _, _, heq⟩ := addAll_eq { name, timeSeries := true } log
      have hseries : (addAll { name, timeSeries := true } log).timeSeries = true := by rw [heq]
      exact hstands.addWithTime hseries hdelta (Account.exact_admits _ _ _)
        (Account.exact_new (h a (List.mem_append_right _ (List.mem_singleton_self a))))

def Fits (log : List Increment) : Prop :=
  ∀ part, part <:+: log → -2 ^ 63 ≤ total part ∧ total part < 2 ^ 63

theorem Fits.toInt {log part : List Increment} (h : Fits log) (hpart : part <:+: log) :
    (Int64.ofInt (total part)).toInt = total part := by
  obtain ⟨hlow, hhigh⟩ := h part hpart
  exact Int64.toInt_ofInt_of_le hlow hhigh

theorem Fits.noted {log : List Increment} (h : Fits log) : Fits (noted log) := by
  rintro part ⟨front, back, heq⟩
  obtain ⟨start, ending, rfl, hstart, -⟩ := List.filter_eq_append_iff.mp heq.symm
  obtain ⟨before, middle, rfl, -, hmiddle⟩ := List.filter_eq_append_iff.mp hstart
  have hpart : total part = total middle := hmiddle ▸ total_noted middle
  rw [hpart]
  exact h middle ⟨before, ending, rfl⟩

theorem fits_of_nonneg {log : List Increment} (hnonneg : ∀ a ∈ log, 0 ≤ a.delta.toInt)
    (htotal : total log < 2 ^ 63) : Fits log := by
  rintro part ⟨front, back, rfl⟩
  have hfront : 0 ≤ total front := total_nonneg fun a ha => hnonneg a (by simp [ha])
  have hpart : 0 ≤ total part := total_nonneg fun a ha => hnonneg a (by simp [ha])
  have hback : 0 ≤ total back := total_nonneg fun a ha => hnonneg a (by simp [ha])
  rw [total_append, total_append] at htotal
  omega

def stored (c : Counter) (i : Tier) : ℤ := ((c.history i).items.map fun b => b.delta.toInt).sum

theorem stored_eq {c : Counter} {early : Prop} {i : Tier} {log part : List Increment}
    (hcut : Cut (Account.exact early i) (c.history i).items part) (hpart : part <:+: log)
    (hfits : Fits log) : c.stored i = total part := by
  have hexact : Cut (fun b piece => b.delta.toInt = total piece) (c.history i).items part := by
    refine hcut.mono fun b piece _ hpiece hb => ?_
    rw [hb.1, hfits.toInt (hpiece.trans hpart)]
  exact le_antisymm (hexact.sum_le_measure rfl total_append fun _ _ hb => hb.le)
    (hexact.measure_le_sum rfl total_append fun _ _ hb => hb.ge)

theorem value_addAll (c : Counter) (log : List Increment) :
    (c.addAll log).value = c.value + Int64.ofInt (total log) := by
  obtain ⟨history, lastUpdate, nextCompact, heq⟩ := addAll_eq c log
  rw [heq]

theorem start_aligned (name : String) {log : List Increment} (htimes : ∀ a ∈ log, firstDay ≤ a.ms)
    {i : Tier} {b : Bucket}
    (hb : b ∈ ((addAll { name, timeSeries := true } log).history i).items) :
    i.width.toInt ∣ b.start.toInt := by
  obtain ⟨part, -, hcut⟩ : Stands (Account.exact False) _ (noted log) :=
    stands_addAll name log fun a ha => .inr (htimes a ha)
  obtain ⟨piece, -, hstart⟩ := (hcut i).exists_piece hb
  exact (hstart.resolve_left id).1

/-- Whatever the clock does, no increment is dropped or counted twice, and the buckets of a tier
are in order. They start on multiples of its width unless rounding leaves the `int64` range. -/
theorem history_adds_up (name : String) (log : List Increment) (hfits : Fits log) :
    let c := addAll { name, timeSeries := true } log
    (Tier.all.map c.stored).sum = c.value.toInt ∧
    ∀ i, (c.history i).items.Pairwise (fun a b => a.start < b.start) ∧
      ((∀ a ∈ log, firstDay ≤ a.ms) →
        ∀ b ∈ (c.history i).items, i.width.toInt ∣ b.start.toInt) := by
  intro c
  refine ⟨?_, fun i => ⟨(c.history i).sorted, fun htimes b hb => start_aligned name htimes hb⟩⟩
  · obtain ⟨part, hpart, hcut⟩ : c.Stands (Account.exact True) (noted log) :=
      stands_addAll name log fun _ _ => .inl trivial
    have hfits' : Fits (inOrder part) := hpart ▸ hfits.noted
    have hstored (i : Tier) : c.stored i = total (part i) :=
      stored_eq (hcut i) (part_within part i) hfits'
    have hvalue : c.value.toInt = total log := by
      rw [value_addAll, Int64.zero_add, hfits.toInt (List.infix_refl log)]
    have htotal : total (inOrder part) = total log := by rw [← hpart, total_noted]
    simp only [inOrder, total_append] at htotal
    simp only [Tier.all, List.map_cons, List.map_nil, List.sum_cons, List.sum_nil, hstored]
    omega

/-- The clock goes back by two minutes and then before 1970. In the end there are buckets in every
tier. -/
def jumpingLog : List Increment := [
  ⟨5, 3600000000000⟩, ⟨0, 0⟩, ⟨7, 3480000000000⟩, ⟨3, -1000000⟩, ⟨11, 800000000000000⟩,
  ⟨2, 810800000000000⟩, ⟨4, 811400000000000⟩, ⟨1, 811405000000000⟩]

theorem jumping_history_adds_up :
    let c := addAll { name := "traffic", timeSeries := true } jumpingLog
    (Tier.all.map c.stored).sum = 33 ∧ (Tier.all.map c.stored).sum = c.value.toInt ∧
    ∀ i, (c.history i).items.Pairwise (fun a b => a.start < b.start) ∧
      ((∀ a ∈ jumpingLog, firstDay ≤ a.ms) →
        ∀ b ∈ (c.history i).items, i.width.toInt ∣ b.start.toInt) :=
  ⟨by decide +kernel, history_adds_up "traffic" jumpingLog (fits_of_nonneg (by decide) (by decide))⟩

/-- The earliest millisecond is rounded up to a time in the far future. -/
theorem first_millisecond_misaligned :
    let c := addAll { name := "traffic", timeSeries := true } [⟨1, -9223372036854775808000000⟩]
    ∃ b ∈ (c.history .second).items, ¬Tier.second.width.toInt ∣ b.start.toInt := by
  refine ⟨⟨9223372036854775616, 1⟩, ?_, ?_⟩
  · decide +kernel
  · decide +kernel

end Counter

end Mieru.Metrics
