import Mieru.Metrics.History
import Mathlib.Tactic.Linarith

/-! # How accurate a query of the history is

With a clock that does not go back, every increment is in the bucket of its own time, rounded
to the width of the tier it has reached. Only increments of more than a week ago are rounded
to days. -/
namespace Mieru.Metrics

open Clock CutLog

/-- The time is a number of milliseconds that fits an `int64`. -/
def Representable (t : ℤ) : Prop := -2 ^ 63 ≤ t / 1000000 ∧ t / 1000000 < 2 ^ 63

instance (t : ℤ) : Decidable (Representable t) := inferInstanceAs (Decidable (_ ∧ _))

theorem Representable.toInt_unixMilli {t : ℤ} (h : Representable t) :
    (unixMilli t).toInt = t / 1000000 :=
  Int64.toInt_ofInt_of_le h.1 h.2

def Increment.startIn (a : Increment) (i : Tier) : ℤ :=
  a.ms.toInt / i.width.toInt * i.width.toInt

theorem Increment.startIn_mono {a a' : Increment} (h : a.ms ≤ a'.ms) (i : Tier) :
    a.startIn i ≤ a'.startIn i := by
  have hdiv := Int.ediv_le_ediv i.width_pos (Int64.le_iff_toInt_le.mp h)
  exact Int.mul_le_mul_of_nonneg_right hdiv i.width_pos.le

theorem Increment.startIn_le (a : Increment) (i : Tier) : a.startIn i ≤ a.ms.toInt :=
  Int.ediv_mul_le _ i.width_pos.ne'

theorem Increment.lt_startIn_add (a : Increment) (i : Tier) :
    a.ms.toInt < a.startIn i + i.width.toInt := by
  have hlt := Int.lt_ediv_add_one_mul_self a.ms.toInt i.width_pos
  rwa [Int.add_mul, Int.one_mul] at hlt

theorem Increment.startIn_rollUp (a : Increment) {i next : Tier}
    (h : (i, next) ∈ Tier.rollUps) :
    a.startIn i / next.width.toInt * next.width.toInt = a.startIn next := by
  simp only [Tier.rollUps, List.mem_cons, Prod.mk.injEq, List.not_mem_nil, or_false] at h
  unfold startIn
  rcases h with ⟨rfl, rfl⟩ | ⟨rfl, rfl⟩ | ⟨rfl, rfl⟩
  · change a.ms.toInt / 1000 * 1000 / 60000 * 60000 = a.ms.toInt / 60000 * 60000
    omega
  · change a.ms.toInt / 60000 * 60000 / 3600000 * 3600000 = a.ms.toInt / 3600000 * 3600000
    omega
  · change a.ms.toInt / 3600000 * 3600000 / 86400000 * 86400000 =
      a.ms.toInt / 86400000 * 86400000
    omega

/-- The bucket stands for increments of its own time, and on the last tier only for those that
were old when they were moved there. -/
structure Account.rounded (now : ℤ) (i : Tier) (b : Bucket) (piece : List Increment) : Prop where
  some : piece ≠ []
  sum : b.delta = Int64.ofInt (total piece)
  start : ∀ a ∈ piece, b.start.toInt = a.startIn i
  old : i = .day → ∀ a ∈ piece, a.ms.toInt + 687600000 < now

structure Chronological (log : List Increment) : Prop where
  mono : log.Pairwise fun a b => a.ms ≤ b.ms
  first : ∀ a ∈ log, firstDay ≤ a.ms

theorem Chronological.of_infix {log part : List Increment} (h : Chronological log)
    (hpart : part <:+: log) : Chronological part :=
  ⟨h.mono.sublist hpart.sublist, fun a ha => h.first a (hpart.subset ha)⟩

theorem lt_of_expired {retain now start : Int64} (hretain : 0 ≤ retain.toInt)
    (h : retain < now - start) (hle : start.toInt ≤ now.toInt) :
    retain.toInt < now.toInt - start.toInt := by
  rw [Int64.lt_iff_toInt_lt, Int64.toInt_sub] at h
  have hnow := now.toInt_lt
  have hstart := start.le_toInt
  unfold Int.bmod at h
  dsimp only at h
  split_ifs at h <;> omega

theorem Account.rounded_admits {log : List Increment} {now : Int64} (hlog : Chronological log)
    (hnow : ∀ a ∈ log, a.ms ≤ now) : Admits (rounded now.toInt) log now where
  move := by
    intro i next b piece hpair hpiece hb hexpired
    have hstart (a : Increment) (ha : a ∈ piece) :
        (floorTo b.start next.width).toInt = a.startIn next := by
      have hfirst : firstDay ≤ b.start := by
        rw [Int64.le_iff_toInt_le, hb.start a ha]
        exact firstDay_le_round (hlog.first a (hpiece.subset ha)) i
      rw [toInt_floorTo_width hfirst, hb.start a ha, a.startIn_rollUp hpair]
    refine ⟨hb.some, hb.sum, hstart, fun hday a ha => ?_⟩
    obtain rfl : i = .hour := by
      subst hday
      simpa [Tier.rollUps] using hpair
    have hround : b.start.toInt = a.ms.toInt / 3600000 * 3600000 := hb.start a ha
    have hle : a.ms.toInt ≤ now.toInt := Int64.le_iff_toInt_le.mp (hnow a (hpiece.subset ha))
    have hage := lt_of_expired (by decide) hexpired (by omega)
    change 691200000 < _ at hage
    omega
  merge := by
    intro i last front start delta piece hpart hlast hnew hle
    have hmono := (hlog.of_infix hpart).mono
    obtain ⟨first, hfirst⟩ := List.exists_mem_of_ne_nil front hlast.some
    have hsame (a : Increment) (ha : a ∈ piece) : last.start.toInt = a.startIn i := by
      have hbefore : first.startIn i ≤ a.startIn i :=
        Increment.startIn_mono ((List.pairwise_append.mp hmono).2.2 first hfirst a ha) i
      have hstart : start.toInt = a.startIn i := hnew.start a ha
      rw [Int64.le_iff_toInt_le, hstart] at hle
      rw [← hlast.start first hfirst] at hbefore
      exact le_antisymm hbefore hle
    refine ⟨List.append_ne_nil_of_left_ne_nil hlast.some piece, ?_, fun a ha => ?_, ?_⟩
    · have hdelta : delta = _ := hnew.sum
      change last.delta + delta = _
      rw [hlast.sum, hdelta, total_append, Int64.ofInt_add]
    · rcases List.mem_append.mp ha with ha | ha
      · exact hlast.start a ha
      · exact hsame a ha
    · intro hday a ha
      rcases List.mem_append.mp ha with ha | ha
      · exact hlast.old hday a ha
      · exact hnew.old hday a ha

theorem Account.rounded_new {a : Increment} (hfirst : firstDay ≤ a.ms) (now : ℤ) :
    rounded now .second ⟨floorTo a.ms Tier.second.width, a.delta⟩ [a] := by
  refine ⟨List.cons_ne_nil a [], by rw [total_singleton, Int64.ofInt_toInt], fun x hx => ?_,
    fun hday => by cases hday⟩
  rw [List.mem_singleton.mp hx]
  exact toInt_floorTo_width hfirst .second

theorem Counter.Stands.mono {c : Counter} {P Q : Account} {log : List Increment}
    (h : c.Stands P log) (hPQ : ∀ i b piece, P i b piece → Q i b piece) : c.Stands Q log := by
  obtain ⟨part, hpart, hcut⟩ := h
  exact ⟨part, hpart, fun i => (hcut i).mono fun b piece _ _ => hPQ i b piece⟩

namespace Counter

theorem stands_rounded (name : String) {log : List Increment} (hlog : Chronological log) {now : ℤ}
    (hnow : ∀ a ∈ log, a.ms.toInt ≤ now) :
    (addAll { name, timeSeries := true } log).Stands (Account.rounded now) (noted log) := by
  induction log using List.reverseRecOn generalizing now with
  | nil => exact ⟨fun _ => [], rfl, fun _ => .nil⟩
  | append_singleton log a ih =>
    have hbefore : Chronological log := hlog.of_infix (List.prefix_append log [a]).isInfix
    have hlast : ∀ x ∈ log, x.ms ≤ a.ms := fun x hx =>
      (List.pairwise_append.mp hlog.mono).2.2 x hx a (List.mem_singleton_self a)
    have ha : a ∈ log ++ [a] := List.mem_append_right _ (List.mem_singleton_self a)
    rw [addAll_concat, noted_concat]
    split_ifs with hdelta
    · rw [hdelta]
      exact ih hbefore fun x hx => hnow x (List.mem_append_left _ hx)
    · have hstands := ih hbefore fun x hx => Int64.le_iff_toInt_le.mp (hlast x hx)
      have hnoted : Chronological (noted log ++ [a]) := by
        have heq : noted log ++ [a] = noted (log ++ [a]) := by rw [noted_concat, if_neg hdelta]
        rw [heq]
        exact ⟨hlog.mono.filter _, fun x hx => hlog.first x (List.mem_filter.mp hx).1⟩
      have hadmits : Account.Admits (Account.rounded a.ms.toInt) (noted log ++ [a]) a.ms := by
        refine Account.rounded_admits hnoted fun x hx => ?_
        rcases List.mem_append.mp hx with hx | hx
        · exact hlast x (List.mem_filter.mp hx).1
        · rw [List.mem_singleton.mp hx]
          exact Int64.le_refl a.ms
      have hseries : (addAll { name, timeSeries := true } log).timeSeries = true := by
        obtain ⟨history, _, _, heq⟩ := addAll_eq { name, timeSeries := true } log
        rw [heq]
      refine (hstands.addWithTime hseries hdelta hadmits
        (Account.rounded_new (hlog.first a ha) _)).mono fun i b piece hb => ?_
      exact ⟨hb.some, hb.sum, hb.start, fun hday x hx => (hb.old hday x hx).trans_le (hnow a ha)⟩

end Counter

/-! ## Queries -/

def Bucket.counted (begins ends : Int64) (b : Bucket) : ℤ :=
  if begins < b.start ∧ b.start ≤ ends then b.delta.toInt else 0

namespace Buckets

theorem foldl_delta (bs : List Bucket) (sum : Int64) :
    bs.foldl (fun sum b => sum + b.delta) sum =
      sum + Int64.ofInt (bs.map fun b => b.delta.toInt).sum := by
  induction bs generalizing sum with
  | nil => simp
  | cons b bs ih =>
    rw [List.foldl_cons, ih, List.map_cons, List.sum_cons, Int64.ofInt_add, Int64.ofInt_toInt,
      Int64.add_assoc]

theorem sum_window {bs : List Bucket} (h : bs.Pairwise fun a b => a.start < b.start)
    (begins ends : Int64) :
    (((bs.dropWhile (·.start ≤ begins)).takeWhile (·.start ≤ ends)).map
      fun b => b.delta.toInt).sum = (bs.map (Bucket.counted begins ends)).sum := by
  induction bs with
  | nil => rfl
  | cons b bs ih =>
    obtain ⟨hfirst, hrest⟩ := List.pairwise_cons.mp h
    have hrest' := ih hrest
    by_cases hbegin : b.start ≤ begins
    · have hzero : b.counted begins ends = 0 :=
        if_neg fun hcount => Int64.not_lt.mpr hbegin hcount.1
      rw [List.dropWhile_cons_of_pos (by simpa using hbegin), hrest', List.map_cons, List.sum_cons,
        hzero, zero_add]
    · have hafter : begins < b.start := Int64.not_le.mp hbegin
      rw [List.dropWhile_cons_of_neg (by simpa using hbegin)]
      by_cases hend : b.start ≤ ends
      · have hskip : bs.dropWhile (·.start ≤ begins) = bs := by
          cases bs with
          | nil => rfl
          | cons b' bs =>
            refine List.dropWhile_cons_of_neg ?_
            simpa using Int64.lt_trans hafter (hfirst b' List.mem_cons_self)
        have hone : b.counted begins ends = b.delta.toInt := if_pos ⟨hafter, hend⟩
        rw [hskip] at hrest'
        rw [List.takeWhile_cons_of_pos (by simpa using hend), List.map_cons, List.sum_cons, hrest',
          List.map_cons, List.sum_cons, hone]
      · rw [List.takeWhile_cons_of_neg (by simpa using hend)]
        refine (List.sum_eq_zero fun x hx => ?_).symm
        obtain ⟨b', hb', rfl⟩ := List.mem_map.mp hx
        refine if_neg fun hcount => hend ?_
        rcases List.mem_cons.mp hb' with rfl | hb'
        · exact hcount.2
        · exact Int64.le_trans (Int64.le_of_lt (hfirst b' hb')) hcount.2

theorem between_eq (h : Buckets) (sum begins ends : Int64) :
    h.between sum begins ends =
      sum + Int64.ofInt (h.items.map (Bucket.counted begins ends)).sum := by
  rw [between, foldl_delta, sum_window h.sorted]

end Buckets

namespace Counter

def counted (c : Counter) (begins ends : Int64) (i : Tier) : ℤ :=
  ((c.history i).items.map (Bucket.counted begins ends)).sum

theorem deltaBetween_eq {c : Counter} (hseries : c.timeSeries = true) {t1 t2 : ℤ}
    (hwindow : t1 ≤ t2) :
    c.deltaBetween t1 t2 = .ok (Int64.ofInt
      (Tier.all.map (c.counted (unixMilli t1) (unixMilli t2))).sum) := by
  unfold deltaBetween
  rw [if_neg (not_lt.mpr hwindow), if_neg (not_not.mpr hseries)]
  simp only [Tier.all, List.foldl_cons, List.foldl_nil, Buckets.between_eq, List.map_cons,
    List.map_nil, List.sum_cons, List.sum_nil, add_zero, Int64.zero_add, Int64.ofInt_add, counted,
    Int64.add_assoc]

end Counter

theorem total_filter_add (log : List Increment) (p : Increment → Bool) :
    total (log.filter p) + total (log.filter fun a => !p a) = total log := by
  induction log with
  | nil => rfl
  | cons a log ih =>
    cases ha : p a <;> simp [total, ha] at ih ⊢ <;> omega

theorem total_filter_nonneg {log : List Increment} (h : ∀ a ∈ log, 0 ≤ a.delta.toInt)
    (p : Increment → Bool) : 0 ≤ total (log.filter p) :=
  total_nonneg fun a ha => h a (List.mem_filter.mp ha).1

/-- A query is as accurate as `slack`, in nanoseconds, allows. -/
def Accurate (log : List Increment) (t1 t2 slack d : ℤ) : Prop :=
  total (log.filter fun a => t1 + slack ≤ a.time ∧ a.time ≤ t2) ≤ d ∧
    d ≤ total (log.filter fun a => t1 < a.time ∧ a.time < t2 + slack)

/-- The increments of a bucket are counted if and only if they are in the window, up to the
slack. -/
def Sound (t1 t2 slack : ℤ) (b : Bucket) (a : Increment) : Prop :=
  (t1 + slack ≤ a.time ∧ a.time ≤ t2 → unixMilli t1 < b.start ∧ b.start ≤ unixMilli t2) ∧
    (unixMilli t1 < b.start ∧ b.start ≤ unixMilli t2 → t1 < a.time ∧ a.time < t2 + slack)

section Window

variable {t1 t2 slack : ℤ} {i : Tier} {b : Bucket} {a : Increment}

theorem sound_of_width (h1 : Representable t1) (h2 : Representable t2)
    (ha : Representable a.time) (hstart : b.start.toInt = a.startIn i)
    (hwidth : i.width.toInt * 1000000 ≤ slack) : Sound t1 t2 slack b a := by
  have hle := a.startIn_le i
  have hlt := a.lt_startIn_add i
  have hms : a.ms.toInt = a.time / 1000000 := ha.toInt_unixMilli
  unfold Sound
  rw [Int64.lt_iff_toInt_lt, Int64.le_iff_toInt_le, h1.toInt_unixMilli, h2.toInt_unixMilli, hstart]
  refine ⟨fun ⟨hlow, hhigh⟩ => ⟨?_, ?_⟩, fun ⟨hlow, hhigh⟩ => ⟨?_, ?_⟩⟩ <;> omega

theorem sound_of_old (h1 : Representable t1) (ha : Representable a.time)
    (hstart : b.start.toInt = a.startIn i) (hslack : 0 ≤ slack)
    (hold : a.ms.toInt < t1 / 1000000) : Sound t1 t2 slack b a := by
  have hle := a.startIn_le i
  have hms : a.ms.toInt = a.time / 1000000 := ha.toInt_unixMilli
  unfold Sound
  rw [Int64.lt_iff_toInt_lt, h1.toInt_unixMilli, hstart]
  constructor
  · rintro ⟨hlow, -⟩
    omega
  · rintro ⟨hlow, -⟩
    omega

theorem bucket_accurate {piece : List Increment} (hsum : b.delta.toInt = total piece)
    (hnonneg : ∀ a ∈ piece, 0 ≤ a.delta.toInt) (hsound : ∀ a ∈ piece, Sound t1 t2 slack b a) :
    Accurate piece t1 t2 slack (b.counted (unixMilli t1) (unixMilli t2)) := by
  have hpos (p : Increment → Bool) : 0 ≤ total (piece.filter p) := total_filter_nonneg hnonneg p
  unfold Bucket.counted
  split_ifs with hcount
  · rw [hsum]
    constructor
    · have hsplit := hpos fun a => !decide (t1 + slack ≤ a.time ∧ a.time ≤ t2)
      have htotal := total_filter_add piece fun a => t1 + slack ≤ a.time ∧ a.time ≤ t2
      omega
    · rw [List.filter_eq_self.mpr fun a ha => by simpa using (hsound a ha).2 hcount]
  · constructor
    · rw [List.filter_eq_nil_iff.mpr fun a ha hin => hcount ((hsound a ha).1 (by simpa using hin))]
      exact le_rfl
    · exact hpos _

theorem tier_accurate {c : Counter} {part : List Increment} {P : Account}
    (hcut : Cut (P i) (c.history i).items part)
    (hP : ∀ b piece, piece <:+: part → P i b piece →
      b.delta.toInt = total piece ∧ ∀ a ∈ piece, Sound t1 t2 slack b a)
    (hnonneg : ∀ a ∈ part, 0 ≤ a.delta.toInt) :
    Accurate part t1 t2 slack (c.counted (unixMilli t1) (unixMilli t2) i) := by
  have hbuckets : Cut (fun b piece =>
      Accurate piece t1 t2 slack (b.counted (unixMilli t1) (unixMilli t2)))
      (c.history i).items part := by
    refine hcut.mono fun b piece _ hpiece hb => ?_
    obtain ⟨hsum, hsound⟩ := hP b piece hpiece hb
    exact bucket_accurate hsum (fun a ha => hnonneg a (hpiece.subset ha)) hsound
  have happend (p : Increment → Bool) (log log' : List Increment) :
      total ((log ++ log').filter p) = total (log.filter p) + total (log'.filter p) := by
    rw [List.filter_append, total_append]
  exact ⟨hbuckets.measure_le_sum rfl (happend _) fun _ _ hb => hb.1,
    hbuckets.sum_le_measure rfl (happend _) fun _ _ hb => hb.2⟩

end Window

theorem Accurate.append {log log' : List Increment} {t1 t2 slack d d' : ℤ}
    (h : Accurate log t1 t2 slack d) (h' : Accurate log' t1 t2 slack d') :
    Accurate (log ++ log') t1 t2 slack (d + d') := by
  unfold Accurate
  rw [List.filter_append, List.filter_append, total_append, total_append]
  exact ⟨add_le_add h.1 h'.1, add_le_add h.2 h'.2⟩

theorem accurate_noted {log : List Increment} {t1 t2 slack d : ℤ} :
    Accurate (Counter.noted log) t1 t2 slack d ↔ Accurate log t1 t2 slack d := by
  have hnoted (p : Increment → Bool) :
      total ((Counter.noted log).filter p) = total (log.filter p) := by
    have hcomm : (Counter.noted log).filter p = Counter.noted (log.filter p) := by
      unfold Counter.noted
      rw [List.filter_filter, List.filter_filter]
      exact List.filter_congr fun a _ => Bool.and_comm _ _
    rw [hcomm, Counter.total_noted]
  unfold Accurate
  rw [hnoted, hnoted]

namespace Counter

theorem query_accurate {c : Counter} {log : List Increment} {P : Account} {t1 t2 slack : ℤ}
    (hstands : c.Stands P log) (hfits : Fits log) (hnonneg : ∀ a ∈ log, 0 ≤ a.delta.toInt)
    (hP : ∀ i b piece, piece <:+: log → P i b piece →
      b.delta = Int64.ofInt (total piece) ∧ ∀ a ∈ piece, Sound t1 t2 slack b a) :
    Accurate log t1 t2 slack (Tier.all.map (c.counted (unixMilli t1) (unixMilli t2))).sum := by
  obtain ⟨part, rfl, hcut⟩ := hstands
  have htier (i : Tier) :
      Accurate (part i) t1 t2 slack (c.counted (unixMilli t1) (unixMilli t2) i) := by
    have hpart := part_within part i
    refine tier_accurate (hcut i) (fun b piece hpiece hb => ?_)
      fun a ha => hnonneg a (hpart.subset ha)
    obtain ⟨hsum, hsound⟩ := hP i b piece (hpiece.trans hpart) hb
    exact ⟨by rw [hsum, hfits.toInt (hpiece.trans hpart)], hsound⟩
  have hall := (((htier .day).append (htier .hour)).append (htier .minute)).append (htier .second)
  have hsum (f : Tier → ℤ) :
      (Tier.all.map f).sum = f .day + f .hour + f .minute + f .second := by
    simp only [Tier.all, List.map_cons, List.map_nil, List.sum_cons, List.sum_nil]
    omega
  rw [hsum]
  exact hall

def hourNs : ℤ := 3600000000000

def dayNs : ℤ := 86400000000000

section Run

variable {log : List Increment} {t1 t2 : ℤ}

/-- A log of increments whose times and sum an `int64` can hold. -/
structure Plain (log : List Increment) : Prop where
  mono : log.Pairwise fun a b => a.ms ≤ b.ms
  nonneg : ∀ a ∈ log, 0 ≤ a.delta.toInt
  total : total log < 2 ^ 63
  dates : ∀ a ∈ log, Representable a.time ∧ firstDay ≤ a.ms

theorem run_accurate (name : String) (hlog : Plain log) (h1 : Representable t1)
    (h2 : Representable t2) {slack now : ℤ} (hnow : ∀ a ∈ log, a.ms.toInt ≤ now)
    (hslack : ∀ i : Tier, i.width.toInt * 1000000 ≤ slack ∨
      i = .day ∧ now ≤ t1 / 1000000 + 687600000 ∧ 0 ≤ slack) :
    Accurate log t1 t2 slack (Tier.all.map
      ((addAll { name, timeSeries := true } log).counted (unixMilli t1) (unixMilli t2))).sum := by
  have hchron : Chronological log := ⟨hlog.mono, fun a ha => (hlog.dates a ha).2⟩
  have hfits : Fits (noted log) := (fits_of_nonneg hlog.nonneg hlog.total).noted
  refine accurate_noted.mp (query_accurate (stands_rounded name hchron hnow) hfits
    (fun a ha => hlog.nonneg a (List.mem_filter.mp ha).1)
    fun i b piece hpiece hb => ⟨hb.sum, fun a ha => ?_⟩)
  have hdate := (hlog.dates a (List.mem_filter.mp (hpiece.subset ha)).1).1
  rcases hslack i with hwidth | ⟨hday, hage, hpos⟩
  · exact sound_of_width h1 h2 hdate (hb.start a ha) hwidth
  · have hold := hb.old hday a ha
    exact sound_of_old h1 hdate (hb.start a ha) hpos (by omega)

/-- A query may be off by the increments of one day at either end of its window, and of one hour
if the window starts at most a week before the last increment. -/
theorem deltaBetween_accurate (name : String) (hlog : Plain log) (hwindow : t1 ≤ t2)
    (h1 : Representable t1) (h2 : Representable t2) :
    ∃ d, (addAll { name, timeSeries := true } log).deltaBetween t1 t2 = .ok d ∧
      Accurate log t1 t2 dayNs d.toInt ∧
      ((∀ a ∈ log, a.time - 7 * dayNs ≤ t1) → Accurate log t1 t2 hourNs d.toInt) := by
  obtain ⟨history, lastUpdate, nextCompact, heq⟩ := addAll_eq { name, timeSeries := true } log
  have hseries : (addAll { name, timeSeries := true } log).timeSeries = true := by rw [heq]
  have hday := run_accurate name hlog h1 h2 (fun a _ => a.ms.toInt_lt.le)
    (show ∀ i : Tier, i.width.toInt * 1000000 ≤ dayNs ∨ _ from fun i => .inl (by
      cases i <;> decide))
  refine ⟨_, deltaBetween_eq hseries hwindow, ?_⟩
  generalize hsum : (Tier.all.map ((addAll { name, timeSeries := true } log).counted
    (unixMilli t1) (unixMilli t2))).sum = sum at hday ⊢
  -- the sum lies between two sums of increments, so it is an `int64`
  have htoInt : (Int64.ofInt sum).toInt = sum := by
    have hlow := total_filter_nonneg hlog.nonneg fun a => t1 + dayNs ≤ a.time ∧ a.time ≤ t2
    have hrest := total_filter_nonneg hlog.nonneg fun a =>
      !decide (t1 < a.time ∧ a.time < t2 + dayNs)
    have hall := total_filter_add log fun a => t1 < a.time ∧ a.time < t2 + dayNs
    have htotal := hlog.total
    exact Int64.toInt_ofInt_of_le (by linarith [hday.1]) (by linarith [hday.2])
  rw [htoInt]
  refine ⟨hday, fun hweek => ?_⟩
  rw [← hsum]
  have hnow : ∀ a ∈ log, a.ms.toInt ≤ (t1 + 7 * dayNs) / 1000000 := by
    intro a ha
    have hms : a.ms.toInt = a.time / 1000000 := (hlog.dates a ha).1.toInt_unixMilli
    rw [hms]
    exact Int.ediv_le_ediv (by decide) (by linarith [hweek a ha])
  refine run_accurate name hlog h1 h2 hnow fun i => ?_
  cases i with
  | day => exact .inr ⟨rfl, by unfold dayNs; omega, by decide⟩
  | _ => exact .inl (by decide)

end Run

def agingLog : List Increment := [
  ⟨5, 3600000000000⟩, ⟨11, 800000000000000⟩, ⟨2, 810800000000000⟩, ⟨4, 811400000000000⟩]

theorem aging_query_accurate :
    (addAll { name := "traffic", timeSeries := true } agingLog).deltaBetween
      790000000000000 811000000000000 = .ok 13 ∧
    ∃ d, (addAll { name := "traffic", timeSeries := true } agingLog).deltaBetween
        790000000000000 811000000000000 = .ok d ∧
      Accurate agingLog 790000000000000 811000000000000 dayNs d.toInt ∧
      ((∀ a ∈ agingLog, a.time - 7 * dayNs ≤ 790000000000000) →
        Accurate agingLog 790000000000000 811000000000000 hourNs d.toInt) := by
  refine ⟨by rfl, deltaBetween_accurate "traffic" ⟨?_, ?_, ?_, ?_⟩ ?_ ?_ ?_⟩
  all_goals decide +kernel

def overflowingLog : List Increment := [
  ⟨9223372036854775807, 172800000000000⟩, ⟨1, 172800000000000⟩]

theorem overflowing_query_wrong :
    overflowingLog.Pairwise (fun a b => a.ms ≤ b.ms) ∧
    (∀ a ∈ overflowingLog, 0 ≤ a.delta.toInt ∧ a.time - 7 * dayNs ≤ 0) ∧
    ∃ d, (addAll { name := "traffic", timeSeries := true } overflowingLog).deltaBetween
        0 259200000000000 = .ok d ∧
      ¬Accurate overflowingLog 0 259200000000000 hourNs d.toInt ∧
      ¬Accurate overflowingLog 0 259200000000000 dayNs d.toInt := by
  refine ⟨by decide +kernel, by decide +kernel, -9223372036854775808, rfl, ?_, ?_⟩
  all_goals
    unfold Accurate
    decide +kernel

end Counter

end Mieru.Metrics
