import Mathlib.Data.List.Infix
import Mieru.Lib.Clock
import Mieru.Lib.Result

/-! # Counters with a history

A time series counter records its increments in buckets of four widths. Buckets that have
become too old for one width are merged into the next. -/
namespace Mieru.Metrics

open Clock Result

inductive Tier where
  | second
  | minute
  | hour
  | day
  deriving DecidableEq, Repr

namespace Tier

def all : List Tier := [second, minute, hour, day]

def width : Tier → Int64
  | second => 1000
  | minute => 60000
  | hour => 3600000
  | day => 86400000

/-- In milliseconds; the last tier keeps everything. -/
def retain : Tier → Int64
  | second => 120000
  | minute => 7200000
  | hour => 691200000
  | day => 0

end Tier

structure Bucket where
  start : Int64
  delta : Int64
  deriving DecidableEq, Repr

def floorTo (ms width : Int64) : Int64 :=
  let r := ms % width
  let r := if r < 0 then r + width else r
  ms - r

theorem sorted_nil : ([] : List Bucket).Pairwise fun a b => a.start < b.start := .nil

structure Buckets where
  items : List Bucket := []
  sorted : items.Pairwise fun a b => a.start < b.start := by exact sorted_nil

namespace Buckets

/-- An increment before the last bucket, as after the clock moved backwards, is counted there. -/
def recorded (items : List Bucket) (start delta : Int64) : List Bucket :=
  match items.getLast? with
  | none => [⟨start, delta⟩]
  | some last =>
    if start ≤ last.start then items.dropLast ++ [{ last with delta := last.delta + delta }]
    else items ++ [⟨start, delta⟩]

theorem sorted_recorded {items : List Bucket} (start delta : Int64)
    (h : items.Pairwise fun a b => a.start < b.start) :
    (recorded items start delta).Pairwise fun a b => a.start < b.start := by
  unfold recorded
  split
  · exact List.pairwise_singleton _ _
  · rename_i last hlast
    obtain ⟨init, rfl⟩ := List.getLast?_eq_some_iff.mp hlast
    obtain ⟨hinit, -, hlt⟩ := List.pairwise_append.mp h
    split_ifs with hle
    · rw [List.dropLast_concat]
      refine List.pairwise_append.mpr ⟨hinit, List.pairwise_singleton _ _, ?_⟩
      intro a ha b hb
      rw [List.mem_singleton.mp hb]
      exact hlt a ha last (List.mem_singleton_self _)
    · refine List.pairwise_append.mpr ⟨h, List.pairwise_singleton _ _, ?_⟩
      intro a ha b hb
      rw [List.mem_singleton.mp hb]
      have hlast : last.start < start := Int64.not_le.mp hle
      rcases List.mem_append.mp ha with ha | ha
      · exact Int64.lt_trans (hlt a ha last (List.mem_singleton_self _)) hlast
      · rwa [List.mem_singleton.mp ha]

def record (h : Buckets) (start delta : Int64) : Buckets :=
  ⟨recorded h.items start delta, sorted_recorded start delta h.sorted⟩

def drop (h : Buckets) (n : ℕ) : Buckets := ⟨h.items.drop n, h.sorted.drop⟩

/-- Adds the buckets that start after `begins` and not after `ends`. On ordered buckets
`sort.Search` skips exactly those that start too early. -/
def between (h : Buckets) (sum begins ends : Int64) : Int64 :=
  ((h.items.dropWhile (·.start ≤ begins)).takeWhile (·.start ≤ ends)).foldl
    (fun sum b => sum + b.delta) sum

end Buckets

structure Counter where
  name : String
  timeSeries : Bool
  value : Int64 := 0
  history : Tier → Buckets := fun _ => {}
  lastUpdate : Int64 := 0
  nextCompact : Int64 := 0

def compactIntervalMs : Int64 := 1000

namespace Counter

def record (c : Counter) (i : Tier) (ms delta : Int64) : Counter :=
  { c with
    history := Function.update c.history i ((c.history i).record (floorTo ms i.width) delta) }

def compactTier (now : Int64) (c : Counter) (tiers : Tier × Tier) : Counter :=
  let (i, next) := tiers
  let h := c.history i
  let expired := h.items.takeWhile fun b => i.retain < now - b.start
  let c := expired.foldl (fun c b => c.record next b.start b.delta) c
  { c with history := Function.update c.history i (h.drop expired.length) }

def compact (c : Counter) (now : Int64) : Counter :=
  [(Tier.second, Tier.minute), (Tier.minute, Tier.hour), (Tier.hour, Tier.day)].foldl
    (compactTier now) c

def addWithTime (c : Counter) (delta : Int64) (t : Time) : Counter :=
  if delta = 0 then c
  else if ¬c.timeSeries then { c with value := c.value + delta }
  else
    let ms := unixMilli t
    let c := c.record .second ms delta
    let c := { c with lastUpdate := max c.lastUpdate ms }
    let c :=
      if c.nextCompact ≤ ms then { c.compact ms with nextCompact := ms + compactIntervalMs } else c
    { c with value := c.value + delta }

def deltaBetween (c : Counter) (t1 t2 : Time) : Except Fault Int64 :=
  if t2 < t1 then .error (.panicked "t2 must be later than t1")
  else if ¬c.timeSeries then .error (.panicked s!"{c.name} is not a time series Counter")
  else
    .ok (Tier.all.foldl
      (fun sum i => (c.history i).between sum (unixMilli t1) (unixMilli t2)) 0)

end Counter

end Mieru.Metrics
