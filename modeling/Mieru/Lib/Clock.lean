import Mathlib.Algebra.Group.Int.Defs
import Mathlib.Data.Int.Notation
import Mathlib.Tactic.Common

/-! # Points in time

A point in time is a number of nanoseconds since 1970. Durations are 64-bit numbers of
nanoseconds and wrap around; adding one to a point in time does not. -/
namespace Clock

abbrev Time := ℤ

abbrev Duration := Int64

def hour : Duration := 3600000000000

def add (t : Time) (d : Duration) : Time := t + d.toInt

def unixMilli (t : Time) : Int64 := Int64.ofInt (t / 1000000)

def unix (t : Time) : Int64 := Int64.ofInt (t / 1000000000)

/-- The start of year 1, which `round` counts from. -/
def zeroTime : Time := -62135596800000000000

/-- The nearest multiple of a duration; halfway values are rounded up. -/
def round (t : Time) (d : Duration) : Time :=
  if d.toInt ≤ 0 then t
  else
    let r := (t - zeroTime) % d.toInt
    if r + r < d.toInt then t - r else t + (d.toInt - r)

theorem add_le {t : Time} {d : Duration} (h : d.toInt ≤ 0) : add t d ≤ t := by
  have hle := Int.add_le_add_left h t
  rwa [Int.add_zero] at hle

theorem toInt_unixMilli {t : ℤ} (hlow : -2 ^ 80 ≤ t) (hhigh : t < 2 ^ 80) :
    (unixMilli t).toInt = t / 1000000 :=
  Int64.toInt_ofInt_of_le (by omega) (by omega)

end Clock
