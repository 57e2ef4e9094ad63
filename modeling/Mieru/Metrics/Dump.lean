import Mieru.Metrics.History

/-! # Dumping counters and loading them again

A dump holds the value of a counter and its history in one list. Loading adds what is missing
from the value, which records an increment at the current time, and then replaces the history. -/
namespace Mieru.Metrics

open Clock CutLog Result

/-- The enumeration of the dump; `metrics.MetricType` has the same members. -/
inductive MetricType where
  | unspecified
  | counter
  | counterTimeSeries
  | gauge
  deriving DecidableEq, Repr

inductive RollUpLabel where
  | noRollUp
  | rollUpToSecond
  | rollUpToMinute
  | rollUpToHour
  | rollUpToDay
  deriving DecidableEq, Repr

/-- `pb.History`. Its fields are optional, and the getters give a default. -/
structure HistoryPB where
  timeUnixMilli : Option Int64 := none
  delta : Option Int64 := none
  rollUp : Option RollUpLabel := none

def HistoryPB.getTimeUnixMilli (r : HistoryPB) : Int64 := r.timeUnixMilli.getD 0

def HistoryPB.getDelta (r : HistoryPB) : Int64 := r.delta.getD 0

def HistoryPB.getRollUp (r : HistoryPB) : RollUpLabel := r.rollUp.getD .noRollUp

structure MetricPB where
  name : Option String := none
  type : Option MetricType := none
  value : Option Int64 := none
  history : List HistoryPB := []

def MetricPB.getName (m : MetricPB) : String := m.name.getD ""

def MetricPB.getType (m : MetricPB) : MetricType := m.type.getD .unspecified

def MetricPB.getValue (m : MetricPB) : Int64 := m.value.getD 0

def Tier.label : Tier → RollUpLabel
  | second => .rollUpToSecond
  | minute => .rollUpToMinute
  | hour => .rollUpToHour
  | day => .rollUpToDay

/-- A record without a known label goes to the finest tier. -/
def Tier.ofLabel (label : RollUpLabel) : Tier :=
  (all.find? fun i => i.label = label).getD second

namespace Counter

def type (c : Counter) : MetricType := if c.timeSeries then .counterTimeSeries else .counter

def add (c : Counter) (delta : Int64) (now : Time) : Except Fault Counter :=
  if delta < 0 then .error (.panicked "Can't add a negative value to Counter")
  else if ¬c.timeSeries then .ok { c with value := c.value + delta }
  else .ok (c.addWithTime delta now)

def historyPB (c : Counter) : List HistoryPB :=
  Tier.all.reverse.flatMap fun i => (c.history i).items.map fun b =>
    { timeUnixMilli := some b.start, delta := some b.delta, rollUp := some i.label }

def toMetricPB (c : Counter) : MetricPB where
  name := some c.name
  type := some c.type
  value := some c.value
  history := if c.timeSeries then c.historyPB else []

def loaded (records : List HistoryPB) (i : Tier) : List Bucket :=
  (records.filter fun r => Tier.ofLabel r.getRollUp = i).map fun r =>
    ⟨r.getTimeUnixMilli, r.getDelta⟩

/-- `sort.SliceStable` and the loop after it. -/
def loadTier (c : Counter) (i : Tier) (h : List Bucket) : Counter :=
  (h.mergeSort fun a b => a.start ≤ b.start).foldl (fun c b =>
    let c := c.record i b.start b.delta
    { c with lastUpdate := max c.lastUpdate b.start }) c

def loadHistory (c : Counter) (records : List HistoryPB) : Counter :=
  Tier.all.foldl (fun c i => c.loadTier i (loaded records i))
    { c with history := fun _ => {}, lastUpdate := 0, nextCompact := 0 }

def loadCounterFromMetricPB (dst : Counter) (src : MetricPB) (now : Time) :
    Except Fault Counter := do
  if src.getName ≠ dst.name then .ok dst
  else if src.getType = .counter ∧ dst.type = .counter ∨
      src.getType = .counterTimeSeries ∧ dst.type = .counterTimeSeries then
    let delta := max 0 (src.getValue - dst.value)
    let dst ← dst.add delta now
    if dst.timeSeries then .ok (dst.loadHistory src.history) else .ok dst
  else .ok dst

end Counter

/-! ## Loading the history -/

theorem Tier.ofLabel_label (i : Tier) : ofLabel i.label = i := by
  cases i <;> decide

namespace Counter

def recordPB (i : Tier) (b : Bucket) : HistoryPB :=
  { timeUnixMilli := some b.start, delta := some b.delta, rollUp := some i.label }

theorem loaded_append (records records' : List HistoryPB) (i : Tier) :
    loaded (records ++ records') i = loaded records i ++ loaded records' i := by
  simp [loaded]

theorem loaded_records (bs : List Bucket) (i j : Tier) :
    loaded (bs.map (recordPB j)) i = if j = i then bs else [] := by
  have hlabel (b : Bucket) : Tier.ofLabel (recordPB j b).getRollUp = j := Tier.ofLabel_label j
  unfold loaded
  rw [List.filter_map, List.map_map]
  split_ifs with hj
  · rw [List.filter_eq_self.mpr fun b _ => by simpa [hlabel] using hj]
    exact List.map_id bs
  · rw [List.filter_eq_nil_iff.mpr fun b _ => by simpa [hlabel] using hj]
    rfl

theorem loaded_historyPB (c : Counter) (i : Tier) : loaded c.historyPB i = (c.history i).items := by
  change loaded (Tier.all.reverse.flatMap fun j => (c.history j).items.map (recordPB j)) i = _
  simp only [Tier.all, List.reverse_cons, List.reverse_nil, List.nil_append, List.cons_append,
    List.flatMap_cons, List.flatMap_nil, List.append_nil, loaded_append, loaded_records]
  cases i <;> simp

end Counter

namespace Buckets

theorem ext {h h' : Buckets} (heq : h.items = h'.items) : h = h' := by
  cases h
  cases h'
  cases heq
  rfl

theorem floorTo_of_dvd {ms w : Int64} (hw : 0 < w.toInt) (h : w.toInt ∣ ms.toInt) :
    floorTo ms w = ms := by
  have hsame : ms.toInt / w.toInt * w.toInt = ms.toInt := Int.ediv_mul_cancel h
  rw [← Int64.toInt_inj, toInt_floorTo hw (by rw [hsame]; exact ms.le_toInt), hsame]

theorem foldl_recorded_self {w : Int64} (hw : 0 < w.toInt) {bs : List Bucket}
    (hsorted : bs.Pairwise fun a b => a.start < b.start)
    (hround : ∀ b ∈ bs, w.toInt ∣ b.start.toInt) :
    bs.foldl (fun items b => recorded items (floorTo b.start w) b.delta) [] = bs := by
  induction bs using List.reverseRecOn with
  | nil => rfl
  | append_singleton bs b ih =>
    obtain ⟨hfront, -, hlast⟩ := List.pairwise_append.mp hsorted
    have hb : floorTo b.start w = b.start := floorTo_of_dvd hw (hround b (by simp))
    rw [List.foldl_append, ih hfront fun b' hb' => hround b' (by simp [hb'])]
    rw [List.foldl_cons, List.foldl_nil, hb]
    unfold recorded
    split
    · rename_i hnone
      rw [List.getLast?_eq_none_iff.mp hnone]
      rfl
    · rename_i last hsome
      have hlt := hlast last (List.mem_of_getLast? hsome) b (List.mem_singleton_self b)
      rw [if_neg (Int64.not_le.mpr hlt)]

end Buckets

namespace Counter

def Aligned (c : Counter) : Prop :=
  ∀ i, ∀ b ∈ (c.history i).items, i.width.toInt ∣ b.start.toInt

theorem loadTier_eq (c : Counter) (i : Tier) (h : List Bucket) :
    ∃ history lastUpdate, c.loadTier i h = { c with history, lastUpdate } ∧
      (history i).items = (h.mergeSort fun a b => a.start ≤ b.start).foldl (fun items b =>
        Buckets.recorded items (floorTo b.start i.width) b.delta) (c.history i).items ∧
      ∀ j, j ≠ i → history j = c.history j := by
  unfold loadTier
  generalize h.mergeSort (fun a b => decide (a.start ≤ b.start)) = bs
  induction bs generalizing c with
  | nil => exact ⟨c.history, c.lastUpdate, rfl, rfl, fun _ _ => rfl⟩
  | cons b bs ih =>
    obtain ⟨history, lastUpdate, heq, hitems, hothers⟩ := ih { c.record i b.start b.delta with
      lastUpdate := max (c.record i b.start b.delta).lastUpdate b.start }
    refine ⟨history, lastUpdate, heq, ?_, fun j hj => ?_⟩
    · rw [hitems, List.foldl_cons]
      simp only [record, Function.update_self]
      rfl
    · rw [hothers j hj]
      exact Function.update_of_ne hj _ _

def rebuilt (i : Tier) (h : List Bucket) (items : List Bucket) : List Bucket :=
  (h.mergeSort fun a b => a.start ≤ b.start).foldl (fun items b =>
    Buckets.recorded items (floorTo b.start i.width) b.delta) items

theorem foldl_loadTier (c : Counter) {tiers : List Tier} (hnodup : tiers.Nodup)
    (h : Tier → List Bucket) :
    ∃ history lastUpdate,
      tiers.foldl (fun c i => c.loadTier i (h i)) c = { c with history, lastUpdate } ∧
      (∀ i ∈ tiers, (history i).items = rebuilt i (h i) (c.history i).items) ∧
      ∀ i, i ∉ tiers → history i = c.history i := by
  induction tiers generalizing c with
  | nil => exact ⟨c.history, c.lastUpdate, rfl, by simp, fun _ _ => rfl⟩
  | cons i tiers ih =>
    obtain ⟨hi, htiers⟩ := List.nodup_cons.mp hnodup
    obtain ⟨first, lastUpdate, heq, hitems, hothers⟩ := c.loadTier_eq i (h i)
    obtain ⟨history, lastUpdate', heq', hin, hout⟩ := ih { c with history := first, lastUpdate }
      htiers
    refine ⟨history, lastUpdate', ?_, fun j hj => ?_, fun j hj => ?_⟩
    · rw [List.foldl_cons, heq, heq']
    · rcases List.mem_cons.mp hj with rfl | hj
      · rw [hout j hi]
        exact hitems
      · rw [hin j hj]
        exact congrArg (fun h' => rebuilt j (h j) h'.items) (hothers j fun heq => hi (heq ▸ hj))
    · rw [hout j (List.not_mem_of_not_mem_cons hj)]
      exact hothers j (List.ne_of_not_mem_cons hj)

theorem loadHistory_eq (c : Counter) (records : List HistoryPB) :
    ∃ history lastUpdate, c.loadHistory records = { c with history, lastUpdate, nextCompact := 0 } ∧
      ∀ i, (history i).items = rebuilt i (loaded records i) [] := by
  obtain ⟨history, lastUpdate, heq, hitems, -⟩ := foldl_loadTier
    { c with history := fun _ => {}, lastUpdate := 0, nextCompact := 0 }
    (show Tier.all.Nodup by decide) (loaded records)
  exact ⟨history, lastUpdate, heq, fun i => hitems i (by cases i <;> decide)⟩

theorem rebuilt_self {c : Counter} (h : c.Aligned) (i : Tier) :
    rebuilt i (c.history i).items [] = (c.history i).items := by
  have hsort : ((c.history i).items.mergeSort fun a b => a.start ≤ b.start) =
      (c.history i).items :=
    List.mergeSort_of_pairwise ((c.history i).sorted.imp fun hlt =>
      decide_eq_true (Int64.le_of_lt hlt))
  unfold rebuilt
  rw [hsort]
  exact Buckets.foldl_recorded_self i.width_pos (c.history i).sorted (h i)

theorem loadHistory_congr {c c' : Counter} (hname : c'.name = c.name)
    (hseries : c'.timeSeries = c.timeSeries) (hvalue : c'.value = c.value)
    (records : List HistoryPB) : c'.loadHistory records = c.loadHistory records := by
  unfold loadHistory
  rw [hname, hseries, hvalue]

/-! ## Loading a dump -/

theorem load_eq {dst : Counter} {src : MetricPB} (hname : src.getName = dst.name)
    (htype : src.getType = dst.type) (now : Time) :
    dst.loadCounterFromMetricPB src now =
      (dst.add (max 0 (src.getValue - dst.value)) now).bind fun dst =>
        if dst.timeSeries then .ok (dst.loadHistory src.history) else .ok dst := by
  have hmatch : src.getType = .counter ∧ dst.type = .counter ∨
      src.getType = .counterTimeSeries ∧ dst.type = .counterTimeSeries := by
    rw [htype]
    unfold type
    cases dst.timeSeries
    · exact .inl ⟨rfl, rfl⟩
    · exact .inr ⟨rfl, rfl⟩
  unfold loadCounterFromMetricPB
  rw [if_neg (not_not.mpr hname), if_pos hmatch]
  rfl

theorem add_eq {c : Counter} {delta : Int64} (h : 0 ≤ delta) (now : Time) :
    ∃ history lastUpdate nextCompact, c.add delta now = .ok { c with
      value := c.value + delta
      history := history
      lastUpdate := lastUpdate
      nextCompact := nextCompact } ∧ (c.timeSeries = false → history = c.history) := by
  unfold add
  rw [if_neg (Int64.not_lt.mpr h)]
  cases hseries : c.timeSeries with
  | false => exact ⟨c.history, c.lastUpdate, c.nextCompact, rfl, fun _ => rfl⟩
  | true =>
    obtain ⟨history, lastUpdate, nextCompact, heq⟩ := addWithTime_eq c delta now
    refine ⟨history, lastUpdate, nextCompact, ?_, fun h => by cases h⟩
    rw [if_neg (by simp), heq, hseries]

theorem add_zero_eq (c : Counter) (now : Time) : c.add 0 now = .ok c := by
  unfold add addWithTime
  rw [if_neg (by decide), if_pos rfl, Int64.add_zero]
  split_ifs <;> rfl

theorem load_again {d : Counter} {src : MetricPB} (hname : src.getName = d.name)
    (htype : src.getType = d.type) (hvalue : src.getValue = d.value)
    (hhistory : d.timeSeries = true → d.loadHistory src.history = d) (now : Time) :
    d.loadCounterFromMetricPB src now = .ok d := by
  have hmissing : max 0 (src.getValue - d.value) = 0 := by
    rw [hvalue, Int64.sub_self]
    rfl
  rw [load_eq hname htype, hmissing, add_zero_eq]
  change (if d.timeSeries then _ else _) = _
  split_ifs with hseries
  · rw [hhistory hseries]
  · rfl

/-- A counter whose buckets are in their places is loaded as it was dumped, and loading it again
changes nothing. -/
theorem load_toMetricPB {c : Counter} (haligned : c.Aligned) (hvalue : 0 ≤ c.value)
    (hplain : c.timeSeries = false → c.history = fun _ => {}) (now now' : Time) :
    ∃ d, loadCounterFromMetricPB { name := c.name, timeSeries := c.timeSeries } c.toMetricPB now =
        .ok d ∧
      d.name = c.name ∧ d.timeSeries = c.timeSeries ∧ d.value = c.value ∧ d.history = c.history ∧
      d.loadCounterFromMetricPB c.toMetricPB now' = .ok d := by
  have hmissing : max 0 (c.toMetricPB.getValue - 0) = c.value := by
    change max 0 (c.value - 0) = c.value
    rw [Int64.sub_zero]
    exact if_pos hvalue
  obtain ⟨history, lastUpdate, nextCompact, hadd, hsame⟩ :=
    add_eq (c := { name := c.name, timeSeries := c.timeSeries }) hvalue now
  rw [Int64.zero_add] at hadd
  have hload : loadCounterFromMetricPB { name := c.name, timeSeries := c.timeSeries }
      c.toMetricPB now = _ := load_eq rfl rfl now
  rw [hmissing, hadd] at hload
  set added : Counter := ⟨c.name, c.timeSeries, c.value, history, lastUpdate, nextCompact⟩
  by_cases hseries : c.timeSeries = true
  · have hrecords : c.toMetricPB.history = c.historyPB := if_pos hseries
    obtain ⟨history', lastUpdate', heq, hitems⟩ := added.loadHistory_eq c.historyPB
    have hhistory : history' = c.history := by
      funext i
      refine Buckets.ext ?_
      rw [hitems, loaded_historyPB, rebuilt_self haligned]
    have hdone : (added.loadHistory c.historyPB).loadHistory c.historyPB =
        added.loadHistory c.historyPB := by
      refine loadHistory_congr ?_ ?_ ?_ _ <;> rw [heq]
    refine ⟨added.loadHistory c.historyPB, ?_, ?_, ?_, ?_, ?_, ?_⟩
    · rw [hload, ← hrecords]
      exact if_pos hseries
    · rw [heq]
    · rw [heq]
    · rw [heq]
    · rw [heq, hhistory]
    · refine load_again ?_ ?_ ?_ (fun _ => hrecords ▸ hdone) now'
      all_goals
        rw [heq]
        rfl
  · have hfalse : c.timeSeries = false := Bool.eq_false_iff.mpr hseries
    refine ⟨added, hload.trans (if_neg hseries), rfl, rfl, rfl, ?_, ?_⟩
    · rw [hplain hfalse]
      exact hsame hfalse
    · refine load_again ?_ ?_ ?_ (fun h : added.timeSeries = true => absurd h hseries) now' <;> rfl

theorem addAll_plain (name : String) (log : List Increment) :
    (addAll { name, timeSeries := false } log).history = fun _ => {} := by
  induction log using List.reverseRecOn with
  | nil => rfl
  | append_singleton log a ih =>
    obtain ⟨history, _, _, heq⟩ := addAll_eq { name, timeSeries := false } log
    have hseries : (addAll { name, timeSeries := false } log).timeSeries = false := by rw [heq]
    rw [addAll_concat]
    unfold addWithTime
    by_cases hdelta : a.delta = 0
    · rw [if_pos hdelta]
      exact ih
    · rw [if_neg hdelta, if_pos (by simp [hseries])]
      exact ih

theorem aligned_addAll (name : String) (timeSeries : Bool) {log : List Increment}
    (htimes : ∀ a ∈ log, firstDay ≤ a.ms) : (addAll { name, timeSeries } log).Aligned := by
  intro i b hb
  cases timeSeries with
  | false =>
    rw [addAll_plain] at hb
    cases hb
  | true => exact start_aligned name htimes hb

/-- A fresh counter that loads the dump of another gets its value and history, and loading the
dump again changes nothing. -/
theorem dump_round_trip (name : String) (timeSeries : Bool) {log : List Increment}
    (htimes : ∀ a ∈ log, firstDay ≤ a.ms)
    (hvalue : 0 ≤ (addAll { name, timeSeries } log).value) (now now' : Time) :
    let c := addAll { name, timeSeries } log
    ∃ d, loadCounterFromMetricPB { name, timeSeries } c.toMetricPB now = .ok d ∧
      d.value = c.value ∧ (∀ i, (d.history i).items = (c.history i).items) ∧
      (∀ t1 t2, d.deltaBetween t1 t2 = c.deltaBetween t1 t2) ∧
      d.loadCounterFromMetricPB c.toMetricPB now' = .ok d := by
  intro c
  obtain ⟨history, lastUpdate, nextCompact, heq⟩ := addAll_eq { name, timeSeries } log
  have hname : c.name = name := congrArg Counter.name heq
  have hseries : c.timeSeries = timeSeries := congrArg Counter.timeSeries heq
  have hplain (hfalse : c.timeSeries = false) : c.history = fun _ => {} := by
    obtain rfl := hseries.symm.trans hfalse
    exact addAll_plain name log
  obtain ⟨d, hload, hdname, hdseries, hdvalue, hdhistory, hagain⟩ :=
    load_toMetricPB (aligned_addAll name timeSeries htimes) hvalue hplain now now'
  rw [hname, hseries] at hload
  refine ⟨d, hload, hdvalue, fun i => by rw [hdhistory], fun t1 t2 => ?_, hagain⟩
  unfold deltaBetween
  rw [hdseries, hdname, hdhistory]

theorem jumping_dump_round_trip :
    let c := addAll { name := "traffic", timeSeries := true } jumpingLog
    c.toMetricPB.history.length = 5 ∧
    ∃ d, loadCounterFromMetricPB { name := "traffic", timeSeries := true } c.toMetricPB 0 = .ok d ∧
      d.value = c.value ∧ (∀ i, (d.history i).items = (c.history i).items) ∧
      (∀ t1 t2, d.deltaBetween t1 t2 = c.deltaBetween t1 t2) ∧
      d.loadCounterFromMetricPB c.toMetricPB 1 = .ok d :=
  ⟨by decide +kernel, dump_round_trip "traffic" true (by decide +kernel) (by decide +kernel) 0 1⟩

/-- A value that has wrapped around is negative, and nothing is added for it. -/
theorem wrapped_dump_lost :
    let c := addAll { name := "traffic", timeSeries := true } [⟨9223372036854775807, 0⟩, ⟨1, 0⟩]
    ∃ d, loadCounterFromMetricPB { name := "traffic", timeSeries := true } c.toMetricPB 0 = .ok d ∧
      d.value ≠ c.value := by
  intro c
  have hmissing : max 0 (c.toMetricPB.getValue - 0) = 0 := by
    decide +kernel
  have hload : loadCounterFromMetricPB { name := "traffic", timeSeries := true } c.toMetricPB 0 =
      .ok (loadHistory { name := "traffic", timeSeries := true } c.toMetricPB.history) := by
    rw [load_eq rfl rfl, hmissing, add_zero_eq]
    rfl
  obtain ⟨history, lastUpdate, heq, -⟩ :=
    loadHistory_eq { name := "traffic", timeSeries := true } c.toMetricPB.history
  have hwrapped : (0 : Int64) ≠ c.value := by
    decide +kernel
  refine ⟨_, hload, ?_⟩
  rw [heq]
  exact hwrapped

end Counter

end Mieru.Metrics
