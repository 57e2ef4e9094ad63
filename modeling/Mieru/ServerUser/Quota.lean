import Mieru.Cipher.Nonce
import Mieru.Metrics.Counter

/-! # Traffic quotas

A server user may have quotas: so many megabytes in so many days. A session is refused
when the traffic of one of the windows exceeds its quota. -/
namespace Mieru.ServerUser

open Clock Metrics Result
open Cipher (maxUserNameLen)

structure Quota where
  days : Int32
  megabytes : Int32
  deriving DecidableEq, Repr

/-- A user of the server configuration. A field that is not set is empty. -/
structure User where
  name : String := ""
  password : String := ""
  hashedPassword : String := ""
  quotas : List Quota := []
  deriving DecidableEq, Repr


def Quota.validate (quota : Quota) : Except String Unit := do
  ensure (0 < quota.days) s!"quota: number of days {quota.days} is invalid"
  ensure (0 < quota.megabytes) s!"quota: traffic volume in megabyte {quota.megabytes} is invalid"

def validateServerConfigSingleUser (user : User) : Except String Unit := do
  ensure (user.name ≠ "") "user name is not set"
  ensure (¬(user.password = "" ∧ user.hashedPassword = "")) "user password is not set"
  ensure (user.name.utf8ByteSize ≤ maxUserNameLen) s!"user name exceeds {maxUserNameLen} bytes"
  ensure (¬(user.password ≠ "" ∧ 64 < user.password.utf8ByteSize)) "user password exceeds 64 bytes"
  user.quotas.forM Quota.validate

structure Policy where
  name : String := ""
  quotas : List Quota := []
  deriving DecidableEq, Repr

def buildPolicy (user : User) : Policy where
  name := user.name
  quotas := user.quotas.map fun quota => { days := quota.days, megabytes := quota.megabytes }

structure MetricGroup where
  uploadBytes : Option Counter
  downloadBytes : Option Counter

def userMetricGroup (userName : String) : String := s!"user - {userName}"

/-- `-time.Duration(days) * 24 * time.Hour`. -/
def Quota.window (quota : Quota) : Duration := -quota.days.toInt64 * 24 * hour

def Quota.exceeded (quota : Quota) (uploadBytes downloadBytes : Counter) (now : Time) :
    Except Fault Bool := do
  let begins := add now quota.window
  let up ← uploadBytes.deltaBetween begins now
  let down ← downloadBytes.deltaBetween begins now
  .ok ((up + down) / 1048576 > quota.megabytes.toInt64)

/-- The loop over the quotas; each round reads the clock. `false` refuses the session. -/
def checkQuotas (uploadBytes downloadBytes : Counter) (clock : ℕ → Time) :
    ℕ → List Quota → Except Fault Bool
  | _, [] => .ok true
  | i, quota :: quotas => do
    if ← quota.exceeded uploadBytes downloadBytes (clock i) then .ok false
    else checkQuotas uploadBytes downloadBytes clock (i + 1) quotas

/-- The answer may come with an error that is only logged. -/
def checkQuota (userPolicy : Option Policy) (metricGroups : String → Option MetricGroup)
    (userName : String) (clock : ℕ → Time) : Except Fault (Bool × Option String) :=
  match userPolicy with
  | none => .ok (true, some "no registered user")
  | some policy =>
    if policy.name ≠ userName then .ok (true, some s!"user {userName} is not found")
    else if policy.quotas = [] then .ok (true, none)
    else
      let metricGroupName := userMetricGroup userName
      match metricGroups metricGroupName with
      | none => .ok (true, some s!"metric group {metricGroupName} is not found")
      | some group =>
        match group.uploadBytes, group.downloadBytes with
        | none, _ =>
          .ok (true, some s!"metric UploadBytes in group {metricGroupName} is not found")
        | _, none =>
          .ok (true, some s!"metric DownloadBytes in group {metricGroupName} is not found")
        | some uploadBytes, some downloadBytes => do
          let ok ← checkQuotas uploadBytes downloadBytes clock 0 policy.quotas
          .ok (ok, none)

/-! ## What a quota means -/

structure Traffic where
  uploadBytes : Counter
  downloadBytes : Counter
  timeSeries : uploadBytes.timeSeries = true ∧ downloadBytes.timeSeries = true

/-- The bytes of the last `days` days fit into 64 bits. -/
def Traffic.Fits (traffic : Traffic) (quota : Quota) (now : Time) : Prop :=
  ∀ up down,
    traffic.uploadBytes.deltaBetween (now - quota.days.toInt * 86400000000000) now = .ok up →
    traffic.downloadBytes.deltaBetween (now - quota.days.toInt * 86400000000000) now = .ok down →
      -2 ^ 63 ≤ up.toInt + down.toInt ∧ up.toInt + down.toInt < 2 ^ 63

/-- The last `days` days saw more than `megabytes` whole megabytes. -/
def Quota.UsedUp (quota : Quota) (traffic : Traffic) (now : Time) : Prop :=
  ∃ up down,
    traffic.uploadBytes.deltaBetween (now - quota.days.toInt * 86400000000000) now = .ok up ∧
    traffic.downloadBytes.deltaBetween (now - quota.days.toInt * 86400000000000) now = .ok down ∧
    quota.megabytes.toInt < (up.toInt + down.toInt) / 1048576

def QuotaRight (user : User) (traffic : Traffic) (clock : ℕ → Time)
    (answer : Except Fault (Bool × Option String)) : Prop :=
  ∃ ok, answer = .ok (ok, none) ∧
    (ok = false ↔ ∃ (i : ℕ) (quota : Quota), user.quotas[i]? = some quota ∧
      quota.UsedUp traffic (clock i))

/-- The most days whose nanoseconds fit into a duration. -/
def maxWindowDays : ℤ := 106751

theorem deltaBetween_ok {c : Counter} (h : c.timeSeries = true) {t1 t2 : Time} (hle : t1 ≤ t2) :
    ∃ n, c.deltaBetween t1 t2 = .ok n := by
  unfold Counter.deltaBetween
  rw [if_neg (Int.not_lt.mpr hle), if_neg (not_not.mpr h)]
  exact ⟨_, rfl⟩

theorem toInt_window {quota : Quota} (hpos : 0 < quota.days.toInt)
    (hmax : quota.days.toInt ≤ maxWindowDays) :
    quota.window.toInt = -(quota.days.toInt * 86400000000000) := by
  unfold maxWindowDays at hmax
  have hneg : (-quota.days.toInt64).toInt = -quota.days.toInt := by
    rw [Int64.toInt_neg, Int32.toInt_toInt64]
    exact Int.bmod_eq_of_le (by omega) (by omega)
  have h24 : (-quota.days.toInt64 * 24).toInt = -quota.days.toInt * 24 := by
    have hlit : (24 : Int64).toInt = 24 := rfl
    rw [Int64.toInt_mul, hneg, hlit]
    exact Int.bmod_eq_of_le (by omega) (by omega)
  have hhour : hour.toInt = 3600000000000 := rfl
  unfold Quota.window
  rw [Int64.toInt_mul, h24, hhour, Int.bmod_eq_of_le (by omega) (by omega)]
  omega

theorem megabytes_lt_iff {up down : Int64} {megabytes : Int32} (hpos : 0 < megabytes.toInt)
    (hlow : -2 ^ 63 ≤ up.toInt + down.toInt) (hhigh : up.toInt + down.toInt < 2 ^ 63) :
    (up + down) / 1048576 > megabytes.toInt64 ↔
      megabytes.toInt < (up.toInt + down.toInt) / 1048576 := by
  have hsum : (up + down).toInt = up.toInt + down.toInt := by
    rw [Int64.toInt_add]
    exact Int.bmod_eq_of_le (by omega) (by omega)
  have hlit : (1048576 : Int64).toInt = 1048576 := rfl
  rw [gt_iff_lt, Int64.lt_iff_toInt_lt, Int32.toInt_toInt64, Int64.toInt_div, hsum, hlit]
  generalize up.toInt + down.toInt = total at hlow hhigh
  rcases Int.le_total 0 total with hnonneg | hneg
  · rw [Int.tdiv_eq_ediv_of_nonneg hnonneg, Int.bmod_eq_of_le (by omega) (by omega)]
  · have htdiv : total.tdiv 1048576 = -((-total) / 1048576) := by
      rw [← Int.tdiv_eq_ediv_of_nonneg (by omega), Int.neg_tdiv, Int.neg_neg]
    rw [htdiv, Int.bmod_eq_of_le (by omega) (by omega)]
    omega

section Checks

variable {traffic : Traffic} {clock : ℕ → Time}

theorem exceeded_right {quota : Quota} {now : Time} (hdays : 0 < quota.days.toInt)
    (hmega : 0 < quota.megabytes.toInt) (hmax : quota.days.toInt ≤ maxWindowDays)
    (hfits : traffic.Fits quota now) :
    ∃ used, quota.exceeded traffic.uploadBytes traffic.downloadBytes now = .ok used ∧
      (used = true ↔ quota.UsedUp traffic now) := by
  have hbegins : add now quota.window = now - quota.days.toInt * 86400000000000 := by
    unfold add
    rw [toInt_window hdays hmax]
    exact Int.sub_eq_add_neg.symm
  have hle : now - quota.days.toInt * 86400000000000 ≤ now := Int.sub_le_self now (by omega)
  obtain ⟨up, hup⟩ := deltaBetween_ok traffic.timeSeries.1 hle
  obtain ⟨down, hdown⟩ := deltaBetween_ok traffic.timeSeries.2 hle
  obtain ⟨hlow, hhigh⟩ := hfits _ _ hup hdown
  refine ⟨(up + down) / 1048576 > quota.megabytes.toInt64, ?_, ?_⟩
  · simp only [Quota.exceeded, hbegins, hup, hdown, ok_bind]
  · rw [decide_eq_true_eq, megabytes_lt_iff hmega hlow hhigh]
    constructor
    · intro hlt
      exact ⟨up, down, hup, hdown, hlt⟩
    · rintro ⟨up', down', hup', hdown', hlt⟩
      rw [hup] at hup'
      rw [hdown] at hdown'
      cases hup'
      cases hdown'
      exact hlt

theorem checkQuotas_right {quotas : List Quota}
    (hquotas : ∀ quota ∈ quotas, 0 < quota.days.toInt ∧ 0 < quota.megabytes.toInt ∧
      quota.days.toInt ≤ maxWindowDays)
    (i : ℕ) (hfits : ∀ (j : ℕ) quota, quotas[j]? = some quota →
      traffic.Fits quota (clock (i + j))) :
    ∃ ok, checkQuotas traffic.uploadBytes traffic.downloadBytes clock i quotas = .ok ok ∧
      (ok = false ↔ ∃ (j : ℕ) (quota : Quota), quotas[j]? = some quota ∧
        quota.UsedUp traffic (clock (i + j))) := by
  induction quotas generalizing i with
  | nil => exact ⟨true, rfl, by simp⟩
  | cons quota quotas ih =>
    obtain ⟨hdays, hmega, hmax⟩ := hquotas quota List.mem_cons_self
    have hfirst : traffic.Fits quota (clock i) := hfits 0 quota rfl
    obtain ⟨used, hused, hiff⟩ := exceeded_right hdays hmega hmax hfirst
    obtain ⟨ok, hok, hrest⟩ := ih (fun q hq => hquotas q (List.mem_cons_of_mem _ hq)) (i + 1)
      fun j q hq => Nat.add_right_comm i j 1 ▸ hfits (j + 1) q hq
    cases used with
    | true =>
      refine ⟨false, ?_, ?_⟩
      · simp only [checkQuotas, hused, ok_bind, if_true]
      · exact iff_of_true rfl ⟨0, quota, rfl, hiff.mp rfl⟩
    | false =>
      refine ⟨ok, ?_, hrest.trans ?_⟩
      · simp only [checkQuotas, hused, ok_bind, Bool.false_eq_true, if_false, hok]
      · constructor
        · rintro ⟨j, q, hq, hu⟩
          refine ⟨j + 1, q, hq, ?_⟩
          rwa [Nat.add_right_comm] at hu
        · rintro ⟨j, q, hq, hu⟩
          cases j with
          | zero =>
            cases hq
            exact absurd (hiff.mpr hu) Bool.false_ne_true
          | succ j =>
            refine ⟨j, q, hq, ?_⟩
            rwa [Nat.add_right_comm]

end Checks

/-! ## Accepted users -/

theorem quotas_of_valid {user : User} (h : validateServerConfigSingleUser user = .ok ()) :
    ∀ quota ∈ user.quotas, 0 < quota.days.toInt ∧ 0 < quota.megabytes.toInt := by
  unfold validateServerConfigSingleUser at h
  simp only [ensure_bind_eq_ok] at h
  intro quota hquota
  have hq := forM_eq_ok.mp h.2.2.2.2 quota hquota
  unfold Quota.validate at hq
  rw [ensure_bind_eq_ok, ensure_eq_ok] at hq
  exact ⟨Int32.lt_iff_toInt_lt.mp hq.1, Int32.lt_iff_toInt_lt.mp hq.2⟩

def Traffic.group (traffic : Traffic) : MetricGroup where
  uploadBytes := some traffic.uploadBytes
  downloadBytes := some traffic.downloadBytes

theorem checkQuota_eq {user : User} {traffic : Traffic} {clock : ℕ → Time}
    {metricGroups : String → Option MetricGroup}
    (hgroup : metricGroups (userMetricGroup user.name) = some traffic.group) :
    checkQuota (some (buildPolicy user)) metricGroups user.name clock =
      (checkQuotas traffic.uploadBytes traffic.downloadBytes clock 0 user.quotas).map
        fun ok => (ok, none) := by
  have hname : ¬(buildPolicy user).name ≠ user.name := not_not.mpr rfl
  have hquotas : (buildPolicy user).quotas = user.quotas := by simp [buildPolicy]
  unfold checkQuota
  dsimp only
  rw [if_neg hname, hquotas]
  split_ifs with hempty
  · rw [hempty]
    rfl
  · rw [hgroup]
    dsimp only [Traffic.group]
    cases checkQuotas traffic.uploadBytes traffic.downloadBytes clock 0 user.quotas <;> rfl

/-! ## Windows that are too long -/

def quietTraffic : Traffic where
  uploadBytes := { name := "UploadBytes", timeSeries := true }
  downloadBytes := { name := "DownloadBytes", timeSeries := true }
  timeSeries := ⟨rfl, rfl⟩

def oldTraffic : Traffic where
  uploadBytes := Counter.addWithTime { name := "UploadBytes", timeSeries := true } (2 ^ 51) 0
  downloadBytes := { name := "DownloadBytes", timeSeries := true }
  timeSeries := ⟨rfl, rfl⟩

theorem quiet_deltaBetween {name : String} {t1 t2 : Time} (hle : t1 ≤ t2) :
    Counter.deltaBetween { name := name, timeSeries := true } t1 t2 = .ok 0 := by
  unfold Counter.deltaBetween
  rw [if_neg (Int.not_lt.mpr hle), if_neg (by simp)]
  rfl

theorem old_history (i : Tier) :
    (oldTraffic.uploadBytes.history i).items = if i = .second then [⟨0, 2 ^ 51⟩] else [] := by
  cases i <;> rfl

theorem old_deltaBetween {t1 t2 : Time} (hle : t1 ≤ t2) :
    oldTraffic.uploadBytes.deltaBetween t1 t2 =
      .ok (if unixMilli t1 < 0 ∧ 0 ≤ unixMilli t2 then 2 ^ 51 else 0) := by
  unfold Counter.deltaBetween
  rw [if_neg (Int.not_lt.mpr hle), if_neg (by simp [oldTraffic.timeSeries.1])]
  generalize unixMilli t1 = begins
  generalize unixMilli t2 = ends
  by_cases hbegins : 0 ≤ begins
  · have hnot : ¬(begins < 0 ∧ 0 ≤ ends) := fun h => Int64.not_le.mpr h.1 hbegins
    simp [Tier.all, Buckets.between, old_history, hbegins, hnot]
  · have hlt := Int64.not_le.mp hbegins
    by_cases hends : 0 ≤ ends
    · simp [Tier.all, Buckets.between, old_history, hlt, hends]
    · simp [Tier.all, Buckets.between, old_history, hlt, hends]

theorem le_of_deltaBetween {c : Counter} {t1 t2 : Time} {n : Int64}
    (h : c.deltaBetween t1 t2 = .ok n) : t1 ≤ t2 := by
  by_contra hlt
  unfold Counter.deltaBetween at h
  rw [if_pos (Int.not_le.mp hlt)] at h
  cases h

theorem fits_quietTraffic (quota : Quota) (now : Time) : quietTraffic.Fits quota now := by
  intro up down hup hdown
  have hle := le_of_deltaBetween hup
  cases (quiet_deltaBetween hle).symm.trans hup
  cases (quiet_deltaBetween hle).symm.trans hdown
  decide

theorem fits_oldTraffic (quota : Quota) (now : Time) : oldTraffic.Fits quota now := by
  intro up down hup hdown
  have hle := le_of_deltaBetween hup
  cases (old_deltaBetween hle).symm.trans hup
  cases (quiet_deltaBetween hle).symm.trans hdown
  split_ifs <;> decide

theorem exceeded_of_none {traffic : Traffic} {quota : Quota} {now : Time}
    (hmega : 0 < quota.megabytes.toInt)
    (hup : traffic.uploadBytes.deltaBetween (add now quota.window) now = .ok 0)
    (hdown : traffic.downloadBytes.deltaBetween (add now quota.window) now = .ok 0) :
    quota.exceeded traffic.uploadBytes traffic.downloadBytes now = .ok false := by
  have hnot : ¬((0 + 0 : Int64) / 1048576 > quota.megabytes.toInt64) := by
    rw [megabytes_lt_iff hmega (by decide) (by decide)]
    exact Int.not_lt.mpr (Int.le_of_lt hmega)
  simp only [Quota.exceeded, hup, hdown, ok_bind, hnot, decide_false]

theorem checkQuotas_of_none {traffic : Traffic} {clock : ℕ → Time} {quotas : List Quota}
    (hquotas : ∀ quota ∈ quotas, ∀ i,
      quota.exceeded traffic.uploadBytes traffic.downloadBytes (clock i) = .ok false) (i : ℕ) :
    checkQuotas traffic.uploadBytes traffic.downloadBytes clock i quotas = .ok true := by
  induction quotas generalizing i with
  | nil => rfl
  | cons quota quotas ih =>
    have hrest := ih (fun q hq => hquotas q (List.mem_cons_of_mem _ hq)) (i + 1)
    simp only [checkQuotas, hquotas quota List.mem_cons_self i, ok_bind, Bool.false_eq_true,
      if_false, hrest]

theorem window_nonpos {quotas : List Quota} {clock : ℕ → Time} {i : ℕ} {ok : Bool}
    (hmega : ∀ quota ∈ quotas, 0 < quota.megabytes.toInt)
    (h : checkQuotas quietTraffic.uploadBytes quietTraffic.downloadBytes clock i quotas = .ok ok) :
    ∀ quota ∈ quotas, quota.window.toInt ≤ 0 := by
  induction quotas generalizing i with
  | nil => simp
  | cons quota quotas ih =>
    have hfirst : quota.window.toInt ≤ 0 := by
      by_contra hpos
      have hlt : clock i < add (clock i) quota.window :=
        Int.lt_add_of_pos_right _ (Int.not_le.mp hpos)
      have hpanic : quietTraffic.uploadBytes.deltaBetween (add (clock i) quota.window) (clock i) =
          .error (.panicked "t2 must be later than t1") := by
        unfold Counter.deltaBetween
        exact if_pos hlt
      simp [checkQuotas, Quota.exceeded, hpanic] at h
    have hle : add (clock i) quota.window ≤ clock i := add_le hfirst
    have hnone : quota.exceeded quietTraffic.uploadBytes quietTraffic.downloadBytes (clock i) =
        .ok false :=
      exceeded_of_none (hmega quota List.mem_cons_self) (quiet_deltaBetween hle)
        (quiet_deltaBetween hle)
    simp only [checkQuotas, hnone, ok_bind, Bool.false_eq_true, if_false] at h
    exact List.forall_mem_cons.mpr
      ⟨hfirst, ih (fun q hq => hmega q (List.mem_cons_of_mem _ hq)) h⟩

/-- So late that 1970 is out of reach of every duration, but not of 106752 days. -/
def lateNow : Time := 9223372500000000000

theorem old_not_exceeded {quota : Quota} (hmega : 0 < quota.megabytes.toInt)
    (hwindow : quota.window.toInt ≤ 0) :
    quota.exceeded oldTraffic.uploadBytes oldTraffic.downloadBytes lateNow = .ok false := by
  have hlow := quota.window.le_toInt
  have hle : add lateNow quota.window ≤ lateNow := add_le hwindow
  have hbegins : ¬unixMilli (add lateNow quota.window) < 0 := by
    have hlate : add lateNow quota.window = (9223372500000000000 + quota.window.toInt : ℤ) := rfl
    have hzero : (0 : Int64).toInt = 0 := rfl
    rw [Int64.lt_iff_toInt_lt, hlate, toInt_unixMilli (by omega) (by omega), hzero]
    omega
  refine exceeded_of_none hmega ?_ (quiet_deltaBetween hle)
  rw [old_deltaBetween hle, if_neg fun h => hbegins h.1]

theorem old_usedUp {quota : Quota} (hdays : maxWindowDays < quota.days.toInt) :
    quota.UsedUp oldTraffic lateNow := by
  unfold maxWindowDays at hdays
  have hmax := quota.days.toInt_lt
  have hle : lateNow - quota.days.toInt * 86400000000000 ≤ lateNow :=
    Int.sub_le_self lateNow (by omega)
  have hbegins : unixMilli (lateNow - quota.days.toInt * 86400000000000) < 0 := by
    have hlate : lateNow - quota.days.toInt * 86400000000000 =
        (9223372500000000000 - quota.days.toInt * 86400000000000 : ℤ) := rfl
    have hzero : (0 : Int64).toInt = 0 := rfl
    rw [Int64.lt_iff_toInt_lt, hlate, toInt_unixMilli (by omega) (by omega), hzero]
    omega
  refine ⟨2 ^ 51, 0, ?_, quiet_deltaBetween hle, ?_⟩
  · rw [old_deltaBetween hle, if_pos ⟨hbegins, by decide⟩]
  · have hmega := quota.megabytes.toInt_lt
    have hbytes : ((2 ^ 51 : Int64).toInt + (0 : Int64).toInt) / 1048576 = 2 ^ 31 := by decide
    rw [hbytes]
    exact hmega

/-- For a user the configuration accepts, the check is right about every traffic and at every
time, without a panic, exactly if no quota has more days than a duration has room for. -/
theorem checkQuota_right_iff {user : User} (hvalid : validateServerConfigSingleUser user = .ok ()) :
    (∀ (traffic : Traffic) (metricGroups : String → Option MetricGroup) (clock : ℕ → Time),
        (∀ (i : ℕ) quota, user.quotas[i]? = some quota → traffic.Fits quota (clock i)) →
        metricGroups (userMetricGroup user.name) = some traffic.group →
        QuotaRight user traffic clock
          (checkQuota (some (buildPolicy user)) metricGroups user.name clock)) ↔
      ∀ quota ∈ user.quotas, quota.days.toInt ≤ maxWindowDays := by
  have hquotas := quotas_of_valid hvalid
  constructor
  · intro hright quota hquota
    by_contra hlong
    have hbad := Int.not_le.mp hlong
    obtain ⟨ok, hok, -⟩ := hright quietTraffic (fun _ => some quietTraffic.group)
      (fun _ => lateNow) (fun _ q _ => fits_quietTraffic q _) rfl
    have hwindow : ∀ quota ∈ user.quotas, quota.window.toInt ≤ 0 := by
      rw [checkQuota_eq rfl] at hok
      cases hquiet : checkQuotas quietTraffic.uploadBytes quietTraffic.downloadBytes
          (fun _ => lateNow) 0 user.quotas with
      | error fault =>
        rw [hquiet] at hok
        cases hok
      | ok _ => exact window_nonpos (fun q hq => (hquotas q hq).2) hquiet
    have hpass : checkQuotas oldTraffic.uploadBytes oldTraffic.downloadBytes (fun _ => lateNow) 0
        user.quotas = .ok true :=
      checkQuotas_of_none (fun q hq _ => old_not_exceeded (hquotas q hq).2 (hwindow q hq)) 0
    obtain ⟨ok, hok, hiff⟩ := hright oldTraffic (fun _ => some oldTraffic.group)
      (fun _ => lateNow) (fun _ q _ => fits_oldTraffic q _) rfl
    rw [checkQuota_eq rfl, hpass] at hok
    cases hok
    obtain ⟨i, hi, heq⟩ := List.mem_iff_getElem.mp hquota
    refine absurd (hiff.mpr ⟨i, quota, ?_, old_usedUp hbad⟩) (by simp)
    rw [List.getElem?_eq_getElem hi, heq]
  · intro hmax traffic metricGroups clock hfits hgroup
    obtain ⟨ok, hok, hiff⟩ := checkQuotas_right
      (fun q hq => ⟨(hquotas q hq).1, (hquotas q hq).2, hmax q hq⟩) 0
      fun i q hq => (Nat.zero_add i).symm ▸ hfits i q hq
    refine ⟨ok, ?_, ?_⟩
    · rw [checkQuota_eq hgroup, hok]
      rfl
    · simpa using hiff

def monthlyUser : User where
  name := "mieru"
  password := "secret"
  quotas := [⟨30, 10240⟩]

theorem monthly_quota_right :
    validateServerConfigSingleUser monthlyUser = .ok () ∧
      QuotaRight monthlyUser oldTraffic (fun _ => 0)
        (checkQuota (some (buildPolicy monthlyUser)) (fun _ => some oldTraffic.group)
          monthlyUser.name fun _ => 0) :=
  ⟨by decide, (checkQuota_right_iff (by decide)).mpr (by decide) _ _ _
    (fun _ q _ => fits_oldTraffic q _) rfl⟩

def longUser : User where
  name := "mieru"
  password := "secret"
  quotas := [⟨106752, 1⟩]

theorem long_quota_panics :
    validateServerConfigSingleUser longUser = .ok () ∧
      checkQuota (some (buildPolicy longUser)) (fun _ => some quietTraffic.group) longUser.name
        (fun _ => 0) = .error (.panicked "t2 must be later than t1") := by
  decide

end Mieru.ServerUser
