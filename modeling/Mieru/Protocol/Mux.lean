import Mathlib.Data.Int.Notation
import Mathlib.Data.List.Basic
import Mieru.Lib.Ledger
import Mieru.Lib.Machine

/-! # Choosing an underlay for a new session

`DialContext` on the client: an underlay that is there already or a new one, and the count of
pending sessions that keeps a chosen underlay from being taken for idle. The lock of the mux is
held while underlays are cleaned and one is picked, but not while the count goes up and down.
Every call on a scheduler is a step of its own. -/
namespace Mieru.Protocol

/-- Times are in nanoseconds, and the zero time is `none`. -/
structure ScheduleController where
  pending : ℤ := 0
  lastScheduleTime : Option ℤ := none
  disableTime : Option ℤ := none
  deriving DecidableEq

namespace ScheduleController

variable (c : ScheduleController) (now : ℤ)

def isDisabled : Bool :=
  match c.disableTime with
  | none => false
  | some t => 0 < now - t

def incPending : ScheduleController × Bool :=
  if c.isDisabled now then (c, false)
  else ({ c with pending := c.pending + 1, lastScheduleTime := some now }, true)

def decPending : ScheduleController :=
  { c with pending := c.pending - 1, lastScheduleTime := some now }

/-- A zero time is longer ago than any interval. -/
def idle (scheduleIdleTime : ℤ) : Bool :=
  match c.disableTime with
  | none => false
  | some t =>
    (match c.lastScheduleTime with
      | none => true
      | some last => scheduleIdleTime < now - last) &&
    decide (scheduleIdleTime < now - t)

def tryDisableIdle (scheduleIdleTime : ℤ) : ScheduleController × Bool :=
  if c.disableTime ≠ none then (c, false)
  else if 0 < c.pending then (c, false)
  else if c.lastScheduleTime.any fun last => now - last < scheduleIdleTime then (c, false)
  else ({ c with disableTime := some now }, true)

def setRemainingTime (d : ℤ) : ScheduleController :=
  if d < 0 ∨ c.disableTime ≠ none then c else { c with disableTime := some (now + d) }

end ScheduleController

namespace Mux

structure Config where
  multiplexFactor : ℕ
  scheduleIdleTime : ℤ
  /-- Half of it is what a packet underlay may be used for. -/
  keyRefreshInterval : ℤ

structure Underlay where
  scheduler : ScheduleController := {}
  sessionCount : ℕ := 0
  inBytes : ℕ := 0
  outBytes : ℕ := 0
  done : Bool := false
  deriving DecidableEq

inductive Transport where
  | stream
  | packet
  deriving DecidableEq

/-- Where a call of `DialContext` is. `again` tells the second underlay it makes from the first,
and `ok` is what `IncPending` returned. -/
inductive Dial where
  | start
  | locked
  | create (again : Bool)
  | register (u : ℕ) (again : Bool)
  | inc (u : ℕ) (again : Bool)
  | add (u : ℕ) (ok : Bool)
  | dec (u : ℕ) (ok : Bool)
  | returned
  deriving DecidableEq

inductive Stage where
  | visit
  | idle
  | count
  | disable
  | overload
  | volume
  deriving DecidableEq

inductive Work where
  | cleaning (rest kept : List ℕ) (stage : Stage)
  | picking (rest active : List ℕ)
  deriving DecidableEq

/-- The holder of the lock: a call of `DialContext`, or the maintenance task. -/
structure Critical where
  dial : Option ℕ
  work : Work
  deriving DecidableEq

structure State where
  now : ℤ
  made : List Underlay
  underlays : List ℕ
  critical : Option Critical
  dials : List Dial
  deriving DecidableEq

def State.initial (now : ℤ) : State := ⟨now, [], [], none, []⟩

inductive Event where
  | elapse (d : ℕ)
  | call
  | lock (dial : Option ℕ)
  | advance (random : ℕ)
  | made (dial : ℕ) (transport : Transport)
  | notMade (dial : ℕ)
  | register (dial : ℕ)
  | incPending (dial : ℕ)
  | addSession (dial : ℕ) (accepted : Bool)
  | decPending (dial : ℕ)
  | setRemainingTime (u : ℕ) (d : ℤ)
  | close (u : ℕ)
  | sessionEnds (u : ℕ)
  | traffic (u inBytes outBytes : ℕ)
  deriving DecidableEq

/-- A session that was added, and what `IncPending` had returned to the call that adds it. -/
structure Added where
  dial : ℕ
  underlay : ℕ
  ok : Bool
  deriving DecidableEq

def State.update (s : State) (u : ℕ) (f : Underlay → Underlay) : State :=
  { s with made := s.made.modify u f }

def State.schedule (s : State) (u : ℕ) (f : ScheduleController → ScheduleController) : State :=
  s.update u fun x => { x with scheduler := f x.scheduler }

def State.goto (s : State) (i : ℕ) (d : Dial) : State := { s with dials := s.dials.set i d }

def State.work (s : State) (holder : Option ℕ) (w : Work) : State :=
  { s with critical := some ⟨holder, w⟩ }

def trafficVolumeLimit (cfg : Config) : ℕ := (512 * 1024 * 1024) <<< cfg.multiplexFactor

/-- One call within the loop of `cleanUnderlay(true)`; the underlay `x` has number `u`. -/
def cleanStep (cfg : Config) (s : State) (holder : Option ℕ) (u : ℕ) (x : Underlay)
    (rest kept : List ℕ) : Stage → State
  | .visit =>
    if x.done then s.work holder (.cleaning rest kept .visit)
    else if x.sessionCount = 0 then s.work holder (.cleaning (u :: rest) kept .idle)
    else s.work holder (.cleaning (u :: rest) (kept ++ [u]) .count)
  | .idle =>
    if x.scheduler.idle s.now cfg.scheduleIdleTime then
      (s.update u fun x => { x with done := true }).work holder
        (.cleaning (u :: rest) kept .count)
    else s.work holder (.cleaning (u :: rest) (kept ++ [u]) .count)
  | .count =>
    s.work holder (.cleaning (u :: rest) kept (if x.sessionCount = 0 then .disable else .overload))
  | .disable =>
    (s.schedule u fun c => (c.tryDisableIdle s.now cfg.scheduleIdleTime).1).work holder
      (.cleaning (u :: rest) kept .overload)
  | .overload =>
    if x.scheduler.disableTime = none then s.work holder (.cleaning (u :: rest) kept .volume)
    else s.work holder (.cleaning rest kept .visit)
  | .volume =>
    let s := if trafficVolumeLimit cfg < x.inBytes ∨ trafficVolumeLimit cfg < x.outBytes then
      s.schedule u fun c => c.setRemainingTime s.now 0
    else s
    s.work holder (.cleaning rest kept .visit)

/-- The end of `maybePickExistingUnderlay`, as what the call does next. -/
def pick (cfg : Config) (active : List ℕ) (random : ℕ) : Option Dial :=
  let reuseUnderlayFactor := active.length * cfg.multiplexFactor
  if reuseUnderlayFactor < random then none
  else if 0 < cfg.multiplexFactor ∧ random < reuseUnderlayFactor then
    (active[random / cfg.multiplexFactor]?).map fun u => .inc u false
  else some (.create false)

def advance (cfg : Config) (s : State) (random : ℕ) : Option State :=
  match s.critical with
  | none => none
  | some ⟨holder, .cleaning (u :: rest) kept stage⟩ =>
    (s.made[u]?).map fun x => cleanStep cfg s holder u x rest kept stage
  | some ⟨holder, .cleaning [] kept _⟩ =>
    match holder with
    | none => some { s with underlays := kept, critical := none }
    | some i => some ({ s with underlays := kept }.work (some i) (.picking kept []))
  | some ⟨holder, .picking (u :: rest) active⟩ =>
    (s.made[u]?).map fun x =>
      if !x.done && !x.scheduler.isDisabled s.now then
        s.work holder (.picking rest (active ++ [u]))
      else s.work holder (.picking rest active)
  | some ⟨holder, .picking [] active⟩ =>
    holder.bind fun i =>
      if s.dials[i]? = some .locked then
        (pick cfg active random).map ({ s with critical := none }.goto i)
      else none

def newUnderlay (cfg : Config) (now : ℤ) : Transport → Underlay
  | .stream => {}
  | .packet =>
    { scheduler := ScheduleController.setRemainingTime {} now (cfg.keyRefreshInterval / 2) }

/-- `IncPending` of a call. After a second failure it goes on as if it had succeeded. -/
def incPending (s : State) (i u : ℕ) (again : Bool) (x : Underlay) : State :=
  let ok := (x.scheduler.incPending s.now).2
  (s.schedule u fun c => (c.incPending s.now).1).goto i
    (if ok then .add u true else if again then .add u false else .create true)

def step (cfg : Config) (s : State) : Event → Option (State × List Added)
  | .elapse d => some ({ s with now := s.now + d }, [])
  | .call => some ({ s with dials := s.dials ++ [.start] }, [])
  | .lock holder =>
    if s.critical ≠ none then none
    else
      match holder with
      | none => some (s.work none (.cleaning s.underlays [] .visit), [])
      | some i =>
        if s.dials[i]? = some .start then
          some ((s.goto i .locked).work (some i) (.cleaning s.underlays [] .visit), [])
        else none
  | .advance random => (advance cfg s random).map fun s' => (s', [])
  | .made i transport =>
    match s.dials[i]? with
    | some (.create again) =>
      some ({ s with made := s.made ++ [newUnderlay cfg s.now transport] }.goto i
        (.register s.made.length again), [])
    | _ => none
  | .notMade i =>
    match s.dials[i]? with
    | some (.create _) => some (s.goto i .returned, [])
    | _ => none
  | .register i =>
    match s.dials[i]? with
    | some (.register u again) =>
      if s.critical ≠ none then none
      else some ({ s with underlays := s.underlays ++ [u] }.goto i (.inc u again), [])
    | _ => none
  | .incPending i =>
    match s.dials[i]? with
    | some (.inc u again) => (s.made[u]?).map fun x => (incPending s i u again x, [])
    | _ => none
  | .addSession i accepted =>
    match s.dials[i]? with
    | some (.add u ok) =>
      if accepted then
        some
          ((s.update u fun x => { x with sessionCount := x.sessionCount + 1 }).goto i (.dec u ok),
            [⟨i, u, ok⟩])
      else some (s.goto i (.dec u ok), [])
    | _ => none
  | .decPending i =>
    match s.dials[i]? with
    | some (.dec u _) => some ((s.schedule u (·.decPending s.now)).goto i .returned, [])
    | _ => none
  | .setRemainingTime u d => some (s.schedule u (·.setRemainingTime s.now d), [])
  | .close u => some (s.update u fun x => { x with done := true }, [])
  | .sessionEnds u => some (s.update u fun x => { x with sessionCount := x.sessionCount - 1 }, [])
  | .traffic u i o =>
    some (s.update u fun x => { x with inBytes := x.inBytes + i, outBytes := x.outBytes + o }, [])

/-! ## Tickets -/

/-- The underlay whose pending count a call has raised and not lowered again. -/
def Dial.ticket : Dial → Option ℕ
  | .add u true => some u
  | .dec u true => some u
  | _ => none

def Dial.granted : Dial → Bool
  | .add _ ok => ok
  | .dec _ ok => ok
  | _ => true

def State.ledger (s : State) : Ledger :=
  ⟨s.made.map (·.scheduler.pending), s.dials.map Dial.ticket⟩

structure Accounted (s : State) : Prop where
  balanced : s.ledger.Balanced
  granted : ∀ d ∈ s.dials, d.granted = true

variable {s s' : State} {i u : ℕ} {d old : Dial}

theorem ticket_at (h : s.dials[i]? = some old) : s.ledger.tickets[i]? = some old.ticket := by
  simp [State.ledger, h]

theorem pending_modify {l : List Underlay} {f : Underlay → Underlay} {g : ℤ → ℤ}
    (hf : ∀ x, l[u]? = some x → (f x).scheduler.pending = g x.scheduler.pending) :
    (l.modify u f).map (·.scheduler.pending) = (l.map (·.scheduler.pending)).modify u g := by
  apply List.ext_getElem?
  intro j
  simp only [List.getElem?_map, List.getElem?_modify]
  cases hx : l[j]? with
  | none => rfl
  | some x =>
    by_cases hj : u = j
    · subst hj
      simp [hf x hx]
    · simp [hj]

theorem pending_modify_same {l : List Underlay} {f : Underlay → Underlay}
    (hf : ∀ x, l[u]? = some x → (f x).scheduler.pending = x.scheduler.pending) :
    (l.modify u f).map (·.scheduler.pending) = l.map (·.scheduler.pending) := by
  rw [pending_modify (g := id) hf]
  apply List.ext_getElem?
  intro j
  simp

theorem Accounted.same (h : Accounted s)
    (hmade : s'.made.map (·.scheduler.pending) = s.made.map (·.scheduler.pending))
    (hdials : s'.dials = s.dials) : Accounted s' := by
  refine ⟨?_, hdials ▸ h.granted⟩
  unfold State.ledger
  rw [hmade, hdials]
  exact h.balanced

theorem granted_goto (h : ∀ x ∈ s.dials, x.granted = true) (hgranted : d.granted = true) :
    ∀ x ∈ (s.goto i d).dials, x.granted = true := by
  intro x hx
  rcases List.mem_or_eq_of_mem_set hx with hx | rfl
  · exact h x hx
  · exact hgranted

theorem ledger_schedule {f : ScheduleController → ScheduleController} {g : ℤ → ℤ}
    (hf : ∀ x, s.made[u]? = some x → (f x.scheduler).pending = g x.scheduler.pending) :
    (s.schedule u f).ledger = ⟨s.ledger.counts.modify u g, s.ledger.tickets⟩ :=
  congrArg (fun counts => (⟨counts, s.ledger.tickets⟩ : Ledger)) (pending_modify hf)

theorem ledger_goto : (s.goto i d).ledger = ⟨s.ledger.counts, s.ledger.tickets.set i d.ticket⟩ := by
  simp [State.ledger, State.goto, List.map_set]

theorem Accounted.goto (h : Accounted s) (hold : s.dials[i]? = some old)
    (hticket : d.ticket = old.ticket) (hgranted : d.granted = true) : Accounted (s.goto i d) := by
  have hsame : s.ledger.tickets.set i d.ticket = s.ledger.tickets := by
    obtain ⟨hi, hat⟩ := List.getElem?_eq_some_iff.mp (ticket_at hold)
    rw [hticket, ← hat]
    exact List.set_getElem_self hi
  refine ⟨?_, granted_goto h.granted hgranted⟩
  rw [ledger_goto, hsame]
  exact h.balanced

theorem cleanStep_accounted {cfg : Config} {holder : Option ℕ} {x : Underlay} {rest kept : List ℕ}
    {stage : Stage} (h : Accounted s) :
    Accounted (cleanStep cfg s holder u x rest kept stage) := by
  have hdisable : ∀ c : ScheduleController,
      (c.tryDisableIdle s.now cfg.scheduleIdleTime).1.pending = c.pending := by
    intro c
    unfold ScheduleController.tryDisableIdle
    split_ifs <;> rfl
  have hremaining : ∀ c : ScheduleController, (c.setRemainingTime s.now 0).pending = c.pending := by
    intro c
    unfold ScheduleController.setRemainingTime
    split_ifs <;> rfl
  cases stage with
  | visit =>
    simp only [cleanStep]
    split_ifs <;> exact h.same rfl rfl
  | idle =>
    simp only [cleanStep]
    split_ifs
    · exact h.same (pending_modify_same fun x _ => rfl) rfl
    · exact h.same rfl rfl
  | count => exact h.same rfl rfl
  | disable => exact h.same (pending_modify_same fun x _ => hdisable x.scheduler) rfl
  | overload =>
    simp only [cleanStep]
    split_ifs <;> exact h.same rfl rfl
  | volume =>
    simp only [cleanStep]
    split_ifs
    · exact h.same (pending_modify_same fun x _ => hremaining x.scheduler) rfl
    · exact h.same rfl rfl

theorem ticket_of_pick {cfg : Config} {active : List ℕ} {random : ℕ}
    (h : pick cfg active random = some d) : d.ticket = none ∧ d.granted = true := by
  unfold pick at h
  dsimp only at h
  split_ifs at h
  · obtain ⟨u, -, rfl⟩ := Option.map_eq_some_iff.mp h
    exact ⟨rfl, rfl⟩
  · cases h
    exact ⟨rfl, rfl⟩

theorem advance_accounted {cfg : Config} {random : ℕ} (h : Accounted s)
    (hstep : advance cfg s random = some s') : Accounted s' := by
  unfold advance at hstep
  split at hstep
  · cases hstep
  · obtain ⟨x, -, rfl⟩ := Option.map_eq_some_iff.mp hstep
    exact cleanStep_accounted h
  · split at hstep <;> cases hstep
    · exact h.same rfl rfl
    · exact h.same rfl rfl
  · obtain ⟨x, -, rfl⟩ := Option.map_eq_some_iff.mp hstep
    split_ifs <;> exact h.same rfl rfl
  · obtain ⟨i, -, hpick⟩ := Option.bind_eq_some_iff.mp hstep
    split_ifs at hpick with hlocked
    obtain ⟨d, hd, rfl⟩ := Option.map_eq_some_iff.mp hpick
    obtain ⟨hticket, hgranted⟩ := ticket_of_pick hd
    have hfree : Accounted { s with critical := none } := h.same rfl rfl
    exact hfree.goto hlocked hticket hgranted

/-- The second underlay a call makes is not disabled when its count is raised. -/
def grantsAgain (s : State) : Event → Bool
  | .incPending i =>
    match s.dials[i]? with
    | some (.inc u true) => (s.made[u]?).all fun x => !x.scheduler.isDisabled s.now
    | _ => true
  | _ => true

theorem incPending_accounted {again : Bool} {x : Underlay} (h : Accounted s)
    (hdial : s.dials[i]? = some (.inc u again)) (hx : s.made[u]? = some x)
    (hguard : grantsAgain s (.incPending i) = true) : Accounted (incPending s i u again x) := by
  obtain ⟨hu, -⟩ := List.getElem?_eq_some_iff.mp hx
  by_cases hdisabled : x.scheduler.isDisabled s.now = true
  · cases again with
    | true => simp [grantsAgain, hdial, hx, hdisabled] at hguard
    | false =>
      have hsame : Accounted (s.schedule u fun c => (c.incPending s.now).1) := by
        refine h.same (pending_modify_same ?_) rfl
        intro y hy
        rw [hx] at hy
        cases hy
        simp [ScheduleController.incPending, hdisabled]
      have hnext := hsame.goto (d := .create true) hdial rfl rfl
      simpa [incPending, ScheduleController.incPending, hdisabled] using hnext
  · have hplus : (s.schedule u fun c => (c.incPending s.now).1).ledger =
        ⟨s.ledger.counts.modify u (· + 1), s.ledger.tickets⟩ := by
      apply ledger_schedule
      intro y hy
      rw [hx] at hy
      cases hy
      simp [ScheduleController.incPending, hdisabled]
    have hok : incPending s i u again x =
        (s.schedule u fun c => (c.incPending s.now).1).goto i (.add u true) := by
      simp [incPending, ScheduleController.incPending, hdisabled]
    rw [hok]
    refine ⟨?_, granted_goto h.granted rfl⟩
    rw [ledger_goto, hplus]
    exact h.balanced.take (ticket_at hdial) (by simpa [State.ledger] using hu)

theorem decPending_accounted {ok : Bool} (h : Accounted s)
    (hdial : s.dials[i]? = some (.dec u ok)) :
    Accounted ((s.schedule u (·.decPending s.now)).goto i .returned) := by
  obtain rfl : ok = true := h.granted _ (List.mem_of_getElem? hdial)
  refine ⟨?_, granted_goto h.granted rfl⟩
  rw [ledger_goto, ledger_schedule (g := (· - 1)) fun x _ => rfl]
  exact h.balanced.give (ticket_at hdial)

theorem newUnderlay_pending (cfg : Config) (now : ℤ) (transport : Transport) :
    (newUnderlay cfg now transport).scheduler.pending = 0 := by
  cases transport with
  | stream => rfl
  | packet =>
    simp only [newUnderlay, ScheduleController.setRemainingTime]
    split_ifs <;> rfl

theorem made_accounted {again : Bool} {cfg : Config} {transport : Transport} (h : Accounted s)
    (hdial : s.dials[i]? = some (.create again)) :
    Accounted ({ s with made := s.made ++ [newUnderlay cfg s.now transport] }.goto i
      (.register s.made.length again)) := by
  have hmore : Accounted { s with made := s.made ++ [newUnderlay cfg s.now transport] } := by
    refine ⟨?_, h.granted⟩
    unfold State.ledger
    rw [List.map_append, List.map_singleton, newUnderlay_pending]
    exact h.balanced.resource
  exact hmore.goto hdial rfl rfl

variable {cfg : Config} {e : Event} {out : List Added}

theorem step_accounted (h : Accounted s) (hguard : grantsAgain s e = true)
    (hstep : step cfg s e = some (s', out)) : Accounted s' ∧ ∀ a ∈ out, a.ok = true := by
  cases e with
  | elapse d =>
    cases hstep
    exact ⟨h.same rfl rfl, by simp⟩
  | call =>
    cases hstep
    refine ⟨⟨?_, ?_⟩, by simp⟩
    · unfold State.ledger
      rw [List.map_append]
      exact h.balanced.user
    · intro d hd
      rcases List.mem_append.mp hd with hd | hd
      · exact h.granted d hd
      · rw [List.mem_singleton.mp hd]
        rfl
  | lock holder =>
    simp only [step] at hstep
    split_ifs at hstep
    split at hstep
    · cases hstep
      exact ⟨h.same rfl rfl, by simp⟩
    · split_ifs at hstep with hdial
      cases hstep
      exact ⟨(h.goto hdial (d := .locked) rfl rfl).same rfl rfl, by simp⟩
  | advance random =>
    obtain ⟨t, ht, heq⟩ := Option.map_eq_some_iff.mp hstep
    cases heq
    exact ⟨advance_accounted h ht, by simp⟩
  | made i transport =>
    simp only [step] at hstep
    split at hstep
    · rename_i again hdial
      cases hstep
      exact ⟨made_accounted h hdial, by simp⟩
    · cases hstep
  | notMade i =>
    simp only [step] at hstep
    split at hstep
    · rename_i again hdial
      cases hstep
      exact ⟨h.goto hdial rfl rfl, by simp⟩
    · cases hstep
  | register i =>
    simp only [step] at hstep
    split at hstep
    · rename_i u again hdial
      split_ifs at hstep
      cases hstep
      have hmore : Accounted { s with underlays := s.underlays ++ [u] } := h.same rfl rfl
      exact ⟨hmore.goto hdial rfl rfl, by simp⟩
    · cases hstep
  | incPending i =>
    simp only [step] at hstep
    split at hstep
    · rename_i u again hdial
      obtain ⟨x, hx, heq⟩ := Option.map_eq_some_iff.mp hstep
      cases heq
      exact ⟨incPending_accounted h hdial hx hguard, by simp⟩
    · cases hstep
  | addSession i accepted =>
    simp only [step] at hstep
    split at hstep
    · rename_i u ok hdial
      obtain rfl : ok = true := h.granted _ (List.mem_of_getElem? hdial)
      split_ifs at hstep
      · cases hstep
        have hmore :
            Accounted (s.update u fun x => { x with sessionCount := x.sessionCount + 1 }) :=
          h.same (pending_modify_same fun x _ => rfl) rfl
        exact ⟨hmore.goto hdial rfl rfl, by simp⟩
      · cases hstep
        exact ⟨h.goto hdial rfl rfl, by simp⟩
    · cases hstep
  | decPending i =>
    simp only [step] at hstep
    split at hstep
    · rename_i u ok hdial
      cases hstep
      exact ⟨decPending_accounted h hdial, by simp⟩
    · cases hstep
  | setRemainingTime u d =>
    cases hstep
    refine ⟨h.same (pending_modify_same ?_) rfl, by simp⟩
    intro x _
    simp only [ScheduleController.setRemainingTime]
    split_ifs <;> rfl
  | close u =>
    cases hstep
    exact ⟨h.same (pending_modify_same fun x _ => rfl) rfl, by simp⟩
  | sessionEnds u =>
    cases hstep
    exact ⟨h.same (pending_modify_same fun x _ => rfl) rfl, by simp⟩
  | traffic u i o =>
    cases hstep
    exact ⟨h.same (pending_modify_same fun x _ => rfl) rfl, by simp⟩

/-- Calls that have raised the pending count of an underlay and not lowered it again. -/
def State.holders (s : State) (u : ℕ) : ℕ := s.dials.countP fun d => d.ticket = some u

/-- The pending counts are right, and a session is only added after `IncPending` returned true,
as long as no call gets `false` for the second underlay it makes. -/
theorem pending_eq_holders {now : ℤ} {es : List Event} {outs : List Added}
    (h : Machine.Reaches (step cfg) (fun s e => grantsAgain s e = true) (.initial now) es outs s) :
    (∀ u x, s.made[u]? = some x → x.scheduler.pending = (s.holders u : ℤ)) ∧
      ∀ a ∈ outs, a.ok = true := by
  have hinit : Accounted (.initial now) := ⟨Ledger.balanced_empty, by simp [State.initial]⟩
  have hrun : Accounted s ∧ ∀ a ∈ outs, a.ok = true := by
    refine h.invariant (I := fun s outs => Accounted s ∧ ∀ a ∈ outs, a.ok = true)
      ⟨hinit, by simp⟩ ?_
    intro s outs e s' out ⟨hacc, houts⟩ hguard hstep
    obtain ⟨hacc', hout⟩ := step_accounted hacc hguard hstep
    refine ⟨hacc', ?_⟩
    intro a ha
    rcases List.mem_append.mp ha with ha | ha
    · exact houts a ha
    · exact hout a ha
  obtain ⟨hacc, houts⟩ := hrun
  refine ⟨?_, houts⟩
  intro u x hx
  have hcount := hacc.balanced.count_eq u x.scheduler.pending (by simp [State.ledger, hx])
  rw [hcount]
  simp only [State.ledger, State.holders, List.count, List.countP_map]
  congr 2
  funext d
  simp [Function.comp, beq_eq_decide]

def soloConfig : Config := ⟨0, 120, 120⟩

/-- The maintenance task finds a new underlay without sessions and without a pending count, and
disables it. The call makes a second one. -/
def disabledRun : List Event :=
  [.call, .lock (some 0), .advance 0, .advance 0, .made 0 .stream, .register 0, .lock none] ++
    List.replicate 6 (.advance 0) ++ [.elapse 1, .incPending 0, .made 0 .stream, .register 0]

def retriedRun : List Event :=
  disabledRun ++ [.incPending 0, .elapse 5, .addSession 0 true, .decPending 0]

theorem retried_accounted :
    ∃ s, Machine.Reaches (step soloConfig) (fun s e => grantsAgain s e = true) (.initial 0)
        retriedRun [⟨0, 1, true⟩] s ∧
      (∀ u x, s.made[u]? = some x → x.scheduler.pending = (s.holders u : ℤ)) ∧
        ∀ a ∈ [(⟨0, 1, true⟩ : Added)], a.ok = true := by
  have hrun : Machine.run (Machine.guarded grantsAgain (step soloConfig)) (.initial 0) retriedRun =
      some (_, [⟨0, 1, true⟩]) := rfl
  exact ⟨_, Machine.reaches_of_guarded_run hrun,
    pending_eq_holders (Machine.reaches_of_guarded_run hrun)⟩

def disabledTwiceRun : List Event :=
  disabledRun ++ [.lock none] ++ List.replicate 10 (.advance 0) ++
    [.elapse 1, .incPending 0, .addSession 0 true, .decPending 0]

theorem disabled_twice_unbalanced :
    ∃ s, Machine.Reaches (step soloConfig) Machine.Free (.initial 0) disabledTwiceRun
        [⟨0, 1, false⟩] s ∧
      (s.made[1]?.map fun x => x.scheduler.pending) = some (-1) ∧ s.holders 1 = 0 := by
  have hrun : Machine.run (step soloConfig) (.initial 0) disabledTwiceRun =
      some (_, [⟨0, 1, false⟩]) := rfl
  exact ⟨_, Machine.reaches_of_run hrun, rfl, rfl⟩

end Mux

end Mieru.Protocol
