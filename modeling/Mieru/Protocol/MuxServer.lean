import Mathlib.Data.Finset.Card
import Mieru.Lib.Machine
import Mieru.ServerUser.CacheStats

/-! # Closing a server mux

`Close` ends the maintenance task, waits for the event loops of all underlays and then publishes
the counters that the event loops have updated. Underlays are accepted all the while, the
maintenance task runs, and `Close` may be called by several goroutines. The lock is held while an
underlay is registered, while underlays are cleaned and while `Close` closes them. -/
namespace Mieru.Protocol.MuxServer

open Function
open ServerUser (CacheCounter increments increments_append)

/-- Where the goroutine is that an underlay belongs to: the accept loop, and once it has been
registered its event loop. -/
inductive Loop where
  | absent
  | accepted
  /-- It came after `done`, and is closed without being registered. -/
  | rejected
  | dropped
  | running
  /-- `RunEventLoop` has returned. -/
  | ending
  /-- The underlay has been closed. -/
  | leaving
  | ended
  deriving DecidableEq

def Loop.active : Loop → Bool
  | running | ending | leaving => true
  | _ => false

def Loop.left : Loop → Bool
  | leaving | ended => true
  | _ => false

inductive Closing where
  | idle
  | closing (rest : List ℕ)
  | waitMaintenance
  | waitLoops
  | flush
  | publish
  /-- Another call was first. -/
  | waitDone
  | returned
  deriving DecidableEq

inductive Maintenance where
  | waiting
  | flushing
  | exited
  deriving DecidableEq

structure State where
  loop : ℕ → Loop
  closed : ℕ → Bool
  underlays : List ℕ
  done : Bool
  holder : Option ℕ
  closer : ℕ → Closing
  closeDone : Bool
  maintenance : Maintenance
  wg : ℕ
  /-- What the event loops have counted, and how much of it the metrics show. -/
  total : ℕ
  published : ℕ

/-- `idle` are the underlays that are found idle when underlays are cleaned. -/
inductive Event where
  | accept (u : ℕ)
  | register (u : ℕ) (idle : List ℕ)
  | count (u : ℕ)
  | advance (u : ℕ)
  | tick (idle : List ℕ)
  | flush
  | exit
  | close (i : ℕ)

def start : State where
  loop _ := .absent
  closed _ := false
  underlays := []
  done := false
  holder := none
  closer _ := .idle
  closeDone := false
  maintenance := .waiting
  wg := 0
  total := 0
  published := 0

namespace State

/-- `cleanUnderlay`: closed underlays are forgotten, idle ones are closed and forgotten. -/
def cleanUnderlay (s : State) (idle : List ℕ) : State :=
  { s with
    closed u := s.closed u || decide (u ∈ s.underlays ∧ u ∈ idle)
    underlays := s.underlays.filter fun u => !s.closed u && decide (u ∉ idle) }

def goto (s : State) (u : ℕ) (pc : Loop) : State := { s with loop := update s.loop u pc }

def closeUnderlay (s : State) (u : ℕ) : State := { s with closed := update s.closed u true }

def proceed (s : State) (i : ℕ) (pc : Closing) : State := { s with closer := update s.closer i pc }

def advance (s : State) (u : ℕ) : Option State :=
  match s.loop u with
  | .rejected => some ((s.closeUnderlay u).goto u .dropped)
  | .running => some (s.goto u .ending)
  | .ending => some ((s.closeUnderlay u).goto u .leaving)
  | .leaving => some { s.goto u .ended with wg := s.wg - 1 }
  | _ => none

def close (s : State) (i : ℕ) : Option State :=
  match s.closer i with
  | .idle =>
    if s.holder ≠ none then none
    else if s.done then some (s.proceed i .waitDone)
    else some ({ s with done := true, holder := some i }.proceed i (.closing s.underlays))
  | .closing (u :: rest) => some ((s.closeUnderlay u).proceed i (.closing rest))
  | .closing [] => some ({ s with underlays := [], holder := none }.proceed i .waitMaintenance)
  | .waitMaintenance => if s.maintenance = .exited then some (s.proceed i .waitLoops) else none
  | .waitLoops => if s.wg = 0 then some (s.proceed i .flush) else none
  | .flush => some ({ s with published := s.total }.proceed i .publish)
  | .publish => some ({ s with closeDone := true }.proceed i .returned)
  | .waitDone => if s.closeDone then some (s.proceed i .returned) else none
  | .returned => none

def register (s : State) (u : ℕ) (idle : List ℕ) : State :=
  if s.done then s.goto u .rejected
  else { ({ s with underlays := s.underlays ++ [u] }.cleanUnderlay idle).goto u .running with
    wg := s.wg + 1 }

def next (s : State) : Event → Option State
  | .accept u => if s.loop u = .absent then some (s.goto u .accepted) else none
  | .register u idle =>
    if s.loop u = .accepted ∧ s.holder = none then some (s.register u idle) else none
  | .count u => if s.loop u = .running then some { s with total := s.total + 1 } else none
  | .advance u => s.advance u
  | .tick idle =>
    if s.maintenance = .waiting ∧ s.holder = none then
      some { s.cleanUnderlay idle with maintenance := .flushing }
    else none
  | .flush =>
    if s.maintenance = .flushing then
      some { s with published := s.total, maintenance := .waiting }
    else none
  | .exit =>
    if s.maintenance = .waiting ∧ s.done then some { s with maintenance := .exited } else none
  | .close i => s.close i

end State

def step (s : State) (e : Event) : Option (State × List Empty) := (s.next e).map fun s => (s, [])

/-! ## What holds at all times -/

namespace State

def Drained (s : State) : Prop := ∀ u, (s.loop u).active = true → s.closed u = true

def Final (s : State) : Prop :=
  s.done = true ∧ s.maintenance = .exited ∧ s.wg = 0 ∧ s.published = s.total

def Facts (s : State) (i : ℕ) : Closing → Prop
  | .idle => True
  | .closing rest => s.done = true ∧ s.holder = some i ∧
      ∀ u ∈ s.underlays, u ∈ rest ∨ s.closed u = true
  | .waitMaintenance => s.done = true ∧ s.Drained
  | .waitLoops => s.done = true ∧ s.Drained ∧ s.maintenance = .exited
  | .flush => s.done = true ∧ s.maintenance = .exited ∧ s.wg = 0
  | .waitDone => s.done = true
  | .publish | .returned => s.Final

def Counted (loop : ℕ → Loop) (n : ℕ) : Prop :=
  ∃ A : Finset ℕ, (∀ u, u ∈ A ↔ (loop u).active = true) ∧ A.card = n

structure Invariant (s : State) : Prop where
  counted : Counted s.loop s.wg
  listed : ∀ u, (s.loop u).active = true → u ∈ s.underlays ∨ s.closed u = true
  left : ∀ u, (s.loop u).left = true → s.closed u = true
  facts : ∀ i, s.Facts i (s.closer i)
  final : s.closeDone = true → s.Final

/-- What one step leaves to the calls of `Close` that do not take it. -/
structure Keeps (s t : State) : Prop where
  done : s.done = true → t.done = true
  exited : s.maintenance = .exited → t.maintenance = .exited
  drained : s.done = true → s.Drained → t.Drained
  joined : s.done = true → s.wg = 0 → t.wg = 0
  flushed : s.Final → t.published = t.total
  closed : ∀ u, s.closed u = true → t.closed u = true

variable {s t : State} {i : ℕ}

theorem Keeps.final (h : Keeps s t) (hs : s.Final) : t.Final :=
  ⟨h.done hs.1, h.exited hs.2.1, h.joined hs.1 hs.2.2.1, h.flushed hs⟩

theorem Keeps.facts (h : Keeps s t) {pc : Closing}
    (hlist : ∀ rest, pc = .closing rest → t.holder = s.holder ∧ t.underlays = s.underlays)
    (hs : s.Facts i pc) : t.Facts i pc := by
  cases pc with
  | idle => trivial
  | closing rest =>
    obtain ⟨hholder, hsame⟩ := hlist rest rfl
    refine ⟨h.done hs.1, hholder ▸ hs.2.1, fun u hu => ?_⟩
    rw [hsame] at hu
    exact (hs.2.2 u hu).imp id (h.closed u)
  | waitMaintenance => exact ⟨h.done hs.1, h.drained hs.1 hs.2⟩
  | waitLoops => exact ⟨h.done hs.1, h.drained hs.1 hs.2.1, h.exited hs.2.2⟩
  | flush => exact ⟨h.done hs.1, h.exited hs.2.1, h.joined hs.1 hs.2.2⟩
  | waitDone => exact h.done hs
  | publish | returned => exact h.final hs

section Counting

variable {loop : ℕ → Loop} {n u : ℕ} {pc : Loop}

theorem counted_update {A : Finset ℕ} (hu : u ∈ A ↔ pc.active = true)
    (hA : ∀ v, v ≠ u → (v ∈ A ↔ (loop v).active = true)) : Counted (update loop u pc) A.card :=
  ⟨A, (forall_update_iff loop (p := fun v l => v ∈ A ↔ l.active = true)).mpr ⟨hu, hA⟩, rfl⟩

theorem Counted.same (h : Counted loop n) (hpc : pc.active = (loop u).active) :
    Counted (update loop u pc) n := by
  obtain ⟨A, hA, rfl⟩ := h
  exact counted_update (hpc ▸ hA u) fun v _ => hA v

theorem Counted.enter (h : Counted loop n) (hu : (loop u).active = false) (hpc : pc.active = true) :
    Counted (update loop u pc) (n + 1) := by
  obtain ⟨A, hA, rfl⟩ := h
  have hnot : u ∉ A := by
    rw [hA, hu]
    exact Bool.false_ne_true
  rw [← Finset.card_insert_of_notMem hnot]
  refine counted_update (iff_of_true (Finset.mem_insert_self ..) hpc) fun v hv => ?_
  rw [Finset.mem_insert, hA, or_iff_right hv]

theorem Counted.leave (h : Counted loop n) (hu : (loop u).active = true) (hpc : pc.active = false) :
    Counted (update loop u pc) (n - 1) := by
  obtain ⟨A, hA, rfl⟩ := h
  rw [← Finset.card_erase_of_mem ((hA u).mpr hu)]
  refine counted_update (iff_of_false (Finset.notMem_erase u A) ?_) fun v hv => ?_
  · rw [hpc]
    exact Bool.false_ne_true
  · rw [Finset.mem_erase, hA, and_iff_right hv]

theorem Counted.eq_zero (h : Counted loop 0) : (loop u).active = false := by
  obtain ⟨A, hA, hcard⟩ := h
  rw [Finset.card_eq_zero] at hcard
  rw [← Bool.not_eq_true, ← hA, hcard]
  exact Finset.notMem_empty u

end Counting

theorem Invariant.elsewhere (h : s.Invariant) (hk : Keeps s t) (hcloser : t.closer = s.closer)
    (hclose : t.closeDone = s.closeDone)
    (hlist : s.holder ≠ none → t.holder = s.holder ∧ t.underlays = s.underlays)
    (hcounted : Counted t.loop t.wg)
    (hlisted : ∀ u, (t.loop u).active = true → u ∈ t.underlays ∨ t.closed u = true)
    (hleft : ∀ u, (t.loop u).left = true → t.closed u = true) : t.Invariant := by
  refine ⟨hcounted, hlisted, hleft, fun i => ?_, fun hd => hk.final (h.final (hclose ▸ hd))⟩
  have hfacts := h.facts i
  rw [hcloser]
  refine hk.facts (fun rest hrest => hlist ?_) hfacts
  rw [hrest] at hfacts
  rw [hfacts.2.1]
  exact Option.some_ne_none i

theorem Invariant.closer (h : s.Invariant) (hk : Keeps s t) {pc : Closing}
    (hcloser : t.closer = update s.closer i pc) (hloop : t.loop = s.loop) (hwg : t.wg = s.wg)
    (hlist : ∀ j rest, j ≠ i → s.closer j = .closing rest →
      t.holder = s.holder ∧ t.underlays = s.underlays)
    (hlisted : ∀ u, (s.loop u).active = true → u ∈ t.underlays ∨ t.closed u = true)
    (hfacts : t.Facts i pc) (hclose : t.closeDone = true → s.closeDone = true ∨ t.Final) :
    t.Invariant := by
  refine ⟨hloop ▸ hwg ▸ h.counted, hloop ▸ hlisted, fun u hu => ?_, fun j => ?_, fun hd => ?_⟩
  · exact hk.closed u (h.left u (hloop ▸ hu))
  · rw [hcloser]
    revert j
    exact (forall_update_iff s.closer (p := t.Facts)).mpr
      ⟨hfacts, fun j hj => hk.facts (fun rest => hlist j rest hj) (h.facts j)⟩
  · exact (hclose hd).elim (fun hs => hk.final (h.final hs)) id

theorem Keeps.of_same (hdone : t.done = s.done) (hmaintenance : t.maintenance = s.maintenance)
    (hwg : s.wg = 0 → t.wg = 0) (hcounters : t.total = s.total ∧ t.published = s.published)
    (hactive : ∀ u, (t.loop u).active = true → (s.loop u).active = true)
    (hclosed : ∀ u, s.closed u = true → t.closed u = true) : Keeps s t where
  done h := hdone.trans h
  exited h := hmaintenance.trans h
  drained _ h u hu := hclosed u (h u (hactive u hu))
  joined _ := hwg
  flushed h := by rw [hcounters.1, hcounters.2, h.2.2.2]
  closed := hclosed

theorem Invariant.left_update (h : s.Invariant) {u : ℕ} {pc : Loop}
    (hpc : pc.left = true → s.closed u = true) (v : ℕ) :
    (update s.loop u pc v).left = true → s.closed v = true := by
  revert v
  exact (forall_update_iff s.loop (p := fun v l => l.left = true → s.closed v = true)).mpr
    ⟨hpc, fun v _ => h.left v⟩

theorem closed_update {u v : ℕ} (h : s.closed v = true) : update s.closed u true v = true := by
  by_cases hv : v = u
  · rw [hv, update_self]
  · rwa [update_of_ne hv]

theorem goto_invariant (h : s.Invariant) {u n : ℕ} {pc : Loop}
    (hpc : pc.active = true → (s.loop u).active = true)
    (hleft : pc.left = true → s.closed u = true)
    (hcounted : Counted (update s.loop u pc) n) (hwg : s.wg = 0 → n = 0) :
    Invariant { s.goto u pc with wg := n } := by
  have hactive : ∀ v, (update s.loop u pc v).active = true → (s.loop v).active = true :=
    (forall_update_iff s.loop (p := fun v l => l.active = true → (s.loop v).active = true)).mpr
      ⟨hpc, fun _ _ => id⟩
  exact h.elsewhere (.of_same rfl rfl hwg ⟨rfl, rfl⟩ hactive fun _ => id) rfl rfl
    (fun _ => ⟨rfl, rfl⟩) hcounted (fun v hv => h.listed v (hactive v hv))
    (h.left_update hleft)

theorem closeUnderlay_invariant (h : s.Invariant) (u : ℕ) : (s.closeUnderlay u).Invariant :=
  h.elsewhere (.of_same rfl rfl id ⟨rfl, rfl⟩ (fun _ => id) fun _ => closed_update) rfl rfl
    (fun _ => ⟨rfl, rfl⟩) h.counted (fun v hv => (h.listed v hv).imp id closed_update)
    fun v hv => closed_update (h.left v hv)

theorem advance_invariant (h : s.Invariant) {u : ℕ} (hs : s.advance u = some t) : t.Invariant := by
  have hclosed := closeUnderlay_invariant h u
  have hself : (s.closeUnderlay u).closed u = true := update_self ..
  unfold advance at hs
  split at hs
  · rename_i hu
    cases hs
    exact goto_invariant hclosed (fun hpc => by cases hpc) (fun _ => hself)
      (hclosed.counted.same (hu ▸ rfl)) id
  · rename_i hu
    cases hs
    exact goto_invariant h (fun _ => hu ▸ rfl) (fun hpc => by cases hpc)
      (h.counted.same (hu ▸ rfl)) id
  · rename_i hu
    cases hs
    exact goto_invariant hclosed (fun _ => hu ▸ rfl) (fun _ => hself)
      (hclosed.counted.same (hu ▸ rfl)) id
  · rename_i hu
    cases hs
    exact goto_invariant h (fun hpc => by cases hpc) (fun _ => h.left u (hu ▸ rfl))
      (h.counted.leave (hu ▸ rfl) rfl) fun hwg => by rw [hwg]
  · cases hs

theorem cleanUnderlay_invariant (h : s.Invariant) (hholder : s.holder = none) (idle : List ℕ) :
    (s.cleanUnderlay idle).Invariant := by
  have hclosed (u : ℕ) (hu : s.closed u = true) : (s.cleanUnderlay idle).closed u = true := by
    simp only [cleanUnderlay, hu, Bool.true_or]
  refine h.elsewhere (.of_same rfl rfl id ⟨rfl, rfl⟩ (fun _ => id) hclosed) rfl rfl
    (fun hne => absurd hholder hne) h.counted (fun u hu => ?_) fun u hu => hclosed u (h.left u hu)
  simp only [cleanUnderlay, List.mem_filter, Bool.and_eq_true, Bool.not_eq_true',
    decide_eq_true_eq, Bool.or_eq_true]
  rcases h.listed u hu with hmem | hu
  · by_cases hidle : u ∈ idle
    · exact .inr (.inr ⟨hmem, hidle⟩)
    · cases hc : s.closed u with
      | false => exact .inl ⟨hmem, rfl, hidle⟩
      | true => exact .inr (.inl rfl)
  · exact .inr (.inl hu)

theorem Keeps.of_open (hdone : ¬s.done = true) (hmaintenance : t.maintenance = s.maintenance)
    (hclosed : ∀ u, s.closed u = true → t.closed u = true) : Keeps s t where
  done h := absurd h hdone
  exited h := hmaintenance.trans h
  drained h := absurd h hdone
  joined h := absurd h hdone
  flushed h := absurd h.1 hdone
  closed := hclosed

theorem register_invariant (h : s.Invariant) {u : ℕ} (hu : s.loop u = .accepted)
    (hholder : s.holder = none) (idle : List ℕ) : (s.register u idle).Invariant := by
  unfold register
  by_cases hdone : s.done = true
  · rw [if_pos hdone]
    exact goto_invariant h (fun hpc => by cases hpc) (fun hpc => by cases hpc)
      (h.counted.same (hu ▸ rfl)) id
  · rw [if_neg hdone]
    -- first the event loop is running, and then the underlays are cleaned
    have hrunning : Invariant { s.goto u .running with
        underlays := s.underlays ++ [u], wg := s.wg + 1 } := by
      refine h.elsewhere (.of_open hdone rfl fun _ => id) rfl rfl
        (fun hne => absurd hholder hne) (h.counted.enter (hu ▸ rfl) rfl) ?_
        (h.left_update fun hpc => by cases hpc)
      refine (forall_update_iff s.loop (p := fun v l => l.active = true →
        v ∈ s.underlays ++ [u] ∨ s.closed v = true)).mpr ⟨fun _ => .inl ?_, fun v _ hv => ?_⟩
      · exact List.mem_append_right _ (List.mem_singleton_self u)
      · exact (h.listed v hv).imp (List.mem_append_left _) id
    exact cleanUnderlay_invariant hrunning hholder idle

theorem close_invariant (h : s.Invariant) (hs : s.close i = some t) : t.Invariant := by
  have hfacts := h.facts i
  -- a step that changes nothing but where the call is
  have hmove {pc : Closing} (hpc : s.Facts i pc) : (s.proceed i pc).Invariant :=
    h.closer (.of_same rfl rfl id ⟨rfl, rfl⟩ (fun _ => id) fun _ => id) rfl rfl rfl
      (fun _ _ _ _ => ⟨rfl, rfl⟩) h.listed (by cases pc <;> exact hpc) .inl
  unfold close at hs
  split at hs
  · rename_i hi
    split_ifs at hs with hholder hdone
    · cases hs
      exact hmove hdone
    · cases hs
      rw [not_not] at hholder
      refine h.closer (.of_open hdone rfl fun _ => id) rfl rfl rfl
        (fun j rest _ hj => ?_) h.listed ⟨rfl, rfl, fun u hu => .inl hu⟩ .inl
      have hj' := h.facts j
      rw [hj, Facts, hholder] at hj'
      cases hj'.2.1
  · rename_i u rest hi
    cases hs
    rw [hi] at hfacts
    refine h.closer (.of_same rfl rfl id ⟨rfl, rfl⟩ (fun _ => id) fun _ => closed_update) rfl rfl
      rfl (fun _ _ _ _ => ⟨rfl, rfl⟩) (fun v hv => (h.listed v hv).imp id closed_update)
      ⟨hfacts.1, hfacts.2.1, fun v hv => ?_⟩ .inl
    rcases hfacts.2.2 v hv with hmem | hclosed
    · rcases List.mem_cons.mp hmem with rfl | hmem
      · exact .inr (update_self ..)
      · exact .inl hmem
    · exact .inr (closed_update hclosed)
  · rename_i hi
    cases hs
    rw [hi] at hfacts
    have hdrained : s.Drained := fun u hu => (h.listed u hu).elim
      (fun hmem => (hfacts.2.2 u hmem).resolve_left List.not_mem_nil) id
    refine h.closer (.of_same rfl rfl id ⟨rfl, rfl⟩ (fun _ => id) fun _ => id) rfl rfl rfl
      (fun j rest hne hj => ?_) (fun u hu => .inr (hdrained u hu)) ⟨hfacts.1, hdrained⟩ .inl
    have hj' := h.facts j
    rw [hj] at hj'
    exact absurd (Option.some.inj (hj'.2.1.symm.trans hfacts.2.1)) hne
  · rename_i hi
    rw [hi] at hfacts
    split_ifs at hs with hexited
    cases hs
    exact hmove ⟨hfacts.1, hfacts.2, hexited⟩
  · rename_i hi
    rw [hi] at hfacts
    split_ifs at hs with hwg
    cases hs
    exact hmove ⟨hfacts.1, hfacts.2.2, hwg⟩
  · rename_i hi
    cases hs
    rw [hi] at hfacts
    exact h.closer ⟨id, id, fun _ hd => hd, fun _ hw => hw, fun _ => rfl, fun _ => id⟩ rfl rfl rfl
      (fun _ _ _ _ => ⟨rfl, rfl⟩) h.listed ⟨hfacts.1, hfacts.2.1, hfacts.2.2, rfl⟩ .inl
  · rename_i hi
    cases hs
    rw [hi] at hfacts
    exact h.closer (.of_same rfl rfl id ⟨rfl, rfl⟩ (fun _ => id) fun _ => id) rfl rfl rfl 
      (fun _ _ _ _ => ⟨rfl, rfl⟩) h.listed hfacts fun _ => .inr hfacts
  · split_ifs at hs with hdone
    cases hs
    exact hmove (h.final hdone)
  · cases hs

theorem counters_invariant (h : s.Invariant) {maintenance : Maintenance} {total published : ℕ}
    (hexited : s.maintenance = .exited → maintenance = .exited)
    (hflushed : s.Final → published = total) :
    Invariant { s with maintenance, total, published } :=
  h.elsewhere ⟨id, hexited, fun _ hd => hd, fun _ hw => hw, hflushed, fun _ => id⟩ rfl rfl
    (fun _ => ⟨rfl, rfl⟩) h.counted h.listed h.left

theorem Invariant.not_running (h : s.Invariant) (hwg : s.wg = 0) (u : ℕ) :
    s.loop u ≠ .running := by
  intro hu
  have hidle : (s.loop u).active = false := Counted.eq_zero (hwg ▸ h.counted)
  rw [hu] at hidle
  cases hidle

theorem next_invariant (h : s.Invariant) {e : Event} (hs : s.next e = some t) : t.Invariant := by
  cases e with
  | accept u =>
    simp only [next, Option.ite_none_right_eq_some, Option.some.injEq] at hs
    obtain ⟨hu, rfl⟩ := hs
    exact goto_invariant h (fun hpc => by cases hpc) (fun hpc => by cases hpc)
      (h.counted.same (hu ▸ rfl)) id
  | register u idle =>
    simp only [next, Option.ite_none_right_eq_some, Option.some.injEq] at hs
    obtain ⟨⟨hu, hholder⟩, rfl⟩ := hs
    exact register_invariant h hu hholder idle
  | count u =>
    simp only [next, Option.ite_none_right_eq_some, Option.some.injEq] at hs
    obtain ⟨hu, rfl⟩ := hs
    exact counters_invariant h id fun hf => absurd hu (h.not_running hf.2.2.1 u)
  | advance u => exact advance_invariant h hs
  | tick idle =>
    simp only [next, Option.ite_none_right_eq_some, Option.some.injEq] at hs
    obtain ⟨⟨hm, hholder⟩, rfl⟩ := hs
    exact counters_invariant (cleanUnderlay_invariant h hholder idle)
      (fun he => by cases hm.symm.trans he) fun hf => hf.2.2.2
  | flush =>
    simp only [next, Option.ite_none_right_eq_some, Option.some.injEq] at hs
    obtain ⟨hm, rfl⟩ := hs
    exact counters_invariant h (fun he => by cases hm.symm.trans he) fun _ => rfl
  | exit =>
    simp only [next, Option.ite_none_right_eq_some, Option.some.injEq] at hs
    obtain ⟨-, rfl⟩ := hs
    exact counters_invariant h (fun _ => rfl) fun hf => hf.2.2.2
  | close i => exact close_invariant h hs

theorem start_invariant : start.Invariant where
  counted := ⟨∅, fun _ => iff_of_false (Finset.notMem_empty _) Bool.false_ne_true, rfl⟩
  listed _ h := absurd h Bool.false_ne_true
  left _ h := absurd h Bool.false_ne_true
  facts _ := trivial
  final h := absurd h Bool.false_ne_true

theorem returned_stays (h : s.Invariant) {e : Event} (hs : s.next e = some t)
    (hi : s.closer i = .returned) : t.closer i = .returned ∧ t.total = s.total := by
  cases e with
  | count u =>
    have hfacts := h.facts i
    rw [hi] at hfacts
    simp only [next, Option.ite_none_right_eq_some] at hs
    exact absurd hs.1 (h.not_running hfacts.2.2.1 u)
  | advance u =>
    simp only [next, advance] at hs
    split at hs <;> cases hs <;> exact ⟨hi, rfl⟩
  | close j =>
    by_cases hj : i = j
    · subst hj
      simp only [next, close, hi, reduceCtorEq] at hs
    · have hsame : t.closer i = s.closer i ∧ t.total = s.total := by
        simp only [next, close] at hs
        split at hs <;> try split_ifs at hs
        all_goals cases hs <;> exact ⟨update_of_ne hj _ _, rfl⟩
      exact ⟨hsame.1.trans hi, hsame.2⟩
  | register u idle =>
    simp only [next, Option.ite_none_right_eq_some, Option.some.injEq] at hs
    obtain ⟨-, rfl⟩ := hs
    unfold register
    split_ifs <;> exact ⟨hi, rfl⟩
  | _ =>
    simp only [next, Option.ite_none_right_eq_some, Option.some.injEq] at hs
    obtain ⟨-, rfl⟩ := hs
    exact ⟨hi, rfl⟩

theorem next_counters {e : Event} (h : s.next e = some t) :
    (t.total = s.total ∧ t.published = s.published) ∨
      (t.total = s.total + 1 ∧ t.published = s.published) ∨
      t.total = s.total ∧ t.published = s.total := by
  cases e with
  | count u =>
    simp only [next, Option.ite_none_right_eq_some, Option.some.injEq] at h
    obtain ⟨-, rfl⟩ := h
    exact .inr (.inl ⟨rfl, rfl⟩)
  | flush =>
    simp only [next, Option.ite_none_right_eq_some, Option.some.injEq] at h
    obtain ⟨-, rfl⟩ := h
    exact .inr (.inr ⟨rfl, rfl⟩)
  | advance u =>
    simp only [next, advance] at h
    split at h <;> cases h <;> exact .inl ⟨rfl, rfl⟩
  | close i =>
    simp only [next, close] at h
    split at h <;> try split_ifs at h
    all_goals cases h <;> first | exact .inl ⟨rfl, rfl⟩ | exact .inr (.inr ⟨rfl, rfl⟩)
  | register u idle =>
    simp only [next, Option.ite_none_right_eq_some, Option.some.injEq] at h
    obtain ⟨-, rfl⟩ := h
    unfold register
    split_ifs <;> exact .inl ⟨rfl, rfl⟩
  | _ =>
    simp only [next, Option.ite_none_right_eq_some, Option.some.injEq] at h
    obtain ⟨-, rfl⟩ := h
    exact .inl ⟨rfl, rfl⟩

end State

variable {es es' : List Event} {outs outs' : List Empty} {s t : State}

theorem invariant_reaches (h : Machine.Reaches step Machine.Free s es outs t)
    (hs : s.Invariant) : t.Invariant := by
  refine h.invariant (I := fun s _ => s.Invariant) hs ?_
  intro s outs e t out hi _ hstep
  obtain ⟨t, ht, heq⟩ := Option.map_eq_some_iff.mp hstep
  cases heq
  exact State.next_invariant hi ht

theorem returned_reaches (h : Machine.Reaches step Machine.Free s es outs t) (hs : s.Invariant)
    {i : ℕ} (hi : s.closer i = .returned) : t.closer i = .returned ∧ t.total = s.total := by
  induction h with
  | start => exact ⟨hi, rfl⟩
  | next hreach _ hstep ih =>
    obtain ⟨t, ht, heq⟩ := Option.map_eq_some_iff.mp hstep
    cases heq
    obtain ⟨hi', htotal⟩ := State.returned_stays (invariant_reaches hreach hs) ht ih.1
    exact ⟨hi', htotal.trans ih.2⟩

/-- Every flush of the mux is an undisturbed flush of the counter. -/
theorem counter_reaches
    (h : Machine.Reaches step Machine.Free start es outs s) (hfew : s.total < 2 ^ 63) :
    ∃ es' outs', ∃ c : CacheCounter 1,
      Machine.Reaches CacheCounter.step Machine.Free {} es' outs' c ∧ c.Settled outs' ∧ c.Quiet ∧
        c.total.toNat = s.total ∧ c.published.toNat = s.published := by
  induction h with
  | start => exact ⟨[], [], {}, .start, CacheCounter.settled_start, fun _ => rfl, rfl, rfl⟩
  | @next _ _ _ s t e _ _ hstep ih =>
    obtain ⟨t, ht, heq⟩ := Option.map_eq_some_iff.mp hstep
    cases heq
    have hcounters := State.next_counters ht
    obtain ⟨es', outs', c, hreach, hsettled, hquiet, htotal, hpublished⟩ := ih (by omega)
    have hcounted : increments outs' < 2 ^ 63 := by
      rw [← hsettled.counted]
      omega
    rcases hcounters with ⟨hsame, hsame'⟩ | ⟨hmore, hsame⟩ | ⟨hsame, hflushed⟩
    · exact ⟨es', outs', c, hreach, hsettled, hquiet, htotal.trans hsame.symm,
        hpublished.trans hsame'.symm⟩
    · have hstep' : c.step .increment = some ({ c with total := c.total + 1 }, [.incremented]) :=
        rfl
      have hcount : increments (outs' ++ [.incremented]) < 2 ^ 63 := by
        rw [increments_append, ← hsettled.counted]
        change c.total.toNat + 1 < 2 ^ 63
        omega
      refine ⟨_, _, _, hreach.next trivial hstep', hsettled.step hcount hstep', hquiet, ?_,
        hpublished.trans hsame.symm⟩
      have hone : (1 : UInt64).toNat = 1 := rfl
      rw [UInt64.toNat_add, htotal, hmore, hone]
      omega
    · have hdelta := CacheCounter.not_negative hsettled.le (by omega)
      obtain ⟨es'', outs'', c', hflush, -, hback, htotal', hpublished'⟩ :=
        CacheCounter.flush_run (hquiet 0) hdelta
      have hsettled' := (CacheCounter.covers_of_reaches (i := 0) hsettled hcounted hflush).1
      refine ⟨_, _, c', hreach.trans hflush.free, hsettled', fun i => ?_, ?_, ?_⟩
      · rw [hback]
        exact hquiet i
      · rw [htotal', htotal, hsame]
      · rw [hpublished', htotal, hflushed]

/-- What the mux has published is what the metric shows. -/
theorem metric_shows_published
    (h : Machine.Reaches step Machine.Free start es outs s) (hfew : s.total < 2 ^ 63) :
    ∃ es' outs', ∃ c : CacheCounter 1,
      Machine.Reaches CacheCounter.step Machine.Free {} es' outs' c ∧ c.total.toNat = s.total ∧
        c.metric.toInt = s.published := by
  obtain ⟨es', outs', c, hreach, hsettled, hquiet, htotal, hpublished⟩ := counter_reaches h hfew
  exact ⟨es', outs', c, hreach, htotal, by rw [hsettled.quiet hquiet, hpublished]⟩

/-- Once a call of `Close` has returned, the maintenance task has ended, no event loop is running
or will be started, every underlay that was registered is closed, and the metrics show all that
the event loops have counted, for good. And `Close` does not wait for an event loop whose underlay
is open. -/
theorem close_is_final (h : Machine.Reaches step Machine.Free start es outs s) :
    (∀ i, s.closer i = .returned → ∀ es' outs' t, Machine.Reaches step Machine.Free s es' outs' t →
      t.maintenance = .exited ∧ t.published = s.total ∧ t.total = s.total ∧
      ∀ u, (t.loop u).active = false ∧ (t.loop u = .ended → t.closed u = true)) ∧
    ∀ i, s.closer i = .waitMaintenance ∨ s.closer i = .waitLoops →
      ∀ u, (s.loop u).active = true → s.closed u = true := by
  have hinv : s.Invariant := invariant_reaches h State.start_invariant
  refine ⟨fun i hi es' outs' t ht => ?_, fun i hi => ?_⟩
  · have hinv' := invariant_reaches ht hinv
    obtain ⟨hi', htotal⟩ := returned_reaches ht hinv hi
    have hfacts := hinv'.facts i
    rw [hi'] at hfacts
    obtain ⟨-, hexited, hwg, hflushed⟩ := hfacts
    refine ⟨hexited, hflushed.trans htotal, htotal, fun u => ⟨?_, fun hu => ?_⟩⟩
    · exact State.Counted.eq_zero (hwg ▸ hinv'.counted)
    · exact hinv'.left u (hu ▸ rfl)
  · have hfacts := hinv.facts i
    rcases hi with hi | hi
    · rw [hi] at hfacts
      exact hfacts.2
    · rw [hi] at hfacts
      exact hfacts.2.1

/-- Two underlays are registered, a third one comes too late, and one event loop counts until
`Close` is waiting for it. -/
def closeRun : List Event :=
  [.accept 0, .register 0 [], .accept 1, .register 1 [0], .accept 2, .count 0, .close 7, .close 7,
    .close 7, .close 8, .register 2 [], .count 0, .exit, .close 7, .advance 0, .advance 0,
    .advance 0, .advance 1, .advance 1, .advance 1, .advance 2, .close 7, .close 7, .close 7,
    .close 8]

theorem close_run_is_final : ∃ s, Machine.run step start closeRun = some (s, []) ∧
    s.closer 7 = .returned ∧ s.closer 8 = .returned ∧ s.total = 2 ∧ s.loop 2 = .dropped ∧
    ∀ es' outs' t, Machine.Reaches step Machine.Free s es' outs' t → t.published = 2 := by
  have hrun : ∃ s, Machine.run step start closeRun = some (s, []) ∧ s.closer 7 = .returned ∧
      s.closer 8 = .returned ∧ s.total = 2 ∧ s.loop 2 = .dropped :=
    ⟨_, rfl, rfl, rfl, rfl, rfl⟩
  obtain ⟨s, hs, h7, h8, htotal, hdropped⟩ := hrun
  refine ⟨s, hs, h7, h8, htotal, hdropped, fun es' outs' t ht => ?_⟩
  have hfinal := (close_is_final (Machine.reaches_of_run hs)).1 7 h7 es' outs' t ht
  exact hfinal.2.1.trans htotal

end Mieru.Protocol.MuxServer
