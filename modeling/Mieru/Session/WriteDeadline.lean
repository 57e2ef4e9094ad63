import Mieru.Session.EndOfFile

/-! # How long `Write` takes

`Write` waits in two loops: for room in `sendQueue`, and at the end of each chunk until
`sendQueue` is empty or moving. A round of such a loop that finds nothing is a turn of
the writer as well. The first loop looks at `closedChan`, `outputErr` and the deadline;
the second looks at `sendQueue` only. -/
namespace Mieru.Protocol

/-- A session and whether the deadline of the current `Write` has passed. -/
structure Deadlined (cfg : SessionConfig) where
  session : Session cfg
  expired : Bool := false

inductive Turn where
  | expire
  | act (a : Action)
  /-- A round of a waiting loop of `Write` that finds nothing ready. -/
  | spin

def Action.timesOut : Action → Bool
  | writeAbort .timeout => true
  | _ => false

def Action.entersWrite : Action → Bool
  | write _ => true
  | _ => false

def Turn.own : Turn → Bool
  | expire => false
  | act a => a.party = .writer
  | spin => true

def Turn.isSpin : Turn → Bool
  | spin => true
  | _ => false

def ownTurns (turns : List Turn) : ℕ := turns.countP Turn.own

def WritePc.isDraining {cfg : SessionConfig} : WritePc cfg → Bool
  | draining _ => true
  | _ => false

def WritePc.isFragmenting {cfg : SessionConfig} : WritePc cfg → Bool
  | fragmenting .. => true
  | _ => false

namespace Deadlined

variable {cfg : SessionConfig}

def start (now jitter : ℤ) : Deadlined cfg := { session := .attached now jitter }

/-- Nothing that the loop looks at is ready. -/
def spins (w : Deadlined cfg) : Bool :=
  match w.session.writePc with
  | .reserving c => w.session.sendQueue.remaining ≤ c.nFragment ∧ ¬w.session.closedChan ∧
      ¬w.session.outputHasErr ∧ ¬w.expired
  | .draining _ => w.session.writeDrain.isNone
  | _ => false

def step (w : Deadlined cfg) : Turn → Option (Deadlined cfg × List Event)
  | .expire => some ({ w with expired := true }, [])
  | .act a =>
    if a.timesOut ∧ ¬w.expired then none
    else
      (w.session.step a).map fun (s, evs) =>
        ({ session := s, expired := w.expired && !a.entersWrite }, evs)
  | .spin => if w.spins then some (w, []) else none

def Over (w : Deadlined cfg) : Prop := w.expired = true ∨ w.session.closedChan = true

/-- The turn is no round of the last loop in which `sendQueue` has not moved. -/
def Unstuck (w : Deadlined cfg) (turn : Turn) : Prop :=
  turn.isSpin = true → w.session.writePc.isDraining = false

def lockedOut (w : Deadlined cfg) : Bool :=
  w.session.oLock && !w.session.writePc.isFragmenting

end Deadlined

/-! ## What is left to do -/

/-- An upper bound for the rounds until `Write` returns if no loop has to wait. -/
def WritePc.work {cfg : SessionConfig} : WritePc cfg → ℕ
  | idle => 0
  | opening b => b.length * 5 + 3
  | requesting b => b.length * 5 + 2
  | writing b _ => b.length * 5 + 1
  | reserving c => c.rest.length * 5 + c.nFragment + 4
  | locking c => c.rest.length * 5 + c.nFragment + 3
  | fragmenting c left _ => c.rest.length * 5 + left + 2
  | draining c => c.rest.length * 5 + 2

/-- A fragment is left while `Write` is in its loop over them. -/
def WritePc.Proper {cfg : SessionConfig} : WritePc cfg → Prop
  | fragmenting _ left _ => 0 < left
  | _ => True

theorem WritePc.work_pos_iff {cfg : SessionConfig} {pc : WritePc cfg} :
    0 < pc.work ↔ pc ≠ idle := by
  cases pc <;> simp [WritePc.work]

theorem Chunk.nFragment_pos {cfg : SessionConfig} (c : Chunk cfg) : 0 < c.nFragment := by
  unfold Chunk.nFragment
  split_ifs
  · exact Nat.succ_pos _
  · exact Nat.one_pos

theorem Chunk.nFragment_le {cfg : SessionConfig} {c : Chunk cfg} (hdata : c.data ≠ []) :
    c.nFragment ≤ c.data.length := by
  have hpos : 0 < c.data.length := List.length_pos_iff.mpr hdata
  unfold Chunk.nFragment
  split_ifs
  · have hdiv := Nat.div_le_self (c.data.length - 1) c.fragmentSize
    omega
  · exact hpos

namespace Session

variable {cfg : SessionConfig} {s s' : Session cfg} {evs : List Event}

/-- `Write` has returned, or less is left to do. -/
def Advances (s s' : Session cfg) (evs : List Event) : Prop :=
  s'.writePc.Proper ∧ ((∃ n err, Event.wrote n err ∈ evs) ∨
    0 < s'.writePc.work ∧ s'.writePc.work < s.writePc.work)

theorem Advances.of_wrote {n : ℕ} {err : Option SessionError} (hidle : s'.writePc = .idle)
    (h : Event.wrote n err ∈ evs) : s.Advances s' evs :=
  ⟨hidle ▸ trivial, .inl ⟨n, err, h⟩⟩

theorem Advances.of_work {pc pc' : WritePc cfg} (hpc : s.writePc = pc) (hpc' : s'.writePc = pc')
    (hproper : pc'.Proper) (hpos : 0 < pc'.work) (hlt : pc'.work < pc.work) :
    s.Advances s' evs :=
  ⟨hpc' ▸ hproper, .inr ⟨hpc' ▸ hpos, hpc ▸ hpc' ▸ hlt⟩⟩

theorem writeOpen_advances (h : s.writeOpen = some (s', evs)) : s.Advances s' evs := by
  unfold writeOpen at h
  split at h
  · rename_i b hpc
    split_ifs at h
    · cases h
      exact .of_work hpc rfl trivial (Nat.succ_pos _) (Nat.lt_succ_self _)
    · cases h
      exact .of_work hpc rfl trivial (Nat.succ_pos _) (Nat.lt_succ_of_lt (Nat.lt_succ_self _))
  · cases h

theorem writeRequest_advances (h : s.writeRequest = some (s', evs)) : s.Advances s' evs := by
  unfold writeRequest at h
  split at h
  · rename_i b hpc
    split_ifs at h
    dsimp only at h
    split at h
    · cases h
      exact .of_wrote rfl (List.mem_cons_of_mem _ (List.mem_singleton_self _))
    · split_ifs at h
      · cases h
        exact .of_wrote rfl (List.mem_cons_of_mem _ (List.mem_singleton_self _))
      · cases h
        exact .of_work hpc rfl trivial (Nat.succ_pos _) (Nat.lt_succ_self _)
  · cases h

theorem writeChunk_advances (h : s.writeChunk = some (s', evs)) : s.Advances s' evs := by
  unfold writeChunk at h
  split at h
  · rename_i b n hpc
    split_ifs at h with hempty
    · cases h
      exact .of_wrote rfl (List.mem_singleton_self _)
    · split at h
      split at h
      · cases h
        exact .of_wrote rfl (List.mem_singleton_self _)
      · cases h
      · cases h
        refine .of_work hpc rfl trivial (Nat.succ_pos _) ?_
        -- The bytes of the chunk pay for its fragments and its other rounds.
        have hlen : (b.take maxPDU).length + (b.drop maxPDU).length = b.length := by
          rw [← List.length_append, List.take_append_drop]
        have hdata : b.take maxPDU ≠ [] := by
          rw [Ne, List.take_eq_nil_iff]
          exact fun h => h.elim (by decide) hempty
        have hpos : 0 < (b.take maxPDU).length := List.length_pos_iff.mpr hdata
        refine lt_of_le_of_lt (Nat.add_le_add_right
          (Nat.add_le_add_left (Chunk.nFragment_le hdata) _) 4) ?_
        change (b.drop maxPDU).length * 5 + (b.take maxPDU).length + 4 < b.length * 5 + 1
        omega
  · cases h

theorem writeReserve_advances (h : s.writeReserve = some (s', evs)) : s.Advances s' evs := by
  unfold writeReserve at h
  split at h
  · rename_i c hpc
    split_ifs at h
    cases h
    exact .of_work hpc rfl trivial (Nat.succ_pos _) (Nat.lt_succ_self _)
  · cases h

theorem writeLock_advances (h : s.writeLock = some (s', evs)) : s.Advances s' evs := by
  unfold writeLock at h
  split at h
  · rename_i c hpc
    split_ifs at h
    cases h
    exact .of_work hpc rfl c.nFragment_pos (Nat.succ_pos _) (Nat.lt_succ_self _)
  · cases h

theorem writeFragment_advances (h : s.writeFragment = some (s', evs)) : s.Advances s' evs := by
  unfold writeFragment at h
  split at h
  · rename_i c left offset hpc
    split at h
    · cases h
    · dsimp only at h
      split at h
      · cases h
        exact .of_wrote rfl (List.mem_singleton_self _)
      · split at h
        · cases h
          exact .of_wrote rfl (List.mem_cons_of_mem _ (List.mem_singleton_self _))
        · split_ifs at h with hlast
          · cases h
            refine .of_work hpc rfl trivial (Nat.succ_pos _) ?_
            simp only [WritePc.work]
            omega
          · cases h
            refine .of_work hpc rfl (Nat.pos_of_ne_zero hlast) (Nat.succ_pos _) ?_
            simp only [WritePc.work]
            omega
  · cases h

theorem writeAbort_advances {err : SessionError} (h : s.writeAbort err = some (s', evs)) :
    s.Advances s' evs := by
  unfold writeAbort at h
  dsimp only at h
  split_ifs at h
  split at h
  · split_ifs at h
    cases h
    exact .of_wrote rfl (List.mem_singleton_self _)
  · cases h
    exact .of_wrote rfl (List.mem_singleton_self _)
  · cases h

theorem writeDrain_advances (h : s.writeDrain = some (s', evs)) : s.Advances s' evs := by
  unfold writeDrain at h
  split at h
  · rename_i c hpc
    dsimp only at h
    split_ifs at h
    · cases h
      exact .of_work hpc rfl trivial (Nat.succ_pos _) (Nat.lt_succ_self _)
    · split at h
      · cases h
        exact .of_work hpc rfl trivial (Nat.succ_pos _) (Nat.lt_succ_self _)
      · split_ifs at h
        cases h
        exact .of_work hpc rfl trivial (Nat.succ_pos _) (Nat.lt_succ_self _)
  · cases h

theorem write_idle {b : Bytes} (h : s.write b = some (s', evs)) :
    s.writePc = .idle ∧ s'.writePc.Proper := by
  unfold write at h
  split at h
  · rename_i hpc
    refine ⟨hpc, ?_⟩
    split_ifs at h
    · cases h
      rw [hpc]
      trivial
    · cases h
      rw [hpc]
      trivial
    · cases h
      rw [hpc]
      trivial
    · cases h
      trivial
  · cases h

theorem writer_advances {a : Action} (h : s.step a = some (s', evs)) (ha : a.party = .writer)
    (henters : a.entersWrite = false) : s.Advances s' evs := by
  have hperform := perform_of_step h
  cases a with
  | write b => cases henters
  | writeOpen => exact writeOpen_advances hperform
  | writeRequest => exact writeRequest_advances hperform
  | writeChunk => exact writeChunk_advances hperform
  | writeReserve => exact writeReserve_advances hperform
  | writeLock => exact writeLock_advances hperform
  | writeFragment => exact writeFragment_advances hperform
  | writeAbort err => exact writeAbort_advances hperform
  | writeDrain => exact writeDrain_advances hperform
  | _ => cases ha

theorem closedChan_of_step {a : Action} (h : s.step a = some (s', evs))
    (hclosed : s.closedChan = true) : s'.closedChan = true := by
  by_cases ha : a.touches .closedChan = true
  · cases a with
    | closeClear =>
      rw [closeClear_closedChan (perform_of_step h), hclosed]
      rfl
    | _ => cases ha
  · rw [(step_effect h).keeps .closedChan (Bool.not_eq_true _ ▸ ha)]
    exact hclosed

theorem proper_of_step {a : Action} (hs : s.writePc.Proper) (h : s.step a = some (s', evs)) :
    s'.writePc.Proper := by
  by_cases ha : a.party = .writer
  · cases a with
    | write b => exact (write_idle (perform_of_step h)).2
    | _ => exact (writer_advances h ha rfl).1
  · rw [((step_effect h).keeps .writer (by simpa [Action.touches] using ha)).1]
    exact hs

/-! ## There is always a next turn -/

theorem writeOpen_isSome {b : Bytes} (hpc : s.writePc = .opening b) :
    s.writeOpen.isSome = true := by
  simp only [writeOpen, hpc]
  split <;> rfl

theorem writeRequest_isSome {b : Bytes} (hpc : s.writePc = .requesting b)
    (hlock : s.oLock = false) : s.writeRequest.isSome = true := by
  simp only [writeRequest, hpc, hlock, Bool.false_eq_true, if_false]
  split
  · rfl
  · split <;> rfl

theorem writeFragment_isSome {c : Chunk cfg} {left offset : ℕ}
    (hpc : s.writePc = .fragmenting c (left + 1) offset) (hclosed : s.closedChan = false)
    (herr : s.outputHasErr = false) : s.writeFragment.isSome = true := by
  simp only [writeFragment, hpc, hclosed, herr, Bool.false_eq_true, or_self, if_false]
  split
  · rfl
  · split
    · rfl
    · split <;> rfl

theorem writeAbort_isSome {err : SessionError}
    (hready : (err = .eof ∧ s.closedChan) ∨ (err = .closedPipe ∧ s.outputHasErr) ∨ err = .timeout)
    (hpc : (∃ c, s.writePc = .reserving c ∧ s.sendQueue.remaining ≤ c.nFragment) ∨
      ∃ c left offset, s.writePc = .fragmenting c (left + 1) offset) :
    (s.writeAbort err).isSome = true := by
  unfold writeAbort
  rw [if_neg (not_not.mpr hready)]
  rcases hpc with ⟨c, hpc, hfull⟩ | ⟨c, left, offset, hpc⟩
  · simp only [hpc, if_pos hfull, Option.isSome_some]
  · simp only [hpc, Option.isSome_some]

theorem maxFragmentSize_ne_zero (hmtu : (packetOverhead : ℤ) < cfg.mtu)
    (mode : LowEntropy.LowEntropyMode) :
    maxFragmentSize cfg.mtu cfg.transportProtocol mode ≠ .ok 0 := by
  have hinternal : 0 < maxFragmentSizeInternal cfg.mtu cfg.transportProtocol := by
    unfold maxFragmentSizeInternal
    split_ifs
    · decide
    · omega
  intro h
  unfold maxFragmentSize at h
  split_ifs at h
  · have hzero := Except.ok.inj h
    omega
  · obtain ⟨params, -, h⟩ := Result.bind_eq_ok.mp h
    have hsource := params.source_pos
    split at h
    · have hchunks : 0 < 65535 / LowEntropy.lowEntropyChunkLen * params.sourceBytesPerChunk :=
        Nat.mul_pos (by decide) hsource
      have hzero := Except.ok.inj h
      omega
    · obtain ⟨hcount, h⟩ := Result.ensure_bind_eq_ok.mp h
      have hchunks := Nat.mul_pos (Int.pos_iff_toNat_pos.mp hcount) hsource
      have hzero := Except.ok.inj h
      omega
    · have hzero := Except.ok.inj h
      omega

end Session

namespace Deadlined

open Machine Session

variable {cfg : SessionConfig} {w w' : Deadlined cfg} {turn : Turn} {out : List Event}

theorem step_work (hover : w.Over) (hbusy : 0 < w.session.writePc.work)
    (hunstuck : w.Unstuck turn) (h : w.step turn = some (w', out)) :
    (∃ n err, Event.wrote n err ∈ out) ∨ w'.Over ∧ 0 < w'.session.writePc.work ∧
      w'.session.writePc.work + (if turn.own then 1 else 0) ≤ w.session.writePc.work := by
  cases turn with
  | expire =>
    cases h
    exact .inr ⟨.inl rfl, hbusy, le_refl _⟩
  | act a =>
    simp only [step] at h
    split_ifs at h
    obtain ⟨⟨s, evs⟩, hs, heq⟩ := Option.map_eq_some_iff.mp h
    cases heq
    have henters : a.entersWrite = false := by
      cases a with
      | write b =>
        exact absurd (write_idle (perform_of_step hs)).1 (WritePc.work_pos_iff.mp hbusy)
      | _ => rfl
    have hover' : Over { session := s, expired := w.expired && !a.entersWrite } := by
      rcases hover with hexpired | hclosed
      · exact .inl (by rw [hexpired, henters]; rfl)
      · exact .inr (closedChan_of_step hs hclosed)
    by_cases ha : a.party = .writer
    · rcases (writer_advances hs ha henters).2 with hwrote | ⟨hpos, hlt⟩
      · exact .inl hwrote
      · refine .inr ⟨hover', hpos, ?_⟩
        simp only [Turn.own, ha, decide_true, if_true]
        exact hlt
    · have hkept := ((step_effect hs).keeps .writer (by simpa [Action.touches] using ha)).1
      refine .inr ⟨hover', ?_, ?_⟩
      · simpa only [hkept] using hbusy
      · simp [Turn.own, ha, hkept]
  | spin =>
    simp only [step] at h
    split_ifs at h with hspins
    have hdraining := hunstuck rfl
    unfold spins at hspins
    split at hspins
    · have hready := of_decide_eq_true hspins
      rcases hover with hexpired | hclosed
      · exact absurd hexpired hready.2.2.2
      · exact absurd hclosed hready.2.1
    · rename_i hpc
      rw [hpc] at hdraining
      cases hdraining
    · cases hspins

theorem proper_of_reaches {P : Deadlined cfg → Turn → Prop} {turns : List Turn}
    {outs : List Event} (hw : w.session.writePc.Proper) (h : Reaches step P w turns outs w') :
    w'.session.writePc.Proper := by
  refine h.invariant (I := fun w _ => w.session.writePc.Proper) hw ?_
  intro w outs turn w' out hproper _ hstep
  cases turn with
  | expire =>
    cases hstep
    exact hproper
  | act a =>
    simp only [step] at hstep
    split_ifs at hstep
    obtain ⟨⟨s, evs⟩, hs, heq⟩ := Option.map_eq_some_iff.mp hstep
    cases heq
    exact proper_of_step hproper hs
  | spin =>
    simp only [step] at hstep
    split_ifs at hstep
    cases hstep
    exact hproper

theorem own_turn {a : Action} (ha : a.party = .writer)
    (htimes : a.timesOut = true → w.expired = true) (h : (w.session.perform a).isSome = true) :
    ∃ turn, turn.own = true ∧ (w.step turn).isSome = true := by
  refine ⟨.act a, decide_eq_true ha, ?_⟩
  have hloop : a.loop = none := by
    cases a with
    | write | writeOpen | writeRequest | writeChunk | writeReserve | writeLock | writeFragment
    | writeAbort | writeDrain => rfl
    | _ => cases ha
  have hstep : w.session.step a = w.session.perform a := by simp [Session.step, hloop]
  simp only [step, hstep]
  rw [if_neg fun hlate => hlate.2 (htimes hlate.1), Option.isSome_map]
  exact h

theorem own_turn_untimed {a : Action} (ha : a.party = .writer) (huntimed : a.timesOut = false)
    (h : (w.session.perform a).isSome = true) :
    ∃ turn, turn.own = true ∧ (w.step turn).isSome = true :=
  own_turn ha (fun htimes => absurd (htimes.symm.trans huntimed) (by decide)) h

theorem own_abort
    (hpc : (∃ c, w.session.writePc = .reserving c ∧ w.session.sendQueue.remaining ≤ c.nFragment) ∨
      ∃ c left offset, w.session.writePc = .fragmenting c (left + 1) offset)
    (hnone : w.session.closedChan = false ∧ w.session.outputHasErr = false ∧ w.expired = false →
      ∃ turn, turn.own = true ∧ (w.step turn).isSome = true) :
    ∃ turn, turn.own = true ∧ (w.step turn).isSome = true := by
  by_cases hclosed : w.session.closedChan = true
  · exact own_turn_untimed (a := .writeAbort .eof) rfl rfl
      (writeAbort_isSome (.inl ⟨rfl, hclosed⟩) hpc)
  by_cases herr : w.session.outputHasErr = true
  · exact own_turn_untimed (a := .writeAbort .closedPipe) rfl rfl
      (writeAbort_isSome (.inr (.inl ⟨rfl, herr⟩)) hpc)
  by_cases hexpired : w.expired = true
  · exact own_turn (a := .writeAbort .timeout) rfl (fun _ => hexpired)
      (writeAbort_isSome (.inr (.inr rfl)) hpc)
  · exact hnone ⟨Bool.eq_false_iff.mpr hclosed, Bool.eq_false_iff.mpr herr,
      Bool.eq_false_iff.mpr hexpired⟩

theorem exists_own_turn (hmtu : (packetOverhead : ℤ) < cfg.mtu)
    (hproper : w.session.writePc.Proper) (hbusy : w.session.writePc ≠ .idle)
    (hfree : w.lockedOut = false) : ∃ turn, turn.own = true ∧ (w.step turn).isSome = true := by
  unfold lockedOut at hfree
  cases hpc : w.session.writePc with
  | idle => exact absurd hpc hbusy
  | opening b => exact own_turn_untimed (a := .writeOpen) rfl rfl (writeOpen_isSome hpc)
  | requesting b =>
    rw [hpc] at hfree
    have hlock : w.session.oLock = false := by simpa [WritePc.isFragmenting] using hfree
    exact own_turn_untimed (a := .writeRequest) rfl rfl (writeRequest_isSome hpc hlock)
  | writing b n =>
    refine own_turn_untimed (a := .writeChunk) rfl rfl ?_
    simp only [perform, writeChunk, hpc]
    split_ifs
    · rfl
    · split
      · rfl
      · rename_i hzero
        exact absurd hzero (maxFragmentSize_ne_zero hmtu _)
      · rfl
  | reserving c =>
    by_cases hfull : w.session.sendQueue.remaining ≤ c.nFragment
    · refine own_abort (.inl ⟨c, hpc, hfull⟩) ?_
      rintro ⟨hclosed, herr, hexpired⟩
      refine ⟨.spin, rfl, ?_⟩
      have hspins : w.spins = true := by simp [spins, hpc, hfull, hclosed, herr, hexpired]
      simp only [step, hspins, if_true, Option.isSome_some]
    · refine own_turn_untimed (a := .writeReserve) rfl rfl ?_
      simp only [perform, writeReserve, hpc, if_neg hfull, Option.isSome_some]
  | locking c =>
    rw [hpc] at hfree
    have hlock : w.session.oLock = false := by simpa [WritePc.isFragmenting] using hfree
    refine own_turn_untimed (a := .writeLock) rfl rfl ?_
    simp only [perform, writeLock, hpc, hlock]
    rfl
  | fragmenting c left offset =>
    obtain ⟨left, rfl⟩ : ∃ rest, left = rest + 1 := by
      have hleft : 0 < left := by simpa only [hpc, WritePc.Proper] using hproper
      exact ⟨left - 1, by omega⟩
    refine own_abort (.inr ⟨c, left, offset, hpc⟩) ?_
    rintro ⟨hclosed, herr, -⟩
    exact own_turn_untimed (a := .writeFragment) rfl rfl (writeFragment_isSome hpc hclosed herr)
  | draining c =>
    by_cases hdrain : w.session.writeDrain.isSome = true
    · exact own_turn_untimed (a := .writeDrain) rfl rfl hdrain
    · refine ⟨.spin, rfl, ?_⟩
      have hspins : w.spins = true := by
        simp only [spins, hpc]
        simpa using hdrain
      simp only [step, hspins, if_true, Option.isSome_some]

/-- Once the deadline has passed or the session is closed, `Write` returns after fewer than
`work` of its own turns, provided that it never finds `sendQueue` unmoved in its last loop. Until
it returns, it always has a next turn while no other goroutine holds `oLock`. -/
theorem write_returns {now jitter : ℤ} {before after : List Turn} {outs outs' : List Event}
    (hmtu : (packetOverhead : ℤ) < cfg.mtu)
    (hbefore : Reaches step Free (start now jitter : Deadlined cfg) before outs w)
    (hover : w.Over) (hbusy : w.session.writePc ≠ .idle)
    (hafter : Reaches step Unstuck w after outs' w')
    (hopen : ∀ n err, Event.wrote n err ∉ outs') :
    ownTurns after < w.session.writePc.work ∧
      (w'.lockedOut = false → ∃ turn, turn.own = true ∧ (w'.step turn).isSome = true) := by
  have hstart : (start now jitter : Deadlined cfg).session.writePc.Proper := trivial
  have hproper := proper_of_reaches hstart hbefore
  have hproper' := proper_of_reaches hproper hafter
  suffices hrun : (∃ n err, Event.wrote n err ∈ outs') ∨ w'.Over ∧
      0 < w'.session.writePc.work ∧
      w'.session.writePc.work + ownTurns after ≤ w.session.writePc.work by
    rcases hrun with ⟨n, err, hwrote⟩ | ⟨-, hpos, hle⟩
    · exact absurd hwrote (hopen n err)
    · refine ⟨by omega, ?_⟩
      exact exists_own_turn hmtu hproper' (WritePc.work_pos_iff.mp hpos)
  clear hopen hproper'
  induction hafter with
  | start => exact .inr ⟨hover, WritePc.work_pos_iff.mpr hbusy, le_refl _⟩
  | @next turns outs out s s' turn hreach hunstuck hstep ih =>
    rcases ih with ⟨n, err, hwrote⟩ | ⟨hover', hpos, hle⟩
    · exact .inl ⟨n, err, List.mem_append_left _ hwrote⟩
    · rcases step_work hover' hpos hunstuck hstep with ⟨n, err, hwrote⟩ | ⟨hover'', hpos', hle'⟩
      · exact .inl ⟨n, err, List.mem_append_right _ hwrote⟩
      · refine .inr ⟨hover'', hpos', ?_⟩
        simp only [ownTurns, List.countP_append, List.countP_singleton] at hle ⊢
        omega

/-! ## Two calls on a server session -/

def lateRun : List Turn :=
  [.act (.write [7]), .act .writeOpen, .act .writeChunk, .expire]

def queuedRun : List Turn :=
  [.act (.write [7]), .act .writeOpen, .act .writeChunk, .act .writeReserve, .act .writeLock,
    .act .writeFragment, .expire]

theorem late_write_returns : ∃ (w w' : Deadlined (packetConfig false)) (outs outs' : List Event),
    Reaches step Free (start 0 0) lateRun outs w ∧ w.expired = true ∧
      Reaches step Unstuck w [.act .writeReserve, .act .writeLock] outs' w' ∧
      ownTurns [.act .writeReserve, .act .writeLock] < w.session.writePc.work ∧
      ∃ turn, turn.own = true ∧ (w'.step turn).isSome = true := by
  have hsummary : ((run step (start 0 0 : Deadlined (packetConfig false)) lateRun).bind fun r =>
      (run (guarded (fun _ turn => !turn.isSpin) step) r.1
        [.act .writeReserve, .act .writeLock]).map
          fun r' => (r.1.expired, r.1.session.writePc.work, r'.1.lockedOut, r'.2)) =
      some (true, 5, false, []) := by
    rfl
  obtain ⟨⟨w, outs⟩, hbefore, hrest⟩ := Option.bind_eq_some_iff.mp hsummary
  obtain ⟨⟨w', outs'⟩, hafter, heq⟩ := Option.map_eq_some_iff.mp hrest
  simp only [Prod.mk.injEq] at heq
  obtain ⟨hexpired, hwork, hfree, rfl⟩ := heq
  have hbusy : w.session.writePc ≠ .idle := WritePc.work_pos_iff.mp (by omega)
  have hunstuck : Reaches step Unstuck w [.act .writeReserve, .act .writeLock] [] w' := by
    refine (reaches_of_guarded_run hafter).mono ?_
    intro w turn hturn hspin
    rw [hspin] at hturn
    cases hturn
  have hreturns := write_returns (by decide) (reaches_of_run hbefore) (.inl hexpired) hbusy
    hunstuck (by simp)
  exact ⟨w, w', outs, [], reaches_of_run hbefore, hexpired, hunstuck, hreturns.1,
    hreturns.2 hfree⟩

/-- After the deadline the writer can turn in its last loop for as long as nobody takes the
segment from `sendQueue`. -/
theorem queued_write_never_returns :
    ∃ (w : Deadlined (packetConfig false)) (outs : List Event),
      Reaches step Free (start 0 0) queuedRun outs w ∧ w.expired = true ∧
        w.session.writePc ≠ .idle ∧ w.session.oLock = false ∧
        ∀ n, ownTurns (List.replicate n .spin) = n ∧
          Reaches step Free w (List.replicate n .spin) [] w := by
  have hsummary : (run step (start 0 0 : Deadlined (packetConfig false)) queuedRun).map
      (fun r => (r.1.expired, r.1.session.writePc.work, r.1.session.oLock, r.1.spins)) =
      some (true, 2, false, true) := by
    rfl
  obtain ⟨⟨w, outs⟩, hrun, heq⟩ := Option.map_eq_some_iff.mp hsummary
  simp only [Prod.mk.injEq] at heq
  obtain ⟨hexpired, hwork, hlock, hspins⟩ := heq
  have hspin : w.step .spin = some (w, []) := if_pos hspins
  refine ⟨w, outs, reaches_of_run hrun, hexpired, WritePc.work_pos_iff.mp (by omega), hlock, ?_⟩
  intro n
  refine ⟨List.countP_replicate.trans (if_pos rfl), ?_⟩
  induction n with
  | zero => exact .start
  | succ n ih =>
    rw [List.replicate_succ']
    exact .next ih trivial hspin

end Deadlined

end Mieru.Protocol
