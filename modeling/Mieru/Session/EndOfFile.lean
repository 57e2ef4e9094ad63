import Mieru.Lib.Machine
import Mieru.Session.Step

/-! # Reading up to the end

`Read` looks at `recvQueue` and then waits in a select. Between the two the input loop
may still deliver, and once `closedChan` is closed the select is free to prefer it. -/
namespace Mieru.Protocol

open OrderedTree

def ClosePc.isFinishing : ClosePc → Bool
  | finishing => true
  | _ => false

namespace Session

variable {cfg : SessionConfig}

/-- If `Read` returns `io.EOF` now, nothing is left to read. -/
def EofDrained (s : Session cfg) : Prop :=
  ∀ t evs, s.step (.readWake (some .eof)) = some (t, evs) →
    s.unreadBuf = [] ∧ s.recvQueue.items = []

def nextInOrder (s : Session cfg) : Bool :=
  cfg.transportProtocol = .streamTransport ∨
    (s.recvBuf.items.head?.map fun seg => (seg.seq = s.nextRecv : Bool)).getD false

/-- While `Read` waits, `closedChan` is not closed over a filled `recvQueue`, and nothing is
delivered once it is closed. -/
def closesDrained (s : Session cfg) (a : Action) : Bool :=
  match s.readPc, a with
  | .waiting _, .closeClear => s.closePc.isFinishing → s.recvQueue.items = []
  | .waiting _, .moveNext => s.closedChan → ¬s.nextInOrder
  | _, _ => true

/-- `Read` waits only after it has used up `unreadBuf`. -/
def WaitsEmpty (s : Session cfg) : Prop := ∀ len, s.readPc = .waiting len → s.unreadBuf = []

/-- Nothing is in `recvQueue` when the select may see `closedChan`. -/
def ClosedEmpty (s : Session cfg) : Prop :=
  ∀ len, s.readPc = .waiting len → s.closedChan = true → s.recvQueue.items = []

variable {s s' : Session cfg} {a : Action} {evs : List Event}

theorem readWake_eof {len : ℕ} (hpc : s.readPc = .waiting len) (hclosed : s.closedChan = true) :
    s.step (.readWake (some .eof)) = some ({ s with readPc := .idle }, [.readFailed .eof]) := by
  simp [step, Action.loop, perform, readWake, hpc, hclosed]

theorem eofDrained_iff (hwait : s.WaitsEmpty) : s.EofDrained ↔ s.ClosedEmpty := by
  constructor
  · intro h len hpc hclosed
    exact (h _ _ (readWake_eof hpc hclosed)).2
  · intro h t evs hstep
    simp only [step, Action.loop, Option.map_none, Option.getD_none, Bool.false_eq_true,
      ↓reduceIte, perform, readWake] at hstep
    split at hstep
    · rename_i len hpc
      split at hstep
      · rename_i hready
        have hclosed : s.closedChan = true := by simpa using hready
        exact ⟨hwait len hpc, h len hpc hclosed⟩
      · cases hstep
    · cases hstep

theorem readLoop_waiting {len : ℕ} (h : s.readLoop = some (s', evs))
    (hpc : s'.readPc = .waiting len) : s'.unreadBuf = [] ∧ s'.recvQueue.items = [] := by
  unfold readLoop at h
  split at h
  · dsimp only at h
    split at h
    · cases h
      simp [ReadPc.next] at hpc
      split at hpc <;> cases hpc
    · rename_i hempty
      split at h
      · rename_i q hq
        split_ifs at h
        · cases h
          cases hpc
        · cases h
          exact ⟨not_not.mp hempty, (SegmentTree.deleteMin_none hq).1⟩
      · cases h
        simp [ReadPc.next] at hpc
        split at hpc <;> cases hpc
  · cases h

theorem reader_waiting {len : ℕ} (h : s.perform a = some (s', evs)) (ha : a.party = .reader)
    (hpc : s'.readPc = .waiting len) :
    s'.unreadBuf = [] ∧ s'.recvQueue.items = [] := by
  cases a with
  | readLoop => exact readLoop_waiting h hpc
  | read =>
    simp only [perform, read] at h
    split at h
    · split_ifs at h
      · cases h
        simp_all
      · cases h
        cases hpc
    · cases h
  | readReturn =>
    simp only [perform, readReturn] at h
    split at h
    · cases h
      cases hpc
    · cases h
  | readWake err =>
    simp only [perform, readWake] at h
    split at h
    · split at h
      · split_ifs at h
        cases h
        cases hpc
      · split at h
        · cases h
          cases hpc
        · cases h
    · cases h
  | _ => cases ha

theorem WaitsEmpty.step (hwait : s.WaitsEmpty) (h : s.step a = some (s', evs)) :
    s'.WaitsEmpty := by
  intro len hpc
  by_cases ha : a.party = .reader
  · exact (reader_waiting (perform_of_step h) ha hpc).1
  · obtain ⟨hread, hunread⟩ := (step_effect h).keeps .reader (by simpa [Action.touches] using ha)
    rw [hunread]
    exact hwait len (hread ▸ hpc)

theorem closeClear_closedChan (h : s.closeClear = some (s', evs)) :
    s'.closedChan = (s.closedChan || s.closePc.isFinishing) := by
  unfold closeClear at h
  split at h
  · rename_i hpc
    cases h
    simp [hpc, ClosePc.isFinishing]
  · rename_i hpc
    split at h
    · cases h
    · cases h
      simp [hpc, ClosePc.isFinishing]
  · rename_i hpc
    cases h
    simp [hpc, ClosePc.isFinishing]
  · cases h

theorem moveNext_recvQueue (h : s.moveNext = some (s', evs)) (hempty : s.recvQueue.items = []) :
    s'.recvQueue.items = [] ↔ s.nextInOrder = false := by
  have hplaced {q : SegmentTree segmentTreeCapacity} {seg : Segment}
      (hq : s.recvQueue.insert seg = (q, true)) : q.items ≠ [] := by
    rw [(SegmentTree.insert_true hq).2, hempty]
    exact List.cons_ne_nil _ _
  have haccepts {q : SegmentTree segmentTreeCapacity} {seg : Segment} :
      s.recvQueue.insert seg ≠ (q, false) := by
    intro hq
    have hfull := (SegmentTree.insert_false hq).1
    rw [hempty] at hfull
    exact absurd hfull (by decide)
  unfold moveNext at h
  split at h
  · split at h
    · rename_i hstream
      have horder : s.nextInOrder = true := by simp [nextInOrder, hstream]
      split at h
      · cases h
      · split at h
        · rename_i hq
          exact absurd hq haccepts
        · rename_i hq
          cases h
          simpa [horder] using hplaced hq
    · rename_i hpacket
      split at h
      · rename_i hfull
        rw [SegmentTree.remaining, SegmentTree.len, hempty] at hfull
        exact absurd hfull (by decide)
      · split at h
        · rename_i buf hbuf
          cases h
          refine iff_of_true hempty ?_
          cases hhead : s.recvBuf.items.head? with
          | none => simp [nextInOrder, hpacket, hhead]
          | some seg =>
            have hlt := SegmentTree.head_of_deleteMinIf_none hbuf hhead
            have hne : seg.seq ≠ s.nextRecv := by
              rintro heq
              simp [heq] at hlt
            simp [nextInOrder, hpacket, hhead, hne]
        · rename_i seg buf hbuf
          obtain ⟨hle, hitems⟩ := SegmentTree.deleteMinIf_some hbuf
          split at h
          · rename_i hlt
            cases h
            have hne : seg.seq ≠ s.nextRecv := UInt32.ne_of_lt hlt
            simp [hempty, nextInOrder, hpacket, hitems, hne]
          · rename_i hge
            have hseq : seg.seq = s.nextRecv :=
              UInt32.le_antisymm (of_decide_eq_true hle) (UInt32.not_lt.mp hge)
            have horder : s.nextInOrder = true := by simp [nextInOrder, hitems, hseq]
            split at h
            · rename_i hq
              cases h
              simpa [horder] using hplaced hq
            · rename_i hq
              exact absurd hq haccepts
  · cases h

theorem closesDrained_reader (ha : a.party = .reader) : s.closesDrained a = true := by
  unfold closesDrained
  split <;> first | rfl | cases ha

theorem closesDrained_iff (hclosed : s.ClosedEmpty) (h : s.step a = some (s', evs)) :
    s.closesDrained a = true ↔ s'.ClosedEmpty := by
  have heff := step_effect h
  by_cases hreader : a.party = .reader
  · refine iff_of_true (closesDrained_reader hreader) ?_
    intro len hpc _
    exact (reader_waiting (perform_of_step h) hreader hpc).2
  have hread : s'.readPc = s.readPc := (heff.keeps .reader (by simpa [Action.touches])).1
  by_cases hwaits : ∃ len, s.readPc = .waiting len
  · obtain ⟨len, hpc⟩ := hwaits
    have hiff : s'.ClosedEmpty ↔ (s'.closedChan = true → s'.recvQueue.items = []) := by
      simp [ClosedEmpty, hread, hpc]
    rw [hiff]
    have hqueue := heff.keeps .recvQueue
    have hchan := heff.keeps .closedChan
    cases a with
    | closeClear =>
      have hchan' := closeClear_closedChan (perform_of_step h)
      rw [hqueue rfl, hchan']
      have hbefore := hclosed len hpc
      simp only [closesDrained, hpc]
      grind
    | moveNext =>
      have hmoves := moveNext_recvQueue (perform_of_step h)
      rw [hchan rfl]
      have hbefore := hclosed len hpc
      simp only [closesDrained, hpc]
      grind
    | readLoop => exact absurd rfl hreader
    | _ =>
      rw [hqueue rfl, hchan rfl]
      exact iff_of_true (by simp [closesDrained]) (hclosed len hpc)
  · refine iff_of_true ?_ ?_
    · unfold closesDrained
      split
      · rename_i hpc
        exact absurd ⟨_, hpc⟩ hwaits
      · rename_i hpc
        exact absurd ⟨_, hpc⟩ hwaits
      · rfl
    · intro len hpc
      exact absurd ⟨len, hread ▸ hpc⟩ hwaits

/-- A run passes only through states in which `io.EOF` means that everything was read,
exactly if each of its steps keeps `closedChan` and `recvQueue` apart while `Read` waits. -/
theorem eof_drained_iff {now jitter : ℤ} {es : List Action} {outs : List Event} :
    (Machine.Reaches step (fun s _ => s.EofDrained) (attached now jitter) es outs s ∧
        s.EofDrained) ↔
      Machine.Reaches step (fun s a => s.closesDrained a = true) (attached now jitter) es outs
        s := by
  refine Machine.visited_iff_guarded (J := WaitsEmpty) ?_ ?_ ?_
  · have hwait : (attached now jitter : Session cfg).WaitsEmpty := by
      intro len hpc
      cases hpc
    refine ⟨hwait, (eofDrained_iff hwait).mpr ?_⟩
    intro len hpc
    cases hpc
  · intro s a s' evs hwait hstep
    exact hwait.step hstep
  · intro s a s' evs hwait hdrained hstep
    rw [eofDrained_iff hwait] at hdrained
    rw [eofDrained_iff (hwait.step hstep)]
    exact closesDrained_iff hdrained hstep

def streamServerConfig : SessionConfig where
  id := 1
  isClient := false
  mtu := 1400
  transportProtocol := .streamTransport
  trafficPattern := none

/-- The server finds `recvQueue` empty. Then the client's open request with three bytes and its
close request arrive, and the close is over before `Read` reaches its select. -/
def lateDeliveryRun : List Action := [
  .read 8, .readLoop,
  .receive (openRequestSegment streamServerConfig 0 [1, 2, 3]).toPacket 0, .waitSpace, .moveNext,
  .respond true, .finishInput,
  .receive (closeRequestSegment streamServerConfig 1 statusOK).toPacket 0, .inputClose 0 .sent,
  .closeQueue, .outputWake .notEmpty, .outputStart 0, .outputLock, .streamNext 0 .sent,
  .streamNext 0 .sent, .closePoll, .closeClear, .closeClear, .closeClear]

theorem eof_before_delivered_bytes :
    ∃ (s t : Session streamServerConfig) (outs : List Event),
      Machine.Reaches step Machine.Free (attached 0 0) lateDeliveryRun outs s ∧
      s.step (.readWake (some .eof)) = some (t, [.readFailed .eof]) ∧
      s.recvQueue.items.flatMap (·.payload) = [1, 2, 3] := by
  have hsummary : (Machine.run step (attached 0 0 : Session streamServerConfig)
      lateDeliveryRun).map (fun r => (r.1.recvQueue.items.flatMap (·.payload),
        (r.1.step (.readWake (some .eof))).map Prod.snd)) =
      some ([1, 2, 3], some [.readFailed .eof]) := by
    rfl
  obtain ⟨⟨s, outs⟩, hrun, heq⟩ := Option.map_eq_some_iff.mp hsummary
  obtain ⟨hqueue, heof⟩ := Prod.mk.inj heq
  obtain ⟨⟨t, evs⟩, hstep, rfl⟩ := Option.map_eq_some_iff.mp heof
  exact ⟨s, t, outs, Machine.reaches_of_run hrun, hstep, hqueue⟩

end Session

end Mieru.Protocol
