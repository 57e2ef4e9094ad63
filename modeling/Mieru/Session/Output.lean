import Mieru.Session.Effect

/-! # The output loop

On a packet transport a round resends what is due, sends what the window admits and
then acknowledges. On a stream it drains `sendQueue`. -/
namespace Mieru.Protocol

open OrderedTree

def Segment.transmitted (seg : Segment) (nextRecv : UInt32) (now timeout : ℤ) : Segment :=
  { seg.refreshAck nextRecv with
    txCount := seg.txCount + 1, txTime := now, txTimeout := min timeout maxBackOffDuration }

theorem Segment.key_transmitted (seg : Segment) (nextRecv : UInt32) (now timeout : ℤ) :
    (seg.transmitted nextRecv now timeout).key = seg.key :=
  congrArg UInt32.toNat (seg.seq_refreshAck nextRecv)

theorem Segment.key_retransmitted (seg : Segment) (nextRecv : UInt32) (now timeout : ℤ) :
    Segment.key { seg.transmitted nextRecv now timeout with ackCount := 0 } = seg.key :=
  seg.key_transmitted nextRecv now timeout

def Segment.resendDue (iter : Segment) (now : ℤ) : Bool :=
  (earlyRetransmission ≤ iter.ackCount ∧ iter.txCount ≤ earlyRetransmissionLimit) ∨
    iter.txTimeout ≤ now - iter.txTime

def SegmentTree.replace {cap : ℕ} (t : SegmentTree cap) (old new : Segment)
    (hkey : new.key = old.key) : SegmentTree cap :=
  t.modify (fun x => if x.key = old.key then new else x) fun x => by
    split_ifs with h
    · rw [hkey, h]
    · rfl

@[simp] theorem SegmentTree.len_replace {cap : ℕ} (t : SegmentTree cap) {old new : Segment}
    (hkey : new.key = old.key) : (t.replace old new hkey).len = t.len := by
  simp [SegmentTree.replace]

namespace Session

variable {cfg : SessionConfig} (s : Session cfg)

def outputWake (why : OutputWake) : Option (Session cfg × List Event) :=
  match s.outputPc with
  | .waiting =>
    match why with
    | .closed => if s.closedChan then some ({ s with outputPc := .stopped }, []) else none
    | .notEmpty =>
      if s.sendQueue.chanNotEmptyEvent then
        some ({ s with
          sendQueue := { s.sendQueue with chanNotEmptyEvent := false }
          outputPc := .starting }, [])
      else none
    | .timer =>
      if cfg.transportProtocol = .packetTransport then
        some ({ s with outputPc := .starting }, [])
      else none
    | .wakeup =>
      if cfg.transportProtocol = .packetTransport ∧ s.packetOutputWakeup then
        some ({ s with packetOutputWakeup := false, outputPc := .starting }, [])
      else none
  | _ => none

def outputStart (now : ℤ) : Option (Session cfg × List Event) :=
  match s.outputPc with
  | .starting =>
    if s.outputHasErr then some ({ s with outputPc := .waiting }, [])
    else if cfg.transportProtocol = .streamTransport then
      some ({ s with outputPc := .streamLock }, [])
    else if 0 < s.sendBuf.len ∧ s.nextRetransmissionTime ≤ now then
      some ({ s with outputPc := .resendLock }, [])
    else some ({ s with outputPc := .sendCheck 0 }, [])
  | _ => none

def outputLock : Option (Session cfg × List Event) :=
  if s.oLock then none
  else
    match s.outputPc with
    | .resendLock => some ({ s with oLock := true, outputPc := .resending none none 0 }, [])
    | .sendLock total => some ({ s with oLock := true, outputPc := .sending total }, [])
    | .streamLock => some ({ s with oLock := true, outputPc := .streaming }, [])
    | _ => none

def resendCandidate (cursor : Option UInt32) : Option Segment :=
  s.sendBuf.items.find? fun iter => (cursor.map fun c => (c < iter.seq : Bool)).getD true

/-- `Ascend` is left with an error; the session will be closed. -/
@[simp] def resendFailed (nextTX : Option ℤ) (total : ℕ) : Session cfg :=
  { s with
    outputHasErr := true
    nextRetransmissionTime := nextTX.getD s.nextRetransmissionTime
    oLock := false
    outputPc := .failed (.sendCheck total) }

def minTX (nextTX : Option ℤ) (deadline : ℤ) : Option ℤ :=
  some ((nextTX.map fun t => min t deadline).getD deadline)

/-- One segment of the resend phase, or its end. -/
def resendNext (now txTime timeout : ℤ) (fate : Fate) : Option (Session cfg × List Event) :=
  match s.outputPc with
  | .resending cursor nextTX total =>
    match s.resendCandidate cursor with
    | none =>
      some ({ s with
        nextRetransmissionTime := nextTX.getD s.nextRetransmissionTime
        oLock := false
        outputPc := .sendCheck total }, [])
    | some iter =>
      if txCountLimit ≤ iter.txCount then some (s.resendFailed nextTX total, [])
      else if iter.resendDue now then
        let seg := { iter.transmitted s.nextRecv txTime timeout with ackCount := 0 }
        let s := { s with
          sendBuf := s.sendBuf.replace iter seg (iter.key_retransmitted s.nextRecv txTime timeout) }
        match s.output seg fate txTime with
        | (s, false) => some (s.resendFailed nextTX total, [.output seg.toPacket fate])
        | (s, true) =>
          some ({ s with
            outputPc := .resending (some iter.seq) (minTX nextTX (seg.txTime + seg.txTimeout))
              (total + 1) }, [.output seg.toPacket fate])
      else
        some ({ s with
          outputPc := .resending (some iter.seq) (minTX nextTX (iter.txTime + iter.txTimeout))
            total }, [])
  | _ => none

/-- The goroutine closes the session with an error and continues after that. -/
def outputClose : Option (Session cfg × List Event) :=
  match s.outputPc with
  | .failed resume =>
    some (closeWithError { s with outputPc := resume } false .outputLoop, [])
  | _ => none

def sendCheck (cwnd : ℤ) : Option (Session cfg × List Event) :=
  match s.outputPc with
  | .sendCheck total =>
    if 0 < s.sendQueue.len ∧ 0 < s.sendWindowSize cwnd then
      some ({ s with outputPc := .sendLock total }, [])
    else some ({ s with outputPc := .ackCheck }, [])
  | _ => none

/-- No segment may wait for its retransmission longer than its own deadline. -/
def armRetransmission (seg : Segment) : ℤ :=
  let deadline := seg.txTime + seg.txTimeout
  if s.sendBuf.len = 0 then min deadline (seg.txTime + retransmissionCheckDelay)
  else min s.nextRetransmissionTime deadline

@[simp] def sendFailed : Session cfg :=
  { s with outputHasErr := true, oLock := false, outputPc := .failed .ackCheck }

/-- One round of the loop that sends new segments. -/
def sendNext (cwnd now timeout : ℤ) (fate : Fate) : Option (Session cfg × List Event) :=
  match s.outputPc with
  | .sending total =>
    if s.sendBuf.remaining ≤ 1 ∨ s.shouldDeferNextPacketData then
      some ({ s with oLock := false, outputPc := .ackCheck }, [])
    else
      match s.sendQueue.deleteMinIf fun _ => total < s.sendWindowSize cwnd with
      | (none, q) => some ({ s with sendQueue := q, oLock := false, outputPc := .ackCheck }, [])
      | (some seg, q) =>
        let seg := seg.transmitted s.nextRecv now timeout
        let s := { s with sendQueue := q, nextRetransmissionTime := s.armRetransmission seg }
        match s.sendBuf.insert seg with
        | (buf, false) => some (sendFailed { s with sendBuf := buf }, [])
        | (buf, true) =>
          match output { s with sendBuf := buf } seg fate now with
          | (s, false) => some (s.sendFailed, [.output seg.toPacket fate])
          | (s, true) =>
            some ({ s with outputPc := .sending (total + 1) }, [.output seg.toPacket fate])
  | _ => none

def ackCheck (now : ℤ) : Option (Session cfg × List Event) :=
  match s.outputPc with
  | .ackCheck =>
    let ackDue := s.ackOnDataRecv ∧ s.ackDeadline ≤ now
    let exceedHeartbeatInterval :=
      sessionHeartbeatInterval + s.heartbeatJitter < now - s.lastTXTime
    if ¬s.isClientPacketSessionOpening ∧ (ackDue ∨ exceedHeartbeatInterval) then
      some ({ s with outputPc := .ackClear }, [])
    else some ({ s with outputPc := .waiting }, [])
  | _ => none

def ackClear : Option (Session cfg × List Event) :=
  match s.outputPc with
  | .ackClear => some ({ s with ackOnDataRecv := false, outputPc := .ackSend }, [])
  | _ => none

def ackProtocol (isClient : Bool) : ProtocolType :=
  if isClient then .ackClientToServer else .ackServerToClient

theorem isAck_ackProtocol (isClient : Bool) : isAckProtocol (ackProtocol isClient) = true := by
  cases isClient <;> rfl

theorem isDataAck_ackProtocol (isClient : Bool) :
    isDataAckProtocol (ackProtocol isClient) = true := by
  cases isClient <;> rfl

def ackStruct : DataAckStruct where
  protocol := ackProtocol cfg.isClient
  sessionID := cfg.id
  seq := if s.nextSend = 0 then 0 else s.nextSend - 1
  unAckSeq := s.nextRecv
  windowSize := UInt16.ofNat s.receiveWindowSize
  isDataAck := isDataAck_ackProtocol _

/-- The acknowledgement is built and sent under `oLock`. -/
def ackSend (now jitter : ℤ) (fate : Fate) : Option (Session cfg × List Event) :=
  match s.outputPc with
  | .ackSend =>
    if s.oLock then none
    else
      let seg : Segment := { metadata := .dataAck s.ackStruct, payload := [] }
      let s := { s with heartbeatJitter := jitter }
      match s.output seg fate now with
      | (s, false) =>
        some ({ s with outputHasErr := true, outputPc := .failed .waiting },
          [.output seg.toPacket fate])
      | (s, true) => some ({ s with outputPc := .waiting }, [.output seg.toPacket fate])
  | _ => none

def streamNext (now : ℤ) (fate : Fate) : Option (Session cfg × List Event) :=
  match s.outputPc with
  | .streaming =>
    if cfg.transportProtocol = .streamTransport then
      match s.sendQueue.deleteMin with
      | (none, q) => some ({ s with sendQueue := q, oLock := false, outputPc := .waiting }, [])
      | (some seg, q) =>
        match output { s with sendQueue := q } seg fate now with
        | (s, false) =>
          some ({ s with outputHasErr := true, oLock := false, outputPc := .failed .waiting },
            [.output seg.toPacket fate])
        | (s, true) => some (s, [.output seg.toPacket fate])
    else none
  | _ => none

/-! ## Effects -/

section Effects

variable {s} {s' : Session cfg} {evs : List Event}

theorem outputWake_effect {why : OutputWake} (h : s.outputWake why = some (s', evs)) :
    Effect (.outputWake why) s s' evs := by
  unfold outputWake at h
  split at h
  · split at h <;> split_ifs at h <;>
      (cases h; exact .quiet rfl rfl rfl rfl .still (.still rfl) rfl)
  · cases h

theorem outputStart_effect {now : ℤ} (h : s.outputStart now = some (s', evs)) :
    Effect (.outputStart now) s s' evs := by
  unfold outputStart at h
  split at h
  · split_ifs at h <;> (cases h; exact .quiet rfl rfl rfl rfl .still (.still rfl) rfl)
  · cases h

theorem outputLock_effect (h : s.outputLock = some (s', evs)) : Effect .outputLock s s' evs := by
  unfold outputLock at h
  split_ifs at h
  split at h <;> cases h <;> exact .quiet rfl rfl rfl rfl .still (.still rfl) rfl

theorem resendNext_effect {now txTime timeout : ℤ} {fate : Fate}
    (h : s.resendNext now txTime timeout fate = some (s', evs)) :
    Effect (.resendNext now txTime timeout fate) s s' evs := by
  unfold resendNext at h
  split at h
  · split at h
    · cases h
      exact .quiet rfl rfl rfl rfl .still (.still rfl) rfl
    · rename_i iter hiter
      have hmem : iter ∈ s.sendView.buf := List.mem_of_find?_eq_some hiter
      split at h
      · cases h
        exact .quiet rfl rfl rfl rfl .still (.still rfl) rfl
      · split at h
        · dsimp only at h
          split at h
          all_goals
            rename_i hout
            obtain ⟨time, rfl⟩ := output_eq hout
            cases h
            exact .of_send rfl rfl rfl (.retransmit _ hmem rfl) .still (.still rfl)
              (rest_of_len (SegmentTree.len_modify _ _ _) rfl rfl)
        · cases h
          exact .quiet rfl rfl rfl rfl .still (.still rfl) rfl
  · cases h

theorem outputClose_effect (h : s.outputClose = some (s', evs)) : Effect .outputClose s s' evs := by
  unfold outputClose at h
  split at h
  · cases h
    exact .quiet (closeWithError_sendView _ _) (closeWithError_recvView _ _) rfl rfl
      (.closing (closeWithError_ne_idle _ _)) (closeWithError_closes rfl rfl)
      (closeWithError_rest _ _)
  · cases h

theorem sendCheck_effect {cwnd : ℤ} (h : s.sendCheck cwnd = some (s', evs)) :
    Effect (.sendCheck cwnd) s s' evs := by
  unfold sendCheck at h
  split at h
  · split_ifs at h <;> (cases h; exact .quiet rfl rfl rfl rfl .still (.still rfl) rfl)
  · cases h

/-- The check of `sendBuf.Remaining` leaves room for the segment, so it is never lost
between the two trees. -/
theorem sendNext_effect {cwnd now timeout : ℤ} {fate : Fate}
    (h : s.sendNext cwnd now timeout fate = some (s', evs)) :
    Effect (.sendNext cwnd now timeout fate) s s' evs := by
  unfold sendNext at h
  split at h
  · split at h
    · cases h
      exact .quiet rfl rfl rfl rfl .still (.still rfl) rfl
    · rename_i hgo
      split at h
      · rename_i q hq
        cases h
        have hitems := SegmentTree.deleteMinIf_none hq
        refine .quiet ?_ rfl rfl rfl (.of_eq ?_) (.still rfl) rfl
        · simp only [sendView, hitems]
        · simp only [roomView, hitems]
      · rename_i seg q hq
        have hqueue : s.sendView.queue = seg :: q.items := (SegmentTree.deleteMinIf_some hq).2
        have hshort : q.items.length ≤ s.sendView.queue.length := by simp [hqueue]
        have hroom : s.sendBuf.items.length + 1 < segmentTreeCapacity := by
          have hleft : ¬s.sendBuf.remaining ≤ 1 := fun hle => hgo (.inl hle)
          simp only [SegmentTree.remaining, SegmentTree.len] at hleft
          omega
        dsimp only at h
        split at h
        · rename_i buf hbuf
          have hfull := (SegmentTree.insert_false hbuf).1
          change segmentTreeCapacity ≤ s.sendBuf.items.length at hfull
          omega
        · rename_i buf hbuf
          have hitems : buf.items =
              place Segment.key (seg.transmitted s.nextRecv now timeout) s.sendView.buf :=
            (SegmentTree.insert_true hbuf).2
          have hsend {pc' : ClosePc} : SendEffect cfg s.nextRecv s.inputPc.segment s.closePc pc'
              (.sendNext cwnd now timeout fate) s.sendView _
              [.output (seg.transmitted s.nextRecv now timeout).toPacket fate] :=
            .transmit (seg.transmitted s.nextRecv now timeout) hqueue rfl hroom
          rw [← hitems] at hsend
          split at h
          · rename_i hout
            obtain ⟨time, rfl⟩ := output_eq hout
            cases h
            exact .of_send rfl rfl rfl hsend (.take hshort) (.still rfl) rfl
          · rename_i hout
            obtain ⟨time, rfl⟩ := output_eq hout
            cases h
            exact .of_send rfl rfl rfl hsend (.take hshort) (.still rfl) rfl
  · cases h

theorem ackCheck_effect {now : ℤ} (h : s.ackCheck now = some (s', evs)) :
    Effect (.ackCheck now) s s' evs := by
  unfold ackCheck at h
  split at h
  · dsimp only at h
    split_ifs at h <;> (cases h; exact .quiet rfl rfl rfl rfl .still (.still rfl) rfl)
  · cases h

theorem ackClear_effect (h : s.ackClear = some (s', evs)) : Effect .ackClear s s' evs := by
  unfold ackClear at h
  split at h
  · cases h
    exact .quiet rfl rfl rfl rfl .still (.still rfl) rfl
  · cases h

theorem produced_ack : Produced cfg ⟨.dataAck s.ackStruct, []⟩ := by
  have hlow : isLowEntropyProtocol (ackProtocol cfg.isClient) = false := by
    cases cfg.isClient <;> rfl
  simp [Produced, ackStruct, hlow]

theorem ackSend_effect {now jitter : ℤ} {fate : Fate}
    (h : s.ackSend now jitter fate = some (s', evs)) :
    Effect (.ackSend now jitter fate) s s' evs := by
  have hack := isAck_ackProtocol cfg.isClient
  unfold ackSend at h
  split at h
  · split at h
    · cases h
    · dsimp only at h
      split at h
      all_goals
        rename_i hout
        obtain ⟨time, rfl⟩ := output_eq hout
        cases h
        exact .of_send rfl rfl rfl (.acknowledge rfl hack rfl rfl s.produced_ack) .still
          (.still rfl) rfl
  · cases h

theorem streamNext_effect {now : ℤ} {fate : Fate} (h : s.streamNext now fate = some (s', evs)) :
    Effect (.streamNext now fate) s s' evs := by
  unfold streamNext at h
  split at h
  · split at h
    · rename_i hstream
      split at h
      · rename_i q hq
        cases h
        obtain ⟨-, rfl⟩ := SegmentTree.deleteMin_none hq
        exact .quiet rfl rfl rfl rfl .still (.still rfl) rfl
      · rename_i seg q hq
        have hqueue : s.sendView.queue = seg :: q.items := SegmentTree.deleteMin_some hq
        have hshort : q.items.length ≤ s.sendView.queue.length := by simp [hqueue]
        split at h
        · rename_i hout
          obtain ⟨time, rfl⟩ := output_eq hout
          cases h
          exact .of_send rfl rfl rfl (.stream hstream hqueue) (.take hshort) (.still rfl) rfl
        · rename_i hout
          obtain ⟨time, rfl⟩ := output_eq hout
          cases h
          exact .of_send rfl rfl rfl (.stream hstream hqueue) (.take hshort) (.still rfl) rfl
    · cases h
  · cases h

end Effects

end Session

end Mieru.Protocol
