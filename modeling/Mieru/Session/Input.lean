import Mieru.Session.Effect

/-! # The input loop

`input` takes one segment at a time. On a packet transport it first releases what the
segment acknowledges, then stores the segment in `recvBuf` and moves what is in order
to `recvQueue`. -/
namespace Mieru.Protocol

open OrderedTree ProtocolType

/-- What a peer of the other role may send. -/
def acceptsProtocol (isClient : Bool) (p : ProtocolType) : Bool :=
  if isClient then
    p = openSessionResponse ∨ p = dataServerToClient ∨ p = dataServerToClientLowEntropy ∨
      p = ackServerToClient ∨ p = closeSessionRequest ∨ p = closeSessionResponse
  else
    p = openSessionRequest ∨ p = dataClientToServer ∨ p = dataClientToServerLowEntropy ∨
      p = ackClientToServer ∨ p = closeSessionRequest ∨ p = closeSessionResponse

/-- The trees panic on other protocols. -/
def checkProtocolType (p : ProtocolType) : Bool := isSessionProtocol p ∨ isDataProtocol p

namespace Session

variable {cfg : SessionConfig} (s : Session cfg)

def inputDispatch (cfg : SessionConfig) (seg : Segment) : InputPc :=
  let stream : Bool := cfg.transportProtocol = .streamTransport
  if seg.protocol = openSessionRequest ∨ seg.protocol = openSessionResponse ∨
      isDataProtocol seg.protocol then
    if stream then .waitingSpace seg
    else
      match seg.metadata with
      | .session _ => .requesting seg
      | .dataAck _ => .releasing seg
  else if isAckProtocol seg.protocol then if stream then .idle else .releasing seg
  else .closing seg

def receive (packet : Packet) (now : ℤ) : Option (Session cfg × List Event) :=
  match s.inputPc with
  | .idle =>
    if ¬acceptsProtocol cfg.isClient packet.protocol then
      some ({ s with inputPc := .failed }, [.received packet])
    else
      let lowEntropy : Bool := ¬cfg.isClient ∧ packet.protocol = dataClientToServerLowEntropy
      some ({ s with
        lastRXTime := now
        clientUseLowEntropy := s.clientUseLowEntropy || lowEntropy
        downloadBytes := if cfg.isClient then s.downloadBytes else some (s.downloadBytes.getD 0)
        inputPc := inputDispatch cfg { toPacket := packet } }, [.received packet])
  | _ => none

/-- One round of the loop that deletes acknowledged segments from `sendBuf`. -/
def releaseNext : Option (Session cfg × List Event) :=
  match s.inputPc with
  | .releasing seg =>
    match seg.metadata with
    | .session _ => none
    | .dataAck das =>
      if s.sendBufLocked then none
      else
        match s.sendBuf.deleteMinIf fun iter => iter.seq < das.unAckSeq with
        | (some _, buf) => some ({ s with sendBuf := buf }, [])
        | (none, buf) =>
          some ({ s with
            sendBuf := buf
            remoteWindowSize := das.windowSize.toUInt32
            inputPc := if isAckProtocol das.protocol then .counting seg else .requesting seg }, [])
  | _ => none

def requestAck (now : ℤ) : Option (Session cfg × List Event) :=
  match s.inputPc with
  | .requesting seg =>
    some ({ s.wakeIfQueued.requestPacketAck now with inputPc := .accepting seg }, [])
  | _ => none

/-- The segment is dropped if the window is closed or `recvBuf` is full. -/
def accept : Option (Session cfg × List Event) :=
  match s.inputPc with
  | .accepting seg =>
    if s.receiveWindowSize = 0 then some ({ s with inputPc := .finishing seg }, [])
    else if ¬checkProtocolType seg.protocol then none
    else
      match s.recvBuf.insert seg with
      | (buf, false) => some ({ s with recvBuf := buf, inputPc := .finishing seg }, [])
      | (buf, true) => some ({ s with recvBuf := buf, inputPc := .waitingSpace seg }, [])
  | _ => none

/-- A server still has to answer the open session request. -/
def afterData (seg : Segment) : InputPc :=
  if ¬cfg.isClient ∧ seg.protocol = openSessionRequest ∧ s.state = .attached then .responding seg
  else .finishing seg

def waitSpace : Option (Session cfg × List Event) :=
  match s.inputPc with
  | .waitingSpace seg =>
    if s.closedChan then
      if cfg.transportProtocol = .streamTransport then
        some ({ s with inputPc := s.afterData seg }, [])
      else some ({ s with inputPc := .requestingAgain seg }, [])
    else if s.recvQueue.remaining = 0 then none
    else some ({ s with inputPc := .moving seg }, [])
  | _ => none

def windowOf (seg : Segment) (old : UInt32) : UInt32 :=
  match seg.metadata with
  | .session _ => old
  | .dataAck das => das.windowSize.toUInt32

/-- One round of `moveRecvBufToRecvQueue`. A stream delivers the segment directly. -/
def moveNext : Option (Session cfg × List Event) :=
  match s.inputPc with
  | .moving hand =>
    if cfg.transportProtocol = .streamTransport then
      if ¬checkProtocolType hand.protocol then none
      else
        match s.recvQueue.insert hand with
        | (q, false) => some ({ s with recvQueue := q, inputPc := .failed }, [])
        | (q, true) =>
          some ({ s with recvQueue := q, inputPc := s.afterData hand }, [.moved hand])
    else if s.recvQueue.remaining = 0 then some ({ s with inputPc := .requestingAgain hand }, [])
    else
      match s.recvBuf.deleteMinIf fun iter => iter.seq ≤ s.nextRecv with
      | (none, buf) => some ({ s with recvBuf := buf, inputPc := .requestingAgain hand }, [])
      | (some seg, buf) =>
        if seg.seq < s.nextRecv then some ({ s with recvBuf := buf }, [])
        else
          match s.recvQueue.insert seg with
          | (q, true) =>
            some ({ s with
              recvBuf := buf
              recvQueue := q
              nextRecv := s.nextRecv + 1
              remoteWindowSize := windowOf seg s.remoteWindowSize }, [.moved seg])
          | (q, false) =>
            match buf.insert seg with
            | (buf, true) =>
              some ({ s with
                recvBuf := buf, recvQueue := q, inputPc := .requestingAgain hand }, [])
            | (buf, false) =>
              some ({ s with recvBuf := buf, recvQueue := q, inputPc := .failed }, [])
  | _ => none

def requestAckAgain (now : ℤ) : Option (Session cfg × List Event) :=
  match s.inputPc with
  | .requestingAgain seg =>
    some ({ s.requestPacketAck now with inputPc := s.afterData seg }, [])
  | _ => none

def openResponseSegment (cfg : SessionConfig) (seq : UInt32) : Segment where
  metadata := .session {
    protocol := .openSessionResponse, sessionID := cfg.id, seq := seq }
  payload := []

/-- The server answers the open session request, or closes if the quota is used up. -/
def respond (quotaOK : Bool) : Option (Session cfg × List Event) :=
  match s.inputPc with
  | .responding seg =>
    if s.oLock then none
    else if ¬quotaOK then
      some (closeWithError { s with status := statusQuotaExhausted, inputPc := .finishing seg }
        true .inputLoop, [])
    else
      let response := openResponseSegment cfg s.nextSend
      let s := { s with nextSend := s.nextSend + 1 }
      match s.sendQueue.insert response with
      | (q, false) =>
        some ({ s with sendQueue := q, inputPc := .failed }, [.created response false])
      | (q, true) =>
        some (forwardStateTo { s with sendQueue := q, inputPc := .finishing seg } .established,
          [.created response true])
  | _ => none

def finishInput : Option (Session cfg × List Event) :=
  match s.inputPc with
  | .finishing seg =>
    let s' := { s with inputPc := .idle }
    if s.isClientPacketSessionOpening ∧ seg.protocol = openSessionResponse then
      some ((s'.forwardStateTo .established).wakePacketOutput, [])
    else some (s', [])
  | _ => none

def countAckOf (unAckSeq : UInt32) (seg : Segment) : Segment :=
  if seg.seq = unAckSeq then { seg with ackCount := seg.ackCount + 1 } else seg

theorem toPacket_countAckOf (unAckSeq : UInt32) (seg : Segment) :
    (countAckOf unAckSeq seg).toPacket = seg.toPacket := by
  unfold countAckOf
  split_ifs <;> rfl

theorem key_countAckOf (unAckSeq : UInt32) (seg : Segment) :
    (countAckOf unAckSeq seg).key = seg.key :=
  congrArg (fun p : Packet => p.seq.toNat) (toPacket_countAckOf unAckSeq seg)

def countAck : Option (Session cfg × List Event) :=
  match s.inputPc with
  | .counting seg =>
    match seg.metadata with
    | .session _ => none
    | .dataAck das =>
      if s.sendBufLocked then none
      else
        let buf := s.sendBuf.modify (countAckOf das.unAckSeq) (key_countAckOf das.unAckSeq)
        some (wakeIfQueued { s with sendBuf := buf, inputPc := .idle }, [])
  | _ => none

def closeResponseSegment (cfg : SessionConfig) (seq : UInt32) : Segment where
  metadata := .session {
    protocol := .closeSessionResponse, sessionID := cfg.id, seq := seq, statusCode := statusOK }
  payload := []

/-- `inputClose`, up to the moment `Close` has been requested. -/
def inputClose (now : ℤ) (fate : Fate) : Option (Session cfg × List Event) :=
  match s.inputPc with
  | .closing seg =>
    if s.oLock then none
    else if seg.protocol = closeSessionRequest then
      let response := closeResponseSegment cfg s.nextSend
      let s := { s with nextSend := s.nextSend + 1 }
      match s.output response fate now with
      | (s, false) =>
        some (closeWithError { s with inputHasErr := true, inputPc := .stopped } false .inputLoop,
          [.created response false, .output response.toPacket fate])
      | (s, true) =>
        some (closeWithError { s with inputPc := .idle } true .inputLoop,
          [.created response false, .output response.toPacket fate])
    else some (closeWithError { s with inputPc := .idle } true .inputLoop, [])
  | _ => none

def inputFail : Option (Session cfg × List Event) :=
  match s.inputPc with
  | .failed =>
    some (closeWithError { s with inputHasErr := true, inputPc := .stopped } false .inputLoop, [])
  | _ => none

def inputStop : Option (Session cfg × List Event) :=
  match s.inputPc with
  | .idle => if s.closedChan then some ({ s with inputPc := .stopped }, []) else none
  | _ => none

/-! ## Effects -/

section Effects

variable {s} {s' : Session cfg} {evs : List Event}

theorem wakeIfQueued_eq : ∃ wakeup, s.wakeIfQueued = { s with packetOutputWakeup := wakeup } := by
  unfold wakeIfQueued
  split_ifs
  · exact ⟨true, rfl⟩
  · exact ⟨s.packetOutputWakeup, rfl⟩

theorem requestPacketAck_eq (now : ℤ) : ∃ wakeup deadline onDataRecv,
    s.requestPacketAck now =
      { s with
        packetOutputWakeup := wakeup, ackDeadline := deadline, ackOnDataRecv := onDataRecv } := by
  unfold requestPacketAck
  split_ifs
  · exact ⟨s.packetOutputWakeup, s.ackDeadline, s.ackOnDataRecv, rfl⟩
  · exact ⟨true, _, true, rfl⟩

theorem recvView_inputPc {pc : InputPc} (h : pc.segment = s.inputPc.segment) :
    recvView { s with inputPc := pc } = s.recvView := by
  simp only [recvView, h]

theorem room_inputPc {pc : InputPc} {pc' : ClosePc} (h : pc.isResponding = false) :
    RoomEffect cfg pc' s.roomView (roomView { s with inputPc := pc }) [] := by
  simp only [roomView, h]
  exact .leave

theorem room_afterData (seg : Segment) {pc' : ClosePc} :
    RoomEffect cfg pc' s.roomView (roomView { s with inputPc := s.afterData seg }) [] := by
  unfold afterData
  split_ifs with h
  · exact .ask (Bool.eq_false_iff.mpr h.1) h.2.2
  · exact .leave

theorem segment_afterData (seg : Segment) : (s.afterData seg).segment = some seg := by
  unfold afterData
  split_ifs <;> rfl

theorem segment_inputDispatch (cfg : SessionConfig) (seg : Segment) :
    (inputDispatch cfg seg).segment = none ∨ (inputDispatch cfg seg).segment = some seg := by
  unfold inputDispatch
  dsimp only
  split_ifs
  · exact .inr rfl
  · split <;> exact .inr rfl
  · exact .inl rfl
  · exact .inr rfl
  · exact .inr rfl

theorem isResponding_inputDispatch (cfg : SessionConfig) (seg : Segment) :
    (inputDispatch cfg seg).isResponding = false := by
  unfold inputDispatch
  dsimp only
  split_ifs
  · rfl
  · split <;> rfl
  · rfl
  · rfl
  · rfl

theorem isAckProtocol_of_checkProtocolType {p : ProtocolType} (h : checkProtocolType p = true) :
    isAckProtocol p = false := by
  cases p <;> first | rfl | cases h

theorem receive_effect {packet : Packet} {now : ℤ} (h : s.receive packet now = some (s', evs)) :
    Effect (.receive packet now) s s' evs := by
  unfold receive at h
  split at h
  · rename_i hpc
    have hnone : s.inputPc.segment = none := by rw [hpc]; rfl
    split at h
    · cases h
      refine .of_recv rfl rfl ?_ .leave (.still rfl) rfl
      have hview : recvView { s with inputPc := .failed } = s.recvView :=
        recvView_inputPc hnone.symm
      rw [hview]
      exact .ignore
    · cases h
      refine .of_recv rfl rfl ?_ (room_inputPc (isResponding_inputDispatch cfg _)) (.still rfl) rfl
      rcases segment_inputDispatch cfg { toPacket := packet } with hseg | hseg
      · simp only [recvView, hseg, hnone]
        exact .ignore
      · simp only [recvView, hseg]
        exact .take
  · cases h

theorem releaseNext_effect (h : s.releaseNext = some (s', evs)) : Effect .releaseNext s s' evs := by
  unfold releaseNext at h
  split at h
  · rename_i seg hpc
    have hhand : s.inputPc.segment = some seg := by rw [hpc]; rfl
    split at h
    · cases h
    · rename_i das hmeta
      split at h
      · cases h
      · split at h
        · rename_i old buf hbuf
          cases h
          obtain ⟨hlt, hitems⟩ := SegmentTree.deleteMinIf_some hbuf
          exact .of_send rfl rfl rfl
            (.release hitems hhand hmeta (of_decide_eq_true hlt)) .still (.still rfl) rfl
        · rename_i buf hbuf
          cases h
          refine .quiet ?_ ?_ rfl rfl (room_inputPc ?_) (.still rfl) rfl
          · simp only [sendView, SegmentTree.deleteMinIf_none hbuf]
          · refine recvView_inputPc ?_
            rw [hhand]
            split_ifs <;> rfl
          · split_ifs <;> rfl
  · cases h

theorem requestAck_effect {now : ℤ} (h : s.requestAck now = some (s', evs)) :
    Effect (.requestAck now) s s' evs := by
  unfold requestAck at h
  split at h
  · rename_i seg hpc
    have hhand : s.inputPc.segment = some seg := by rw [hpc]; rfl
    obtain ⟨wakeup, hwake⟩ := s.wakeIfQueued_eq
    rw [hwake] at h
    obtain ⟨wakeup', deadline, onDataRecv, hack⟩ := requestPacketAck_eq
      (s := { s with packetOutputWakeup := wakeup }) now
    rw [hack] at h
    cases h
    exact .quiet rfl (recvView_inputPc hhand.symm) rfl rfl .leave (.still rfl) rfl
  · cases h

theorem accept_effect (h : s.accept = some (s', evs)) : Effect .accept s s' evs := by
  unfold accept at h
  split at h
  · rename_i seg hpc
    have hhand : s.inputPc.segment = some seg := by rw [hpc]; rfl
    split at h
    · cases h
      exact .quiet rfl (recvView_inputPc hhand.symm) rfl rfl .leave (.still rfl) rfl
    · rename_i hopen
      have hroom : s.recvBuf.items.length + s.recvQueue.items.length < segmentTreeCapacity := by
        simp only [receiveWindowSize, SegmentTree.len] at hopen
        omega
      split at h
      · cases h
      · rename_i htype
        split at h
        · rename_i buf hbuf
          cases h
          refine .quiet rfl ?_ rfl rfl .leave (.still rfl) rfl
          simp only [recvView, hpc, (SegmentTree.insert_false hbuf).2, InputPc.segment]
        · rename_i buf hbuf
          cases h
          refine .of_recv rfl rfl ?_ .leave (.still rfl) rfl
          have hview : recvView { s with recvBuf := buf, inputPc := .waitingSpace seg } =
              { s.recvView with recvBuf := place Segment.key seg s.recvBuf.items } := by
            simp only [recvView, hpc, (SegmentTree.insert_true hbuf).2, InputPc.segment]
          rw [hview]
          refine .buffer hhand (isAckProtocol_of_checkProtocolType ?_) hroom
          exact not_not.mp htype
  · cases h

theorem waitSpace_effect (h : s.waitSpace = some (s', evs)) : Effect .waitSpace s s' evs := by
  unfold waitSpace at h
  split at h
  · rename_i seg hpc
    have hhand : s.inputPc.segment = some seg := by rw [hpc]; rfl
    have hafter := (s.segment_afterData seg).trans hhand.symm
    split at h
    · split at h
      · cases h
        exact .quiet rfl (recvView_inputPc hafter) rfl rfl (s.room_afterData seg) (.still rfl) rfl
      · cases h
        exact .quiet rfl (recvView_inputPc hhand.symm) rfl rfl .leave (.still rfl) rfl
    · split at h
      · cases h
      · cases h
        exact .quiet rfl (recvView_inputPc hhand.symm) rfl rfl .leave (.still rfl) rfl
  · cases h

/-- The check of `recvQueue.Remaining` makes the way back into `recvBuf` dead. -/
theorem moveNext_effect (h : s.moveNext = some (s', evs)) : Effect .moveNext s s' evs := by
  unfold moveNext at h
  split at h
  · rename_i hand hpc
    have hhand : s.inputPc.segment = some hand := by rw [hpc]; rfl
    have hafter := (s.segment_afterData hand).trans hhand.symm
    split at h
    · rename_i hstream
      split at h
      · cases h
      split at h
      · rename_i q hq
        cases h
        refine .of_recv rfl rfl ?_ .leave (.still rfl) rfl
        simp only [recvView, (SegmentTree.insert_false hq).2]
        exact .drop
      · rename_i q hq
        cases h
        refine .of_recv rfl rfl ?_ (s.room_afterData hand) (.still rfl) rfl
        simp only [recvView, (SegmentTree.insert_true hq).2, hafter]
        exact .deliver hstream hhand
    split at h
    · cases h
      exact .quiet rfl (recvView_inputPc hhand.symm) rfl rfl .leave (.still rfl) rfl
    · rename_i hroom
      split at h
      · rename_i buf hbuf
        cases h
        refine .quiet rfl ?_ rfl rfl .leave (.still rfl) rfl
        simp only [recvView, hpc, SegmentTree.deleteMinIf_none hbuf, InputPc.segment]
      · rename_i seg buf hbuf
        obtain ⟨hle, hitems⟩ := SegmentTree.deleteMinIf_some hbuf
        split at h
        · cases h
          exact .of_recv rfl rfl (.discard hitems) .still (.still rfl) rfl
        · rename_i hge
          have hseq : seg.seq = s.nextRecv :=
            UInt32.le_antisymm (of_decide_eq_true hle) (UInt32.not_lt.mp hge)
          split at h
          · rename_i q hq
            cases h
            refine .of_recv rfl rfl ?_ .still (.still rfl) rfl
            simp only [recvView, (SegmentTree.insert_true hq).2]
            exact .move hitems hseq
          · rename_i q hq
            have hfull := (SegmentTree.insert_false hq).1
            simp only [SegmentTree.remaining, SegmentTree.len] at hroom
            omega
  · cases h

theorem requestAckAgain_effect {now : ℤ} (h : s.requestAckAgain now = some (s', evs)) :
    Effect (.requestAckAgain now) s s' evs := by
  unfold requestAckAgain at h
  split at h
  · rename_i seg hpc
    have hhand : s.inputPc.segment = some seg := by rw [hpc]; rfl
    obtain ⟨wakeup, deadline, onDataRecv, hack⟩ := s.requestPacketAck_eq now
    rw [hack] at h
    cases h
    exact .quiet rfl (recvView_inputPc ((s.segment_afterData seg).trans hhand.symm)) rfl rfl
      (s.room_afterData seg) (.still rfl) rfl
  · cases h

theorem respond_effect {quotaOK : Bool} (h : s.respond quotaOK = some (s', evs)) :
    Effect (.respond quotaOK) s s' evs := by
  unfold respond at h
  split at h
  · rename_i seg hpc
    have hhand : s.inputPc.segment = some seg := by rw [hpc]; rfl
    have hresponding : s.roomView.responding = true := congrArg InputPc.isResponding hpc
    split at h
    · cases h
    · split at h
      · cases h
        refine .quiet (closeWithError_sendView _ _) ((closeWithError_recvView _ _).trans ?_) rfl rfl
          (.closing (closeWithError_ne_idle _ _)) (closeWithError_closes rfl rfl)
          (closeWithError_rest _ _)
        exact recvView_inputPc (s := { s with status := statusQuotaExhausted }) hhand.symm
      · dsimp only at h
        split at h
        · rename_i q hq
          cases h
          obtain ⟨hfull, hitems⟩ := SegmentTree.insert_false hq
          refine .of_both ?_ .drop (.answerRefused hresponding hfull) (.still rfl) rfl
          simp only [sendView, hitems]
          exact .lose rfl
        · rename_i q hq
          obtain ⟨state, hstate, heq⟩ := forwardStateTo_established
            (s := { s with
              nextSend := s.nextSend + 1, sendQueue := q, inputPc := .finishing seg })
          rw [heq] at h
          cases h
          exact .of_queued hq rfl (produced_session rfl rfl rfl) rfl
            (recvView_inputPc (s := { s with nextSend := s.nextSend + 1, sendQueue := q })
              hhand.symm) rfl rfl (fun hn => .answer hresponding hn hstate)
            (.still rfl) rfl
  · cases h

theorem finishInput_effect (h : s.finishInput = some (s', evs)) : Effect .finishInput s s' evs := by
  unfold finishInput at h
  split at h
  · dsimp only at h
    split at h
    · rename_i hopen
      have hclient : cfg.isClient = true := (of_decide_eq_true hopen.1).1
      obtain ⟨state, hstate, heq⟩ := forwardStateTo_established (s := { s with inputPc := .idle })
      rw [heq] at h
      cases h
      exact .of_recv rfl rfl .drop
        (.establish hclient hstate Bool.false_ne_true.elim) (.still rfl) rfl
    · cases h
      exact .of_recv rfl rfl .drop .leave (.still rfl) rfl
  · cases h

theorem countAck_effect (h : s.countAck = some (s', evs)) : Effect .countAck s s' evs := by
  unfold countAck at h
  split at h
  · split at h
    · cases h
    · rename_i das hmeta
      split at h
      · cases h
      · dsimp only at h
        obtain ⟨wakeup, hwake⟩ := wakeIfQueued_eq (s := { s with
          sendBuf := s.sendBuf.modify (countAckOf das.unAckSeq) (key_countAckOf das.unAckSeq)
          inputPc := .idle })
        rw [hwake] at h
        cases h
        exact .of_both (.touch (toPacket_countAckOf das.unAckSeq)) .drop .leave (.still rfl)
          (rest_of_len (SegmentTree.len_modify _ _ _) rfl rfl)
  · cases h

theorem reply_effect {now : ℤ} {fate : Fate} {graceful : Bool} {pc : InputPc} {time : ℤ}
    {err : Bool} (hpc : pc.segment = none) :
    Effect (.inputClose now fate) s
      (closeWithError { s with
        nextSend := s.nextSend + 1
        lastSend := fate.lastSend s.nextSend s.lastSend
        lastTXTime := time
        inputHasErr := err
        inputPc := pc } graceful .inputLoop)
      [.created (closeResponseSegment cfg s.nextSend) false,
        .output (closeResponseSegment cfg s.nextSend).toPacket fate] := by
  have hproto : (closeResponseSegment cfg s.nextSend).protocol = .closeSessionResponse := rfl
  refine .of_both ?_ ?_ (.closing (closeWithError_ne_idle _ _)) (closeWithError_closes rfl rfl)
    (closeWithError_rest _ _)
  · rw [closeWithError_sendView]
    exact .reply rfl (closeWithError_ne_idle _ _) rfl (produced_session rfl rfl rfl) hproto
  · rw [closeWithError_recvView]
    simp only [recvView, hpc]
    exact .drop

theorem inputClose_effect {now : ℤ} {fate : Fate} (h : s.inputClose now fate = some (s', evs)) :
    Effect (.inputClose now fate) s s' evs := by
  unfold inputClose at h
  split at h
  · split at h
    · cases h
    · split at h
      · dsimp only at h
        split at h
        · rename_i t hout
          obtain ⟨time, rfl⟩ := output_eq hout
          cases h
          exact reply_effect rfl
        · rename_i t hout
          obtain ⟨time, rfl⟩ := output_eq hout
          cases h
          exact reply_effect rfl
      · cases h
        refine .of_recv (closeWithError_sendView _ _) rfl ?_
          (.closing (closeWithError_ne_idle _ _)) (closeWithError_closes rfl rfl)
          (closeWithError_rest _ _)
        rw [closeWithError_recvView]
        exact .drop
  · cases h

theorem inputFail_effect (h : s.inputFail = some (s', evs)) : Effect .inputFail s s' evs := by
  unfold inputFail at h
  split at h
  · rename_i hpc
    cases h
    refine .quiet (closeWithError_sendView _ _) ((closeWithError_recvView _ _).trans ?_) rfl rfl
      (.closing (closeWithError_ne_idle _ _)) (closeWithError_closes rfl rfl)
      (closeWithError_rest _ _)
    simp only [recvView, hpc, InputPc.segment]
  · cases h

theorem inputStop_effect (h : s.inputStop = some (s', evs)) : Effect .inputStop s s' evs := by
  unfold inputStop at h
  split at h
  · rename_i hpc
    split at h
    · cases h
      refine .quiet rfl ?_ rfl rfl .leave (.still rfl) rfl
      simp only [recvView, hpc, InputPc.segment]
    · cases h
  · cases h

end Effects

end Session

end Mieru.Protocol
