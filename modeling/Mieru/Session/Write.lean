import Mieru.Session.Effect

/-! # `Write` and `Read`

`Write` cuts its argument into chunks and a chunk into fragments. The fragments of a
chunk are queued under `oLock`, one step each. `Read` copies from `unreadBuf` and
then from `recvQueue`. -/
namespace Mieru.Protocol

open LowEntropy OrderedTree TrafficPattern

namespace Session

variable {cfg : SessionConfig} (s : Session cfg)

def write (b : Bytes) : Option (Session cfg × List Event) :=
  match s.writePc with
  | .idle =>
    if s.closeRequested then some (s, [.wrote 0 (some .closedPipe)])
    else if s.state.rank < SessionState.attached.rank then
      some (s, [.wrote 0 (some .notReadyForWrite)])
    else if SessionState.closed.rank ≤ s.state.rank then some (s, [.wrote 0 (some .closedPipe)])
    else some ({ s with writePc := .opening b }, [])
  | _ => none

def openRequestSegment (cfg : SessionConfig) (seq : UInt32) (payload : Bytes) : Segment where
  metadata := .session {
    protocol := .openSessionRequest, sessionID := cfg.id, seq := seq,
    payloadLen := UInt16.ofNat payload.length }
  payload := payload

/-- Low entropy data does not fit in a session message, so nothing is piggybacked then. -/
def piggyback (b : Bytes) : Bytes :=
  let (_, _, sendLowEntropy) := s.lowEntropySendConfig
  if ¬sendLowEntropy ∧ b.length ≤ maxSessionOpenPayload then b else []

/-- Before the first write a client queues the open session request. -/
def writeOpen : Option (Session cfg × List Event) :=
  match s.writePc with
  | .opening b =>
    if cfg.isClient ∧ s.state = .attached ∧ s.openSessionRequestSent = false then
      some ({ s with openSessionRequestSent := true, writePc := .requesting b }, [])
    else some ({ s with writePc := .writing b 0 }, [])
  | _ => none

def writeRequest : Option (Session cfg × List Event) :=
  match s.writePc with
  | .requesting b =>
    if s.oLock then none
    else
      let payload := s.piggyback b
      let seg := openRequestSegment cfg s.nextSend payload
      let s := { s with nextSend := s.nextSend + 1 }
      match s.sendQueue.insert seg with
      | (q, false) =>
        some ({ s with sendQueue := q, writePc := .idle },
          [.created seg false, .wrote 0 (some .insertFailed)])
      | (q, true) =>
        if payload ≠ [] then
          some ({ s with sendQueue := q, writePc := .idle },
            [.created seg true, .wrote payload.length none])
        else some ({ s with sendQueue := q, writePc := .writing b 0 }, [.created seg true])
  | _ => none

/-- Only a server whose user is known counts. -/
def countDownload (n : ℕ) : Option ℕ :=
  if cfg.isClient then s.downloadBytes else s.downloadBytes.map (· + n)

/-- The top of the chunk loop. A fragment size of zero divides by zero and panics. -/
def writeChunk : Option (Session cfg × List Event) :=
  match s.writePc with
  | .writing b n =>
    if b = [] then
      some ({ s with writePc := .idle, downloadBytes := s.countDownload n }, [.wrote n none])
    else
      match hconfig : s.lowEntropySendConfig with
      | (mode, rotation, sendLowEntropy) =>
        match hsize : maxFragmentSize cfg.mtu cfg.transportProtocol mode with
        | .error msg => some ({ s with writePc := .idle }, [.wrote n (some (.other msg))])
        | .ok 0 => none
        | .ok (fragmentSize + 1) =>
          let c : Chunk cfg := {
            lowEntropyMode := mode
            lowEntropyRotation := rotation
            sendLowEntropy := sendLowEntropy
            seqBeforeWrite := s.sendQueue.minSeq.getD 0
            fragmentSize := fragmentSize + 1
            data := b.take maxPDU
            rest := b.drop maxPDU
            written := n
            configured := s.configured_lowEntropySendConfig hconfig
            sized := hsize
            data_le := List.length_take_le maxPDU b }
          some ({ s with writePc := .reserving c }, [])
  | _ => none

/-- Leaves the back pressure loop; one slot stays free for `Close`. -/
def writeReserve : Option (Session cfg × List Event) :=
  match s.writePc with
  | .reserving c =>
    if s.sendQueue.remaining ≤ c.nFragment then none
    else some ({ s with writePc := .locking c }, [])
  | _ => none

def writeLock : Option (Session cfg × List Event) :=
  match s.writePc with
  | .locking c =>
    if s.oLock then none
    else some ({ s with oLock := true, writePc := .fragmenting c c.nFragment 0 }, [])
  | _ => none

def dataProtocol (isClient sendLowEntropy : Bool) : ProtocolType :=
  match isClient, sendLowEntropy with
  | true, false => .dataClientToServer
  | true, true => .dataClientToServerLowEntropy
  | false, false => .dataServerToClient
  | false, true => .dataServerToClientLowEntropy

theorem isDataAck_dataProtocol (isClient low : Bool) :
    isDataAckProtocol (dataProtocol isClient low) = true := by
  cases isClient <;> cases low <;> rfl

def fragmentSegment (c : Chunk cfg) (fragment : ℕ) (part : Bytes) (payloadLen : UInt16) :
    Segment where
  metadata := .dataAck {
    protocol := dataProtocol cfg.isClient c.sendLowEntropy
    sessionID := cfg.id
    seq := s.nextSend
    unAckSeq := s.nextRecv
    windowSize := UInt16.ofNat s.receiveWindowSize
    fragment := UInt8.ofNat fragment
    payloadLen := payloadLen
    lowEntropyMode := if c.sendLowEntropy then UInt8.ofNat c.lowEntropyMode.toNat else 0
    extractedPayloadLen := if c.sendLowEntropy then UInt16.ofNat part.length else 0
    lowEntropyMaskRotation :=
      if c.sendLowEntropy then UInt8.ofNat c.lowEntropyRotation.toNat else 0
    isDataAck := isDataAck_dataProtocol _ _ }
  payload := part

def fragmentPayloadLen (c : Chunk cfg) (partLen : ℕ) : Except String UInt16 :=
  if c.sendLowEntropy then lowEntropyEncodedPayloadLen partLen c.lowEntropyMode
  else .ok (UInt16.ofNat partLen)

def writeFragment : Option (Session cfg × List Event) :=
  match s.writePc with
  | .fragmenting c (left + 1) offset =>
    if s.closedChan ∨ s.outputHasErr then none
    else
      let ptr := c.data.drop offset
      let partLen := min c.fragmentSize ptr.length
      let part := ptr.take partLen
      match fragmentPayloadLen c partLen with
      | .error msg =>
        some ({ s with oLock := false, writePc := .idle }, [.wrote c.written (some (.other msg))])
      | .ok payloadLen =>
        let seg := s.fragmentSegment c left part payloadLen
        let s := { s with nextSend := s.nextSend + 1 }
        match s.sendQueue.insert seg with
        | (q, false) =>
          some ({ s with sendQueue := q, oLock := false, writePc := .idle },
            [.created seg false, .wrote c.written (some .insertFailed)])
        | (q, true) =>
          if left = 0 then
            some ({ s with sendQueue := q, oLock := false, writePc := .draining c },
              [.created seg true])
          else
            some ({ s with sendQueue := q, writePc := .fragmenting c left (offset + partLen) },
              [.created seg true])
  | _ => none

/-- `closedChan`, `outputErr` or the deadline interrupts `writeChunk`. -/
def writeAbort (err : SessionError) : Option (Session cfg × List Event) :=
  let ready := (err = .eof ∧ s.closedChan) ∨ (err = .closedPipe ∧ s.outputHasErr) ∨ err = .timeout
  if ¬ready then none
  else
    match s.writePc with
    | .reserving c =>
      if s.sendQueue.remaining ≤ c.nFragment then
        some ({ s with writePc := .idle }, [.wrote c.written (some err)])
      else none
    | .fragmenting c (_ + 1) _ =>
      some ({ s with oLock := false, writePc := .idle }, [.wrote c.written (some err)])
    | _ => none

/-- `writeChunk` returns once `sendQueue` is empty or moving. -/
def writeDrain : Option (Session cfg × List Event) :=
  match s.writePc with
  | .draining c =>
    let next := WritePc.writing c.rest (c.written + c.data.length)
    if s.sendQueue.chanEmptyEvent then
      some ({ s with
        sendQueue := { s.sendQueue with chanEmptyEvent := false }, writePc := next }, [])
    else
      match s.sendQueue.minSeq with
      | none => some ({ s with writePc := next }, [])
      | some seqAfterWrite =>
        if c.seqBeforeWrite < seqAfterWrite then some ({ s with writePc := next }, []) else none
  | _ => none

def read (len : ℕ) : Option (Session cfg × List Event) :=
  match s.readPc with
  | .idle =>
    if len = 0 then some (s, [.returned []])
    else some ({ s with readPc := .looping len [] }, [])
  | _ => none

def readLoop : Option (Session cfg × List Event) :=
  match s.readPc with
  | .looping len acc =>
    if s.unreadBuf ≠ [] then
      let copied := min (len - acc.length) s.unreadBuf.length
      let acc := acc ++ s.unreadBuf.take copied
      let rest := s.unreadBuf.drop copied
      let pc := ReadPc.next (acc.length = len ∨ rest ≠ []) len acc
      some ({ s with unreadBuf := rest, readPc := pc }, [])
    else
      match s.recvQueue.deleteMin with
      | (none, _) =>
        if acc ≠ [] then some ({ s with readPc := .returning acc }, [])
        else some ({ s with readPc := .waiting len }, [])
      | (some seg, q) =>
        let copied := min (len - acc.length) seg.payload.length
        let acc := acc ++ seg.payload.take copied
        let pc := ReadPc.next (acc.length = len) len acc
        let opened := cfg.isClient ∧ seg.protocol = .openSessionResponse ∧ s.state = .attached
        let state := if opened then .established else s.state
        some ({ s with
          recvQueue := q
          state := state
          unreadBuf := seg.payload.drop copied
          readPc := pc }, [])
  | _ => none

def readReturn : Option (Session cfg × List Event) :=
  match s.readPc with
  | .returning acc => some ({ s with readPc := .idle }, [.returned acc])
  | _ => none

/-- `none` is the arrival of segments, the others end the call. -/
def readWake (err : Option SessionError) : Option (Session cfg × List Event) :=
  match s.readPc with
  | .waiting len =>
    match err with
    | none =>
      if s.recvQueue.chanNotEmptyEvent then
        some ({ s with
          recvQueue := { s.recvQueue with chanNotEmptyEvent := false }
          readPc := .looping len [] }, [])
      else none
    | some err =>
      let ready := (err = .eof ∧ s.closedChan) ∨ (err = .unexpectedEOF ∧ s.inputHasErr) ∨
        err = .timeout
      if ready then some ({ s with readPc := .idle }, [.readFailed err]) else none
  | _ => none

/-! ## Effects -/

section Effects

variable {s} {s' : Session cfg} {evs : List Event}

theorem write_effect {b : Bytes} (h : s.write b = some (s', evs)) : Effect (.write b) s s' evs := by
  unfold write at h
  split at h
  · split_ifs at h
    · cases h
      exact .quiet rfl rfl rfl rfl .still (.still rfl) rfl
    · cases h
      exact .quiet rfl rfl rfl rfl .still (.still rfl) rfl
    · cases h
      exact .quiet rfl rfl rfl rfl .still (.still rfl) rfl
    · cases h
      exact .quiet rfl rfl rfl rfl .stop (.still rfl) rfl
  · cases h

theorem toNat_ofNat_uint16 {n : ℕ} (h : n ≤ maxPDU) : (UInt16.ofNat n).toNat = n :=
  UInt16.toNat_ofNat_of_lt' (Nat.lt_of_le_of_lt h (by decide))

theorem produced_openRequest (cfg : SessionConfig) (seq : UInt32) {payload : Bytes}
    (hlen : payload.length ≤ maxSessionOpenPayload) :
    Produced cfg (openRequestSegment cfg seq payload).toPacket :=
  ⟨toNat_ofNat_uint16 (hlen.trans (by decide)), hlen⟩

theorem length_piggyback (b : Bytes) : (s.piggyback b).length ≤ maxSessionOpenPayload := by
  unfold piggyback
  dsimp only
  split_ifs with h
  · exact h.2
  · exact Nat.zero_le _

theorem writeOpen_effect (h : s.writeOpen = some (s', evs)) : Effect .writeOpen s s' evs := by
  unfold writeOpen at h
  split at h
  · split_ifs at h with hopen
    · cases h
      exact .quiet rfl rfl rfl rfl (.request hopen) (.still rfl) rfl
    · cases h
      exact .quiet rfl rfl rfl rfl (.start hopen) (.still rfl) rfl
  · cases h

theorem writeRequest_effect (h : s.writeRequest = some (s', evs)) :
    Effect .writeRequest s s' evs := by
  unfold writeRequest at h
  split at h
  · rename_i b hpc
    have hprod := produced_openRequest cfg s.nextSend (s.length_piggyback b)
    have hleft : s.roomView.reserved = 0 + 1 := congrArg WritePc.reserved hpc
    split_ifs at h
    dsimp only at h
    split at h
    · rename_i q hq
      cases h
      exact .of_refused hq rfl rfl rfl rfl rfl (.fillRefused (hleft ▸ Nat.one_pos)) (.still rfl) rfl
    · rename_i q hq
      split_ifs at h <;>
        (cases h; exact .of_queued hq rfl hprod rfl rfl rfl rfl (.fill hleft) (.still rfl) rfl)
  · cases h

theorem room_writePc {pc pc' : WritePc cfg} {close : ClosePc} (hpc : s.writePc = pc)
    (hreserved : pc'.reserved = pc.reserved) (hstarted : pc'.started = pc.started) :
    RoomEffect cfg close s.roomView (roomView { s with writePc := pc' }) [] := by
  refine .of_eq ?_
  simp only [roomView, hpc, hreserved, hstarted]

theorem writeChunk_effect (h : s.writeChunk = some (s', evs)) : Effect .writeChunk s s' evs := by
  unfold writeChunk at h
  split at h
  · rename_i b n hpc
    split_ifs at h
    · cases h
      exact .quiet rfl rfl rfl rfl .stop (.still rfl) rfl
    · split at h
      split at h
      · cases h
        exact .quiet rfl rfl rfl rfl .stop (.still rfl) rfl
      · cases h
      · cases h
        exact .quiet rfl rfl rfl rfl (room_writePc hpc rfl rfl) (.still rfl) rfl
  · cases h

theorem writeReserve_effect (h : s.writeReserve = some (s', evs)) :
    Effect .writeReserve s s' evs := by
  unfold writeReserve at h
  split at h
  · rename_i c hpc
    split_ifs at h with hfull
    cases h
    have hstarted : s.roomView.started = true := congrArg WritePc.started hpc
    have hroom : s.roomView.queued + c.nFragment < segmentSendQueueTreeCapacity := by
      simp only [SegmentTree.remaining, SegmentTree.len] at hfull
      simp only [roomView]
      omega
    refine .quiet rfl rfl rfl rfl ?_ (.still rfl) rfl
    have hview : roomView { s with writePc := .locking c } =
        { s.roomView with reserved := c.nFragment } := by
      simp only [roomView, hpc, WritePc.reserved, WritePc.started]
    rw [hview]
    exact .reserve hstarted hroom
  · cases h

theorem writeLock_effect (h : s.writeLock = some (s', evs)) : Effect .writeLock s s' evs := by
  unfold writeLock at h
  split at h
  · rename_i c hpc
    split_ifs at h
    cases h
    exact .quiet rfl rfl rfl rfl (room_writePc hpc rfl rfl) (.still rfl) rfl
  · cases h

theorem produced_fragment {c : Chunk cfg} (fragment : ℕ) {part : Bytes} {payloadLen : UInt16}
    (hsize : part.length ≤ c.fragmentSize) (hpdu : part.length ≤ maxPDU)
    (hlen : fragmentPayloadLen c part.length = .ok payloadLen) :
    Produced cfg (s.fragmentSegment c fragment part payloadLen).toPacket := by
  have hconf := c.configured
  have hsized := c.sized
  have hproto (low : Bool) : isLowEntropyProtocol (dataProtocol cfg.isClient low) = low := by
    cases cfg.isClient <;> cases low <;> rfl
  have hnat := toNat_ofNat_uint16 hpdu
  simp only [Produced, fragmentSegment, hproto]
  refine ⟨hpdu, ?_⟩
  cases hlow : c.sendLowEntropy with
  | false =>
    simp only [hlow, Bool.false_eq_true, ↓reduceIte, Prod.mk.injEq, and_true] at hconf
    simp only [fragmentPayloadLen, hlow, Bool.false_eq_true, ↓reduceIte, Except.ok.injEq] at hlen
    rw [hconf.1, maxFragmentSize, if_pos rfl, Except.ok.injEq] at hsized
    simp only [Bool.false_eq_true, ↓reduceIte, ← hlen, hnat, true_and, and_true]
    exact hsized ▸ hsize
  | true =>
    simp only [hlow, ↓reduceIte] at hconf
    simp only [fragmentPayloadLen, hlow, ↓reduceIte] at hlen
    exact ⟨_, _, _, hconf.symm, hsized, hsize, hlen, rfl, rfl, hnat⟩

theorem writeFragment_effect (h : s.writeFragment = some (s', evs)) :
    Effect .writeFragment s s' evs := by
  unfold writeFragment at h
  split at h
  · rename_i c left offset hpc
    split at h
    · cases h
    have hleft : s.roomView.reserved = left + 1 := congrArg WritePc.reserved hpc
    have hle : min c.fragmentSize (c.data.drop offset).length ≤ (c.data.drop offset).length :=
      Nat.min_le_right _ _
    have hpart := List.length_take_of_le hle
    have hdrop : (c.data.drop offset).length ≤ maxPDU := by
      rw [List.length_drop]
      exact (Nat.sub_le _ _).trans c.data_le
    dsimp only at h
    split at h
    · cases h
      exact .quiet rfl rfl rfl rfl .stop (.still rfl) rfl
    · rename_i payloadLen hlen
      have hprod := s.produced_fragment left (hpart.trans_le (Nat.min_le_left _ _))
        (hpart.trans_le (hle.trans hdrop)) (by rw [hpart]; exact hlen)
      split at h
      · rename_i q hq
        cases h
        refine .of_refused hq rfl rfl rfl rfl rfl (.fillRefused ?_) (.still rfl) rfl
        rw [hleft]
        exact Nat.succ_pos left
      · rename_i q hq
        split_ifs at h with hlast
        · cases h
          refine .of_queued hq rfl hprod rfl rfl rfl rfl (fun hn => ?_) (.still rfl) rfl
          have hview : roomView { s with
              nextSend := s.nextSend + 1, sendQueue := q, oLock := false, writePc := .draining c } =
              { s.roomView with queued := q.items.length, reserved := left } := by
            simp only [roomView, hpc, WritePc.reserved, WritePc.started, hlast]
          rw [hview]
          exact .fill hleft hn
        · cases h
          refine .of_queued hq rfl hprod rfl rfl rfl rfl (fun hn => ?_) (.still rfl) rfl
          have hview : roomView { s with
              nextSend := s.nextSend + 1
              sendQueue := q
              writePc := .fragmenting c left
                (offset + min c.fragmentSize (c.data.drop offset).length) } =
              { s.roomView with queued := q.items.length, reserved := left } := by
            simp only [roomView, hpc, WritePc.reserved, WritePc.started]
          rw [hview]
          exact .fill hleft hn
  · cases h

theorem writeAbort_effect {err : SessionError} (h : s.writeAbort err = some (s', evs)) :
    Effect (.writeAbort err) s s' evs := by
  unfold writeAbort at h
  dsimp only at h
  split_ifs at h
  split at h
  · split_ifs at h
    cases h
    exact .quiet rfl rfl rfl rfl .stop (.still rfl) rfl
  · cases h
    exact .quiet rfl rfl rfl rfl .stop (.still rfl) rfl
  · cases h

theorem writeDrain_effect (h : s.writeDrain = some (s', evs)) : Effect .writeDrain s s' evs := by
  unfold writeDrain at h
  split at h
  · rename_i c hpc
    dsimp only at h
    split_ifs at h
    · cases h
      exact .quiet rfl rfl rfl rfl (room_writePc hpc rfl rfl) (.still rfl) rfl
    · split at h
      · cases h
        exact .quiet rfl rfl rfl rfl (room_writePc hpc rfl rfl) (.still rfl) rfl
      · split_ifs at h
        cases h
        exact .quiet rfl rfl rfl rfl (room_writePc hpc rfl rfl) (.still rfl) rfl
  · cases h

theorem read_effect {len : ℕ} (h : s.read len = some (s', evs)) : Effect (.read len) s s' evs := by
  unfold read at h
  split at h
  · rename_i hpc
    split_ifs at h
    · cases h
      exact .of_recv rfl rfl (.handOut (List.nil_append _).symm) .still (.still rfl) rfl
    · cases h
      refine .quiet rfl ?_ rfl rfl .still (.still rfl) rfl
      simp only [recvView, hpc, ReadPc.acc_looping, ReadPc.acc_idle]
  · cases h

theorem room_opened (protocol : ProtocolType) (pc' : ClosePc) :
    RoomEffect cfg pc' s.roomView
      (roomView { s with
        state := if cfg.isClient = true ∧ protocol = .openSessionResponse ∧ s.state = .attached then
          .established else s.state }) [] := by
  split_ifs with hopened
  · exact .establish hopened.1 SessionState.noConfusion id
  · exact .still

theorem readLoop_effect (h : s.readLoop = some (s', evs)) : Effect .readLoop s s' evs := by
  unfold readLoop at h
  split at h
  · rename_i len acc hpc
    dsimp only at h
    split at h
    · cases h
      refine .quiet rfl ?_ rfl rfl .still (.still rfl) rfl
      simp only [recvView, ReadPc.acc_next, hpc, ReadPc.acc_looping, List.append_assoc,
        List.take_append_drop]
    · rename_i hempty
      rw [not_not] at hempty
      split at h
      · split_ifs at h with hacc
        · cases h
          refine .quiet rfl ?_ rfl rfl .still (.still rfl) rfl
          simp only [recvView, hpc, ReadPc.acc_looping, ReadPc.acc_returning]
        · cases h
          refine .quiet rfl ?_ rfl rfl .still (.still rfl) rfl
          simp only [recvView, hpc, ReadPc.acc_looping, ReadPc.acc_waiting, not_not.mp hacc]
      · rename_i seg q hq
        cases h
        refine .of_recv rfl rfl ?_ (s.room_opened _ _) (.still rfl) rfl
        have hfetch : RecvEffect cfg s.recvView _ _ := .fetch (SegmentTree.deleteMin_some hq)
        simpa only [recvView, ReadPc.acc_next, hpc, hempty, ReadPc.acc_looping,
          List.append_assoc, List.take_append_drop, List.append_nil, List.filter_nil] using hfetch
  · cases h

theorem readReturn_effect (h : s.readReturn = some (s', evs)) : Effect .readReturn s s' evs := by
  unfold readReturn at h
  split at h
  · rename_i acc hpc
    cases h
    refine .of_recv rfl rfl (.handOut ?_) .still (.still rfl) rfl
    simp only [recvView, hpc, ReadPc.acc_returning, ReadPc.acc_idle, List.nil_append]
  · cases h

theorem readWake_effect {err : Option SessionError} (h : s.readWake err = some (s', evs)) :
    Effect (.readWake err) s s' evs := by
  unfold readWake at h
  split at h
  · rename_i len hpc
    have hacc : s.readPc.acc = [] := by rw [hpc]; rfl
    split at h
    · split_ifs at h
      cases h
      refine .quiet rfl ?_ rfl rfl .still (.still rfl) rfl
      simp only [recvView, hacc, ReadPc.acc_looping]
      rfl
    · dsimp only at h
      split_ifs at h
      cases h
      refine .quiet rfl ?_ rfl rfl .still (.still rfl) rfl
      simp only [recvView, hacc, ReadPc.acc_idle]
  · cases h

end Effects

end Session

end Mieru.Protocol
