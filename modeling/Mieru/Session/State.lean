import Mieru.Protocol.Segment
import Mieru.TrafficPattern

/-! # Session state

A session is shared by four goroutines: the application's writer and reader, the
output loop and the input loop. A closing call is a fifth one. Each has a program
counter here, and a step of the session is the stretch of one goroutine between
two points where another can interfere. `oLock` is explicit; the clock, deadlines,
timers, the congestion window and the fate of a transmission are choices of the
environment. -/
namespace Mieru.Protocol

open LowEntropy

/-- What does not change after the session is attached to its underlay. -/
structure SessionConfig where
  id : UInt32
  isClient : Bool
  mtu : ℤ
  transportProtocol : TransportProtocol
  trafficPattern : Option TrafficPattern
  attachedTo : transportProtocol ≠ .unknownTransport := by
    first | exact stream_ne_unknown | exact packet_ne_unknown

def packetConfig (isClient : Bool) : SessionConfig where
  id := 1
  isClient := isClient
  mtu := 1400
  transportProtocol := .packetTransport
  trafficPattern := none

inductive SessionState where
  | init
  | attached
  | established
  | closed
  deriving DecidableEq, Repr

def SessionState.rank : SessionState → ℕ
  | init => 0
  | attached => 1
  | established => 2
  | closed => 3

def SessionState.forwardTo (old next : SessionState) : SessionState :=
  if next.rank ≤ old.rank then old else next

def minWindowSize : UInt32 := 16
def txCountLimit : UInt8 := 20
def earlyRetransmission : UInt8 := 3
def earlyRetransmissionLimit : UInt8 := 1
def maxBackOffDuration : ℤ := 10 * 1000000
def packetAckDelay : ℤ := 1000
def retransmissionCheckDelay : ℤ := 10 * 1000
def sessionHeartbeatInterval : ℤ := 5 * 1000000

inductive SessionError where
  | closedPipe
  | notReadyForWrite
  | insertFailed
  | eof
  | unexpectedEOF
  | timeout
  | other (msg : String)
  deriving DecidableEq, Repr

/-- What became of a segment given to the underlay. -/
inductive Fate where
  | sent
  | notReady
  | failed
  deriving DecidableEq, Repr

inductive Goroutine where
  | application
  | inputLoop
  | outputLoop
  deriving DecidableEq, Repr

/-- One call of `writeChunk`, with what `Write` has left and has already written. -/
structure Chunk (cfg : SessionConfig) where
  lowEntropyMode : LowEntropyMode
  lowEntropyRotation : LowEntropyMaskRotation
  sendLowEntropy : Bool
  seqBeforeWrite : UInt32
  fragmentSize : ℕ
  data : Bytes
  rest : Bytes
  written : ℕ
  configured : (lowEntropyMode, lowEntropyRotation, sendLowEntropy) =
    if sendLowEntropy then TrafficPattern.extractLowEntropyConfig cfg.trafficPattern
    else (modeOff, noRotation, false)
  sized : maxFragmentSize cfg.mtu cfg.transportProtocol lowEntropyMode = .ok fragmentSize
  data_le : data.length ≤ maxPDU

def Chunk.nFragment {cfg : SessionConfig} (c : Chunk cfg) : ℕ :=
  if c.data.length > c.fragmentSize then (c.data.length - 1) / c.fragmentSize + 1 else 1

inductive WritePc (cfg : SessionConfig) where
  | idle
  | opening (b : Bytes)
  | requesting (b : Bytes)
  | writing (b : Bytes) (n : ℕ)
  | reserving (c : Chunk cfg)
  | locking (c : Chunk cfg)
  /-- Holds `oLock`; `left` fragments are still to be queued, from `offset` on. -/
  | fragmenting (c : Chunk cfg) (left offset : ℕ)
  | draining (c : Chunk cfg)

inductive ReadPc where
  | idle
  | looping (len : ℕ) (acc : Bytes)
  | returning (acc : Bytes)
  | waiting (len : ℕ)

def ReadPc.next (stop : Bool) (len : ℕ) (acc : Bytes) : ReadPc :=
  if stop then .returning acc else .looping len acc

inductive OutputPc where
  | waiting
  | starting
  | resendLock
  /-- Holds `oLock` and the lock of `sendBuf`; segments up to `cursor` are done. -/
  | resending (cursor : Option UInt32) (nextTX : Option ℤ) (total : ℕ)
  /-- The goroutine is about to call `closeWithError` and then continues. -/
  | failed (resume : OutputPc)
  | sendCheck (total : ℕ)
  | sendLock (total : ℕ)
  /-- Holds `oLock`. -/
  | sending (total : ℕ)
  | ackCheck
  | ackClear
  | ackSend
  | streamLock
  /-- Holds `oLock`. -/
  | streaming
  | stopped

inductive InputPc where
  | idle
  | releasing (seg : Segment)
  | requesting (seg : Segment)
  | accepting (seg : Segment)
  | waitingSpace (seg : Segment)
  | moving (seg : Segment)
  | requestingAgain (seg : Segment)
  | responding (seg : Segment)
  | finishing (seg : Segment)
  | counting (seg : Segment)
  | closing (seg : Segment)
  | failed
  | stopped

inductive ClosePc where
  /-- `closeRequested` is false exactly here. -/
  | idle
  | begun (graceful : Bool)
  | polling (closeRequestSeq : UInt32) (status : UInt8) (left : ℕ)
  | forcing (closeRequestSeq : UInt32) (status : UInt8)
  | clearingQueue
  | clearingBuf
  | finishing
  | done

structure Session (cfg : SessionConfig) where
  state : SessionState := .attached
  status : UInt8 := statusOK
  closedChan : Bool := false
  inputHasErr : Bool := false
  outputHasErr : Bool := false
  sendQueue : SegmentTree segmentSendQueueTreeCapacity := {}
  sendBuf : SegmentTree segmentTreeCapacity := {}
  recvBuf : SegmentTree segmentTreeCapacity := {}
  recvQueue : SegmentTree segmentTreeCapacity := {}
  packetOutputWakeup : Bool := false
  nextSend : UInt32 := 0
  nextRecv : UInt32 := 0
  lastSend : UInt32 := 0
  lastRXTime : ℤ
  lastTXTime : ℤ
  heartbeatJitter : ℤ
  nextRetransmissionTime : ℤ := 0
  ackOnDataRecv : Bool := false
  ackDeadline : ℤ := 0
  unreadBuf : Bytes := []
  remoteWindowSize : UInt32 := minWindowSize
  oLock : Bool := false
  openSessionRequestSent : Bool := false
  clientUseLowEntropy : Bool := false
  /-- What a server session has added to its user's counter, once the user is known. -/
  downloadBytes : Option ℕ := none
  writePc : WritePc cfg := .idle
  readPc : ReadPc := .idle
  outputPc : OutputPc := .waiting
  inputPc : InputPc := .idle
  closePc : ClosePc := .idle
  closeCaller : Goroutine := .application

inductive OutputWake where
  | timer
  | notEmpty
  | wakeup
  | closed

/-- The steps of the goroutines, with what the environment decides. -/
inductive Action where
  | write (b : Bytes)
  | writeOpen
  | writeRequest
  | writeChunk
  | writeReserve
  | writeLock
  | writeFragment
  | writeAbort (err : SessionError)
  | writeDrain
  | read (len : ℕ)
  | readLoop
  | readReturn
  | readWake (err : Option SessionError)
  | outputWake (why : OutputWake)
  | outputStart (now : ℤ)
  | outputLock
  | resendNext (now txTime timeout : ℤ) (fate : Fate)
  | outputClose
  | sendCheck (cwnd : ℤ)
  | sendNext (cwnd now timeout : ℤ) (fate : Fate)
  | ackCheck (now : ℤ)
  | ackClear
  | ackSend (now jitter : ℤ) (fate : Fate)
  | streamNext (now : ℤ) (fate : Fate)
  | receive (packet : Packet) (now : ℤ)
  | releaseNext
  | requestAck (now : ℤ)
  | accept
  | waitSpace
  | moveNext
  | requestAckAgain (now : ℤ)
  | respond (quotaOK : Bool)
  | finishInput
  | countAck
  | inputClose (now : ℤ) (fate : Fate)
  | inputFail
  | inputStop
  | close
  | closeQueue
  | closePoll
  | closeForce (now : ℤ) (fate : Fate)
  | closeClear

/-- Who takes a step. Whatever runs inside `closeWithError` is the closer's. -/
inductive Party where
  | writer
  | reader
  | outputLoop
  | inputLoop
  | closer
  deriving DecidableEq, Repr

def Action.party : Action → Party
  | write _ | writeOpen | writeRequest | writeChunk | writeReserve | writeLock | writeFragment
  | writeAbort _ | writeDrain => .writer
  | read _ | readLoop | readReturn | readWake _ => .reader
  | outputWake _ | outputStart _ | outputLock | resendNext .. | outputClose | sendCheck _
  | sendNext .. | ackCheck _ | ackClear | ackSend .. | streamNext .. => .outputLoop
  | receive .. | releaseNext | requestAck _ | accept | waitSpace | moveNext | requestAckAgain _
  | respond _ | finishInput | countAck | inputClose .. | inputFail | inputStop => .inputLoop
  | close | closeQueue | closePoll | closeForce .. | closeClear => .closer

/-- A part of the state that only some steps may change. -/
inductive Place where
  | writer
  | reader
  | outputLoop
  | inputLoop
  | closedChan
  | recvBuf
  | recvQueue
  | nextRecv
  | remoteWindowSize
  | ackOnDataRecv
  | state
  | sendQueue
  | sendBuf
  | packetOutputWakeup
  | outputHasErr
  | deadlines
  deriving DecidableEq, Repr

def Action.touches (a : Action) : Place → Bool
  | .writer => a.party = .writer
  | .reader => a.party = .reader
  | .outputLoop => a.party = .outputLoop
  | .inputLoop => a.party = .inputLoop
  | .closedChan => match a with
    | closeClear => true
    | _ => false
  | .recvBuf => match a with
    | accept | moveNext => true
    | _ => false
  | .recvQueue => match a with
    | readLoop | moveNext => true
    | _ => false
  | .nextRecv => match a with
    | moveNext => true
    | _ => false
  | .remoteWindowSize => match a with
    | releaseNext | moveNext => true
    | _ => false
  | .ackOnDataRecv => match a with
    | requestAck _ | requestAckAgain _ | ackClear => true
    | _ => false
  | .state => match a with
    | readLoop | respond _ | finishInput | closeClear => true
    | _ => false
  | .sendQueue => match a with
    | writeRequest | writeFragment | outputWake _ | sendNext .. | streamNext .. | respond _
    | closeQueue | closeClear => true
    | _ => false
  | .sendBuf => match a with
    | releaseNext | sendNext .. | closeClear => true
    | _ => false
  | .packetOutputWakeup => match a with
    | outputWake _ | requestAck _ | requestAckAgain _ | finishInput | countAck => true
    | _ => false
  | .outputHasErr => match a with
    | resendNext .. | sendNext .. | ackSend .. | streamNext .. => true
    | _ => false
  | .deadlines => match a with
    | resendNext .. | sendNext .. | releaseNext | countAck | closeClear => true
    | _ => false

/-- Does the step send something that never was in `sendQueue`? -/
def Action.bypassesQueue : Action → Bool
  | ackSend .. | inputClose .. => true
  | _ => false

/-- What an observer sees of a step. -/
inductive Event where
  /-- A segment got a sequence number; `queued` tells whether `sendQueue` took it. -/
  | created (seg : Segment) (queued : Bool)
  | output (packet : Packet) (fate : Fate)
  | received (packet : Packet)
  | moved (seg : Segment)
  | returned (bytes : Bytes)
  | readFailed (err : SessionError)
  | wrote (n : ℕ) (err : Option SessionError)
  | gracefulCloseSuccess (closeRequestSeq : UInt32)
  deriving DecidableEq, Repr

namespace Session

variable {cfg : SessionConfig}

/-- A session right after `AddSession`. -/
def attached (now jitter : ℤ) : Session cfg :=
  { lastRXTime := now, lastTXTime := now, heartbeatJitter := jitter }

variable (s : Session cfg)

def forwardStateTo (next : SessionState) : Session cfg :=
  { s with state := s.state.forwardTo next }

def closeRequested : Bool :=
  match s.closePc with
  | .idle => false
  | _ => true

/-- The first call wins; the others return at once. -/
def closeWithError (graceful : Bool) (caller : Goroutine) : Session cfg :=
  if s.closeRequested then s
  else { s with closePc := .begun graceful, closeCaller := caller }

/-- `Ascend` holds the lock of `sendBuf` for the whole resend phase. -/
def sendBufLocked : Bool :=
  match s.outputPc with
  | .resending .. => true
  | _ => false

def isClientPacketSessionOpening : Bool :=
  cfg.isClient ∧ cfg.transportProtocol = .packetTransport ∧ s.state = .attached

def shouldDeferNextPacketData : Bool :=
  s.isClientPacketSessionOpening ∧
    (s.sendQueue.items.head?.map fun seg => isDataProtocol seg.protocol).getD false

def lowEntropySendConfig : LowEntropyMode × LowEntropyMaskRotation × Bool :=
  let (mode, rotation, enabled) := TrafficPattern.extractLowEntropyConfig cfg.trafficPattern
  if ¬enabled then (modeOff, noRotation, false)
  else if ¬cfg.isClient ∧ ¬s.clientUseLowEntropy then (modeOff, noRotation, false)
  else (mode, rotation, true)

def sendWindowSize (cwnd : ℤ) : ℤ :=
  max 0 (min (cwnd - s.sendBuf.len) s.remoteWindowSize.toNat)

def receiveWindowSize : ℕ := segmentTreeCapacity - s.recvBuf.len - s.recvQueue.len

def wakePacketOutput : Session cfg := { s with packetOutputWakeup := true }

def wakeIfQueued : Session cfg := if 0 < s.sendQueue.len then s.wakePacketOutput else s

def requestPacketAck (now : ℤ) : Session cfg :=
  if s.ackOnDataRecv then s
  else wakePacketOutput { s with ackDeadline := now + packetAckDelay, ackOnDataRecv := true }

/-- The underlay's answer decides whether `lastSend` moves; `false` is an error. Only a
packet underlay can be not ready, which is not an error. -/
def output (seg : Segment) (fate : Fate) (now : ℤ) : Session cfg × Bool :=
  match fate with
  | .sent => ({ s with lastSend := seg.seq, lastTXTime := now }, true)
  | .notReady => (s, cfg.transportProtocol = .packetTransport)
  | .failed => (s, false)

@[simp] theorem inputPc_closeWithError (graceful : Bool) (caller : Goroutine) :
    (s.closeWithError graceful caller).inputPc = s.inputPc := by
  unfold closeWithError
  split_ifs <;> rfl

@[simp] theorem outputPc_closeWithError (graceful : Bool) (caller : Goroutine) :
    (s.closeWithError graceful caller).outputPc = s.outputPc := by
  unfold closeWithError
  split_ifs <;> rfl

@[simp] theorem inputPc_forwardStateTo (next : SessionState) :
    (s.forwardStateTo next).inputPc = s.inputPc := rfl

@[simp] theorem inputPc_wakePacketOutput : s.wakePacketOutput.inputPc = s.inputPc := rfl

@[simp] theorem inputPc_wakeIfQueued : s.wakeIfQueued.inputPc = s.inputPc := by
  unfold wakeIfQueued
  split_ifs <;> rfl

theorem configured_lowEntropySendConfig {mode : LowEntropyMode} {rotation : LowEntropyMaskRotation}
    {low : Bool} (h : s.lowEntropySendConfig = (mode, rotation, low)) :
    (mode, rotation, low) =
      if low then TrafficPattern.extractLowEntropyConfig cfg.trafficPattern
      else (modeOff, noRotation, false) := by
  unfold lowEntropySendConfig at h
  split at h
  rename_i mode' rotation' enabled hx
  split_ifs at h with henabled hserver
  · cases h
    rfl
  · cases h
    simp [hx, henabled]
  · cases h
    rfl

end Session

end Mieru.Protocol
