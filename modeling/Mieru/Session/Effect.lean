import Mieru.Session.State

/-! # What a step can do

A step changes the sending half of a session in one of a few ways and the receiving
half in one of a few others. Two more lists say who puts segments into `sendQueue`
and how a close proceeds. Everything that is proved about runs is proved from these
four lists. -/
namespace Mieru.Protocol

open LowEntropy OrderedTree

/-- The shape of every packet a session makes: its length fields agree with its payload,
and the payload fits the place it is meant for. -/
def Produced (cfg : SessionConfig) (p : Packet) : Prop :=
  match p.metadata with
  | .session ss =>
    ss.payloadLen.toNat = p.payload.length ∧ p.payload.length ≤ maxSessionOpenPayload
  | .dataAck das =>
    p.payload.length ≤ maxPDU ∧
    if isLowEntropyProtocol das.protocol then
      ∃ mode rotation fragmentSize,
        TrafficPattern.extractLowEntropyConfig cfg.trafficPattern = (mode, rotation, true) ∧
        maxFragmentSize cfg.mtu cfg.transportProtocol mode = .ok fragmentSize ∧
        p.payload.length ≤ fragmentSize ∧
        lowEntropyEncodedPayloadLen p.payload.length mode = .ok das.payloadLen ∧
        das.lowEntropyMode = UInt8.ofNat mode.toNat ∧
        das.lowEntropyMaskRotation = UInt8.ofNat rotation.toNat ∧
        das.extractedPayloadLen.toNat = p.payload.length
    else
      das.payloadLen.toNat = p.payload.length ∧
      p.payload.length ≤ maxFragmentSizeInternal cfg.mtu cfg.transportProtocol ∧
      das.lowEntropyMode = 0 ∧ das.lowEntropyMask = 0 ∧ das.extractedPayloadLen = 0 ∧
      das.lowEntropyMaskRotation = 0

theorem produced_refreshAck {cfg : SessionConfig} {seg : Segment} (nextRecv : UInt32)
    (h : Produced cfg seg.toPacket) : Produced cfg (seg.refreshAck nextRecv).toPacket := by
  unfold Segment.refreshAck
  split
  · exact h
  · rename_i das hm
    simpa [Produced, hm] using h

theorem produced_session {cfg : SessionConfig} {seg : Segment} {ss : SessionStruct}
    (hm : seg.metadata = .session ss) (hlen : ss.payloadLen = 0) (hp : seg.payload = []) :
    Produced cfg seg.toPacket := by
  simp [Produced, hm, hlen, hp]

theorem Segment.resent_same {seg seg' : Segment} {nextRecv : UInt32}
    (hsame : seg'.toPacket = (seg.refreshAck nextRecv).toPacket) :
    seg'.key = seg.key ∧ seg'.payload = seg.payload := by
  refine ⟨?_, (congrArg Packet.payload hsame).trans (seg.payload_refreshAck nextRecv)⟩
  exact (congrArg (fun p : Packet => p.seq.toNat) hsame).trans
    (congrArg UInt32.toNat (seg.seq_refreshAck nextRecv))

def Fate.lastSend (fate : Fate) (seq old : UInt32) : UInt32 :=
  match fate with
  | .sent => seq
  | _ => old

structure SendView where
  nextSend : UInt32
  lastSend : UInt32
  queue : List Segment
  buf : List Segment

structure RecvView where
  nextRecv : UInt32
  recvBuf : List Segment
  recvQueue : List Segment
  /-- Taken from `recvQueue` and not yet returned by `Read`. -/
  unread : Bytes
  /-- The segment the input loop is working on. -/
  hand : Option Segment

/-- What decides whether `sendQueue` has room for the next segment. -/
structure RoomView where
  queued : ℕ
  /-- Segments the writer will still queue for its chunk. -/
  reserved : ℕ
  started : Bool
  state : SessionState
  requestSent : Bool
  responding : Bool

def WritePc.reserved {cfg : SessionConfig} : WritePc cfg → ℕ
  | requesting _ => 1
  | locking c => c.nFragment
  | fragmenting _ left _ => left
  | _ => 0

def WritePc.started {cfg : SessionConfig} : WritePc cfg → Bool
  | idle | opening _ => false
  | _ => true

/-- The close request is not waited for any more. -/
def ClosePc.pastPolling : ClosePc → Bool
  | idle | begun _ | polling .. => false
  | _ => true

def InputPc.isResponding : InputPc → Bool
  | responding _ => true
  | _ => false

def ReadPc.acc : ReadPc → Bytes
  | looping _ acc => acc
  | returning acc => acc
  | _ => []

@[simp] theorem ReadPc.acc_looping (len : ℕ) (acc : Bytes) : (looping len acc).acc = acc := rfl

@[simp] theorem ReadPc.acc_returning (acc : Bytes) : (returning acc).acc = acc := rfl

@[simp] theorem ReadPc.acc_waiting (len : ℕ) : (waiting len).acc = [] := rfl

@[simp] theorem ReadPc.acc_idle : idle.acc = [] := rfl

@[simp] theorem ReadPc.acc_next (stop : Bool) (len : ℕ) (acc : Bytes) :
    (ReadPc.next stop len acc).acc = acc := by
  cases stop <;> rfl

def InputPc.segment : InputPc → Option Segment
  | idle | failed | stopped => none
  | releasing seg | requesting seg | accepting seg | waitingSpace seg | moving seg
  | requestingAgain seg | responding seg | finishing seg | counting seg | closing seg => some seg

namespace Session

variable {cfg : SessionConfig}

def sendView (s : Session cfg) : SendView :=
  ⟨s.nextSend, s.lastSend, s.sendQueue.items, s.sendBuf.items⟩

def recvView (s : Session cfg) : RecvView :=
  ⟨s.nextRecv, s.recvBuf.items, s.recvQueue.items, s.readPc.acc ++ s.unreadBuf,
    s.inputPc.segment⟩

def roomView (s : Session cfg) : RoomView :=
  ⟨s.sendQueue.items.length, s.writePc.reserved, s.writePc.started, s.state,
    s.openSessionRequestSent, s.inputPc.isResponding⟩

variable {s : Session cfg}

theorem closeWithError_sendView (graceful : Bool) (caller : Goroutine) :
    (s.closeWithError graceful caller).sendView = s.sendView := by
  unfold closeWithError
  split_ifs <;> rfl

theorem closeWithError_recvView (graceful : Bool) (caller : Goroutine) :
    (s.closeWithError graceful caller).recvView = s.recvView := by
  unfold closeWithError
  split_ifs <;> rfl

/-- A place is as before. -/
def Keeps (s s' : Session cfg) : Place → Prop
  | .writer => s'.writePc = s.writePc ∧ s'.openSessionRequestSent = s.openSessionRequestSent
  | .reader => s'.readPc = s.readPc ∧ s'.unreadBuf = s.unreadBuf
  | .outputLoop => s'.outputPc = s.outputPc
  | .inputLoop => s'.inputPc = s.inputPc
  | .closedChan => s'.closedChan = s.closedChan
  | .recvBuf => s'.recvBuf.items = s.recvBuf.items
  | .recvQueue => s'.recvQueue.items = s.recvQueue.items
  | .nextRecv => s'.nextRecv = s.nextRecv
  | .remoteWindowSize => s'.remoteWindowSize = s.remoteWindowSize
  | .ackOnDataRecv => s'.ackOnDataRecv = s.ackOnDataRecv
  | .state => s'.state = s.state
  | .sendQueue => s'.sendQueue.items = s.sendQueue.items ∧
      s'.sendQueue.chanNotEmptyEvent = s.sendQueue.chanNotEmptyEvent
  | .sendBuf => s'.sendBuf.len = s.sendBuf.len
  | .packetOutputWakeup => s'.packetOutputWakeup = s.packetOutputWakeup
  | .outputHasErr => s'.outputHasErr = s.outputHasErr
  | .deadlines => s'.nextRetransmissionTime = s.nextRetransmissionTime ∧
      s'.sendBuf.items = s.sendBuf.items

theorem closeRequested_eq_false_iff : s.closeRequested = false ↔ s.closePc = .idle := by
  unfold closeRequested
  split <;> simp_all

theorem closeWithError_ne_idle (graceful : Bool) (caller : Goroutine) :
    (s.closeWithError graceful caller).closePc ≠ .idle := by
  unfold closeWithError
  split_ifs with hrequested
  · intro hpc
    rw [closeRequested_eq_false_iff.mpr hpc] at hrequested
    cases hrequested
  · exact ClosePc.noConfusion

theorem output_eq {t : Session cfg} {seg : Segment} {fate : Fate} {now : ℤ} {ok : Bool}
    (h : s.output seg fate now = (t, ok)) :
    ∃ time, t = { s with
      lastSend := fate.lastSend seg.seq s.lastSend, lastTXTime := time } := by
  cases fate with
  | sent => cases h; exact ⟨now, rfl⟩
  | notReady => cases h; exact ⟨s.lastTXTime, rfl⟩
  | failed => cases h; exact ⟨s.lastTXTime, rfl⟩

theorem forwardStateTo_established :
    ∃ state, state ≠ .attached ∧ s.forwardStateTo .established = { s with state := state } := by
  refine ⟨s.state.forwardTo .established, ?_, rfl⟩
  cases s.state <;> decide

end Session

def Event.isSend : Event → Bool
  | created .. | output .. => true
  | _ => false

def Event.isRecv : Event → Bool
  | received .. | moved .. | returned .. => true
  | _ => false

def Event.isCreated : Event → Bool
  | created .. => true
  | _ => false

def Event.isSuccess : Event → Bool
  | gracefulCloseSuccess .. => true
  | _ => false

def closeRequestSegment (cfg : SessionConfig) (seq : UInt32) (status : UInt8) : Segment where
  metadata := .session {
    protocol := .closeSessionRequest, sessionID := cfg.id, seq := seq, statusCode := status }
  payload := []

/-- What can happen to the sending half, with the progress of the close before and after
the step. Only a closing session clears segments away. -/
inductive SendEffect (cfg : SessionConfig) (nextRecv : UInt32) (hand : Option Segment)
    (pc pc' : ClosePc) (a : Action) : SendView → SendView → List Event → Prop
  | quiet {v : SendView} : SendEffect cfg nextRecv hand pc pc' a v v []
  | create {v : SendView} {seg : Segment} (hseq : seg.seq = v.nextSend)
      (hprod : Produced cfg seg.toPacket)
      (hroom : v.queue.length < segmentSendQueueTreeCapacity) :
      SendEffect cfg nextRecv hand pc pc' a v
        { v with nextSend := v.nextSend + 1, queue := place Segment.key seg v.queue }
        [.created seg true]
  | lose {v : SendView} {seg : Segment} (hseq : seg.seq = v.nextSend) :
      SendEffect cfg nextRecv hand pc pc' a v { v with nextSend := v.nextSend + 1 }
        [.created seg false]
  | transmit {v : SendView} {seg : Segment} {rest : List Segment} {fate : Fate}
      (seg' : Segment) (hqueue : v.queue = seg :: rest)
      (hsame : seg'.toPacket = (seg.refreshAck nextRecv).toPacket)
      (hroom : v.buf.length + 1 < segmentTreeCapacity) :
      SendEffect cfg nextRecv hand pc pc' a v
        { v with
          queue := rest
          buf := place Segment.key seg' v.buf
          lastSend := fate.lastSend seg'.seq v.lastSend }
        [.output seg'.toPacket fate]
  | retransmit {v : SendView} {seg : Segment} {fate : Fate} (seg' : Segment) (hmem : seg ∈ v.buf)
      (hsame : seg'.toPacket = (seg.refreshAck nextRecv).toPacket) :
      SendEffect cfg nextRecv hand pc pc' a v
        { v with
          buf := v.buf.map fun x => if x.key = seg.key then seg' else x
          lastSend := fate.lastSend seg'.seq v.lastSend }
        [.output seg'.toPacket fate]
  | touch {v : SendView} {f : Segment → Segment} (hf : ∀ x, (f x).toPacket = x.toPacket) :
      SendEffect cfg nextRecv hand pc pc' a v { v with buf := v.buf.map f } []
  | acknowledge {v : SendView} {das : DataAckStruct} {fate : Fate}
      (hbypass : a.bypassesQueue = true) (hack : isAckProtocol das.protocol = true)
      (hun : das.unAckSeq = nextRecv)
      (hseq : das.seq = if v.nextSend = 0 then 0 else v.nextSend - 1)
      (hprod : Produced cfg ⟨.dataAck das, []⟩) :
      SendEffect cfg nextRecv hand pc pc' a v
        { v with lastSend := fate.lastSend das.seq v.lastSend }
        [.output ⟨.dataAck das, []⟩ fate]
  | release {v : SendView} {seg held : Segment} {rest : List Segment} {das : DataAckStruct}
      (hbuf : v.buf = seg :: rest) (hhand : hand = some held)
      (hmeta : held.metadata = .dataAck das) (hlt : seg.seq < das.unAckSeq) :
      SendEffect cfg nextRecv hand pc pc' a v { v with buf := rest } []
  | stream {v : SendView} {seg : Segment} {rest : List Segment} {fate : Fate}
      (hstream : cfg.transportProtocol = .streamTransport) (hqueue : v.queue = seg :: rest) :
      SendEffect cfg nextRecv hand pc pc' a v
        { v with queue := rest, lastSend := fate.lastSend seg.seq v.lastSend }
        [.output seg.toPacket fate]
  | reply {v : SendView} {seg : Segment} {fate : Fate} (hbypass : a.bypassesQueue = true)
      (hclosing : pc' ≠ .idle) (hseq : seg.seq = v.nextSend) (hprod : Produced cfg seg.toPacket)
      (hproto : seg.protocol = .closeSessionResponse) :
      SendEffect cfg nextRecv hand pc pc' a v
        { v with nextSend := v.nextSend + 1, lastSend := fate.lastSend seg.seq v.lastSend }
        [.created seg false, .output seg.toPacket fate]
  | force {v : SendView} {seq : UInt32} {status : UInt8} {fate : Fate}
      (hpc : pc = .forcing seq status) :
      SendEffect cfg nextRecv hand pc pc' a v { v with lastSend := fate.lastSend seq v.lastSend }
        [.output (closeRequestSegment cfg seq status).toPacket fate]
  | clearQueue {v : SendView} (hpc : pc = .clearingQueue) :
      SendEffect cfg nextRecv hand pc pc' a v { v with queue := [] } []
  | clearBuf {v : SendView} (hpc : pc = .clearingBuf) :
      SendEffect cfg nextRecv hand pc pc' a v { v with buf := [] } []

inductive RecvEffect (cfg : SessionConfig) : RecvView → RecvView → List Event → Prop
  | quiet {v : RecvView} : RecvEffect cfg v v []
  | take {v : RecvView} {seg : Segment} :
      RecvEffect cfg v { v with hand := some seg } [.received seg.toPacket]
  | ignore {v : RecvView} {packet : Packet} : RecvEffect cfg v v [.received packet]
  | drop {v : RecvView} : RecvEffect cfg v { v with hand := none } []
  | buffer {v : RecvView} {seg : Segment} (hhand : v.hand = some seg)
      (hproto : isAckProtocol seg.protocol = false)
      (hroom : v.recvBuf.length + v.recvQueue.length < segmentTreeCapacity) :
      RecvEffect cfg v { v with recvBuf := place Segment.key seg v.recvBuf } []
  | discard {v : RecvView} {seg : Segment} {rest : List Segment}
      (hbuf : v.recvBuf = seg :: rest) : RecvEffect cfg v { v with recvBuf := rest } []
  | move {v : RecvView} {seg : Segment} {rest : List Segment}
      (hbuf : v.recvBuf = seg :: rest) (hseq : seg.seq = v.nextRecv) :
      RecvEffect cfg v
        { v with
          recvBuf := rest
          recvQueue := place Segment.key seg v.recvQueue
          nextRecv := v.nextRecv + 1 }
        [.moved seg]
  | deliver {v : RecvView} {seg : Segment}
      (hstream : cfg.transportProtocol = .streamTransport) (hhand : v.hand = some seg) :
      RecvEffect cfg v { v with recvQueue := place Segment.key seg v.recvQueue } [.moved seg]
  | fetch {v : RecvView} {seg : Segment} {rest : List Segment}
      (hqueue : v.recvQueue = seg :: rest) :
      RecvEffect cfg v { v with recvQueue := rest, unread := v.unread ++ seg.payload } []
  | handOut {v : RecvView} {bytes rest : Bytes} (hunread : v.unread = bytes ++ rest) :
      RecvEffect cfg v { v with unread := rest } [.returned bytes]

/-- How the room in `sendQueue` changes. In a closing session nothing is promised. -/
inductive RoomEffect (cfg : SessionConfig) (pc' : ClosePc) :
    RoomView → RoomView → List Event → Prop
  | still {r : RoomView} : RoomEffect cfg pc' r r []
  | closing {r r' : RoomView} {evs : List Event} (hpc : pc' ≠ .idle) : RoomEffect cfg pc' r r' evs
  | take {r : RoomView} {n : ℕ} (hn : n ≤ r.queued) :
      RoomEffect cfg pc' r { r with queued := n } []
  | start {r : RoomView}
      (hopen : ¬(cfg.isClient = true ∧ r.state = .attached ∧ r.requestSent = false)) :
      RoomEffect cfg pc' r { r with reserved := 0, started := true } []
  | request {r : RoomView}
      (hopen : cfg.isClient = true ∧ r.state = .attached ∧ r.requestSent = false) :
      RoomEffect cfg pc' r { r with requestSent := true, reserved := 1, started := true } []
  | reserve {r : RoomView} {n : ℕ} (hstarted : r.started = true)
      (hroom : r.queued + n < segmentSendQueueTreeCapacity) :
      RoomEffect cfg pc' r { r with reserved := n } []
  | fill {r : RoomView} {seg : Segment} {left n : ℕ} {started : Bool}
      (hleft : r.reserved = left + 1) (hn : n ≤ r.queued + 1) :
      RoomEffect cfg pc' r { r with queued := n, reserved := left, started := started }
        [.created seg true]
  | fillRefused {r r' : RoomView} {seg : Segment} (hleft : 0 < r.reserved)
      (hfull : segmentSendQueueTreeCapacity ≤ r.queued) :
      RoomEffect cfg pc' r r' [.created seg false]
  | stop {r : RoomView} : RoomEffect cfg pc' r { r with reserved := 0, started := false } []
  | ask {r : RoomView} (hserver : cfg.isClient = false) (hstate : r.state = .attached) :
      RoomEffect cfg pc' r { r with responding := true } []
  | answer {r : RoomView} {seg : Segment} {n : ℕ} {state : SessionState}
      (hresponding : r.responding = true) (hn : n ≤ r.queued + 1) (hstate : state ≠ .attached) :
      RoomEffect cfg pc' r { r with queued := n, state := state, responding := false }
        [.created seg true]
  | answerRefused {r r' : RoomView} {seg : Segment} (hresponding : r.responding = true)
      (hfull : segmentSendQueueTreeCapacity ≤ r.queued) :
      RoomEffect cfg pc' r r' [.created seg false]
  | leave {r : RoomView} : RoomEffect cfg pc' r { r with responding := false } []
  | establish {r : RoomView} {state : SessionState} {responding : Bool}
      (hclient : cfg.isClient = true) (hstate : state ≠ .attached)
      (hresponding : responding = true → r.responding = true) :
      RoomEffect cfg pc' r { r with state := state, responding := responding } []

inductive CloseEffect (cfg : SessionConfig) (a : Action) (nextSend lastSend : UInt32)
    (evs : List Event) : ClosePc → ClosePc → Prop
  | still {pc : ClosePc} (hquiet : evs.filter Event.isSuccess = []) :
      CloseEffect cfg a nextSend lastSend evs pc pc
  | request {graceful : Bool} (hquiet : evs.filter Event.isSuccess = []) :
      CloseEffect cfg a nextSend lastSend evs .idle (.begun graceful)
  | queue {status : UInt8} (ha : a = .closeQueue) (hquiet : evs.filter Event.isSuccess = [])
      (hmem : .created (closeRequestSegment cfg nextSend status) true ∈ evs) :
      CloseEffect cfg a nextSend lastSend evs (.begun true) (.polling nextSend status 1000)
  | poll {seq : UInt32} {status : UInt8} {left : ℕ} (hquiet : evs.filter Event.isSuccess = []) :
      CloseEffect cfg a nextSend lastSend evs (.polling seq status (left + 1))
        (.polling seq status left)
  | succeed {seq : UInt32} {status : UInt8} {left : ℕ} (hle : seq ≤ lastSend)
      (hevs : evs = [.gracefulCloseSuccess seq]) :
      CloseEffect cfg a nextSend lastSend evs (.polling seq status (left + 1)) .clearingQueue
  | advance {pc pc' : ClosePc} (hquiet : evs.filter Event.isSuccess = [])
      (hpc : pc ≠ .idle) (hpc' : pc'.pastPolling = true) :
      CloseEffect cfg a nextSend lastSend evs pc pc'

structure Effect {cfg : SessionConfig} (a : Action) (s s' : Session cfg) (evs : List Event) :
    Prop where
  sends : SendEffect cfg s.nextRecv s.inputPc.segment s.closePc s'.closePc a s.sendView
    s'.sendView (evs.filter Event.isSend)
  recvs : RecvEffect cfg s.recvView s'.recvView (evs.filter Event.isRecv)
  rooms : RoomEffect cfg s'.closePc s.roomView s'.roomView (evs.filter Event.isCreated)
  closes : CloseEffect cfg a s.nextSend s.lastSend evs s.closePc s'.closePc
  keeps : ∀ x, a.touches x = false → s.Keeps s' x

theorem Session.closeWithError_closes {cfg : SessionConfig} {s t : Session cfg} {a : Action}
    {nextSend lastSend : UInt32} {evs : List Event} {graceful : Bool} {caller : Goroutine}
    (hsame : t.closePc = s.closePc) (hquiet : evs.filter Event.isSuccess = []) :
    CloseEffect cfg a nextSend lastSend evs s.closePc
      (t.closeWithError graceful caller).closePc := by
  rw [← hsame]
  unfold closeWithError
  split_ifs with hrequested
  · exact .still hquiet
  · rw [closeRequested_eq_false_iff.mp (Bool.eq_false_iff.mpr hrequested)]
    exact .request hquiet

theorem RoomEffect.of_eq {cfg : SessionConfig} {pc' : ClosePc} {r r' : RoomView} (h : r' = r) :
    RoomEffect cfg pc' r r' [] := by
  rw [h]
  exact .still

/-- The places of a session as the action leaves them: those it may touch are hidden. -/
structure Rest (cfg : SessionConfig) where
  writer : Option (WritePc cfg × Bool)
  reader : Option (ReadPc × Bytes)
  outputLoop : Option OutputPc
  inputLoop : Option InputPc
  closedChan : Option Bool
  recvBuf : Option (List Segment)
  recvQueue : Option (List Segment)
  nextRecv : Option UInt32
  remoteWindowSize : Option UInt32
  ackOnDataRecv : Option Bool
  state : Option SessionState
  sendQueue : Option (List Segment × Bool)
  sendBuf : Option ℕ
  packetOutputWakeup : Option Bool
  outputHasErr : Option Bool
  deadlines : Option (ℤ × List Segment)

def Action.shows {α : Type} (a : Action) (x : Place) (v : α) : Option α :=
  if a.touches x then none else some v

theorem Action.eq_of_shows {α : Type} {a : Action} {x : Place} {v w : α}
    (h : a.shows x v = a.shows x w) (htouch : a.touches x = false) : v = w := by
  simpa [shows, htouch] using h

namespace Session

variable {cfg : SessionConfig} {s s' : Session cfg} {a : Action}

def rest (s : Session cfg) (a : Action) : Rest cfg where
  writer := a.shows .writer (s.writePc, s.openSessionRequestSent)
  reader := a.shows .reader (s.readPc, s.unreadBuf)
  outputLoop := a.shows .outputLoop s.outputPc
  inputLoop := a.shows .inputLoop s.inputPc
  closedChan := a.shows .closedChan s.closedChan
  recvBuf := a.shows .recvBuf s.recvBuf.items
  recvQueue := a.shows .recvQueue s.recvQueue.items
  nextRecv := a.shows .nextRecv s.nextRecv
  remoteWindowSize := a.shows .remoteWindowSize s.remoteWindowSize
  ackOnDataRecv := a.shows .ackOnDataRecv s.ackOnDataRecv
  state := a.shows .state s.state
  sendQueue := a.shows .sendQueue (s.sendQueue.items, s.sendQueue.chanNotEmptyEvent)
  sendBuf := a.shows .sendBuf s.sendBuf.len
  packetOutputWakeup := a.shows .packetOutputWakeup s.packetOutputWakeup
  outputHasErr := a.shows .outputHasErr s.outputHasErr
  deadlines := a.shows .deadlines (s.nextRetransmissionTime, s.sendBuf.items)

theorem closeWithError_rest (graceful : Bool) (caller : Goroutine) :
    (s.closeWithError graceful caller).rest a = s.rest a := by
  unfold closeWithError
  split_ifs <;> rfl

theorem rest_of_len (hlen : s'.sendBuf.len = s.sendBuf.len) (htouch : a.touches .deadlines = true)
    (hrest : { s' with sendBuf := s.sendBuf }.rest a = s.rest a) : s'.rest a = s.rest a := by
  rw [← hrest]
  simp [rest, hlen, Action.shows, htouch]

theorem keeps_of_rest (h : s'.rest a = s.rest a) (x : Place) (htouch : a.touches x = false) :
    s.Keeps s' x := by
  cases x with
  | writer => exact Prod.mk.inj (Action.eq_of_shows (congrArg Rest.writer h) htouch)
  | reader => exact Prod.mk.inj (Action.eq_of_shows (congrArg Rest.reader h) htouch)
  | outputLoop => exact Action.eq_of_shows (congrArg Rest.outputLoop h) htouch
  | inputLoop => exact Action.eq_of_shows (congrArg Rest.inputLoop h) htouch
  | closedChan => exact Action.eq_of_shows (congrArg Rest.closedChan h) htouch
  | recvBuf => exact Action.eq_of_shows (congrArg Rest.recvBuf h) htouch
  | recvQueue => exact Action.eq_of_shows (congrArg Rest.recvQueue h) htouch
  | nextRecv => exact Action.eq_of_shows (congrArg Rest.nextRecv h) htouch
  | remoteWindowSize => exact Action.eq_of_shows (congrArg Rest.remoteWindowSize h) htouch
  | ackOnDataRecv => exact Action.eq_of_shows (congrArg Rest.ackOnDataRecv h) htouch
  | state => exact Action.eq_of_shows (congrArg Rest.state h) htouch
  | sendQueue => exact Prod.mk.inj (Action.eq_of_shows (congrArg Rest.sendQueue h) htouch)
  | sendBuf => exact Action.eq_of_shows (congrArg Rest.sendBuf h) htouch
  | packetOutputWakeup => exact Action.eq_of_shows (congrArg Rest.packetOutputWakeup h) htouch
  | outputHasErr => exact Action.eq_of_shows (congrArg Rest.outputHasErr h) htouch
  | deadlines => exact Prod.mk.inj (Action.eq_of_shows (congrArg Rest.deadlines h) htouch)

end Session

namespace Effect

variable {cfg : SessionConfig} {a : Action} {s s' : Session cfg} {evs : List Event}

theorem of_both
    (hs : SendEffect cfg s.nextRecv s.inputPc.segment s.closePc s'.closePc a s.sendView
      s'.sendView (evs.filter Event.isSend))
    (hr : RecvEffect cfg s.recvView s'.recvView (evs.filter Event.isRecv))
    (hroom : RoomEffect cfg s'.closePc s.roomView s'.roomView (evs.filter Event.isCreated))
    (hclose : CloseEffect cfg a s.nextSend s.lastSend evs s.closePc s'.closePc)
    (hframe : s'.rest a = s.rest a) : Effect a s s' evs :=
  ⟨hs, hr, hroom, hclose, Session.keeps_of_rest hframe⟩

theorem of_recv (hview : s'.sendView = s.sendView) (hevs : evs.filter Event.isSend = [])
    (hr : RecvEffect cfg s.recvView s'.recvView (evs.filter Event.isRecv))
    (hroom : RoomEffect cfg s'.closePc s.roomView s'.roomView (evs.filter Event.isCreated))
    (hclose : CloseEffect cfg a s.nextSend s.lastSend evs s.closePc s'.closePc)
    (hframe : s'.rest a = s.rest a) : Effect a s s' evs :=
  ⟨by rw [hview, hevs]; exact .quiet, hr, hroom, hclose, Session.keeps_of_rest hframe⟩

theorem of_send {v : SendView} (hview : s'.sendView = v) (hrecv : s'.recvView = s.recvView)
    (hevs : evs.filter Event.isRecv = [])
    (hs : SendEffect cfg s.nextRecv s.inputPc.segment s.closePc s'.closePc a s.sendView v
      (evs.filter Event.isSend))
    (hroom : RoomEffect cfg s'.closePc s.roomView s'.roomView (evs.filter Event.isCreated))
    (hclose : CloseEffect cfg a s.nextSend s.lastSend evs s.closePc s'.closePc)
    (hframe : s'.rest a = s.rest a) : Effect a s s' evs :=
  ⟨hview ▸ hs, by rw [hrecv, hevs]; exact .quiet, hroom, hclose, Session.keeps_of_rest hframe⟩

theorem quiet (hs : s'.sendView = s.sendView) (hr : s'.recvView = s.recvView)
    (hsend : evs.filter Event.isSend = []) (hrecv : evs.filter Event.isRecv = [])
    (hroom : RoomEffect cfg s'.closePc s.roomView s'.roomView (evs.filter Event.isCreated))
    (hclose : CloseEffect cfg a s.nextSend s.lastSend evs s.closePc s'.closePc)
    (hframe : s'.rest a = s.rest a) : Effect a s s' evs :=
  of_recv hs hsend (by rw [hr, hrecv]; exact .quiet) hroom hclose hframe

theorem of_queued {seg : Segment} {q : SegmentTree segmentSendQueueTreeCapacity}
    (hq : s.sendQueue.insert seg = (q, true)) (hseq : seg.seq = s.nextSend)
    (hprod : Produced cfg seg.toPacket)
    (hview : s'.sendView = { s.sendView with nextSend := s.nextSend + 1, queue := q.items })
    (hrecv : s'.recvView = s.recvView)
    (hevs : evs.filter Event.isSend = [.created seg true])
    (hevs' : evs.filter Event.isRecv = [])
    (hroom : q.items.length ≤ s.roomView.queued + 1 →
      RoomEffect cfg s'.closePc s.roomView s'.roomView (evs.filter Event.isCreated))
    (hclose : CloseEffect cfg a s.nextSend s.lastSend evs s.closePc s'.closePc)
    (hframe : s'.rest a = s.rest a) : Effect a s s' evs := by
  obtain ⟨hlt, hitems⟩ := SegmentTree.insert_true hq
  have hlen : q.items.length ≤ s.roomView.queued + 1 := by
    rw [hitems]
    exact length_place_le
  refine .of_send hview hrecv hevs' ?_ (hroom hlen) hclose hframe
  rw [hevs, hitems]
  exact .create hseq hprod hlt

theorem of_refused {seg : Segment} {q : SegmentTree segmentSendQueueTreeCapacity}
    (hq : s.sendQueue.insert seg = (q, false)) (hseq : seg.seq = s.nextSend)
    (hview : s'.sendView = { s.sendView with nextSend := s.nextSend + 1, queue := q.items })
    (hrecv : s'.recvView = s.recvView) (hevs : evs.filter Event.isSend = [.created seg false])
    (hevs' : evs.filter Event.isRecv = [])
    (hroom : segmentSendQueueTreeCapacity ≤ s.roomView.queued →
      RoomEffect cfg s'.closePc s.roomView s'.roomView (evs.filter Event.isCreated))
    (hclose : CloseEffect cfg a s.nextSend s.lastSend evs s.closePc s'.closePc)
    (hframe : s'.rest a = s.rest a) : Effect a s s' evs := by
  obtain ⟨hfull, hitems⟩ := SegmentTree.insert_false hq
  refine .of_send hview hrecv hevs' ?_ (hroom hfull) hclose hframe
  rw [hevs, hitems]
  exact .lose hseq

end Effect

namespace CloseEffect

variable {cfg : SessionConfig} {a : Action} {nextSend lastSend : UInt32} {evs : List Event}
  {pc pc' : ClosePc}

theorem idle (h : CloseEffect cfg a nextSend lastSend evs pc pc') (hidle : pc' = .idle) :
    pc = .idle := by
  cases h with
  | still => exact hidle
  | advance _ _ hpast => rw [hidle] at hpast; cases hpast
  | _ => cases hidle

theorem pastPolling (h : CloseEffect cfg a nextSend lastSend evs pc pc')
    (hpast : pc'.pastPolling = false) : pc.pastPolling = false := by
  cases h with
  | still => exact hpast
  | advance _ _ htrue => rw [hpast] at htrue; cases htrue
  | _ => rfl

theorem success {q : UInt32} (h : CloseEffect cfg a nextSend lastSend evs pc pc')
    (hsuccess : .gracefulCloseSuccess q ∈ evs) :
    q ≤ lastSend ∧ ∃ status left, pc = .polling q status left := by
  have hquiet : evs.filter Event.isSuccess ≠ [] :=
    List.ne_nil_of_mem (List.mem_filter.mpr ⟨hsuccess, rfl⟩)
  cases h with
  | succeed hle hevs =>
    rw [hevs] at hsuccess
    cases List.mem_singleton.mp hsuccess
    exact ⟨hle, _, _, rfl⟩
  | still h => exact absurd h hquiet
  | request h => exact absurd h hquiet
  | queue _ h => exact absurd h hquiet
  | poll h => exact absurd h hquiet
  | advance h => exact absurd h hquiet

end CloseEffect

/-- While nobody closes, whoever is about to queue a segment has room for it. -/
structure RoomView.Fits (cfg : SessionConfig) (r : RoomView) : Prop where
  fits : r.queued + r.reserved + (if cfg.isClient = false ∧ r.state = .attached then 1 else 0) ≤
    segmentSendQueueTreeCapacity
  unopened : cfg.isClient = true → r.state = .attached → r.requestSent = false →
    r.queued = 0 ∧ r.reserved = 0 ∧ r.started = false
  answering : r.responding = true → cfg.isClient = false ∧ r.state = .attached

theorem RoomView.Fits.step {cfg : SessionConfig} {pc' : ClosePc} {r r' : RoomView}
    {evs : List Event} (h : r.Fits cfg) (hpc : pc' = .idle) (heff : RoomEffect cfg pc' r r' evs) :
    r'.Fits cfg ∧ ∀ seg, .created seg false ∉ evs := by
  have hfits := h.fits
  cases heff with
  | still => exact ⟨h, by simp⟩
  | closing hne => exact absurd hpc hne
  | take hn =>
    refine ⟨⟨by dsimp only; omega, ?_, h.answering⟩, by simp⟩
    intro hclient hstate hsent
    obtain ⟨hq, hrest⟩ := h.unopened hclient hstate hsent
    exact ⟨Nat.le_zero.mp (hq ▸ hn), hrest⟩
  | start hopen =>
    refine ⟨⟨by dsimp only; omega, ?_, h.answering⟩, by simp⟩
    intro hclient hstate hsent
    exact absurd ⟨hclient, hstate, hsent⟩ hopen
  | request hopen =>
    obtain ⟨hclient, hstate, hsent⟩ := hopen
    obtain ⟨hq, -, -⟩ := h.unopened hclient hstate hsent
    refine ⟨⟨?_, ?_, h.answering⟩, by simp⟩
    · simp only [hclient, Bool.true_eq_false, false_and, ↓reduceIte, segmentSendQueueTreeCapacity]
      omega
    · intro _ _ hfalse
      cases hfalse
  | reserve hstarted hroom =>
    refine ⟨⟨?_, ?_, h.answering⟩, by simp⟩
    · dsimp only
      split_ifs <;> omega
    · intro hclient hstate hsent
      rw [(h.unopened hclient hstate hsent).2.2] at hstarted
      cases hstarted
  | fill hleft hn =>
    refine ⟨⟨by dsimp only; omega, ?_, h.answering⟩, by simp⟩
    intro hclient hstate hsent
    rw [(h.unopened hclient hstate hsent).2.1] at hleft
    cases hleft
  | fillRefused hleft hfull => omega
  | stop =>
    refine ⟨⟨by dsimp only; omega, ?_, h.answering⟩, by simp⟩
    intro hclient hstate hsent
    exact ⟨(h.unopened hclient hstate hsent).1, rfl, rfl⟩
  | ask hserver hstate =>
    exact ⟨⟨hfits, h.unopened, fun _ => ⟨hserver, hstate⟩⟩, by simp⟩
  | answer hresponding hn hstate =>
    obtain ⟨hserver, hattached⟩ := h.answering hresponding
    rw [if_pos ⟨hserver, hattached⟩] at hfits
    refine ⟨⟨?_, ?_, ?_⟩, by simp⟩
    · simp only [hstate, and_false, ↓reduceIte]
      omega
    · intro hclient
      rw [hserver] at hclient
      cases hclient
    · intro hfalse
      cases hfalse
  | answerRefused hresponding hfull =>
    rw [if_pos (h.answering hresponding)] at hfits
    omega
  | leave =>
    refine ⟨⟨hfits, h.unopened, ?_⟩, by simp⟩
    intro hfalse
    cases hfalse
  | establish hclient hstate hresponding =>
    refine ⟨⟨?_, ?_, ?_⟩, by simp⟩
    · simp only [hclient, Bool.true_eq_false, false_and, ↓reduceIte]
      omega
    · intro _ hattached
      exact absurd hattached hstate
    · intro hr
      rw [(h.answering (hresponding hr)).1] at hclient
      cases hclient

end Mieru.Protocol
