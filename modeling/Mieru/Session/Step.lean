import Mieru.Session.Close
import Mieru.Session.Input
import Mieru.Session.Output
import Mieru.Session.Write

/-! # Steps of a session

A loop that called `closeWithError` first runs the close itself and does nothing else
until it is done. -/
namespace Mieru.Protocol

/-- The loop that takes the step, if it is one of the two. -/
def Action.loop : Action → Option Goroutine
  | outputWake _ | outputStart _ | outputLock | resendNext .. | outputClose | sendCheck _
  | sendNext .. | ackCheck _ | ackClear | ackSend .. | streamNext .. => some .outputLoop
  | receive .. | releaseNext | requestAck _ | accept | waitSpace | moveNext | requestAckAgain _
  | respond _ | finishInput | countAck | inputClose .. | inputFail | inputStop => some .inputLoop
  | _ => none

namespace Session

variable {cfg : SessionConfig}

def isClosing (s : Session cfg) (g : Goroutine) : Bool :=
  match s.closePc with
  | .idle | .done => false
  | _ => s.closeCaller = g

def perform (s : Session cfg) : Action → Option (Session cfg × List Event)
  | .write b => s.write b
  | .writeOpen => s.writeOpen
  | .writeRequest => s.writeRequest
  | .writeChunk => s.writeChunk
  | .writeReserve => s.writeReserve
  | .writeLock => s.writeLock
  | .writeFragment => s.writeFragment
  | .writeAbort err => s.writeAbort err
  | .writeDrain => s.writeDrain
  | .read len => s.read len
  | .readLoop => s.readLoop
  | .readReturn => s.readReturn
  | .readWake err => s.readWake err
  | .outputWake why => s.outputWake why
  | .outputStart now => s.outputStart now
  | .outputLock => s.outputLock
  | .resendNext now txTime timeout fate => s.resendNext now txTime timeout fate
  | .outputClose => s.outputClose
  | .sendCheck cwnd => s.sendCheck cwnd
  | .sendNext cwnd now timeout fate => s.sendNext cwnd now timeout fate
  | .ackCheck now => s.ackCheck now
  | .ackClear => s.ackClear
  | .ackSend now jitter fate => s.ackSend now jitter fate
  | .streamNext now fate => s.streamNext now fate
  | .receive packet now => s.receive packet now
  | .releaseNext => s.releaseNext
  | .requestAck now => s.requestAck now
  | .accept => s.accept
  | .waitSpace => s.waitSpace
  | .moveNext => s.moveNext
  | .requestAckAgain now => s.requestAckAgain now
  | .respond quotaOK => s.respond quotaOK
  | .finishInput => s.finishInput
  | .countAck => s.countAck
  | .inputClose now fate => s.inputClose now fate
  | .inputFail => s.inputFail
  | .inputStop => s.inputStop
  | .close => s.close
  | .closeQueue => s.closeQueue
  | .closePoll => s.closePoll
  | .closeForce now fate => s.closeForce now fate
  | .closeClear => s.closeClear

def step (s : Session cfg) (a : Action) : Option (Session cfg × List Event) :=
  if (a.loop.map s.isClosing).getD false then none else s.perform a

theorem perform_effect {s s' : Session cfg} {a : Action} {evs : List Event}
    (h : s.perform a = some (s', evs)) : Effect a s s' evs := by
  cases a with
  | write => exact write_effect h
  | writeOpen => exact writeOpen_effect h
  | writeRequest => exact writeRequest_effect h
  | writeChunk => exact writeChunk_effect h
  | writeReserve => exact writeReserve_effect h
  | writeLock => exact writeLock_effect h
  | writeFragment => exact writeFragment_effect h
  | writeAbort => exact writeAbort_effect h
  | writeDrain => exact writeDrain_effect h
  | read => exact read_effect h
  | readLoop => exact readLoop_effect h
  | readReturn => exact readReturn_effect h
  | readWake => exact readWake_effect h
  | outputWake => exact outputWake_effect h
  | outputStart => exact outputStart_effect h
  | outputLock => exact outputLock_effect h
  | resendNext => exact resendNext_effect h
  | outputClose => exact outputClose_effect h
  | sendCheck => exact sendCheck_effect h
  | sendNext => exact sendNext_effect h
  | ackCheck => exact ackCheck_effect h
  | ackClear => exact ackClear_effect h
  | ackSend => exact ackSend_effect h
  | streamNext => exact streamNext_effect h
  | receive => exact receive_effect h
  | releaseNext => exact releaseNext_effect h
  | requestAck => exact requestAck_effect h
  | accept => exact accept_effect h
  | waitSpace => exact waitSpace_effect h
  | moveNext => exact moveNext_effect h
  | requestAckAgain => exact requestAckAgain_effect h
  | respond => exact respond_effect h
  | finishInput => exact finishInput_effect h
  | countAck => exact countAck_effect h
  | inputClose => exact inputClose_effect h
  | inputFail => exact inputFail_effect h
  | inputStop => exact inputStop_effect h
  | close => exact close_effect h
  | closeQueue => exact closeQueue_effect h
  | closePoll => exact closePoll_effect h
  | closeForce => exact closeForce_effect h
  | closeClear => exact closeClear_effect h

theorem perform_of_step {s s' : Session cfg} {a : Action} {evs : List Event}
    (h : s.step a = some (s', evs)) : s.perform a = some (s', evs) := by
  unfold step at h
  split at h
  · cases h
  · exact h

theorem step_eq_perform {s : Session cfg} (h : s.closePc = .idle) (a : Action) :
    s.step a = s.perform a := by
  have hnot (g : Goroutine) : s.isClosing g = false := by
    unfold isClosing
    rw [h]
  unfold step
  cases a.loop with
  | none => rfl
  | some g => simp [hnot]

theorem step_effect {s s' : Session cfg} {a : Action} {evs : List Event}
    (h : s.step a = some (s', evs)) : Effect a s s' evs :=
  perform_effect (perform_of_step h)

end Session

end Mieru.Protocol
