import Mieru.Lib.Machine
import Mieru.Session.Flow

/-! # No acknowledgement is lost

The input loop asks for an acknowledgement through `ackOnDataRecv`, and the output loop
clears the flag before it reads `nextRecv`. Beside the session runs a record of what the last
acknowledgement covered. -/
namespace Mieru.Protocol

open OrderedTree ProtocolType

def isInputData (p : ProtocolType) : Bool :=
  p = openSessionRequest ∨ p = openSessionResponse ∨ isDataProtocol p

def InputPc.inData : InputPc → Bool
  | releasing seg => isInputData seg.protocol
  | requesting _ | accepting _ | waitingSpace _ | moving _ | requestingAgain _
  | responding _ => true
  | _ => false

/-- The segment in hand has not yet asked for its acknowledgement. -/
def InputPc.willRequest : InputPc → Bool
  | releasing seg => isInputData seg.protocol
  | requesting _ => true
  | _ => false

/-- `nextRecv` may have moved since the segment in hand asked. -/
def InputPc.willRequestAgain : InputPc → Bool
  | moving _ | requestingAgain _ => true
  | _ => false

theorem InputPc.inData_of_willRequest {pc : InputPc} (h : pc.willRequest = true) :
    pc.inData = true := by
  cases pc with
  | releasing seg => exact h
  | requesting seg => rfl
  | _ => cases h

theorem InputPc.inData_of_willRequestAgain {pc : InputPc} (h : pc.willRequestAgain = true) :
    pc.inData = true := by
  cases pc with
  | moving seg => rfl
  | requestingAgain seg => rfl
  | _ => cases h

/-- The flag is cleared and the acknowledgement not yet sent. -/
def OutputPc.isAcking : OutputPc → Bool
  | ackSend => true
  | _ => false

structure AckLedger (cfg : SessionConfig) where
  session : Session cfg
  /-- A segment has come since the last acknowledgement read `nextRecv`. -/
  arrived : Bool := false
  acked : UInt32 := 0

namespace AckLedger

variable {cfg : SessionConfig}

def observe (l : AckLedger cfg) (s : Session cfg) : Action → AckLedger cfg
  | .receive packet _ =>
    { l with
      session := s
      arrived := l.arrived ||
        (acceptsProtocol cfg.isClient packet.protocol && isInputData packet.protocol) }
  | .ackSend _ _ .sent => { session := s, arrived := false, acked := l.session.nextRecv }
  | _ => { l with session := s }

def step (l : AckLedger cfg) (a : Action) : Option (AckLedger cfg × List Event) :=
  (l.session.step a).map fun (s, evs) => (l.observe s a, evs)

/-- The acknowledgements that are sent reach the network. -/
def sends (_ : AckLedger cfg) : Action → Bool
  | .ackSend _ _ fate => fate = .sent
  | _ => true

/-- Whatever the last acknowledgement does not cover is asked for, or will be at once. -/
structure Requested (l : AckLedger cfg) : Prop where
  arrived : l.arrived = true → l.session.ackOnDataRecv = true ∨
    l.session.outputPc.isAcking = true ∨ l.session.inputPc.willRequest = true
  advanced : l.session.nextRecv ≠ l.acked → l.session.ackOnDataRecv = true ∨
    l.session.outputPc.isAcking = true ∨ l.session.inputPc.willRequestAgain = true

end AckLedger

namespace Session

variable {cfg : SessionConfig} {s s' : Session cfg} {a : Action} {evs : List Event}

theorem isAcking_kept (h : s.perform a = some (s', evs)) (hacking : s.outputPc.isAcking = true)
    (ha : ∀ now jitter fate, a ≠ .ackSend now jitter fate) : s'.outputPc.isAcking = true := by
  by_cases hout : a.party = .outputLoop
  · have hflow := output_flow h hout
    generalize s.outputPc = pc at hflow hacking
    generalize s'.outputPc = pc' at hflow ⊢
    cases hflow with
    | ack => exact absurd rfl (ha _ _ _)
    | _ => cases hacking
  · rw [(perform_effect h).keeps .outputLoop (by simpa [Action.touches] using hout)]
    exact hacking

theorem isAckProtocol_of_isInputData {p : ProtocolType} (h : isInputData p = true) :
    isAckProtocol p = false := by
  revert h
  cases p <;> decide

theorem willRequest_kept (h : s.perform a = some (s', evs))
    (hwill : s.inputPc.willRequest = true) (ha : ∀ now, a ≠ .requestAck now) :
    s'.inputPc.willRequest = true := by
  by_cases hin : a.party = .inputLoop
  · have hflow := input_flow h hin
    generalize s.inputPc = pc at hflow hwill
    generalize s'.inputPc = pc' at hflow ⊢
    cases hflow with
    | release => exact hwill
    | count hack =>
      rw [isAckProtocol_of_isInputData hwill] at hack
      cases hack
    | released => rfl
    | request => exact absurd rfl (ha _)
    | _ => cases hwill
  · rw [(perform_effect h).keeps .inputLoop (by simpa [Action.touches] using hin)]
    exact hwill

theorem moveNext_willRequestAgain (hpacket : cfg.transportProtocol = .packetTransport)
    (h : s.moveNext = some (s', evs)) : s'.inputPc.willRequestAgain = true := by
  have hflow := moveNext_flow h
  generalize s.inputPc = pc at hflow
  generalize s'.inputPc = pc' at hflow ⊢
  cases hflow with
  | move => rfl
  | moved => rfl
  | deliver hstream =>
    rw [hpacket] at hstream
    cases hstream

theorem willRequestAgain_kept (hpacket : cfg.transportProtocol = .packetTransport)
    (h : s.perform a = some (s', evs)) (hwill : s.inputPc.willRequestAgain = true)
    (ha : ∀ now, a ≠ .requestAckAgain now) : s'.inputPc.willRequestAgain = true := by
  by_cases hmove : a = .moveNext
  · subst hmove
    exact moveNext_willRequestAgain hpacket h
  by_cases hin : a.party = .inputLoop
  · have hflow := input_flow h hin
    generalize s.inputPc = pc at hflow hwill
    generalize s'.inputPc = pc' at hflow ⊢
    cases hflow with
    | requestAgain => exact absurd rfl (ha _)
    | _ => first | exact absurd rfl hmove | cases hwill
  · rw [(perform_effect h).keeps .inputLoop (by simpa [Action.touches] using hin)]
    exact hwill

theorem requestPacketAck_set (s : Session cfg) (now : ℤ) :
    (s.requestPacketAck now).ackOnDataRecv = true := by
  unfold requestPacketAck
  split_ifs with hset
  · exact hset
  · rfl

theorem requestAck_set {now : ℤ} (h : s.requestAck now = some (s', evs)) :
    s'.ackOnDataRecv = true := by
  unfold requestAck at h
  split at h
  · cases h
    exact requestPacketAck_set _ _
  · cases h

theorem requestAckAgain_set {now : ℤ} (h : s.requestAckAgain now = some (s', evs)) :
    s'.ackOnDataRecv = true := by
  unfold requestAckAgain at h
  split at h
  · cases h
    exact requestPacketAck_set _ _
  · cases h

theorem willRequest_inputDispatch {seg : Segment}
    (hpacket : cfg.transportProtocol = .packetTransport) (hdata : isInputData seg.protocol = true) :
    (inputDispatch cfg seg).willRequest = true := by
  have hstream : cfg.transportProtocol ≠ .streamTransport := by simp [hpacket]
  have hdispatch : seg.protocol = openSessionRequest ∨ seg.protocol = openSessionResponse ∨
      isDataProtocol seg.protocol = true := by simpa [isInputData] using hdata
  simp only [inputDispatch, if_pos hdispatch, decide_eq_true_eq, if_neg hstream]
  split
  · rfl
  · exact hdata

theorem receive_willRequest {packet : Packet} {now : ℤ}
    (hpacket : cfg.transportProtocol = .packetTransport)
    (h : s.receive packet now = some (s', evs)) (hdata : isInputData packet.protocol = true)
    (haccepts : acceptsProtocol cfg.isClient packet.protocol = true) :
    s'.inputPc.willRequest = true := by
  unfold receive at h
  split at h
  · split at h
    · rename_i hno
      exact absurd haccepts hno
    · cases h
      exact willRequest_inputDispatch hpacket hdata
  · cases h

end Session

namespace AckLedger

variable {cfg : SessionConfig} {l l' : AckLedger cfg} {a : Action} {evs : List Event}

theorem Requested.of_kept {s' : Session cfg} (hreq : l.Requested)
    (hpacket : cfg.transportProtocol = .packetTransport)
    (hp : l.session.perform a = some (s', evs))
    (hack : a.touches .ackOnDataRecv = false) (hnext : a.touches .nextRecv = false)
    (hsend : ∀ now jitter fate, a ≠ .ackSend now jitter fate) :
    Requested { l with session := s' } := by
  have heff := Session.perform_effect hp
  have hflag : s'.ackOnDataRecv = l.session.ackOnDataRecv := heff.keeps .ackOnDataRecv hack
  have hrecv : s'.nextRecv = l.session.nextRecv := heff.keeps .nextRecv hnext
  constructor
  · intro harrived
    rcases hreq.arrived harrived with hset | hacking | hwill
    · exact .inl (hflag.trans hset)
    · exact .inr (.inl (Session.isAcking_kept hp hacking hsend))
    · refine .inr (.inr (Session.willRequest_kept hp hwill ?_))
      rintro now rfl
      cases hack
  · intro hadvanced
    rcases hreq.advanced (fun heq => hadvanced (hrecv.trans heq)) with hset | hacking | hwill
    · exact .inl (hflag.trans hset)
    · exact .inr (.inl (Session.isAcking_kept hp hacking hsend))
    · refine .inr (.inr (Session.willRequestAgain_kept hpacket hp hwill ?_))
      rintro now rfl
      cases hack

theorem Requested.step (hreq : l.Requested) (hpacket : cfg.transportProtocol = .packetTransport)
    (hsends : l.sends a = true) (h : l.step a = some (l', evs)) : l'.Requested := by
  obtain ⟨⟨s', evs'⟩, hs, heq⟩ := Option.map_eq_some_iff.mp h
  cases heq
  have hp := Session.perform_of_step hs
  cases a with
  | ackSend now jitter fate =>
    obtain rfl : fate = .sent := by simpa [sends] using hsends
    refine ⟨Bool.false_ne_true.elim, fun hadvanced => ?_⟩
    exact absurd ((Session.perform_effect hp).keeps .nextRecv rfl) hadvanced
  | ackClear =>
    have hacking : s'.outputPc.isAcking = true := by
      simp only [Session.perform, Session.ackClear] at hp
      split at hp
      · cases hp
        rfl
      · cases hp
    exact ⟨fun _ => .inr (.inl hacking), fun _ => .inr (.inl hacking)⟩
  | requestAck now =>
    have hset := Session.requestAck_set hp
    exact ⟨fun _ => .inl hset, fun _ => .inl hset⟩
  | requestAckAgain now =>
    have hset := Session.requestAckAgain_set hp
    exact ⟨fun _ => .inl hset, fun _ => .inl hset⟩
  | moveNext =>
    refine ⟨fun harrived => ?_, fun _ => ?_⟩
    · rcases hreq.arrived harrived with hset | hacking | hwill
      · exact .inl (((Session.perform_effect hp).keeps .ackOnDataRecv rfl).trans hset)
      · exact .inr (.inl (Session.isAcking_kept hp hacking (by simp)))
      · exact .inr (.inr (Session.willRequest_kept hp hwill (by simp)))
    · exact .inr (.inr (Session.moveNext_willRequestAgain hpacket hp))
  | receive packet now =>
    have hkept : Requested { l with session := s' } :=
      hreq.of_kept hpacket hp rfl rfl (by simp)
    refine ⟨fun harrived => ?_, hkept.advanced⟩
    rcases Bool.or_eq_true _ _ ▸ harrived with hold | hnew
    · exact hkept.arrived hold
    · obtain ⟨haccepts, hdata⟩ := Bool.and_eq_true _ _ ▸ hnew
      exact .inr (.inr (Session.receive_willRequest hpacket hp hdata haccepts))
  | _ => exact hreq.of_kept hpacket hp rfl rfl (by simp)

/-- Between two calls of `inputData`, unless an acknowledgement is just going out: if a segment
has come since the last acknowledgement read `nextRecv`, or `nextRecv` is beyond what it carried,
the next one is asked for. -/
theorem ack_requested {now jitter : ℤ} {es : List Action} {outs : List Event}
    (hpacket : cfg.transportProtocol = .packetTransport)
    (h : Machine.Reaches step (fun l a => l.sends a = true)
      (⟨.attached now jitter, false, 0⟩ : AckLedger cfg) es outs l)
    (hinput : l.session.inputPc.inData = false) (houtput : l.session.outputPc.isAcking = false)
    (hdue : l.arrived = true ∨ l.session.nextRecv ≠ l.acked) :
    l.session.ackOnDataRecv = true := by
  have hreq : l.Requested := by
    refine h.invariant (I := fun l _ => l.Requested) ?_ ?_
    · exact ⟨Bool.false_ne_true.elim, fun hne => absurd rfl hne⟩
    · intro l _ a l' evs hreq hsends hstep
      exact hreq.step hpacket hsends hstep
  have hnot : l.session.outputPc.isAcking ≠ true := by simp [houtput]
  rcases hdue with harrived | hadvanced
  · rcases hreq.arrived harrived with hset | hacking | hwill
    · exact hset
    · exact absurd hacking hnot
    · rw [InputPc.inData_of_willRequest hwill] at hinput
      cases hinput
  · rcases hreq.advanced hadvanced with hset | hacking | hwill
    · exact hset
    · exact absurd hacking hnot
    · rw [InputPc.inData_of_willRequestAgain hwill] at hinput
      cases hinput

/-- The open request is moved to `recvQueue` right after a heartbeat read `nextRecv`. -/
def requestDuringHeartbeat : List Action := [
  .outputWake .timer, .outputStart 7000000, .sendCheck 16, .ackCheck 7000000,
  .receive (Session.openRequestSegment (packetConfig true) 0 [1]).toPacket 7000000,
  .requestAck 7000000, .accept, .waitSpace, .ackClear, .ackSend 7000000 0 .sent, .moveNext,
  .moveNext, .requestAckAgain 7000000, .respond true]

theorem request_during_heartbeat_acked : ∃ (l : AckLedger (packetConfig false)) (outs : List Event),
    Machine.Reaches step (fun l a => l.sends a = true) ⟨.attached 0 0, false, 0⟩
      requestDuringHeartbeat outs l ∧
    l.acked = 0 ∧ l.session.nextRecv = 1 ∧ l.session.ackOnDataRecv = true := by
  have hsummary : (Machine.run (Machine.guarded sends step)
      (⟨.attached 0 0, false, 0⟩ : AckLedger (packetConfig false)) requestDuringHeartbeat).map
        (fun r => (r.1.session.inputPc.inData, r.1.session.outputPc.isAcking, r.1.session.nextRecv,
          r.1.acked)) = some (false, false, 1, 0) := by
    rfl
  obtain ⟨⟨l, outs⟩, hrun, heq⟩ := Option.map_eq_some_iff.mp hsummary
  simp only [Prod.mk.injEq] at heq
  obtain ⟨hinput, houtput, hnext, hacked⟩ := heq
  have hreach := Machine.reaches_of_guarded_run hrun
  have hdue : l.session.nextRecv ≠ l.acked := by
    rw [hnext, hacked]
    decide
  exact ⟨l, outs, hreach, hacked, hnext, ack_requested rfl hreach hinput houtput (.inr hdue)⟩

end AckLedger

end Mieru.Protocol
