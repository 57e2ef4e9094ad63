import Mieru.Session.Step

/-! # The two loops

Where a step takes the input loop and the output loop, and under which condition. -/
namespace Mieru.Protocol

open OrderedTree

/-- The input loop goes from one point to another. -/
inductive InputFlow {cfg : SessionConfig} (s : Session cfg) : Action → InputPc → InputPc → Prop
  | refuse {packet : Packet} {now : ℤ} : InputFlow s (.receive packet now) .idle .failed
  | take {packet : Packet} {now : ℤ}
      (haccepts : acceptsProtocol cfg.isClient packet.protocol = true) :
      InputFlow s (.receive packet now) .idle (Session.inputDispatch cfg { toPacket := packet })
  | stop : InputFlow s .inputStop .idle .stopped
  | release {seg : Segment} : InputFlow s .releaseNext (.releasing seg) (.releasing seg)
  | count {seg : Segment} (hack : isAckProtocol seg.protocol = true) :
      InputFlow s .releaseNext (.releasing seg) (.counting seg)
  | released {seg : Segment} (hack : isAckProtocol seg.protocol = false) :
      InputFlow s .releaseNext (.releasing seg) (.requesting seg)
  | request {seg : Segment} {now : ℤ} :
      InputFlow s (.requestAck now) (.requesting seg) (.accepting seg)
  | drop {seg : Segment} : InputFlow s .accept (.accepting seg) (.finishing seg)
  | buffer {seg : Segment} : InputFlow s .accept (.accepting seg) (.waitingSpace seg)
  | space {seg : Segment} : InputFlow s .waitSpace (.waitingSpace seg) (.moving seg)
  | closed {seg : Segment} {pc : InputPc} (hclosed : s.closedChan = true)
      (hpc : pc = .requestingAgain seg ∨ pc = s.afterData seg) :
      InputFlow s .waitSpace (.waitingSpace seg) pc
  | move {seg : Segment} : InputFlow s .moveNext (.moving seg) (.moving seg)
  | moved {seg : Segment} : InputFlow s .moveNext (.moving seg) (.requestingAgain seg)
  | deliver {seg : Segment} {pc : InputPc} (hstream : cfg.transportProtocol = .streamTransport)
      (hpc : pc = s.afterData seg ∨ pc = .failed) : InputFlow s .moveNext (.moving seg) pc
  | requestAgain {seg : Segment} {now : ℤ} :
      InputFlow s (.requestAckAgain now) (.requestingAgain seg) (s.afterData seg)
  | answer {seg : Segment} {quotaOK : Bool} :
      InputFlow s (.respond quotaOK) (.responding seg) (.finishing seg)
  | answerRefused {seg : Segment} {quotaOK : Bool} :
      InputFlow s (.respond quotaOK) (.responding seg) .failed
  | finish {seg : Segment} : InputFlow s .finishInput (.finishing seg) .idle
  | counted {seg : Segment} : InputFlow s .countAck (.counting seg) .idle
  | closing {seg : Segment} {now : ℤ} {fate : Fate} {pc : InputPc}
      (hpc : pc = .idle ∨ pc = .stopped) :
      InputFlow s (.inputClose now fate) (.closing seg) pc
  | fail : InputFlow s .inputFail .failed .stopped

inductive OutputFlow {cfg : SessionConfig} (s : Session cfg) : Action → OutputPc → OutputPc → Prop
  | wake {why : OutputWake} : OutputFlow s (.outputWake why) .waiting .starting
  | stop : OutputFlow s (.outputWake .closed) .waiting .stopped
  | hasErr {now : ℤ} (herr : s.outputHasErr = true) :
      OutputFlow s (.outputStart now) .starting .waiting
  | start {now : ℤ} {pc : OutputPc}
      (hpc : pc = .streamLock ∨ pc = .resendLock ∨ pc = .sendCheck 0) :
      OutputFlow s (.outputStart now) .starting pc
  | lockResend : OutputFlow s .outputLock .resendLock (.resending none none 0)
  | lockSend {total : ℕ} : OutputFlow s .outputLock (.sendLock total) (.sending total)
  | lockStream : OutputFlow s .outputLock .streamLock .streaming
  | resend {now txTime timeout : ℤ} {fate : Fate} {cursor cursor' : Option UInt32}
      {nextTX nextTX' : Option ℤ} {total total' : ℕ} :
      OutputFlow s (.resendNext now txTime timeout fate) (.resending cursor nextTX total)
        (.resending cursor' nextTX' total')
  | resent {now txTime timeout : ℤ} {fate : Fate} {cursor : Option UInt32} {nextTX : Option ℤ}
      {total : ℕ} {pc : OutputPc} (hpc : pc = .sendCheck total ∨ pc = .failed (.sendCheck total)) :
      OutputFlow s (.resendNext now txTime timeout fate) (.resending cursor nextTX total) pc
  | resume {pc : OutputPc} : OutputFlow s .outputClose (.failed pc) pc
  | check {cwnd : ℤ} {total : ℕ} :
      OutputFlow s (.sendCheck cwnd) (.sendCheck total) (.sendLock total)
  | skipSend {cwnd : ℤ} {total : ℕ}
      (hskip : ¬(0 < s.sendQueue.len ∧ 0 < s.sendWindowSize cwnd)) :
      OutputFlow s (.sendCheck cwnd) (.sendCheck total) .ackCheck
  | send {cwnd now timeout : ℤ} {fate : Fate} {total : ℕ} :
      OutputFlow s (.sendNext cwnd now timeout fate) (.sending total) (.sending (total + 1))
  | sent {cwnd now timeout : ℤ} {fate : Fate} {total : ℕ} {pc : OutputPc}
      (hpc : pc = .ackCheck ∨ pc = .failed .ackCheck) :
      OutputFlow s (.sendNext cwnd now timeout fate) (.sending total) pc
  | checkAck {now : ℤ} {pc : OutputPc} (hpc : pc = .ackClear ∨ pc = .waiting) :
      OutputFlow s (.ackCheck now) .ackCheck pc
  | clear : OutputFlow s .ackClear .ackClear .ackSend
  | ack {now jitter : ℤ} {fate : Fate} {pc : OutputPc}
      (hpc : pc = .waiting ∨ pc = .failed .waiting) :
      OutputFlow s (.ackSend now jitter fate) .ackSend pc
  | stream {now : ℤ} {fate : Fate} {pc : OutputPc}
      (hstream : cfg.transportProtocol = .streamTransport)
      (hpc : pc = .streaming ∨ pc = .waiting ∨ pc = .failed .waiting) :
      OutputFlow s (.streamNext now fate) .streaming pc

namespace Session

variable {cfg : SessionConfig} {s s' : Session cfg} {a : Action} {evs : List Event}

theorem moveNext_flow (h : s.moveNext = some (s', evs)) :
    InputFlow s .moveNext s.inputPc s'.inputPc := by
  unfold moveNext at h
  split at h
  · rename_i seg hpc
    rw [hpc]
    split at h
    · rename_i hstream
      split at h
      · cases h
      split at h <;> cases h
      · exact .deliver hstream (.inr rfl)
      · exact .deliver hstream (.inl rfl)
    split at h
    · cases h
      exact .moved
    · rename_i hroom
      split at h
      · cases h
        exact .moved
      · split at h
        · cases h
          rw [hpc]
          exact .move
        · split at h
          · cases h
            rw [hpc]
            exact .move
          · rename_i hq
            have hfull := (SegmentTree.insert_false hq).1
            simp only [SegmentTree.remaining, SegmentTree.len] at hroom
            omega
  · cases h

theorem releaseNext_flow (h : s.releaseNext = some (s', evs)) :
    InputFlow s .releaseNext s.inputPc s'.inputPc := by
  unfold releaseNext at h
  split at h
  · rename_i seg hpc
    rw [hpc]
    split at h
    · cases h
    · rename_i das hmeta
      have hproto : seg.protocol = das.protocol := congrArg Metadata.protocol hmeta
      split at h
      · cases h
      · split at h
        · cases h
          rw [hpc]
          exact .release
        · cases h
          dsimp only
          split_ifs with hack
          · exact .count (hproto ▸ hack)
          · exact .released (hproto ▸ Bool.eq_false_iff.mpr hack)
  · cases h

theorem input_flow (h : s.perform a = some (s', evs)) (ha : a.party = .inputLoop) :
    InputFlow s a s.inputPc s'.inputPc := by
  cases a with
  | receive =>
    simp only [perform, receive] at h
    split at h
    · rename_i hpc
      rw [hpc]
      split at h
      · cases h
        exact .refuse
      · rename_i haccepts
        cases h
        exact .take (not_not.mp haccepts)
    · cases h
  | releaseNext => exact releaseNext_flow h
  | requestAck =>
    simp only [perform, requestAck] at h
    split at h
    · rename_i hpc
      cases h
      rw [hpc]
      exact .request
    · cases h
  | accept =>
    simp only [perform, accept] at h
    split at h
    · rename_i hpc
      rw [hpc]
      split_ifs at h
      · cases h
        exact .drop
      · split at h <;> cases h
        · exact .drop
        · exact .buffer
    · cases h
  | waitSpace =>
    simp only [perform, waitSpace] at h
    split at h
    · rename_i hpc
      rw [hpc]
      split at h
      · rename_i hclosed
        split at h <;> cases h
        · exact .closed hclosed (.inr rfl)
        · exact .closed hclosed (.inl rfl)
      · split at h <;> cases h
        exact .space
    · cases h
  | moveNext => exact moveNext_flow h
  | requestAckAgain =>
    simp only [perform, requestAckAgain] at h
    split at h
    · rename_i hpc
      cases h
      rw [hpc]
      exact .requestAgain
    · cases h
  | respond =>
    simp only [perform, respond] at h
    split at h
    · rename_i hpc
      rw [hpc]
      split at h
      · cases h
      · split at h
        · cases h
          simpa using .answer
        · split at h <;> cases h
          · exact .answerRefused
          · simpa using .answer
    · cases h
  | finishInput =>
    simp only [perform, finishInput] at h
    split at h
    · rename_i hpc
      rw [hpc]
      split at h <;> cases h
      · simpa using .finish
      · exact .finish
    · cases h
  | countAck =>
    simp only [perform, countAck] at h
    split at h
    · rename_i hpc
      rw [hpc]
      split at h
      · cases h
      · split at h <;> cases h
        simpa using .counted
    · cases h
  | inputClose =>
    simp only [perform, inputClose] at h
    split at h
    · rename_i hpc
      rw [hpc]
      split at h
      · cases h
      · split at h
        · split at h <;> cases h
          · exact .closing (.inr (by simp))
          · exact .closing (.inl (by simp))
        · cases h
          exact .closing (.inl (by simp))
    · cases h
  | inputFail =>
    simp only [perform, inputFail] at h
    split at h
    · rename_i hpc
      cases h
      rw [hpc]
      simpa using .fail
    · cases h
  | inputStop =>
    simp only [perform, inputStop] at h
    split at h
    · rename_i hpc
      rw [hpc]
      split at h <;> cases h
      exact .stop
    · cases h
  | _ => cases ha

theorem outputPc_output {t : Session cfg} {seg : Segment} {fate : Fate} {now : ℤ} {ok : Bool}
    (h : s.output seg fate now = (t, ok)) : t.outputPc = s.outputPc := by
  obtain ⟨time, rfl⟩ := output_eq h
  rfl

theorem resendNext_flow {now txTime timeout : ℤ} {fate : Fate}
    (h : s.resendNext now txTime timeout fate = some (s', evs)) :
    OutputFlow s (.resendNext now txTime timeout fate) s.outputPc s'.outputPc := by
  unfold resendNext at h
  split at h
  · rename_i hpc
    rw [hpc]
    split at h
    · cases h
      exact .resent (.inl rfl)
    · split at h
      · cases h
        exact .resent (.inr rfl)
      · split at h
        · dsimp only at h
          split at h <;> cases h
          · exact .resent (.inr rfl)
          · exact .resend
        · cases h
          exact .resend
  · cases h

theorem sendNext_flow {cwnd now timeout : ℤ} {fate : Fate}
    (h : s.sendNext cwnd now timeout fate = some (s', evs)) :
    OutputFlow s (.sendNext cwnd now timeout fate) s.outputPc s'.outputPc := by
  unfold sendNext at h
  split at h
  · rename_i hpc
    rw [hpc]
    split at h
    · cases h
      exact .sent (.inl rfl)
    · split at h
      · cases h
        exact .sent (.inl rfl)
      · dsimp only at h
        split at h
        · cases h
          exact .sent (.inr rfl)
        · split at h <;> cases h
          · exact .sent (.inr rfl)
          · exact .send
  · cases h

theorem output_flow (h : s.perform a = some (s', evs)) (ha : a.party = .outputLoop) :
    OutputFlow s a s.outputPc s'.outputPc := by
  cases a with
  | outputWake why =>
    simp only [perform, outputWake] at h
    split at h
    · rename_i hpc
      rw [hpc]
      split at h <;> split at h <;> cases h
      · exact .stop
      · exact .wake
      · exact .wake
      · exact .wake
    · cases h
  | outputStart =>
    simp only [perform, outputStart] at h
    split at h
    · rename_i hpc
      rw [hpc]
      split_ifs at h with herr <;> cases h
      · exact .hasErr herr
      · exact .start (.inl rfl)
      · exact .start (.inr (.inl rfl))
      · exact .start (.inr (.inr rfl))
    · cases h
  | outputLock =>
    simp only [perform, outputLock] at h
    split at h
    · cases h
    · split at h
      · rename_i hpc
        cases h
        rw [hpc]
        exact .lockResend
      · rename_i hpc
        cases h
        rw [hpc]
        exact .lockSend
      · rename_i hpc
        cases h
        rw [hpc]
        exact .lockStream
      · cases h
  | resendNext => exact resendNext_flow h
  | outputClose =>
    simp only [perform, outputClose] at h
    split at h
    · rename_i hpc
      cases h
      rw [hpc]
      simpa using .resume
    · cases h
  | sendCheck =>
    simp only [perform, sendCheck] at h
    split at h
    · rename_i hpc
      rw [hpc]
      split at h
      · cases h
        exact .check
      · rename_i hskip
        cases h
        exact .skipSend hskip
    · cases h
  | sendNext => exact sendNext_flow h
  | ackCheck =>
    simp only [perform, ackCheck] at h
    split at h
    · rename_i hpc
      rw [hpc]
      split at h <;> cases h
      · exact .checkAck (.inl rfl)
      · exact .checkAck (.inr rfl)
    · cases h
  | ackClear =>
    simp only [perform, ackClear] at h
    split at h
    · rename_i hpc
      cases h
      rw [hpc]
      exact .clear
    · cases h
  | ackSend =>
    simp only [perform, ackSend] at h
    split at h
    · rename_i hpc
      rw [hpc]
      split at h
      · cases h
      · split at h <;> cases h
        · exact .ack (.inr rfl)
        · exact .ack (.inl rfl)
    · cases h
  | streamNext =>
    simp only [perform, streamNext] at h
    split at h
    · rename_i hpc
      rw [hpc]
      split at h
      · rename_i hstream
        split at h
        · cases h
          exact .stream hstream (.inr (.inl rfl))
        · split at h
          · cases h
            exact .stream hstream (.inr (.inr rfl))
          · rename_i hout
            cases h
            exact .stream hstream (.inl ((outputPc_output hout).trans hpc))
      · cases h
    · cases h
  | _ => cases ha

end Session

end Mieru.Protocol
