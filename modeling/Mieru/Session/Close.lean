import Mieru.Session.Effect

/-! # Closing a session

`closeWithError` runs on behalf of whoever called it first. A graceful close queues
the close request and waits until `lastSend` has reached its number; otherwise, and
after a second, the request goes out past the queue. -/
namespace Mieru.Protocol

open OrderedTree

namespace Session

variable {cfg : SessionConfig} (s : Session cfg)

def close : Option (Session cfg × List Event) := some (s.closeWithError true .application, [])

def closeQueue : Option (Session cfg × List Event) :=
  match s.closePc with
  | .begun graceful =>
    if s.state = .attached ∨ s.state = .established then
      if s.oLock then none
      else
        let closeRequestSeq := s.nextSend
        let status := s.status
        let seg := closeRequestSegment cfg closeRequestSeq status
        let s := { s with nextSend := s.nextSend + 1 }
        if graceful then
          match s.sendQueue.insert seg with
          | (q, false) =>
            some ({ s with sendQueue := q, closePc := .forcing closeRequestSeq status },
              [.created seg false])
          | (q, true) =>
            some ({ s with sendQueue := q, closePc := .polling closeRequestSeq status 1000 },
              [.created seg true])
        else some ({ s with closePc := .forcing closeRequestSeq status }, [.created seg false])
    else some ({ s with closePc := .clearingQueue }, [])
  | _ => none

/-- One look at `lastSend`, at most a thousand times. -/
def closePoll : Option (Session cfg × List Event) :=
  match s.closePc with
  | .polling closeRequestSeq status 0 =>
    some ({ s with closePc := .forcing closeRequestSeq status }, [])
  | .polling closeRequestSeq status (left + 1) =>
    if closeRequestSeq ≤ s.lastSend then
      some ({ s with closePc := .clearingQueue }, [.gracefulCloseSuccess closeRequestSeq])
    else some ({ s with closePc := .polling closeRequestSeq status left }, [])
  | _ => none

/-- The close request goes out past the queue; an error is only logged. -/
def closeForce (now : ℤ) (fate : Fate) : Option (Session cfg × List Event) :=
  match s.closePc with
  | .forcing closeRequestSeq status =>
    if s.oLock then none
    else
      let seg := closeRequestSegment cfg closeRequestSeq status
      let s := (s.output seg fate now).1
      some ({ s with closePc := .clearingQueue }, [.output seg.toPacket fate])
  | _ => none

def closeClear : Option (Session cfg × List Event) :=
  match s.closePc with
  | .clearingQueue =>
    some ({ s with sendQueue := s.sendQueue.deleteAll, closePc := .clearingBuf }, [])
  | .clearingBuf =>
    if s.sendBufLocked then none
    else some ({ s with sendBuf := s.sendBuf.deleteAll, closePc := .finishing }, [])
  | .finishing =>
    some ({ s.forwardStateTo .closed with closedChan := true, closePc := .done }, [])
  | _ => none

/-! ## Effects -/

section Effects

variable {s} {s' : Session cfg} {evs : List Event}

theorem close_effect (h : s.close = some (s', evs)) : Effect .close s s' evs := by
  cases h
  exact .quiet (closeWithError_sendView _ _) (closeWithError_recvView _ _) rfl rfl
    (.closing (closeWithError_ne_idle _ _)) (closeWithError_closes rfl rfl)
    (closeWithError_rest _ _)

theorem closes_advance {a : Action} {pc pc' : ClosePc} {nextSend lastSend : UInt32}
    (hpc : s.closePc = pc) (hidle : pc ≠ .idle) (hpast : pc'.pastPolling = true)
    (hquiet : evs.filter Event.isSuccess = []) :
    CloseEffect cfg a nextSend lastSend evs s.closePc pc' :=
  hpc ▸ .advance hquiet hidle hpast

theorem closeQueue_effect (h : s.closeQueue = some (s', evs)) : Effect .closeQueue s s' evs := by
  unfold closeQueue at h
  split at h
  · rename_i graceful hpc
    split at h
    · split at h
      · cases h
      · dsimp only at h
        split at h
        · rename_i hgraceful
          split at h
          · rename_i q hq
            cases h
            exact .of_refused hq rfl rfl rfl rfl rfl (fun _ => .closing ClosePc.noConfusion)
              (closes_advance hpc ClosePc.noConfusion rfl rfl) rfl
          · rename_i q hq
            cases h
            rw [hgraceful] at hpc
            refine .of_queued hq rfl (produced_session rfl rfl rfl) rfl rfl rfl rfl
              (fun _ => .closing ClosePc.noConfusion) ?_ rfl
            rw [hpc]
            exact .queue rfl rfl List.mem_cons_self
        · cases h
          exact .of_send rfl rfl rfl (.lose rfl) (.closing ClosePc.noConfusion)
            (closes_advance hpc ClosePc.noConfusion rfl rfl) rfl
    · cases h
      exact .quiet rfl rfl rfl rfl (.closing ClosePc.noConfusion)
        (closes_advance hpc ClosePc.noConfusion rfl rfl) rfl
  · cases h

theorem closePoll_effect (h : s.closePoll = some (s', evs)) : Effect .closePoll s s' evs := by
  unfold closePoll at h
  split at h
  · rename_i hpc
    cases h
    exact .quiet rfl rfl rfl rfl (.closing ClosePc.noConfusion)
      (closes_advance hpc ClosePc.noConfusion rfl rfl) rfl
  · rename_i seq status left hpc
    split at h
    · rename_i hle
      cases h
      refine .quiet rfl rfl rfl rfl (.closing ClosePc.noConfusion) ?_ rfl
      rw [hpc]
      exact .succeed hle rfl
    · cases h
      refine .quiet rfl rfl rfl rfl (.closing ClosePc.noConfusion) ?_ rfl
      rw [hpc]
      exact .poll rfl
  · cases h

theorem closeForce_effect {now : ℤ} {fate : Fate} (h : s.closeForce now fate = some (s', evs)) :
    Effect (.closeForce now fate) s s' evs := by
  unfold closeForce at h
  split at h
  · rename_i seq status hpc
    split at h
    · cases h
    · dsimp only at h
      obtain ⟨time, heq⟩ := output_eq (s := s)
        (Prod.mk.eta (p := s.output (closeRequestSegment cfg seq status) fate now)).symm
      rw [heq] at h
      cases h
      exact .of_send rfl rfl rfl (.force hpc) (.closing ClosePc.noConfusion)
        (closes_advance hpc ClosePc.noConfusion rfl rfl) rfl
  · cases h

theorem closeClear_effect (h : s.closeClear = some (s', evs)) : Effect .closeClear s s' evs := by
  unfold closeClear at h
  split at h
  · rename_i hpc
    cases h
    exact .of_send rfl rfl rfl (.clearQueue hpc) (.closing ClosePc.noConfusion)
      (closes_advance hpc ClosePc.noConfusion rfl rfl) rfl
  · rename_i hpc
    split at h
    · cases h
    · cases h
      exact .of_send rfl rfl rfl (.clearBuf hpc) (.closing ClosePc.noConfusion)
        (closes_advance hpc ClosePc.noConfusion rfl rfl) rfl
  · rename_i hpc
    cases h
    exact .quiet rfl rfl rfl rfl (.closing ClosePc.noConfusion)
      (closes_advance hpc ClosePc.noConfusion rfl rfl) rfl
  · cases h

end Effects

end Session

end Mieru.Protocol
