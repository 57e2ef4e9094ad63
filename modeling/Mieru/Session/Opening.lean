import Mieru.Session.WakeUp

/-! # Before the server has answered

A client on a packet transport sends nothing but its open session request until it has taken
notice of the open session response. Data waits in `sendQueue`; acknowledgements and heartbeats
are put off. -/
namespace Mieru.Protocol

open OrderedTree ProtocolType

theorem Segment.protocol_refreshAck (seg : Segment) (nextRecv : UInt32) :
    (seg.refreshAck nextRecv).protocol = seg.protocol := by
  unfold refreshAck
  split
  · rfl
  · rename_i das hm
    simp only [Packet.protocol, Metadata.protocol, hm]

/-- The output loop has decided to send an acknowledgement or a heartbeat. -/
def OutputPc.willAck : OutputPc → Bool
  | ackClear | ackSend => true
  | failed resume => resume.willAck
  | _ => false

def OnlyRequests (evs : List Event) : Prop :=
  ∀ p fate, .output p fate ∈ evs → p.protocol = openSessionRequest

theorem onlyRequests_nil : OnlyRequests [] := fun _ _ hmem => absurd hmem List.not_mem_nil

namespace Session

variable {cfg : SessionConfig}

def processesResponse (s : Session cfg) : Action → Bool
  | .readLoop => s.readsOpenResponse
  | .finishInput =>
    match s.inputPc with
    | .finishing seg => seg.protocol = openSessionResponse
    | _ => false
  | _ => false

/-- What holds as long as the session is neither answered nor closing. -/
structure Opening (s : Session cfg) : Prop where
  attached : s.state = .attached
  queue : ∀ seg ∈ s.sendQueue.items,
    seg.protocol = openSessionRequest ∨ isDataProtocol seg.protocol = true
  buf : ∀ seg ∈ s.sendBuf.items, seg.protocol = openSessionRequest
  silent : s.outputPc.willAck = false
  answers : s.inputPc.isResponding = false

variable {s s' : Session cfg} {a : Action} {evs : List Event}

/-! ## The segments -/

theorem requests_of_sends {nextRecv : UInt32} {hand : Option Segment} {pc pc' : ClosePc}
    {v v' : SendView} (h : SendEffect cfg nextRecv hand pc pc' a v v' evs)
    (hpacket : cfg.transportProtocol = .packetTransport) (hidle : pc = .idle)
    (hbypass : a.bypassesQueue = false) (hqueue : v'.queue = v.queue)
    (hbuf : ∀ seg ∈ v.buf, seg.protocol = openSessionRequest) :
    (∀ seg ∈ v'.buf, seg.protocol = openSessionRequest) ∧ OnlyRequests evs := by
  cases h with
  | quiet => exact ⟨hbuf, onlyRequests_nil⟩
  | create | lose =>
    refine ⟨hbuf, ?_⟩
    intro p fate hmem
    cases List.mem_singleton.mp hmem
  | transmit seg' hq =>
    rw [hq] at hqueue
    exact absurd hqueue.symm (List.cons_ne_self _ _)
  | @retransmit seg fate seg' hmem hsame =>
    have hseg' : seg'.protocol = openSessionRequest := by
      rw [Segment.protocol, hsame]
      exact (seg.protocol_refreshAck nextRecv).trans (hbuf seg hmem)
    refine ⟨?_, ?_⟩
    · intro x hx
      obtain ⟨y, hy, rfl⟩ := List.mem_map.mp hx
      split_ifs
      · exact hseg'
      · exact hbuf y hy
    · intro p fate hout
      cases List.mem_singleton.mp hout
      exact hseg'
  | @touch f hf =>
    refine ⟨?_, onlyRequests_nil⟩
    intro x hx
    obtain ⟨y, hy, rfl⟩ := List.mem_map.mp hx
    rw [Segment.protocol, hf]
    exact hbuf y hy
  | acknowledge h | reply h =>
    rw [hbypass] at h
    cases h
  | release hb => exact ⟨fun x hx => hbuf x (hb ▸ List.mem_cons_of_mem _ hx), onlyRequests_nil⟩
  | stream hstream =>
    rw [hpacket] at hstream
    cases hstream
  | force hpc | clearQueue hpc | clearBuf hpc =>
    rw [hidle] at hpc
    cases hpc

theorem writeRequest_requests (h : s.writeRequest = some (s', evs)) :
    (∀ seg ∈ s'.sendQueue.items, seg.protocol = openSessionRequest ∨ seg ∈ s.sendQueue.items) ∧
      s'.sendBuf = s.sendBuf ∧ OnlyRequests evs := by
  have hrequest (seq : UInt32) (payload : Bytes) {seg : Segment}
      (hnew : seg = openRequestSegment cfg seq payload) : seg.protocol = openSessionRequest :=
    hnew ▸ rfl
  unfold writeRequest at h
  split at h
  · split_ifs at h
    dsimp only at h
    split at h
    · rename_i hinsert
      cases h
      refine ⟨?_, rfl, ?_⟩
      · intro seg hseg
        exact (SegmentTree.mem_of_insert hinsert hseg).imp_left (hrequest _ _)
      · intro p fate hmem
        simp at hmem
    · rename_i hinsert
      split_ifs at h
      all_goals
        cases h
        refine ⟨?_, rfl, ?_⟩
        · intro seg hseg
          exact (SegmentTree.mem_of_insert hinsert hseg).imp_left (hrequest _ _)
        · intro p fate hmem
          simp at hmem
  · cases h

theorem isData_dataProtocol (isClient low : Bool) :
    isDataProtocol (dataProtocol isClient low) = true := by
  cases isClient <;> cases low <;> rfl

theorem writeFragment_data (h : s.writeFragment = some (s', evs)) :
    (∀ seg ∈ s'.sendQueue.items,
      isDataProtocol seg.protocol = true ∨ seg ∈ s.sendQueue.items) ∧
      s'.sendBuf = s.sendBuf ∧ OnlyRequests evs := by
  have hdata (c : Chunk cfg) (left : ℕ) (part : Bytes) (payloadLen : UInt16) {seg : Segment}
      (hnew : seg = s.fragmentSegment c left part payloadLen) :
      isDataProtocol seg.protocol = true := hnew ▸ isData_dataProtocol _ _
  unfold writeFragment at h
  split at h
  · split at h
    · cases h
    dsimp only at h
    split at h
    · cases h
      refine ⟨fun seg hseg => .inr hseg, rfl, ?_⟩
      intro p fate hmem
      cases List.mem_singleton.mp hmem
    · split at h
      · rename_i hinsert
        cases h
        refine ⟨?_, rfl, ?_⟩
        · intro seg hseg
          exact (SegmentTree.mem_of_insert hinsert hseg).imp_left (hdata _ _ _ _)
        · intro p fate hmem
          simp at hmem
      · rename_i hinsert
        split at h
        all_goals
          cases h
          refine ⟨?_, rfl, ?_⟩
          · intro seg hseg
            exact (SegmentTree.mem_of_insert hinsert hseg).imp_left (hdata _ _ _ _)
          · intro p fate hmem
            cases List.mem_singleton.mp hmem
  · cases h

theorem Opening.head (hs : s.Opening) (hclient : cfg.isClient = true)
    (hpacket : cfg.transportProtocol = .packetTransport)
    (hgo : s.shouldDeferNextPacketData = false) {seg : Segment} {rest : List Segment}
    (hqueue : s.sendQueue.items = seg :: rest) : seg.protocol = openSessionRequest := by
  have hdata : isDataProtocol seg.protocol = false := by
    simpa [shouldDeferNextPacketData, isClientPacketSessionOpening, hclient, hpacket, hs.attached,
      hqueue] using hgo
  have hmem : seg ∈ s.sendQueue.items := hqueue ▸ List.mem_cons_self
  rcases hs.queue seg hmem with hrequest | hisData
  · exact hrequest
  · rw [hdata] at hisData
    cases hisData

theorem Opening.sendNext (hs : s.Opening) (hclient : cfg.isClient = true)
    (hpacket : cfg.transportProtocol = .packetTransport) {cwnd now timeout : ℤ} {fate : Fate}
    (h : s.sendNext cwnd now timeout fate = some (s', evs)) :
    (∀ seg ∈ s'.sendQueue.items, seg ∈ s.sendQueue.items) ∧
      (∀ seg ∈ s'.sendBuf.items, seg.protocol = openSessionRequest) ∧ OnlyRequests evs := by
  unfold Session.sendNext at h
  split at h
  · split at h
    · cases h
      exact ⟨fun _ => id, hs.buf, onlyRequests_nil⟩
    · rename_i hgo
      split at h
      · rename_i q hq
        cases h
        refine ⟨?_, hs.buf, onlyRequests_nil⟩
        intro seg hseg
        rwa [SegmentTree.deleteMinIf_none hq] at hseg
      · rename_i seg q hq
        have hqueue := (SegmentTree.deleteMinIf_some hq).2
        have hdefer : s.shouldDeferNextPacketData = false :=
          Bool.eq_false_iff.mpr fun hdefer => hgo (.inr hdefer)
        have hsent : (seg.transmitted s.nextRecv now timeout).protocol = openSessionRequest :=
          (seg.protocol_refreshAck s.nextRecv).trans (hs.head hclient hpacket hdefer hqueue)
        have hrest (x : Segment) (hx : x ∈ q.items) : x ∈ s.sendQueue.items :=
          hqueue ▸ List.mem_cons_of_mem _ hx
        have houts (fate : Fate) :
            OnlyRequests [.output (seg.transmitted s.nextRecv now timeout).toPacket fate] := by
          intro p fate' hmem
          cases List.mem_singleton.mp hmem
          exact hsent
        have hbuf {buf : SegmentTree segmentTreeCapacity} {ok : Bool}
            (hinsert : s.sendBuf.insert (seg.transmitted s.nextRecv now timeout) = (buf, ok)) :
            ∀ x ∈ buf.items, x.protocol = openSessionRequest := by
          intro x hx
          rcases SegmentTree.mem_of_insert hinsert hx with rfl | hx
          · exact hsent
          · exact hs.buf x hx
        dsimp only at h
        split at h
        · rename_i hinsert
          cases h
          exact ⟨hrest, hbuf hinsert, onlyRequests_nil⟩
        · rename_i hinsert
          split at h
          all_goals
            rename_i hout
            obtain ⟨time, rfl⟩ := output_eq hout
            cases h
            exact ⟨hrest, hbuf hinsert, houts _⟩
  · cases h

theorem outputWake_queue {why : OutputWake} (h : s.outputWake why = some (s', evs)) :
    s'.sendQueue.items = s.sendQueue.items := by
  unfold outputWake at h
  split at h
  · split at h <;> split_ifs at h <;> cases h <;> rfl
  · cases h

theorem Opening.segments (hs : s.Opening) (hclient : cfg.isClient = true)
    (hpacket : cfg.transportProtocol = .packetTransport) (h : s.perform a = some (s', evs))
    (hopen : s'.closePc = .idle) :
    (∀ seg ∈ s'.sendQueue.items,
      seg.protocol = openSessionRequest ∨ isDataProtocol seg.protocol = true) ∧
      (∀ seg ∈ s'.sendBuf.items, seg.protocol = openSessionRequest) ∧ OnlyRequests evs := by
  have heff := perform_effect h
  have hidle := heff.closes.idle hopen
  -- a step that leaves `sendQueue` alone
  have hkept (hqueue : s'.sendQueue.items = s.sendQueue.items) (hbypass : a.bypassesQueue = false) :
      (∀ seg ∈ s'.sendQueue.items,
        seg.protocol = openSessionRequest ∨ isDataProtocol seg.protocol = true) ∧
        (∀ seg ∈ s'.sendBuf.items, seg.protocol = openSessionRequest) ∧ OnlyRequests evs := by
    obtain ⟨hbuf, hout⟩ := requests_of_sends heff.sends hpacket hidle hbypass hqueue hs.buf
    refine ⟨hqueue ▸ hs.queue, hbuf, ?_⟩
    intro p fate hmem
    exact hout p fate (List.mem_filter.mpr ⟨hmem, rfl⟩)
  cases a with
  | writeRequest =>
    obtain ⟨hqueue, hbuf, hout⟩ := writeRequest_requests h
    refine ⟨?_, hbuf ▸ hs.buf, hout⟩
    intro seg hseg
    rcases hqueue seg hseg with hnew | hold
    · exact .inl hnew
    · exact hs.queue seg hold
  | writeFragment =>
    obtain ⟨hqueue, hbuf, hout⟩ := writeFragment_data h
    refine ⟨?_, hbuf ▸ hs.buf, hout⟩
    intro seg hseg
    rcases hqueue seg hseg with hnew | hold
    · exact .inr hnew
    · exact hs.queue seg hold
  | outputWake => exact hkept (outputWake_queue h) rfl
  | sendNext =>
    obtain ⟨hqueue, hbuf, hout⟩ := hs.sendNext hclient hpacket h
    exact ⟨fun seg hseg => hs.queue seg (hqueue seg hseg), hbuf, hout⟩
  | ackSend =>
    have hsilent := hs.silent
    simp only [perform, ackSend] at h
    split at h
    · rename_i hpc
      rw [hpc] at hsilent
      cases hsilent
    · cases h
  | streamNext =>
    simp only [perform, streamNext, hpacket, reduceCtorEq, ↓reduceIte] at h
    split at h <;> cases h
  | respond =>
    have hanswers := hs.answers
    simp only [perform, respond] at h
    split at h
    · rename_i hpc
      rw [hpc] at hanswers
      cases hanswers
    · cases h
  | inputClose => exact absurd hopen (inputClose_closing h)
  | closeQueue | closeClear => exact absurd hopen (closer_closing h rfl)
  | _ => exact hkept (heff.keeps .sendQueue rfl).1 rfl

/-! ## The loops -/

theorem Opening.state (hs : s.Opening) (h : s.perform a = some (s', evs))
    (hopen : s'.closePc = .idle) (hanswer : s.processesResponse a = false) :
    s'.state = .attached := by
  have hkeep := (perform_effect h).keeps
  cases a with
  | readLoop => exact (readLoop_state h hanswer).trans hs.attached
  | finishInput =>
    simp only [perform, finishInput] at h
    split at h
    · rename_i seg hpc
      have hother : seg.protocol ≠ openSessionResponse := by
        simpa [processesResponse, hpc] using hanswer
      rw [if_neg fun hboth => hother hboth.2] at h
      cases h
      exact hs.attached
    · cases h
  | respond =>
    have hanswers := hs.answers
    simp only [perform, respond] at h
    split at h
    · rename_i hpc
      rw [hpc] at hanswers
      cases hanswers
    · cases h
  | closeClear => exact absurd hopen (closer_closing h rfl)
  | _ => exact (hkeep .state rfl).trans hs.attached

theorem Opening.outputPc (hs : s.Opening) (hclient : cfg.isClient = true)
    (hpacket : cfg.transportProtocol = .packetTransport) (h : s.perform a = some (s', evs)) :
    s'.outputPc.willAck = false := by
  have hsilent := hs.silent
  by_cases hparty : a.party = .outputLoop
  · have hflow := output_flow h hparty
    generalize hpc : s.outputPc = pc at hflow hsilent
    generalize hpc' : s'.outputPc = pc' at hflow ⊢
    cases hflow with
    | start hpc => rcases hpc with rfl | rfl | rfl <;> rfl
    | resent hpc | sent hpc | ack hpc => rcases hpc with rfl | rfl <;> rfl
    | stream _ hpc => rcases hpc with rfl | rfl | rfl <;> rfl
    | resume => exact hsilent
    | clear => cases hsilent
    | checkAck =>
      have hopening : s.isClientPacketSessionOpening = true := by
        simp [isClientPacketSessionOpening, hclient, hpacket, hs.attached]
      simp only [perform, ackCheck, hpc, hopening, not_true, false_and, ↓reduceIte] at h
      cases h
      rw [← hpc']
      rfl
    | _ => rfl
  · have hout : s'.outputPc = s.outputPc :=
      (perform_effect h).keeps .outputLoop (by simpa [Action.touches] using hparty)
    rw [hout]
    exact hsilent

theorem Opening.step (hs : s.Opening) (hclient : cfg.isClient = true)
    (hpacket : cfg.transportProtocol = .packetTransport) (h : s.step a = some (s', evs))
    (hopen : s'.closePc = .idle) (hanswer : s.processesResponse a = false) :
    s'.Opening ∧ OnlyRequests evs := by
  have hp := perform_of_step h
  obtain ⟨hqueue, hbuf, hout⟩ := hs.segments hclient hpacket hp hopen
  refine ⟨⟨hs.state hp hopen hanswer, hqueue, hbuf, hs.outputPc hclient hpacket hp, ?_⟩, hout⟩
  by_cases hparty : a.party = .inputLoop
  · exact input_isResponding hp hparty hclient
  · have hin : s'.inputPc = s.inputPc :=
      (perform_effect hp).keeps .inputLoop (by simpa [Action.touches] using hparty)
    rw [hin]
    exact hs.answers

theorem opening_attached (now jitter : ℤ) : (attached now jitter : Session cfg).Opening where
  attached := rfl
  queue _ hseg := absurd hseg List.not_mem_nil
  buf _ hseg := absurd hseg List.not_mem_nil
  silent := rfl
  answers := rfl

/-- Until a client has taken notice of an open session response or has started to close, it has
handed nothing but open session requests to its underlay, and `sendBuf` holds nothing else. -/
theorem only_requests_while_opening {now jitter : ℤ} {es : List Action} {outs : List Event}
    (hclient : cfg.isClient = true) (hpacket : cfg.transportProtocol = .packetTransport)
    (h : Machine.Reaches step (fun s a => s.processesResponse a = false)
      (attached now jitter : Session cfg) es outs s)
    (hopen : s.closeRequested = false) :
    (∀ p fate, .output p fate ∈ outs → p.protocol = openSessionRequest) ∧
      ∀ seg ∈ s.sendBuf.items, seg.protocol = openSessionRequest := by
  have hopening : s.closePc = .idle → s.Opening ∧ OnlyRequests outs := by
    refine h.invariant (I := fun s outs => s.closePc = .idle → s.Opening ∧ OnlyRequests outs) ?_ ?_
    · intro _
      exact ⟨opening_attached now jitter, onlyRequests_nil⟩
    · intro s outs a s' evs ih hanswer hstep hidle
      have hbefore := (step_effect hstep).closes.idle hidle
      obtain ⟨hs, houts⟩ := ih hbefore
      obtain ⟨hs', hevs⟩ := hs.step hclient hpacket hstep hidle hanswer
      refine ⟨hs', fun p fate hmem => ?_⟩
      rcases List.mem_append.mp hmem with hmem | hmem
      · exact houts p fate hmem
      · exact hevs p fate hmem
  obtain ⟨hs, houts⟩ := hopening (closeRequested_eq_false_iff.mp hopen)
  exact ⟨houts, hs.buf⟩

/-- The client has data in `sendQueue`, gets data and an acknowledgement from the server ahead of
the response, and its timer goes off twice, long after the heartbeat and the acknowledgement
would have been due. -/
def impatientRun : List Action := Windowed.deferringRun ++ [
  .receive ⟨.dataAck {
    protocol := .dataServerToClient, sessionID := 1, seq := 1, unAckSeq := 0, windowSize := 16,
    payloadLen := 1 }, [3]⟩ 1000000,
  .releaseNext, .requestAck 1000000, .accept, .waitSpace, .moveNext, .requestAckAgain 1000000,
  .finishInput,
  .receive ⟨.dataAck {
    protocol := .ackServerToClient, sessionID := 1, seq := 0, unAckSeq := 0, windowSize := 16 },
    []⟩ 2000000,
  .releaseNext, .countAck,
  .outputWake .timer, .outputStart 9000000, .outputLock,
  .resendNext 9000000 9000000 2000 .sent, .resendNext 9000000 9000000 2000 .sent, .sendCheck 16,
  .outputLock, .sendNext 16 9000000 1000 .sent, .ackCheck 9000000,
  .outputWake .timer, .outputStart 9000000, .sendCheck 16, .outputLock,
  .sendNext 16 9000000 1000 .sent, .ackCheck 9000000]

theorem impatient_client_sends_requests : ∃ (s : Session (packetConfig true)) (outs : List Event),
    Machine.Reaches step (fun s a => s.processesResponse a = false) (attached 0 0) impatientRun
      outs s ∧
    s.sendQueue.len = 1 ∧ s.sendBuf.len = 1 ∧ s.ackOnDataRecv = true ∧
    (∀ p fate, .output p fate ∈ outs → p.protocol = openSessionRequest) ∧
    ∀ seg ∈ s.sendBuf.items, seg.protocol = openSessionRequest := by
  have hsummary : (Machine.run (Machine.guarded (fun s a => !s.processesResponse a) step)
      (attached 0 0 : Session (packetConfig true)) impatientRun).map (fun r =>
        (r.1.sendQueue.len, r.1.sendBuf.len, r.1.ackOnDataRecv, r.1.closeRequested)) =
      some (1, 1, true, false) := by
    rfl
  obtain ⟨⟨s, outs⟩, hrun, heq⟩ := Option.map_eq_some_iff.mp hsummary
  simp only [Prod.mk.injEq] at heq
  obtain ⟨hqueue, hbuf, hack, hopen⟩ := heq
  have hreach := (Machine.reaches_of_guarded_run hrun).mono fun s a hguard =>
    (Bool.not_eq_true' _).mp hguard
  exact ⟨s, outs, hreach, hqueue, hbuf, hack, only_requests_while_opening rfl rfl hreach hopen⟩

end Session

end Mieru.Protocol
