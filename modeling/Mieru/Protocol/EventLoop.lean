import Mieru.Protocol.UserIsolation

/-! # What ends the event loop

Bad datagrams are dropped and the loop goes on. A datagram for a session that is not known
is answered, and the loop ends if the answer cannot be sent. -/
namespace Mieru.Protocol.PacketServer

open Cipher Result Rng ServerUser

variable {cfg : ServerConfig} {u u' : PacketServer} {a : ServerAction cfg.kdf}
  {out : List ServerEvent} {r : Arrival cfg.kdf} {seg : ServerSegment} {das : DataAckStruct}

theorem buildDatagram_empty (f : FramingConfig) (block : StatelessCipher) (ss : SessionStruct)
    (draws : Draws) (now : ℕ) :
    ∃ d, buildDatagram f block.val ⟨.session ss, []⟩ draws now = .ok d := by
  obtain ⟨padding, suffixLen, hpad, -⟩ := f.padSession_ok ss block.val.userName draws
  have hwire : OnWire block.val draws.nonce [] none [] := by
    rw [OnWire, if_pos rfl]
  have hlen : wirePayloadLen [] ([] : Bytes).length = ([] : Bytes).length := rfl
  simp only [buildDatagram, hpad, ok_bind]
  rw [fillBuffer_packet block.property draws.stale (SessionStruct.length_marshal _ now) hwire hlen]
  exact ⟨_, rfl⟩

theorem writeOneSegment_closeReq (u : PacketServer) (das : DataAckStruct) (block : StatelessCipher)
    (addr : Net.UDPAddr) (draws : Draws) (now : ℕ) :
    ∃ d, (u.underlay cfg).writeOneSegment ⟨.session (closeReq das), []⟩ (some block) addr draws
      now = .ok d := by
  have hserver : ¬((u.underlay cfg).isClient = true ∧ addr.key ≠ (u.underlay cfg).serverAddr.key) :=
    fun hclient => Bool.false_ne_true hclient.1
  rw [PacketUnderlay.writeOneSegment, ensure_true hserver, ok_bind]
  exact buildDatagram_empty (u.underlay cfg).framing block (closeReq das) draws now

theorem writeCloseReq_cases (u : PacketServer) (r : Arrival cfg.kdf) (seg : ServerSegment)
    (das : DataAckStruct) :
    (r.writeError = none ∧ ∃ d, u.writeCloseReq r seg das = .ok d) ∨
      ∃ err, r.writeError = some err ∧
        u.writeCloseReq r seg das = .error (.failed s!"WriteTo() failed: {err}") := by
  obtain ⟨d, hd⟩ : ∃ d, (u.underlay cfg).writeOneSegment _ _ r.addr r.draws r.now = .ok d :=
    u.writeOneSegment_closeReq das seg.block r.addr r.draws r.now
  rw [writeCloseReq, hd, ok_bind]
  cases r.writeError with
  | none => exact .inl ⟨rfl, d, rfl⟩
  | some err => exact .inr ⟨err, rfl, rfl⟩

/-- The socket takes the answer to a datagram for a session that is not known. -/
def Answered (u : PacketServer) (a : ServerAction cfg.kdf) : Prop :=
  ∀ r seg das, u.Reads a r seg → seg.packet.metadata = .dataAck das →
    u.sessionMap.lookup das.sessionID = none → r.writeError = none

/-- The loop returns because it is told to or because nothing more can be read. -/
def Expected : ServerEvent → Prop
  | .returned reason =>
    reason = .contextDone ∨ reason = .underlayClosed ∨ ∃ err, reason = .readFailed err
  | _ => True

theorem expected_returned {reason : ReturnReason} :
    Expected (.returned reason) ↔ ∀ fault, reason ≠ .writeFailed fault := by
  cases reason with
  | contextDone => exact ⟨fun _ _ => nofun, fun _ => .inl rfl⟩
  | underlayClosed => exact ⟨fun _ _ => nofun, fun _ => .inr (.inl rfl)⟩
  | readFailed err => exact ⟨fun _ _ => nofun, fun _ => .inr (.inr ⟨err, rfl⟩)⟩
  | writeFailed fault =>
    refine ⟨?_, fun h => absurd rfl (h fault)⟩
    rintro (h | h | ⟨err, h⟩)
    · cases h
    · cases h
    · cases h

theorem step_unanswered (hreads : u.Reads a r seg) (hdas : seg.packet.metadata = .dataAck das)
    (hlookup : u.sessionMap.lookup das.sessionID = none) {fault : Fault}
    (hfault : u.writeCloseReq r seg das = .error fault) (h : step cfg u a = some (u', out)) :
    .returned (.writeFailed (fault.wrap "writeOneSegment() failed")) ∈ out := by
  obtain ⟨rfl, hread⟩ := hreads
  have hreceive := step_eq_receive h
  simp only [receive, hread, dispatch, hdas, onDataAck, hlookup, hfault] at hreceive
  cases hreceive
  exact List.mem_singleton.mpr rfl

theorem expected_iff (h : step cfg u a = some (u', out)) :
    Answered u a ↔ ∀ o ∈ out, Expected o := by
  constructor
  · intro hanswered
    cases step_change h with
    | ended _ hreason =>
      intro o ho
      rw [List.mem_singleton.mp ho]
      exact expected_returned.mpr hreason
    | @unanswered r seg das fault hreads hdas hlookup hfault =>
      have hsent := hanswered r seg das hreads hdas hlookup
      rcases u.writeCloseReq_cases r seg das with ⟨-, d, hd⟩ | ⟨err, herr, -⟩
      · rw [hfault] at hd
        cases hd
      · rw [hsent] at herr
        cases herr
    | _ => simp [Expected]
  · intro hout r seg das hreads hdas hlookup
    rcases u.writeCloseReq_cases r seg das with ⟨hsent, -⟩ | ⟨err, -, hfault⟩
    · exact hsent
    · have hreturned := hout _ (step_unanswered hreads hdas hlookup hfault h)
      exact absurd rfl (expected_returned.mp hreturned _)

/-- In every run the loop returns only because the context or the underlay is closed or
because reading fails, if and only if every answer to a datagram for an unknown session is
sent. If also no session takes what somebody else has sent to its ID, the program stays up. -/
theorem returns_expected_iff {users : Users} {hintMandatory : Bool}
    {es : List (ServerAction cfg.kdf)} {outs : List ServerEvent} {s : PacketServer}
    (h : Machine.Reaches (step cfg) Machine.Free (start users hintMandatory) es outs s) :
    ((∀ o ∈ outs, Expected o) ↔
      Machine.Reaches (step cfg) Answered (start users hintMandatory) es outs s) ∧
    (Machine.Reaches (step cfg) (fun u a => Answered u a ∧ TakesOwn u a)
      (start users hintMandatory) es outs s → ∀ msg, .panicked msg ∉ outs) := by
  refine ⟨Machine.emitted_iff_guarded (fun _ _ _ _ => expected_iff) h, ?_⟩
  intro hboth
  exact not_panicked (hboth.mono fun _ _ hguard => hguard.2)

/-! ## One acknowledgement for a session that is not there -/

theorem step_stray_ack (writeError : Option String) :
    step serverConfig (start twoUsers false) (.receive (ackArrival aliceUser writeError)) =
      (start twoUsers false).onDataAck (ackArrival aliceUser writeError) (ackSegment aliceUser)
        (ackStruct.stamp 1750000000) := by
  have hread : (start twoUsers false).readOneSegment (ackArrival aliceUser writeError) =
      .ok (ackSegment aliceUser) := readOneSegment_ack (.inl rfl) rfl (fun _ _ => rfl) writeError
  rw [step_receive rfl rfl, receive, hread]
  rfl

theorem stray_ack_answered : ∃ outs s,
    Machine.Reaches (step serverConfig) Machine.Free (start twoUsers false)
      [.receive (ackArrival aliceUser none)] outs s ∧
    s.running = true ∧
    Machine.Reaches (step serverConfig) Answered (start twoUsers false)
      [.receive (ackArrival aliceUser none)] outs s := by
  rcases (start twoUsers false).writeCloseReq_cases (ackArrival aliceUser none)
    (ackSegment aliceUser) (ackStruct.stamp 1750000000) with ⟨-, d, hd⟩ | ⟨err, herr, -⟩
  · have hstep := step_stray_ack none
    rw [onDataAck, hd] at hstep
    have hreach : Machine.Reaches (step serverConfig) Machine.Free _ _ _ _ :=
      .next .start trivial hstep
    refine ⟨_, _, hreach, rfl, (returns_expected_iff hreach).1.mp ?_⟩
    intro o ho
    rw [List.mem_singleton.mp ho]
    trivial
  · cases herr

/-- The network to one peer is down, and the loop ends for all. -/
theorem unsent_answer_ends_loop : ∃ outs s,
    Machine.Reaches (step serverConfig) Machine.Free (start twoUsers false)
      [.receive (ackArrival aliceUser (some "network is unreachable"))] outs s ∧
    outs = [.returned (.writeFailed (.failed
      "writeOneSegment() failed: WriteTo() failed: network is unreachable"))] ∧
    s.running = false ∧ ¬(∀ o ∈ outs, Expected o) := by
  rcases (start twoUsers false).writeCloseReq_cases
    (ackArrival aliceUser (some "network is unreachable")) (ackSegment aliceUser)
    (ackStruct.stamp 1750000000) with ⟨hsent, -⟩ | ⟨err, herr, hfault⟩
  · cases hsent
  · cases herr
    have hstep := step_stray_ack (some "network is unreachable")
    rw [onDataAck, hfault] at hstep
    have htext : (Fault.failed (toString "WriteTo() failed: " ++
        toString "network is unreachable")).wrap "writeOneSegment() failed" =
          .failed "writeOneSegment() failed: WriteTo() failed: network is unreachable" := by
      decide +kernel
    refine ⟨_, _, .next .start trivial hstep, by rw [htext]; rfl, rfl, ?_⟩
    intro hall
    exact absurd rfl (expected_returned.mp (hall _ (List.mem_singleton.mpr rfl)) _)

end Mieru.Protocol.PacketServer
