import Mieru.Lib.Machine
import Mieru.Socks5.DatagramCodec

/-! # A connection that sends its request with the first write

The first call of `Write` on an `EarlyConn` sends the socks5 request in front of its payload and
reads the response. Any number of calls of `Write`, `Read` and `Close` run at once. A call that
waits for the handshake of another one has no step before it reads or writes, since the error of
the handshake does not change any more. A closed connection takes and gives nothing, which is one
of the choices of the connection at any time. -/
namespace Mieru.Socks5.EarlyConn

open Net ByteReader Result
open Common (NetAddrSpec)

structure Target where
  command : UInt8
  dstAddr : NetAddrSpec

def Target.writeToSocks5 (r : Target) : Except String Bytes := do
  let addr ← r.dstAddr.writeToSocks5
  return [socks5Version, r.command, 0] ++ addr

/-- `handshakeOnce`, and where the call of `Write` is that runs `doHandshakeAndWrite`. -/
inductive Once where
  | fresh
  | sending (b : Bytes)
  | reading
  | done
  deriving DecidableEq

structure State where
  request : Option Target := none
  once : Once := .fresh
  handshakeErr : Option String := none
  /-- What the connection has taken, and what has arrived on it and was not read. -/
  sent : Bytes := []
  input : Bytes := []
  /-- The request that was sent, and the payloads or parts of them, in order. -/
  first : Option Target := none
  accepted : Bytes := []
  arrived : Bytes := []
  delivered : Bytes := []
  /-- `Close` came before the first `Write`. -/
  closedFirst : Bool := false

inductive Event where
  | setRequest (r : Target)
  | write (b : Bytes)
  | run
  /-- The connection fails in the handshake, after `n` bytes. -/
  | fail (n : ℕ) (cause : String)
  /-- Another call of `Write`, of which the connection takes `n` bytes. -/
  | pass (b : Bytes) (n : ℕ)
  | read (n : ℕ)
  | close
  | arrive (bs : Bytes)

namespace State

def take (s : State) (bs payload : Bytes) : State :=
  { s with sent := s.sent ++ bs, accepted := s.accepted ++ payload }

def arrive (s : State) (bs : Bytes) : State :=
  { s with arrived := s.arrived ++ bs, input := s.input ++ bs }

def finish (s : State) (err : Option String) : State :=
  { s with handshakeErr := err, once := .done }

def load (s : State) : Except String (Target × Bytes) := do
  let r ← s.request.elim (.error "request is not set") .ok
  let req ← r.writeToSocks5
  return (r, req)

/-- A request that is set while another one is being written comes too late. -/
def run (s : State) : Option State :=
  match s.once with
  | .fresh | .done => none
  | .sending b =>
    match s.load with
    | .error err => some (s.finish (some err))
    | .ok (r, req) => some { s.take (req ++ b) b with first := some r, once := .reading }
  | .reading =>
    match readHeaderAndAddr s.input with
    | .error _ => none
    | .ok ((reply, _), rest) => some ({ s with input := rest }.finish
        (if reply = 0 then none else some s!"server returned socks5 error code {reply}"))

def fail (s : State) (n : ℕ) (cause : String) : Option State :=
  match s.once with
  | .sending b =>
    match s.load with
    | .error _ => none
    | .ok (r, req) =>
      some ({ s.take ((req ++ b).take n) (b.take (n - req.length)) with first := some r }.finish
        (some ("failed to write socks5 object to the connection: " ++ cause)))
  | .reading => some ({ s with input := s.input.drop n }.finish
      (some ("failed to read socks5 response from the server: " ++ cause)))
  | _ => none

/-- The first caller runs its function of the `Once`, others wait until that has ended. -/
def close (s : State) : Option State :=
  match s.once with
  | .fresh => some { s with once := .done, closedFirst := true }
  | .done => some s
  | _ => none

/-- `SetRequest` panics after the handshake. -/
def next (s : State) : Event → Option State
  | .setRequest r => if s.once = .done then none else some { s with request := some r }
  | .write b =>
    match s.once with
    | .fresh => some { s with once := .sending b }
    | _ => none
  | .run => s.run
  | .fail n cause => s.fail n cause
  | .pass b n =>
    if s.once = .done ∧ s.handshakeErr = none then some (s.take (b.take n) (b.take n)) else none
  | .read n =>
    if s.once = .done ∧ s.handshakeErr = none then
      some { s with delivered := s.delivered ++ s.input.take n, input := s.input.drop n }
    else none
  | .close => s.close
  | .arrive bs => some (s.arrive bs)

/-! ## What is on the wire -/

/-- The request that was sent, or a part of it alone, and then the payloads. -/
def Sent (s : State) (r : Target) (req : Bytes) : Prop :=
  s.first = some r ∧ r.writeToSocks5 = .ok req ∧
    (s.sent = req ++ s.accepted ∨ s.sent <+: req ∧ s.accepted = [])

def Wire (s : State) : Prop := s.sent = [] ∨ ∃ r req, s.Sent r req

def Whole (s : State) : Prop :=
  ∃ r req, s.first = some r ∧ r.writeToSocks5 = .ok req ∧ s.sent = req ++ s.accepted

/-- The request has been sent, and what is read comes after a response of success. -/
def Shaken (s : State) : Prop :=
  s.Whole ∧ ∃ addr, readHeaderAndAddr s.arrived = .ok ((0, addr), s.delivered ++ s.input)

/-- The server reads the address that was asked for, and then the payloads. -/
def Served (s : State) (r : Target) (req : Bytes) : Prop :=
  ∃ dst, dst.SameAddr r.dstAddr ∧ readRequest s.sent = .ok (⟨r.command, dst, req⟩, s.accepted)

def Before (s : State) : Prop := s.closedFirst = false ∧ s.delivered = []

def Quiet (s : State) : Prop := s.sent = [] ∧ s.accepted = [] ∧ s.input = s.arrived

def Phase (s : State) : Once → Prop
  | .fresh | .sending _ => s.Before ∧ s.Quiet
  | .reading => s.Before ∧ s.input = s.arrived ∧ s.Whole
  | .done => s.closedFirst = true ∧ s.sent = s.accepted ∧ s.arrived = s.delivered ++ s.input ∨
      s.closedFirst = false ∧ s.Wire ∧ (s.handshakeErr = none → s.Shaken) ∧
        (s.handshakeErr ≠ none → s.delivered = [])

variable {s t : State}

theorem Whole.wire (h : s.Whole) : s.Wire := by
  obtain ⟨r, req, hfirst, hreq, hsent⟩ := h
  exact .inr ⟨r, req, hfirst, hreq, .inl hsent⟩

theorem Shaken.arrive (h : s.Shaken) (bs : Bytes) : (s.arrive bs).Shaken := by
  obtain ⟨hwhole, addr, hread⟩ := h
  obtain ⟨raw, hraw, hany⟩ := consumes_readHeaderAndAddr _ _ _ hread
  refine ⟨hwhole, addr, ?_⟩
  simp only [State.arrive]
  rw [hraw, List.append_assoc, hany, List.append_assoc]

theorem before_of_ne_done (h : s.Phase s.once) (hne : s.once ≠ .done) : s.Before ∧ s.Wire := by
  match honce : s.once, h with
  | .done, _ => exact absurd honce hne
  | .fresh, ⟨hbefore, hquiet⟩ | .sending _, ⟨hbefore, hquiet⟩ => exact ⟨hbefore, .inl hquiet.1⟩
  | .reading, ⟨hbefore, _, hwhole⟩ => exact ⟨hbefore, hwhole.wire⟩

theorem finish_phase {err : Option String} (hbefore : s.Before) (hwire : s.Wire)
    (hshaken : err = none → s.Shaken) : (s.finish err).Phase .done :=
  .inr ⟨hbefore.1, hwire, hshaken, fun _ => hbefore.2⟩

theorem writes_of_load {r : Target} {req : Bytes} (h : s.load = .ok (r, req)) :
    r.writeToSocks5 = .ok req := by
  obtain ⟨r', -, h⟩ := bind_eq_ok.mp h
  obtain ⟨req', hreq, h⟩ := bind_eq_ok.mp h
  cases h
  exact hreq

theorem run_phase (h : s.Phase s.once) (hs : s.run = some t) : t.Phase t.once := by
  unfold run at hs
  match honce : s.once, h with
  | .fresh, _ | .done, _ => simp only [honce, reduceCtorEq] at hs
  | .sending b, ⟨hbefore, hsent, haccepted, hinput⟩ =>
    simp only [honce] at hs
    split at hs <;> cases hs
    · exact finish_phase hbefore (.inl hsent) fun herr => by cases herr
    · rename_i r req hload
      refine ⟨hbefore, hinput, r, req, rfl, writes_of_load hload, ?_⟩
      simp only [take, hsent, haccepted, List.nil_append]
  | .reading, ⟨hbefore, hinput, hwhole⟩ =>
    simp only [honce] at hs
    split at hs <;> cases hs
    rename_i reply addr rest hread
    refine finish_phase hbefore hwhole.wire fun herr => ⟨hwhole, addr, ?_⟩
    have hreply : reply = 0 := by
      by_contra hne
      simp only [if_neg hne, reduceCtorEq] at herr
    dsimp only
    rw [← hinput, hread, hreply, hbefore.2, List.nil_append]

theorem fail_phase (h : s.Phase s.once) {n : ℕ} {cause : String} (hs : s.fail n cause = some t) :
    t.Phase t.once := by
  unfold fail at hs
  match honce : s.once, h with
  | .sending b, ⟨hbefore, hsent, haccepted, _⟩ =>
    simp only [honce] at hs
    split at hs <;> cases hs
    rename_i r req hload
    refine finish_phase hbefore (.inr ⟨r, req, rfl, writes_of_load hload, ?_⟩)
      fun herr => by cases herr
    simp only [take, hsent, haccepted, List.nil_append, List.take_append]
    by_cases hn : n ≤ req.length
    · right
      rw [Nat.sub_eq_zero_of_le hn, List.take_zero, List.append_nil]
      exact ⟨List.take_prefix n req, rfl⟩
    · left
      rw [List.take_of_length_le (Nat.le_of_not_le hn)]
  | .reading, ⟨hbefore, _, hwhole⟩ =>
    simp only [honce, Option.some.injEq] at hs
    subst hs
    exact finish_phase hbefore hwhole.wire fun herr => by cases herr
  | .fresh, _ | .done, _ => simp only [honce, reduceCtorEq] at hs

theorem close_phase (h : s.Phase s.once) (hs : s.close = some t) : t.Phase t.once := by
  unfold close at hs
  match honce : s.once, h with
  | .fresh, ⟨hbefore, hsent, haccepted, hinput⟩ =>
    simp only [honce, Option.some.injEq] at hs
    subst hs
    refine .inl ⟨rfl, hsent.trans haccepted.symm, ?_⟩
    dsimp only
    rw [hbefore.2, List.nil_append, hinput]
  | .done, h =>
    simp only [honce, Option.some.injEq] at hs
    exact hs ▸ honce ▸ h
  | .sending _, _ | .reading, _ => simp only [honce, reduceCtorEq] at hs

theorem arrive_phase (h : s.Phase s.once) (bs : Bytes) : (s.arrive bs).Phase s.once := by
  match s.once, h with
  | .fresh, ⟨hbefore, hsent, haccepted, hinput⟩ | .sending _, ⟨hbefore, hsent, haccepted, hinput⟩ =>
    exact ⟨hbefore, hsent, haccepted, congrArg (· ++ bs) hinput⟩
  | .reading, ⟨hbefore, hinput, hwhole⟩ =>
    exact ⟨hbefore, congrArg (· ++ bs) hinput, hwhole⟩
  | .done, .inl ⟨hc, hsent, hread⟩ =>
    refine .inl ⟨hc, hsent, ?_⟩
    simp only [State.arrive]
    rw [hread, List.append_assoc]
  | .done, .inr ⟨hc, hwire, hshaken, hfailed⟩ =>
    exact .inr ⟨hc, hwire, fun herr => (hshaken herr).arrive bs, hfailed⟩

theorem after_phase (h : s.Phase s.once) (hdone : s.once = .done)
    (herr : s.handshakeErr = none) {sent accepted input delivered : Bytes}
    (hsent : ∀ req, s.sent = req ++ s.accepted → sent = req ++ accepted)
    (hinput : s.delivered ++ s.input = delivered ++ input) :
    Phase { s with sent, accepted, input, delivered } s.once := by
  rw [hdone] at h ⊢
  rcases h with ⟨hc, hplain, hread⟩ | ⟨hc, -, hshaken, -⟩
  · exact .inl ⟨hc, hsent [] hplain, hread.trans hinput⟩
  · obtain ⟨⟨r, req, hfirst, hreq, hwhole⟩, addr, hread⟩ := hshaken herr
    have hnew : Shaken { s with sent, accepted, input, delivered } :=
      ⟨⟨r, req, hfirst, hreq, hsent req hwhole⟩, addr, hinput ▸ hread⟩
    exact .inr ⟨hc, hnew.1.wire, fun _ => hnew, fun hne => absurd herr hne⟩

theorem next_phase (h : s.Phase s.once) {e : Event} (hs : s.next e = some t) :
    t.Phase t.once := by
  cases e with
  | setRequest r =>
    simp only [next, Option.ite_none_left_eq_some, Option.some.injEq] at hs
    obtain ⟨-, rfl⟩ := hs
    cases honce : s.once <;> exact honce ▸ h
  | write b =>
    simp only [next] at hs
    split at hs <;> cases hs
    rename_i honce
    rw [honce] at h
    exact h
  | run => exact run_phase h hs
  | fail n cause => exact fail_phase h hs
  | pass b n =>
    simp only [next, Option.ite_none_right_eq_some, Option.some.injEq] at hs
    obtain ⟨⟨hdone, herr⟩, rfl⟩ := hs
    refine after_phase h hdone herr (fun req hsent => ?_) rfl
    rw [hsent, List.append_assoc]
  | read n =>
    simp only [next, Option.ite_none_right_eq_some, Option.some.injEq] at hs
    obtain ⟨⟨hdone, herr⟩, rfl⟩ := hs
    refine after_phase h hdone herr (fun _ hsent => hsent) ?_
    rw [List.append_assoc, List.take_append_drop]
  | close => exact close_phase h hs
  | arrive bs =>
    cases hs
    exact arrive_phase h bs

end State

def step (s : State) (e : Event) : Option (State × List Empty) := (s.next e).map (·, [])

theorem Target.readRequest_of_write {r : Target} {req : Bytes} (h : Addressed r.dstAddr)
    (hreq : r.writeToSocks5 = .ok req) (p : Bytes) :
    ∃ dst, dst.SameAddr r.dstAddr ∧ readRequest (req ++ p) = .ok (⟨r.command, dst, req⟩, p) := by
  obtain ⟨header, dst, hwrite, -, hsame, hread⟩ := readAddrSpec_of_write h
  rw [writeToSocks5, hwrite, ok_bind] at hreq
  cases hreq
  have hhead : readHeaderAndAddr ([socks5Version, r.command, 0] ++ header ++ p) =
      .ok ((r.command, dst), p) := by
    change (readAddrSpec (header ++ p) >>= fun a => Except.ok ((r.command, a.1), a.2)) = _
    rw [hread]
    rfl
  refine ⟨dst, hsame, ?_⟩
  rw [readRequest, hhead, ok_bind, consumed_append]
  rfl

variable {es : List Event} {outs : List Empty} {s : State}

theorem phase_reaches (h : Machine.Reaches step Machine.Free {} es outs s) :
    s.Phase s.once := by
  refine h.invariant (I := fun s _ => s.Phase s.once) ⟨⟨rfl, rfl⟩, rfl, rfl, rfl⟩ ?_
  intro s outs e t out hphase _ hstep
  obtain ⟨t, ht, heq⟩ := Option.map_eq_some_iff.mp hstep
  cases heq
  exact State.next_phase hphase ht

theorem State.Sent.read {r : Target} {req : Bytes} (h : s.Sent r req)
    (haddr : Addressed r.dstAddr) (hlen : req.length ≤ s.sent.length) : s.Served r req := by
  obtain ⟨-, hreq, hparts⟩ := h
  have hwhole : s.sent = req ++ s.accepted := by
    rcases hparts with hwhole | ⟨hpart, haccepted⟩
    · exact hwhole
    · rw [haccepted, List.append_nil, hpart.eq_of_length_le hlen]
  rw [State.Served, hwhole]
  exact Target.readRequest_of_write haddr hreq _

/-- The request comes first on the wire, and a server that has got it reads the address that was
asked for and then the payloads. What `Read` delivers follows a response of success. Only if
`Close` came before the first `Write` is there no request. -/
theorem request_before_payload (h : Machine.Reaches step Machine.Free {} es outs s) :
    (s.closedFirst = true → s.sent = s.accepted ∧ s.arrived = s.delivered ++ s.input) ∧
    (s.closedFirst = false → (s.delivered = [] ∨ s.handshakeErr = none ∧ s.Shaken) ∧
      (s.sent = [] ∨ ∃ r req, s.Sent r req ∧
        (Addressed r.dstAddr → req.length ≤ s.sent.length → s.Served r req))) := by
  have hphase := phase_reaches h
  have hread : s.Wire → s.sent = [] ∨ ∃ r req, s.Sent r req ∧ _ :=
    Or.imp_right fun ⟨r, req, hsent⟩ => ⟨r, req, hsent, hsent.read⟩
  by_cases hdone : s.once = .done
  · rw [hdone] at hphase
    rcases hphase with ⟨hc, hplain⟩ | ⟨hc, hwire, hshaken, hfailed⟩
    · exact ⟨fun _ => hplain, fun hopen => by cases hopen.symm.trans hc⟩
    · refine ⟨fun hclosed => ?_, fun _ => ⟨?_, hread hwire⟩⟩
      · cases hclosed.symm.trans hc
      by_cases herr : s.handshakeErr = none
      · exact .inr ⟨herr, hshaken herr⟩
      · exact .inl (hfailed herr)
  · obtain ⟨hbefore, hwire⟩ := State.before_of_ne_done hphase hdone
    refine ⟨fun hc => ?_, fun _ => ⟨.inl hbefore.2, hread hwire⟩⟩
    cases hc.symm.trans hbefore.1

/-- A second write comes while the response of the server is on its way with data behind it. -/
def earlyRun : List Event :=
  [.write [1, 2], .setRequest ⟨socks5ConnectCmd, ⟨[], [8, 8, 8, 8], 53, []⟩⟩, .run,
    .arrive [5, 0, 0, 1, 0, 0, 0, 0, 0, 0, 9], .run, .pass [3] 1, .read 1, .close]

theorem early_run_shaken : ∃ s, Machine.run step {} earlyRun = some (s, []) ∧
    s.accepted = [1, 2, 3] ∧ s.delivered = [9] ∧ s.Shaken := by
  have hrun : ∃ s, Machine.run step {} earlyRun = some (s, []) ∧ s.accepted = [1, 2, 3] ∧
      s.delivered = [9] ∧ s.closedFirst = false := ⟨_, rfl, rfl, rfl, rfl⟩
  obtain ⟨s, hs, haccepted, hdelivered, hfirst⟩ := hrun
  obtain ⟨hshaken, -⟩ := (request_before_payload (Machine.reaches_of_run hs)).2 hfirst
  exact ⟨s, hs, haccepted, hdelivered, (hshaken.resolve_left (by simp [hdelivered])).2⟩

end Mieru.Socks5.EarlyConn
