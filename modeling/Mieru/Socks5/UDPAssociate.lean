import Mieru.Common.UDPAssociateWrapper
import Mieru.Lib.Machine
import Mieru.Socks5.Server

/-! # Relaying UDP datagrams of an association

`runUDPAssociateLoop` and `runUDPAssociateDatagramLoop` as machines whose events
are the packets they read. Whether the socket takes a datagram is part of the
event. Both keep going after a failed write. -/
namespace Mieru.Socks5

open Net ByteReader Result Machine

def sameUDPAddr (a b : UDPAddr) : Bool :=
  a.port = b.port &&
    match a.ip, b.ip with
    | some x, some y => x.equal y
    | none, none => true
    | _, _ => false

structure Socks5UDPDatagram where
  addr : AddrSpec
  header : Bytes
  payload : Bytes
  deriving DecidableEq

def errNoEnoughData : String := "NO ENOUGH DATA"
def errInvalidArgument : String := "INVALID ARGUMENT"
def errUnsupported : String := "UNSUPPORTED"

def parseSocks5UDPDatagram (pkt : Bytes) : Except String Socks5UDPDatagram :=
  if pkt.length ≤ 6 then .error errNoEnoughData
  else if pkt.getD 0 0 ≠ 0 ∨ pkt.getD 1 0 ≠ 0 then .error errInvalidArgument
  else if pkt.getD 2 0 ≠ 0 then .error errUnsupported
  else
    match readAddrSpec (pkt.drop 3) with
    | .error (.failed message) => .error message
    | .error _ => .error errNoEnoughData
    | .ok (dst, payload) => .ok ⟨dst, consumed pkt payload, payload⟩

/-- The host of `SplitHostPort (JoinHostPort name port)`. A name in brackets loses them. -/
def splitJoinedHost (name : Bytes) : Option Bytes :=
  let bracketed := 91 ∈ name ∨ 93 ∈ name
  if 58 ∈ name then if bracketed then none else some name
  else if name.head? = some 91 then
    let inner := (name.drop 1).dropLast
    if name.getLast? = some 93 ∧ 91 ∉ inner ∧ 93 ∉ inner then some inner else none
  else if bracketed then none
  else some name

/-- `apicommon.ResolveUDPAddr` on the joined name and port. -/
def resolveUDPName (cfg : Config) (name : Bytes) (port : ℕ) : Option UDPAddr :=
  match splitJoinedHost name with
  | none => none
  | some [] => some ⟨none, port, []⟩
  | some host =>
    match parseAddr host with
    | some a => some ⟨some a.ip, port, a.zone⟩
    | none => ((cfg.resolver host).bind List.head?).map fun ip => ⟨some ip, port, []⟩

def resolveSocks5UDPAddr (cfg : Config) (addr : AddrSpec) : Option UDPAddr :=
  match addr.ip with
  | some ip => some ⟨some ip, addr.port, []⟩
  | none => if addr.fqdn ≠ [] then resolveUDPName cfg addr.fqdn addr.port else none

/-- `udpAddrToHeader`: a packet read from a socket always has an address. -/
def udpAddrToHeader (ip : IP) (port : ℕ) : Bytes :=
  [0, 0, 0] ++
    (match ip.to4 with
      | some ip4 => socks5IPv4Address :: ip4
      | none => socks5IPv6Address :: ip.bytes) ++
    [UInt8.ofNat (port / 256), UInt8.ofNat port]

/-- What leaves the association: a datagram to a target, or a packet to the client. -/
inductive Relayed where
  | toTarget (datagram : Socks5UDPDatagram) (dst : UDPAddr)
  | toClient (packet : Bytes)

structure Arrival where
  ip : IP
  port : ℕ
  zone : Bytes
  pkt : Bytes

def Arrival.addr (a : Arrival) : UDPAddr := ⟨some a.ip, a.port, a.zone⟩

/-! ## Packets over a stream -/

inductive StreamEvent where
  | client (pkt : Bytes) (written : Bool)
  | clientClosed
  | network (arrival : Arrival) (written : Bool)

structure StreamLoop where
  addrMap : List ((Option Bytes × ℕ × Bytes) × Bytes)
  closed : Bool
  downlinkClosed : Bool

def StreamLoop.initial : StreamLoop := ⟨[], false, false⟩

def StreamLoop.fromClient (cfg : Config) (s : StreamLoop) (pkt : Bytes) (written : Bool) :
    StreamLoop × List Relayed :=
  match parseSocks5UDPDatagram pkt with
  | .error _ => ({ s with closed := true }, [])
  | .ok datagram =>
    match resolveSocks5UDPAddr cfg datagram.addr with
    | none => (s, [])
    | some dstAddr =>
      ({ s with addrMap := (dstAddr.key, datagram.header) :: s.addrMap },
        if written then [.toTarget datagram dstAddr] else [])

/-- A failed write to the client ends this direction only. -/
def StreamLoop.fromNetwork (s : StreamLoop) (a : Arrival) (written : Bool) :
    StreamLoop × List Relayed :=
  let (header, addrMap) :=
    match s.addrMap.lookup a.addr.key with
    | some header => (header, s.addrMap)
    | none =>
      let header := udpAddrToHeader a.ip a.port
      (header, (a.addr.key, header) :: s.addrMap)
  ({ s with addrMap := addrMap, downlinkClosed := !written },
    if written then [.toClient (header ++ a.pkt)] else [])

/-- Both goroutines of `RunUDPAssociateLoop`; a closed loop reads nothing more. -/
def runUDPAssociateLoop (cfg : Config) (s : StreamLoop) (e : StreamEvent) :
    Option (StreamLoop × List Relayed) :=
  if s.closed then none
  else
    match e with
    | .client pkt written => some (s.fromClient cfg pkt written)
    | .clientClosed => some ({ s with closed := true }, [])
    | .network a written => if s.downlinkClosed then none else some (s.fromNetwork a written)

/-! ## Plain datagrams -/

structure DatagramLoop where
  clientAddr : Option UDPAddr
  targetAddrs : List (Option Bytes × ℕ × Bytes)

def DatagramLoop.initial : DatagramLoop := ⟨none, []⟩

/-- The first sender of a valid datagram is the client from then on. -/
def DatagramLoop.isClient (s : DatagramLoop) (a : Arrival) : Bool :=
  match s.clientAddr with
  | none => true
  | some clientAddr => sameUDPAddr a.addr clientAddr

def parseUDPAssociateDatagram (cfg : Config) (pkt : Bytes) :
    Option (Socks5UDPDatagram × UDPAddr) :=
  match parseSocks5UDPDatagram pkt with
  | .error _ => none
  | .ok datagram => (resolveSocks5UDPAddr cfg datagram.addr).map fun dst => (datagram, dst)

def runUDPAssociateDatagramLoop (cfg : Config) (s : DatagramLoop) (e : Arrival × Bool) :
    Option (DatagramLoop × List Relayed) :=
  let (a, written) := e
  if s.isClient a then
    match parseUDPAssociateDatagram cfg a.pkt with
    | none => some (s, [])
    | some (datagram, dstAddr) =>
      let s := { s with clientAddr := some (s.clientAddr.getD a.addr) }
      if written then
        some ({ s with targetAddrs := dstAddr.key :: s.targetAddrs }, [.toTarget datagram dstAddr])
      else some (s, [])
  else if a.addr.key ∈ s.targetAddrs then
    some (s, if written then [.toClient (udpAddrToHeader a.ip a.port ++ a.pkt)] else [])
  else some (s, [])

/-! ## Destinations of relayed datagrams -/

/-- No resolver is asked: the address is an IP address, or a name that is the text of one. -/
def AddrSpec.Literal (addr : AddrSpec) : Prop :=
  addr.ip ≠ none ∨ ∃ host, splitJoinedHost addr.fqdn = some host ∧ parseAddr host ≠ none

def addressRequest (command : UInt8) (ip : IP) (port : ℕ) : Bytes :=
  [socks5Version, command, 0] ++
    (if ip.bytes.length = 4 then socks5IPv4Address else socks5IPv6Address) ::
      (ip.bytes ++ BigEndian.encode 2 port)

theorem readRequest_address (command : UInt8) (ip : IP) (port : ℕ) :
    readRequest (addressRequest command ip port) =
      .ok (⟨command, ⟨[], some ip, port % 65536⟩, addressRequest command ip port⟩, []) := by
  have haddr : readAddrSpec ((addressRequest command ip port).drop 3) =
      .ok (⟨[], some ip, port % 65536⟩, []) := by
    have hip : mkIP ip.bytes = some ip := dif_pos ip.length_eq
    simp only [addressRequest, List.cons_append, List.nil_append, List.drop_succ_cons,
      List.drop_zero]
    rw [← List.append_nil (_ :: _), ← hip]
    rcases ip.length_eq with hlen | hlen
    · rw [if_pos hlen]
      exact Common.readAddrSpec_ipv4 hlen port []
    · rw [if_neg (by omega)]
      exact Common.readAddrSpec_ipv6 hlen port []
  have hhead : readHeaderAndAddr (addressRequest command ip port) =
      .ok ((command, ⟨[], some ip, port % 65536⟩), []) := by
    change (readAddrSpec ((addressRequest command ip port).drop 3) >>=
      fun r => Except.ok ((command, r.1), r.2)) = _
    rw [haddr]
    rfl
  rw [readRequest, hhead]
  simp [consumed, pure, Except.pure]

/-- The server's answer to a request of the user for the address is not a rejection. -/
def NotRejected (cfg : Config) (user : Option Bytes) (ip : IP) (port : ℕ) : Prop :=
  ∀ command, command = socks5ConnectCmd ∨ command = socks5UDPAssociateCmd → ∀ pick,
    (findAction cfg pick ⟨.socks5, addressRequest command ip port, user⟩).action ≠ .reject

/-- The user may reach the address and the first matching rule is not REJECT. -/
def DestinationPermitted (cfg : Config) (user : Option Bytes) (ip : IP) : Prop :=
  IPPermitted cfg user ip ∧
    ∀ rule, cfg.egress.rules.find? (fun r => r.ipRanges.any (matchIPRange ip)) = some rule →
      rule.action ≠ .reject

theorem ruleAction_ip (cfg : Config) (ip : IP) (port : ℕ) :
    ruleAction cfg ⟨[], some ip, port⟩ ≠ .reject ↔
      ∀ rule, cfg.egress.rules.find? (fun r => r.ipRanges.any (matchIPRange ip)) = some rule →
        rule.action ≠ .reject := by
  have hmatch : matchEgressRule ⟨[], some ip, port⟩ =
      fun r => r.ipRanges.any (matchIPRange ip) := rfl
  rw [ruleAction, hmatch]
  cases cfg.egress.rules.find? fun r => r.ipRanges.any (matchIPRange ip) with
  | none => simp
  | some rule => simp

theorem notRejected_iff {cfg : Config} {user : Option Bytes} {ip : IP} {port : ℕ} :
    NotRejected cfg user ip port ↔ DestinationPermitted cfg user ip := by
  have haction : ∀ command, command = socks5ConnectCmd ∨ command = socks5UDPAssociateCmd →
      ∀ pick, (findAction cfg pick
        ⟨.socks5, addressRequest command ip port, user⟩).action ≠ .reject ↔
          DestinationPermitted cfg user ip := by
    intro command hcmd pick
    rw [findAction_request cfg pick user (readRequest_address command ip port) hcmd,
      DestinationPermitted, ← ruleAction_ip cfg ip (port % 65536)]
    have hrej := reject_iff cfg ⟨.socks5, addressRequest command ip port, user⟩
      ⟨[], some ip, port % 65536⟩
    simp only [checkedIP, Option.some.injEq, exists_eq_left'] at hrej
    by_cases hp : IPPermitted cfg user ip
    · have hno := hrej.not.mpr (not_not.mpr hp)
      simp [hno, hp]
    · simp [hrej.mpr hp, hp]
  constructor
  · intro hall
    exact (haction _ (Or.inl rfl) 0).mp (hall _ (Or.inl rfl) 0)
  · intro hp command hcmd pick
    exact (haction command hcmd pick).mpr hp

/-- A datagram for a literal address goes to one that is not rejected. -/
def RelayedLawfully (cfg : Config) (user : Option Bytes) : Relayed → Prop
  | .toTarget d dst =>
    d.addr.Literal → ∀ ip, dst.ip = some ip → NotRejected cfg user ip dst.port
  | .toClient _ => True

/-- The packet leads to no literal address that the user may not reach. -/
def PacketPermitted (cfg : Config) (user : Option Bytes) (pkt : Bytes) : Prop :=
  ∀ d dst ip, parseSocks5UDPDatagram pkt = .ok d → d.addr.Literal →
    resolveSocks5UDPAddr cfg d.addr = some dst → dst.ip = some ip →
    DestinationPermitted cfg user ip

def StreamGuard (cfg : Config) (user : Option Bytes) (_ : StreamLoop) : StreamEvent → Prop
  | .client pkt true => PacketPermitted cfg user pkt
  | _ => True

def DatagramGuard (cfg : Config) (user : Option Bytes) (s : DatagramLoop) (e : Arrival × Bool) :
    Prop :=
  s.isClient e.1 = true → e.2 = true → PacketPermitted cfg user e.1.pkt

theorem lawful_iff_permitted {cfg : Config} {user : Option Bytes} {pkt : Bytes}
    {d : Socks5UDPDatagram} {dst : UDPAddr} (h : parseSocks5UDPDatagram pkt = .ok d)
    (hdst : resolveSocks5UDPAddr cfg d.addr = some dst) :
    RelayedLawfully cfg user (.toTarget d dst) ↔ PacketPermitted cfg user pkt := by
  constructor
  · intro hl d' dst' ip h' hliteral hdst' hip
    cases h.symm.trans h'
    cases hdst.symm.trans hdst'
    exact notRejected_iff.mp (hl hliteral ip hip)
  · intro hp hliteral ip hip
    exact notRejected_iff.mpr (hp d dst ip h hliteral hdst hip)

theorem permitted_of_unresolved {cfg : Config} {user : Option Bytes} {pkt : Bytes}
    (h : ∀ d, parseSocks5UDPDatagram pkt = .ok d → resolveSocks5UDPAddr cfg d.addr = none) :
    PacketPermitted cfg user pkt := by
  intro d dst ip hd _ hdst
  cases (h d hd).symm.trans hdst

theorem streamGuard_iff {cfg : Config} {user : Option Bytes} {s s' : StreamLoop} {e : StreamEvent}
    {out : List Relayed} (h : runUDPAssociateLoop cfg s e = some (s', out)) :
    StreamGuard cfg user s e ↔ ∀ o ∈ out, RelayedLawfully cfg user o := by
  unfold runUDPAssociateLoop at h
  by_cases hclosed : s.closed = true
  · rw [if_pos hclosed] at h
    cases h
  rw [if_neg hclosed] at h
  cases e with
  | clientClosed =>
    cases h
    simp [StreamGuard]
  | network a written =>
    by_cases hdown : s.downlinkClosed = true
    · simp [hdown] at h
    · simp only [hdown, Bool.false_eq_true, if_false] at h
      cases h
      cases written <;> simp [StreamGuard, RelayedLawfully]
  | client pkt written =>
    cases written with
    | false =>
      have hout : out = [] := by
        simp only [StreamLoop.fromClient, Option.some.injEq] at h
        cases hparse : parseSocks5UDPDatagram pkt with
        | error e =>
          simp only [hparse] at h
          cases h
          rfl
        | ok d =>
          cases hres : resolveSocks5UDPAddr cfg d.addr <;> simp only [hparse, hres] at h <;>
            cases h <;> rfl
      simp [StreamGuard, hout]
    | true =>
      simp only [StreamLoop.fromClient, Option.some.injEq] at h
      cases hparse : parseSocks5UDPDatagram pkt with
      | error e =>
        simp only [hparse] at h
        cases h
        refine iff_of_true (permitted_of_unresolved fun d hd => ?_) (by simp)
        cases hparse.symm.trans hd
      | ok d =>
        cases hres : resolveSocks5UDPAddr cfg d.addr with
        | none =>
          simp only [hparse, hres] at h
          cases h
          refine iff_of_true (permitted_of_unresolved fun d' hd => ?_) (by simp)
          cases hparse.symm.trans hd
          exact hres
        | some dst =>
          simp only [hparse, hres] at h
          cases h
          simpa [StreamGuard] using (lawful_iff_permitted hparse hres).symm

theorem datagramGuard_iff {cfg : Config} {user : Option Bytes} {s s' : DatagramLoop}
    {e : Arrival × Bool} {out : List Relayed}
    (h : runUDPAssociateDatagramLoop cfg s e = some (s', out)) :
    DatagramGuard cfg user s e ↔ ∀ o ∈ out, RelayedLawfully cfg user o := by
  obtain ⟨a, written⟩ := e
  unfold runUDPAssociateDatagramLoop at h
  unfold DatagramGuard
  by_cases hclient : s.isClient a = true
  · simp only [hclient, if_true, parseUDPAssociateDatagram] at h
    simp only [hclient, true_implies]
    cases hparse : parseSocks5UDPDatagram a.pkt with
    | error e =>
      simp only [hparse] at h
      cases h
      refine iff_of_true (fun _ => permitted_of_unresolved fun d hd => ?_) (by simp)
      cases hparse.symm.trans hd
    | ok d =>
      cases hres : resolveSocks5UDPAddr cfg d.addr with
      | none =>
        simp only [hparse, hres, Option.map_none] at h
        cases h
        refine iff_of_true (fun _ => permitted_of_unresolved fun d' hd => ?_) (by simp)
        cases hparse.symm.trans hd
        exact hres
      | some dst =>
        simp only [hparse, hres, Option.map_some] at h
        cases written with
        | false =>
          cases h
          simp
        | true =>
          cases h
          simpa using (lawful_iff_permitted hparse hres).symm
  · simp only [hclient, Bool.false_eq_true, if_false] at h
    refine iff_of_true (fun hc => absurd hc hclient) ?_
    by_cases htarget : a.addr.key ∈ s.targetAddrs
    · rw [if_pos htarget] at h
      cases h
      cases written <;> simp [RelayedLawfully]
    · rw [if_neg htarget] at h
      cases h
      simp

/-- Neither loop asks for the policy again: in every run the literal destinations
that were sent to are acceptable exactly when every packet taken from the client
leads to an acceptable one. -/
theorem relayed_lawfully_iff_guarded (cfg : Config) (user : Option Bytes) :
    (∀ {es outs s}, Reaches (runUDPAssociateLoop cfg) Free StreamLoop.initial es outs s →
      ((∀ o ∈ outs, RelayedLawfully cfg user o) ↔
        Reaches (runUDPAssociateLoop cfg) (StreamGuard cfg user) StreamLoop.initial es outs s)) ∧
    (∀ {es outs s},
      Reaches (runUDPAssociateDatagramLoop cfg) Free DatagramLoop.initial es outs s →
      ((∀ o ∈ outs, RelayedLawfully cfg user o) ↔
        Reaches (runUDPAssociateDatagramLoop cfg) (DatagramGuard cfg user) DatagramLoop.initial
          es outs s)) := by
  constructor
  · intro es outs s h
    exact emitted_iff_guarded (fun _ _ _ _ hs => streamGuard_iff hs) h
  · intro es outs s h
    exact emitted_iff_guarded (fun _ _ _ _ hs => datagramGuard_iff hs) h

/-- A datagram to 8.8.8.8 goes through both loops of a server without allowances. -/
theorem public_datagram_relayed_lawfully :
    (∃ s, Reaches (runUDPAssociateLoop internetOnly) Free StreamLoop.initial
      [.client [0, 0, 0, 1, 8, 8, 8, 8, 0, 53, 7] true]
      [.toTarget ⟨⟨[], some ⟨[8, 8, 8, 8], Or.inl rfl⟩, 53⟩, [0, 0, 0, 1, 8, 8, 8, 8, 0, 53], [7]⟩
        ⟨some ⟨[8, 8, 8, 8], Or.inl rfl⟩, 53, []⟩] s) ∧
    RelayedLawfully internetOnly (some (ascii "user"))
      (.toTarget ⟨⟨[], some ⟨[8, 8, 8, 8], Or.inl rfl⟩, 53⟩, [0, 0, 0, 1, 8, 8, 8, 8, 0, 53], [7]⟩
        ⟨some ⟨[8, 8, 8, 8], Or.inl rfl⟩, 53, []⟩) := by
  have hstep : runUDPAssociateLoop internetOnly StreamLoop.initial
      (.client [0, 0, 0, 1, 8, 8, 8, 8, 0, 53, 7] true) = some (_, [_]) := rfl
  have hguard : StreamGuard internetOnly (some (ascii "user")) StreamLoop.initial
      (.client [0, 0, 0, 1, 8, 8, 8, 8, 0, 53, 7] true) := by
    intro d dst ip hd _ hdst hip
    cases hd
    cases hdst
    cases hip
    exact ⟨Or.inl (by decide), fun rule hrule => by cases hrule⟩
  have hrun := Reaches.next (Reaches.start (P := Free)) trivial hstep
  have hlawful := ((relayed_lawfully_iff_guarded internetOnly (some (ascii "user"))).1 hrun).mpr
    (Reaches.next Reaches.start hguard hstep)
  exact ⟨⟨_, hrun⟩, hlawful _ (List.mem_singleton_self _)⟩

/-- The association is answered DIRECT, and a datagram for 127.0.0.1, as an address or as a
name, is sent in both modes although the server rejects a request for that address. -/
theorem loopback_datagram_relayed :
    (serverServeConn internetOnly 0 (ascii "user") [5, 3, 0, 1, 0, 0, 0, 0, 0, 0]).2 =
      .ok (.associate .packetOverStream, []) ∧
    (∀ pkt ∈ [[0, 0, 0, 1, 127, 0, 0, 1, 0, 53, 7],
        [0, 0, 0, 3, 9] ++ ascii "127.0.0.1" ++ [0, 53, 7]],
      ∃ d, parseSocks5UDPDatagram pkt = .ok d ∧ d.addr.Literal ∧
        (∃ s, runUDPAssociateLoop internetOnly StreamLoop.initial (.client pkt true) =
          some (s, [.toTarget d ⟨some ⟨[127, 0, 0, 1], Or.inl rfl⟩, 53, []⟩])) ∧
        ∃ s, runUDPAssociateDatagramLoop internetOnly DatagramLoop.initial
          (⟨⟨[9, 9, 9, 9], Or.inl rfl⟩, 5000, [], pkt⟩, true) =
            some (s, [.toTarget d ⟨some ⟨[127, 0, 0, 1], Or.inl rfl⟩, 53, []⟩])) ∧
    (findAction internetOnly 0 ⟨.socks5, addressRequest socks5UDPAssociateCmd
      ⟨[127, 0, 0, 1], Or.inl rfl⟩ 53, some (ascii "user")⟩).action = .reject := by
  refine ⟨rfl, ?_, rfl⟩
  simp only [List.forall_mem_cons]
  refine ⟨⟨_, rfl, .inl (by decide), ⟨_, rfl⟩, ⟨_, rfl⟩⟩,
    ⟨_, rfl, .inr ⟨ascii "127.0.0.1", rfl, by decide⟩, ⟨_, rfl⟩, ⟨_, rfl⟩⟩, by simp⟩

end Mieru.Socks5
