import Mieru.Common.PacketOverStream
import Mieru.Lib.Result
import Mieru.Socks5.AddressText
import Mieru.Socks5.Request

/-! # Packets with a socks5 UDP associate header

`UDPAssociateWrapper` puts the destination of each packet in front of it. The destination goes
from a `net.Addr` through its text to an address of its own, and through the bytes of the header
to the other end. -/
namespace Mieru.Common

open Net ByteReader Result Socks5

/-- `model.NetAddrSpec`. Its fields are public, so the IP can have any number of bytes and the
port any value. -/
structure NetAddrSpec where
  fqdn : Bytes
  ip : Bytes
  port : ℤ
  net : Bytes
  deriving DecidableEq

/-- A `net.Addr`. One that is neither a `NetAddrSpec` (or a pointer to it) nor a `UDPAddr` is
known by its two methods only. -/
inductive NetAddr where
  | spec (a : NetAddrSpec)
  | udp (a : UDPAddr)
  | other (string network : Bytes)
  deriving DecidableEq

def addrSpecFrom (addr network : Bytes) : Except String NetAddrSpec := do
  let (host, portStr) ← splitHostPort addr
  let port ← atoi portStr
  ensure (0 ≤ port ∧ port ≤ 65535) s!"port {port} is out of range"
  match parseIP host with
  | some ip => return ⟨[], ip.bytes, port, network⟩
  | none =>
    let quoted := (String.ofList (host.map fun c => Char.ofNat c.toNat)).quote
    ensure (host.length ≤ 255) s!"FQDN {quoted} exceeds 255 bytes"
    return ⟨host, [], port, network⟩

/-- `NetAddrSpec.From`: an address of the same type is taken as it is. -/
def netAddrSpecFrom : NetAddr → Except String NetAddrSpec
  | .spec a => .ok a
  | .udp a => addrSpecFrom a.string (ascii "udp")
  | .other string network => addrSpecFrom string network

def NetAddrSpec.writeToSocks5 (a : NetAddrSpec) : Except String Bytes :=
  let ip := mkIP a.ip
  let port := BigEndian.encode 2 (a.port % 65536).toNat
  match ip.bind IP.to4, ip.map IP.to16 with
  | some ip4, _ => .ok (socks5IPv4Address :: (ip4 ++ port))
  | none, some ip16 => .ok (socks5IPv6Address :: (ip16 ++ port))
  | none, none =>
    if a.fqdn ≠ [] then
      .ok (socks5FQDNAddress :: UInt8.ofNat a.fqdn.length :: (a.fqdn ++ port))
    else .error errUnrecognizedAddrType.text

/-- The connection under the wrappers of both ends. `readFrom n pkt` is what a read into `n` bytes
makes of a packet that was sent. -/
structure PacketConn where
  writeTo : Bytes → NetAddr → Except String Unit
  readFrom : ℕ → Bytes → Except String Bytes
  delivers : ∀ n pkt addr, writeTo pkt addr = .ok () → pkt.length ≤ 65535 → pkt.length ≤ n →
    readFrom n pkt = .ok pkt

namespace UDPAssociateWrapper

def socks5MaxUDPHeaderLen : ℕ := 262

/-- The packet of `WriteTo`. An error of `WriteToSocks5` is not looked at. -/
def packet (destination : NetAddrSpec) (p : Bytes) : Bytes :=
  let header := match destination.writeToSocks5 with
    | .ok header => header
    | .error _ => []
  [0, 0, 0] ++ header ++ p

def writeTo (conn : PacketConn) (p : Bytes) (addr : NetAddr) : Except String (ℕ × Bytes) := do
  let destination ← netAddrSpecFrom addr
  conn.writeTo (packet destination p) (.spec destination)
  return (p.length, packet destination p)

def source (destination : AddrSpec) : NetAddr :=
  if destination.fqdn ≠ [] then
    .spec ⟨destination.fqdn, [], destination.port, ascii "udp"⟩
  else .udp ⟨destination.ip, destination.port, []⟩

def readFrom (readFromFQDN : Bool) (conn : PacketConn) (len : ℕ) (pkt : Bytes) :
    Except String (Bytes × NetAddr) := do
  let b ← conn.readFrom (len + socks5MaxUDPHeaderLen) pkt
  ensure (6 < b.length) s!"packet size {b.length} is too short to hold UDP associate header"
  ensure (b.getD 0 0 = 0 ∧ b.getD 1 0 = 0) "invalid UDP header"
  ensure (b.getD 2 0 = 0) "UDP fragment is not supported"
  let (destination, rest) ← (readAddrSpec (b.drop 3)).mapError ReadError.text
  ensure (destination.fqdn = [] ∨ readFromFQDN = true)
    "peer used FQDN in UDP associate header, which is unsupported"
  return (rest.take len, source destination)

end UDPAssociateWrapper

/-! ## What an address stands for -/

/-- The IP address or name and the port. A text that is an IP address with a zone stands for the
IP address. -/
def NetAddr.destination : NetAddr → Option (Host × ℤ)
  | .spec a =>
    match mkIP a.ip with
    | some ip => some (.ip ip, a.port)
    | none => some (.name a.fqdn, a.port)
  | .udp a =>
    match a.ip with
    | some ip => some (.ip ip, a.port)
    | none => some (.name [], a.port)
  | .other string _ =>
    match splitHostPort string with
    | .error _ => none
    | .ok (host, portStr) =>
      match atoi portStr, parseAddr host with
      | .error _, _ => none
      | .ok port, some a => some (.ip a.ip, port)
      | .ok port, none => some (.name host, port)

def sameHost : Host → Host → Bool
  | .ip a, .ip b => a.equal b
  | .name a, .name b => a = b
  | _, _ => false

def NetAddr.SameDestination (a b : NetAddr) : Prop :=
  match a.destination, b.destination with
  | some (host, port), some (host', port') => sameHost host host' = true ∧ port = port'
  | _, _ => False

def NetAddr.Carried : NetAddr → Prop
  | .spec a =>
    0 ≤ a.port ∧ a.port ≤ 65535 ∧
      ((mkIP a.ip).isSome = true ∨ a.fqdn ≠ [] ∧ a.fqdn.length ≤ 255)
  | .udp a => a.ip.isSome = true ∧ a.zone = []
  | .other string _ =>
    ∀ host portStr, splitHostPort string = .ok (host, portStr) →
      host ≠ [] ∧ ∀ a, parseAddr host = some a → a.zone = []

/-! ## The header -/

theorem readPort_encode (v : ℕ) (rest : Bytes) :
    readPort (BigEndian.encode 2 v ++ rest) = .ok (v % 65536, rest) := by
  unfold readPort
  rw [bind_run, readFull_append (by simp), ok_bind, pure_run]
  congr 2
  simp [BigEndian.encode]
  omega

theorem readAddrSpec_ipv4 {ip4 : Bytes} (h : ip4.length = 4) (v : ℕ) (rest : Bytes) :
    readAddrSpec (socks5IPv4Address :: (ip4 ++ BigEndian.encode 2 v) ++ rest) =
      .ok (⟨[], mkIP ip4, v % 65536⟩, rest) := by
  unfold readAddrSpec
  rw [List.cons_append, bind_run, readByte_cons, ok_bind]
  simp only [if_true, readIP, bind_run, List.append_assoc, readFull_append h, ok_bind, pure_run,
    readPort_encode]

theorem readAddrSpec_ipv6 {ip16 : Bytes} (h : ip16.length = 16) (v : ℕ) (rest : Bytes) :
    readAddrSpec (socks5IPv6Address :: (ip16 ++ BigEndian.encode 2 v) ++ rest) =
      .ok (⟨[], mkIP ip16, v % 65536⟩, rest) := by
  have hne : socks5IPv6Address ≠ socks5IPv4Address := by decide
  unfold readAddrSpec
  rw [List.cons_append, bind_run, readByte_cons, ok_bind]
  simp only [if_neg hne, if_true, readIP, bind_run, List.append_assoc, readFull_append h, ok_bind,
    pure_run, readPort_encode]

theorem readAddrSpec_name {name : Bytes} (h : name.length ≤ 255) (v : ℕ) (rest : Bytes) :
    readAddrSpec (socks5FQDNAddress :: UInt8.ofNat name.length ::
        (name ++ BigEndian.encode 2 v) ++ rest) =
      .ok (⟨name, none, v % 65536⟩, rest) := by
  have hne4 : socks5FQDNAddress ≠ socks5IPv4Address := by decide
  have hne6 : socks5FQDNAddress ≠ socks5IPv6Address := by decide
  have hlen : name.length = (UInt8.ofNat name.length).toNat := by
    simp
    omega
  unfold readAddrSpec
  rw [List.cons_append, bind_run, readByte_cons, ok_bind]
  simp only [if_neg hne4, if_neg hne6, if_true, bind_run, List.cons_append, List.append_assoc,
    readByte_cons, ok_bind, pure_run, readFull_append hlen, readPort_encode]

theorem length_lt_of_readAddrSpec {bs rest : Bytes} {a : AddrSpec}
    (h : readAddrSpec bs = .ok (a, rest)) : rest.length < bs.length := by
  obtain ⟨raw, rfl, hraw⟩ := consumes_readAddrSpec bs a rest h
  cases raw with
  | nil => cases hraw []
  | cons b raw => simp

theorem mkIP_of_length {bs : Bytes} (h : bs.length = 4 ∨ bs.length = 16) :
    mkIP bs = some ⟨bs, h⟩ := dif_pos h

namespace UDPAssociateWrapper

theorem mapError_eq_ok {ε ε' α : Type} {f : ε → ε'} {x : Except ε α} {a : α} :
    x.mapError f = .ok a ↔ x = .ok a := by
  cases x with
  | error e => simp [Except.mapError]
  | ok b => simp [Except.mapError]

theorem readFrom_eq_ok_iff {conn : PacketConn} {len : ℕ} {pkt q : Bytes} {src : NetAddr} :
    readFrom true conn len pkt = .ok (q, src) ↔
      ∃ b, conn.readFrom (len + socks5MaxUDPHeaderLen) pkt = .ok b ∧ 6 < b.length ∧
        (b.getD 0 0 = 0 ∧ b.getD 1 0 = 0) ∧ b.getD 2 0 = 0 ∧
        ∃ dst rest, readAddrSpec (b.drop 3) = .ok (dst, rest) ∧ q = rest.take len ∧
          src = source dst := by
  have hok : ∀ (dst : AddrSpec) (rest : Bytes),
      (pure (rest.take len, source dst) : Except String (Bytes × NetAddr)) = .ok (q, src) ↔
        q = rest.take len ∧ src = source dst := by
    intro dst rest
    simp [pure, Except.pure, eq_comm]
  unfold readFrom
  rw [bind_eq_ok]
  apply exists_congr
  intro b
  rw [ensure_bind_eq_ok, ensure_bind_eq_ok, ensure_bind_eq_ok, bind_eq_ok]
  simp only [mapError_eq_ok, Prod.exists, ensure_bind_eq_ok, or_true, true_and, hok]

theorem readFrom_of_header {conn : PacketConn} {len : ℕ} {pkt header p : Bytes} {dst : AddrSpec}
    (hconn : conn.readFrom (len + socks5MaxUDPHeaderLen) pkt = .ok ([0, 0, 0] ++ header ++ p))
    (hheader : 4 ≤ header.length) (hlen : p.length ≤ len)
    (hread : readAddrSpec (header ++ p) = .ok (dst, p)) :
    readFrom true conn len pkt = .ok (p, source dst) := by
  rw [readFrom_eq_ok_iff]
  refine ⟨_, hconn, ?_, ⟨rfl, rfl⟩, rfl, dst, p, hread, ?_, rfl⟩
  · simp
    omega
  · exact (List.take_of_length_le hlen).symm

section packets

variable {conn : PacketConn} {a : NetAddrSpec} {p : Bytes} {addr : NetAddr} {len : ℕ}
  (hsent : conn.writeTo (packet a p) addr = .ok ()) (hp : p.length ≤ 65535 - 262)
  (hlen : p.length ≤ len)

include hsent hp in
theorem readFrom_conn {header : Bytes} (hpacket : packet a p = [0, 0, 0] ++ header ++ p)
    (hheader : header.length ≤ 259) (hlen : p.length ≤ len) :
    conn.readFrom (len + socks5MaxUDPHeaderLen) (packet a p) = .ok ([0, 0, 0] ++ header ++ p) := by
  rw [← hpacket]
  have hlength : (packet a p).length = 3 + header.length + p.length := by
    simp [hpacket]
    omega
  refine conn.delivers _ _ addr hsent ?_ ?_
  · omega
  · rw [socks5MaxUDPHeaderLen]
    omega

include hsent hp hlen in
theorem readFrom_ip {ip : IP} (hip : mkIP a.ip = some ip) :
    ∃ ip', ip'.to16 = ip.to16 ∧ readFrom true conn len (packet a p) =
      .ok (p, .udp ⟨some ip', (a.port % 65536).toNat, []⟩) := by
  have hport : (a.port % 65536).toNat % 65536 = (a.port % 65536).toNat := by omega
  cases hto4 : ip.to4 with
  | some ip4 =>
    obtain ⟨h4, h16⟩ := to16_of_to4 hto4
    have hpacket : packet a p = [0, 0, 0] ++ socks5IPv4Address ::
        (ip4 ++ BigEndian.encode 2 (a.port % 65536).toNat) ++ p := by
      simp [packet, NetAddrSpec.writeToSocks5, hip, hto4]
    refine ⟨⟨ip4, Or.inl h4⟩, (to16_short h4).trans h16.symm, ?_⟩
    have hread := readAddrSpec_ipv4 h4 (a.port % 65536).toNat p
    rw [hport, mkIP_of_length (Or.inl h4)] at hread
    have hconn := readFrom_conn hsent hp hpacket (by simp [h4]) hlen
    rw [readFrom_of_header hconn (by simp [h4]) hlen hread]
    rfl
  | none =>
    have h16 : ip.to16.length = 16 := length_to16 ip
    have hpacket : packet a p = [0, 0, 0] ++ socks5IPv6Address ::
        (ip.to16 ++ BigEndian.encode 2 (a.port % 65536).toNat) ++ p := by
      simp [packet, NetAddrSpec.writeToSocks5, hip, hto4]
    refine ⟨⟨ip.to16, Or.inr h16⟩, to16_long h16, ?_⟩
    have hread := readAddrSpec_ipv6 h16 (a.port % 65536).toNat p
    rw [hport, mkIP_of_length (Or.inr h16)] at hread
    have hconn := readFrom_conn hsent hp hpacket (by simp [h16]) hlen
    rw [readFrom_of_header hconn (by simp [h16]) hlen hread]
    rfl

include hsent hp hlen in
theorem readFrom_name (hip : mkIP a.ip = none) (hfqdn : a.fqdn ≠ [])
    (hshort : a.fqdn.length ≤ 255) :
    readFrom true conn len (packet a p) =
      .ok (p, .spec ⟨a.fqdn, [], (a.port % 65536).toNat, ascii "udp"⟩) := by
  have hport : (a.port % 65536).toNat % 65536 = (a.port % 65536).toNat := by omega
  have hpos : 0 < a.fqdn.length := List.length_pos_iff.mpr hfqdn
  have hpacket : packet a p = [0, 0, 0] ++ socks5FQDNAddress :: UInt8.ofNat a.fqdn.length ::
      (a.fqdn ++ BigEndian.encode 2 (a.port % 65536).toNat) ++ p := by
    simp [packet, NetAddrSpec.writeToSocks5, hip, hfqdn]
  have hread := readAddrSpec_name hshort (a.port % 65536).toNat p
  rw [hport] at hread
  have hconn := readFrom_conn hsent hp hpacket (by simp; omega) hlen
  rw [readFrom_of_header hconn (by simp) hlen hread]
  simp [source, hfqdn]

include hsent hp hlen in
theorem readFrom_empty (hip : mkIP a.ip = none) (hfqdn : a.fqdn = []) (src : NetAddr) :
    readFrom true conn len (packet a p) ≠ .ok (p, src) := by
  intro h
  have hpacket : packet a p = [0, 0, 0] ++ [] ++ p := by
    simp [packet, NetAddrSpec.writeToSocks5, hip, hfqdn]
  have hconn := readFrom_conn hsent hp hpacket (by simp) hlen
  obtain ⟨b, hb, -, -, -, dst, rest, hread, hpayload, -⟩ := readFrom_eq_ok_iff.mp h
  rw [hconn] at hb
  cases hb
  have hless := length_lt_of_readAddrSpec hread
  have htake : p.length = (rest.take len).length := congrArg List.length hpayload
  simp at hless htake
  omega

theorem readFrom_short {src : NetAddr} {pkt q : Bytes}
    (h : readFrom true conn len pkt = .ok (q, src)) {name : Bytes} {port : ℤ}
    (hsrc : src.destination = some (.name name, port)) : name.length ≤ 255 := by
  obtain ⟨b, -, -, -, -, dst, rest, hread, -, rfl⟩ := readFrom_eq_ok_iff.mp h
  have hshort := (readAddrSpec_shape hread).2
  unfold source at hsrc
  split_ifs at hsrc
  · cases hsrc
    exact hshort
  · unfold NetAddr.destination at hsrc
    cases hip : dst.ip with
    | none =>
      rw [hip] at hsrc
      cases hsrc
      simp
    | some ip =>
      rw [hip] at hsrc
      cases hsrc

def Arrives (conn : PacketConn) (len : ℕ) (a : NetAddrSpec) (p : Bytes) (addr : NetAddr) : Prop :=
  ∃ src, readFrom true conn len (packet a p) = .ok (p, src) ∧ src.SameDestination addr

theorem arrives_iff {goal src : NetAddr}
    (hread : readFrom true conn len (packet a p) = .ok (p, src)) :
    Arrives conn len a p goal ↔ src.SameDestination goal := by
  constructor
  · rintro ⟨src', hsrc, hsame⟩
    rw [hread] at hsrc
    cases hsrc
    exact hsame
  · intro hsame
    exact ⟨src, hread, hsame⟩

theorem port_toNat (port : ℤ) : ((port % 65536).toNat : ℤ) = port % 65536 := by omega

variable {goal : NetAddr} {host : Host} {port : ℤ} (hgoal : goal.destination = some (host, port))

include hsent hp hlen hgoal in
theorem arrives_ip {ip : IP} (hip : mkIP a.ip = some ip) :
    Arrives conn len a p goal ↔
      (∃ x : IP, host = .ip x ∧ x.to16 = ip.to16) ∧ a.port % 65536 = port := by
  obtain ⟨ip', h16, hread⟩ := readFrom_ip hsent hp hlen hip
  rw [arrives_iff hread]
  unfold NetAddr.SameDestination
  rw [hgoal]
  simp only [NetAddr.destination, port_toNat]
  apply and_congr_left
  intro _
  cases host with
  | ip x =>
    constructor
    · intro h
      exact ⟨x, rfl, (equal_iff.mp h).symm.trans h16⟩
    · rintro ⟨y, hy, h⟩
      cases hy
      exact equal_iff.mpr (h16.trans h.symm)
  | name n => simp [sameHost]

include hsent hp hlen hgoal in
theorem arrives_name (hip : mkIP a.ip = none) (hfqdn : a.fqdn ≠ []) (hshort : a.fqdn.length ≤ 255) :
    Arrives conn len a p goal ↔ host = .name a.fqdn ∧ a.port % 65536 = port := by
  rw [arrives_iff (readFrom_name hsent hp hlen hip hfqdn hshort)]
  unfold NetAddr.SameDestination
  rw [hgoal]
  have hnone : mkIP [] = none := rfl
  simp only [NetAddr.destination, hnone, port_toNat]
  apply and_congr_left
  intro _
  cases host with
  | ip x => simp [sameHost]
  | name n => simp [sameHost, eq_comm]

include hsent hp hlen in
theorem not_arrives_empty (hip : mkIP a.ip = none) (hfqdn : a.fqdn = []) :
    ¬ Arrives conn len a p goal := by
  rintro ⟨src, hsrc, -⟩
  exact readFrom_empty hsent hp hlen hip hfqdn src hsrc

theorem not_arrives_long {name : Bytes} (hgoal : goal.destination = some (.name name, port))
    (hlong : 255 < name.length) : ¬ Arrives conn len a p goal := by
  rintro ⟨src, hsrc, hsame⟩
  unfold NetAddr.SameDestination at hsame
  rw [hgoal] at hsame
  cases hdst : src.destination with
  | none => simp [hdst] at hsame
  | some d =>
    obtain ⟨srcHost, srcPort⟩ := d
    cases srcHost with
    | ip x => simp [hdst, sameHost] at hsame
    | name n =>
      have hshort := readFrom_short hsrc hdst
      simp [hdst, sameHost] at hsame
      rw [hsame.1] at hshort
      omega

/-! ## Each kind of address -/

include hsent hp hlen in
theorem arrives_spec_iff : Arrives conn len a p (.spec a) ↔ (NetAddr.spec a).Carried := by
  have hport : a.port % 65536 = a.port ↔ 0 ≤ a.port ∧ a.port ≤ 65535 := by omega
  unfold NetAddr.Carried
  cases hip : mkIP a.ip with
  | some ip =>
    have hgoal : (NetAddr.spec a).destination = some (.ip ip, a.port) := by
      simp [NetAddr.destination, hip]
    rw [arrives_ip hsent hp hlen hgoal hip, hport]
    simp [hip]
  | none =>
    have hgoal : (NetAddr.spec a).destination = some (.name a.fqdn, a.port) := by
      simp [NetAddr.destination, hip]
    by_cases hfqdn : a.fqdn = []
    · refine iff_of_false (not_arrives_empty hsent hp hlen hip hfqdn) ?_
      simp [hip, hfqdn]
    · by_cases hshort : a.fqdn.length ≤ 255
      · rw [arrives_name hsent hp hlen hgoal hip hfqdn hshort, hport]
        simp [hip, hfqdn, hshort]
      · refine iff_of_false (not_arrives_long hgoal (by omega)) ?_
        simp [hip, hshort]

end packets

theorem addrSpecFrom_ok {addr network : Bytes} {a : NetAddrSpec}
    (h : addrSpecFrom addr network = .ok a) :
    ∃ host portStr port, splitHostPort addr = .ok (host, portStr) ∧ atoi portStr = .ok port ∧
      port % 65536 = port ∧
      ((∃ ip, parseIP host = some ip ∧ a = ⟨[], ip.bytes, port, network⟩) ∨
        parseIP host = none ∧ host.length ≤ 255 ∧ a = ⟨host, [], port, network⟩) := by
  unfold addrSpecFrom at h
  obtain ⟨⟨host, portStr⟩, hsplit, h⟩ := bind_eq_ok.mp h
  obtain ⟨port, hatoi, h⟩ := bind_eq_ok.mp h
  obtain ⟨hrange, h⟩ := ensure_bind_eq_ok.mp h
  refine ⟨host, portStr, port, hsplit, hatoi, by omega, ?_⟩
  cases hparse : parseIP host with
  | some ip =>
    simp only [hparse] at h
    cases h
    exact Or.inl ⟨ip, rfl, rfl⟩
  | none =>
    simp only [hparse] at h
    obtain ⟨hshort, h⟩ := ensure_bind_eq_ok.mp h
    cases h
    exact Or.inr ⟨rfl, hshort, rfl⟩

theorem netAddrSpecFrom_udp {u : UDPAddr} {ip : IP} (hip : u.ip = some ip) (hzone : u.zone = [])
    (hport : u.port ≤ 65535) :
    netAddrSpecFrom (.udp u) = .ok ⟨[], ip.as16.bytes, u.port, ascii "udp"⟩ := by
  have hatoi : atoi (itoa u.port) = .ok (u.port : ℤ) := by
    rw [atoi_itoa, if_neg (by omega)]
  simp only [netAddrSpecFrom, addrSpecFrom, splitHostPort_string_of_ip hip hzone, ok_bind, hatoi,
    parseIP_string, ensure_true (c := 0 ≤ (u.port : ℤ) ∧ (u.port : ℤ) ≤ 65535) (by omega)]
  rfl

section texts

variable {conn : PacketConn} {p : Bytes} {len : ℕ} {via goal : NetAddr} {host network : Bytes}
  {port : ℤ} {goalHost : Host} (hp : p.length ≤ 65535 - 262) (hlen : p.length ≤ len)
  (hrange : port % 65536 = port) (hgoal : goal.destination = some (goalHost, port))

include hp hlen hrange hgoal in
theorem arrives_text_ip {ip : IP}
    (hsent : conn.writeTo (packet ⟨[], ip.bytes, port, network⟩ p) via = .ok ()) :
    Arrives conn len ⟨[], ip.bytes, port, network⟩ p goal ↔
      ∃ x : IP, goalHost = .ip x ∧ x.to16 = ip.to16 := by
  rw [arrives_ip hsent hp hlen hgoal (mkIP_of_length ip.length_eq)]
  exact and_iff_left hrange

include hp hlen hrange hgoal in
theorem arrives_text_name (hshort : host.length ≤ 255)
    (hsent : conn.writeTo (packet ⟨host, [], port, network⟩ p) via = .ok ()) :
    Arrives conn len ⟨host, [], port, network⟩ p goal ↔ host ≠ [] ∧ goalHost = .name host := by
  have hip : mkIP [] = none := rfl
  by_cases hempty : host = []
  · exact iff_of_false (not_arrives_empty hsent hp hlen hip hempty) fun h => h.1 hempty
  · rw [arrives_name hsent hp hlen hgoal hip hempty hshort]
    exact ⟨fun h => ⟨hempty, h.1⟩, fun h => ⟨h.2, hrange⟩⟩

include hp hlen in
theorem arrives_udp_iff {u : UDPAddr} {a : NetAddrSpec} (hfrom : netAddrSpecFrom (.udp u) = .ok a)
    (hsent : conn.writeTo (packet a p) via = .ok ()) :
    Arrives conn len a p (.udp u) ↔ (NetAddr.udp u).Carried := by
  obtain ⟨host, portStr, port, hsplit, hatoi, hrange, hcases⟩ := addrSpecFrom_ok hfrom
  cases splitHostPort_string hsplit
  have hport : port = (u.port : ℤ) := by
    rw [atoi_itoa] at hatoi
    split_ifs at hatoi
    cases hatoi
    rfl
  subst hport
  unfold NetAddr.Carried
  by_cases hzone : u.zone = []
  · cases hip : u.ip with
    | some ip =>
      have hgoal : (NetAddr.udp u).destination = some (.ip ip, (u.port : ℤ)) := by
        simp [NetAddr.destination, hip]
      have hhost : parseIP u.hostText = some ip.as16 := by
        rw [← parseIP_string ip]
        simp [UDPAddr.hostText, hip, hzone]
      rcases hcases with ⟨ip', hparse, rfl⟩ | ⟨hparse, -, -⟩
      · rw [hhost] at hparse
        cases hparse
        rw [arrives_text_ip hp hlen hrange hgoal hsent]
        exact iff_of_true ⟨ip, rfl, (to16_as16 ip).symm⟩ ⟨by simp [hip], hzone⟩
      · rw [hhost] at hparse
        cases hparse
    | none =>
      have hhost : u.hostText = [] := by simp [UDPAddr.hostText, hip, hzone]
      rcases hcases with ⟨ip', hparse, rfl⟩ | ⟨-, -, rfl⟩
      · rw [hhost] at hparse
        cases hparse
      · exact iff_of_false (not_arrives_empty hsent hp hlen rfl hhost) (by simp [hip])
  · have hpercent : 37 ∈ u.hostText := by simp [UDPAddr.hostText, hzone]
    have hnone := parseIP_of_percent hpercent
    rcases hcases with ⟨ip', hparse, rfl⟩ | ⟨-, hshort, rfl⟩
    · rw [hnone] at hparse
      cases hparse
    · refine iff_of_false ?_ fun h => hzone h.2
      cases hip : u.ip with
      | some ip =>
        have hgoal : (NetAddr.udp u).destination = some (.ip ip, (u.port : ℤ)) := by
          simp [NetAddr.destination, hip]
        rw [arrives_text_name hp hlen hrange hgoal hshort hsent]
        simp
      | none =>
        have hgoal : (NetAddr.udp u).destination = some (.name [], (u.port : ℤ)) := by
          simp [NetAddr.destination, hip]
        rw [arrives_text_name hp hlen hrange hgoal hshort hsent]
        rintro ⟨hne, hname⟩
        exact hne (Host.name.inj hname).symm

include hp hlen in
theorem arrives_other_iff {string : Bytes} {a : NetAddrSpec}
    (hfrom : netAddrSpecFrom (.other string network) = .ok a)
    (hsent : conn.writeTo (packet a p) via = .ok ()) :
    Arrives conn len a p (.other string network) ↔ (NetAddr.other string network).Carried := by
  obtain ⟨host, portStr, port, hsplit, hatoi, hrange, hcases⟩ := addrSpecFrom_ok hfrom
  have hcarried : (NetAddr.other string network).Carried ↔
      host ≠ [] ∧ ∀ b, parseAddr host = some b → b.zone = [] := by
    unfold NetAddr.Carried
    constructor
    · intro h
      exact h host portStr hsplit
    · intro h host' portStr' hsplit'
      rw [hsplit] at hsplit'
      cases hsplit'
      exact h
  rw [hcarried]
  cases hparse : parseAddr host with
  | none =>
    have hgoal : (NetAddr.other string network).destination = some (.name host, port) := by
      simp [NetAddr.destination, hsplit, hatoi, hparse]
    have hnone : parseIP host = none := by simp [parseIP, hparse]
    rcases hcases with ⟨ip', hsome, rfl⟩ | ⟨-, hshort, rfl⟩
    · rw [hnone] at hsome
      cases hsome
    · rw [arrives_text_name hp hlen hrange hgoal hshort hsent]
      simp
  | some b =>
    have hgoal : (NetAddr.other string network).destination = some (.ip b.ip, port) := by
      simp [NetAddr.destination, hsplit, hatoi, hparse]
    rcases hcases with ⟨ip', hsome, rfl⟩ | ⟨hnone, hshort, rfl⟩
    · have hzone : b.zone = [] := by
        by_contra hzone
        simp [parseIP, hparse, hzone] at hsome
      obtain rfl : b.ip.as16 = ip' := by simpa [parseIP, hparse, hzone] using hsome
      rw [arrives_text_ip hp hlen hrange hgoal hsent]
      refine iff_of_true ⟨b.ip, rfl, (to16_as16 b.ip).symm⟩ ⟨?_, ?_⟩
      · rintro rfl
        cases hparse
      · rintro b' hb'
        cases hb'
        exact hzone
    · have hzone : b.zone ≠ [] := by
        intro hzone
        simp [parseIP, hparse, hzone] at hnone
      rw [arrives_text_name hp hlen hrange hgoal hshort hsent]
      refine iff_of_false (by simp) ?_
      rintro ⟨-, h⟩
      exact hzone (h b rfl)

end texts

/-- If `WriteTo` returns no error, `ReadFrom` at the other end returns the payload and the
destination if, and only if, a header can carry the address. -/
theorem round_trip_iff {conn : PacketConn} {p pkt : Bytes} {addr : NetAddr} {len n : ℕ}
    (hp : p.length ≤ 65535 - 262) (hlen : p.length ≤ len)
    (h : writeTo conn p addr = .ok (n, pkt)) :
    (∃ src, readFrom true conn len pkt = .ok (p, src) ∧ src.SameDestination addr) ↔
      addr.Carried := by
  obtain ⟨a, hfrom, h⟩ := bind_eq_ok.mp h
  obtain ⟨⟨⟩, hsent, h⟩ := bind_eq_ok.mp h
  cases h
  cases addr with
  | spec a' =>
    cases hfrom
    exact arrives_spec_iff hsent hp hlen
  | udp u => exact arrives_udp_iff hp hlen hfrom hsent
  | other string network => exact arrives_other_iff hp hlen hfrom hsent

def tunnelConn : PacketConn where
  writeTo pkt _ := (PacketOverStreamTunnel.write pkt).map fun _ => ()
  readFrom n pkt :=
    ((PacketOverStreamTunnel.read n).run [.bytes (PacketOverStreamTunnel.frame pkt)]).1.mapError
      TunnelError.text
  delivers n pkt _ _ hsize hn := by
    have hsymbols : PieceStream.symbols [.bytes (PacketOverStreamTunnel.frame pkt)] =
        (PacketOverStreamTunnel.frame pkt).map some ++ [] := by
      simp [PieceStream.symbols, PieceStream.Piece.symbols]
    obtain ⟨rest, -, hread⟩ := PacketOverStreamTunnel.read_frame hsize hn hsymbols
    rw [hread]
    rfl

/-- An empty payload to an IPv6 address, through the tunnel. -/
theorem ipv6_round_trip :
    ∃ pkt, writeTo tunnelConn [] (.udp ⟨some ipv6loopback, 53, []⟩) = .ok (0, pkt) ∧
      ∃ src, readFrom true tunnelConn 0 pkt = .ok ([], src) ∧
        src.SameDestination (.udp ⟨some ipv6loopback, 53, []⟩) :=
  ⟨_, rfl, (round_trip_iff (by decide) (by decide) rfl).mpr ⟨rfl, rfl⟩⟩

/-- `net.UDPAddr` without an IP address, as in ":53". The packet goes out without an address, and
the other end takes one from the payload. -/
theorem missing_host_misread :
    ∃ pkt, writeTo tunnelConn [1, 8, 8, 8, 8, 0, 80, 65] (.udp ⟨none, 53, []⟩) = .ok (8, pkt) ∧
      readFrom true tunnelConn 8 pkt =
        .ok ([65], .udp ⟨some ⟨[8, 8, 8, 8], Or.inl rfl⟩, 80, []⟩) ∧
      ¬ ∃ src, readFrom true tunnelConn 8 pkt = .ok ([1, 8, 8, 8, 8, 0, 80, 65], src) ∧
        src.SameDestination (.udp ⟨none, 53, []⟩) := by
  refine ⟨_, rfl, rfl, ?_⟩
  rintro ⟨src, hread, -⟩
  cases hread

end UDPAssociateWrapper

end Mieru.Common
