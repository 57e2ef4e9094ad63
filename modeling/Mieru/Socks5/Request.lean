import Mieru.Lib.ByteReader
import Mieru.Socks5.Net

/-! # Socks5 requests

Reading an address and a request from a byte stream. A request keeps the bytes
it was read from, and reading those bytes again gives the same request. -/
namespace Mieru.Socks5

open Net ByteReader Result

def socks5Version : UInt8 := 5
def socks5ConnectCmd : UInt8 := 1
def socks5BindCmd : UInt8 := 2
def socks5UDPAssociateCmd : UInt8 := 3

def socks5IPv4Address : UInt8 := 1
def socks5FQDNAddress : UInt8 := 3
def socks5IPv6Address : UInt8 := 4

def errUnrecognizedAddrType : ReadError := .failed "unrecognized address type"

/-- `ip = none` is the nil IP of Go, and the empty name is no name. -/
structure AddrSpec where
  fqdn : Bytes
  ip : Option IP
  port : ℕ
  deriving DecidableEq

/-- What `AddrSpec.String` hands to a dialer; an IP address wins over a name. -/
inductive Host where
  | ip (a : IP)
  | name (n : Bytes)
  deriving DecidableEq

def AddrSpec.host (a : AddrSpec) : Host :=
  match a.ip with
  | some ip => .ip ip
  | none => .name a.fqdn

def readPort : Reader ℕ := do
  let port ← readFull 2
  return (port.getD 0 0).toNat * 256 + (port.getD 1 0).toNat

def readIP (n : ℕ) : Reader (Option IP) := do
  let addr ← readFull n
  return mkIP addr

/-- `AddrSpec.ReadFromSocks5` on a zero `AddrSpec`. -/
def readAddrSpec : Reader AddrSpec := do
  let addrType ← readByte
  if addrType = socks5IPv4Address then
    let ip ← readIP 4
    let port ← readPort
    return ⟨[], ip, port⟩
  else if addrType = socks5IPv6Address then
    let ip ← readIP 16
    let port ← readPort
    return ⟨[], ip, port⟩
  else if addrType = socks5FQDNAddress then
    let addrLen ← readByte
    let fqdn ← readFull addrLen.toNat
    let port ← readPort
    return ⟨fqdn, none, port⟩
  else fail errUnrecognizedAddrType

structure Request where
  command : UInt8
  dstAddr : AddrSpec
  raw : Bytes
  deriving DecidableEq

def readHeaderAndAddr : Reader (UInt8 × AddrSpec) := do
  let header ← readFull 3
  let version := header.getD 0 0
  if version ≠ socks5Version then fail (.failed s!"invalid version: {version}")
  else
    let dstAddr ← readAddrSpec
    return (header.getD 1 0, dstAddr)

/-- `Request.ReadFromSocks5`: the bytes seen by the `TeeReader` become `raw`. -/
def readRequest : Reader Request := fun bs => do
  let r ← readHeaderAndAddr bs
  return (⟨r.1.1, r.1.2, consumed bs r.2⟩, r.2)

theorem consumes_readPort : Consumes readPort :=
  consumes_bind (consumes_readFull 2) fun _ => consumes_pure _

theorem consumes_readIP (n : ℕ) : Consumes (readIP n) :=
  consumes_bind (consumes_readFull n) fun _ => consumes_pure _

theorem consumes_readAddrSpec : Consumes readAddrSpec := by
  have hport : ∀ f : ℕ → AddrSpec, Consumes (do let port ← readPort; return f port) :=
    fun f => consumes_bind consumes_readPort fun _ => consumes_pure _
  refine consumes_bind consumes_readByte fun addrType => ?_
  refine consumes_ite ?_ (consumes_ite ?_ (consumes_ite ?_ (consumes_fail _)))
  · exact consumes_bind (consumes_readIP 4) fun _ => hport _
  · exact consumes_bind (consumes_readIP 16) fun _ => hport _
  · exact consumes_bind consumes_readByte fun _ =>
      consumes_bind (consumes_readFull _) fun _ => hport _

theorem consumes_readHeaderAndAddr : Consumes readHeaderAndAddr := by
  refine consumes_bind (consumes_readFull 3) fun header => ?_
  refine consumes_ite (consumes_fail _) ?_
  exact consumes_bind consumes_readAddrSpec fun _ => consumes_pure _

theorem readRequest_raw {bs rest : Bytes} {req : Request} (h : readRequest bs = .ok (req, rest)) :
    readRequest req.raw = .ok (req, []) := by
  obtain ⟨⟨⟨command, dst⟩, rest'⟩, hread, h⟩ := bind_eq_ok.mp h
  cases h
  obtain ⟨raw, rfl, hraw⟩ := consumes_readHeaderAndAddr bs _ _ hread
  have hagain := hraw []
  rw [List.append_nil] at hagain
  simp only [consumed_append, readRequest, hagain, ok_bind]
  simp [consumed, pure, Except.pure]

theorem length_of_readFull {n : ℕ} {bs a rest : Bytes} (h : readFull n bs = .ok (a, rest)) :
    bs = a ++ rest ∧ a.length = n := by
  unfold readFull at h
  split_ifs at h with hn
  cases h
  exact ⟨(List.take_append_drop n bs).symm, by simp [hn]⟩

theorem readAddrSpec_shape {bs rest : Bytes} {a : AddrSpec} (h : readAddrSpec bs = .ok (a, rest)) :
    (a.fqdn = [] ∨ a.ip = none) ∧ a.fqdn.length ≤ 255 := by
  obtain ⟨⟨addrType, bs1⟩, -, h⟩ := bind_eq_ok.mp h
  simp only at h
  split_ifs at h
  · obtain ⟨⟨ip, bs2⟩, -, h⟩ := bind_eq_ok.mp h
    obtain ⟨⟨port, bs3⟩, -, h⟩ := bind_eq_ok.mp h
    cases h
    exact ⟨Or.inl rfl, Nat.zero_le _⟩
  · obtain ⟨⟨ip, bs2⟩, -, h⟩ := bind_eq_ok.mp h
    obtain ⟨⟨port, bs3⟩, -, h⟩ := bind_eq_ok.mp h
    cases h
    exact ⟨Or.inl rfl, Nat.zero_le _⟩
  · obtain ⟨⟨len, bs2⟩, -, h⟩ := bind_eq_ok.mp h
    obtain ⟨⟨fqdn, bs3⟩, hfqdn, h⟩ := bind_eq_ok.mp h
    obtain ⟨⟨port, bs4⟩, -, h⟩ := bind_eq_ok.mp h
    cases h
    refine ⟨Or.inr rfl, ?_⟩
    rw [(length_of_readFull hfqdn).2]
    exact Nat.le_of_lt_succ len.toNat_lt
  · cases h

theorem readRequest_shape {bs rest : Bytes} {req : Request} (h : readRequest bs = .ok (req, rest)) :
    req.dstAddr.fqdn = [] ∨ req.dstAddr.ip = none := by
  obtain ⟨⟨⟨command, dst⟩, rest'⟩, hread, h⟩ := bind_eq_ok.mp h
  cases h
  obtain ⟨⟨header, bs1⟩, -, hread⟩ := bind_eq_ok.mp hread
  simp only at hread
  split_ifs at hread
  · cases hread
  · obtain ⟨⟨addr, bs2⟩, haddr, hread⟩ := bind_eq_ok.mp hread
    cases hread
    exact (readAddrSpec_shape haddr).1

theorem readRequest_head {bs rest : Bytes} {req : Request} (h : readRequest bs = .ok (req, rest)) :
    4 ≤ bs.length ∧ bs.headD 0 = socks5Version := by
  obtain ⟨⟨⟨command, dst⟩, rest'⟩, hread, -⟩ := bind_eq_ok.mp h
  obtain ⟨⟨header, bs1⟩, hheader, hbody⟩ := bind_eq_ok.mp hread
  obtain ⟨rfl, hlen⟩ := length_of_readFull hheader
  simp only at hbody
  split_ifs at hbody with hversion
  · cases hbody
  obtain ⟨⟨addr, bs2⟩, haddr, -⟩ := bind_eq_ok.mp hbody
  obtain ⟨⟨addrType, bs3⟩, htype, -⟩ := bind_eq_ok.mp haddr
  obtain ⟨⟨one, bs4⟩, hone, -⟩ := bind_eq_ok.mp htype
  obtain ⟨rfl, hone⟩ := length_of_readFull hone
  constructor
  · simp only [List.length_append]
    omega
  · cases header with
    | nil => simp at hlen
    | cons version tail => exact not_not.mp hversion

end Mieru.Socks5
