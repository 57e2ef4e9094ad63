import Mieru.Common.UDPAssociateWrapper
import Mieru.Socks5.UDPAssociate

/-! # Socks5 UDP datagrams there and back

`newSocks5UDPDatagram` writes an address and a payload, `parseSocks5UDPDatagram` reads them.
Three layouts of an address are told apart by its first byte. -/
namespace Mieru.Socks5

open Net ByteReader Result
open Common.UDPAssociateWrapper (addrSpecFrom_ok)
open Common (NetAddrSpec addrSpecFrom readAddrSpec_ipv4 readAddrSpec_ipv6 readAddrSpec_name
  mkIP_of_length)

def newSocks5UDPDatagram (addr : NetAddrSpec) (payload : Bytes) : Except String Bytes := do
  let header ← addr.writeToSocks5
  return [0, 0, 0] ++ header ++ payload

def AddrSpec.toNetAddrSpec (a : AddrSpec) : NetAddrSpec :=
  ⟨a.fqdn, (a.ip.map IP.bytes).getD [], a.port, []⟩

def AddrSpec.SameAddr (a : AddrSpec) (b : NetAddrSpec) : Prop :=
  a.fqdn = b.fqdn ∧ (a.port : ℤ) = b.port ∧
    match a.ip, mkIP b.ip with
    | some x, some y => x.equal y = true
    | none, none => True
    | _, _ => False

def isIPv4Mapped (ip : IP) : Bool := ip.bytes.length = 16 ∧ ip.bytes.take 12 = v4InV6Header

/-! ## What was read -/

/-- The three layouts of an address in front of other bytes. -/
inductive Layout (rest : Bytes) : Bytes → AddrSpec → Prop
  | ipv4 {ip4 : Bytes} {port : ℕ} (hlen : ip4.length = 4) (hport : port < 65536) :
      Layout rest (socks5IPv4Address :: (ip4 ++ BigEndian.encode 2 port) ++ rest)
        ⟨[], mkIP ip4, port⟩
  | ipv6 {ip16 : Bytes} {port : ℕ} (hlen : ip16.length = 16) (hport : port < 65536) :
      Layout rest (socks5IPv6Address :: (ip16 ++ BigEndian.encode 2 port) ++ rest)
        ⟨[], mkIP ip16, port⟩
  | name {name : Bytes} {port : ℕ} (hlen : name.length ≤ 255) (hport : port < 65536) :
      Layout rest (socks5FQDNAddress :: UInt8.ofNat name.length ::
        (name ++ BigEndian.encode 2 port) ++ rest) ⟨name, none, port⟩

theorem encode_of_readPort {bs rest : Bytes} {port : ℕ} (h : readPort bs = .ok (port, rest)) :
    port < 65536 ∧ bs = BigEndian.encode 2 port ++ rest := by
  obtain ⟨⟨got, bs1⟩, hgot, h⟩ := bind_eq_ok.mp h
  cases h
  obtain ⟨rfl, hlen⟩ := length_of_readFull hgot
  obtain ⟨x, y, rfl⟩ := List.length_eq_two.mp hlen
  have hx := x.toNat_lt
  have hy := y.toNat_lt
  have hdecode : BigEndian.decode [x, y] = x.toNat * 256 + y.toNat := by
    simp [BigEndian.decode]
  refine ⟨by simp; omega, ?_⟩
  have hcode := BigEndian.encode_decode [x, y]
  rw [hdecode] at hcode
  exact congrArg (· ++ bs1) hcode.symm

theorem readByte_eq_ok {bs rest : Bytes} {b : UInt8} (h : readByte bs = .ok (b, rest)) :
    bs = b :: rest := by
  obtain ⟨⟨got, bs1⟩, hgot, h⟩ := bind_eq_ok.mp h
  cases h
  obtain ⟨rfl, hlen⟩ := length_of_readFull hgot
  obtain ⟨x, rfl⟩ := List.length_eq_one_iff.mp hlen
  rfl

theorem layout_of_readAddrSpec {bs rest : Bytes} {a : AddrSpec}
    (h : readAddrSpec bs = .ok (a, rest)) : Layout rest bs a := by
  obtain ⟨⟨addrType, bs1⟩, htype, h⟩ := bind_eq_ok.mp h
  rw [readByte_eq_ok htype]
  simp only at h
  split_ifs at h with h4 h6 hname
  · obtain ⟨⟨ip, bs2⟩, hip, h⟩ := bind_eq_ok.mp h
    obtain ⟨⟨port, bs3⟩, hport, h⟩ := bind_eq_ok.mp h
    cases h
    obtain ⟨⟨ip4, bs4⟩, hfull, hip⟩ := bind_eq_ok.mp hip
    cases hip
    obtain ⟨rfl, hlen⟩ := length_of_readFull hfull
    obtain ⟨hlt, hbytes⟩ := encode_of_readPort hport
    dsimp only at hbytes
    rw [h4, hbytes, ← List.append_assoc]
    exact .ipv4 hlen hlt
  · obtain ⟨⟨ip, bs2⟩, hip, h⟩ := bind_eq_ok.mp h
    obtain ⟨⟨port, bs3⟩, hport, h⟩ := bind_eq_ok.mp h
    cases h
    obtain ⟨⟨ip16, bs4⟩, hfull, hip⟩ := bind_eq_ok.mp hip
    cases hip
    obtain ⟨rfl, hlen⟩ := length_of_readFull hfull
    obtain ⟨hlt, hbytes⟩ := encode_of_readPort hport
    dsimp only at hbytes
    rw [h6, hbytes, ← List.append_assoc]
    exact .ipv6 hlen hlt
  · obtain ⟨⟨addrLen, bs2⟩, hlength, h⟩ := bind_eq_ok.mp h
    rw [readByte_eq_ok hlength]
    obtain ⟨⟨fqdn, bs3⟩, hfull, h⟩ := bind_eq_ok.mp h
    obtain ⟨⟨port, bs4⟩, hport, h⟩ := bind_eq_ok.mp h
    cases h
    obtain ⟨rfl, hlen⟩ := length_of_readFull hfull
    obtain ⟨hlt, hbytes⟩ := encode_of_readPort hport
    have hmax := addrLen.toNat_lt
    have hbyte : addrLen = UInt8.ofNat fqdn.length := by
      rw [hlen, UInt8.ofNat_toNat]
    have hshort : fqdn.length ≤ 255 := by
      rw [hlen]
      exact Nat.le_of_lt_succ hmax
    dsimp only at hbytes
    rw [hname, hbytes, ← List.append_assoc, hbyte]
    exact .name hshort hlt
  · cases h

theorem encode_port {port : ℕ} (h : port < 65536) :
    BigEndian.encode 2 ((port : ℤ) % 65536).toNat = BigEndian.encode 2 port := by
  have hport : ((port : ℤ) % 65536).toNat = port := by omega
  rw [hport]

theorem to4_of_length {ip : IP} (h : ip.bytes.length = 4) : ip.to4 = some ip.bytes := if_pos h

theorem to4_eq_none {ip : IP} (h : ip.bytes.length = 16) (hmapped : isIPv4Mapped ip = false) :
    ip.to4 = none := by
  have hnot : ¬ip.bytes.take 12 = v4InV6Header := by
    simpa [isIPv4Mapped, h] using hmapped
  rw [IP.to4, if_neg (by omega), if_neg hnot]

theorem writeToSocks5_of_layout {bs rest : Bytes} {a : AddrSpec} (h : Layout rest bs a)
    (hmapped : ∀ ip, a.ip = some ip → isIPv4Mapped ip = false)
    (hname : a.ip = none → a.fqdn ≠ []) :
    ∃ header, a.toNetAddrSpec.writeToSocks5 = .ok header ∧ bs = header ++ rest := by
  cases h with
  | @ipv4 ip4 port hlen hport =>
    refine ⟨_, ?_, rfl⟩
    have hip : mkIP ip4 = some ⟨ip4, .inl hlen⟩ := mkIP_of_length (.inl hlen)
    have hto4 : (⟨ip4, .inl hlen⟩ : IP).to4 = some ip4 := to4_of_length hlen
    simp [NetAddrSpec.writeToSocks5, AddrSpec.toNetAddrSpec, hip, hto4, encode_port hport]
  | @ipv6 ip16 port hlen hport =>
    refine ⟨_, ?_, rfl⟩
    have hip : mkIP ip16 = some ⟨ip16, .inr hlen⟩ := mkIP_of_length (.inr hlen)
    have hto4 : (⟨ip16, .inr hlen⟩ : IP).to4 = none := to4_eq_none hlen (hmapped _ hip)
    have hto16 : (⟨ip16, .inr hlen⟩ : IP).to16 = ip16 := to16_long hlen
    simp [NetAddrSpec.writeToSocks5, AddrSpec.toNetAddrSpec, hip, hto4, hto16, encode_port hport]
  | @name name port hlen hport =>
    refine ⟨_, ?_, rfl⟩
    have hip : mkIP [] = none := rfl
    have hne : name ≠ [] := hname rfl
    simp [NetAddrSpec.writeToSocks5, AddrSpec.toNetAddrSpec, hip, hne, encode_port hport]

theorem parse_eq_ok_iff {pkt : Bytes} {d : Socks5UDPDatagram} :
    parseSocks5UDPDatagram pkt = .ok d ↔
      6 < pkt.length ∧ (pkt.getD 0 0 = 0 ∧ pkt.getD 1 0 = 0) ∧ pkt.getD 2 0 = 0 ∧
        readAddrSpec (pkt.drop 3) = .ok (d.addr, d.payload) ∧
        d.header = consumed pkt d.payload := by
  unfold parseSocks5UDPDatagram
  split_ifs with hlen hzero hfrag
  · exact iff_of_false (fun h => by cases h) (fun h => by omega)
  · exact iff_of_false (fun h => by cases h) (fun h => by tauto)
  · exact iff_of_false (fun h => by cases h) (fun h => hfrag h.2.2.1)
  · cases hread : readAddrSpec (pkt.drop 3) with
    | error e => cases e <;> simp
    | ok r =>
      obtain ⟨dst, payload⟩ := r
      obtain ⟨addr, header, payload'⟩ := d
      simp only [Except.ok.injEq, Socks5UDPDatagram.mk.injEq, Prod.mk.injEq]
      constructor
      · rintro ⟨rfl, rfl, rfl⟩
        exact ⟨by omega, by tauto, not_not.mp hfrag, ⟨rfl, rfl⟩, rfl⟩
      · rintro ⟨-, -, -, ⟨rfl, rfl⟩, rfl⟩
        exact ⟨rfl, rfl, rfl⟩

theorem eq_zeros_append {pkt : Bytes} (hlen : 6 < pkt.length)
    (hzero : pkt.getD 0 0 = 0 ∧ pkt.getD 1 0 = 0) (hfrag : pkt.getD 2 0 = 0) :
    pkt = [0, 0, 0] ++ pkt.drop 3 := by
  match pkt, hlen with
  | x :: y :: z :: tail, _ =>
    simp only [List.getD_cons_zero, List.getD_cons_succ] at hzero hfrag
    rw [hzero.1, hzero.2, hfrag]
    rfl

theorem newSocks5UDPDatagram_of_parse {pkt : Bytes} {d : Socks5UDPDatagram}
    (h : parseSocks5UDPDatagram pkt = .ok d)
    (hmapped : ∀ ip, d.addr.ip = some ip → isIPv4Mapped ip = false)
    (hname : d.addr.ip = none → d.addr.fqdn ≠ []) :
    newSocks5UDPDatagram d.addr.toNetAddrSpec d.payload = .ok pkt := by
  obtain ⟨hlen, hzero, hfrag, hread, -⟩ := parse_eq_ok_iff.mp h
  obtain ⟨header, hwrite, hbytes⟩ :=
    writeToSocks5_of_layout (layout_of_readAddrSpec hread) hmapped hname
  rw [newSocks5UDPDatagram, hwrite, ok_bind, eq_zeros_append hlen hzero hfrag, hbytes,
    List.append_assoc]
  rfl

theorem header_append_payload {pkt : Bytes} {d : Socks5UDPDatagram}
    (h : parseSocks5UDPDatagram pkt = .ok d) : d.header ++ d.payload = pkt := by
  obtain ⟨hlen, hzero, hfrag, hread, hheader⟩ := parse_eq_ok_iff.mp h
  obtain ⟨raw, hraw, -⟩ := consumes_readAddrSpec _ _ _ hread
  have hpkt : pkt = ([0, 0, 0] ++ raw) ++ d.payload := by
    rw [List.append_assoc, ← hraw]
    exact eq_zeros_append hlen hzero hfrag
  rw [hheader]
  conv_lhs => rw [hpkt]
  rw [consumed_append]
  exact hpkt.symm

/-! ## What was written -/

/-- The addresses of `From` with a host. -/
structure Addressed (a : NetAddrSpec) : Prop where
  port : 0 ≤ a.port ∧ a.port ≤ 65535
  host : (∃ ip, mkIP a.ip = some ip ∧ a.fqdn = []) ∨
    (mkIP a.ip = none ∧ a.fqdn ≠ [] ∧ a.fqdn.length ≤ 255)

theorem addressed_of_from {addr network host portStr : Bytes} {a : NetAddrSpec}
    (hsplit : splitHostPort addr = .ok (host, portStr)) (hhost : host ≠ [])
    (h : addrSpecFrom addr network = .ok a) : Addressed a := by
  obtain ⟨host', portStr', port, hsplit', -, hport, hcases⟩ := addrSpecFrom_ok h
  cases hsplit.symm.trans hsplit'
  rcases hcases with ⟨ip, -, rfl⟩ | ⟨-, hlen, rfl⟩
  · refine ⟨?_, .inl ⟨ip, mkIP_of_length ip.length_eq, rfl⟩⟩
    dsimp only
    omega
  · refine ⟨?_, .inr ⟨rfl, hhost, hlen⟩⟩
    dsimp only
    omega

theorem readAddrSpec_of_write {a : NetAddrSpec} (h : Addressed a) :
    ∃ header dst, a.writeToSocks5 = .ok header ∧ 4 ≤ header.length ∧ dst.SameAddr a ∧
      ∀ p, readAddrSpec (header ++ p) = .ok (dst, p) := by
  obtain ⟨hport, hhost⟩ := h
  have hv : (a.port % 65536).toNat % 65536 = (a.port % 65536).toNat := by omega
  have hcast : (((a.port % 65536).toNat : ℕ) : ℤ) = a.port := by omega
  rcases hhost with ⟨ip, hip, hfqdn⟩ | ⟨hip, hfqdn, hlen⟩
  · cases hto4 : ip.to4 with
    | some ip4 =>
      obtain ⟨h4, h16⟩ := to16_of_to4 hto4
      refine ⟨socks5IPv4Address :: (ip4 ++ BigEndian.encode 2 (a.port % 65536).toNat),
        ⟨[], mkIP ip4, (a.port % 65536).toNat⟩, ?_, by simp [h4], ⟨hfqdn.symm, hcast, ?_⟩, ?_⟩
      · simp [NetAddrSpec.writeToSocks5, hip, hto4]
      · simp only [hip, mkIP_of_length (.inl h4)]
        exact equal_iff.mpr ((to16_short h4).trans h16.symm)
      · intro p
        rw [readAddrSpec_ipv4 h4, hv]
    | none =>
      have h16 := length_to16 ip
      refine ⟨socks5IPv6Address :: (ip.to16 ++ BigEndian.encode 2 (a.port % 65536).toNat),
        ⟨[], mkIP ip.to16, (a.port % 65536).toNat⟩, ?_, by simp [h16], ⟨hfqdn.symm, hcast, ?_⟩, ?_⟩
      · simp [NetAddrSpec.writeToSocks5, hip, hto4]
      · simp only [hip, mkIP_of_length (.inr h16)]
        exact equal_iff.mpr (to16_as16 ip)
      · intro p
        rw [readAddrSpec_ipv6 h16, hv]
  · refine ⟨socks5FQDNAddress :: UInt8.ofNat a.fqdn.length ::
      (a.fqdn ++ BigEndian.encode 2 (a.port % 65536).toNat),
      ⟨a.fqdn, none, (a.port % 65536).toNat⟩, ?_, by simp, ⟨rfl, hcast, by simp [hip]⟩, ?_⟩
    · simp [NetAddrSpec.writeToSocks5, hip, hfqdn]
    · intro p
      rw [readAddrSpec_name hlen, hv]

theorem parse_of_newSocks5UDPDatagram {a : NetAddrSpec} (h : Addressed a) (p : Bytes) :
    ∃ pkt d, newSocks5UDPDatagram a p = .ok pkt ∧ parseSocks5UDPDatagram pkt = .ok d ∧
      d.addr.SameAddr a ∧ d.payload = p := by
  obtain ⟨header, dst, hwrite, hlen, hsame, hread⟩ := readAddrSpec_of_write h
  refine ⟨[0, 0, 0] ++ header ++ p, ⟨dst, consumed ([0, 0, 0] ++ header ++ p) p, p⟩, ?_, ?_,
    hsame, rfl⟩
  · rw [newSocks5UDPDatagram, hwrite]
    rfl
  · refine parse_eq_ok_iff.mpr ⟨?_, ⟨rfl, rfl⟩, rfl, hread p, rfl⟩
    simp only [List.length_append, List.length_cons, List.length_nil]
    omega

/-- What is written is read, and what is read is written again. -/
theorem datagram_codec_sound :
    (∀ (addr network host portStr : Bytes) (a : NetAddrSpec) (p : Bytes),
      splitHostPort addr = .ok (host, portStr) → host ≠ [] → addrSpecFrom addr network = .ok a →
      ∃ pkt d, newSocks5UDPDatagram a p = .ok pkt ∧ parseSocks5UDPDatagram pkt = .ok d ∧
        d.addr.SameAddr a ∧ d.payload = p) ∧
    (∀ (pkt : Bytes) (d : Socks5UDPDatagram), parseSocks5UDPDatagram pkt = .ok d →
      d.header ++ d.payload = pkt ∧
      ((∀ ip, d.addr.ip = some ip → isIPv4Mapped ip = false) →
        (d.addr.ip = none → d.addr.fqdn ≠ []) →
        newSocks5UDPDatagram d.addr.toNetAddrSpec d.payload = .ok pkt)) := by
  constructor
  · intro addr network host portStr a p hsplit hhost hfrom
    exact parse_of_newSocks5UDPDatagram (addressed_of_from hsplit hhost hfrom) p
  · intro pkt d hparse
    exact ⟨header_append_payload hparse, newSocks5UDPDatagram_of_parse hparse⟩

/-- A datagram for port 53 of the host `a.b`, and the packet it is. -/
theorem name_datagram_round_trip :
    (∃ pkt d, newSocks5UDPDatagram ⟨[97, 46, 98], [], 53, []⟩ [7] = .ok pkt ∧
      parseSocks5UDPDatagram pkt = .ok d ∧ d.addr.SameAddr ⟨[97, 46, 98], [], 53, []⟩ ∧
      d.payload = [7]) ∧
    newSocks5UDPDatagram ⟨[97, 46, 98], [], 53, []⟩ [7] =
      .ok [0, 0, 0, 3, 3, 97, 46, 98, 0, 53, 7] := by
  constructor
  · exact datagram_codec_sound.1 [97, 46, 98, 58, 53, 51] [] [97, 46, 98] [53, 51] _ [7] rfl
      (by decide) rfl
  · exact (datagram_codec_sound.2 [0, 0, 0, 3, 3, 97, 46, 98, 0, 53, 7]
      ⟨⟨[97, 46, 98], none, 53⟩, [0, 0, 0, 3, 3, 97, 46, 98, 0, 53], [7]⟩ rfl).2
      (fun ip hip => by cases hip) (fun _ => by decide)

end Mieru.Socks5
