import Mieru.Socks5.DatagramCodec

/-! # The two directions of a UDP association

`RunUDPAssociateLoop` at the granularity at which its two goroutines can meet: every access to
`addrMap` and to `udpErr` is a step of its own. What the client's packets and names resolve to,
what arrives from the network and whether the stream takes a frame is up to the environment. -/
namespace Mieru.Socks5

open Net ByteReader Result Machine
open Common (PacketOverStreamTunnel.write PacketOverStreamTunnel.write_ok_iff)
open Common.UDPAssociateWrapper (socks5MaxUDPHeaderLen)

namespace UDPRelay

abbrev AddrKey := Option Bytes × ℕ × Bytes

/-- The concrete type of an error: that of `errors.New`, that of a socket, or another. -/
inductive ErrorType where
  | errorString
  | opError
  | other (name : String)
  deriving DecidableEq

/-- From the client to the network. -/
inductive UpPc where
  | reading
  | storing (datagram : Socks5UDPDatagram) (dstAddr : UDPAddr)
  | sending (datagram : Socks5UDPDatagram) (dstAddr : UDPAddr)
  | failing (err : ErrorType)
  | closing
  | done

/-- From the network to the client. -/
inductive DownPc where
  | reading
  | loading (a : Arrival)
  | storing (a : Arrival)
  | writing (a : Arrival) (header : Bytes)
  | failing (err : ErrorType)
  | recording (err : ErrorType)
  | done

/-- The bytes in front of the payload in the buffer of the download. -/
abbrev Headroom := { room : Bytes // room.length = socks5MaxUDPHeaderLen }

def Headroom.put (room : Headroom) (header : Bytes) (h : header.length ≤ socks5MaxUDPHeaderLen) :
    Headroom :=
  ⟨room.1.take (socks5MaxUDPHeaderLen - header.length) ++ header, by
    rw [List.length_append, List.length_take, room.2]
    omega⟩

structure State where
  addrMap : List (AddrKey × Bytes)
  headroom : Headroom
  up : UpPc
  down : DownPc
  udpErr : Option ErrorType
  udpClosed : Bool

def State.initial : State :=
  ⟨[], ⟨List.replicate socks5MaxUDPHeaderLen 0, by simp⟩, .reading, .reading, none, false⟩

inductive Event where
  | read (pkt : Bytes) (answer : Bytes → Option (List IP))
  | readFails (err : ErrorType)
  | store
  | send
  | storeErr
  | close
  | receive (a : Arrival)
  | receiveFails
  | load
  | storeOwn
  | write (refusal : Option ErrorType)
  | loadErr
  | recordErr

inductive Output where
  | resolved (datagram : Socks5UDPDatagram) (dstAddr : UDPAddr)
  | arrived (a : Arrival)
  | handed (a : Arrival) (frame : Bytes) (result : Except String Bytes)
  | panicked

/-- A packet of the client is parsed and its address resolved, by the answer the resolver has
for this packet. -/
def State.read (cfg : Config) (s : State) (pkt : Bytes) : State × List Output :=
  match parseSocks5UDPDatagram pkt with
  | .error _ => ({ s with up := .failing .errorString }, [])
  | .ok datagram =>
    match resolveSocks5UDPAddr cfg datagram.addr with
    | none => (s, [])
    | some dstAddr => ({ s with up := .storing datagram dstAddr }, [.resolved datagram dstAddr])

/-- A panic stops both goroutines. -/
def State.panicked (s : State) : State × List Output :=
  ({ s with up := .done, down := .done }, [.panicked])

/-- `atomic.Value` panics when it is to store a second concrete type. -/
def State.record (s : State) (err : ErrorType) (after : State) : State × List Output :=
  if s.udpErr.all (· = err) then ({ after with udpErr := some err }, []) else s.panicked

/-- The error of `Write`, if there is one. -/
def refused (result : Except String Bytes) (refusal : Option ErrorType) : Option ErrorType :=
  if result.isOk then refusal else some .errorString

/-- The header goes right in front of the payload; one that does not fit is a panic. -/
def State.write (s : State) (a : Arrival) (header : Bytes) (refusal : Option ErrorType) :
    State × List Output :=
  if h : header.length ≤ socks5MaxUDPHeaderLen then
    let start := socks5MaxUDPHeaderLen - header.length
    let headroom := s.headroom.put header h
    let frame := (headroom.1 ++ a.pkt).drop start
    let result := PacketOverStreamTunnel.write frame
    ({ s with headroom := headroom, down := (refused result refusal).elim .reading .failing },
      [.handed a frame result])
  else s.panicked

def step (cfg : Config) (s : State) (e : Event) : Option (State × List Output) :=
  match e, s.up, s.down with
  | .read pkt answer, .reading, _ => some (s.read { cfg with resolver := answer } pkt)
  | .readFails err, .reading, _ => some ({ s with up := .failing err }, [])
  | .store, .storing datagram dstAddr, _ =>
    some ({ s with
      addrMap := (dstAddr.key, datagram.header) :: s.addrMap
      up := .sending datagram dstAddr }, [])
  | .send, .sending _ _, _ => some ({ s with up := .reading }, [])
  | .storeErr, .failing err, _ => some (s.record err { s with up := .closing })
  | .close, .closing, _ => some ({ s with up := .done, udpClosed := true }, [])
  | .receive a, _, .reading =>
    if s.udpClosed = false ∧ a.pkt.length ≤ 65536 then
      some ({ s with down := .loading a }, [.arrived a])
    else none
  | .receiveFails, _, .reading => some ({ s with down := .failing .opError }, [])
  | .load, _, .loading a =>
    match s.addrMap.lookup a.addr.key with
    | some header => some ({ s with down := .writing a header }, [])
    | none => some ({ s with down := .storing a }, [])
  | .storeOwn, _, .storing a =>
    let header := udpAddrToHeader a.ip a.port
    some ({ s with addrMap := (a.addr.key, header) :: s.addrMap, down := .writing a header }, [])
  | .write refusal, _, .writing a header => some (s.write a header refusal)
  | .loadErr, _, .failing err =>
    some ({ s with down := if s.udpErr = none then .recording err else .done }, [])
  | .recordErr, _, .recording err => some (s.record err { s with down := .done })
  | _, _, _ => none

/-- What a step does, one constructor a kind of step. -/
inductive Effect (cfg : Config) (s : State) : Event → State → List Output → Prop
  | read (hup : s.up = .reading) :
      Effect cfg s (.read pkt answer) (s.read { cfg with resolver := answer } pkt).1
        (s.read { cfg with resolver := answer } pkt).2
  | readFails (hup : s.up = .reading) :
      Effect cfg s (.readFails err) { s with up := .failing err } []
  | store (hup : s.up = .storing datagram dstAddr) :
      Effect cfg s .store { s with
        addrMap := (dstAddr.key, datagram.header) :: s.addrMap
        up := .sending datagram dstAddr } []
  | send (hup : s.up = .sending datagram dstAddr) :
      Effect cfg s .send { s with up := .reading } []
  | storeErr (hup : s.up = .failing err) :
      Effect cfg s .storeErr (s.record err { s with up := .closing }).1
        (s.record err { s with up := .closing }).2
  | close (hup : s.up = .closing) :
      Effect cfg s .close { s with up := .done, udpClosed := true } []
  | receive (hdown : s.down = .reading) :
      Effect cfg s (.receive a) { s with down := .loading a } [.arrived a]
  | receiveFails (hdown : s.down = .reading) :
      Effect cfg s .receiveFails { s with down := .failing .opError } []
  | found (hdown : s.down = .loading a) (hlookup : s.addrMap.lookup a.addr.key = some header) :
      Effect cfg s .load { s with down := .writing a header } []
  | missed (hdown : s.down = .loading a) : Effect cfg s .load { s with down := .storing a } []
  | storeOwn (hdown : s.down = .storing a) :
      Effect cfg s .storeOwn { s with
        addrMap := (a.addr.key, udpAddrToHeader a.ip a.port) :: s.addrMap
        down := .writing a (udpAddrToHeader a.ip a.port) } []
  | write (hdown : s.down = .writing a header) :
      Effect cfg s (.write refusal) (s.write a header refusal).1 (s.write a header refusal).2
  | loadErr (hdown : s.down = .failing err) :
      Effect cfg s .loadErr
        { s with down := if s.udpErr = none then .recording err else .done } []
  | recordErr (hdown : s.down = .recording err) :
      Effect cfg s .recordErr (s.record err { s with down := .done }).1
        (s.record err { s with down := .done }).2

theorem effect_of_step {cfg : Config} {s s' : State} {e : Event} {out : List Output}
    (h : step cfg s e = some (s', out)) : Effect cfg s e s' out := by
  cases e with
  | read | storeErr =>
    cases hup : s.up <;> simp only [step, hup] at h <;> try cases h
    obtain ⟨rfl, rfl⟩ := Prod.ext_iff.mp (Option.some.inj h)
    constructor
    exact hup
  | readFails | store | send | close =>
    cases hup : s.up <;> simp only [step, hup] at h <;> cases h
    constructor
    exact hup
  | receive a =>
    cases hdown : s.down <;> simp only [step, hdown] at h <;> try cases h
    split_ifs at h
    cases h
    exact .receive hdown
  | load =>
    cases hdown : s.down <;> simp only [step, hdown] at h <;> try cases h
    split at h <;> cases h
    · exact .found hdown ‹_›
    · exact .missed hdown
  | write | recordErr =>
    cases hdown : s.down <;> simp only [step, hdown] at h <;> try cases h
    obtain ⟨rfl, rfl⟩ := Prod.ext_iff.mp (Option.some.inj h)
    constructor
    exact hdown
  | receiveFails | storeOwn | loadErr =>
    cases hdown : s.down <;> simp only [step, hdown] at h <;> cases h
    constructor
    exact hdown

/-! ## Datagrams and frames -/

def DownPc.inHand : DownPc → List Arrival
  | loading a | storing a | writing a _ => [a]
  | reading | failing _ | recording _ | done => []

def UpPc.ended : UpPc → Bool
  | closing | done => true
  | _ => false

def DownPc.ended : DownPc → Bool
  | done => true
  | _ => false

def arrivals : List Output → List Arrival := List.filterMap fun
  | .arrived a => some a
  | _ => none

def handedFor : List Output → List Arrival := List.filterMap fun
  | .handed a _ _ => some a
  | _ => none

/-- The header is the client's for this address, or the address itself. -/
def HeaderFor (outs : List Output) (a : Arrival) (header : Bytes) : Prop :=
  header = udpAddrToHeader a.ip a.port ∨
    ∃ datagram dstAddr, .resolved datagram dstAddr ∈ outs ∧ datagram.header = header ∧
      dstAddr.key = a.addr.key

theorem HeaderFor.mono {outs : List Output} {a : Arrival} {header : Bytes}
    (h : HeaderFor outs a header) (out : List Output) : HeaderFor (outs ++ out) a header := by
  rcases h with hown | ⟨datagram, dstAddr, hmem, hheader, hkey⟩
  · exact .inl hown
  · exact .inr ⟨datagram, dstAddr, List.mem_append_left _ hmem, hheader, hkey⟩

theorem to4_eq_of_to16 (ip : IP) :
    ip.to4 = if ip.to16.take 12 = v4InV6Header then some (ip.to16.drop 12) else none := by
  have hfront : v4InV6Header.length = 12 := rfl
  rcases ip.length_eq with h | h
  · rw [to16_short h, List.take_left' hfront, if_pos rfl, List.drop_left' hfront, to4_of_length h]
  · rw [to16_long h, IP.to4, if_neg (by omega)]

theorem udpAddrToHeader_congr {ip ip' : IP} (h : ip.to16 = ip'.to16) (port : ℕ) :
    udpAddrToHeader ip port = udpAddrToHeader ip' port := by
  have h4 : ip.to4 = ip'.to4 := by
    rw [to4_eq_of_to16, to4_eq_of_to16, h]
  have hlong : ∀ x : IP, x.to4 = none → x.to16 = x.bytes := by
    intro x hx
    refine to16_long (x.length_eq.resolve_left fun hshort => ?_)
    rw [to4_of_length hshort] at hx
    cases hx
  unfold udpAddrToHeader
  cases hip : ip.to4 with
  | some ip4 => rw [← h4, hip]
  | none =>
    rw [← h4, hip]
    simp only
    rw [← hlong ip hip, h, hlong ip' (h4.symm.trans hip)]

theorem length_udpAddrToHeader (ip : IP) (port : ℕ) :
    (udpAddrToHeader ip port).length ≤ socks5MaxUDPHeaderLen := by
  have hbytes : ip.bytes.length ≤ 16 := by
    rcases ip.length_eq with h | h <;> omega
  unfold udpAddrToHeader
  cases hip : ip.to4 with
  | some ip4 =>
    have h4 := (to16_of_to4 hip).1
    simp [socks5MaxUDPHeaderLen, h4]
  | none =>
    simp [socks5MaxUDPHeaderLen]
    omega

theorem length_header_of_parse {pkt : Bytes} {d : Socks5UDPDatagram}
    (h : parseSocks5UDPDatagram pkt = .ok d) : d.header.length ≤ socks5MaxUDPHeaderLen := by
  have hpkt := congrArg List.length (header_append_payload h)
  obtain ⟨hlen, -, -, hread, -⟩ := parse_eq_ok_iff.mp h
  have hdrop : (pkt.drop 3).length ≤ d.payload.length + 259 := by
    generalize pkt.drop 3 = bs at hread
    generalize d.addr = a at hread
    cases layout_of_readAddrSpec hread with
    | ipv4 hip => simp [hip]; omega
    | ipv6 hip => simp [hip]; omega
    | name hname => simp; omega
  simp only [List.length_append, List.length_drop] at hpkt hdrop
  simp only [socks5MaxUDPHeaderLen]
  omega

theorem headerFor_own {outs : List Output} {a b : Arrival} (h : b.addr.key = a.addr.key) :
    HeaderFor outs b (udpAddrToHeader a.ip a.port) := by
  simp only [Arrival.addr, UDPAddr.key, Option.map_some, Prod.mk.injEq, Option.some.injEq] at h
  obtain ⟨hip, hport, -⟩ := h
  left
  rw [udpAddrToHeader_congr hip, hport]

/-! ## What every run keeps -/

def Fresh (outs : List Output) (entry : AddrKey × Bytes) : Prop :=
  entry.2.length ≤ socks5MaxUDPHeaderLen ∧
    ∀ a : Arrival, a.addr.key = entry.1 → HeaderFor outs a entry.2

structure Inv (s : State) (outs : List Output) : Prop where
  once : arrivals outs = handedFor outs ++ s.down.inHand
  map : ∀ entry ∈ s.addrMap, Fresh outs entry
  up : ∀ datagram dstAddr, s.up = .storing datagram dstAddr →
    datagram.header.length ≤ socks5MaxUDPHeaderLen ∧ .resolved datagram dstAddr ∈ outs
  down : ∀ a header, s.down = .writing a header →
    header.length ≤ socks5MaxUDPHeaderLen ∧ HeaderFor outs a header
  frames : ∀ a frame result, .handed a frame result ∈ outs →
    result = PacketOverStreamTunnel.write frame ∧
      ∃ header, frame = header ++ a.pkt ∧ HeaderFor outs a header
  recorded : s.udpErr.isSome = (s.up.ended || s.down.ended)

theorem frame_eq (room : Headroom) {header : Bytes} (h : header.length ≤ socks5MaxUDPHeaderLen)
    (payload : Bytes) :
    ((room.put header h).1 ++ payload).drop (socks5MaxUDPHeaderLen - header.length) =
      header ++ payload := by
  have hfront : (room.1.take (socks5MaxUDPHeaderLen - header.length)).length =
      socks5MaxUDPHeaderLen - header.length := by
    rw [List.length_take, room.2]
    omega
  rw [Headroom.put, List.append_assoc, List.drop_left' hfront]

theorem inv_initial : Inv State.initial [] where
  once := rfl
  map := by simp [State.initial]
  up := by simp [State.initial]
  down := by simp [State.initial]
  frames := by simp
  recorded := rfl

section steps

variable {cfg : Config} {s s' : State} {outs out : List Output}

theorem Inv.map_of (h : Inv s outs)
    (hmap : ∀ entry ∈ s'.addrMap, entry ∈ s.addrMap ∨ Fresh (outs ++ out) entry)
    (entry : AddrKey × Bytes) (hmem : entry ∈ s'.addrMap) : Fresh (outs ++ out) entry := by
  rcases hmap entry hmem with hold | hfresh
  · obtain ⟨hlen, hheader⟩ := h.map entry hold
    exact ⟨hlen, fun a hkey => (hheader a hkey).mono out⟩
  · exact hfresh

theorem Inv.frames_of (h : Inv s outs) (hhanded : handedFor out = [])
    (a : Arrival) (frame : Bytes) (result : Except String Bytes)
    (hmem : .handed a frame result ∈ outs ++ out) :
    result = PacketOverStreamTunnel.write frame ∧
      ∃ header, frame = header ++ a.pkt ∧ HeaderFor (outs ++ out) a header := by
  have hold : .handed a frame result ∈ outs := by
    refine (List.mem_append.mp hmem).resolve_right fun hnew => ?_
    have hin : a ∈ handedFor out := List.mem_filterMap.mpr ⟨_, hnew, rfl⟩
    rw [hhanded] at hin
    cases hin
  obtain ⟨hresult, header, hframe, hheader⟩ := h.frames a frame result hold
  exact ⟨hresult, header, hframe, hheader.mono out⟩

theorem Inv.of_up (h : Inv s outs) (hdown : s'.down = s.down)
    (harrived : arrivals out = []) (hhanded : handedFor out = [])
    (hmap : ∀ entry ∈ s'.addrMap, entry ∈ s.addrMap ∨ Fresh (outs ++ out) entry)
    (hup : ∀ datagram dstAddr, s'.up = .storing datagram dstAddr →
      datagram.header.length ≤ socks5MaxUDPHeaderLen ∧ .resolved datagram dstAddr ∈ outs ++ out)
    (hrecorded : s'.udpErr.isSome = (s'.up.ended || s'.down.ended)) :
    Inv s' (outs ++ out) where
  once := by
    have honce := h.once
    simp only [arrivals, handedFor, List.filterMap_append] at *
    rw [harrived, hhanded, List.append_nil, List.append_nil, hdown, honce]
  map := h.map_of hmap
  up := hup
  down := by
    rw [hdown]
    intro a header hpc
    obtain ⟨hlen, hheader⟩ := h.down a header hpc
    exact ⟨hlen, hheader.mono out⟩
  frames := h.frames_of hhanded
  recorded := hrecorded

theorem Inv.of_down (h : Inv s outs)
    (hup : ∀ datagram dstAddr, s'.up = .storing datagram dstAddr → s.up = s'.up)
    (hhanded : handedFor out = [])
    (hhand : s.down.inHand ++ arrivals out = s'.down.inHand)
    (hmap : ∀ entry ∈ s'.addrMap, entry ∈ s.addrMap ∨ Fresh (outs ++ out) entry)
    (hdown : ∀ a header, s'.down = .writing a header →
      header.length ≤ socks5MaxUDPHeaderLen ∧ HeaderFor (outs ++ out) a header)
    (hrecorded : s'.udpErr.isSome = (s'.up.ended || s'.down.ended)) :
    Inv s' (outs ++ out) where
  once := by
    have honce := h.once
    simp only [arrivals, handedFor, List.filterMap_append] at *
    rw [hhanded, List.append_nil, ← hhand, honce, List.append_assoc]
  map := h.map_of hmap
  up := by
    intro datagram dstAddr hpc
    obtain ⟨hlen, hmem⟩ := h.up datagram dstAddr ((hup datagram dstAddr hpc).trans hpc)
    exact ⟨hlen, List.mem_append_left _ hmem⟩
  down := hdown
  frames := h.frames_of hhanded
  recorded := hrecorded

theorem Inv.of_down_free (h : Inv s outs)
    (hup : ∀ datagram dstAddr, s'.up = .storing datagram dstAddr → s.up = s'.up)
    (hhanded : handedFor out = []) (hhand : s.down.inHand ++ arrivals out = s'.down.inHand)
    (hmap : s'.addrMap = s.addrMap) (hwriting : ∀ a header, s'.down ≠ .writing a header)
    (hrecorded : s'.udpErr.isSome = (s'.up.ended || s'.down.ended)) : Inv s' (outs ++ out) := by
  refine h.of_down hup hhanded hhand ?_ ?_ hrecorded
  · intro entry hmem
    exact .inl (hmap ▸ hmem)
  · intro a header hpc
    exact absurd hpc (hwriting a header)

theorem Inv.recorded_up (h : Inv s outs) {up : UpPc} (hup : up.ended = s.up.ended) :
    s.udpErr.isSome = (up.ended || s.down.ended) := by
  rw [hup]
  exact h.recorded

theorem Inv.recorded_down (h : Inv s outs) {down : DownPc} (hdown : down.ended = s.down.ended) :
    s.udpErr.isSome = (s.up.ended || down.ended) := by
  rw [hdown]
  exact h.recorded

theorem read_inv (h : Inv s outs) (hup : s.up = .reading) (cfg : Config) (pkt : Bytes) :
    Inv (s.read cfg pkt).1 (outs ++ (s.read cfg pkt).2) := by
  unfold State.read
  cases hparse : parseSocks5UDPDatagram pkt with
  | error e =>
    refine h.of_up rfl rfl rfl (fun entry => .inl) ?_ (h.recorded_up (by rw [hup]; rfl))
    intro datagram dstAddr hpc
    cases hpc
  | ok datagram =>
    dsimp only
    cases hresolve : resolveSocks5UDPAddr cfg datagram.addr with
    | none =>
      refine h.of_up rfl rfl rfl (fun entry => .inl) ?_ h.recorded
      intro datagram' dstAddr' hpc
      obtain ⟨hlen, hmem⟩ := h.up datagram' dstAddr' hpc
      exact ⟨hlen, List.mem_append_left _ hmem⟩
    | some dstAddr =>
      refine h.of_up rfl rfl rfl (fun entry => .inl) ?_ (h.recorded_up (by rw [hup]; rfl))
      intro datagram' dstAddr' hpc
      cases hpc
      exact ⟨length_header_of_parse hparse, by simp⟩

theorem store_inv (h : Inv s outs) {datagram : Socks5UDPDatagram} {dstAddr : UDPAddr}
    (hup : s.up = .storing datagram dstAddr) :
    Inv { s with
      addrMap := (dstAddr.key, datagram.header) :: s.addrMap
      up := .sending datagram dstAddr } (outs ++ []) := by
  obtain ⟨hlen, hmem⟩ := h.up datagram dstAddr hup
  refine h.of_up rfl rfl rfl ?_ ?_ (h.recorded_up (by rw [hup]; rfl))
  · intro entry hentry
    rcases List.mem_cons.mp hentry with rfl | hold
    · refine .inr ⟨hlen, fun a hkey => .inr ?_⟩
      exact ⟨datagram, dstAddr, List.mem_append_left _ hmem, rfl, hkey.symm⟩
    · exact .inl hold
  · intro datagram' dstAddr' hpc
    cases hpc

theorem found_inv (h : Inv s outs) {a : Arrival} {header : Bytes} (hdown : s.down = .loading a)
    (hlookup : s.addrMap.lookup a.addr.key = some header) :
    Inv { s with down := .writing a header } (outs ++ []) := by
  obtain ⟨front, back, hentries, -⟩ := List.lookup_eq_some_iff.mp hlookup
  obtain ⟨hlen, hheader⟩ := h.map (a.addr.key, header) (by simp [hentries])
  refine h.of_down (fun _ _ _ => rfl) rfl (by rw [hdown]; rfl) (fun entry => .inl) ?_
    (h.recorded_down (by rw [hdown]; rfl))
  intro a' header' hpc
  cases hpc
  exact ⟨hlen, (hheader a rfl).mono []⟩

theorem storeOwn_inv (h : Inv s outs) {a : Arrival} (hdown : s.down = .storing a) :
    Inv { s with
      addrMap := (a.addr.key, udpAddrToHeader a.ip a.port) :: s.addrMap
      down := .writing a (udpAddrToHeader a.ip a.port) } (outs ++ []) := by
  have hlen := length_udpAddrToHeader a.ip a.port
  refine h.of_down (fun _ _ _ => rfl) rfl (by rw [hdown]; rfl) ?_ ?_
    (h.recorded_down (by rw [hdown]; rfl))
  · intro entry hentry
    rcases List.mem_cons.mp hentry with rfl | hold
    · exact .inr ⟨hlen, fun b hkey => headerFor_own hkey⟩
    · exact .inl hold
  · intro a' header' hpc
    cases hpc
    exact ⟨hlen, headerFor_own rfl⟩

theorem write_inv (h : Inv s outs) {a : Arrival} {header : Bytes}
    (hdown : s.down = .writing a header) (refusal : Option ErrorType) :
    Inv (s.write a header refusal).1 (outs ++ (s.write a header refusal).2) := by
  obtain ⟨hlen, hheader⟩ := h.down a header hdown
  have honce := h.once
  have hfree (err : Option ErrorType) : (err.elim DownPc.reading .failing).inHand = [] := by
    cases err <;> rfl
  have hnone (err : Option ErrorType) : (err.elim DownPc.reading .failing).ended = false := by
    cases err <;> rfl
  simp only [State.write, hlen, ↓reduceDIte, frame_eq]
  constructor
  · rw [hdown] at honce
    simp only [arrivals, handedFor, List.filterMap_append] at honce ⊢
    rw [honce, hfree, List.append_nil]
    exact List.append_nil _
  · exact h.map_of fun entry => .inl
  · intro datagram dstAddr hpc
    obtain ⟨hlen, hmem⟩ := h.up datagram dstAddr hpc
    exact ⟨hlen, List.mem_append_left _ hmem⟩
  · intro a' header' hpc
    dsimp only at hpc
    cases hrefused : refused (PacketOverStreamTunnel.write (header ++ a.pkt)) refusal <;>
      rw [hrefused] at hpc <;> cases hpc
  · intro a' frame result hmem
    rcases List.mem_append.mp hmem with hold | hnew
    · obtain ⟨hresult, header', hframe, hright⟩ := h.frames a' frame result hold
      exact ⟨hresult, header', hframe, hright.mono _⟩
    · cases List.mem_singleton.mp hnew
      exact ⟨rfl, header, rfl, hheader.mono _⟩
  · exact h.recorded_down ((hnone _).trans (by rw [hdown]; rfl))

theorem isSome_of_clash {udpErr : Option ErrorType} {err : ErrorType}
    (h : ¬ udpErr.all (· = err) = true) : udpErr.isSome = true := by
  cases udpErr with
  | none => exact absurd rfl h
  | some old => rfl

theorem storeErr_inv (h : Inv s outs) {err : ErrorType} (hup : s.up = .failing err) :
    Inv (s.record err { s with up := .closing }).1
      (outs ++ (s.record err { s with up := .closing }).2) := by
  unfold State.record
  split_ifs with hall
  · refine h.of_up rfl rfl rfl (fun entry => .inl) ?_ rfl
    intro datagram dstAddr hpc
    cases hpc
  · -- what it clashes with was stored by the download, which has nothing in hand any more
    have hsome := isSome_of_clash hall
    have hdone : s.down = .done := by
      have hended := h.recorded
      rw [hsome, hup] at hended
      cases hdown : s.down with
      | done => rfl
      | _ => rw [hdown] at hended; cases hended
    refine h.of_up hdone.symm rfl rfl (fun entry => .inl) ?_ hsome
    intro datagram dstAddr hpc
    cases hpc

theorem recordErr_inv (h : Inv s outs) {err : ErrorType} (hdown : s.down = .recording err) :
    Inv (s.record err { s with down := .done }).1
      (outs ++ (s.record err { s with down := .done }).2) := by
  unfold State.record
  split_ifs with hall
  · refine h.of_down_free (fun _ _ _ => rfl) rfl (by rw [hdown]; rfl) rfl (by simp) ?_
    simp [DownPc.ended]
  · exact h.of_down_free (by simp [State.panicked]) rfl (by rw [hdown]; rfl) rfl
      (by simp [State.panicked]) (isSome_of_clash hall)

theorem loadErr_inv (h : Inv s outs) {err : ErrorType} (hdown : s.down = .failing err) :
    Inv { s with down := if s.udpErr = none then .recording err else .done } (outs ++ []) := by
  split_ifs with hudp
  · refine h.of_down_free (fun _ _ _ => rfl) rfl (by rw [hdown]; rfl) rfl (by simp) ?_
    exact h.recorded_down (by rw [hdown]; rfl)
  · refine h.of_down_free (fun _ _ _ => rfl) rfl (by rw [hdown]; rfl) rfl (by simp) ?_
    simpa [DownPc.ended, Option.isSome_iff_ne_none] using hudp

theorem step_inv (h : Inv s outs) {e : Event} (hs : step cfg s e = some (s', out)) :
    Inv s' (outs ++ out) := by
  cases effect_of_step hs with
  | read hup => exact read_inv h hup _ _
  | readFails hup | send hup | close hup =>
    refine h.of_up rfl rfl rfl (fun entry => .inl) ?_ (h.recorded_up (by rw [hup]; rfl))
    intro datagram dstAddr hpc
    cases hpc
  | store hup => exact store_inv h hup
  | storeErr hup => exact storeErr_inv h hup
  | receive hdown | receiveFails hdown | missed hdown =>
    exact h.of_down_free (fun _ _ _ => rfl) rfl (by rw [hdown]; rfl) rfl (by simp)
      (h.recorded_down (by rw [hdown]; rfl))
  | found hdown hlookup => exact found_inv h hdown hlookup
  | storeOwn hdown => exact storeOwn_inv h hdown
  | write hdown => exact write_inv h hdown _
  | loadErr hdown => exact loadErr_inv h hdown
  | recordErr hdown => exact recordErr_inv h hdown

theorem inv_of_reaches {P : State → Event → Prop} {es : List Event}
    (h : Reaches (step cfg) P State.initial es outs s) : Inv s outs :=
  h.invariant inv_initial fun _ _ _ _ _ hinv _ hs => step_inv hinv hs

end steps

/-! ## Frames that the tunnel takes -/

def maxDatagram : ℕ := 65507

/-- Header and datagram together fit in a frame. -/
def Fits (s : State) (e : Event) : Prop :=
  match e, s.down with
  | .write _, .writing a header =>
    a.pkt.length ≤ maxDatagram → header.length + a.pkt.length ≤ 65535
  | _, _ => True

def Accepted : Output → Prop
  | .handed a _ result => a.pkt.length ≤ maxDatagram → ∃ bytes, result = .ok bytes
  | _ => True

section frames

variable {cfg : Config} {s s' : State} {outs out : List Output} {e : Event}

theorem write_accepted_iff {a : Arrival} {header : Bytes}
    (hlen : header.length ≤ socks5MaxUDPHeaderLen) (refusal : Option ErrorType) :
    (a.pkt.length ≤ maxDatagram → header.length + a.pkt.length ≤ 65535) ↔
      ∀ o ∈ (s.write a header refusal).2, Accepted o := by
  have hok : (∃ bytes, PacketOverStreamTunnel.write (header ++ a.pkt) = .ok bytes) ↔
      header.length + a.pkt.length ≤ 65535 := by
    simp only [PacketOverStreamTunnel.write_ok_iff, List.length_append, exists_and_left, exists_eq,
      and_true]
  simp only [State.write, hlen, ↓reduceDIte, frame_eq, List.forall_mem_singleton, Accepted, hok]

theorem State.read_accepted (s : State) (cfg : Config) (pkt : Bytes) (o : Output)
    (ho : o ∈ (s.read cfg pkt).2) : Accepted o := by
  unfold State.read at ho
  split at ho
  · cases ho
  · split at ho
    · cases ho
    · cases List.mem_singleton.mp ho
      trivial

theorem State.record_accepted (s : State) (err : ErrorType) (after : State) (o : Output)
    (ho : o ∈ (s.record err after).2) : Accepted o := by
  unfold State.record at ho
  split_ifs at ho
  · cases ho
  · cases List.mem_singleton.mp ho
    trivial

theorem fits_iff (hinv : Inv s outs) (hs : step cfg s e = some (s', out)) :
    Fits s e ↔ ∀ o ∈ out, Accepted o := by
  cases effect_of_step hs with
  | write hdown =>
    simpa only [Fits, hdown] using write_accepted_iff (hinv.down _ _ hdown).1 _
  | read => exact iff_of_true trivial (s.read_accepted _ _)
  | storeErr | recordErr => exact iff_of_true trivial (s.record_accepted _ _)
  | _ => exact iff_of_true trivial (by simp [Accepted])

/-- A datagram in hand waits for nothing but the next step of its goroutine. -/
theorem download_enabled {a : Arrival} (h : a ∈ s.down.inHand) :
    ∃ e ∈ [.load, .storeOwn, .write none], (step cfg s e).isSome = true := by
  cases hdown : s.down with
  | loading b =>
    refine ⟨.load, by simp, ?_⟩
    simp only [step, hdown]
    split <;> rfl
  | storing b => exact ⟨.storeOwn, by simp, by simp only [step, hdown]; rfl⟩
  | writing b header => exact ⟨.write none, by simp, by simp only [step, hdown]; rfl⟩
  | _ =>
    rw [hdown] at h
    cases h

/-- Every datagram from the network goes to the tunnel in exactly one frame, behind the header
of a client datagram that went to its sender or behind its sender's own address. The tunnel
takes all frames of datagrams of usual size exactly in the runs in which header and datagram
fit together. -/
theorem relayed_download_iff {es : List Event}
    (h : Reaches (step cfg) Free State.initial es outs s) :
    arrivals outs = handedFor outs ++ s.down.inHand ∧
    (∀ a ∈ s.down.inHand, ∃ e ∈ [.load, .storeOwn, .write none], (step cfg s e).isSome = true) ∧
    (∀ a frame result, .handed a frame result ∈ outs →
      result = PacketOverStreamTunnel.write frame ∧
        ∃ header, frame = header ++ a.pkt ∧ HeaderFor outs a header) ∧
    ((∀ a frame result, .handed a frame result ∈ outs → a.pkt.length ≤ maxDatagram →
        ∃ bytes, result = .ok bytes) ↔
      Reaches (step cfg) Fits State.initial es outs s) := by
  have hinv := inv_of_reaches h
  refine ⟨hinv.once, fun a ha => download_enabled ha, hinv.frames, ?_⟩
  have hguarded := emitted_iff_guarded_of_invariant (P := Fits) (J := fun s => ∃ outs, Inv s outs)
    (Q := Accepted) ⟨[], inv_initial⟩ (fun _ _ _ _ ⟨_, hinv⟩ hs => ⟨_, step_inv hinv hs⟩)
    (fun _ _ _ _ ⟨_, hinv⟩ hs => fits_iff hinv hs) h
  rw [← hguarded]
  constructor
  · intro haccepted o ho
    cases o with
    | handed a frame result => exact haccepted a frame result ho
    | _ => trivial
  · intro haccepted a frame result hmem
    exact haccepted _ hmem

end frames

/-! ## The error of the loop -/

section errors

variable {cfg : Config} {s s' : State} {outs out : List Output} {es : List Event} {e : Event}

/-- The type assertion on the error that is returned cannot fail. -/
theorem returns_error (h : Reaches (step cfg) Free State.initial es outs s)
    (hdone : s.up = .done ∨ s.down = .done) : s.udpErr.isSome = true := by
  rw [(inv_of_reaches h).recorded]
  rcases hdone with hup | hdown
  · simp [hup, UpPc.ended]
  · simp [hdown, DownPc.ended]

theorem reaches_recorded {err : ErrorType} (h : Reaches (step cfg) Free State.initial es outs s)
    (hdown : s.down = .failing err) (hnone : s.udpErr = none) :
    Reaches (step cfg) Free State.initial (es ++ [.loadErr, .recordErr]) outs
      { s with down := .done, udpErr := some err } := by
  have hload : step cfg s .loadErr = some ({ s with down := .recording err }, []) := by
    simp [step, hdown, hnone]
  have hrecord : step cfg { s with down := .recording err } .recordErr =
      some ({ s with down := .done, udpErr := some err }, []) := by
    simp [step, State.record, hnone]
  simpa using (h.next trivial hload).next trivial hrecord

/-- Once the download has left its error, one of another type in the upload is a panic. -/
theorem panics_of_second_type {err old : ErrorType}
    (h : Reaches (step cfg) Free State.initial es outs s) (hup : s.up = .reading)
    (hudp : s.udpErr = some old) (hne : old ≠ err) :
    Reaches (step cfg) Free State.initial (es ++ [.readFails err, .storeErr])
      (outs ++ [.panicked]) { s with up := .done, down := .done } := by
  have hfails : step cfg s (.readFails err) = some ({ s with up := .failing err }, []) := by
    simp [step, hup]
  have hstore : step cfg { s with up := .failing err } .storeErr =
      some ({ s with up := .done, down := .done }, [.panicked]) := by
    simp [step, State.record, State.panicked, hudp, hne]
  simpa using (h.next trivial hfails).next trivial hstore

/-- The stream's errors come from `errors.New`, as a session's do, and the socket fails only
after it is closed. -/
def OwnErrors (s : State) : Event → Prop
  | .readFails err => err = .errorString
  | .write refusal => ∀ err ∈ refusal, err = .errorString
  | .receiveFails => s.udpClosed = true
  | _ => True

/-- A socket's error is never stored. -/
structure Agreed (s : State) : Prop where
  udpErr : ∀ err ∈ s.udpErr, err = .errorString
  closed : s.udpClosed = true → s.up = .done
  up : ∀ err, s.up = .failing err → err = .errorString
  down : ∀ err, s.down = .failing err → s.udpErr = none → err = .errorString
  recording : ∀ err, s.down = .recording err → err = .errorString

theorem Agreed.record (h : Agreed s) (after : State) :
    s.record .errorString after = ({ after with udpErr := some .errorString }, []) := by
  have hall : s.udpErr.all (· = .errorString) = true := by
    cases hudp : s.udpErr with
    | none => rfl
    | some err => simp [h.udpErr err hudp]
  rw [State.record, if_pos hall]

theorem refused_own {result : Except String Bytes} {refusal : Option ErrorType} {err : ErrorType}
    (h : ∀ err ∈ refusal, err = .errorString) (herr : refused result refusal = some err) :
    err = .errorString := by
  unfold refused at herr
  split_ifs at herr
  · exact h err herr
  · exact (Option.some.inj herr).symm

theorem write_agreed (h : Agreed s) {a : Arrival} {header : Bytes}
    (hlen : header.length ≤ socks5MaxUDPHeaderLen) {refusal : Option ErrorType}
    (hown : ∀ err ∈ refusal, err = .errorString) :
    Agreed (s.write a header refusal).1 ∧ .panicked ∉ (s.write a header refusal).2 := by
  obtain ⟨hudp, hclosed, hup, -, -⟩ := h
  simp only [State.write, hlen, ↓reduceDIte]
  generalize PacketOverStreamTunnel.write _ = result
  cases hrefused : refused result refusal with
  | none => exact ⟨⟨hudp, hclosed, hup, by simp, by simp⟩, by simp⟩
  | some err =>
    obtain rfl := refused_own hown hrefused
    exact ⟨⟨hudp, hclosed, hup, by simp, by simp⟩, by simp⟩

theorem read_agreed (h : Agreed s) (hpc : s.up = .reading) (cfg : Config) (pkt : Bytes) :
    Agreed (s.read cfg pkt).1 ∧ .panicked ∉ (s.read cfg pkt).2 := by
  obtain ⟨hudp, hclosed, hup, hdown, hrec⟩ := h
  have hopen : s.udpClosed ≠ true := by
    intro hudp
    cases hpc.symm.trans (hclosed hudp)
  unfold State.read
  split
  · exact ⟨⟨hudp, fun h => absurd h hopen, by simp, hdown, hrec⟩, by simp⟩
  · split
    · exact ⟨⟨hudp, hclosed, hup, hdown, hrec⟩, by simp⟩
    · exact ⟨⟨hudp, fun h => absurd h hopen, by simp, hdown, hrec⟩, by simp⟩

theorem step_agreed (hinv : Inv s outs) (h : Agreed s) (hown : OwnErrors s e)
    (hs : step cfg s e = some (s', out)) : Agreed s' ∧ .panicked ∉ out := by
  obtain ⟨hudp, hclosed, hup, hdown, hrec⟩ := id h
  cases effect_of_step hs with
  | read hpc => exact read_agreed h hpc _ _
  | write hpc => exact write_agreed h (hinv.down _ _ hpc).1 hown
  | storeErr hpc =>
    obtain rfl := hup _ hpc
    rw [h.record]
    exact ⟨⟨by simp, by simpa [hpc] using hclosed, by simp, by simp, hrec⟩, by simp⟩
  | recordErr hpc =>
    obtain rfl := hrec _ hpc
    rw [h.record]
    exact ⟨⟨by simp, hclosed, hup, by simp, by simp⟩, by simp⟩
  | readFails hpc =>
    obtain rfl := hown
    exact ⟨⟨hudp, by simpa [hpc] using hclosed, by simp, hdown, hrec⟩, by simp⟩
  | store hpc | send hpc =>
    exact ⟨⟨hudp, by simpa [hpc] using hclosed, by simp, hdown, hrec⟩, by simp⟩
  | close hpc => exact ⟨⟨hudp, by simp, by simp, hdown, hrec⟩, by simp⟩
  | receiveFails hpc =>
    have hsome : s.udpErr.isSome = true := by
      rw [hinv.recorded, hclosed hown]
      rfl
    have hstored := Option.isSome_iff_ne_none.mp hsome
    exact ⟨⟨hudp, hclosed, hup, by simp [hstored], by simp⟩, by simp⟩
  | receive | found | missed | storeOwn =>
    exact ⟨⟨hudp, hclosed, hup, by simp, by simp⟩, by simp⟩
  | loadErr hpc =>
    refine ⟨?_, by simp⟩
    split_ifs with hnone
    · exact ⟨hudp, hclosed, hup, by simp, by simp [hdown _ hpc hnone]⟩
    · exact ⟨hudp, hclosed, hup, by simp, by simp⟩

/-- With such errors the two goroutines never store two types. -/
theorem never_panics (h : Reaches (step cfg) OwnErrors State.initial es outs s) :
    .panicked ∉ outs := by
  have hinit : Inv State.initial [] ∧ Agreed State.initial ∧ .panicked ∉ ([] : List Output) := by
    refine ⟨inv_initial, ⟨?_, ?_, ?_, ?_, ?_⟩, by simp⟩ <;> simp [State.initial]
  have hrun := h.invariant (I := fun s outs => Inv s outs ∧ Agreed s ∧ .panicked ∉ outs) hinit ?_
  · exact hrun.2.2
  · rintro s outs e s' out ⟨hinv, hagreed, hold⟩ hown hs
    obtain ⟨hagreed', hnew⟩ := step_agreed hinv hagreed hown hs
    exact ⟨step_inv hinv hs, hagreed', by simp [hold, hnew]⟩

end errors

/-! ## A peer with a long name -/

def longName : Bytes := List.replicate 22 97

def peer (pkt : Bytes) : Arrival := ⟨⟨[8, 8, 8, 8], .inl rfl⟩, 53, [], pkt⟩

def longHeader : Bytes := [0, 0, 0, 3, 22] ++ longName ++ [0, 53]

/-- The client asks the peer by its name, and the peer answers. -/
def exchange (reply : Bytes) : List Event :=
  [.read (longHeader ++ [7]) fun _ => some [(peer []).ip], .store, .send, .receive (peer reply),
    .load, .write none]

theorem exchange_reaches {P : State → Event → Prop} {reply : Bytes} (h : reply.length ≤ 65536)
    (hP : ∀ s e, (∀ refusal, e ≠ .write refusal) → P s e)
    (hwrite : ∀ s, s.down = .writing (peer reply) longHeader → P s (.write none)) :
    ∃ datagram dstAddr s,
      Reaches (step internetOnly) P State.initial (exchange reply)
        [.resolved datagram dstAddr, .arrived (peer reply),
          .handed (peer reply) (longHeader ++ reply)
            (PacketOverStreamTunnel.write (longHeader ++ reply))] s ∧
      s.udpErr = none ∧
      s.down = if (PacketOverStreamTunnel.write (longHeader ++ reply)).isOk then .reading
        else .failing .errorString := by
  have hreceive (s : State) (hdown : s.down = .reading) (hopen : s.udpClosed = false) :
      step internetOnly s (.receive (peer reply)) =
        some ({ s with down := .loading (peer reply) }, [.arrived (peer reply)]) := by
    simp only [step, hdown]
    rw [if_pos ⟨hopen, h⟩]
  have hstart : Reaches (step internetOnly) P State.initial [] [] State.initial := .start
  have hread := hstart.next (e := .read (longHeader ++ [7]) fun _ => some [(peer []).ip])
    (hP _ _ (by simp)) rfl
  have hstored := hread.next (e := .store) (hP _ _ (by simp)) rfl
  have hsent := hstored.next (e := .send) (hP _ _ (by simp)) rfl
  have harrived := hsent.next (hP _ _ (by simp)) (hreceive _ rfl rfl)
  have hloaded := harrived.next (e := .load) (hP _ _ (by simp)) rfl
  have hhanded := hloaded.next (e := .write none) (hwrite _ rfl) rfl
  refine ⟨_, _, _, hhanded, rfl, ?_⟩
  show (refused (PacketOverStreamTunnel.write (longHeader ++ reply)) none).elim _ _ = _
  unfold refused
  split_ifs <;> rfl

/-- The largest reply of a peer with a name of 22 bytes ends the download. -/
theorem large_reply_ends_download :
    ∃ reply outs s, reply.length = maxDatagram ∧
      Reaches (step internetOnly) Free State.initial
        (exchange reply ++ [.loadErr, .recordErr]) outs s ∧
      .handed (peer reply) (longHeader ++ reply)
        (.error "packet length 65536 is larger than maximum length 65535") ∈ outs ∧
      s.down = .done := by
  have hreply : (List.replicate maxDatagram (0 : UInt8)).length = maxDatagram :=
    List.length_replicate
  generalize List.replicate maxDatagram (0 : UInt8) = reply at hreply
  have hframe : (longHeader ++ reply).length = 65536 := by
    rw [List.length_append, hreply]
    rfl
  have hrefused : PacketOverStreamTunnel.write (longHeader ++ reply) =
      .error "packet length 65536 is larger than maximum length 65535" := by
    unfold PacketOverStreamTunnel.write
    rw [if_pos (by omega), hframe]
    rfl
  obtain ⟨datagram, dstAddr, s, hreaches, hnone, hdown⟩ :=
    exchange_reaches (P := Free) (by rw [hreply]; decide) (fun _ _ _ => trivial)
      (fun _ _ => trivial)
  rw [hrefused] at hreaches hdown
  exact ⟨reply, _, _, hreply, reaches_recorded hreaches hdown hnone, by simp, rfl⟩

theorem short_reply_passed_on :
    ∃ outs s, Reaches (step internetOnly) Free State.initial (exchange [9]) outs s ∧
      ∃ bytes, .handed (peer [9]) (longHeader ++ [9]) (.ok bytes) ∈ outs := by
  have hother (s : State) (e : Event) (h : ∀ refusal, e ≠ .write refusal) : Fits s e := by
    cases e with
    | write refusal => exact absurd rfl (h refusal)
    | _ => trivial
  have hfits (s : State) (h : s.down = .writing (peer [9]) longHeader) : Fits s (.write none) := by
    simp only [Fits, h]
    decide
  obtain ⟨datagram, dstAddr, s, hguarded, -, -⟩ := exchange_reaches (by decide) hother hfits
  obtain ⟨bytes, hok⟩ := (relayed_download_iff hguarded.free).2.2.2.mpr hguarded (peer [9])
    (longHeader ++ [9]) (PacketOverStreamTunnel.write (longHeader ++ [9])) (by simp) (by decide)
  rw [hok] at hguarded
  exact ⟨_, s, hguarded.free, bytes, by simp⟩

end UDPRelay

end Mieru.Socks5
