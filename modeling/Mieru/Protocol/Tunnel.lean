import Mieru.Protocol.MetadataCodec
import Mieru.Protocol.PacketUnderlay
import Mieru.Session.Delivery
import Mieru.Session.Outputs

/-! # Two sessions over sealed datagrams

Each packet of a session is padded, sealed and sent as a datagram, and what the socket hands
over is opened and read. The network may lose, duplicate, delay and reorder datagrams, and it
may bring any bytes that do not open under the key. The sessions then behave as if the packets
themselves were handed over. -/
namespace Mieru.Protocol

open Cipher Mathext Result TrafficPattern

/-! ## What a datagram says -/

section Clock

variable {receiver : BlockCipher} {now now' : ℕ}

theorem TimeChecked.agree {α : Type} {unmarshal : Bytes → ℕ → Except String α}
    (h : TimeChecked unmarshal) {b : Bytes} {m m' : α} (hm : unmarshal b now = .ok m)
    (hm' : unmarshal b now' = .ok m') : m = m' := by
  have hsame := h.same hm (h.inRange hm')
  exact Except.ok.inj (hsame.symm.trans hm')

theorem parseSegment_agree {decrypted nonce rest : Bytes} {p p' : Packet}
    (h : parseSegment receiver now decrypted nonce rest = .ok p)
    (h' : parseSegment receiver now' decrypted nonce rest = .ok p') : p = p' := by
  unfold parseSegment at h h'
  obtain ⟨-, h⟩ := ensure_bind_eq_ok.mp h
  obtain ⟨-, h'⟩ := ensure_bind_eq_ok.mp h'
  dsimp only at h h'
  split at h
  · cases h
  · rename_i protocol hprotocol
    simp only [hprotocol] at h'
    split_ifs at h h' with hsession hdata
    · obtain ⟨ss, hss, h⟩ := bind_eq_ok.mp h
      obtain ⟨ss', hss', h'⟩ := bind_eq_ok.mp h'
      have hsame := SessionStruct.timeChecked.agree (mapError_eq_ok.mp hss) (mapError_eq_ok.mp hss')
      subst hsame
      exact Except.ok.inj (h.symm.trans h')
    · obtain ⟨das, hdas, h⟩ := bind_eq_ok.mp h
      obtain ⟨das', hdas', h'⟩ := bind_eq_ok.mp h'
      have hsame :=
        DataAckStruct.timeChecked.agree (mapError_eq_ok.mp hdas) (mapError_eq_ok.mp hdas')
      subst hsame
      exact Except.ok.inj (h.symm.trans h')

theorem parseDatagram_agree {bytes : Bytes} {p p' : Packet}
    (h : parseDatagram receiver now bytes = .ok p)
    (h' : parseDatagram receiver now' bytes = .ok p') : p = p' := by
  unfold parseDatagram at h h'
  obtain ⟨-, h⟩ := ensure_bind_eq_ok.mp h
  obtain ⟨-, h'⟩ := ensure_bind_eq_ok.mp h'
  obtain ⟨opened, hopened, h⟩ := bind_eq_ok.mp h
  obtain ⟨opened', hopened', h'⟩ := bind_eq_ok.mp h'
  have hsame : opened = opened' := Except.ok.inj (hopened.symm.trans hopened')
  subst hsame
  exact parseSegment_agree h h'

theorem unixMinutes_mul (minute : UInt32) : unixMinutes (minute.toNat * 60) = minute := by
  rw [unixMinutes, Nat.mul_div_cancel _ (by decide), UInt32.ofNat_toNat]

theorem exists_withinRange (timestamp : UInt32) :
    ∃ now, withinRange (unixMinutes now) timestamp 1 = true := by
  by_cases hedge : EdgeTimestamp timestamp
  · refine ⟨(timestamp + 1).toNat * 60, ?_⟩
    rw [unixMinutes_mul, withinRange_one_iff, if_pos hedge]
    simp
  · refine ⟨timestamp.toNat * 60, ?_⟩
    rw [unixMinutes_mul, withinRange_one_iff, if_neg hedge]
    exact ⟨Nat.le_succ _, Nat.le_succ _⟩

theorem SoundDatagram.reads {f : FramingConfig} {block : BlockCipher} {p q : Packet}
    {d : Datagram} {clock : ℕ} (h : SoundDatagram f block p now d)
    (hreceiver : receiver.enableImplicitNonce = false) (hkey : receiver.aead = block.aead)
    (hq : parseDatagram receiver clock d.bytes = .ok q) : q = ⟨d.metadata, p.payload⟩ := by
  obtain ⟨clock', hclock'⟩ := exists_withinRange (unixMinutes now)
  exact parseDatagram_agree hq (h.parses receiver clock' hreceiver hkey hclock')

end Clock

/-! ## Packets up to their framing -/

def Packet.Alike (p q : Packet) : Prop :=
  p.metadata.content = q.metadata.content ∧ p.payload = q.payload

instance (p q : Packet) : Decidable (p.Alike q) := inferInstanceAs (Decidable (_ ∧ _))

namespace Packet.Alike

variable {p q : Packet}

theorem refl (p : Packet) : p.Alike p := ⟨rfl, rfl⟩

theorem symm (h : p.Alike q) : q.Alike p := ⟨h.1.symm, h.2.symm⟩

theorem congr {α : Type} {f : Packet → α} (h : p.Alike q)
    (hf : ∀ m payload, f ⟨m.content, payload⟩ = f ⟨m, payload⟩) : f p = f q :=
  calc f p = f ⟨p.metadata.content, p.payload⟩ := (hf _ _).symm
    _ = f q := by rw [h.1, h.2, hf]

theorem protocol_eq (h : p.Alike q) : p.protocol = q.protocol :=
  h.congr fun m _ => by cases m <;> rfl

theorem seq_eq (h : p.Alike q) : p.seq = q.seq := h.congr fun m _ => by cases m <;> rfl

theorem unAckSeq_eq (h : p.Alike q) : p.unAckSeq = q.unAckSeq :=
  h.congr fun m _ => by cases m <;> rfl

theorem framable (h : p.Alike q) (hq : Framable q) : Framable p := by
  rw [← framable_content, h.1, h.2, framable_content]
  exact hq

theorem payloadLen_eq (h : p.Alike q) : p.metadata.payloadLen = q.metadata.payloadLen := by
  rw [← Metadata.payloadLen_content, h.1, Metadata.payloadLen_content]

end Packet.Alike

section AlikeWires

variable {wire wire' : List Packet}

theorem carriedBy_subset (h : ∀ p ∈ wire, ∃ q ∈ wire', p.Alike q) :
    carriedBy wire ⊆ carriedBy wire' := by
  rintro m ⟨p, hp, hdata, rfl⟩
  obtain ⟨q, hq, halike⟩ := h p hp
  exact ⟨q, hq, halike.protocol_eq ▸ hdata, by rw [halike.seq_eq, halike.2]⟩

theorem acknowledgedBy_subset (h : ∀ p ∈ wire, ∃ q ∈ wire', p.Alike q) :
    acknowledgedBy wire ⊆ acknowledgedBy wire' := by
  rintro n ⟨p, hp, seq, hseq, rfl⟩
  obtain ⟨q, hq, halike⟩ := h p hp
  exact ⟨q, hq, seq, halike.unAckSeq_eq ▸ hseq, rfl⟩

def AlikeWires (wire wire' : List Packet) : Prop :=
  (∀ p ∈ wire, ∃ q ∈ wire', p.Alike q) ∧ ∀ q ∈ wire', ∃ p ∈ wire, q.Alike p

theorem AlikeWires.carriedBy_eq (h : AlikeWires wire wire') : carriedBy wire = carriedBy wire' :=
  Set.Subset.antisymm (carriedBy_subset h.1) (carriedBy_subset h.2)

theorem AlikeWires.acknowledgedBy_eq (h : AlikeWires wire wire') :
    acknowledgedBy wire = acknowledgedBy wire' :=
  Set.Subset.antisymm (acknowledgedBy_subset h.1) (acknowledgedBy_subset h.2)

theorem AlikeWires.singleton {p q : Packet} (h : p.Alike q) : AlikeWires [p] [q] := by
  simp [AlikeWires, h, h.symm]

theorem AlikeWires.append {before before' : List Packet} (hb : AlikeWires before before')
    (h : AlikeWires wire wire') : AlikeWires (before ++ wire) (before' ++ wire') := by
  have hside {a a' b b' : List Packet} (ha : ∀ p ∈ a, ∃ q ∈ a', p.Alike q)
      (hb : ∀ p ∈ b, ∃ q ∈ b', p.Alike q) : ∀ p ∈ a ++ b, ∃ q ∈ a' ++ b', p.Alike q := by
    intro p hp
    rcases List.mem_append.mp hp with hp | hp
    · exact (ha p hp).imp fun _ hq => hq.imp_left (List.mem_append_left _)
    · exact (hb p hp).imp fun _ hq => hq.imp_left (List.mem_append_right _)
  exact ⟨hside hb.1 h.1, hside hb.2 h.2⟩

theorem AlikeWires.refl (wire : List Packet) : AlikeWires wire wire :=
  ⟨fun p hp => ⟨p, hp, .refl p⟩, fun p hp => ⟨p, hp, .refl p⟩⟩

end AlikeWires

/-! ## One side of the tunnel -/

/-- How the underlay of a session frames its packets. -/
structure Outlet (cfg : SessionConfig) where
  framing : FramingConfig
  mtu_eq : framing.mtu = cfg.mtu
  mtu_range : 1280 ≤ cfg.mtu ∧ cfg.mtu ≤ 1500
  packets : framing.transportProtocol = .packetTransport ∧
    cfg.transportProtocol = .packetTransport
  valid : validate cfg.trafficPattern = .ok ()

/-- What one transmission depends on: the fields that the segment has from an earlier one, the
cipher, chance and the clock. -/
structure Transmission where
  packet : Packet
  block : StatelessCipher
  draws : Draws
  now : ℕ

/-- A session, and the datagrams it sent so far. The wire of the endpoint has the packets as
they were framed. -/
structure TunnelSide (cfg : SessionConfig) where
  endpoint : Endpoint cfg
  datagrams : List Bytes := []

inductive TunnelAction where
  | act (a : Action) (sends : List Transmission)
  | arrive (bytes : Bytes) (block : StatelessCipher) (clock : ℕ) (now : ℤ)

section Side

variable {cfg : SessionConfig} (o : Outlet cfg)

def Outlet.transmit (p : Packet) (t : Transmission) : Option (Packet × Bytes) :=
  if t.packet.Alike p then
    match buildDatagram o.framing t.block.val t.packet t.draws t.now with
    | .ok d => some (⟨d.metadata, t.packet.payload⟩, d.bytes)
    | .error _ => none
  else none

def Outlet.transmitAll : List Packet → List Transmission → Option (List (Packet × Bytes))
  | [], [] => some []
  | p :: ps, t :: ts =>
    (o.transmit p t).bind fun out => (Outlet.transmitAll ps ts).map (out :: ·)
  | _, _ => none

namespace TunnelSide

variable (x : TunnelSide cfg)

def observe (e : Endpoint cfg) (out : List (Packet × Bytes)) : TunnelSide cfg where
  endpoint := { e with wire := x.endpoint.wire ++ out.map Prod.fst }
  datagrams := x.datagrams ++ out.map Prod.snd

/-- The session takes a step in which it receives nothing but what is `heard`. -/
def carryOut (heard : List Packet) (a : Action) (sends : List Transmission) :
    Option (TunnelSide cfg × List Event) :=
  match x.endpoint.step heard a with
  | none => none
  | some (e, evs) =>
    (o.transmitAll (evs.flatMap Event.sentPackets) sends).map fun out => (x.observe e out, evs)

/-- A datagram that does not open, is stale or belongs to another session is dropped. -/
def step : TunnelAction → Option (TunnelSide cfg × List Event)
  | .act a sends => x.carryOut o [] a sends
  | .arrive bytes block clock now =>
    match parseDatagram block.val clock bytes with
    | .error _ => some (x, [])
    | .ok p =>
      if p.metadata.sessionID = cfg.id then x.carryOut o [p] (.receive p now) []
      else some (x, [])

end TunnelSide

end Side

/-! ## Both sides -/

structure TunnelConfig where
  pair : PairConfig
  key : Aead.Scheme
  client : Outlet pair.client
  server : Outlet pair.server

structure Tunnel (cfg : TunnelConfig) where
  client : TunnelSide cfg.pair.client
  server : TunnelSide cfg.pair.server

/-- The ciphers have the key of the tunnel, and what opens under it for this session was sent by
the peer. -/
def TunnelAction.Unforged (key : Aead.Scheme) (id : UInt32) (sent : List Bytes) :
    TunnelAction → Prop
  | act _ sends => ∀ t ∈ sends, t.block.val.aead = key
  | arrive bytes block clock _ => block.val.aead = key ∧
      ∀ p, parseDatagram block.val clock bytes = .ok p → p.metadata.sessionID = id → bytes ∈ sent

namespace Tunnel

variable {cfg : TunnelConfig}

def start (now jitter jitter' : ℤ) : Tunnel cfg where
  client := { endpoint := { session := .attached now jitter } }
  server := { endpoint := { session := .attached now jitter' } }

def step (t : Tunnel cfg) : Side × TunnelAction → Option (Tunnel cfg × List (Side × Event))
  | (.client, a) => (t.client.step cfg.client a).map fun (x, evs) =>
    ({ t with client := x }, evs.map (Prod.mk .client))
  | (.server, a) => (t.server.step cfg.server a).map fun (x, evs) =>
    ({ t with server := x }, evs.map (Prod.mk .server))

def Unforged (t : Tunnel cfg) : Side × TunnelAction → Prop
  | (.client, a) => a.Unforged cfg.key cfg.pair.client.id t.server.datagrams
  | (.server, a) => a.Unforged cfg.key cfg.pair.server.id t.client.datagrams

def toPair (t : Tunnel cfg) : Pair cfg.pair := ⟨t.client.endpoint, t.server.endpoint⟩

end Tunnel

/-! ## Sending -/

def Reads (key : Aead.Scheme) (bytes : Bytes) (p : Packet) : Prop :=
  ∀ (receiver : StatelessCipher) (clock : ℕ) (q : Packet), receiver.val.aead = key →
    parseDatagram receiver.val clock bytes = .ok q → q = p

section Sending

variable {cfg : SessionConfig} {o : Outlet cfg} {key : Aead.Scheme}

theorem Outlet.transmit_ok {p : Packet} {t : Transmission} (hp : Produced cfg p)
    (halike : t.packet.Alike p) :
    ∃ q bytes, o.transmit p t = some (q, bytes) ∧ q.Alike p ∧
      Reads t.block.val.aead bytes q := by
  have hframable : Framable t.packet := halike.framable (hp.framable o.valid)
  have hfit := hp.fits o.packets.2 o.mtu_range.1
  rw [← halike.payloadLen_eq, ← o.mtu_eq] at hfit
  have hsmall : o.framing.mtu ≤ maxDatagramSize := by
    rw [o.mtu_eq]
    exact o.mtu_range.2
  obtain ⟨d, hd, hsound⟩ := buildDatagram_sound t.block.property o.packets.1 hsmall hframable hfit
    t.draws t.now
  refine ⟨⟨d.metadata, t.packet.payload⟩, d.bytes, ?_, ?_, ?_⟩
  · rw [Outlet.transmit, if_pos halike, hd]
  · exact ⟨hsound.content_eq.trans halike.1, halike.2⟩
  · intro receiver clock q hkey hq
    exact hsound.reads receiver.property hkey hq

theorem Outlet.alike_of_transmit {p : Packet} {t : Transmission} {out : Packet × Bytes}
    (h : o.transmit p t = some out) : t.packet.Alike p := by
  unfold Outlet.transmit at h
  split_ifs at h with halike
  exact halike

theorem Outlet.transmitAll_ok {ps : List Packet} {ts : List Transmission}
    (hps : ∀ p ∈ ps, Produced cfg p) (h : List.Forall₂ (fun t p => t.packet.Alike p) ts ps) :
    ∃ out, o.transmitAll ps ts = some out := by
  induction h with
  | nil => exact ⟨[], rfl⟩
  | @cons t p ts ps halike _ ih =>
    obtain ⟨q, bytes, hq, -⟩ := Outlet.transmit_ok (hps p List.mem_cons_self) halike
    obtain ⟨out, hout⟩ := ih fun p hp => hps p (List.mem_cons_of_mem _ hp)
    refine ⟨(q, bytes) :: out, ?_⟩
    rw [Outlet.transmitAll, hq, Option.bind_some, hout, Option.map_some]

theorem Outlet.transmitAll_reads {ps : List Packet} {ts : List Transmission}
    {out : List (Packet × Bytes)} (hps : ∀ p ∈ ps, Produced cfg p)
    (hts : ∀ t ∈ ts, t.block.val.aead = key) (h : o.transmitAll ps ts = some out) :
    AlikeWires (out.map Prod.fst) ps ∧ ∀ q ∈ out, Reads key q.2 q.1 := by
  induction ps generalizing ts out with
  | nil =>
    cases ts with
    | nil =>
      cases h
      exact ⟨.refl [], List.forall_mem_nil _⟩
    | cons t ts => cases h
  | cons p ps ih =>
    cases ts with
    | nil => cases h
    | cons t ts =>
      obtain ⟨first, hfirst, hrest⟩ := Option.bind_eq_some_iff.mp h
      obtain ⟨rest, hall, rfl⟩ := Option.map_eq_some_iff.mp hrest
      obtain ⟨q, bytes, hq, halike, hreads⟩ := Outlet.transmit_ok (o := o)
        (hps p List.mem_cons_self) (Outlet.alike_of_transmit hfirst)
      cases hfirst.symm.trans hq
      obtain ⟨hwires, hothers⟩ := ih (fun p hp => hps p (List.mem_cons_of_mem _ hp))
        (fun t ht => hts t (List.mem_cons_of_mem _ ht)) hall
      refine ⟨(AlikeWires.singleton halike).append hwires, ?_⟩
      intro x hx
      rcases List.mem_cons.mp hx with rfl | hx
      · exact hts t List.mem_cons_self ▸ hreads
      · exact hothers x hx

end Sending

/-! ## One step -/

/-- What one side hands to its underlay can be framed, and its datagrams mean what is on its
wire. -/
structure TunnelSide.Sound {cfg : SessionConfig} (key : Aead.Scheme) (x : TunnelSide cfg) :
    Prop where
  produced : x.endpoint.session.sendView.Produced cfg
  genuine : ∀ bytes ∈ x.datagrams, ∃ p ∈ x.endpoint.wire, Reads key bytes p

section Step

variable {cfg cfg' : SessionConfig} {o : Outlet cfg} {key : Aead.Scheme}
  {x x' : TunnelSide cfg} {peer : TunnelSide cfg'} {a : TunnelAction} {evs : List Event}

theorem Endpoint.step_mono {e e' : Endpoint cfg} {heard wire : List Packet} {a : Action}
    (hsub : heard ⊆ wire) (h : e.step heard a = some (e', evs)) :
    e.step wire a = some (e', evs) := by
  unfold Endpoint.step at h ⊢
  split at h
  · cases h
  · rename_i s evs' hs
    split_ifs at h with hheard
    cases h
    have hwire : evs.all (Event.isGenuine wire) = true := by
      rw [List.all_eq_true] at hheard ⊢
      intro ev hev
      have hgenuine := hheard ev hev
      cases ev with
      | received p => exact decide_eq_true (hsub (of_decide_eq_true hgenuine))
      | _ => rfl
    rw [if_pos hwire]

theorem sent_produced {e e' : Endpoint cfg} {heard : List Packet} {a : Action}
    (hx : e.session.sendView.Produced cfg) (h : e.step heard a = some (e', evs)) :
    e'.session.sendView.Produced cfg ∧ ∀ p ∈ evs.flatMap Event.sentPackets, Produced cfg p := by
  unfold Endpoint.step at h
  split at h
  · cases h
  · rename_i s evs' hs
    split_ifs at h
    cases h
    obtain ⟨hview, hout⟩ := hx.step (Session.step_effect hs).sends e.session.sendQueue.sorted
      e.session.sendBuf.sorted
    refine ⟨hview, ?_⟩
    intro p hp
    obtain ⟨ev, hev, hmem⟩ := List.mem_flatMap.mp hp
    cases ev with
    | output packet fate =>
      cases fate with
      | sent =>
        cases List.mem_singleton.mp hmem
        exact hout p .sent (List.mem_filter.mpr ⟨hev, rfl⟩)
      | _ => cases hmem
    | _ => cases hmem

/-- Either nothing happens, or the session takes a step with packets that the peer has sent. -/
inductive TunnelSide.Moves (o : Outlet cfg) (key : Aead.Scheme) (peerWire : List Packet)
    (x : TunnelSide cfg) : TunnelSide cfg → List Event → Prop
  | drop : Moves o key peerWire x x []
  | move {e : Endpoint cfg} {evs : List Event} {b : Action} {sends : List Transmission}
      {out : List (Packet × Bytes)} :
      x.endpoint.step peerWire b = some (e, evs) →
      o.transmitAll (evs.flatMap Event.sentPackets) sends = some out →
      (∀ t ∈ sends, t.block.val.aead = key) → Moves o key peerWire x (x.observe e out) evs

theorem carryOut_moves {heard wire : List Packet} {b : Action} {sends : List Transmission}
    (hsub : heard ⊆ wire) (hsends : ∀ t ∈ sends, t.block.val.aead = key)
    (h : x.carryOut o heard b sends = some (x', evs)) : x.Moves o key wire x' evs := by
  unfold TunnelSide.carryOut at h
  split at h
  · cases h
  · rename_i e evs' he
    obtain ⟨out, hout, heq⟩ := Option.map_eq_some_iff.mp h
    cases heq
    exact .move (Endpoint.step_mono hsub he) hout hsends

theorem step_moves (hpeer : peer.Sound key)
    (hfree : a.Unforged key cfg.id peer.datagrams) (h : x.step o a = some (x', evs)) :
    x.Moves o key peer.endpoint.wire x' evs := by
  cases a with
  | act b sends => exact carryOut_moves (List.nil_subset _) hfree h
  | arrive bytes block clock now =>
    simp only [TunnelSide.step] at h
    split at h
    · cases h
      exact .drop
    · rename_i p hp
      split_ifs at h with hid
      · -- the peer sent these bytes for the packet that is read
        obtain ⟨q, hq, hreads⟩ := hpeer.genuine bytes (hfree.2 p hp hid)
        have hpq : p = q := hreads block clock p hfree.1 hp
        refine carryOut_moves (List.cons_subset.mpr ⟨hpq ▸ hq, List.nil_subset _⟩) ?_ h
        intro t ht
        cases ht
      · cases h
        exact .drop

variable {peerWire : List Packet}

theorem TunnelSide.Moves.sound (h : x.Moves o key peerWire x' evs) (hx : x.Sound key) :
    x'.Sound key := by
  cases h with
  | drop => exact hx
  | @move e evs b sends out he hout hsends =>
    obtain ⟨hview, hps⟩ := sent_produced hx.produced he
    have hreads := Outlet.transmitAll_reads hps hsends hout
    refine ⟨hview, ?_⟩
    intro bytes hbytes
    rcases List.mem_append.mp hbytes with hold | hnew
    · obtain ⟨p, hp, hpbytes⟩ := hx.genuine bytes hold
      exact ⟨p, List.mem_append_left _ hp, hpbytes⟩
    · obtain ⟨q, hq, rfl⟩ := List.mem_map.mp hnew
      exact ⟨q.1, List.mem_append_right _ (List.mem_map_of_mem hq), hreads.2 q hq⟩

theorem TunnelSide.Moves.calm (h : x.Moves o key peer.endpoint.wire x' evs)
    (hcalm : x'.endpoint.session.closePc = .idle ∧ x'.endpoint.created.length < 2 ^ 32) :
    x.endpoint.session.closePc = .idle ∧ x.endpoint.created.length < 2 ^ 32 := by
  cases h with
  | drop => exact hcalm
  | move he => exact Pair.endpoint_calm he hcalm

theorem channel_rewire {e : Endpoint cfg} {wire : List Packet} (h : AlikeWires wire e.wire)
    (other : Endpoint cfg') :
    channel { e with wire := wire } other = channel e other ∧
      channel other { e with wire := wire } = channel other e := by
  simp only [channel, channelOf, h.carriedBy_eq, h.acknowledgedBy_eq, and_self]

theorem TunnelSide.Moves.good (h : x.Moves o key peer.endpoint.wire x' evs) (hx : x.Sound key)
    (hcalm : x'.endpoint.session.closePc = .idle ∧ x'.endpoint.created.length < 2 ^ 32)
    (hpeer : peer.endpoint.created.length < 2 ^ 32) (hc : x.endpoint.Consistent)
    (hout : Link x.endpoint peer.endpoint) (hin : Link peer.endpoint x.endpoint) :
    x'.endpoint.Consistent ∧ Link x'.endpoint peer.endpoint ∧
      Link peer.endpoint x'.endpoint := by
  cases h with
  | drop => exact ⟨hc, hout, hin⟩
  | @move e evs b sends out he htransmit hsends =>
    obtain ⟨hc', hout', hin'⟩ := good_step o.packets.2 he hcalm.1 hcalm.2 hpeer hc hout hin
    have hreads := Outlet.transmitAll_reads (sent_produced hx.produced he).2 hsends htransmit
    have hwire : e.wire = x.endpoint.wire ++ evs.flatMap Event.sentPackets := by
      obtain ⟨s, -, rfl, -⟩ := endpoint_step he
      rfl
    have halike : AlikeWires (x.endpoint.wire ++ out.map Prod.fst) e.wire :=
      hwire ▸ (AlikeWires.refl _).append hreads.1
    obtain ⟨hforth, hback⟩ := channel_rewire halike peer.endpoint
    refine ⟨⟨hc'.created, hc'.moved, hc'.accepted, hc'.reading, hc'.room⟩, ⟨?_, ?_, ?_⟩,
      ⟨?_, hin'.hand, hin'.recvBuf⟩⟩
    · exact hforth ▸ hout'.reliable
    · intro seg hseg
      exact List.mem_append_left _ (hout.hand seg hseg)
    · intro seg hseg
      obtain ⟨hmem, hdata⟩ := hout.recvBuf seg hseg
      exact ⟨List.mem_append_left _ hmem, hdata⟩
    · exact hback ▸ hin'.reliable

theorem TunnelSide.Sound.act_ok (hx : x.Sound key) {b : Action} {e : Endpoint cfg}
    (h : x.endpoint.step [] b = some (e, evs)) {sends : List Transmission}
    (hsends : List.Forall₂ (fun t p => t.packet.Alike p) sends
      (evs.flatMap Event.sentPackets)) :
    ∃ x', x.step o (.act b sends) = some (x', evs) := by
  obtain ⟨out, hout⟩ := Outlet.transmitAll_ok (o := o) (sent_produced hx.produced h).2 hsends
  refine ⟨x.observe e out, ?_⟩
  simp only [TunnelSide.step, TunnelSide.carryOut, h, hout, Option.map_some]

end Step

/-! ## Runs -/

namespace Tunnel

variable {cfg : TunnelConfig} {t t' : Tunnel cfg}

structure Sound (t : Tunnel cfg) : Prop where
  client : t.client.Sound cfg.key
  server : t.server.Sound cfg.key
  calm_good : t.toPair.Calm → t.toPair.Good

theorem sound_start (now jitter jitter' : ℤ) : (start now jitter jitter' : Tunnel cfg).Sound := by
  have hside (c : SessionConfig) (jitter : ℤ) :
      ({ endpoint := { session := .attached now jitter } } : TunnelSide c).Sound cfg.key := by
    exact ⟨⟨List.forall_mem_nil _, List.forall_mem_nil _⟩, List.forall_mem_nil _⟩
  exact ⟨hside _ _, hside _ _, fun _ => Pair.good_start now jitter jitter'⟩

theorem Sound.step {e : Side × TunnelAction} {out : List (Side × Event)} (ht : t.Sound)
    (hfree : t.Unforged e) (h : t.step e = some (t', out)) : t'.Sound := by
  obtain ⟨side, a⟩ := e
  cases side with
  | client =>
    obtain ⟨⟨x, evs⟩, hx, heq⟩ := Option.map_eq_some_iff.mp h
    cases heq
    have hmoves := step_moves ht.server hfree hx
    refine ⟨hmoves.sound ht.client, ht.server, ?_⟩
    intro hcalm
    have hgood := ht.calm_good ⟨hmoves.calm hcalm.client, hcalm.server⟩
    obtain ⟨hc, hup, hdown⟩ := hmoves.good ht.client hcalm.client hcalm.server.2 hgood.client
      hgood.up hgood.down
    exact ⟨hc, hgood.server, hup, hdown⟩
  | server =>
    obtain ⟨⟨x, evs⟩, hx, heq⟩ := Option.map_eq_some_iff.mp h
    cases heq
    have hmoves := step_moves ht.client hfree hx
    refine ⟨ht.client, hmoves.sound ht.server, ?_⟩
    intro hcalm
    have hgood := ht.calm_good ⟨hcalm.client, hmoves.calm hcalm.server⟩
    obtain ⟨hc, hdown, hup⟩ := hmoves.good ht.server hcalm.server hcalm.client.2 hgood.server
      hgood.down hgood.up
    exact ⟨hgood.client, hc, hup, hdown⟩

theorem sound_of_reaches {now jitter jitter' : ℤ} {es : List (Side × TunnelAction)}
    {outs : List (Side × Event)}
    (h : Machine.Reaches step Unforged (start now jitter jitter' : Tunnel cfg) es outs t) :
    t.Sound :=
  h.invariant (I := fun t _ => t.Sound) (sound_start now jitter jitter')
    fun _ _ _ _ _ ht hfree hs => ht.step hfree hs

/-- Over any network that does not forge datagrams, each side reads a prefix of what the other
wrote and keeps what the other has not taken over, and no packet is ever refused by framing. -/
theorem tunnel_delivers {now jitter jitter' : ℤ} {es : List (Side × TunnelAction)}
    {outs : List (Side × Event)}
    (h : Machine.Reaches step Unforged (start now jitter jitter' : Tunnel cfg) es outs t) :
    (t.client.endpoint.created.length < 2 ^ 32 → t.server.endpoint.created.length < 2 ^ 32 →
      t.client.endpoint.session.closeRequested = false →
      t.server.endpoint.session.closeRequested = false →
      Delivers t.client.endpoint t.server.endpoint ∧
        Delivers t.server.endpoint t.client.endpoint) ∧
    (∀ b e evs sends, t.client.endpoint.step [] b = some (e, evs) →
      List.Forall₂ (fun s p => s.packet.Alike p) sends (evs.flatMap Event.sentPackets) →
      ∃ x, t.client.step cfg.client (.act b sends) = some (x, evs)) ∧
    ∀ b e evs sends, t.server.endpoint.step [] b = some (e, evs) →
      List.Forall₂ (fun s p => s.packet.Alike p) sends (evs.flatMap Event.sentPackets) →
      ∃ x, t.server.step cfg.server (.act b sends) = some (x, evs) := by
  have ht := sound_of_reaches h
  refine ⟨?_, ?_, ?_⟩
  · intro hclient hserver hopen hopen'
    have hgood := ht.calm_good
      ⟨⟨Session.closeRequested_eq_false_iff.mp hopen, hclient⟩,
        ⟨Session.closeRequested_eq_false_iff.mp hopen', hserver⟩⟩
    exact ⟨hgood.up.delivers hgood.client hgood.server hclient,
      hgood.down.delivers hgood.server hgood.client hserver⟩
  · intro b e evs sends hstep hsends
    exact ht.client.act_ok hstep hsends
  · intro b e evs sends hstep hsends
    exact ht.server.act_ok hstep hsends

open PacketUnderlay (zeroDraws zeroKeyCipher)

theorem plainMTU_range : (1280 : ℤ) ≤ 1400 ∧ (1400 : ℤ) ≤ 1500 := by decide

def plainOutlet (isClient : Bool) : Outlet (packetConfig isClient) where
  framing := ⟨1400, .packetTransport, none, ⟨fun _ => 0, "host"⟩⟩
  mtu_eq := rfl
  mtu_range := plainMTU_range
  packets := ⟨rfl, rfl⟩
  valid := rfl

def plainTunnel : TunnelConfig where
  pair := Pair.plainConfig
  key := zeroKeyCipher.val.aead
  client := plainOutlet true
  server := plainOutlet false

def openDatagram : Bytes :=
  match buildDatagram (plainOutlet true).framing zeroKeyCipher.val Pair.openPacket
    zeroDraws 60000 with
  | .ok d => d.bytes
  | .error _ => []

/-- The open request arrives twice, the second copy a minute late and after the server has read
from the first, and three bytes of somebody else arrive as well. -/
def duplicateRun : List (Side × TunnelAction) := [
  (.client, .act (.write [1, 2, 3]) []), (.client, .act .writeOpen []),
  (.client, .act .writeRequest []),
  (.client, .act (.outputWake .notEmpty) []), (.client, .act (.outputStart 0) []),
  (.client, .act (.sendCheck 16) []), (.client, .act .outputLock []),
  (.client, .act (.sendNext 16 0 1000 .sent)
    [⟨Pair.openPacket, zeroKeyCipher, zeroDraws, 60000⟩]),
  (.server, .arrive [1, 2, 3] zeroKeyCipher 60010 0),
  (.server, .arrive openDatagram zeroKeyCipher 60010 0), (.server, .act (.requestAck 0) []),
  (.server, .act .accept []), (.server, .act .waitSpace []), (.server, .act .moveNext []),
  (.server, .act .moveNext []), (.server, .act (.requestAckAgain 0) []),
  (.server, .act (.respond true) []), (.server, .act .finishInput []),
  (.server, .act (.read 2) []), (.server, .act .readLoop []), (.server, .act .readReturn []),
  (.server, .arrive openDatagram zeroKeyCipher 60070 0), (.server, .act (.requestAck 0) []),
  (.server, .act .accept [])]

/-- Only what the client has sent, or is too short to be a datagram, arrives. -/
def heardBefore (t : Tunnel plainTunnel) : Side × TunnelAction → Bool
  | (.server, .arrive bytes ..) => bytes ∈ t.client.datagrams ∨ bytes.length < 72
  | (.client, .arrive ..) => false
  | (_, .act ..) => true

theorem unforged_of_heardBefore {e : Side × TunnelAction} (he : e ∈ duplicateRun)
    (t : Tunnel plainTunnel) (h : heardBefore t e = true) : t.Unforged e := by
  have hkey : ∀ e ∈ duplicateRun, match e.2 with
      | .act _ sends => ∀ s ∈ sends, s.block.val.aead = plainTunnel.key
      | .arrive _ block _ _ => block.val.aead = plainTunnel.key := by
    simp [duplicateRun, plainTunnel]
  have hmine := hkey e he
  obtain ⟨side, a⟩ := e
  cases a with
  | act b sends =>
    cases side with
    | client => exact hmine
    | server => exact hmine
  | arrive bytes block clock now =>
    cases side with
    | client => cases h
    | server =>
      refine ⟨hmine, ?_⟩
      intro p hp _
      rcases of_decide_eq_true h with hmem | hshort
      · exact hmem
      · unfold parseDatagram at hp
        obtain ⟨hlong, -⟩ := ensure_bind_eq_ok.mp hp
        rw [List.length_take] at hlong
        exact absurd (hlong.trans (Nat.min_le_right _ _)) (Nat.not_le.mpr hshort)

theorem duplicate_datagram_delivers :
    ∃ (t : Tunnel plainTunnel) (outs : List (Side × Event)),
      Machine.Reaches step Unforged (start 0 0 0) duplicateRun outs t ∧
      t.client.endpoint.accepted = [1, 2, 3] ∧ t.server.endpoint.returned = [1, 2] ∧
      Delivers t.client.endpoint t.server.endpoint ∧
        Delivers t.server.endpoint t.client.endpoint := by
  have hsummary : (Machine.run (Machine.guarded heardBefore step)
      (start 0 0 0 : Tunnel plainTunnel) duplicateRun).map (fun r =>
        (r.1.client.endpoint.accepted, r.1.server.endpoint.returned,
          r.1.client.endpoint.created.length, r.1.server.endpoint.created.length,
          r.1.client.endpoint.session.closeRequested,
          r.1.server.endpoint.session.closeRequested)) =
      some ([1, 2, 3], [1, 2], 1, 1, false, false) := by
    decide +kernel
  obtain ⟨⟨t, outs⟩, hrun, heq⟩ := Option.map_eq_some_iff.mp hsummary
  simp only [Prod.mk.injEq] at heq
  obtain ⟨haccepted, hreturned, hclient, hserver, hopen, hopen'⟩ := heq
  have hreach := (Machine.reaches_of_guarded_run hrun).mono_of_mem
    fun e he t => unforged_of_heardBefore he t
  obtain ⟨hdelivers, -⟩ := tunnel_delivers hreach
  exact ⟨t, outs, hreach, haccepted, hreturned,
    hdelivers (by omega) (by omega) hopen hopen'⟩

end Tunnel

end Mieru.Protocol
