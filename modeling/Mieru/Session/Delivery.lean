import Mieru.Session.Channel

/-! # Delivery between two sessions -/
namespace Mieru.Protocol

open OrderedTree ReliableDelivery Channel

/-! ## The books of one endpoint -/

/-- The `n`-th segment has number `n`, and `next` is the number of the next one. -/
def Numbered (next : UInt32) (segs : List Segment) : Prop :=
  next = UInt32.ofNat segs.length ∧ ∀ n seg, segs[n]? = some seg → seg.seq = UInt32.ofNat n

theorem Numbered.snoc {next : UInt32} {segs : List Segment} {seg : Segment}
    (h : Numbered next segs) (hseq : seg.seq = next) : Numbered (next + 1) (segs ++ [seg]) := by
  constructor
  · rw [h.1, List.length_append, List.length_singleton, UInt32.ofNat_add]
    rfl
  · intro n x hx
    rcases Nat.lt_or_ge n segs.length with hlt | hge
    · rw [List.getElem?_append_left hlt] at hx
      exact h.2 n x hx
    · rw [List.getElem?_append_right hge, List.getElem?_singleton] at hx
      split_ifs at hx with hn
      cases hx
      rw [hseq, h.1, Nat.le_antisymm (Nat.sub_eq_zero_iff_le.mp hn) hge]

theorem Numbered.toNat {next : UInt32} {segs : List Segment} (h : Numbered next segs)
    (hlt : segs.length < 2 ^ 32) : next.toNat = segs.length := by
  rw [h.1]
  exact UInt32.toNat_ofNat_of_lt' hlt

/-- `Read` has returned, is about to return or will find in `recvQueue` exactly what was
moved there. -/
structure Reading (v : RecvView) (moved : List Segment) (returned : Bytes) : Prop where
  bytes : returned ++ (v.unread ++ v.recvQueue.flatMap (·.payload)) = moved.flatMap (·.payload)
  below : ∀ seg ∈ v.recvQueue, seg.key < moved.length

section Books

variable {cfg : SessionConfig} {evs : List Event}

theorem SendEffect.numbered {nextRecv : UInt32} {hand : Option Segment} {pc pc' : ClosePc}
    {a : Action} {v v' : SendView} {created : List Segment}
    (heff : SendEffect cfg nextRecv hand pc pc' a v v' evs) (h : Numbered v.nextSend created) :
    Numbered v'.nextSend (created ++ evs.flatMap Event.createdSegments) := by
  cases heff with
  | create hseq => exact h.snoc hseq
  | lose hseq => exact h.snoc hseq
  | reply _ _ hseq => exact h.snoc hseq
  | _ => simpa [Event.createdSegments] using h

theorem SendEffect.accepted {nextRecv : UInt32} {hand : Option Segment} {pc pc' : ClosePc}
    {a : Action} {v v' : SendView} {created : List Segment} {accepted : Bytes}
    (heff : SendEffect cfg nextRecv hand pc pc' a v v' evs)
    (hqueued : ∀ seg, Event.created seg false ∉ evs)
    (h : accepted = created.flatMap (·.payload)) :
    accepted ++ evs.flatMap Event.acceptedBytes =
      (created ++ evs.flatMap Event.createdSegments).flatMap (·.payload) := by
  cases heff with
  | create => simp [h, Event.acceptedBytes, Event.createdSegments]
  | lose => exact absurd List.mem_cons_self (hqueued _)
  | reply => exact absurd List.mem_cons_self (hqueued _)
  | _ => simpa [Event.acceptedBytes, Event.createdSegments] using h

variable {v v' : RecvView} {moved : List Segment} {returned : Bytes}

theorem RecvEffect.numbered (heff : RecvEffect cfg v v' evs)
    (hpacket : cfg.transportProtocol = .packetTransport) (h : Numbered v.nextRecv moved) :
    Numbered v'.nextRecv (moved ++ evs.flatMap Event.movedSegments) := by
  cases heff with
  | move _ hseq => exact h.snoc hseq
  | deliver hstream => rw [hpacket] at hstream; cases hstream
  | _ => simpa [Event.movedSegments] using h

theorem RecvEffect.reading (heff : RecvEffect cfg v v' evs)
    (hpacket : cfg.transportProtocol = .packetTransport)
    (hnext : v.nextRecv.toNat = moved.length) (h : Reading v moved returned) :
    Reading v' (moved ++ evs.flatMap Event.movedSegments)
      (returned ++ evs.flatMap Event.returnedBytes) := by
  have hbytes := h.bytes
  cases heff with
  | @move seg rest hb hseq =>
    have hkey : seg.key = moved.length := (congrArg UInt32.toNat hseq).trans hnext
    have hplace : place Segment.key seg v.recvQueue = v.recvQueue ++ [seg] :=
      place_of_forall_lt fun x hx => hkey ▸ h.below x hx
    constructor
    · simp only [hplace, List.flatMap_singleton, Event.movedSegments, Event.returnedBytes,
        List.flatMap_append, List.append_nil, ← hbytes, List.append_assoc]
    · intro x hx
      simp only [hplace, List.mem_append, List.mem_singleton] at hx
      simp only [List.flatMap_singleton, Event.movedSegments, List.length_append,
        List.length_singleton]
      rcases hx with hx | rfl
      · exact Nat.lt_succ_of_lt (h.below x hx)
      · omega
  | deliver hstream => rw [hpacket] at hstream; cases hstream
  | @fetch seg rest hq =>
    constructor
    · simpa [hq] using hbytes
    · intro x hx
      simpa using h.below x (hq ▸ List.mem_cons_of_mem _ hx)
  | @handOut bytes rest hunread =>
    constructor
    · simpa [hunread, Event.movedSegments, Event.returnedBytes] using hbytes
    · simpa [Event.movedSegments] using h.below
  | quiet => exact ⟨by simpa using hbytes, by simpa using h.below⟩
  | take => exact ⟨by simpa [Event.movedSegments, Event.returnedBytes] using hbytes,
      by simpa [Event.movedSegments] using h.below⟩
  | ignore => exact ⟨by simpa [Event.movedSegments, Event.returnedBytes] using hbytes,
      by simpa [Event.movedSegments] using h.below⟩
  | drop => exact ⟨by simpa using hbytes, by simpa using h.below⟩
  | buffer => exact ⟨by simpa using hbytes, by simpa using h.below⟩
  | discard => exact ⟨by simpa using hbytes, by simpa using h.below⟩

end Books

/-! ## Two endpoints -/

def channel {cfg cfg' : SessionConfig} (e : Endpoint cfg) (peer : Endpoint cfg') : Channel Bytes :=
  channelOf e.created (e.session.sendQueue.items ++ e.session.sendBuf.items) e.wire peer.moved
    peer.wire

structure Endpoint.Consistent {cfg : SessionConfig} (e : Endpoint cfg) : Prop where
  created : Numbered e.session.nextSend e.created
  moved : Numbered e.session.nextRecv e.moved
  accepted : e.accepted = e.created.flatMap (·.payload)
  reading : Reading e.session.recvView e.moved e.returned
  room : e.session.roomView.Fits cfg

/-- What holds of the direction from `e` to `peer`. -/
structure Link {cfg cfg' : SessionConfig} (e : Endpoint cfg) (peer : Endpoint cfg') : Prop where
  reliable : (channel e peer).Invariant
  hand : ∀ seg, peer.session.inputPc.segment = some seg → seg.toPacket ∈ e.wire
  recvBuf : ∀ seg ∈ peer.session.recvBuf.items,
    seg.toPacket ∈ e.wire ∧ isAckProtocol seg.protocol = false

theorem Link.moved_le {cfg cfg' : SessionConfig} {e : Endpoint cfg} {peer : Endpoint cfg'}
    (h : Link e peer) : peer.moved.length ≤ e.created.length := by
  simpa [channel, channelOf] using h.reliable.delivered_prefix.length_le

section Step

variable {cfg cfg' : SessionConfig} {e e' : Endpoint cfg} {peer : Endpoint cfg'} {a : Action}
  {evs : List Event}

theorem endpoint_step (h : e.step peer.wire a = some (e', evs)) :
    ∃ s, e.session.step a = some (s, evs) ∧ e' = e.observe s evs ∧
      ∀ p, Event.received p ∈ evs → p ∈ peer.wire := by
  unfold Endpoint.step at h
  split at h
  · cases h
  · rename_i s evs' hs
    split_ifs at h with hgenuine
    cases h
    refine ⟨s, hs, rfl, ?_⟩
    intro p hp
    simpa [Event.isGenuine] using List.all_eq_true.mp hgenuine _ hp

theorem RoomView.Fits.sends {s s' : Session cfg} (h : s.roomView.Fits cfg)
    (heff : Effect a s s' evs) (hidle : s'.closePc = .idle) :
    s'.roomView.Fits cfg ∧
      SendEffect cfg s.nextRecv s.inputPc.segment .idle .idle a s.sendView s'.sendView
        (evs.filter Event.isSend) ∧
      ∀ seg, Event.created seg false ∉ evs.filter Event.isSend := by
  have hsend := heff.sends
  rw [heff.closes.idle hidle, hidle] at hsend
  obtain ⟨hroom, hkept⟩ := h.step hidle heff.rooms
  refine ⟨hroom, hsend, ?_⟩
  intro seg hseg
  exact hkept seg (List.mem_filter.mpr ⟨(List.mem_filter.mp hseg).1, rfl⟩)

theorem good_step (hpacket : cfg.transportProtocol = .packetTransport)
    (h : e.step peer.wire a = some (e', evs)) (hidle : e'.session.closePc = .idle)
    (hbound : e'.created.length < 2 ^ 32) (hpeer : peer.created.length < 2 ^ 32)
    (he : e.Consistent) (hout : Link e peer) (hin : Link peer e) :
    e'.Consistent ∧ Link e' peer ∧ Link peer e' := by
  obtain ⟨s, hs, rfl, hgenuine⟩ := endpoint_step h
  have heff := Session.step_effect hs
  obtain ⟨hroom, hsend, hqueued⟩ := he.room.sends heff hidle
  have hlen : e.created.length < 2 ^ 32 := by
    simp only [Endpoint.observe, List.length_append] at hbound
    omega
  have hmoved : e.moved.length < 2 ^ 32 := Nat.lt_of_le_of_lt hin.moved_le hpeer
  have hnext : e.session.nextRecv.toNat = e.moved.length := he.moved.toNat hmoved
  have hrecv : ∀ p, Event.received p ∈ evs.filter Event.isRecv → p ∈ peer.wire := by
    intro p hp
    exact hgenuine p (List.mem_filter.mp hp).1
  -- the direction this endpoint sends in
  have hforth := hsend.simulates hpacket hqueued e.session.sendQueue.sorted
    e.session.sendBuf.sorted (he.created.toNat hlen) hin.hand hout.reliable
  rw [createdSegments_sends, sentPackets_sends] at hforth
  -- and the one it receives from: first it acknowledges, then it takes over
  have hack := acknowledge_steps peer.created
    (peer.session.sendQueue.items ++ peer.session.sendBuf.items) peer.wire e.wire
    (Nat.le_of_eq hnext) (hsend.sent_unAckSeq hpacket)
  rw [sentPackets_sends] at hack
  have hback := hack.trans (heff.recvs.delivers hpacket hin.recvBuf hnext)
  rw [movedSegments_recvs] at hback
  obtain ⟨hhand, hbuf⟩ := heff.recvs.genuine hrecv hin.hand hin.recvBuf e.session.recvBuf.sorted
  refine ⟨⟨?_, ?_, ?_, ?_, hroom⟩, ⟨hout.reliable.steps hforth, ?_, ?_⟩,
    ⟨hin.reliable.steps hback, hhand, hbuf⟩⟩
  · have := hsend.numbered he.created
    rwa [createdSegments_sends] at this
  · have := heff.recvs.numbered hpacket he.moved
    rwa [movedSegments_recvs] at this
  · have := hsend.accepted hqueued he.accepted
    rwa [acceptedBytes_sends, createdSegments_sends] at this
  · have := heff.recvs.reading hpacket hnext he.reading
    rwa [movedSegments_recvs, returnedBytes_recvs] at this
  · intro seg hseg
    exact List.mem_append_left _ (hout.hand seg hseg)
  · intro seg hseg
    obtain ⟨hwire, hdata⟩ := hout.recvBuf seg hseg
    exact ⟨List.mem_append_left _ hwire, hdata⟩

end Step

/-! ## Runs -/

/-- The peer's reads are what was written, as far as they got, and nothing the peer has
not moved to its `recvQueue` is given up. -/
structure Delivers {cfg cfg' : SessionConfig} (e : Endpoint cfg) (peer : Endpoint cfg') :
    Prop where
  reads : peer.returned <+: e.accepted
  retains : ∀ seg ∈ e.created, (∀ m ∈ peer.moved, m.seq ≠ seg.seq) →
    ∃ held ∈ e.session.sendQueue.items ++ e.session.sendBuf.items,
      held.seq = seg.seq ∧ held.payload = seg.payload

theorem Link.delivers {cfg cfg' : SessionConfig} {e : Endpoint cfg} {peer : Endpoint cfg'}
    (h : Link e peer) (he : e.Consistent) (hpeer : peer.Consistent)
    (hbound : e.created.length < 2 ^ 32) : Delivers e peer := by
  constructor
  · obtain ⟨rest, hrest⟩ := h.reliable.delivered_prefix
    simp only [channel, channelOf] at hrest
    have hreturned : peer.returned <+: peer.moved.flatMap (·.payload) := ⟨_, hpeer.reading.bytes⟩
    have hmoved : peer.moved.flatMap (·.payload) <+: e.created.flatMap (·.payload) := by
      refine ⟨rest.flatten, ?_⟩
      rw [List.flatMap_def, List.flatMap_def, ← hrest, List.flatten_append]
    rw [he.accepted]
    exact hreturned.trans hmoved
  · intro seg hseg hunmoved
    obtain ⟨n, hn, rfl⟩ := List.mem_iff_getElem.mp hseg
    have hget := List.getElem?_eq_getElem hn
    have hseq := he.created.2 n _ hget
    have hle : peer.moved.length ≤ n := by
      by_contra hlt
      have hm := List.getElem?_eq_getElem (Nat.lt_of_not_le hlt)
      exact hunmoved _ (List.mem_of_getElem? hm) ((hpeer.moved.2 n _ hm).trans hseq.symm)
    obtain ⟨held, hmem, heq⟩ := h.reliable.undelivered_held n (e.created[n]).payload
      (by simp [channel, channelOf, hget]) (by simpa [channel, channelOf] using hle)
    obtain ⟨hkey, hpayload⟩ := Prod.ext_iff.mp heq
    refine ⟨held, hmem, ?_, hpayload⟩
    rw [hseq]
    apply UInt32.toNat_inj.mp
    rw [UInt32.toNat_ofNat_of_lt' (Nat.lt_trans hn hbound)]
    exact hkey

namespace Pair

variable {cfg : PairConfig} {p p' : Pair cfg}

structure Good (p : Pair cfg) : Prop where
  client : p.client.Consistent
  server : p.server.Consistent
  up : Link p.client p.server
  down : Link p.server p.client

/-- Nobody closes, and the sequence numbers have not wrapped around. -/
structure Calm (p : Pair cfg) : Prop where
  client : p.client.session.closePc = .idle ∧ p.client.created.length < 2 ^ 32
  server : p.server.session.closePc = .idle ∧ p.server.created.length < 2 ^ 32

theorem endpoint_calm {cfg cfg' : SessionConfig} {e e' : Endpoint cfg} {peer : Endpoint cfg'}
    {a : Action} {evs : List Event} (h : e.step peer.wire a = some (e', evs))
    (hcalm : e'.session.closePc = .idle ∧ e'.created.length < 2 ^ 32) :
    e.session.closePc = .idle ∧ e.created.length < 2 ^ 32 := by
  obtain ⟨s, hs, rfl, -⟩ := endpoint_step h
  refine ⟨(Session.step_effect hs).closes.idle hcalm.1, ?_⟩
  have := hcalm.2
  simp only [Endpoint.observe, List.length_append] at this
  omega

theorem calm_good_step {e : Side × Action} {out : List (Side × Event)}
    (h : p.step e = some (p', out)) (hcalm : p'.Calm) : p.Calm ∧ (p.Good → p'.Good) := by
  obtain ⟨side, a⟩ := e
  cases side with
  | client =>
    obtain ⟨⟨e', evs⟩, he, heq⟩ := Option.map_eq_some_iff.mp h
    cases heq
    refine ⟨⟨endpoint_calm he hcalm.client, hcalm.server⟩, ?_⟩
    intro hgood
    obtain ⟨hc, hup, hdown⟩ := good_step cfg.packets.1 he hcalm.client.1 hcalm.client.2
      hcalm.server.2 hgood.client hgood.up hgood.down
    exact ⟨hc, hgood.server, hup, hdown⟩
  | server =>
    obtain ⟨⟨e', evs⟩, he, heq⟩ := Option.map_eq_some_iff.mp h
    cases heq
    refine ⟨⟨hcalm.client, endpoint_calm he hcalm.server⟩, ?_⟩
    intro hgood
    obtain ⟨hs, hdown, hup⟩ := good_step cfg.packets.2 he hcalm.server.1 hcalm.server.2
      hcalm.client.2 hgood.server hgood.down hgood.up
    exact ⟨hgood.client, hs, hup, hdown⟩

theorem consistent_attached (cfg : SessionConfig) (now jitter : ℤ) :
    ({ session := .attached now jitter } : Endpoint cfg).Consistent where
  created := ⟨rfl, by simp⟩
  moved := ⟨rfl, by simp⟩
  accepted := rfl
  reading := ⟨rfl, by simp [Session.recvView, Session.attached, SegmentTree.items]⟩
  room := ⟨by
      change 0 + 0 + _ ≤ 1024
      split_ifs <;> omega, fun _ _ _ => ⟨rfl, rfl, rfl⟩, Bool.false_ne_true.elim⟩

theorem link_attached (cfg cfg' : SessionConfig) (now jitter jitter' : ℤ) :
    Link ({ session := .attached now jitter } : Endpoint cfg)
      ({ session := .attached now jitter' } : Endpoint cfg') where
  reliable := by
    refine ⟨?_, ?_, List.nil_prefix, ?_, ?_⟩
    · rintro m ⟨seg, hseg, -⟩
      cases hseg
    · rintro m ⟨p, hp, -⟩
      cases hp
    · rintro n ⟨p, hp, -⟩
      cases hp
    · intro n m hlog
      cases hlog
  hand := by
    intro seg hseg
    cases hseg
  recvBuf := by
    intro seg hseg
    cases hseg

theorem good_start (now jitter jitter' : ℤ) : (start now jitter jitter' : Pair cfg).Good where
  client := consistent_attached _ _ _
  server := consistent_attached _ _ _
  up := link_attached _ _ _ _ _
  down := link_attached _ _ _ _ _

/-- In every interleaving of the two sessions and the network, as long as nobody closes and
numbers do not wrap around, each side reads a prefix of what the other wrote, and each
keeps what the other has not yet taken over. -/
theorem packet_sessions_deliver {now jitter jitter' : ℤ} {es : List (Side × Action)}
    {outs : List (Side × Event)}
    (h : Machine.Reaches step Machine.Free (start now jitter jitter' : Pair cfg) es outs p)
    (hclient : p.client.created.length < 2 ^ 32) (hserver : p.server.created.length < 2 ^ 32)
    (hopen : p.client.session.closeRequested = false)
    (hopen' : p.server.session.closeRequested = false) :
    Delivers p.client p.server ∧ Delivers p.server p.client := by
  have hcalm : p.Calm :=
    ⟨⟨Session.closeRequested_eq_false_iff.mp hopen, hclient⟩,
      ⟨Session.closeRequested_eq_false_iff.mp hopen', hserver⟩⟩
  have hgood : p.Calm → p.Good :=
    h.invariant (I := fun p _ => p.Calm → p.Good) (fun _ => good_start _ _ _) fun p _ e p' out ih
      _ hs hcalm' => (calm_good_step hs hcalm').2 (ih (calm_good_step hs hcalm').1)
  have hp := hgood hcalm
  exact ⟨hp.up.delivers hp.client hp.server hclient, hp.down.delivers hp.server hp.client hserver⟩

def plainConfig : PairConfig where
  client := packetConfig true
  server := packetConfig false
  roles := ⟨rfl, rfl⟩
  sameID := rfl
  packets := ⟨rfl, rfl⟩

def openPacket : Packet := (Session.openRequestSegment plainConfig.client 0 [1, 2, 3]).toPacket

def openRun : List (Side × Action) := [
  (.client, .write [1, 2, 3]), (.client, .writeOpen), (.client, .writeRequest),
  (.client, .outputWake .notEmpty), (.client, .outputStart 0), (.client, .sendCheck 16),
  (.client, .outputLock), (.client, .sendNext 16 0 1000 .sent),
  (.server, .receive openPacket 0), (.server, .requestAck 0), (.server, .accept),
  (.server, .waitSpace), (.server, .moveNext), (.server, .moveNext),
  (.server, .requestAckAgain 0), (.server, .respond true), (.server, .finishInput)]

/-- The client writes; its packet arrives twice, and the server reads between the copies. -/
def duplicateRun : List (Side × Action) := openRun ++ [
  (.server, .read 2), (.server, .readLoop), (.server, .readReturn),
  (.server, .receive openPacket 0), (.server, .requestAck 0), (.server, .accept)]

theorem duplicate_run_delivers :
    ∃ (p : Pair plainConfig) (outs : List (Side × Event)),
      Machine.Reaches step Machine.Free (start 0 0 0) duplicateRun outs p ∧
      p.client.accepted = [1, 2, 3] ∧ p.server.returned = [1, 2] ∧
      Delivers p.client p.server ∧ Delivers p.server p.client := by
  have hsummary : (Machine.run step (start 0 0 0 : Pair plainConfig) duplicateRun).map (fun r =>
      (r.1.client.accepted, r.1.server.returned, r.1.client.created.length,
        r.1.server.created.length, r.1.client.session.closeRequested,
        r.1.server.session.closeRequested)) = some ([1, 2, 3], [1, 2], 1, 1, false, false) := by
    rfl
  obtain ⟨⟨p, outs⟩, hrun, heq⟩ := Option.map_eq_some_iff.mp hsummary
  simp only [Prod.mk.injEq] at heq
  obtain ⟨haccepted, hreturned, hclient, hserver, hopen, hopen'⟩ := heq
  have hreach := Machine.reaches_of_run hrun
  exact ⟨p, outs, hreach, haccepted, hreturned,
    packet_sessions_deliver hreach (by omega) (by omega) hopen hopen'⟩

end Pair

end Mieru.Protocol
