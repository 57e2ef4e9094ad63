import Mieru.Lib.ReliableDelivery
import Mieru.Session.Pair

/-! # A direction between two sessions as a channel

Each direction of a pair of packet sessions is a reliable channel: the sender's two
trees hold what is not yet delivered, and the acknowledgements are the `unAckSeq`
fields of what the other side sent. -/
namespace Mieru.Protocol

open OrderedTree ReliableDelivery Channel

theorem flatMap_filter_events {β : Type*} (f : Event → List β) (p : Event → Bool)
    (h : ∀ ev, p ev = false → f ev = []) (evs : List Event) :
    (evs.filter p).flatMap f = evs.flatMap f := by
  induction evs with
  | nil => rfl
  | cons ev evs ih =>
    cases hp : p ev with
    | false => rw [List.filter_cons_of_neg (by simp [hp]), List.flatMap_cons, h ev hp, ih]; rfl
    | true => rw [List.filter_cons_of_pos hp, List.flatMap_cons, List.flatMap_cons, ih]

section Histories

variable (evs : List Event)

theorem createdSegments_sends :
    (evs.filter Event.isSend).flatMap Event.createdSegments =
      evs.flatMap Event.createdSegments :=
  flatMap_filter_events _ _ (fun ev h => by cases ev <;> first | rfl | cases h) evs

theorem sentPackets_sends :
    (evs.filter Event.isSend).flatMap Event.sentPackets = evs.flatMap Event.sentPackets :=
  flatMap_filter_events _ _ (fun ev h => by cases ev <;> first | rfl | cases h) evs

theorem acceptedBytes_sends :
    (evs.filter Event.isSend).flatMap Event.acceptedBytes = evs.flatMap Event.acceptedBytes :=
  flatMap_filter_events _ _ (fun ev h => by cases ev <;> first | rfl | cases h) evs

theorem movedSegments_recvs :
    (evs.filter Event.isRecv).flatMap Event.movedSegments = evs.flatMap Event.movedSegments :=
  flatMap_filter_events _ _ (fun ev h => by cases ev <;> first | rfl | cases h) evs

theorem returnedBytes_recvs :
    (evs.filter Event.isRecv).flatMap Event.returnedBytes = evs.flatMap Event.returnedBytes :=
  flatMap_filter_events _ _ (fun ev h => by cases ev <;> first | rfl | cases h) evs

end Histories

/-! ## A direction as a channel -/

def heldBy (segs : List Segment) : Set (ℕ × Bytes) :=
  {m | ∃ seg ∈ segs, (seg.key, seg.payload) = m}

/-- An acknowledgement on the wire carries no numbered payload. -/
def carriedBy (wire : List Packet) : Set (ℕ × Bytes) :=
  {m | ∃ p ∈ wire, isAckProtocol p.protocol = false ∧ (p.seq.toNat, p.payload) = m}

def Packet.unAckSeq (p : Packet) : Option UInt32 :=
  match p.metadata with
  | .session _ => none
  | .dataAck das => some das.unAckSeq

def acknowledgedBy (wire : List Packet) : Set ℕ :=
  {n | ∃ p ∈ wire, ∃ seq, p.unAckSeq = some seq ∧ seq.toNat = n}

def channelOf (created held : List Segment) (wire : List Packet) (moved : List Segment)
    (back : List Packet) : Channel Bytes where
  log := created.map (·.payload)
  held := heldBy held
  wire := carriedBy wire
  delivered := moved.map (·.payload)
  acks := acknowledgedBy back

theorem carriedBy_append (wire : List Packet) (p : Packet) :
    carriedBy (wire ++ [p]) =
      if isAckProtocol p.protocol then carriedBy wire
      else insert (p.seq.toNat, p.payload) (carriedBy wire) := by
  ext m
  split_ifs with hack <;> simp only [carriedBy, Set.mem_ofPred_eq, Set.mem_insert_iff]
  · constructor
    · rintro ⟨q, hq, hdata, rfl⟩
      rcases List.mem_append.mp hq with hq | hq
      · exact ⟨q, hq, hdata, rfl⟩
      · rw [List.mem_singleton.mp hq, hack] at hdata
        cases hdata
    · rintro ⟨q, hq, hdata, rfl⟩
      exact ⟨q, List.mem_append_left _ hq, hdata, rfl⟩
  · constructor
    · rintro ⟨q, hq, hdata, rfl⟩
      rcases List.mem_append.mp hq with hq | hq
      · exact .inr ⟨q, hq, hdata, rfl⟩
      · rw [List.mem_singleton.mp hq]
        exact .inl rfl
    · rintro (rfl | ⟨q, hq, hdata, rfl⟩)
      · exact ⟨p, List.mem_append_right _ (List.mem_singleton_self p),
          Bool.eq_false_iff.mpr hack, rfl⟩
      · exact ⟨q, List.mem_append_left _ hq, hdata, rfl⟩

theorem acknowledgedBy_append (wire : List Packet) (p : Packet) :
    acknowledgedBy (wire ++ [p]) =
      match p.unAckSeq with
      | none => acknowledgedBy wire
      | some seq => insert seq.toNat (acknowledgedBy wire) := by
  ext n
  simp only [acknowledgedBy, List.mem_append, List.mem_singleton, Set.mem_ofPred_eq]
  cases hp : p.unAckSeq with
  | none =>
    constructor
    · rintro ⟨q, hq | rfl, seq, hseq, rfl⟩
      · exact ⟨q, hq, seq, hseq, rfl⟩
      · rw [hp] at hseq
        cases hseq
    · rintro ⟨q, hq, seq, hseq, rfl⟩
      exact ⟨q, .inl hq, seq, hseq, rfl⟩
  | some seq =>
    simp only [Set.mem_insert_iff, Set.mem_ofPred_eq]
    constructor
    · rintro ⟨q, hq | rfl, seq', hseq, rfl⟩
      · exact .inr ⟨q, hq, seq', hseq, rfl⟩
      · rw [hp] at hseq
        cases hseq
        exact .inl rfl
    · rintro (rfl | ⟨q, hq, seq', hseq, rfl⟩)
      · exact ⟨p, .inr rfl, seq, hp, rfl⟩
      · exact ⟨q, .inl hq, seq', hseq, rfl⟩

/-! ## What is sent -/

section Sends

variable {created held : List Segment} {wire back : List Packet} {moved : List Segment}

theorem mem_heldBy {seg : Segment} (h : seg ∈ held) : (seg.key, seg.payload) ∈ heldBy held :=
  ⟨seg, h, rfl⟩

theorem heldBy_subset {held' : List Segment}
    (h : ∀ x ∈ held, ∃ y ∈ held', y.key = x.key ∧ y.payload = x.payload) :
    heldBy held ⊆ heldBy held' := by
  rintro m ⟨x, hx, rfl⟩
  obtain ⟨y, hy, hkey, hpayload⟩ := h x hx
  exact ⟨y, hy, by rw [hkey, hpayload]⟩

theorem held_payload (hinv : (channelOf created held wire moved back).Invariant)
    {x y : Segment} (hx : x ∈ held) (hy : y ∈ held) (hkey : x.key = y.key) :
    x.payload = y.payload := by
  have hlogx := hinv.held_log _ (mem_heldBy hx)
  have hlogy := hinv.held_log _ (mem_heldBy hy)
  simp only [hkey] at hlogx
  exact Option.some.inj (hlogx.symm.trans hlogy)

theorem heldBy_replace (hinv : (channelOf created held wire moved back).Invariant)
    {held' : List Segment} {seg seg' : Segment} (hseg : seg ∈ held) (hkey : seg'.key = seg.key)
    (hpayload : seg'.payload = seg.payload) (hseg' : seg' ∈ held')
    (hold : ∀ x ∈ held, x.key ≠ seg.key → x ∈ held')
    (hnew : ∀ x ∈ held', x = seg' ∨ x ∈ held) : heldBy held' = heldBy held := by
  apply Set.Subset.antisymm
  · refine heldBy_subset fun x hx => ?_
    rcases hnew x hx with rfl | hx
    · exact ⟨seg, hseg, hkey.symm, hpayload.symm⟩
    · exact ⟨x, hx, rfl, rfl⟩
  · refine heldBy_subset fun x hx => ?_
    by_cases hsame : x.key = seg.key
    · exact ⟨seg', hseg', hkey.trans hsame.symm,
        hpayload.trans (held_payload hinv hseg hx hsame.symm)⟩
    · exact ⟨x, hold x hx hsame, rfl, rfl⟩

theorem channelOf_held {held' : List Segment} (h : heldBy held' = heldBy held) :
    channelOf created held' wire moved back = channelOf created held wire moved back := by
  simp only [channelOf, h]

theorem output_steps {p : Packet} {fate : Fate}
    (hheld : isAckProtocol p.protocol = false → (p.seq.toNat, p.payload) ∈ heldBy held) :
    Steps (channelOf created held wire moved back)
      (channelOf created held (wire ++ (Event.output p fate).sentPackets) moved back) := by
  cases fate with
  | sent =>
    have hwire := carriedBy_append wire p
    split_ifs at hwire with hack
    · have hsame : channelOf created held (wire ++ [p]) moved back =
          channelOf created held wire moved back := by
        simp only [channelOf, hwire]
      exact hsame ▸ .refl
    · have hgrown : channelOf created held (wire ++ [p]) moved back =
          { channelOf created held wire moved back with
            wire := insert (p.seq.toNat, p.payload) (carriedBy wire) } := by
        simp only [channelOf, hwire]
      exact hgrown ▸ .single (.transmit _ (hheld (Bool.eq_false_iff.mpr hack)))
  | notReady => simpa [Event.sentPackets] using .refl
  | failed => simpa [Event.sentPackets] using .refl

variable {cfg : SessionConfig} {nextRecv : UInt32} {hand : Option Segment} {a : Action}
  {v v' : SendView} {evs : List Event}

theorem create_steps {seg : Segment} {queue buf : List Segment}
    (hinv : (channelOf created (queue ++ buf) wire moved back).Invariant)
    (hsorted : queue.Pairwise fun a b => a.key < b.key) (hkey : seg.key = created.length) :
    Steps (channelOf created (queue ++ buf) wire moved back)
      (channelOf (created ++ [seg]) (place Segment.key seg queue ++ buf) wire moved back) := by
  have hfresh : ∀ x ∈ queue ++ buf, x.key ≠ seg.key := by
    intro x hx heq
    have hlog := hinv.held_log _ (mem_heldBy hx)
    have hlt := (List.getElem?_eq_some_iff.mp hlog).1
    simp only [channelOf, List.length_map] at hlt
    omega
  have hheld : heldBy (place Segment.key seg queue ++ buf) =
      insert (created.length, seg.payload) (heldBy (queue ++ buf)) := by
    ext m
    simp only [heldBy, List.mem_append, mem_place hsorted, Set.mem_ofPred_eq, Set.mem_insert_iff]
    constructor
    · rintro ⟨x, (rfl | ⟨hx, -⟩) | hx, rfl⟩
      · exact .inl (by rw [hkey])
      · exact .inr ⟨x, .inl hx, rfl⟩
      · exact .inr ⟨x, .inr hx, rfl⟩
    · rintro (rfl | ⟨x, hx | hx, rfl⟩)
      · exact ⟨seg, .inl (.inl rfl), by rw [hkey]⟩
      · exact ⟨x, .inl (.inr ⟨hx, hfresh x (List.mem_append_left _ hx)⟩), rfl⟩
      · exact ⟨x, .inr hx, rfl⟩
  have hgrown : channelOf (created ++ [seg]) (place Segment.key seg queue ++ buf) wire moved back =
      { channelOf created (queue ++ buf) wire moved back with
        log := created.map (·.payload) ++ [seg.payload]
        held :=
          insert ((created.map (·.payload)).length, seg.payload) (heldBy (queue ++ buf)) } := by
    simp only [channelOf, hheld, List.map_append, List.map_singleton, List.length_map]
  exact hgrown ▸ .single (.create _ _)

theorem heldBy_transmit {seg seg' : Segment} {rest buf : List Segment}
    (hinv : (channelOf created (seg :: rest ++ buf) wire moved back).Invariant)
    (hbuf : buf.Pairwise fun a b => a.key < b.key) (hkey : seg'.key = seg.key)
    (hpayload : seg'.payload = seg.payload) :
    heldBy (rest ++ place Segment.key seg' buf) = heldBy (seg :: rest ++ buf) := by
  refine heldBy_replace hinv List.mem_cons_self hkey hpayload ?_ ?_ ?_
  · simp [mem_place hbuf]
  · intro x hx hne
    simp only [List.cons_append, List.mem_cons, List.mem_append] at hx
    rw [List.mem_append, mem_place hbuf]
    rcases hx with rfl | hx | hx
    · exact absurd rfl hne
    · exact .inl hx
    · exact .inr (.inr ⟨hx, fun h => hne (h.trans hkey)⟩)
  · intro x hx
    rw [List.mem_append, mem_place hbuf] at hx
    rcases hx with hx | rfl | ⟨hx, -⟩
    · exact .inr (by simp [hx])
    · exact .inl rfl
    · exact .inr (List.mem_append_right _ hx)

theorem heldBy_retransmit {seg seg' : Segment} {queue buf : List Segment}
    (hinv : (channelOf created (queue ++ buf) wire moved back).Invariant) (hmem : seg ∈ buf)
    (hkey : seg'.key = seg.key) (hpayload : seg'.payload = seg.payload) :
    heldBy (queue ++ buf.map fun x => if x.key = seg.key then seg' else x) =
      heldBy (queue ++ buf) := by
  refine heldBy_replace hinv (List.mem_append_right _ hmem) hkey hpayload ?_ ?_ ?_
  · refine List.mem_append_right _ (List.mem_map.mpr ⟨seg, hmem, if_pos rfl⟩)
  · intro x hx hne
    rcases List.mem_append.mp hx with hx | hx
    · exact List.mem_append_left _ hx
    · exact List.mem_append_right _ (List.mem_map.mpr ⟨x, hx, if_neg hne⟩)
  · intro x hx
    rcases List.mem_append.mp hx with hx | hx
    · exact .inr (List.mem_append_left _ hx)
    · obtain ⟨y, hy, rfl⟩ := List.mem_map.mp hx
      split_ifs
      · exact .inl rfl
      · exact .inr (List.mem_append_right _ hy)

theorem heldBy_touch {queue buf : List Segment} {f : Segment → Segment}
    (hf : ∀ x, (f x).toPacket = x.toPacket) :
    heldBy (queue ++ buf.map f) = heldBy (queue ++ buf) := by
  have hkey (x : Segment) : (f x).key = x.key := congrArg (fun p : Packet => p.seq.toNat) (hf x)
  have hpayload (x : Segment) : (f x).payload = x.payload := congrArg Packet.payload (hf x)
  apply Set.Subset.antisymm
  · refine heldBy_subset fun x hx => ?_
    rcases List.mem_append.mp hx with hx | hx
    · exact ⟨x, List.mem_append_left _ hx, rfl, rfl⟩
    · obtain ⟨y, hy, rfl⟩ := List.mem_map.mp hx
      exact ⟨y, List.mem_append_right _ hy, (hkey y).symm, (hpayload y).symm⟩
  · refine heldBy_subset fun x hx => ?_
    rcases List.mem_append.mp hx with hx | hx
    · exact ⟨x, List.mem_append_left _ hx, rfl, rfl⟩
    · exact ⟨f x, List.mem_append_right _ (List.mem_map_of_mem hx), hkey x, hpayload x⟩

theorem SendEffect.simulates (heff : SendEffect cfg nextRecv hand .idle .idle a v v' evs)
    (hpacket : cfg.transportProtocol = .packetTransport)
    (hqueued : ∀ seg, Event.created seg false ∉ evs)
    (hqueue : v.queue.Pairwise fun a b => a.key < b.key)
    (hbuf : v.buf.Pairwise fun a b => a.key < b.key)
    (hnum : v.nextSend.toNat = created.length)
    (hhand : ∀ seg, hand = some seg → seg.toPacket ∈ back)
    (hinv : (channelOf created (v.queue ++ v.buf) wire moved back).Invariant) :
    Steps (channelOf created (v.queue ++ v.buf) wire moved back)
      (channelOf (created ++ evs.flatMap Event.createdSegments) (v'.queue ++ v'.buf)
        (wire ++ evs.flatMap Event.sentPackets) moved back) := by
  cases heff with
  | quiet => simpa using .refl
  | create hseq hprod hroom =>
    simp only [List.flatMap_cons, List.flatMap_nil, Event.createdSegments, Event.sentPackets,
      List.append_nil]
    exact create_steps hinv hqueue ((congrArg UInt32.toNat hseq).trans hnum)
  | lose hseq => exact absurd List.mem_cons_self (hqueued _)
  | @transmit seg rest fate seg' hq hsame =>
    obtain ⟨hkey, hpayload⟩ := Segment.resent_same hsame
    rw [hq] at hinv ⊢
    simp only [List.flatMap_singleton, Event.createdSegments, List.append_nil]
    rw [channelOf_held (heldBy_transmit hinv hbuf hkey hpayload)]
    refine output_steps fun _ => ?_
    exact ⟨seg, List.mem_cons_self, by rw [← hkey, ← hpayload]; rfl⟩
  | @retransmit seg fate seg' hmem hsame =>
    obtain ⟨hkey, hpayload⟩ := Segment.resent_same hsame
    simp only [List.flatMap_singleton, Event.createdSegments, List.append_nil]
    rw [channelOf_held (heldBy_retransmit hinv hmem hkey hpayload)]
    refine output_steps fun _ => ?_
    exact ⟨seg, List.mem_append_right _ hmem, by rw [← hkey, ← hpayload]; rfl⟩
  | touch hf =>
    simp only [List.flatMap_nil, List.append_nil]
    rw [channelOf_held (heldBy_touch hf)]
    exact .refl
  | acknowledge _ hack hun hseq hprod =>
    simp only [List.flatMap_singleton, Event.createdSegments, List.append_nil]
    refine output_steps fun hdata => ?_
    exact absurd hack (Bool.eq_false_iff.mp hdata)
  | @release seg held rest das hb hheld hmeta hlt =>
    have hmem : das.unAckSeq.toNat ∈ acknowledgedBy back :=
      ⟨held.toPacket, hhand held hheld, das.unAckSeq, by simp [Packet.unAckSeq, hmeta], rfl⟩
    simp only [List.flatMap_nil, List.append_nil]
    refine .single (.release _ hmem (heldBy_subset ?_) ?_)
    · intro x hx
      refine ⟨x, ?_, rfl, rfl⟩
      rcases List.mem_append.mp hx with hx | hx
      · exact List.mem_append_left _ hx
      · exact List.mem_append_right _ (hb ▸ List.mem_cons_of_mem _ hx)
    · rintro m ⟨x, hx, rfl⟩ hle
      refine mem_heldBy ?_
      rcases List.mem_append.mp hx with hx | hx
      · exact List.mem_append_left _ hx
      · rw [hb] at hx
        rcases List.mem_cons.mp hx with rfl | hx
        · exact absurd hlt (Nat.not_lt.mpr hle)
        · exact List.mem_append_right _ hx
  | stream hstream => rw [hpacket] at hstream; cases hstream
  | reply _ hclosing => exact absurd rfl hclosing
  | force hpc | clearQueue hpc | clearBuf hpc => cases hpc

end Sends

/-! ## What is acknowledged and received -/

section Receives

variable {cfg : SessionConfig} {created held : List Segment} {wire back : List Packet}
  {moved : List Segment} {evs : List Event}

theorem acknowledge_steps (created held : List Segment) (wire back : List Packet)
    {nextRecv : UInt32} (hle : nextRecv.toNat ≤ moved.length) {packets : List Packet}
    (hpackets : ∀ p ∈ packets, p.unAckSeq = none ∨ p.unAckSeq = some nextRecv) :
    Steps (channelOf created held wire moved back)
      (channelOf created held wire moved (back ++ packets)) := by
  induction packets generalizing back with
  | nil => simpa using .refl
  | cons p packets ih =>
    have hrest := ih (back ++ [p]) fun q hq => hpackets q (List.mem_cons_of_mem _ hq)
    rw [List.append_assoc, List.singleton_append] at hrest
    refine .trans ?_ hrest
    have hacks := acknowledgedBy_append back p
    rcases hpackets p List.mem_cons_self with hnone | hsome
    · rw [hnone] at hacks
      simp only [channelOf, hacks]
      exact .refl
    · rw [hsome] at hacks
      simp only [channelOf, hacks]
      refine .single (.acknowledge _ ?_)
      simpa using hle

theorem unAckSeq_refreshAck (seg : Segment) (nextRecv : UInt32) :
    (seg.refreshAck nextRecv).toPacket.unAckSeq = none ∨
      (seg.refreshAck nextRecv).toPacket.unAckSeq = some nextRecv := by
  unfold Segment.refreshAck
  split
  · rename_i hmeta
    exact .inl (by simp [Packet.unAckSeq, hmeta])
  · exact .inr rfl

/-- Whatever acknowledges carries the present `nextRecv`. -/
theorem SendEffect.sent_unAckSeq {nextRecv : UInt32} {hand : Option Segment} {a : Action}
    {v v' : SendView}
    (heff : SendEffect cfg nextRecv hand .idle .idle a v v' evs)
    (hpacket : cfg.transportProtocol = .packetTransport) :
    ∀ p ∈ evs.flatMap Event.sentPackets, p.unAckSeq = none ∨ p.unAckSeq = some nextRecv := by
  have hsent {p : Packet} {fate : Fate} (hp : p.unAckSeq = none ∨ p.unAckSeq = some nextRecv) :
      ∀ q ∈ [Event.output p fate].flatMap Event.sentPackets,
        q.unAckSeq = none ∨ q.unAckSeq = some nextRecv := by
    cases fate with
    | sent => simpa [Event.sentPackets] using hp
    | notReady => simp [Event.sentPackets]
    | failed => simp [Event.sentPackets]
  cases heff with
  | quiet => simp
  | create => simp [Event.sentPackets]
  | lose => simp [Event.sentPackets]
  | transmit seg' hqueue hsame => exact hsent (hsame ▸ unAckSeq_refreshAck _ nextRecv)
  | retransmit seg' hmem hsame => exact hsent (hsame ▸ unAckSeq_refreshAck _ nextRecv)
  | touch => simp
  | acknowledge _ hack hun => exact hsent (.inr (congrArg some hun))
  | release => simp
  | stream hstream => rw [hpacket] at hstream; cases hstream
  | reply _ hclosing => exact absurd rfl hclosing
  | force hpc | clearQueue hpc | clearBuf hpc => cases hpc

variable {v v' : RecvView}

theorem RecvEffect.delivers (heff : RecvEffect cfg v v' evs)
    (hpacket : cfg.transportProtocol = .packetTransport)
    (hbuf : ∀ seg ∈ v.recvBuf, seg.toPacket ∈ wire ∧ isAckProtocol seg.protocol = false)
    (hnext : v.nextRecv.toNat = moved.length) :
    Steps (channelOf created held wire moved back)
      (channelOf created held wire (moved ++ evs.flatMap Event.movedSegments) back) := by
  cases heff with
  | @move seg rest hb hseq =>
    obtain ⟨hwire, hdata⟩ := hbuf seg (hb ▸ List.mem_cons_self)
    have hkey : seg.seq.toNat = (moved.map (·.payload)).length := by
      rw [hseq, hnext, List.length_map]
    simp only [List.flatMap_singleton, Event.movedSegments, channelOf, List.map_append,
      List.map_singleton]
    exact .single (.deliver _ ⟨seg.toPacket, hwire, hdata, Prod.ext hkey rfl⟩)
  | deliver hstream => rw [hpacket] at hstream; cases hstream
  | _ => simpa [Event.movedSegments] using .refl

theorem RecvEffect.genuine (heff : RecvEffect cfg v v' evs)
    (hgenuine : ∀ p, Event.received p ∈ evs → p ∈ wire)
    (hhand : ∀ seg, v.hand = some seg → seg.toPacket ∈ wire)
    (hbuf : ∀ seg ∈ v.recvBuf, seg.toPacket ∈ wire ∧ isAckProtocol seg.protocol = false)
    (hsorted : v.recvBuf.Pairwise fun a b => a.key < b.key) :
    (∀ seg, v'.hand = some seg → seg.toPacket ∈ wire) ∧
      ∀ seg ∈ v'.recvBuf, seg.toPacket ∈ wire ∧ isAckProtocol seg.protocol = false := by
  cases heff with
  | quiet => exact ⟨hhand, hbuf⟩
  | take =>
    refine ⟨?_, hbuf⟩
    intro seg hseg
    cases hseg
    exact hgenuine _ List.mem_cons_self
  | ignore => exact ⟨hhand, hbuf⟩
  | drop => exact ⟨by simp, hbuf⟩
  | buffer hh hdata =>
    refine ⟨hhand, ?_⟩
    intro seg hseg
    rcases (mem_place hsorted).mp hseg with rfl | ⟨hseg, -⟩
    · exact ⟨hhand _ hh, hdata⟩
    · exact hbuf seg hseg
  | discard hb => exact ⟨hhand, fun seg hseg => hbuf seg (hb ▸ List.mem_cons_of_mem _ hseg)⟩
  | move hb => exact ⟨hhand, fun seg hseg => hbuf seg (hb ▸ List.mem_cons_of_mem _ hseg)⟩
  | deliver => exact ⟨hhand, hbuf⟩
  | fetch => exact ⟨hhand, hbuf⟩
  | handOut => exact ⟨hhand, hbuf⟩

end Receives

end Mieru.Protocol
