import Mieru.Session.Delivery
import Mieru.Session.Flow

/-! # Head-of-line progress

The sender keeps one slot of `sendBuf` free, and what it has not been told to be received is
there. So the receiver's `recvBuf` cannot fill up with segments behind the one that is
missing. -/
namespace Mieru.Protocol

open OrderedTree ReliableDelivery Channel

/-! ## The sender -/

/-- What is in flight is bounded and comes before what is queued. -/
structure SendView.Paced (v : SendView) (wire : List Packet) : Prop where
  bounded : v.buf.length < segmentTreeCapacity
  buf : ∀ x ∈ v.buf, ∀ q ∈ v.queue, x.key < q.key
  wire : ∀ p ∈ wire, isAckProtocol p.protocol = false → ∀ q ∈ v.queue, p.seq.toNat < q.key

section Sender

variable {cfg : SessionConfig} {created : List Segment} {wire back : List Packet}
  {moved : List Segment} {nextRecv : UInt32} {hand : Option Segment} {a : Action}
  {v v' : SendView} {evs : List Event}

theorem wire_output {queue : List Segment} {p : Packet} {fate : Fate}
    (h : ∀ p ∈ wire, isAckProtocol p.protocol = false → ∀ q ∈ queue, p.seq.toNat < q.key)
    (hp : isAckProtocol p.protocol = false → ∀ q ∈ queue, p.seq.toNat < q.key) :
    ∀ r ∈ wire ++ [Event.output p fate].flatMap Event.sentPackets,
      isAckProtocol r.protocol = false → ∀ q ∈ queue, r.seq.toNat < q.key := by
  intro r hr
  rcases List.mem_append.mp hr with hr | hr
  · exact h r hr
  · cases fate with
    | sent =>
      obtain rfl : r = p := by simpa [Event.sentPackets] using hr
      exact hp
    | notReady => simp [Event.sentPackets] at hr
    | failed => simp [Event.sentPackets] at hr

theorem paced_create {seg : Segment} {queue buf : List Segment}
    (hinv : (channelOf created (queue ++ buf) wire moved back).Invariant)
    (hsorted : queue.Pairwise fun a b => a.key < b.key) (hkey : seg.key = created.length)
    {nextSend lastSend next' : UInt32} (h : (SendView.mk nextSend lastSend queue buf).Paced wire) :
    (SendView.mk next' lastSend (place Segment.key seg queue) buf).Paced wire := by
  have hlog {n : ℕ} {b : Bytes} (hn : (created.map (·.payload))[n]? = some b) : n < seg.key := by
    have hlt := (List.getElem?_eq_some_iff.mp hn).1
    rw [List.length_map] at hlt
    omega
  refine ⟨h.bounded, ?_, ?_⟩
  · intro x hx q hq
    rcases (mem_place hsorted).mp hq with rfl | ⟨hq, -⟩
    · exact hlog (hinv.held_log _ (mem_heldBy (List.mem_append_right _ hx)))
    · exact h.buf x hx q hq
  · intro p hp hdata q hq
    rcases (mem_place hsorted).mp hq with rfl | ⟨hq, -⟩
    · exact hlog (hinv.wire_log _ ⟨p, hp, hdata, rfl⟩)
    · exact h.wire p hp hdata q hq

theorem paced_transmit {seg seg' : Segment} {rest buf : List Segment} {fate : Fate}
    {nextSend lastSend last' : UInt32} (hkey : seg'.key = seg.key)
    (hqueue : (seg :: rest).Pairwise fun a b => a.key < b.key)
    (hbuf : buf.Pairwise fun a b => a.key < b.key) (hroom : buf.length + 1 < segmentTreeCapacity)
    (h : (SendView.mk nextSend lastSend (seg :: rest) buf).Paced wire) :
    (SendView.mk nextSend last' rest (place Segment.key seg' buf)).Paced
      (wire ++ [Event.output seg'.toPacket fate].flatMap Event.sentPackets) := by
  have hfirst : ∀ q ∈ rest, seg'.key < q.key := by
    intro q hq
    rw [hkey]
    exact (List.pairwise_cons.mp hqueue).1 q hq
  refine ⟨Nat.lt_of_le_of_lt length_place_le hroom, ?_, wire_output ?_ fun _ => hfirst⟩
  · intro x hx q hq
    rcases (mem_place hbuf).mp hx with rfl | ⟨hx, -⟩
    · exact hfirst q hq
    · exact h.buf x hx q (List.mem_cons_of_mem _ hq)
  · intro p hp hdata q hq
    exact h.wire p hp hdata q (List.mem_cons_of_mem _ hq)

theorem SendEffect.paced (heff : SendEffect cfg nextRecv hand .idle .idle a v v' evs)
    (hpacket : cfg.transportProtocol = .packetTransport)
    (hqueued : ∀ seg, Event.created seg false ∉ evs)
    (hqueue : v.queue.Pairwise fun a b => a.key < b.key)
    (hbuf : v.buf.Pairwise fun a b => a.key < b.key)
    (hnum : v.nextSend.toNat = created.length)
    (hinv : (channelOf created (v.queue ++ v.buf) wire moved back).Invariant)
    (h : v.Paced wire) : v'.Paced (wire ++ evs.flatMap Event.sentPackets) := by
  cases heff with
  | quiet => simpa using h
  | create hseq hprod hroom =>
    simp only [List.flatMap_singleton, Event.sentPackets, List.append_nil]
    exact paced_create hinv hqueue ((congrArg UInt32.toNat hseq).trans hnum) h
  | lose hseq => exact absurd List.mem_cons_self (hqueued _)
  | @transmit seg rest fate seg' hq hsame hroom =>
    obtain ⟨hkey, -⟩ := Segment.resent_same hsame
    obtain ⟨nextSend, lastSend, queue, buf⟩ := v
    cases hq
    exact paced_transmit hkey hqueue hbuf hroom h
  | @retransmit seg fate seg' hmem hsame =>
    obtain ⟨hkey, -⟩ := Segment.resent_same hsame
    refine ⟨by simpa using h.bounded, ?_, wire_output h.wire fun _ q hq => ?_⟩
    · intro x hx
      obtain ⟨y, hy, rfl⟩ := List.mem_map.mp hx
      split_ifs
      · rw [hkey]
        exact h.buf seg hmem
      · exact h.buf y hy
    · have hlt := h.buf seg hmem q hq
      rw [← hkey] at hlt
      exact hlt
  | touch hf =>
    refine ⟨by simpa using h.bounded, ?_, by simpa using h.wire⟩
    intro x hx
    obtain ⟨y, hy, rfl⟩ := List.mem_map.mp hx
    have hkey : Segment.key _ = y.key := congrArg (fun p : Packet => p.seq.toNat) (hf y)
    rw [hkey]
    exact h.buf y hy
  | acknowledge _ hack =>
    refine ⟨h.bounded, h.buf, wire_output h.wire fun hdata => ?_⟩
    exact absurd hack (Bool.eq_false_iff.mp hdata)
  | release hb =>
    refine ⟨?_, ?_, by simpa using h.wire⟩
    · have hlt := h.bounded
      rw [hb, List.length_cons] at hlt
      exact Nat.lt_of_succ_lt hlt
    · intro x hx
      exact h.buf x (hb ▸ List.mem_cons_of_mem _ hx)
  | stream hstream => rw [hpacket] at hstream; cases hstream
  | reply _ hclosing => exact absurd rfl hclosing
  | force hpc | clearQueue hpc | clearBuf hpc => cases hpc

theorem SendView.Paced.wire_lt (h : v.Paced wire)
    (hinv : (channelOf created (v.queue ++ v.buf) wire moved back).Invariant) {p : Packet}
    (hp : p ∈ wire) (hdata : isAckProtocol p.protocol = false) :
    p.seq.toNat + 1 < moved.length + segmentTreeCapacity := by
  have hcreated : p.seq.toNat < created.length := by
    have hlt := (List.getElem?_eq_some_iff.mp (hinv.wire_log _ ⟨p, hp, hdata, rfl⟩)).1
    simpa [channelOf] using hlt
  -- everything from the receiver's next number up to the packet's is still in `sendBuf`
  have hheld : ∀ k, moved.length ≤ k → k < p.seq.toNat + 1 → ∃ x ∈ v.buf, x.key = k := by
    intro k hle hk
    have hlen : k < (created.map (·.payload)).length := by
      rw [List.length_map]
      omega
    obtain ⟨x, hx, heq⟩ := hinv.undelivered_held k _ (List.getElem?_eq_getElem hlen)
      (by simpa [channelOf] using hle)
    have hkey : x.key = k := congrArg Prod.fst heq
    rcases List.mem_append.mp hx with hx | hx
    · have hlt := h.wire p hp hdata x hx
      omega
    · exact ⟨x, hx, hkey⟩
  have hcount := le_length_of_keys_mem hheld
  have hbound := h.bounded
  omega

end Sender

/-! ## The receiver -/

/-- The input loop has put its segment into `recvBuf` and not yet looked what is in order. -/
def InputPc.isMoving : InputPc → Bool
  | waitingSpace _ | moving _ => true
  | _ => false

def InputPc.wellTyped : InputPc → Bool
  | releasing seg => checkProtocolType seg.protocol || isAckProtocol seg.protocol
  | requesting seg | accepting seg => checkProtocolType seg.protocol
  | _ => true

theorem RecvEffect.room {cfg : SessionConfig} {v v' : RecvView} {evs : List Event}
    (heff : RecvEffect cfg v v' evs) (hpacket : cfg.transportProtocol = .packetTransport)
    (h : v.recvBuf.length + v.recvQueue.length ≤ segmentTreeCapacity) :
    v'.recvBuf.length + v'.recvQueue.length ≤ segmentTreeCapacity := by
  cases heff with
  | @buffer seg _ _ hroom =>
    have hlen : (place Segment.key seg v.recvBuf).length ≤ v.recvBuf.length + 1 := length_place_le
    dsimp only
    omega
  | discard hb =>
    rw [hb, List.length_cons] at h
    dsimp only
    omega
  | @move seg _ hb =>
    have hlen : (place Segment.key seg v.recvQueue).length ≤ v.recvQueue.length + 1 :=
      length_place_le
    rw [hb, List.length_cons] at h
    dsimp only
    omega
  | deliver hstream => rw [hpacket] at hstream; cases hstream
  | fetch hq =>
    rw [hq, List.length_cons] at h
    dsimp only
    omega
  | _ => exact h

theorem RecvEffect.queue_le {cfg : SessionConfig} {v v' : RecvView} {evs : List Event}
    (heff : RecvEffect cfg v v' evs) (hpacket : cfg.transportProtocol = .packetTransport)
    (hnext : v'.nextRecv = v.nextRecv) : v'.recvQueue.length ≤ v.recvQueue.length := by
  cases heff with
  | move hb hseq =>
    have hne : v.nextRecv + 1 ≠ v.nextRecv := by simp
    exact absurd hnext hne
  | deliver hstream => rw [hpacket] at hstream; cases hstream
  | fetch hq =>
    rw [hq, List.length_cons]
    exact Nat.le_succ _
  | _ => exact Nat.le_refl _

namespace Session

variable {cfg : SessionConfig} {s s' : Session cfg} {a : Action} {evs : List Event}

theorem wellTyped_inputDispatch (cfg : SessionConfig) (seg : Segment) :
    (inputDispatch cfg seg).wellTyped = true := by
  have htype : seg.protocol = .openSessionRequest ∨ seg.protocol = .openSessionResponse ∨
      isDataProtocol seg.protocol = true → checkProtocolType seg.protocol = true := by
    cases seg.protocol <;> decide
  unfold inputDispatch
  dsimp only
  split_ifs with hdata hstream hack hstream'
  · rfl
  · split
    · exact htype hdata
    · simp [InputPc.wellTyped, htype hdata]
  · rfl
  · simp [InputPc.wellTyped, hack]
  · rfl

theorem isMoving_inputDispatch (hpacket : cfg.transportProtocol = .packetTransport)
    (seg : Segment) : (inputDispatch cfg seg).isMoving = false := by
  have hstream : cfg.transportProtocol ≠ .streamTransport := by simp [hpacket]
  unfold inputDispatch
  simp only [hstream, decide_false, Bool.false_eq_true, if_false]
  split_ifs
  · split <;> rfl
  · rfl
  · rfl

theorem wellTyped_afterData (seg : Segment) : (s.afterData seg).wellTyped = true := by
  unfold afterData
  split_ifs <;> rfl

theorem isMoving_afterData (seg : Segment) : (s.afterData seg).isMoving = false := by
  unfold afterData
  split_ifs <;> rfl

end Session

section Flow

variable {cfg : SessionConfig} {s : Session cfg} {a : Action} {pc pc' : InputPc}

theorem InputFlow.wellTyped (h : InputFlow s a pc pc') (htyped : pc.wellTyped = true) :
    pc'.wellTyped = true := by
  cases h with
  | take => exact Session.wellTyped_inputDispatch cfg _
  | release => exact htyped
  | released hack =>
    rcases Bool.or_eq_true _ _ ▸ htyped with htype | hack'
    · exact htype
    · rw [hack] at hack'
      cases hack'
  | request => exact htyped
  | closed _ hpc =>
    rcases hpc with rfl | rfl
    · rfl
    · exact Session.wellTyped_afterData _
  | deliver _ hpc =>
    rcases hpc with rfl | rfl
    · exact Session.wellTyped_afterData _
    · rfl
  | requestAgain => exact Session.wellTyped_afterData _
  | closing hpc => rcases hpc with rfl | rfl <;> rfl
  | _ => rfl

theorem InputFlow.isMoving (h : InputFlow s a pc pc')
    (hpacket : cfg.transportProtocol = .packetTransport) (haccept : a ≠ .accept)
    (hwait : a ≠ .waitSpace) (hmove : a ≠ .moveNext) :
    pc.isMoving = false ∧ pc'.isMoving = false := by
  cases h with
  | take => exact ⟨rfl, Session.isMoving_inputDispatch hpacket _⟩
  | requestAgain => exact ⟨rfl, Session.isMoving_afterData _⟩
  | closing hpc => rcases hpc with rfl | rfl <;> exact ⟨rfl, rfl⟩
  | _ => first | exact ⟨rfl, rfl⟩ | contradiction

end Flow

namespace Session

variable {cfg : SessionConfig} {s s' : Session cfg} {a : Action} {evs : List Event}

/-- Nothing has been moved since the input loop stored `seg`. -/
structure Fresh (s : Session cfg) (seg : Segment) : Prop where
  stored : seg ∈ s.recvBuf.items
  first : ∀ x ∈ s.recvBuf.items, x.key ≤ s.nextRecv.toNat → x = seg

/-- What `recvBuf` holds, by where the input loop is. -/
structure Sorted (s : Session cfg) : Prop where
  room : s.recvBuf.items.length + s.recvQueue.items.length ≤ segmentTreeCapacity
  short : s.recvBuf.items.length < segmentTreeCapacity
  opened : s.closedChan = false
  typed : s.inputPc.wellTyped = true
  ahead : s.inputPc.isMoving = false → ∀ x ∈ s.recvBuf.items, s.nextRecv.toNat < x.key
  fresh : ∀ seg, s.inputPc.isMoving = true → s.inputPc.segment = some seg →
    s.nextRecv.toNat ≤ seg.key → s.Fresh seg
  space : ∀ seg, s.inputPc = .moving seg → s.nextRecv.toNat ≤ seg.key →
    s.recvQueue.items.length < segmentTreeCapacity

theorem Sorted.of_settled (hs : s.Sorted)
    (hroom : s'.recvBuf.items.length + s'.recvQueue.items.length ≤ segmentTreeCapacity)
    (hshort : s'.recvBuf.items.length < segmentTreeCapacity)
    (hopened : s'.closedChan = s.closedChan) (htyped : s'.inputPc.wellTyped = true)
    (hmoving : s'.inputPc.isMoving = false)
    (hahead : ∀ x ∈ s'.recvBuf.items, s'.nextRecv.toNat < x.key) : s'.Sorted := by
  refine ⟨hroom, hshort, hopened.trans hs.opened, htyped, fun _ => hahead, ?_, ?_⟩
  · intro seg hpc
    rw [hmoving] at hpc
    cases hpc
  · intro seg hpc
    rw [hpc] at hmoving
    cases hmoving

theorem Sorted.of_kept (hs : s.Sorted)
    (hroom : s'.recvBuf.items.length + s'.recvQueue.items.length ≤ segmentTreeCapacity)
    (hqueue : s'.recvQueue.items.length ≤ s.recvQueue.items.length)
    (hopened : s'.closedChan = s.closedChan) (hbuf : s'.recvBuf.items = s.recvBuf.items)
    (hnext : s'.nextRecv = s.nextRecv) (hpc : s'.inputPc = s.inputPc) : s'.Sorted := by
  refine ⟨hroom, hbuf ▸ hs.short, hopened.trans hs.opened, hpc ▸ hs.typed, ?_, ?_, ?_⟩
  · rw [hpc, hbuf, hnext]
    exact hs.ahead
  · rw [hpc, hnext]
    intro seg hmoving hseg hle
    obtain ⟨hstored, hfirst⟩ := hs.fresh seg hmoving hseg hle
    exact ⟨hbuf ▸ hstored, by rwa [hbuf, hnext]⟩
  · rw [hpc, hnext]
    intro seg hseg hle
    exact Nat.lt_of_le_of_lt hqueue (hs.space seg hseg hle)

theorem accept_stored (h : s.accept = some (s', evs)) :
    ∃ seg, s.inputPc = .accepting seg ∧
      ((s'.inputPc = .finishing seg ∧ s'.recvBuf.items = s.recvBuf.items) ∨
        (s'.inputPc = .waitingSpace seg ∧
          s'.recvBuf.items = place Segment.key seg s.recvBuf.items)) := by
  unfold accept at h
  split at h
  · rename_i seg hpc
    refine ⟨seg, hpc, ?_⟩
    split_ifs at h
    · cases h
      exact .inl ⟨rfl, rfl⟩
    · split at h
      · rename_i hinsert
        cases h
        exact .inl ⟨rfl, (SegmentTree.insert_false hinsert).2⟩
      · rename_i hinsert
        cases h
        exact .inr ⟨rfl, (SegmentTree.insert_true hinsert).2⟩
  · cases h

theorem moveNext_moved (hpacket : cfg.transportProtocol = .packetTransport)
    (h : s.moveNext = some (s', evs)) :
    ∃ hand, s.inputPc = .moving hand ∧
      ((s'.inputPc = .requestingAgain hand ∧ s'.recvBuf.items = s.recvBuf.items ∧
          s'.nextRecv = s.nextRecv ∧
          (s.recvQueue.remaining = 0 ∨
            ∀ x, s.recvBuf.items.head? = some x → s.nextRecv < x.seq)) ∨
        (s'.inputPc = .moving hand ∧
          ∃ x, s.recvBuf.items = x :: s'.recvBuf.items ∧
            ((x.seq < s.nextRecv ∧ s'.nextRecv = s.nextRecv) ∨
              (x.seq = s.nextRecv ∧ s'.nextRecv = s.nextRecv + 1)))) := by
  unfold moveNext at h
  split at h
  · rename_i hand hpc
    refine ⟨hand, hpc, ?_⟩
    split at h
    · rename_i hstream
      rw [hpacket] at hstream
      cases hstream
    split at h
    · rename_i hfull
      cases h
      exact .inl ⟨rfl, rfl, rfl, .inl hfull⟩
    · rename_i hroom
      split at h
      · rename_i hnone
        cases h
        refine .inl ⟨rfl, SegmentTree.deleteMinIf_none hnone, rfl, .inr fun x hx => ?_⟩
        have hle := SegmentTree.head_of_deleteMinIf_none hnone hx
        simpa using hle
      · rename_i x buf hsome
        obtain ⟨hle, hitems⟩ := SegmentTree.deleteMinIf_some hsome
        split at h
        · rename_i hstale
          cases h
          exact .inr ⟨hpc, x, hitems, .inl ⟨hstale, rfl⟩⟩
        · rename_i hstale
          have hseq : x.seq = s.nextRecv := by
            have hle : x.seq ≤ s.nextRecv := by simpa using hle
            exact UInt32.le_antisymm hle (UInt32.not_lt.mp hstale)
          split at h
          · cases h
            exact .inr ⟨hpc, x, hitems, .inr ⟨hseq, rfl⟩⟩
          · rename_i hq
            have hfull := (SegmentTree.insert_false hq).1
            simp only [SegmentTree.remaining, SegmentTree.len] at hroom
            omega
  · cases h

theorem Sorted.accept (hs : s.Sorted) (h : s.accept = some (s', evs))
    (hroom : s'.recvBuf.items.length + s'.recvQueue.items.length ≤ segmentTreeCapacity)
    (hkeep : ∀ x, Action.accept.touches x = false → s.Keeps s' x)
    (htyped : s'.inputPc.wellTyped = true)
    (hbound : ∀ x ∈ s.recvBuf.items, x.key + 1 < s.nextRecv.toNat + segmentTreeCapacity) :
    s'.Sorted := by
  have hnext : s'.nextRecv = s.nextRecv := hkeep .nextRecv rfl
  have hopened : s'.closedChan = s.closedChan := hkeep .closedChan rfl
  obtain ⟨seg, hpc, ⟨hpc', hbuf⟩ | ⟨hpc', hbuf⟩⟩ := accept_stored h
  · refine hs.of_settled hroom (hbuf ▸ hs.short) hopened htyped (by rw [hpc']; rfl) ?_
    rw [hbuf, hnext]
    exact hs.ahead (by rw [hpc]; rfl)
  · have hahead := hs.ahead (by rw [hpc]; rfl)
    -- without the new segment at least two slots are free
    have hlen : s.recvBuf.items.length + 1 < segmentTreeCapacity := by
      have hkeys : ∀ x ∈ s.recvBuf.items, s.nextRecv.toNat + 1 ≤ x.key ∧
          x.key < s.nextRecv.toNat + segmentTreeCapacity - 1 := by
        intro x hx
        have hlo := hahead x hx
        have hhi := hbound x hx
        omega
      have hle := length_le_of_keys_lt s.recvBuf.sorted hkeys
      have hcap : 2 ≤ segmentTreeCapacity := by decide
      omega
    have hmem (x : Segment) : x ∈ s'.recvBuf.items ↔
        x = seg ∨ (x ∈ s.recvBuf.items ∧ x.key ≠ seg.key) := by
      rw [hbuf]
      exact mem_place s.recvBuf.sorted
    refine ⟨hroom, ?_, hopened.trans hs.opened, htyped, ?_, ?_, ?_⟩
    · rw [hbuf]
      exact Nat.lt_of_le_of_lt length_place_le hlen
    · rw [hpc']
      intro hmoving
      cases hmoving
    · rw [hpc', hnext]
      rintro seg' - hseg -
      cases hseg
      refine ⟨(hmem seg).mpr (.inl rfl), ?_⟩
      intro x hx hle
      rcases (hmem x).mp hx with rfl | ⟨hx, -⟩
      · rfl
      · rw [hnext] at hle
        exact absurd (hahead x hx) (Nat.not_lt.mpr hle)
    · rw [hpc']
      intro seg' hmoving
      cases hmoving

theorem Sorted.waitSpace (hs : s.Sorted) (h : s.waitSpace = some (s', evs)) : s'.Sorted := by
  unfold Session.waitSpace at h
  split at h
  · rename_i seg hpc
    split_ifs at h with hclosed hstream hfull
    · rw [hs.opened] at hclosed
      cases hclosed
    · rw [hs.opened] at hclosed
      cases hclosed
    · cases h
      refine ⟨hs.room, hs.short, hs.opened, rfl, nofun, ?_, ?_⟩
      · rintro seg' - hseg hle
        obtain ⟨hstored, hfirst⟩ := hs.fresh seg' (by rw [hpc]; rfl) (by rw [hpc]; exact hseg) hle
        exact ⟨hstored, hfirst⟩
      · intro _ _ _
        simp only [SegmentTree.remaining, SegmentTree.len] at hfull
        dsimp only
        omega
  · cases h

theorem Sorted.moveNext (hs : s.Sorted) (hpacket : cfg.transportProtocol = .packetTransport)
    (h : s.moveNext = some (s', evs))
    (hroom : s'.recvBuf.items.length + s'.recvQueue.items.length ≤ segmentTreeCapacity)
    (hkeep : ∀ x, Action.moveNext.touches x = false → s.Keeps s' x)
    (htyped : s'.inputPc.wellTyped = true) (hgrow : s.nextRecv.toNat ≤ s'.nextRecv.toNat) :
    s'.Sorted := by
  have hopened : s'.closedChan = s.closedChan := hkeep .closedChan rfl
  obtain ⟨hand, hpc, ⟨hpc', hbuf, hnext, hend⟩ | ⟨hpc', x, hbuf, hx⟩⟩ := moveNext_moved hpacket h
  · refine hs.of_settled hroom (hbuf ▸ hs.short) hopened htyped (by rw [hpc']; rfl) ?_
    rw [hbuf, hnext]
    intro x hx
    have hsorted := s.recvBuf.sorted
    cases hitems : s.recvBuf.items with
    | nil =>
      rw [hitems] at hx
      cases hx
    | cons y rest =>
      rcases hend with hfull | hhead
      · have hle := hs.room
        simp only [SegmentTree.remaining, SegmentTree.len] at hfull
        rw [hitems, List.length_cons] at hle
        omega
      · have hy : s.nextRecv.toNat < y.key :=
          UInt32.lt_iff_toNat_lt.mp (hhead y (by rw [hitems]; rfl))
        rw [hitems] at hx hsorted
        rcases List.mem_cons.mp hx with rfl | hx
        · exact hy
        · exact Nat.lt_trans hy ((List.pairwise_cons.mp hsorted).1 x hx)
  · -- the segment in hand was still to come before this round only if it is the one moved
    have hgone : ∀ seg, hand = seg → ¬s'.nextRecv.toNat ≤ seg.key := by
      rintro seg rfl hle
      have hle₀ : s.nextRecv.toNat ≤ hand.key := Nat.le_trans hgrow hle
      have hfresh := hs.fresh hand (by rw [hpc]; rfl) (by rw [hpc]; rfl) hle₀
      have hmem : x ∈ s.recvBuf.items := hbuf ▸ List.mem_cons_self
      rcases hx with ⟨hlt, -⟩ | ⟨heq, hnext⟩
      · have hlt : x.key < s.nextRecv.toNat := UInt32.lt_iff_toNat_lt.mp hlt
        have hsame := hfresh.first x hmem (Nat.le_of_lt hlt)
        rw [hsame] at hlt
        omega
      · have hkey : x.key = s.nextRecv.toNat := congrArg UInt32.toNat heq
        have hsame := hfresh.first x hmem (Nat.le_of_eq hkey)
        have hne : s'.nextRecv.toNat ≠ s.nextRecv.toNat := by
          intro h
          have h := UInt32.toNat_inj.mp h
          rw [hnext] at h
          simp at h
        rw [hsame] at hkey
        omega
    refine ⟨hroom, ?_, hopened.trans hs.opened, htyped, ?_, ?_, ?_⟩
    · have hshort := hs.short
      rw [hbuf, List.length_cons] at hshort
      exact Nat.lt_of_succ_lt hshort
    · rw [hpc']
      intro hsettled
      cases hsettled
    · rw [hpc']
      rintro seg - hseg hle
      exact absurd hle (hgone seg (Option.some.inj hseg))
    · rw [hpc']
      intro seg hseg hle
      exact absurd hle (hgone seg (InputPc.moving.inj hseg))

theorem Sorted.step (hs : s.Sorted) (hpacket : cfg.transportProtocol = .packetTransport)
    (h : s.perform a = some (s', evs)) (hidle : s.closePc = .idle)
    (hbound : ∀ x ∈ s.recvBuf.items, x.key + 1 < s.nextRecv.toNat + segmentTreeCapacity)
    (hgrow : s.nextRecv.toNat ≤ s'.nextRecv.toNat) : s'.Sorted := by
  have heff := perform_effect h
  have hroom := heff.recvs.room hpacket hs.room
  have hkeep := heff.keeps
  by_cases hin : a.party = .inputLoop
  · have hflow := input_flow h hin
    have htyped := hflow.wellTyped hs.typed
    by_cases haccept : a = .accept
    · subst haccept
      exact hs.accept h hroom hkeep htyped hbound
    by_cases hwait : a = .waitSpace
    · subst hwait
      exact hs.waitSpace h
    by_cases hmove : a = .moveNext
    · subst hmove
      exact hs.moveNext hpacket h hroom hkeep htyped hgrow
    obtain ⟨hbefore, hafter⟩ := hflow.isMoving hpacket haccept hwait hmove
    have hbuf : s'.recvBuf.items = s.recvBuf.items := hkeep .recvBuf (by
      cases a <;> first | rfl | contradiction)
    have hnext : s'.nextRecv = s.nextRecv := hkeep .nextRecv (by
      cases a <;> first | rfl | contradiction)
    have hopened : s'.closedChan = s.closedChan := hkeep .closedChan (by
      cases a <;> first | rfl | cases hin)
    refine hs.of_settled hroom (hbuf ▸ hs.short) hopened htyped hafter ?_
    rw [hbuf, hnext]
    exact hs.ahead hbefore
  · have hpc : s'.inputPc = s.inputPc :=
      hkeep .inputLoop (by simpa [Action.touches] using hin)
    have hnext : s'.nextRecv = s.nextRecv := hkeep .nextRecv (by
      cases a <;> first | rfl | exact absurd rfl hin)
    have hbuf : s'.recvBuf.items = s.recvBuf.items := hkeep .recvBuf (by
      cases a <;> first | rfl | exact absurd rfl hin)
    have hopened : s'.closedChan = s.closedChan := hkeep .closedChan (by
      cases a with
      | closeClear =>
        simp only [perform, closeClear, hidle] at h
        cases h
      | _ => rfl)
    exact hs.of_kept hroom (heff.recvs.queue_le hpacket hnext) hopened hbuf hnext hpc

theorem sorted_attached (now jitter : ℤ) : (attached now jitter : Session cfg).Sorted where
  room := Nat.zero_le _
  short := Nat.zero_lt_succ _
  opened := rfl
  typed := rfl
  ahead := by
    intro _ x hx
    cases hx
  fresh := by
    intro seg hmoving
    cases hmoving
  space := by
    intro seg hmoving
    cases hmoving

structure HeadOfLine (s : Session cfg) : Prop where
  bounded : s.recvBuf.len + s.recvQueue.len ≤ segmentTreeCapacity
  window : s.recvQueue.items = [] → 0 < s.receiveWindowSize
  accepts : ∀ seg, s.inputPc = .accepting seg → seg.seq = s.nextRecv → s.recvQueue.items = [] →
    ∃ s', s.step .accept = some (s', []) ∧ s'.inputPc = .waitingSpace seg
  waits : ∀ seg, s.inputPc = .waitingSpace seg → s.recvQueue.remaining ≠ 0 →
    ∃ s', s.step .waitSpace = some (s', []) ∧ s'.inputPc = .moving seg
  moves : ∀ seg, s.inputPc = .moving seg → seg.seq = s.nextRecv →
    ∃ s', s.step .moveNext = some (s', [.moved seg]) ∧ seg ∈ s'.recvQueue.items

theorem Sorted.window (hs : s.Sorted) (hempty : s.recvQueue.items = []) :
    0 < s.receiveWindowSize := by
  have hshort := hs.short
  simp only [receiveWindowSize, SegmentTree.len, hempty, List.length_nil]
  omega

theorem Sorted.accepts (hs : s.Sorted) {seg : Segment} (hpc : s.inputPc = .accepting seg)
    (hempty : s.recvQueue.items = []) :
    ∃ s', s.accept = some (s', []) ∧ s'.inputPc = .waitingSpace seg := by
  have htype : checkProtocolType seg.protocol = true := by
    have htyped := hs.typed
    rw [hpc] at htyped
    exact htyped
  unfold Session.accept
  rw [hpc]
  dsimp only
  rw [if_neg (Nat.pos_iff_ne_zero.mp (hs.window hempty)), if_neg (not_not.mpr htype)]
  split
  · rename_i hinsert
    exact absurd hs.short (Nat.not_lt.mpr (SegmentTree.insert_false hinsert).1)
  · exact ⟨_, rfl, rfl⟩

theorem Sorted.waits (hs : s.Sorted) {seg : Segment} (hpc : s.inputPc = .waitingSpace seg)
    (hspace : s.recvQueue.remaining ≠ 0) :
    ∃ s', s.waitSpace = some (s', []) ∧ s'.inputPc = .moving seg := by
  unfold Session.waitSpace
  rw [hpc]
  dsimp only
  rw [hs.opened, if_neg Bool.false_ne_true, if_neg hspace]
  exact ⟨_, rfl, rfl⟩

theorem Sorted.moves (hs : s.Sorted) (hpacket : cfg.transportProtocol = .packetTransport)
    {seg : Segment} (hpc : s.inputPc = .moving seg) (hseq : seg.seq = s.nextRecv) :
    ∃ s', s.moveNext = some (s', [.moved seg]) ∧ seg ∈ s'.recvQueue.items := by
  have hkey : seg.key = s.nextRecv.toNat := congrArg UInt32.toNat hseq
  have hspace := hs.space seg hpc (Nat.le_of_eq hkey.symm)
  have hremaining : s.recvQueue.remaining ≠ 0 := by
    simp only [SegmentTree.remaining, SegmentTree.len]
    omega
  obtain ⟨hstored, hfirst⟩ := hs.fresh seg (by rw [hpc]; rfl) (by rw [hpc]; rfl)
    (Nat.le_of_eq hkey.symm)
  have hhead : s.recvBuf.items.head? = some seg := by
    have hsorted := s.recvBuf.sorted
    cases hitems : s.recvBuf.items with
    | nil =>
      rw [hitems] at hstored
      cases hstored
    | cons x rest =>
      rw [hitems] at hstored hsorted
      rcases List.mem_cons.mp hstored with rfl | hrest
      · rfl
      · have hlt := (List.pairwise_cons.mp hsorted).1 seg hrest
        rw [hfirst x (hitems ▸ List.mem_cons_self) (by omega)]
        rfl
  unfold Session.moveNext
  rw [hpc]
  dsimp only
  rw [if_neg (by simp [hpacket]), if_neg hremaining]
  split
  · rename_i hnone
    have hle := SegmentTree.head_of_deleteMinIf_none hnone hhead
    simp [hseq] at hle
  · rename_i x buf hsome
    obtain ⟨-, hitems⟩ := SegmentTree.deleteMinIf_some hsome
    rw [hitems] at hhead
    cases hhead
    rw [if_neg (by simp [hseq])]
    split
    · rename_i hinsert
      refine ⟨_, rfl, ?_⟩
      rw [(SegmentTree.insert_true hinsert).2, mem_place s.recvQueue.sorted]
      exact .inl rfl
    · rename_i hinsert
      exact absurd hspace (Nat.not_lt.mpr (SegmentTree.insert_false hinsert).1)

theorem Sorted.headOfLine (hs : s.Sorted) (hpacket : cfg.transportProtocol = .packetTransport)
    (hidle : s.closePc = .idle) : s.HeadOfLine where
  bounded := hs.room
  window := hs.window
  accepts seg hpc _ hempty := by
    rw [step_eq_perform hidle]
    exact hs.accepts hpc hempty
  waits seg hpc hspace := by
    rw [step_eq_perform hidle]
    exact hs.waits hpc hspace
  moves seg hpc hseq := by
    rw [step_eq_perform hidle]
    exact hs.moves hpacket hpc hseq

end Session

/-! ## Two endpoints -/

/-- An endpoint does not run too far ahead and does not block itself. -/
structure Endpoint.Flowing {cfg : SessionConfig} (e : Endpoint cfg) : Prop where
  paced : e.session.sendView.Paced e.wire
  sorted : e.session.Sorted

theorem flowing_step {cfg cfg' : SessionConfig} {e e' : Endpoint cfg} {peer : Endpoint cfg'}
    {a : Action} {evs : List Event} (hpacket : cfg.transportProtocol = .packetTransport)
    (h : e.step peer.wire a = some (e', evs)) (hidle : e'.session.closePc = .idle)
    (hbound : e'.created.length < 2 ^ 32) (hpeer : peer.created.length < 2 ^ 32)
    (he : e.Consistent) (hout : Link e peer) (hin : Link peer e) (hflow : e.Flowing)
    (hpaced : peer.session.sendView.Paced peer.wire) : e'.Flowing := by
  obtain ⟨he', -, hin'⟩ := good_step hpacket h hidle hbound hpeer he hout hin
  obtain ⟨s, hs, rfl, -⟩ := endpoint_step h
  have heff := Session.step_effect hs
  obtain ⟨-, hsend, hqueued⟩ := he.room.sends heff hidle
  have hlen : e.created.length < 2 ^ 32 := by
    simp only [Endpoint.observe, List.length_append] at hbound
    omega
  have hnext : e.session.nextRecv.toNat = e.moved.length :=
    he.moved.toNat (Nat.lt_of_le_of_lt hin.moved_le hpeer)
  have hnext' : s.nextRecv.toNat = (e.observe s evs).moved.length :=
    he'.moved.toNat (Nat.lt_of_le_of_lt hin'.moved_le hpeer)
  constructor
  · have hpaced' := hsend.paced hpacket hqueued e.session.sendQueue.sorted
      e.session.sendBuf.sorted (he.created.toNat hlen) hout.reliable hflow.paced
    rwa [sentPackets_sends] at hpaced'
  · refine hflow.sorted.step hpacket (Session.perform_of_step hs) (heff.closes.idle hidle) ?_ ?_
    · intro x hx
      obtain ⟨hwire, hdata⟩ := hin.recvBuf x hx
      rw [hnext]
      exact hpaced.wire_lt hin.reliable hwire hdata
    · rw [hnext]
      refine Nat.le_trans ?_ (Nat.le_of_eq hnext'.symm)
      simp [Endpoint.observe]

namespace Pair

variable {cfg : PairConfig} {p p' : Pair cfg}

structure Flowing (p : Pair cfg) : Prop extends p.Good where
  clientFlows : p.client.Flowing
  serverFlows : p.server.Flowing

theorem calm_flowing_step {e : Side × Action} {out : List (Side × Event)}
    (h : p.step e = some (p', out)) (hcalm : p'.Calm) (hflow : p.Flowing) : p'.Flowing := by
  have hgood := (calm_good_step h hcalm).2 hflow.toGood
  obtain ⟨side, a⟩ := e
  cases side with
  | client =>
    obtain ⟨⟨e', evs⟩, he, heq⟩ := Option.map_eq_some_iff.mp h
    cases heq
    exact ⟨hgood, flowing_step cfg.packets.1 he hcalm.client.1 hcalm.client.2 hcalm.server.2
      hflow.client hflow.up hflow.down hflow.clientFlows hflow.serverFlows.paced,
      hflow.serverFlows⟩
  | server =>
    obtain ⟨⟨e', evs⟩, he, heq⟩ := Option.map_eq_some_iff.mp h
    cases heq
    exact ⟨hgood, hflow.clientFlows, flowing_step cfg.packets.2 he hcalm.server.1 hcalm.server.2
      hcalm.client.2 hflow.server hflow.down hflow.up hflow.serverFlows hflow.clientFlows.paced⟩

theorem flowing_attached (cfg : SessionConfig) (now jitter : ℤ) :
    ({ session := .attached now jitter } : Endpoint cfg).Flowing where
  paced := by
    refine ⟨Nat.zero_lt_succ _, ?_, ?_⟩
    · intro x hx
      cases hx
    · intro p hp
      cases hp
  sorted := Session.sorted_attached now jitter

/-- In every interleaving of the two sessions and the network, as long as nobody closes and
numbers do not wrap around, neither receiver can shut out the segment it is waiting for. -/
theorem packet_sessions_progress {now jitter jitter' : ℤ} {es : List (Side × Action)}
    {outs : List (Side × Event)}
    (h : Machine.Reaches step Machine.Free (start now jitter jitter' : Pair cfg) es outs p)
    (hclient : p.client.created.length < 2 ^ 32) (hserver : p.server.created.length < 2 ^ 32)
    (hopen : p.client.session.closeRequested = false)
    (hopen' : p.server.session.closeRequested = false) :
    p.client.session.HeadOfLine ∧ p.server.session.HeadOfLine := by
  have hcalm : p.Calm :=
    ⟨⟨Session.closeRequested_eq_false_iff.mp hopen, hclient⟩,
      ⟨Session.closeRequested_eq_false_iff.mp hopen', hserver⟩⟩
  have hflow : p.Calm → p.Flowing := by
    refine h.invariant (I := fun p _ => p.Calm → p.Flowing) ?_ ?_
    · intro _
      exact ⟨good_start _ _ _, flowing_attached _ _ _, flowing_attached _ _ _⟩
    · intro p _ e p' out ih _ hs hcalm'
      exact calm_flowing_step hs hcalm' (ih (calm_good_step hs hcalm').1)
  have hp := hflow hcalm
  exact ⟨hp.clientFlows.sorted.headOfLine cfg.packets.1 hcalm.client.1,
    hp.serverFlows.sorted.headOfLine cfg.packets.2 hcalm.server.1⟩

def replyPacket : Packet where
  metadata := .dataAck {
    protocol := .dataServerToClient, sessionID := 1, seq := 1, unAckSeq := 1, windowSize := 4095,
    payloadLen := 1 }
  payload := [4]

/-- The server's data overtakes its open session response, the one the client waits for. -/
def overtakingRun : List (Side × Action) := openRun ++ [
  (.server, .write [4]), (.server, .writeOpen), (.server, .writeChunk), (.server, .writeReserve),
  (.server, .writeLock), (.server, .writeFragment),
  (.server, .outputWake .wakeup), (.server, .outputStart 0), (.server, .sendCheck 16),
  (.server, .outputLock), (.server, .sendNext 16 0 1000 .sent),
  (.server, .sendNext 16 0 1000 .sent),
  (.client, .receive replyPacket 0), (.client, .releaseNext), (.client, .releaseNext),
  (.client, .requestAck 0), (.client, .accept), (.client, .waitSpace), (.client, .moveNext),
  (.client, .requestAckAgain 0), (.client, .finishInput),
  (.client, .receive (Session.openResponseSegment plainConfig.server 0).toPacket 0),
  (.client, .requestAck 0), (.client, .accept), (.client, .waitSpace)]

theorem overtaken_response_progress :
    ∃ (p : Pair plainConfig) (outs : List (Side × Event)),
      Machine.Reaches step Machine.Free (start 0 0 0) overtakingRun outs p ∧
      p.client.session.recvBuf.len = 2 ∧ p.client.session.nextRecv = 0 ∧
      p.client.session.HeadOfLine ∧ p.server.session.HeadOfLine := by
  have hsummary : (Machine.run step (start 0 0 0 : Pair plainConfig) overtakingRun).map (fun r =>
      (r.1.client.session.recvBuf.len, r.1.client.session.nextRecv, r.1.client.created.length,
        r.1.server.created.length, r.1.client.session.closeRequested,
        r.1.server.session.closeRequested)) = some (2, 0, 1, 2, false, false) := by
    decide +kernel
  obtain ⟨⟨p, outs⟩, hrun, heq⟩ := Option.map_eq_some_iff.mp hsummary
  simp only [Prod.mk.injEq] at heq
  obtain ⟨hbuf, hnext, hclient, hserver, hopen, hopen'⟩ := heq
  have hreach := Machine.reaches_of_run hrun
  exact ⟨p, outs, hreach, hbuf, hnext,
    packet_sessions_progress hreach (by omega) (by omega) hopen hopen'⟩

end Pair

end Mieru.Protocol
