import Mieru.Lib.Machine
import Mieru.Protocol.Framing
import Mieru.Session.Step

/-! # What a session hands to its underlay

Every packet that leaves a session has the shape that framing relies on. -/
namespace Mieru.Protocol

open LowEntropy Mathext OrderedTree Result TrafficPattern

variable {cfg : SessionConfig}

/-- Every segment that waits for a transmission or an acknowledgement. -/
structure SendView.Produced (cfg : SessionConfig) (v : SendView) : Prop where
  queue : ∀ seg ∈ v.queue, Protocol.Produced cfg seg.toPacket
  buf : ∀ seg ∈ v.buf, Protocol.Produced cfg seg.toPacket

theorem SendView.Produced.step {nextRecv : UInt32} {hand : Option Segment} {pc pc' : ClosePc}
    {a : Action} {v v' : SendView} {evs : List Event} (h : v.Produced cfg)
    (heff : SendEffect cfg nextRecv hand pc pc' a v v' evs)
    (hqueue : v.queue.Pairwise fun a b => a.key < b.key)
    (hbuf : v.buf.Pairwise fun a b => a.key < b.key) :
    v'.Produced cfg ∧ ∀ p fate, .output p fate ∈ evs → Protocol.Produced cfg p := by
  have hrefresh {seg seg' : Segment} (hseg : Protocol.Produced cfg seg.toPacket)
      (hsame : seg'.toPacket = (seg.refreshAck nextRecv).toPacket) :
      Protocol.Produced cfg seg'.toPacket := hsame ▸ produced_refreshAck nextRecv hseg
  cases heff with
  | quiet => exact ⟨h, by simp⟩
  | @create seg hseq hprod hroom =>
    refine ⟨⟨?_, h.buf⟩, by simp⟩
    intro x hx
    rcases (mem_place hqueue).mp hx with rfl | ⟨hx, -⟩
    · exact hprod
    · exact h.queue x hx
  | lose => exact ⟨⟨h.queue, h.buf⟩, by simp⟩
  | @transmit seg rest fate seg' hq hsame =>
    have hseg' := hrefresh (h.queue seg (hq ▸ List.mem_cons_self)) hsame
    refine ⟨⟨fun x hx => h.queue x (hq ▸ List.mem_cons_of_mem _ hx), ?_⟩, ?_⟩
    · intro x hx
      rcases (mem_place hbuf).mp hx with rfl | ⟨hx, -⟩
      · exact hseg'
      · exact h.buf x hx
    · intro p fate hout
      cases List.mem_singleton.mp hout
      exact hseg'
  | @retransmit seg fate seg' hmem hsame =>
    have hseg' := hrefresh (h.buf seg hmem) hsame
    refine ⟨⟨h.queue, ?_⟩, ?_⟩
    · intro x hx
      obtain ⟨y, hy, rfl⟩ := List.mem_map.mp hx
      split_ifs
      · exact hseg'
      · exact h.buf y hy
    · intro p fate hout
      cases List.mem_singleton.mp hout
      exact hseg'
  | @touch f hf =>
    refine ⟨⟨h.queue, ?_⟩, by simp⟩
    intro x hx
    obtain ⟨y, hy, rfl⟩ := List.mem_map.mp hx
    exact (hf y).symm ▸ h.buf y hy
  | acknowledge _ _ _ _ hprod =>
    refine ⟨⟨h.queue, h.buf⟩, ?_⟩
    intro p fate hout
    cases List.mem_singleton.mp hout
    exact hprod
  | @release seg held rest das hb =>
    exact ⟨⟨h.queue, fun x hx => h.buf x (hb ▸ List.mem_cons_of_mem _ hx)⟩, by simp⟩
  | @stream seg rest fate hstream hq =>
    refine ⟨⟨fun x hx => h.queue x (hq ▸ List.mem_cons_of_mem _ hx), h.buf⟩, ?_⟩
    intro p fate hout
    cases List.mem_singleton.mp hout
    exact h.queue seg (hq ▸ List.mem_cons_self)
  | @reply seg fate hbypass hclosing hseq hprod =>
    refine ⟨⟨h.queue, h.buf⟩, ?_⟩
    intro p fate hout
    simp only [List.mem_cons, reduceCtorEq, false_or, Event.output.injEq, List.not_mem_nil,
      or_false] at hout
    exact hout.1 ▸ hprod
  | force =>
    refine ⟨⟨h.queue, h.buf⟩, ?_⟩
    intro p fate hout
    cases List.mem_singleton.mp hout
    exact produced_session rfl rfl rfl
  | clearQueue => exact ⟨⟨fun _ hx => absurd hx List.not_mem_nil, h.buf⟩, by simp⟩
  | clearBuf => exact ⟨⟨h.queue, fun _ hx => absurd hx List.not_mem_nil⟩, by simp⟩

/-- Whatever is written, received, resent or closed, the packets have the right shape. -/
theorem Session.output_produced {now jitter : ℤ} {es : List Action} {outs : List Event}
    {s : Session cfg} (h : Machine.Reaches step Machine.Free (attached now jitter) es outs s)
    {p : Packet} {fate : Fate} (hout : .output p fate ∈ outs) : Produced cfg p := by
  have hinv : s.sendView.Produced cfg ∧
      ∀ p fate, .output p fate ∈ outs → Protocol.Produced cfg p := by
    refine h.invariant (I := fun s outs => s.sendView.Produced cfg ∧
      ∀ p fate, .output p fate ∈ outs → Protocol.Produced cfg p) ?_ ?_
    · refine ⟨⟨?_, ?_⟩, by simp⟩
      · intro x hx
        cases hx
      · intro x hx
        cases hx
    · intro s outs a s' evs ih _ hs
      obtain ⟨hview, hnew⟩ := ih.1.step (step_effect hs).sends s.sendQueue.sorted s.sendBuf.sorted
      refine ⟨hview, fun p fate hmem => ?_⟩
      rcases List.mem_append.mp hmem with hmem | hmem
      · exact ih.2 p fate hmem
      · exact hnew p fate (List.mem_filter.mpr ⟨hmem, rfl⟩)
  exact hinv.2 p fate hout

/-! ## From the session to the wire -/

theorem mode_roundTrip : ∀ mode ∈ lowEntropyModes,
    ((UInt8.ofNat mode.toNat).toNat : LowEntropyMode) = mode := by
  decide

theorem rotation_roundTrip : ∀ rotation ∈ lowEntropyMaskRotations,
    ((UInt8.ofNat rotation.toNat).toNat : LowEntropyMaskRotation) = rotation ∧
      isValidLowEntropyRotation rotation = true := by
  decide

theorem Produced.framable {p : Packet} (h : Produced cfg p)
    (hvalid : validate cfg.trafficPattern = .ok ()) : Framable p := by
  unfold Produced at h
  split at h
  · rename_i ss hm
    simpa only [Framable, hm] using h
  · rename_i das hm
    obtain ⟨hpdu, h⟩ := h
    simp only [Framable, hm]
    split_ifs at h ⊢ with hlow
    · obtain ⟨mode, rotation, fragmentSize, hconfig, -, -, hlen, hmode, hrotation, hext⟩ := h
      obtain ⟨hmem, -, hrot⟩ := extractLowEntropyConfig_valid hvalid hconfig
      obtain ⟨hrotEq, hrotOk⟩ := rotation_roundTrip rotation hrot
      rw [hmode, hrotation, mode_roundTrip mode hmem, hrotEq]
      exact ⟨hext, hpdu, hlen, hrotOk⟩
    · exact ⟨h.1, h.2.2⟩

theorem Produced.fits {p : Packet} (h : Produced cfg p)
    (hpacket : cfg.transportProtocol = .packetTransport) (hmtu : 1280 ≤ cfg.mtu) :
    (p.metadata.payloadLen.toNat + packetOverhead : ℕ) ≤ cfg.mtu := by
  have hstream : TransportProtocol.packetTransport ≠ .streamTransport := by decide
  have hoverhead : packetOverhead = 88 := rfl
  unfold Produced at h
  split at h
  · rename_i ss hm
    simp only [hm, Metadata.payloadLen, maxSessionOpenPayload] at h ⊢
    omega
  · rename_i das hm
    simp only [hm, Metadata.payloadLen]
    obtain ⟨hpdu, h⟩ := h
    split_ifs at h with hlow
    · obtain ⟨mode, rotation, fragmentSize, -, hsize, hle, hlen, -⟩ := h
      obtain ⟨params, hbuild, -⟩ := bind_eq_ok.mp hlen
      obtain ⟨-, hcount, hpayloadLen⟩ := (encodedPayloadLen_eq_ok hbuild).mp hlen
      rw [Int.toNat_natCast] at hcount hpayloadLen
      have hoff : mode ≠ modeOff := by
        rintro rfl
        cases hbuild
      -- as many chunks as the MTU has room for hold the fragment
      have hchunks : fragmentSize = ((cfg.mtu - packetOverhead) / lowEntropyChunkLen).toNat *
          params.sourceBytesPerChunk := by
        simp only [maxFragmentSize, hoff, ↓reduceIte, hbuild, ok_bind, hpacket] at hsize
        exact (Except.ok.inj (ensure_bind_eq_ok.mp hsize).2).symm
      have hfew := (chunkCount_le_iff params.source_pos).mpr (hchunks ▸ hle)
      rw [hpayloadLen, toNat_encodedLen hcount]
      simp only [lowEntropyChunkLen] at hfew
      omega
    · obtain ⟨hlen, hle, -⟩ := h
      rw [hpacket] at hle
      simp only [maxFragmentSizeInternal, hstream, ↓reduceIte] at hle
      omega

end Mieru.Protocol
