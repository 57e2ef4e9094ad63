import Mieru.Lib.Machine
import Mieru.Session.Step

/-! # Graceful close

`closeWithError` takes `lastSend` for proof that the close request and everything queued
before it went out. The queue is emptied in order, so that is right as long as nothing
that never was in the queue is sent meanwhile: an acknowledgement carries the number
`nextSend - 1`, which is not smaller than that of the close request. -/
namespace Mieru.Protocol

open OrderedTree

variable {cfg : SessionConfig}

/-- The segment was given to `output`, under whatever `unAckSeq`. -/
def Passed (outs : List Event) (seg : Segment) : Prop :=
  ∃ nextRecv fate, Event.output (seg.refreshAck nextRecv).toPacket fate ∈ outs

/-- What a graceful close that ends with success should be able to rely on. -/
structure SoundClose (cfg : SessionConfig) (closeRequestSeq : UInt32) (outs : List Event) :
    Prop where
  request : ∃ status fate,
    Event.output (closeRequestSegment cfg closeRequestSeq status).toPacket fate ∈ outs
  queued : ∀ seg, Event.created seg true ∈ outs → seg.seq < closeRequestSeq → Passed outs seg

namespace Session

def requestWaits (s : Session cfg) : Bool :=
  match s.closePc with
  | .polling closeRequestSeq _ _ => s.sendQueue.items.any fun seg => seg.seq = closeRequestSeq
  | _ => false

/-- The close request would be the first segment of the session. -/
def closesUnused (s : Session cfg) : Action → Bool
  | .closeQueue => s.nextSend = 0
  | _ => false

def sendsPast (s : Session cfg) : Action → Bool
  | .ackSend _ _ .sent => true
  | .inputClose _ .sent =>
    s.inputPc.segment.any fun seg => seg.protocol = .closeSessionRequest
  | _ => false

/-- Nothing is sent past the queue while the close request waits there, a session that
never sent anything is not closed, and numbers do not wrap around. -/
def closeGuard (s : Session cfg) (a : Action) : Bool :=
  !(s.requestWaits && s.sendsPast a) && !s.closesUnused a &&
    decide (s.nextSend.toNat + 1 < 2 ^ 32)

end Session

/-! ## The order of sequence numbers -/

/-- Segments leave the queue in order, and `lastSend` is the number of one of them. -/
structure Ordered (v : SendView) : Prop where
  queue_lt : ∀ x ∈ v.queue, x.key < v.nextSend.toNat
  buf_lt : ∀ b ∈ v.buf, b.key < v.nextSend.toNat
  buf_queue : ∀ b ∈ v.buf, ∀ x ∈ v.queue, b.key < x.key
  lastSend_le : v.lastSend.toNat ≤ v.nextSend.toNat - 1

structure Accounted (v : SendView) (outs : List Event) : Prop where
  created_lt : ∀ seg, Event.created seg true ∈ outs → seg.key < v.nextSend.toNat
  queued : ∀ seg, Event.created seg true ∈ outs →
    seg ∈ v.queue ∨ Passed outs seg ∧ ∀ x ∈ v.queue, seg.key < x.key

section Send

variable {nextRecv : UInt32} {hand : Option Segment} {pc pc' : ClosePc} {a : Action}
  {v v' : SendView} {evs outs : List Event}

theorem toNat_add_one {n : UInt32} (h : n.toNat + 1 < 2 ^ 32) : (n + 1).toNat = n.toNat + 1 := by
  rw [UInt32.toNat_add]
  exact Nat.mod_eq_of_lt h

theorem toNat_sub_one {n : UInt32} (h : n ≠ 0) : (n - 1).toNat = n.toNat - 1 := by
  rw [UInt32.toNat_sub_of_le]
  · rfl
  · rw [UInt32.le_iff_toNat_le]
    refine Nat.one_le_iff_ne_zero.mpr fun hzero => h ?_
    exact UInt32.toNat_inj.mp hzero

theorem Fate.lastSend_of {P : UInt32 → Prop} {fate : Fate} {seq old : UInt32} (hseq : P seq)
    (hold : P old) : P (fate.lastSend seq old) := by
  cases fate with
  | sent => exact hseq
  | notReady => exact hold
  | failed => exact hold

theorem Ordered.step (h : Ordered v)
    (heff : SendEffect cfg nextRecv hand pc pc' a v v' evs)
    (hpacket : cfg.transportProtocol = .packetTransport) (hpast : pc.pastPolling = false)
    (hwrap : v.nextSend.toNat + 1 < 2 ^ 32)
    (hqueue : v.queue.Pairwise fun a b => a.key < b.key)
    (hbuf : v.buf.Pairwise fun a b => a.key < b.key) : Ordered v' := by
  have hsucc := toNat_add_one hwrap
  have hlast := h.lastSend_le
  cases heff with
  | quiet => exact h
  | @create seg hseq hprod hroom =>
    have hkey : seg.key = v.nextSend.toNat := congrArg UInt32.toNat hseq
    refine ⟨?_, ?_, ?_, by dsimp only; omega⟩
    · intro x hx
      rcases (mem_place hqueue).mp hx with rfl | ⟨hx, -⟩
      · dsimp only; omega
      · have := h.queue_lt x hx
        dsimp only; omega
    · intro b hb
      have := h.buf_lt b hb
      dsimp only; omega
    · intro b hb x hx
      rcases (mem_place hqueue).mp hx with rfl | ⟨hx, -⟩
      · exact hkey ▸ h.buf_lt b hb
      · exact h.buf_queue b hb x hx
  | lose hseq =>
    refine ⟨?_, ?_, h.buf_queue, by dsimp only; omega⟩
    · intro x hx
      have := h.queue_lt x hx
      dsimp only; omega
    · intro b hb
      have := h.buf_lt b hb
      dsimp only; omega
  | @transmit seg rest fate seg' hq hsame =>
    rw [hq] at hqueue
    have hfirst := (List.pairwise_cons.mp hqueue).1
    have hkey := (Segment.resent_same hsame).1
    have hseg : seg.key < v.nextSend.toNat := h.queue_lt seg (hq ▸ List.mem_cons_self)
    refine ⟨fun x hx => h.queue_lt x (hq ▸ List.mem_cons_of_mem _ hx), ?_, ?_, ?_⟩
    · intro b hb
      rcases (mem_place hbuf).mp hb with rfl | ⟨hb, -⟩
      · exact hkey ▸ hseg
      · exact h.buf_lt b hb
    · intro b hb x hx
      rcases (mem_place hbuf).mp hb with rfl | ⟨hb, -⟩
      · exact hkey ▸ hfirst x hx
      · exact h.buf_queue b hb x (hq ▸ List.mem_cons_of_mem _ hx)
    · have hsent : seg'.seq.toNat ≤ v.nextSend.toNat - 1 :=
        Nat.le_sub_one_of_lt (hkey.trans_lt hseg)
      exact Fate.lastSend_of (P := fun n => n.toNat ≤ v.nextSend.toNat - 1) hsent hlast
  | @retransmit seg fate seg' hmem hsame =>
    have hkey := (Segment.resent_same hsame).1
    have hseg := h.buf_lt seg hmem
    have hkeys : ∀ b ∈ v.buf.map fun x => if x.key = seg.key then seg' else x,
        ∃ b₀ ∈ v.buf, b.key = b₀.key := by
      intro b hb
      obtain ⟨b₀, hb₀, rfl⟩ := List.mem_map.mp hb
      refine ⟨b₀, hb₀, ?_⟩
      split_ifs with heq
      · exact hkey.trans heq.symm
      · rfl
    refine ⟨h.queue_lt, ?_, ?_, ?_⟩
    · intro b hb
      obtain ⟨b₀, hb₀, heq⟩ := hkeys b hb
      exact heq ▸ h.buf_lt b₀ hb₀
    · intro b hb x hx
      obtain ⟨b₀, hb₀, heq⟩ := hkeys b hb
      exact heq ▸ h.buf_queue b₀ hb₀ x hx
    · have hsent : seg'.seq.toNat ≤ v.nextSend.toNat - 1 :=
        Nat.le_sub_one_of_lt (hkey.trans_lt hseg)
      exact Fate.lastSend_of (P := fun n => n.toNat ≤ v.nextSend.toNat - 1) hsent hlast
  | @touch f hf =>
    have hkey (x : Segment) : (f x).key = x.key := congrArg (fun p : Packet => p.seq.toNat) (hf x)
    refine ⟨h.queue_lt, ?_, ?_, hlast⟩
    · intro b hb
      obtain ⟨b₀, hb₀, rfl⟩ := List.mem_map.mp hb
      exact hkey b₀ ▸ h.buf_lt b₀ hb₀
    · intro b hb x hx
      obtain ⟨b₀, hb₀, rfl⟩ := List.mem_map.mp hb
      exact hkey b₀ ▸ h.buf_queue b₀ hb₀ x hx
  | @acknowledge das fate hbypass hack hun hseq hprod =>
    refine ⟨h.queue_lt, h.buf_lt, h.buf_queue, ?_⟩
    have hsent : das.seq.toNat ≤ v.nextSend.toNat - 1 := by
      rw [hseq]
      split_ifs with hzero
      · exact Nat.zero_le _
      · exact Nat.le_of_eq (toNat_sub_one hzero)
    exact Fate.lastSend_of (P := fun n => n.toNat ≤ v.nextSend.toNat - 1) hsent hlast
  | @release seg held rest das hb =>
    refine ⟨h.queue_lt, ?_, ?_, hlast⟩
    · intro b hmem
      exact h.buf_lt b (hb ▸ List.mem_cons_of_mem _ hmem)
    · intro b hmem
      exact h.buf_queue b (hb ▸ List.mem_cons_of_mem _ hmem)
  | stream hstream => rw [hpacket] at hstream; cases hstream
  | @reply seg fate hbypass hclosing hseq =>
    have hkey : seg.seq.toNat = v.nextSend.toNat := congrArg UInt32.toNat hseq
    refine ⟨?_, ?_, h.buf_queue, ?_⟩
    · intro x hx
      have := h.queue_lt x hx
      dsimp only; omega
    · intro b hb
      have := h.buf_lt b hb
      dsimp only; omega
    · refine Fate.lastSend_of (P := fun n => n.toNat ≤ (v.nextSend + 1).toNat - 1) ?_ ?_ <;> omega
  | force hpc => rw [hpc] at hpast; cases hpast
  | clearQueue hpc => rw [hpc] at hpast; cases hpast
  | clearBuf hpc => rw [hpc] at hpast; cases hpast

theorem Passed.mono {outs' : List Event} {seg : Segment} (h : Passed outs seg)
    (hsub : outs ⊆ outs') : Passed outs' seg := by
  obtain ⟨nextRecv, fate, hmem⟩ := h
  exact ⟨nextRecv, fate, hsub hmem⟩

theorem Accounted.of_subset (h : Accounted v outs) (hnext : v.nextSend.toNat ≤ v'.nextSend.toNat)
    (hnew : ∀ seg, Event.created seg true ∉ evs) (hsub : v'.queue ⊆ v.queue)
    (hkept : ∀ seg ∈ v.queue, seg ∈ v'.queue ∨
      Passed (outs ++ evs) seg ∧ ∀ x ∈ v'.queue, seg.key < x.key) :
    Accounted v' (outs ++ evs) := by
  have hold (seg : Segment) (hseg : Event.created seg true ∈ outs ++ evs) :
      Event.created seg true ∈ outs :=
    (List.mem_append.mp hseg).resolve_right (hnew seg)
  refine ⟨fun seg hseg => Nat.lt_of_lt_of_le (h.created_lt seg (hold seg hseg)) hnext, ?_⟩
  intro seg hseg
  rcases h.queued seg (hold seg hseg) with hmem | ⟨hpassed, hlt⟩
  · exact hkept seg hmem
  · exact .inr ⟨hpassed.mono (List.subset_append_left _ _), fun x hx => hlt x (hsub hx)⟩

theorem Accounted.step (h : Accounted v outs)
    (heff : SendEffect cfg nextRecv hand pc pc' a v v' evs)
    (hpacket : cfg.transportProtocol = .packetTransport) (hpast : pc.pastPolling = false)
    (hwrap : v.nextSend.toNat + 1 < 2 ^ 32)
    (hqueue : v.queue.Pairwise fun a b => a.key < b.key) : Accounted v' (outs ++ evs) := by
  have hsucc := toNat_add_one hwrap
  have hsame {w : SendView} {evs : List Event} (hw : w.queue = v.queue)
      (hnext : v.nextSend.toNat ≤ w.nextSend.toNat)
      (hnew : ∀ seg, Event.created seg true ∉ evs) : Accounted w (outs ++ evs) :=
    h.of_subset hnext hnew (hw ▸ List.Subset.refl _) fun seg hseg => .inl (hw ▸ hseg)
  cases heff with
  | quiet => exact hsame rfl (Nat.le_refl _) (by simp)
  | @create seg hseq hprod hroom =>
    have hkey : seg.key = v.nextSend.toNat := congrArg UInt32.toNat hseq
    constructor
    · intro x hx
      rcases List.mem_append.mp hx with hx | hx
      · have := h.created_lt x hx
        dsimp only; omega
      · cases List.mem_singleton.mp hx
        dsimp only; omega
    · intro x hx
      rcases List.mem_append.mp hx with hx | hx
      · have hlt := h.created_lt x hx
        rcases h.queued x hx with hmem | ⟨hpassed, hbefore⟩
        · exact .inl ((mem_place hqueue).mpr (.inr ⟨hmem, by omega⟩))
        · refine .inr ⟨hpassed.mono (List.subset_append_left _ _), ?_⟩
          intro y hy
          rcases (mem_place hqueue).mp hy with rfl | ⟨hy, -⟩
          · omega
          · exact hbefore y hy
      · cases List.mem_singleton.mp hx
        exact .inl ((mem_place hqueue).mpr (.inl rfl))
  | lose hseq => exact hsame rfl (by dsimp only; omega) (by simp)
  | @transmit seg rest fate seg' hq hsent =>
    rw [hq] at hqueue
    refine h.of_subset (Nat.le_refl _) (by simp) ?_ ?_
    · intro x hx
      exact hq ▸ List.mem_cons_of_mem _ hx
    · intro x hx
      rw [hq] at hx
      rcases List.mem_cons.mp hx with rfl | hx
      · refine .inr ⟨⟨nextRecv, fate, ?_⟩, (List.pairwise_cons.mp hqueue).1⟩
        rw [← hsent]
        exact List.mem_append_right _ List.mem_cons_self
      · exact .inl hx
  | retransmit => exact hsame rfl (Nat.le_refl _) (by simp)
  | touch => exact hsame rfl (Nat.le_refl _) (by simp)
  | acknowledge => exact hsame rfl (Nat.le_refl _) (by simp)
  | release => exact hsame rfl (Nat.le_refl _) (by simp)
  | stream hstream => rw [hpacket] at hstream; cases hstream
  | reply => exact hsame rfl (by dsimp only; omega) (by simp)
  | force hpc => rw [hpc] at hpast; cases hpast
  | clearQueue hpc => rw [hpc] at hpast; cases hpast
  | clearBuf hpc => rw [hpc] at hpast; cases hpast

theorem lastSend_lt_step (heff : SendEffect cfg nextRecv hand pc pc' a v v' evs)
    (h : Ordered v) (hpacket : cfg.transportProtocol = .packetTransport)
    (hpast : pc.pastPolling = false) (hqueue : v.queue.Pairwise fun a b => a.key < b.key)
    {seg : Segment} (hseg : seg ∈ v.queue) (hseg' : seg ∈ v'.queue)
    (hbypass : a.bypassesQueue = false) (hlt : v.lastSend < seg.seq) : v'.lastSend < seg.seq := by
  cases heff with
  | @transmit first rest fate first' hq hsame =>
    rw [hq] at hqueue
    have hless : first'.seq < seg.seq :=
      UInt32.lt_iff_toNat_lt.mpr
        ((Segment.resent_same hsame).1.trans_lt ((List.pairwise_cons.mp hqueue).1 seg hseg'))
    exact Fate.lastSend_of (P := fun n => n < seg.seq) hless hlt
  | @retransmit old fate old' hmem hsame =>
    have hless : old'.seq < seg.seq :=
      UInt32.lt_iff_toNat_lt.mpr
        ((Segment.resent_same hsame).1.trans_lt (h.buf_queue old hmem seg hseg))
    exact Fate.lastSend_of (P := fun n => n < seg.seq) hless hlt
  | acknowledge htrue => rw [hbypass] at htrue; cases htrue
  | reply htrue => rw [hbypass] at htrue; cases htrue
  | stream hstream => rw [hpacket] at hstream; cases hstream
  | force hpc => rw [hpc] at hpast; cases hpast
  | _ => exact hlt

theorem mem_queue_step (heff : SendEffect cfg nextRecv hand pc pc' a v v' evs)
    (hqueue : v.queue.Pairwise fun a b => a.key < b.key) {seg : Segment} (hseg : seg ∈ v'.queue) :
    seg ∈ v.queue ∨ seg.key = v.nextSend.toNat := by
  cases heff with
  | create hseq =>
    rcases (mem_place hqueue).mp hseg with rfl | ⟨hmem, -⟩
    · exact .inr (congrArg UInt32.toNat hseq)
    · exact .inl hmem
  | transmit _ hq => exact .inl (hq ▸ List.mem_cons_of_mem _ hseg)
  | stream _ hq => exact .inl (hq ▸ List.mem_cons_of_mem _ hseg)
  | clearQueue => cases hseg
  | _ => exact .inl hseg

theorem lastSend_create (heff : SendEffect cfg nextRecv hand pc pc' a v v' evs) {seg : Segment}
    (hseg : Event.created seg true ∈ evs) : v'.lastSend = v.lastSend := by
  cases heff with
  | create => rfl
  | _ => simp at hseg

theorem Accounted.of_sends (h : Accounted v (outs ++ evs.filter Event.isSend)) :
    Accounted v (outs ++ evs) := by
  have hcreated (seg : Segment) (hseg : Event.created seg true ∈ outs ++ evs) :
      Event.created seg true ∈ outs ++ evs.filter Event.isSend := by
    rcases List.mem_append.mp hseg with hseg | hseg
    · exact List.mem_append_left _ hseg
    · exact List.mem_append_right _ (List.mem_filter.mpr ⟨hseg, rfl⟩)
  have hsub : outs ++ evs.filter Event.isSend ⊆ outs ++ evs := by
    intro ev hev
    rcases List.mem_append.mp hev with hev | hev
    · exact List.mem_append_left _ hev
    · exact List.mem_append_right _ (List.mem_filter.mp hev).1
  refine ⟨fun seg hseg => h.created_lt seg (hcreated seg hseg), ?_⟩
  intro seg hseg
  rcases h.queued seg (hcreated seg hseg) with hmem | ⟨hpassed, hlt⟩
  · exact .inl hmem
  · exact .inr ⟨hpassed.mono hsub, hlt⟩

end Send

/-! ## Runs -/

namespace Session

variable {s s' : Session cfg} {a : Action} {evs outs : List Event}

theorem lastSend_output {t : Session cfg} {seg : Segment} {fate : Fate} {now : ℤ} {ok : Bool}
    (h : s.output seg fate now = (t, ok)) (hfate : fate ≠ .sent) : t.lastSend = s.lastSend := by
  obtain ⟨time, rfl⟩ := output_eq h
  cases fate with
  | sent => exact absurd rfl hfate
  | notReady | failed => rfl

theorem lastSend_of_bypass (h : s.step a = some (s', evs)) (ha : a.bypassesQueue = true)
    (hpast : s.sendsPast a = false) : s'.lastSend = s.lastSend := by
  have hp := perform_of_step h
  cases a with
  | ackSend now jitter fate =>
    have hfate : fate ≠ .sent := by
      rintro rfl
      cases hpast
    simp only [perform, ackSend] at hp
    split at hp
    · split_ifs at hp
      split at hp
      all_goals
        rename_i hout
        have hsame := lastSend_output hout hfate
        cases hp
        exact hsame
    · cases hp
  | inputClose now fate =>
    simp only [perform, inputClose] at hp
    split at hp
    · rename_i seg hpc
      have hclose {t : Session cfg} {graceful : Bool} {caller : Goroutine} :
          (t.closeWithError graceful caller).lastSend = t.lastSend :=
        congrArg SendView.lastSend (closeWithError_sendView _ _)
      split_ifs at hp with hlock hrequest
      · have hfate : fate ≠ .sent := by
          rintro rfl
          simp [sendsPast, hpc, InputPc.segment, hrequest] at hpast
        split at hp
        all_goals
          rename_i hout
          have hsame := lastSend_output hout hfate
          cases hp
          exact hclose.trans hsame
      · cases hp
        exact hclose
    · cases hp
  | _ => cases ha

/-- What holds until the close request is no longer waited for. -/
structure CloseReady (s : Session cfg) (outs : List Event) : Prop where
  ordered : Ordered s.sendView
  accounted : Accounted s.sendView outs
  waiting : ∀ q status left, s.closePc = .polling q status left →
    Event.created (closeRequestSegment cfg q status) true ∈ outs ∧
      (closeRequestSegment cfg q status ∈ s.sendQueue.items → s.lastSend < q)

theorem CloseReady.step (h : s.CloseReady outs) (hstep : s.step a = some (s', evs))
    (hpacket : cfg.transportProtocol = .packetTransport) (hguard : s.closeGuard a = true)
    (hpast : s'.closePc.pastPolling = false) : s'.CloseReady (outs ++ evs) := by
  have heff := step_effect hstep
  have hpast₀ := heff.closes.pastPolling hpast
  simp only [closeGuard, Bool.and_eq_true, Bool.not_eq_true', decide_eq_true_eq] at hguard
  obtain ⟨⟨hbypass, hunused⟩, hwrap⟩ := hguard
  have hqueue := s.sendQueue.sorted
  have hbuf := s.sendBuf.sorted
  have hordered := h.ordered.step heff.sends hpacket hpast₀ hwrap hqueue hbuf
  refine ⟨hordered, (h.accounted.step heff.sends hpacket hpast₀ hwrap hqueue).of_sends, ?_⟩
  have hstay {q : UInt32} {status : UInt8} {left : ℕ} (hpc : s.closePc = .polling q status left) :
      Event.created (closeRequestSegment cfg q status) true ∈ outs ++ evs ∧
        (closeRequestSegment cfg q status ∈ s'.sendQueue.items → s'.lastSend < q) := by
    obtain ⟨hcreated, hwait⟩ := h.waiting q status left hpc
    refine ⟨List.mem_append_left _ hcreated, fun hmem' => ?_⟩
    have hmem : closeRequestSegment cfg q status ∈ s.sendQueue.items := by
      rcases mem_queue_step heff.sends hqueue hmem' with hmem | hkey
      · exact hmem
      · exact absurd hkey (Nat.ne_of_lt (h.accounted.created_lt _ hcreated))
    have hwaits : s.requestWaits = true := by
      simp only [requestWaits, hpc]
      exact List.any_eq_true.mpr ⟨_, hmem, decide_eq_true rfl⟩
    rw [hwaits, Bool.true_and] at hbypass
    cases ha : a.bypassesQueue with
    | true =>
      rw [lastSend_of_bypass hstep ha hbypass]
      exact hwait hmem
    | false =>
      exact lastSend_lt_step heff.sends h.ordered hpacket hpast₀ hqueue hmem hmem' ha (hwait hmem)
  intro q status left hpc'
  have hclose := heff.closes
  rw [hpc'] at hclose
  generalize hpc : s.closePc = pc at hclose
  cases hclose with
  | still => exact hstay hpc
  | poll => exact hstay hpc
  | queue ha hquiet hmem =>
    refine ⟨List.mem_append_right _ hmem, fun _ => ?_⟩
    have hsame := lastSend_create heff.sends (List.mem_filter.mpr ⟨hmem, rfl⟩)
    simp only [ha, closesUnused, decide_eq_false_iff_not] at hunused
    have hle := h.ordered.lastSend_le
    have hne : s.nextSend.toNat ≠ 0 := fun hzero => hunused (UInt32.toNat_inj.mp hzero)
    rw [UInt32.lt_iff_toNat_lt]
    simp only [sendView] at hsame hle
    rw [hsame]
    omega
  | advance _ _ htrue => cases htrue

theorem closeReady_attached (now jitter : ℤ) :
    (attached now jitter : Session cfg).CloseReady [] := by
  refine ⟨⟨?_, ?_, ?_, Nat.le_refl _⟩, ⟨?_, ?_⟩, ?_⟩
  · intro x hx
    cases hx
  · intro x hx
    cases hx
  · intro x hx
    cases hx
  · intro seg hseg
    cases hseg
  · intro seg hseg
    cases hseg
  · intro q status left hpc
    cases hpc

theorem CloseReady.sound {q : UInt32} {status : UInt8} {left : ℕ} (h : s.CloseReady outs)
    (hpc : s.closePc = .polling q status left) (hle : q ≤ s.lastSend) :
    SoundClose cfg q outs := by
  obtain ⟨hcreated, hwait⟩ := h.waiting q status left hpc
  rcases h.accounted.queued _ hcreated with hmem | ⟨hpassed, hlt⟩
  · exact absurd hle (UInt32.not_le.mpr (hwait hmem))
  · constructor
    · obtain ⟨nextRecv, fate, hout⟩ := hpassed
      exact ⟨status, fate, hout⟩
    · intro seg hseg hseq
      rcases h.accounted.queued seg hseg with hmem | ⟨hpassed, -⟩
      · have hlate : q.toNat < seg.seq.toNat := hlt seg hmem
        exact absurd hseq (Nat.not_lt.mpr (Nat.le_of_lt hlate))
      · exact hpassed

/-- In every guarded run a graceful close that ends with success is sound. -/
theorem graceful_close_sound (hpacket : cfg.transportProtocol = .packetTransport)
    {now jitter : ℤ} {es : List Action}
    (h : Machine.Reaches step (fun s a => s.closeGuard a = true) (attached now jitter) es outs s)
    (hstep : s.step a = some (s', evs)) {q : UInt32} (hsuccess : .gracefulCloseSuccess q ∈ evs) :
    SoundClose cfg q outs := by
  have hready : s.closePc.pastPolling = false → s.CloseReady outs := by
    refine h.invariant (I := fun s outs => s.closePc.pastPolling = false → s.CloseReady outs)
      (fun _ => closeReady_attached now jitter) ?_
    intro s outs a s' evs ih hguard hs hpast
    exact (ih ((step_effect hs).closes.pastPolling hpast)).step hs hpacket hguard hpast
  obtain ⟨hle, status, left, hpc⟩ := (step_effect hstep).closes.success hsuccess
  exact (hready (by rw [hpc]; rfl)).sound hpc hle

def closeAfterWrite : List Action := [
  .write [1, 2, 3], .writeOpen, .writeRequest,
  .outputWake .notEmpty, .outputStart 0, .sendCheck 16, .outputLock,
  .sendNext 16 0 1000 .sent, .sendNext 16 0 1000 .sent, .ackCheck 0, .close, .closeQueue,
  .outputWake .notEmpty, .outputStart 0, .sendCheck 16, .outputLock, .sendNext 16 0 1000 .sent]

theorem graceful_close_after_write : ∃ (s s' : Session (packetConfig true)) (outs evs : List Event),
    Machine.Reaches step (fun s a => s.closeGuard a = true) (attached 0 0) closeAfterWrite outs s ∧
    s.step .closePoll = some (s', evs) ∧ .gracefulCloseSuccess 1 ∈ evs ∧
    SoundClose (packetConfig true) 1 outs := by
  have hsummary : (Machine.run (Machine.guarded closeGuard step)
      (attached 0 0 : Session (packetConfig true)) closeAfterWrite).map
        (fun r => (r.1.step .closePoll).map (·.2)) = some (some [.gracefulCloseSuccess 1]) := by
    rfl
  obtain ⟨⟨s, outs⟩, hrun, hpoll⟩ := Option.map_eq_some_iff.mp hsummary
  obtain ⟨⟨s', evs⟩, hstep, hevs⟩ := Option.map_eq_some_iff.mp hpoll
  have hmem : .gracefulCloseSuccess 1 ∈ evs := by
    have hlast : evs = [.gracefulCloseSuccess 1] := hevs
    rw [hlast]
    exact List.mem_cons_self
  have hreach := Machine.reaches_of_guarded_run hrun
  exact ⟨s, s', outs, evs, hreach, hstep, hmem, graceful_close_sound rfl hreach hstep hmem⟩

def zeroWindowPacket : Packet where
  metadata := .dataAck {
    protocol := .dataClientToServer, sessionID := 1, seq := 1, unAckSeq := 1, windowSize := 0
    payloadLen := 1 }
  payload := [7]

def openRequestPacket : Packet :=
  (openRequestSegment (packetConfig true) 0 []).toPacket

/-- The server answers the open request and queues a byte. The client sends data with a
closed window, the server closes, and then the acknowledgement is due. -/
def closeBehindWindow : List Action := [
  .receive openRequestPacket 0, .requestAck 0, .accept, .waitSpace, .moveNext, .moveNext,
  .requestAckAgain 0, .respond true, .finishInput,
  .outputWake .notEmpty, .outputStart 0, .sendCheck 16, .outputLock, .sendNext 16 0 1000 .sent,
  .sendNext 16 0 1000 .sent, .ackCheck 0,
  .write [9], .writeOpen, .writeChunk, .writeReserve, .writeLock, .writeFragment,
  .receive zeroWindowPacket 0, .releaseNext, .releaseNext, .requestAck 0, .accept, .waitSpace,
  .moveNext, .moveNext, .requestAckAgain 0, .finishInput,
  .close, .closeQueue,
  .outputWake .notEmpty, .outputStart 2000, .sendCheck 16, .ackCheck 2000, .ackClear,
  .ackSend 2000 0 .sent]

def isCloseRequestOutput : Event → Bool
  | .output packet _ => packet.protocol = .closeSessionRequest
  | _ => false

/-- The acknowledgement makes `lastSend` pass the close request, which together with the
byte before it is then thrown away. -/
theorem acknowledgement_passes_close_request :
    ∃ (s s' : Session (packetConfig false)) (outs evs : List Event),
      Machine.Reaches step Machine.Free (attached 0 0) closeBehindWindow outs s ∧
      s.step .closePoll = some (s', evs) ∧ .gracefulCloseSuccess 2 ∈ evs ∧
      (s.sendQueue.items.map (·.payload)) = [[9], []] ∧
      ¬SoundClose (packetConfig false) 2 outs := by
  have hsummary : (Machine.run step (attached 0 0 : Session (packetConfig false))
      closeBehindWindow).map (fun r => ((r.1.step .closePoll).map (·.2),
        r.1.sendQueue.items.map (·.payload), r.2.any isCloseRequestOutput)) =
      some (some [.gracefulCloseSuccess 2], [[9], []], false) := by
    rfl
  obtain ⟨⟨s, outs⟩, hrun, heq⟩ := Option.map_eq_some_iff.mp hsummary
  simp only [Prod.mk.injEq] at heq
  obtain ⟨hpoll, hqueue, hnever⟩ := heq
  obtain ⟨⟨s', evs⟩, hstep, hevs⟩ := Option.map_eq_some_iff.mp hpoll
  have hmem : .gracefulCloseSuccess 2 ∈ evs := by
    have hlast : evs = [.gracefulCloseSuccess 2] := hevs
    rw [hlast]
    exact List.mem_cons_self
  refine ⟨s, s', outs, evs, Machine.reaches_of_run hrun, hstep, hmem, hqueue, ?_⟩
  rintro ⟨⟨status, fate, hout⟩, -⟩
  exact List.any_eq_false.mp hnever _ hout rfl

end Session

end Mieru.Protocol
