import Mieru.Session.Delivery
import Mieru.Session.Flow

/-! # Order on a stream

A stream transport keeps the order of what it carries, and a session on it relies on this:
segments go through `sendQueue` and `recvQueue` without any buffer. Both queues are sorted
by sequence number, so they are first in first out as long as a segment that comes in has a
larger number than those inside. The numbers wrap after 2 ^ 32 segments. -/
namespace Mieru.Protocol

open OrderedTree

def Event.queuedSegments : Event → List Segment
  | created seg true => [seg]
  | _ => []

def Event.receivedPackets : Event → List Packet
  | received packet => [packet]
  | _ => []

/-- What the output loop takes from the front of the queue in a step. -/
def takenBy (a : Action) (queue queue' : List Segment) : List Segment :=
  if a.party = .outputLoop then queue.take (queue.length - queue'.length) else []

/-- A session and what has gone through its queues. -/
structure StreamLog (cfg : SessionConfig) where
  session : Session cfg
  created : List Segment := []
  /-- What `sendQueue` took, in the order of writing. -/
  written : List Segment := []
  left : List Segment := []
  received : List Packet := []
  delivered : List Segment := []
  returned : Bytes := []

namespace StreamLog

variable {cfg : SessionConfig}

def start (now jitter : ℤ) : StreamLog cfg := { session := .attached now jitter }

def observe (l : StreamLog cfg) (a : Action) (s : Session cfg) (evs : List Event) :
    StreamLog cfg where
  session := s
  created := l.created ++ evs.flatMap Event.createdSegments
  written := l.written ++ evs.flatMap Event.queuedSegments
  left := l.left ++ takenBy a l.session.sendQueue.items s.sendQueue.items
  received := l.received ++ evs.flatMap Event.receivedPackets
  delivered := l.delivered ++ evs.flatMap Event.movedSegments
  returned := l.returned ++ evs.flatMap Event.returnedBytes

def step (l : StreamLog cfg) (a : Action) : Option (StreamLog cfg × List Event) :=
  (l.session.step a).map fun (s, evs) => (l.observe a s evs, evs)

/-- A segment that goes into a queue has a larger number than all that are in it. -/
def fitsIn (l : StreamLog cfg) : Event → Bool
  | .created seg true => l.session.sendQueue.items.all fun x => x.seq < seg.seq
  | .moved seg => l.session.recvQueue.items.all fun x => x.seq < seg.seq
  | _ => true

def inOrder (l : StreamLog cfg) (a : Action) : Bool :=
  match l.session.step a with
  | none => true
  | some (_, evs) => evs.all l.fitsIn

end StreamLog

/-! ## Sending -/

section Sending

variable {cfg : SessionConfig} {evs : List Event} {a : Action}

theorem takenBy_same (a : Action) (queue : List Segment) : takenBy a queue queue = [] := by
  simp [takenBy]

theorem takenBy_sublist (a : Action) (removed rest : List Segment) :
    (takenBy a (removed ++ rest) rest ++ rest).Sublist (removed ++ rest) := by
  unfold takenBy
  split_ifs
  · have htake : (removed ++ rest).take ((removed ++ rest).length - rest.length) = removed := by
      rw [List.length_append, Nat.add_sub_cancel, List.take_left]
    rw [htake]
  · exact List.sublist_append_right removed rest

theorem queuedSegments_sends :
    (evs.filter Event.isSend).flatMap Event.queuedSegments = evs.flatMap Event.queuedSegments :=
  flatMap_filter_events _ _ (fun ev h => by cases ev <;> first | rfl | cases h) evs

theorem SendEffect.in_order {nextRecv : UInt32} {hand : Option Segment} {pc pc' : ClosePc}
    {v v' : SendView} {left written : List Segment}
    (heff : SendEffect cfg nextRecv hand pc pc' a v v' evs)
    (hfits : ∀ seg, Event.created seg true ∈ evs → ∀ x ∈ v.queue, x.key < seg.key)
    (h : (left ++ v.queue).Sublist written) :
    ((left ++ takenBy a v.queue v'.queue) ++ v'.queue).Sublist
      (written ++ evs.flatMap Event.queuedSegments) := by
  have hremoved : ∀ removed rest, v.queue = removed ++ rest →
      ((left ++ takenBy a v.queue rest) ++ rest).Sublist (written ++ []) := by
    intro removed rest hqueue
    rw [List.append_nil, List.append_assoc, hqueue]
    rw [hqueue] at h
    exact ((takenBy_sublist a removed rest).append_left left).trans h
  cases heff with
  | @create seg hseq _ _ =>
    have hplace : place Segment.key seg v.queue = v.queue ++ [seg] :=
      place_of_forall_lt (hfits seg (List.mem_singleton_self _))
    have htaken : takenBy a v.queue (v.queue ++ [seg]) = [] := by simp [takenBy]
    simp only [hplace, htaken, List.append_nil, ← List.append_assoc, List.flatMap_singleton,
      Event.queuedSegments]
    exact h.append_right [seg]
  | transmit _ hqueue => exact hremoved [_] _ hqueue
  | stream _ hqueue => exact hremoved [_] _ hqueue
  | clearQueue => exact hremoved v.queue [] (List.append_nil _).symm
  | _ => simpa [takenBy_same, Event.queuedSegments] using h

theorem SendEffect.below {nextRecv : UInt32} {hand : Option Segment} {pc pc' : ClosePc}
    {v v' : SendView} {made : List Segment}
    (heff : SendEffect cfg nextRecv hand pc pc' a v v' evs)
    (hsorted : v.queue.Pairwise fun a b => a.key < b.key) (hnumbered : Numbered v.nextSend made)
    (h : ∀ x ∈ v.queue, x.key < made.length) :
    ∀ x ∈ v'.queue, x.key < (made ++ evs.flatMap Event.createdSegments).length := by
  have hkept : ∀ queue : List Segment, queue ⊆ v.queue →
      ∀ x ∈ queue, x.key < (made ++ evs.flatMap Event.createdSegments).length := by
    intro queue hsub x hx
    rw [List.length_append]
    exact Nat.lt_add_right _ (h x (hsub hx))
  cases heff with
  | @create seg hseq _ _ =>
    intro x hx
    rcases (mem_place hsorted).mp hx with rfl | ⟨hx, -⟩
    · have hkey : x.key = made.length % 2 ^ 32 := by
        rw [Segment.key, hseq, hnumbered.1]
        exact UInt32.toNat_ofNat
      have hle := Nat.mod_le made.length (2 ^ 32)
      simp only [List.length_append, List.flatMap_singleton, Event.createdSegments,
        List.length_singleton]
      omega
    · exact hkept v.queue (List.Subset.refl _) x hx
  | transmit _ hqueue => exact hkept _ (hqueue ▸ List.subset_cons_self _ _)
  | stream _ hqueue => exact hkept _ (hqueue ▸ List.subset_cons_self _ _)
  | clearQueue => exact hkept [] (List.nil_subset _)
  | _ => exact hkept v.queue (List.Subset.refl _)

theorem SendEffect.created_seq {nextRecv : UInt32} {hand : Option Segment} {pc pc' : ClosePc}
    {v v' : SendView} {seg : Segment} {queued : Bool}
    (heff : SendEffect cfg nextRecv hand pc pc' a v v' evs)
    (hcreated : Event.created seg queued ∈ evs) : seg.seq = v.nextSend := by
  cases heff with
  | create hseq | lose hseq =>
    cases List.mem_singleton.mp hcreated
    exact hseq
  | reply _ _ hseq =>
    simp only [List.mem_cons, Event.created.injEq, reduceCtorEq, List.not_mem_nil, or_self,
      or_false] at hcreated
    exact hcreated.1 ▸ hseq
  | _ => simp at hcreated

end Sending

/-! ## Receiving -/

section Receiving

variable {cfg : SessionConfig} {evs : List Event} {v v' : RecvView} {delivered : List Segment}
  {returned : Bytes}

theorem RecvEffect.in_order (heff : RecvEffect cfg v v' evs)
    (hfits : ∀ seg, Event.moved seg ∈ evs → ∀ x ∈ v.recvQueue, x.key < seg.key)
    (h : returned ++ (v.unread ++ v.recvQueue.flatMap (·.payload)) =
      delivered.flatMap (·.payload)) :
    (returned ++ evs.flatMap Event.returnedBytes) ++
        (v'.unread ++ v'.recvQueue.flatMap (·.payload)) =
      (delivered ++ evs.flatMap Event.movedSegments).flatMap (·.payload) := by
  have hplaced : ∀ seg, Event.moved seg ∈ evs →
      (place Segment.key seg v.recvQueue).flatMap (·.payload) =
        v.recvQueue.flatMap (·.payload) ++ seg.payload := by
    intro seg hseg
    rw [place_of_forall_lt (hfits seg hseg), List.flatMap_append, List.flatMap_singleton]
  cases heff with
  | @move seg rest _ _ =>
    simp only [hplaced seg (List.mem_singleton_self _), List.flatMap_singleton,
      Event.returnedBytes, Event.movedSegments, List.flatMap_append, List.append_nil, ← h,
      List.append_assoc]
  | @deliver seg _ _ =>
    simp only [hplaced seg (List.mem_singleton_self _), List.flatMap_singleton,
      Event.returnedBytes, Event.movedSegments, List.flatMap_append, List.append_nil, ← h,
      List.append_assoc]
  | fetch hqueue => simpa [hqueue] using h
  | handOut hunread => simpa [hunread, Event.returnedBytes, Event.movedSegments] using h
  | _ => simpa [Event.returnedBytes, Event.movedSegments] using h

theorem RecvEffect.recvQueue_of_moved (heff : RecvEffect cfg v v' evs) {seg : Segment}
    (hmoved : Event.moved seg ∈ evs) : v'.recvQueue = place Segment.key seg v.recvQueue := by
  cases heff with
  | move | deliver =>
    cases List.mem_singleton.mp hmoved
    rfl
  | _ => simp at hmoved

/-- The segment that the input loop still has to put into a queue. -/
def InputPc.pending : InputPc → List Packet
  | releasing seg | requesting seg | accepting seg | waitingSpace seg | moving seg =>
    [seg.toPacket]
  | _ => []

end Receiving

namespace Session

variable {cfg : SessionConfig} {s s' : Session cfg} {a : Action} {evs : List Event}

theorem pending_inputDispatch (cfg : SessionConfig) (packet : Packet) :
    (inputDispatch cfg { toPacket := packet }).pending.Sublist [packet] := by
  unfold inputDispatch
  dsimp only
  split_ifs
  · exact List.Sublist.refl _
  · split
    · exact List.Sublist.refl _
    · exact List.Sublist.refl _
  · exact List.nil_sublist _
  · exact List.Sublist.refl _
  · exact List.nil_sublist _

theorem pending_afterData (seg : Segment) : (s.afterData seg).pending = [] := by
  unfold afterData
  split_ifs <;> rfl

theorem readLoop_events (h : s.readLoop = some (s', evs)) : evs = [] := by
  unfold readLoop at h
  split at h
  · split at h
    · cases h
      rfl
    · split at h
      · split at h
        · cases h
          rfl
        · cases h
          rfl
      · cases h
        rfl
  · cases h

theorem moveNext_of_moved (h : s.step a = some (s', evs)) {seg : Segment}
    (hmoved : Event.moved seg ∈ evs) (hfits : ∀ x ∈ s.recvQueue.items, x.key < seg.key) :
    a = .moveNext := by
  have hmem : Event.moved seg ∈ evs.filter Event.isRecv := List.mem_filter.mpr ⟨hmoved, rfl⟩
  have hplaced : s'.recvQueue.items = place Segment.key seg s.recvQueue.items :=
    (step_effect h).recvs.recvQueue_of_moved hmem
  have hgrown : s'.recvQueue.items ≠ s.recvQueue.items := by
    rw [hplaced, place_of_forall_lt hfits]
    exact fun heq => absurd (congrArg List.length heq) (by simp)
  have htouches : a.touches .recvQueue = true := by
    by_contra hnot
    exact hgrown ((step_effect h).keeps .recvQueue (Bool.eq_false_iff.mpr hnot))
  cases a with
  | moveNext => rfl
  | readLoop =>
    rw [readLoop_events (perform_of_step h)] at hmoved
    cases hmoved
  | _ => cases htouches

theorem moveNext_pending (hstream : cfg.transportProtocol = .streamTransport)
    (h : s.moveNext = some (s', evs)) :
    ((evs.flatMap Event.movedSegments).map Segment.toPacket ++ s'.inputPc.pending).Sublist
      s.inputPc.pending := by
  unfold moveNext at h
  split at h
  · rename_i hand hpc
    rw [if_pos hstream] at h
    rw [hpc]
    split at h
    · cases h
    · split at h
      · cases h
        exact List.nil_sublist _
      · cases h
        dsimp only
        rw [pending_afterData]
        exact List.Sublist.refl _
  · cases h

theorem receive_pending {packet : Packet} {now : ℤ} (h : s.receive packet now = some (s', evs)) :
    s'.inputPc.pending.Sublist (evs.flatMap Event.receivedPackets) := by
  unfold receive at h
  split at h
  · split at h
    · cases h
      exact List.nil_sublist _
    · cases h
      exact pending_inputDispatch cfg packet
  · cases h

theorem InputFlow.pending {pc pc' : InputPc} (h : InputFlow s a pc pc')
    (hreceive : ∀ packet now, a ≠ .receive packet now) : pc'.pending.Sublist pc.pending := by
  cases h with
  | refuse => exact absurd rfl (hreceive _ _)
  | take => exact absurd rfl (hreceive _ _)
  | closed _ hpc =>
    rcases hpc with rfl | rfl
    · exact List.nil_sublist _
    · rw [pending_afterData]
      exact List.nil_sublist _
  | deliver _ hpc =>
    rcases hpc with rfl | rfl
    · rw [pending_afterData]
      exact List.nil_sublist _
    · exact List.nil_sublist _
  | requestAgain =>
    rw [pending_afterData]
    exact List.nil_sublist _
  | closing hpc =>
    rcases hpc with rfl | rfl <;> exact List.nil_sublist _
  | release | released | request | buffer | space | move => exact List.Sublist.refl _
  | _ => exact List.nil_sublist _

theorem pending_step (hstream : cfg.transportProtocol = .streamTransport)
    (h : s.step a = some (s', evs))
    (hfits : ∀ seg, Event.moved seg ∈ evs → ∀ x ∈ s.recvQueue.items, x.key < seg.key) :
    ((evs.flatMap Event.movedSegments).map Segment.toPacket ++ s'.inputPc.pending).Sublist
      (s.inputPc.pending ++ evs.flatMap Event.receivedPackets) := by
  by_cases hmove : a = .moveNext
  · subst hmove
    exact (moveNext_pending hstream (perform_of_step h)).trans (List.sublist_append_left _ _)
  have hnone : evs.flatMap Event.movedSegments = [] := by
    rw [List.flatMap_eq_nil_iff]
    intro ev hev
    cases ev with
    | moved seg => exact absurd (moveNext_of_moved h hev (hfits seg hev)) hmove
    | _ => rfl
  rw [hnone, List.map_nil, List.nil_append]
  by_cases ha : a.party = .inputLoop
  · have hflow := input_flow (perform_of_step h) ha
    by_cases hreceive : ∃ packet now, a = .receive packet now
    · obtain ⟨packet, now, rfl⟩ := hreceive
      exact (receive_pending (perform_of_step h)).trans (List.sublist_append_right _ _)
    · refine (InputFlow.pending hflow ?_).trans (List.sublist_append_left _ _)
      intro packet now heq
      exact hreceive ⟨packet, now, heq⟩
  · have hkept := (step_effect h).keeps .inputLoop (by simpa [Action.touches] using ha)
    rw [hkept]
    exact List.sublist_append_left _ _

end Session

/-! ## Runs -/

namespace StreamLog

open Machine

variable {cfg : SessionConfig} {l l' : StreamLog cfg} {a : Action} {evs : List Event}

/-- Both queues are first in first out. -/
structure Ordered (l : StreamLog cfg) : Prop where
  sent : (l.left ++ l.session.sendQueue.items).Sublist l.written
  read : l.returned ++ (l.session.recvView.unread ++
    l.session.recvQueue.items.flatMap (·.payload)) = l.delivered.flatMap (·.payload)
  arrived : (l.delivered.map Segment.toPacket ++ l.session.inputPc.pending).Sublist l.received

theorem fits_of_inOrder {s : Session cfg} (hguard : l.inOrder a = true)
    (h : l.session.step a = some (s, evs)) :
    (∀ seg, Event.created seg true ∈ evs → ∀ x ∈ l.session.sendQueue.items, x.key < seg.key) ∧
      ∀ seg, Event.moved seg ∈ evs → ∀ x ∈ l.session.recvQueue.items, x.key < seg.key := by
  simp only [inOrder, h] at hguard
  have hall := List.all_eq_true.mp hguard
  constructor
  · intro seg hseg x hx
    exact of_decide_eq_true (List.all_eq_true.mp (hall _ hseg) x hx)
  · intro seg hseg x hx
    exact of_decide_eq_true (List.all_eq_true.mp (hall _ hseg) x hx)

theorem sent_step {s : Session cfg}
    (hsent : (l.left ++ l.session.sendQueue.items).Sublist l.written)
    (h : l.session.step a = some (s, evs))
    (hfits : ∀ seg, Event.created seg true ∈ evs →
      ∀ x ∈ l.session.sendQueue.items, x.key < seg.key) :
    ((l.observe a s evs).left ++ s.sendQueue.items).Sublist (l.observe a s evs).written := by
  have hnext := (Session.step_effect h).sends.in_order
    (fun seg hseg => hfits seg (List.mem_filter.mp hseg).1) hsent
  rwa [queuedSegments_sends] at hnext

theorem Ordered.step (hstream : cfg.transportProtocol = .streamTransport) (hl : l.Ordered)
    (hguard : l.inOrder a = true) (h : l.step a = some (l', evs)) : l'.Ordered := by
  obtain ⟨⟨s, evs'⟩, hs, heq⟩ := Option.map_eq_some_iff.mp h
  cases heq
  obtain ⟨hsends, hmoves⟩ := fits_of_inOrder hguard hs
  have heff := Session.step_effect hs
  constructor
  · exact sent_step hl.sent hs hsends
  · have hread := heff.recvs.in_order
      (fun seg hseg => hmoves seg (List.mem_filter.mp hseg).1) hl.read
    rwa [movedSegments_recvs, returnedBytes_recvs] at hread
  · have hpending := Session.pending_step hstream hs hmoves
    simp only [observe, List.map_append, List.append_assoc]
    exact (hpending.append_left _).trans (by simpa using hl.arrived.append_right _)

/-- As long as every segment that goes into a queue has a larger number than those inside,
segments leave `sendQueue` in the order they were written, and `Read` returns the payloads in
the order the segments arrived. -/
theorem stream_in_order (hstream : cfg.transportProtocol = .streamTransport) {now jitter : ℤ}
    {es : List Action} {outs : List Event}
    (h : Reaches step (fun l a => l.inOrder a = true) (start now jitter) es outs l) :
    l.left.Sublist l.written ∧ l.returned <+: l.delivered.flatMap (·.payload) ∧
      (l.delivered.map Segment.toPacket).Sublist l.received := by
  have hstart : (start now jitter : StreamLog cfg).Ordered :=
    ⟨List.Sublist.refl _, rfl, List.Sublist.refl _⟩
  have hl : l.Ordered := by
    refine h.invariant (I := fun l _ => l.Ordered) hstart ?_
    intro l outs a l' out hl hguard hs
    exact hl.step hstream hguard hs
  refine ⟨?_, ?_, ?_⟩
  · exact (List.sublist_append_left _ _).trans hl.sent
  · exact ⟨_, hl.read⟩
  · exact (List.sublist_append_left _ _).trans hl.arrived

/-! ## Before the numbers wrap -/

/-- The number of a queued segment is less than the number of segments made so far. -/
structure Counted (l : StreamLog cfg) : Prop where
  numbered : Numbered l.session.nextSend l.created
  below : ∀ x ∈ l.session.sendQueue.items, x.key < l.created.length

theorem Counted.step {s : Session cfg} (hl : l.Counted) (h : l.session.step a = some (s, evs)) :
    (l.observe a s evs).Counted := by
  have heff := (Session.step_effect h).sends
  constructor
  · have hnumbered := heff.numbered hl.numbered
    rwa [createdSegments_sends] at hnumbered
  · have hbelow := heff.below l.session.sendQueue.sorted hl.numbered hl.below
    rwa [createdSegments_sends] at hbelow

theorem sent_in_order_before_wrap {now jitter : ℤ} {es : List Action} {outs : List Event}
    (h : Reaches step Free (start now jitter : StreamLog cfg) es outs l)
    (hfew : l.created.length ≤ 2 ^ 32) : l.left.Sublist l.written := by
  suffices hboth : l.Counted ∧ (l.left ++ l.session.sendQueue.items).Sublist l.written from
    (List.sublist_append_left _ _).trans hboth.2
  induction h with
  | start =>
    have hnumbered : Numbered (start now jitter : StreamLog cfg).session.nextSend [] :=
      ⟨rfl, by simp⟩
    exact ⟨⟨hnumbered, fun x hx => absurd hx List.not_mem_nil⟩, List.Sublist.refl _⟩
  | @next es outs out l l' a _ _ hstep ih =>
    obtain ⟨⟨s, out⟩, hs, heq⟩ := Option.map_eq_some_iff.mp hstep
    cases heq
    simp only [observe, List.length_append] at hfew
    obtain ⟨hl, hsent⟩ := ih (by omega)
    refine ⟨hl.step hs, sent_step hsent hs ?_⟩
    intro seg hseg x hx
    have hmade : seg ∈ out.flatMap Event.createdSegments :=
      List.mem_flatMap.mpr ⟨_, hseg, List.mem_singleton_self _⟩
    have hpos := List.length_pos_of_mem hmade
    have hseq := (Session.step_effect hs).sends.created_seq (List.mem_filter.mpr ⟨hseg, rfl⟩)
    have hkey : seg.key = l.created.length :=
      (congrArg UInt32.toNat hseq).trans (hl.numbered.toNat (by omega))
    rw [hkey]
    exact hl.below x hx

/-! ## Across the wrap -/

def streamConfig (isClient : Bool) : SessionConfig where
  id := 1
  isClient := isClient
  mtu := 1400
  transportProtocol := .streamTransport
  trafficPattern := none

/-- A server session that has sent everything so far. -/
def quiet (nextSend lastSend : UInt32) : Session (streamConfig false) :=
  { (Session.attached 0 0 : Session (streamConfig false)) with
    nextSend := nextSend, lastSend := lastSend }

def byteCycle : List Action := [
  .write [7], .writeOpen, .writeChunk, .writeReserve, .writeLock, .writeFragment,
  .outputWake .notEmpty, .outputStart 0, .outputLock, .streamNext 0 .sent, .streamNext 0 .sent,
  .writeDrain, .writeChunk]

/-- Two bytes are written before the output loop comes to send. -/
def lateCycle : List Action := [
  .write [7], .writeOpen, .writeChunk, .writeReserve, .writeLock, .writeFragment, .writeDrain,
  .writeChunk, .write [8], .writeOpen, .writeChunk, .writeReserve, .writeLock, .writeFragment,
  .outputWake .notEmpty, .outputStart 0, .outputLock, .streamNext 0 .sent, .streamNext 0 .sent]

/-- What was seen before comes in front of what is seen later. -/
def after (l m : StreamLog cfg) : StreamLog cfg where
  session := m.session
  created := l.created ++ m.created
  written := l.written ++ m.written
  left := l.left ++ m.left
  received := l.received ++ m.received
  delivered := l.delivered ++ m.delivered
  returned := l.returned ++ m.returned

theorem run_after (l : StreamLog cfg) (es : List Action) (m : StreamLog cfg) :
    run step (l.after m) es = (run step m es).map fun r => (l.after r.1, r.2) := by
  induction es generalizing m with
  | nil => rfl
  | cons a es ih =>
    have hstep : step (l.after m) a = (step m a).map fun r => (l.after r.1, r.2) := by
      simp [step, after, observe, Option.map_map, Function.comp_def]
    simp only [run, hstep]
    cases step m a with
    | none => rfl
    | some r =>
      simp only [Option.map_some, ih, Option.map_map, Function.comp_def]

/-- The session with the numbers of what was written and of what left. -/
def numbers (l : StreamLog cfg) : Session cfg × List UInt32 × List UInt32 :=
  (l.session, l.written.map Segment.seq, l.left.map Segment.seq)

theorem byteCycle_run (k last : UInt32) :
    (run step ({ session := quiet k last } : StreamLog (streamConfig false)) byteCycle).map
      (fun r => r.1.numbers) = some (quiet (k + 1) k, [k], [k]) := by
  rfl

theorem lateCycle_run :
    (run step ({ session := quiet 4294967295 4294967294 } : StreamLog (streamConfig false))
      lateCycle).map (fun r => r.1.numbers.2) = some ([4294967295, 0], [0, 4294967295]) := by
  decide +kernel

theorem after_session (l : StreamLog cfg) : l.after { session := l.session } = l := by
  simp [after]

theorem reaches_quiet (n : ℕ) : ∃ es outs, ∃ l : StreamLog (streamConfig false),
    Reaches step Free (start 0 0) es outs l ∧
      l.session = quiet (UInt32.ofNat (n + 1)) (UInt32.ofNat n) ∧
      l.left.map Segment.seq = l.written.map Segment.seq ∧ l.written.length = n + 1 := by
  induction n with
  | zero =>
    obtain ⟨⟨l, outs⟩, hrun, heq⟩ := Option.map_eq_some_iff.mp (byteCycle_run 0 0)
    simp only [numbers, Prod.mk.injEq] at heq
    obtain ⟨hsession, hwritten, hleft⟩ := heq
    refine ⟨byteCycle, outs, l, reaches_of_run hrun, hsession, hleft.trans hwritten.symm, ?_⟩
    simpa using congrArg List.length hwritten
  | succ n ih =>
    obtain ⟨es, outs, l, hreach, hquiet, hsame, hlen⟩ := ih
    obtain ⟨⟨m, outs'⟩, hcycle, heq⟩ := Option.map_eq_some_iff.mp
      (byteCycle_run (UInt32.ofNat (n + 1)) (UInt32.ofNat n))
    simp only [numbers, Prod.mk.injEq] at heq
    obtain ⟨hsession, hwritten, hleft⟩ := heq
    have hrun := run_after l byteCycle { session := l.session }
    rw [after_session, hquiet, hcycle] at hrun
    refine ⟨es ++ byteCycle, outs ++ outs', _, hreach.append_run hrun, ?_, ?_, ?_⟩
    · rw [show UInt32.ofNat (n + 1 + 1) = UInt32.ofNat (n + 1) + 1 from UInt32.ofNat_add _ _]
      exact hsession
    · simp only [after, List.map_append, hsame, hwritten, hleft]
    · have hone := congrArg List.length hwritten
      simp only [List.length_map, List.length_singleton] at hone
      simp only [after, List.length_append, hlen, hone]

/-- After 2 ^ 32 - 1 segments, the next two leave `sendQueue` in the wrong order if the output
loop comes to send only when both are written. -/
theorem wrap_out_of_order : ∃ es outs, ∃ l : StreamLog (streamConfig false),
    Reaches step Free (start 0 0) es outs l ∧ l.written.length = 2 ^ 32 + 1 ∧
      ¬ l.left.Sublist l.written := by
  obtain ⟨es, outs, l, hreach, hquiet, hsame, hlen⟩ := reaches_quiet (2 ^ 32 - 2)
  obtain ⟨⟨m, outs'⟩, hcycle, heq⟩ := Option.map_eq_some_iff.mp lateCycle_run
  simp only [numbers, Prod.mk.injEq] at heq
  obtain ⟨hwritten, hleft⟩ := heq
  have hwrap : l.session = quiet 4294967295 4294967294 := hquiet
  have hrun := run_after l lateCycle { session := l.session }
  rw [after_session, hwrap, hcycle] at hrun
  refine ⟨es ++ lateCycle, outs ++ outs', _, hreach.append_run hrun, ?_, ?_⟩
  · have htwo := congrArg List.length hwritten
    simp only [List.length_map, List.length_cons, List.length_nil] at htwo
    simp only [after, List.length_append]
    omega
  · intro hsub
    have hnumbers := hsub.map Segment.seq
    simp only [after, List.map_append, hsame, hwritten, hleft] at hnumbers
    have heq := hnumbers.eq_of_length (by simp)
    exact absurd (List.append_cancel_left heq) (by decide)

def requestPacket : Packet where
  metadata := .dataAck {
    protocol := .dataClientToServer, sessionID := 1, seq := 0, unAckSeq := 0, windowSize := 4095,
    payloadLen := 1 }
  payload := [5]

theorem byte_each_way_in_order : ∃ es outs, ∃ l : StreamLog (streamConfig false),
    Reaches step (fun l a => l.inOrder a = true) (start 0 0) es outs l ∧
      l.left.length = 1 ∧ l.returned = [5] ∧
      (l.left.Sublist l.written ∧ l.returned <+: l.delivered.flatMap (·.payload) ∧
        (l.delivered.map Segment.toPacket).Sublist l.received) := by
  have hsummary : (run (guarded inOrder step) (start 0 0 : StreamLog (streamConfig false))
      (byteCycle ++ [.receive requestPacket 0, .waitSpace, .moveNext, .finishInput, .read 1,
        .readLoop, .readReturn])).map (fun r => (r.1.left.length, r.1.returned)) =
      some (1, [5]) := by decide +kernel
  obtain ⟨⟨l, outs⟩, hrun, heq⟩ := Option.map_eq_some_iff.mp hsummary
  have hreach := reaches_of_guarded_run hrun
  exact ⟨_, outs, l, hreach, congrArg Prod.fst heq, congrArg Prod.snd heq,
    stream_in_order rfl hreach⟩

end StreamLog

end Mieru.Protocol
