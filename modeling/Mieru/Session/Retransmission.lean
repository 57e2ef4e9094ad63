import Mieru.Lib.Machine
import Mieru.Session.Flow

/-! # The retransmission deadline

`nextRetransmissionTime` tells the output loop when to look at `sendBuf` next. The loop stores
it in three places, while the input loop takes acknowledged segments away. Two of its steps
are cut in half here, so that the input loop can run in between. -/
namespace Mieru.Protocol

open OrderedTree

def minOutputInterval : ℤ := 1000

def Segment.deadline (seg : Segment) : ℤ := seg.txTime + seg.txTimeout

/-- What the output loop holds between the halves of a step. -/
inductive Hand where
  | free
  /-- The segment has left `sendQueue` and is not yet in `sendBuf`. -/
  | putting (seg : Segment)
  /-- `Ascend` has returned and its result is not yet stored. -/
  | storing (nextTX : Option ℤ)

def Hand.isBusy : Hand → Bool
  | free => false
  | _ => true

namespace Session

variable {cfg : SessionConfig} (s : Session cfg)

/-- `sendNext` up to the point where the deadline is stored. Whether `sendBuf` was empty is
not looked at again after that. -/
def sendTake (cwnd now timeout : ℤ) : Option (Session cfg × Hand) :=
  match s.outputPc with
  | .sending total =>
    if s.sendBuf.remaining ≤ 1 ∨ s.shouldDeferNextPacketData then
      some ({ s with oLock := false, outputPc := .ackCheck }, .free)
    else
      match s.sendQueue.deleteMinIf fun _ => total < s.sendWindowSize cwnd with
      | (none, q) => some ({ s with sendQueue := q, oLock := false, outputPc := .ackCheck }, .free)
      | (some seg, q) =>
        let seg := seg.transmitted s.nextRecv now timeout
        some ({ s with sendQueue := q, nextRetransmissionTime := s.armRetransmission seg },
          .putting seg)
  | _ => none

def sendPut (seg : Segment) (now : ℤ) (fate : Fate) : Option (Session cfg × List Event) :=
  match s.outputPc with
  | .sending total =>
    match s.sendBuf.insert seg with
    | (buf, false) => some (sendFailed { s with sendBuf := buf }, [])
    | (buf, true) =>
      match output { s with sendBuf := buf } seg fate now with
      | (s, false) => some (s.sendFailed, [.output seg.toPacket fate])
      | (s, true) =>
        some ({ s with outputPc := .sending (total + 1) }, [.output seg.toPacket fate])
  | _ => none

/-- `Ascend` returns and gives the lock of `sendBuf` back. -/
def resendEnd : Option (Session cfg × Hand) :=
  match s.outputPc with
  | .resending cursor nextTX total =>
    match s.resendCandidate cursor with
    | none => some ({ s with outputPc := .sendCheck total }, .storing nextTX)
    | some _ => none
  | _ => none

def resendStore (nextTX : Option ℤ) : Session cfg :=
  { s with
    nextRetransmissionTime := nextTX.getD s.nextRetransmissionTime
    oLock := false }

theorem sendNext_eq (cwnd now timeout : ℤ) (fate : Fate) :
    s.sendNext cwnd now timeout fate =
      (s.sendTake cwnd now timeout).bind fun (t, hand) =>
        match hand with
        | .free => some (t, [])
        | .putting seg => t.sendPut seg now fate
        | .storing _ => none := by
  cases hpc : s.outputPc with
  | sending total =>
    simp only [sendNext, sendTake, hpc]
    split_ifs
    · rfl
    · obtain ⟨seg, q⟩ := s.sendQueue.deleteMinIf fun _ => total < s.sendWindowSize cwnd
      cases seg with
      | none => rfl
      | some seg =>
        rfl
  | _ => simp only [sendNext, sendTake, hpc, Option.bind_none]

/-- How long the packet output loop may sleep. -/
def nextPacketOutputDelay (now : ℤ) : ℤ :=
  let next := if 0 < s.sendBuf.len then minTX none s.nextRetransmissionTime else none
  let next :=
    if ¬s.isClientPacketSessionOpening then
      let next := if s.ackOnDataRecv then minTX next s.ackDeadline else next
      minTX next (s.lastTXTime + (sessionHeartbeatInterval + s.heartbeatJitter))
    else next
  match next with
  -- nothing is scheduled
  | none => sessionHeartbeatInterval
  | some next => if next - now ≤ 0 then minOutputInterval else next - now

/-- What the packet output loop has to be awake for. -/
inductive Deadline : ℤ → Prop
  | retransmission (hbuf : 0 < s.sendBuf.len) : Deadline s.nextRetransmissionTime
  | ack (hpending : s.ackOnDataRecv = true) : Deadline s.ackDeadline
  | heartbeat : Deadline (s.lastTXTime + (sessionHeartbeatInterval + s.heartbeatJitter))

/-- A timer that is set now goes off at `next`, or after the shortest delay if it is too late. -/
def ArmedFor (now next : ℤ) : Prop :=
  if next ≤ now then s.nextPacketOutputDelay now = minOutputInterval
  else now + s.nextPacketOutputDelay now = next

end Session

/-- A session whose output loop may be halfway through a step. -/
structure Paced (cfg : SessionConfig) where
  session : Session cfg
  hand : Hand := .free

inductive PacedAction where
  | session (a : Action)
  | sendTake (cwnd now timeout : ℤ)
  | sendPut (now : ℤ) (fate : Fate)
  | resendEnd
  | resendStore

namespace Paced

variable {cfg : SessionConfig}

def step (l : Paced cfg) : PacedAction → Option (Paced cfg × List Event)
  | .session a =>
    if l.hand.isBusy ∧ a.party = .outputLoop then none
    else (l.session.step a).map fun (s, evs) => ({ l with session := s }, evs)
  | .sendTake cwnd now timeout =>
    if l.hand.isBusy ∨ l.session.isClosing .outputLoop then none
    else (l.session.sendTake cwnd now timeout).map fun (s, hand) => (⟨s, hand⟩, [])
  | .sendPut now fate =>
    match l.hand with
    | .putting seg => (l.session.sendPut seg now fate).map fun (s, evs) => (⟨s, .free⟩, evs)
    | _ => none
  | .resendEnd =>
    if l.hand.isBusy ∨ l.session.isClosing .outputLoop then none
    else l.session.resendEnd.map fun (s, hand) => (⟨s, hand⟩, [])
  | .resendStore =>
    match l.hand with
    | .storing nextTX => some (⟨l.session.resendStore nextTX, .free⟩, [])
    | _ => none

/-- Every run of the session is one in which no step is cut. -/
theorem reaches_of_session {init : Session cfg} {es : List Action} {outs : List Event}
    {s : Session cfg} (h : Machine.Reaches Session.step Machine.Free init es outs s) :
    Machine.Reaches step Machine.Free ⟨init, .free⟩ (es.map .session) outs ⟨s, .free⟩ := by
  induction h with
  | start => exact .start
  | @next es outs out s s' a _ _ hstep ih =>
    have hnext : step ⟨s, .free⟩ (.session a) = some (⟨s', .free⟩, out) := by
      simp only [step, Hand.isBusy, Bool.false_eq_true, false_and, ↓reduceIte, hstep,
        Option.map_some]
    rw [List.map_append]
    exact .next ih trivial hnext

end Paced

/-! ## What the others leave alone -/

namespace Session

variable {cfg : SessionConfig} {s s' : Session cfg} {a : Action} {evs : List Event}

/-- The deadlines are as before, except that segments may be gone. -/
structure KeepsDeadlines (s s' : Session cfg) : Prop where
  next : s'.nextRetransmissionTime = s.nextRetransmissionTime
  buf : ∀ seg ∈ s'.sendBuf.items, ∃ old ∈ s.sendBuf.items,
    old.seq = seg.seq ∧ old.deadline = seg.deadline

theorem KeepsDeadlines.of_eq (hnext : s'.nextRetransmissionTime = s.nextRetransmissionTime)
    (hbuf : s'.sendBuf.items = s.sendBuf.items) : s.KeepsDeadlines s' :=
  ⟨hnext, fun seg hseg => ⟨seg, hbuf ▸ hseg, rfl, rfl⟩⟩

theorem KeepsDeadlines.of_untouched (h : s.perform a = some (s', evs))
    (ha : a.touches .deadlines = false) : s.KeepsDeadlines s' := by
  obtain ⟨hnext, hbuf⟩ := (perform_effect h).keeps .deadlines ha
  exact .of_eq hnext hbuf

theorem releaseNext_keepsDeadlines (h : s.releaseNext = some (s', evs)) :
    s.KeepsDeadlines s' := by
  unfold releaseNext at h
  split at h
  · split at h
    · cases h
    · split at h
      · cases h
      · split at h
        · rename_i seg buf hdelete
          cases h
          refine ⟨rfl, fun x hx => ⟨x, ?_, rfl, rfl⟩⟩
          rw [(SegmentTree.deleteMinIf_some hdelete).2]
          exact List.mem_cons_of_mem seg hx
        · rename_i buf hdelete
          cases h
          exact .of_eq rfl (SegmentTree.deleteMinIf_none hdelete)
  · cases h

theorem countAck_keepsDeadlines (h : s.countAck = some (s', evs)) : s.KeepsDeadlines s' := by
  have hsame (un : UInt32) (x : Segment) :
      x.seq = (countAckOf un x).seq ∧ x.deadline = (countAckOf un x).deadline := by
    unfold countAckOf
    split_ifs
    · exact ⟨rfl, rfl⟩
    · exact ⟨rfl, rfl⟩
  unfold countAck at h
  split at h
  · split at h
    · cases h
    · split at h
      · cases h
      · cases h
        unfold wakeIfQueued
        split_ifs
        all_goals
          refine ⟨rfl, fun x hx => ?_⟩
          obtain ⟨y, hy, rfl⟩ := List.mem_map.mp hx
          exact ⟨y, hy, hsame _ y⟩
  · cases h

theorem closeClear_keepsDeadlines (h : s.closeClear = some (s', evs)) : s.KeepsDeadlines s' := by
  unfold closeClear at h
  split at h
  · cases h
    exact .of_eq rfl rfl
  · split at h
    · cases h
    · cases h
      exact ⟨rfl, fun seg hseg => absurd hseg List.not_mem_nil⟩
  · cases h
    exact .of_eq rfl rfl
  · cases h

theorem others_keepDeadlines (h : s.perform a = some (s', evs)) (ha : a.party ≠ .outputLoop) :
    s.KeepsDeadlines s' := by
  by_cases htouch : a.touches .deadlines = false
  · exact .of_untouched h htouch
  · cases a with
    | releaseNext => exact releaseNext_keepsDeadlines h
    | countAck => exact countAck_keepsDeadlines h
    | closeClear => exact closeClear_keepsDeadlines h
    | resendNext | sendNext => exact absurd rfl ha
    | _ => exact absurd rfl htouch

end Session

/-! ## What the loop goes by -/

def Segment.InTime (seg : Segment) (next : Option ℤ) : Prop :=
  ∃ t, next = some t ∧ t ≤ seg.deadline

namespace Segment.InTime

variable {seg : Segment} {next : Option ℤ}

theorem minTX (h : seg.InTime next) (deadline : ℤ) :
    seg.InTime (Session.minTX next deadline) := by
  obtain ⟨t, rfl, ht⟩ := h
  exact ⟨min t deadline, rfl, (min_le_left t deadline).trans ht⟩

theorem of_minTX {deadline : ℤ} (h : deadline ≤ seg.deadline) :
    seg.InTime (Session.minTX next deadline) := by
  cases next with
  | none => exact ⟨deadline, rfl, h⟩
  | some t => exact ⟨min t deadline, rfl, (min_le_right t deadline).trans h⟩

end Segment.InTime

/-- The scan is past the segment. Outside the scan it is past all of them. -/
def OutputPc.isPast : OutputPc → Segment → Prop
  | resending cursor _ _, seg => ∃ c, cursor = some c ∧ seg.seq ≤ c
  | _, _ => True

def OutputPc.isResending : OutputPc → Bool
  | resending .. => true
  | _ => false

namespace OutputPc.isPast

variable {pc : OutputPc} {seg old : Segment}

theorem of_seq (h : pc.isPast seg) (hseq : old.seq = seg.seq) : pc.isPast old := by
  cases pc with
  | resending =>
    obtain ⟨c, hc, hle⟩ := h
    exact ⟨c, hc, hseq ▸ hle⟩
  | _ => trivial

theorem of_not_resending (hpc : pc.isResending = false) (seg : Segment) : pc.isPast seg := by
  cases pc with
  | resending => cases hpc
  | _ => trivial

end OutputPc.isPast

namespace Paced

variable {cfg : SessionConfig}

/-- The deadline that is stored or will be. -/
def nextTX (l : Paced cfg) : Option ℤ :=
  match l.hand, l.session.outputPc with
  | .storing nextTX, _ => nextTX
  | _, .resending _ nextTX _ => nextTX
  | _, _ => some l.session.nextRetransmissionTime

structure OnTime (l : Paced cfg) : Prop where
  running : ∀ pc, l.session.outputPc ≠ .failed pc
  buf : ∀ seg ∈ l.session.sendBuf.items, l.session.outputPc.isPast seg → seg.InTime l.nextTX
  putting : ∀ seg, l.hand = .putting seg → seg.InTime l.nextTX
  storing : ∀ nextTX, l.hand = .storing nextTX → ∃ total, l.session.outputPc = .sendCheck total

variable {s s' : Session cfg} {hand : Hand}

theorem OnTime.of_free (hrun : ∀ pc, s.outputPc ≠ .failed pc)
    (hbuf : ∀ seg ∈ s.sendBuf.items, s.outputPc.isPast seg → seg.InTime (nextTX ⟨s, .free⟩)) :
    OnTime ⟨s, .free⟩ :=
  ⟨hrun, hbuf, fun _ hfree => Hand.noConfusion hfree, fun _ hfree => Hand.noConfusion hfree⟩

theorem OnTime.of_keeps (h : OnTime ⟨s, hand⟩) (hkeep : s.KeepsDeadlines s')
    (hpc : s'.outputPc = s.outputPc) : OnTime ⟨s', hand⟩ := by
  have hnext : nextTX ⟨s', hand⟩ = nextTX ⟨s, hand⟩ := by
    simp only [nextTX, hpc, hkeep.next]
  constructor
  · intro pc
    rw [hpc]
    exact h.running pc
  · intro seg hseg hpast
    obtain ⟨old, hold, hseq, hdeadline⟩ := hkeep.buf seg hseg
    have hpast' : s.outputPc.isPast seg := hpc ▸ hpast
    obtain ⟨t, ht, hle⟩ := h.buf old hold (hpast'.of_seq hseq)
    exact ⟨t, hnext.trans ht, hdeadline ▸ hle⟩
  · intro seg hseg
    obtain ⟨t, ht, hle⟩ := h.putting seg hseg
    exact ⟨t, hnext.trans ht, hle⟩
  · intro nextTX hstoring
    obtain ⟨total, htotal⟩ := h.storing nextTX hstoring
    exact ⟨total, hpc.trans htotal⟩

theorem nextTX_free (hpc : s.outputPc.isResending = false) :
    nextTX ⟨s, .free⟩ = some s.nextRetransmissionTime := by
  cases hpc' : s.outputPc with
  | resending =>
    rw [hpc'] at hpc
    cases hpc
  | _ => simp only [nextTX, hpc']

theorem OnTime.go (h : OnTime ⟨s, .free⟩) (hkeep : s.KeepsDeadlines s')
    (hpc : s.outputPc.isResending = false)
    (hpc' : s'.outputPc.isResending = false ∨ s'.outputPc = .resending none none 0)
    (hrun : ∀ pc, s'.outputPc ≠ .failed pc) : OnTime ⟨s', .free⟩ := by
  refine .of_free hrun fun seg hseg hpast => ?_
  rcases hpc' with hpc' | hpc'
  · obtain ⟨old, hold, _, hdeadline⟩ := hkeep.buf seg hseg
    obtain ⟨t, ht, hle⟩ := h.buf old hold (.of_not_resending hpc old)
    rw [nextTX_free hpc] at ht
    refine ⟨t, ?_, hdeadline ▸ hle⟩
    rw [nextTX_free hpc', hkeep.next, ht]
  · change s'.outputPc.isPast seg at hpast
    rw [hpc'] at hpast
    obtain ⟨c, hc, _⟩ := hpast
    cases hc

/-! ## The halves of a step -/

/-- A session that had no output error goes by a deadline that covers its segments. -/
def Timed (l : Paced cfg) : Prop := l.session.outputHasErr = false → l.OnTime

theorem armRetransmission_le (seg : Segment) : s.armRetransmission seg ≤ seg.deadline := by
  unfold Session.armRetransmission
  dsimp only
  split_ifs
  · exact min_le_left _ _
  · exact min_le_right _ _

theorem armRetransmission_le_next {seg x : Segment} (hx : x ∈ s.sendBuf.items) :
    s.armRetransmission seg ≤ s.nextRetransmissionTime := by
  have hlen : s.sendBuf.len ≠ 0 := (List.length_pos_of_mem hx).ne'
  unfold Session.armRetransmission
  rw [if_neg hlen]
  exact min_le_left _ _

theorem Timed.sendTake {cwnd now timeout : ℤ} (h : Timed ⟨s, .free⟩)
    (htake : s.sendTake cwnd now timeout = some (s', hand)) : Timed ⟨s', hand⟩ := by
  unfold Session.sendTake at htake
  split at htake
  · rename_i total hpc
    have hscan : s.outputPc.isResending = false := by rw [hpc]; rfl
    split at htake
    · cases htake
      intro hclean
      exact (h hclean).go (.of_eq rfl rfl) hscan (.inl rfl) fun _ => OutputPc.noConfusion
    · split at htake
      · cases htake
        intro hclean
        exact (h hclean).go (.of_eq rfl rfl) hscan (.inl rfl) fun _ => OutputPc.noConfusion
      · rename_i seg q _
        cases htake
        intro hclean
        set armed := s.armRetransmission (seg.transmitted s.nextRecv now timeout) with harmed
        have hnext {seg' : Segment} : nextTX ⟨{ s with
            sendQueue := q, nextRetransmissionTime := armed }, .putting seg'⟩ = some armed := by
          simp only [nextTX, hpc]
        refine ⟨(h hclean).running, ?_, ?_, fun _ hx => Hand.noConfusion hx⟩
        · intro x hx _
          obtain ⟨t, ht, hle⟩ := (h hclean).buf x hx (.of_not_resending hscan x)
          rw [nextTX_free hscan] at ht
          cases ht
          have hold : x ∈ s.sendBuf.items := hx
          exact ⟨armed, hnext, (armRetransmission_le_next hold).trans hle⟩
        · intro x hx
          cases hx
          exact ⟨armed, hnext, armRetransmission_le _⟩
  · cases htake

theorem Timed.sendPut {seg : Segment} {now : ℤ} {fate : Fate} {evs : List Event}
    (h : Timed ⟨s, .putting seg⟩) (hput : s.sendPut seg now fate = some (s', evs)) :
    Timed ⟨s', .free⟩ := by
  unfold Session.sendPut at hput
  split at hput
  · rename_i total hpc
    split at hput
    · cases hput
      intro hclean
      cases hclean
    · rename_i buf hbuf
      split at hput
      · cases hput
        intro hclean
        cases hclean
      · rename_i hout
        obtain ⟨time, rfl⟩ := Session.output_eq hout
        cases hput
        intro hclean
        have hnext : nextTX ⟨s, .putting seg⟩ = some s.nextRetransmissionTime := by
          simp only [nextTX, hpc]
        refine .of_free (fun _ => OutputPc.noConfusion) fun x hx _ => ?_
        have hin : x.InTime (nextTX ⟨s, .putting seg⟩) := by
          rcases SegmentTree.mem_of_insert hbuf hx with rfl | hold
          · exact (h hclean).putting x rfl
          · exact (h hclean).buf x hold (by rw [hpc]; trivial)
        rw [hnext] at hin
        exact hin
  · cases hput

theorem Timed.resendEnd (h : Timed ⟨s, .free⟩) (hend : s.resendEnd = some (s', hand)) :
    Timed ⟨s', hand⟩ := by
  unfold Session.resendEnd at hend
  split at hend
  · rename_i cursor nextTX total hpc
    split at hend
    · rename_i hnone
      cases hend
      intro hclean
      refine ⟨fun _ => OutputPc.noConfusion, ?_, fun _ hx => Hand.noConfusion hx,
        fun _ _ => ⟨total, rfl⟩⟩
      intro x hx _
      have hbehind := List.find?_eq_none.mp hnone x hx
      have hpast : s.outputPc.isPast x := by
        rw [hpc]
        cases cursor with
        | none => exact absurd rfl hbehind
        | some c =>
          refine ⟨c, rfl, UInt32.not_lt.mp fun hlt => hbehind ?_⟩
          simpa using hlt
      have hin := (h hclean).buf x hx hpast
      simp only [Paced.nextTX, hpc] at hin
      exact hin
    · cases hend
  · cases hend

theorem Timed.resendStore {nextTX : Option ℤ} (h : Timed ⟨s, .storing nextTX⟩) :
    Timed ⟨s.resendStore nextTX, .free⟩ := by
  intro hclean
  have hscan : s.outputPc.isResending = false := by
    obtain ⟨total, htotal⟩ := (h hclean).storing nextTX rfl
    change s.outputPc = _ at htotal
    rw [htotal]
    rfl
  refine .of_free (h hclean).running fun x hx _ => ?_
  obtain ⟨t, ht, hle⟩ := (h hclean).buf x hx (.of_not_resending hscan x)
  cases ht
  exact ⟨t, nextTX_free hscan, hle⟩

theorem isPast_of_lt {cursor : Option UInt32} {nextTX : Option ℤ} {total : ℕ} {iter x : Segment}
    (hiter : s.resendCandidate cursor = some iter) (hx : x ∈ s.sendBuf.items)
    (hlt : x.key < iter.key) : OutputPc.isPast (.resending cursor nextTX total) x := by
  obtain ⟨_, front, back, hsplit, hfront⟩ := List.find?_eq_some_iff_append.mp hiter
  have hmem : x ∈ front := by
    rw [hsplit, List.mem_append, List.mem_cons] at hx
    rcases hx with hx | rfl | hx
    · exact hx
    · exact absurd hlt (lt_irrefl _)
    · have hsorted := s.sendBuf.sorted
      rw [hsplit] at hsorted
      have hback := (List.pairwise_cons.mp (List.pairwise_append.mp hsorted).2.1).1 x hx
      omega
  have hbehind := hfront x hmem
  cases cursor with
  | none => cases hbehind
  | some c =>
    refine ⟨c, rfl, UInt32.not_lt.mp fun hgt => ?_⟩
    simp [hgt] at hbehind

theorem eq_of_key {x y : Segment} (hx : x ∈ s.sendBuf.items) (hy : y ∈ s.sendBuf.items)
    (hkey : x.key = y.key) : x = y := by
  have hnodup : (s.sendBuf.items.map Segment.key).Nodup :=
    List.pairwise_map.mpr (s.sendBuf.sorted.imp fun hlt => hlt.ne)
  exact List.inj_on_of_nodup_map hnodup hx hy hkey

theorem OnTime.pass {cursor : Option UInt32} {nextTX : Option ℤ} {total total' : ℕ}
    {iter : Segment} {deadline : ℤ} (h : OnTime ⟨s, .free⟩)
    (hpc : s.outputPc = .resending cursor nextTX total)
    (hiter : s.resendCandidate cursor = some iter)
    (hpc' : s'.outputPc = .resending (some iter.seq) (Session.minTX nextTX deadline) total')
    (hbuf : ∀ x ∈ s'.sendBuf.items, x.key ≠ iter.key → x ∈ s.sendBuf.items)
    (hdeadline : ∀ x ∈ s'.sendBuf.items, x.key = iter.key → deadline ≤ x.deadline) :
    OnTime ⟨s', .free⟩ := by
  have hnext : Paced.nextTX ⟨s', .free⟩ = Session.minTX nextTX deadline := by
    simp only [Paced.nextTX, hpc']
  refine .of_free (fun pc => by rw [hpc']; exact OutputPc.noConfusion) fun x hx hpast => ?_
  rw [hnext]
  by_cases hkey : x.key = iter.key
  · exact .of_minTX (hdeadline x hx hkey)
  · change s'.outputPc.isPast x at hpast
    rw [hpc'] at hpast
    obtain ⟨c, hc, hle⟩ := hpast
    cases hc
    have hlt : x.key < iter.key := lt_of_le_of_ne (UInt32.le_iff_toNat_le.mp hle) hkey
    have hold := hbuf x hx hkey
    have hin : x.InTime (Paced.nextTX ⟨s, .free⟩) :=
      h.buf x hold (hpc ▸ isPast_of_lt hiter hold hlt)
    simp only [Paced.nextTX, hpc] at hin
    exact hin.minTX deadline

theorem Timed.resendNext {now txTime timeout : ℤ} {fate : Fate} {evs : List Event}
    (h : Timed ⟨s, .free⟩) (hresend : s.resendNext now txTime timeout fate = some (s', evs)) :
    Timed ⟨s', .free⟩ := by
  unfold Session.resendNext at hresend
  split at hresend
  · rename_i cursor nextTX total hpc
    split at hresend
    · rename_i hnone
      cases hresend
      have hend : s.resendEnd =
          some ({ s with outputPc := .sendCheck total }, .storing nextTX) := by
        simp only [Session.resendEnd, hpc, hnone]
      exact (h.resendEnd hend).resendStore
    · rename_i iter hiter
      split at hresend
      · cases hresend
        intro hclean
        cases hclean
      · split at hresend
        · dsimp only at hresend
          split at hresend
          · cases hresend
            intro hclean
            cases hclean
          · rename_i hout
            obtain ⟨time, rfl⟩ := Session.output_eq hout
            cases hresend
            intro hclean
            have hkey := iter.key_retransmitted s.nextRecv txTime timeout
            refine (h hclean).pass hpc hiter rfl ?_ ?_
            · intro x hx hother
              obtain ⟨y, hy, rfl⟩ := List.mem_map.mp hx
              split_ifs at hother ⊢
              · exact absurd hkey hother
              · exact hy
            · intro x hx hsame
              obtain ⟨y, hy, rfl⟩ := List.mem_map.mp hx
              split_ifs at hsame ⊢
              · exact le_rfl
              · contradiction
        · cases hresend
          intro hclean
          refine (h hclean).pass hpc hiter rfl (fun x hx _ => hx) fun x hx hkey => ?_
          rw [eq_of_key hx (List.mem_of_find?_eq_some hiter) hkey]
          exact le_rfl
  · cases hresend

theorem Timed.sendNext {cwnd now timeout : ℤ} {fate : Fate} {evs : List Event}
    (h : Timed ⟨s, .free⟩) (hsend : s.sendNext cwnd now timeout fate = some (s', evs)) :
    Timed ⟨s', .free⟩ := by
  rw [Session.sendNext_eq] at hsend
  obtain ⟨⟨t, hand⟩, htake, hrest⟩ := Option.bind_eq_some_iff.mp hsend
  cases hand with
  | free =>
    cases hrest
    exact h.sendTake htake
  | putting seg => exact (h.sendTake htake).sendPut hrest
  | storing => cases hrest

/-! ## Runs -/

theorem ackSend_clean {now jitter : ℤ} {fate : Fate} {evs : List Event}
    (h : s.ackSend now jitter fate = some (s', evs)) (hclean : s'.outputHasErr = false) :
    s.outputHasErr = false ∧ s'.outputPc = .waiting := by
  unfold Session.ackSend at h
  split at h
  · split at h
    · cases h
    · dsimp only at h
      split at h
      · cases h
        cases hclean
      · rename_i hout
        obtain ⟨time, rfl⟩ := Session.output_eq hout
        cases h
        exact ⟨hclean, rfl⟩
  · cases h

theorem streamNext_clean {now : ℤ} {fate : Fate} {evs : List Event}
    (h : s.streamNext now fate = some (s', evs)) (hclean : s'.outputHasErr = false) :
    s.outputHasErr = false ∧ (s'.outputPc = .waiting ∨ s'.outputPc = .streaming) := by
  unfold Session.streamNext at h
  split at h
  · rename_i hpc
    split at h
    · split at h
      · cases h
        exact ⟨hclean, .inl rfl⟩
      · split at h
        · cases h
          cases hclean
        · rename_i hout
          obtain ⟨time, rfl⟩ := Session.output_eq hout
          cases h
          exact ⟨hclean, .inr hpc⟩
    · cases h
  · cases h

theorem Timed.output {a : Action} {evs : List Event} (h : Timed ⟨s, .free⟩)
    (hp : s.perform a = some (s', evs)) (ha : a.party = .outputLoop) : Timed ⟨s', .free⟩ := by
  have hkeep := (Session.perform_effect hp).keeps
  have hflow := Session.output_flow hp ha
  intro hclean
  generalize hpc : s.outputPc = pc at hflow
  generalize hpc' : s'.outputPc = pc' at hflow
  have hgo (htouch : a.touches .deadlines = false) (hold : s.outputHasErr = false)
      (hscan : pc.isResending = false)
      (hscan' : pc'.isResending = false ∨ pc' = .resending none none 0)
      (hrun : ∀ resume, pc' ≠ .failed resume) : OnTime ⟨s', .free⟩ := by
    subst hpc hpc'
    exact (h hold).go (.of_untouched hp htouch) hscan hscan' hrun
  cases hflow with
  | wake | stop | hasErr | check | skipSend | clear | lockSend | lockStream =>
    have hold : s.outputHasErr = false := (hkeep .outputHasErr rfl).symm.trans hclean
    exact hgo rfl hold rfl (.inl rfl) fun _ => OutputPc.noConfusion
  | lockResend =>
    have hold : s.outputHasErr = false := (hkeep .outputHasErr rfl).symm.trans hclean
    exact hgo rfl hold rfl (.inr rfl) fun _ => OutputPc.noConfusion
  | start hnext =>
    have hold : s.outputHasErr = false := (hkeep .outputHasErr rfl).symm.trans hclean
    rcases hnext with rfl | rfl | rfl
    all_goals exact hgo rfl hold rfl (.inl rfl) fun _ => OutputPc.noConfusion
  | checkAck hnext =>
    have hold : s.outputHasErr = false := (hkeep .outputHasErr rfl).symm.trans hclean
    rcases hnext with rfl | rfl
    all_goals exact hgo rfl hold rfl (.inl rfl) fun _ => OutputPc.noConfusion
  | resume =>
    have hold : s.outputHasErr = false := (hkeep .outputHasErr rfl).symm.trans hclean
    exact absurd hpc ((h hold).running _)
  | resend | resent => exact h.resendNext hp hclean
  | send | sent => exact h.sendNext hp hclean
  | ack =>
    obtain ⟨hold, hwaiting⟩ := ackSend_clean hp hclean
    obtain rfl := hpc'.symm.trans hwaiting
    exact hgo rfl hold rfl (.inl rfl) fun _ => OutputPc.noConfusion
  | stream =>
    obtain ⟨hold, hnext⟩ := streamNext_clean hp hclean
    rw [hpc'] at hnext
    rcases hnext with rfl | rfl
    all_goals exact hgo rfl hold rfl (.inl rfl) fun _ => OutputPc.noConfusion

theorem Timed.step {l l' : Paced cfg} {a : PacedAction} {evs : List Event} (h : l.Timed)
    (hstep : l.step a = some (l', evs)) : l'.Timed := by
  obtain ⟨s, hand⟩ := l
  cases a with
  | session a =>
    simp only [Paced.step] at hstep
    split at hstep
    · cases hstep
    · rename_i hfree
      obtain ⟨⟨s', _⟩, hs, heq⟩ := Option.map_eq_some_iff.mp hstep
      cases heq
      have hp := Session.perform_of_step hs
      by_cases hparty : a.party = .outputLoop
      · cases hand with
        | free => exact h.output hp hparty
        | _ => exact absurd ⟨rfl, hparty⟩ hfree
      · intro hclean
        have hkeep := (Session.perform_effect hp).keeps
        have herr : s'.outputHasErr = s.outputHasErr := by
          refine hkeep .outputHasErr ?_
          cases a <;> first | rfl | exact absurd rfl hparty
        have hpc : s'.outputPc = s.outputPc :=
          hkeep .outputLoop (by simpa [Action.touches] using hparty)
        exact (h (herr.symm.trans hclean)).of_keeps (Session.others_keepDeadlines hp hparty) hpc
  | sendTake cwnd now timeout =>
    simp only [Paced.step] at hstep
    split at hstep
    · cases hstep
    · rename_i hfree
      obtain ⟨⟨s', hand'⟩, htake, heq⟩ := Option.map_eq_some_iff.mp hstep
      cases heq
      cases hand with
      | free => exact h.sendTake htake
      | _ => exact absurd (.inl rfl) hfree
  | sendPut now fate =>
    cases hand with
    | putting seg =>
      obtain ⟨⟨s', _⟩, hput, heq⟩ := Option.map_eq_some_iff.mp hstep
      cases heq
      exact h.sendPut hput
    | _ => cases hstep
  | resendEnd =>
    simp only [Paced.step] at hstep
    split at hstep
    · cases hstep
    · rename_i hfree
      obtain ⟨⟨s', hand'⟩, hend, heq⟩ := Option.map_eq_some_iff.mp hstep
      cases heq
      cases hand with
      | free => exact h.resendEnd hend
      | _ => exact absurd (.inl rfl) hfree
  | resendStore =>
    cases hand with
    | storing nextTX =>
      cases hstep
      exact h.resendStore
    | _ => cases hstep

theorem timed_of_reaches {now jitter : ℤ} {es : List PacedAction} {outs : List Event}
    {l : Paced cfg}
    (h : Machine.Reaches step Machine.Free ⟨.attached now jitter, .free⟩ es outs l) : l.Timed := by
  refine h.invariant (I := fun l _ => l.Timed) ?_ fun l _ a l' evs ih _ hstep => ih.step hstep
  intro _
  exact .of_free (fun _ => OutputPc.noConfusion) fun seg hseg => absurd hseg List.not_mem_nil

end Paced

/-! ## The timer -/

namespace Session

variable {cfg : SessionConfig} {s : Session cfg} {now next : ℤ}

theorem ArmedFor.of_delay
    (h : s.nextPacketOutputDelay now = if next - now ≤ 0 then minOutputInterval else next - now) :
    s.ArmedFor now next := by
  unfold ArmedFor
  rw [h]
  by_cases hpast : next ≤ now
  · rw [if_pos hpast, if_pos (by omega)]
  · rw [if_neg hpast, if_neg (by omega)]
    omega

theorem armedFor_opening (hopening : s.isClientPacketSessionOpening = true)
    (hbuf : 0 < s.sendBuf.len) (now : ℤ) : s.ArmedFor now s.nextRetransmissionTime := by
  refine .of_delay ?_
  simp [nextPacketOutputDelay, hopening, hbuf, minTX]

def Earliest (D : Set ℤ) : Option ℤ → Prop
  | none => D = ∅
  | some next => IsLeast D next

theorem Earliest.minTX {D : Set ℤ} {next : Option ℤ} (h : Earliest D next) (deadline : ℤ) :
    Earliest (insert deadline D) (minTX next deadline) := by
  cases next with
  | none =>
    obtain rfl : D = ∅ := h
    rw [insert_empty_eq]
    exact isLeast_singleton
  | some next =>
    have hleast : IsLeast (insert deadline D) (min deadline next) := IsLeast.insert deadline h
    rw [min_comm] at hleast
    exact hleast

theorem Earliest.ite {D : Set ℤ} {next : Option ℤ} (h : Earliest D next) (p : Prop) [Decidable p]
    (deadline : ℤ) :
    Earliest {d | p ∧ d = deadline ∨ d ∈ D} (if p then Session.minTX next deadline else next) := by
  split_ifs with hp
  · have hset : {d | p ∧ d = deadline ∨ d ∈ D} = insert deadline D := by
      ext d
      simp [hp]
    rw [hset]
    exact h.minTX deadline
  · have hset : {d | p ∧ d = deadline ∨ d ∈ D} = D := by
      ext d
      simp [hp]
    rw [hset]
    exact h

theorem armedFor_earliest (hopening : s.isClientPacketSessionOpening = false) (now : ℤ) :
    ∃ next, IsLeast {d | s.Deadline d} next ∧ s.ArmedFor now next := by
  have hnone : Earliest ∅ none := rfl
  have hall := ((hnone.ite (0 < s.sendBuf.len) s.nextRetransmissionTime).ite
    (s.ackOnDataRecv = true) s.ackDeadline).minTX
      (s.lastTXTime + (sessionHeartbeatInterval + s.heartbeatJitter))
  obtain ⟨next, hnext⟩ : ∃ next, minTX (if s.ackOnDataRecv = true then
      minTX (if 0 < s.sendBuf.len then minTX none s.nextRetransmissionTime else none) s.ackDeadline
      else if 0 < s.sendBuf.len then minTX none s.nextRetransmissionTime else none)
      (s.lastTXTime + (sessionHeartbeatInterval + s.heartbeatJitter)) = some next := ⟨_, rfl⟩
  rw [hnext] at hall
  refine ⟨next, ?_, .of_delay ?_⟩
  · change IsLeast _ next at hall
    convert hall using 1
    ext d
    constructor
    · intro hd
      cases hd with
      | retransmission hbuf => exact .inr (.inr (.inl ⟨hbuf, rfl⟩))
      | ack hpending => exact .inr (.inl ⟨hpending, rfl⟩)
      | heartbeat => exact .inl rfl
    · rintro (rfl | ⟨hpending, rfl⟩ | ⟨hbuf, rfl⟩ | hempty)
      · exact .heartbeat
      · exact .ack hpending
      · exact .retransmission hbuf
      · exact absurd hempty (Set.notMem_empty d)
  · simp only [nextPacketOutputDelay, hopening, Bool.false_eq_true, not_false_eq_true, ↓reduceIte,
      hnext]

end Session

namespace Paced

variable {cfg : SessionConfig} {l : Paced cfg}

/-- A waiting output loop looks at `sendBuf` before any segment there is overdue, and no later
than anything else it has to do. -/
theorem wakes_before_deadlines {now jitter : ℤ} {es : List PacedAction} {outs : List Event}
    (h : Machine.Reaches step Machine.Free ⟨.attached now jitter, .free⟩ es outs l)
    (herr : l.session.outputHasErr = false) (hwait : l.session.outputPc = .waiting)
    (hbuf : 0 < l.session.sendBuf.len) :
    (∀ seg ∈ l.session.sendBuf.items, l.session.nextRetransmissionTime ≤ seg.deadline) ∧
    ∀ now,
      if l.session.isClientPacketSessionOpening then
        l.session.ArmedFor now l.session.nextRetransmissionTime
      else
        ∃ next, IsLeast {d | l.session.Deadline d} next ∧ l.session.ArmedFor now next := by
  have hontime := timed_of_reaches h herr
  refine ⟨fun seg hseg => ?_, fun now => ?_⟩
  · obtain ⟨t, ht, hle⟩ := hontime.buf seg hseg (by rw [hwait]; trivial)
    obtain ⟨s, hand⟩ := l
    change s.outputPc = .waiting at hwait
    cases hand with
    | storing nextTX =>
      obtain ⟨total, htotal⟩ := hontime.storing nextTX rfl
      cases hwait.symm.trans htotal
    | _ =>
      simp only [nextTX, hwait] at ht
      cases ht
      exact hle
  · split_ifs with hopening
    · exact Session.armedFor_opening hopening hbuf now
    · exact Session.armedFor_earliest (Bool.eq_false_iff.mpr hopening) now

/-- The server answers an open request and writes a byte. The answer is acknowledged while the
byte is on its way into `sendBuf`, and later the byte is sent again. -/
def emptiedRun : List PacedAction := [
  .session (.receive (Session.openRequestSegment (packetConfig true) 0 []).toPacket 0),
  .session (.requestAck 0), .session .accept, .session .waitSpace, .session .moveNext,
  .session .moveNext, .session (.requestAckAgain 0), .session (.respond true),
  .session .finishInput,
  .session (.write [9]), .session .writeOpen, .session .writeChunk, .session .writeReserve,
  .session .writeLock, .session .writeFragment,
  .session (.outputWake .notEmpty), .session (.outputStart 0), .session (.sendCheck 16),
  .session .outputLock, .session (.sendNext 16 0 5000 .sent), .sendTake 16 100 3000,
  .session (.receive ⟨.dataAck {
    protocol := .ackClientToServer, sessionID := 1, seq := 0, unAckSeq := 1, windowSize := 16 },
    []⟩ 100),
  .session .releaseNext, .session .releaseNext, .session .countAck,
  .sendPut 100 .sent, .sendTake 16 100 3000, .session (.ackCheck 100),
  .session (.outputWake .timer), .session (.outputStart 3100), .session .outputLock,
  .session (.resendNext 3100 3100 8000 .sent), .resendEnd, .resendStore,
  .session (.sendCheck 16), .session (.ackCheck 3100), .session .ackClear,
  .session (.ackSend 3100 0 .sent)]

/-- The scan finds the open session request not yet due. -/
def unansweredRun : List PacedAction := [
  .session (.write [1]), .session .writeOpen, .session .writeRequest,
  .session (.outputWake .notEmpty), .session (.outputStart 0), .session (.sendCheck 16),
  .session .outputLock, .session (.sendNext 16 0 10000000 .sent),
  .session (.sendNext 16 0 10000000 .sent), .session (.ackCheck 0),
  .session (.outputWake .timer), .session (.outputStart 10000), .session .outputLock,
  .session (.resendNext 10000 10000 10000000 .sent),
  .session (.resendNext 10000 10000 10000000 .sent),
  .session (.sendCheck 16), .session (.ackCheck 10000)]

theorem emptied_server_wakes : ∃ (l : Paced (packetConfig false)) (outs : List Event),
    Machine.Reaches step Machine.Free ⟨.attached 0 0, .free⟩ emptiedRun outs l ∧
    l.session.nextRetransmissionTime = 11100 ∧ l.session.nextPacketOutputDelay 3100 = 8000 ∧
    (∀ seg ∈ l.session.sendBuf.items, l.session.nextRetransmissionTime ≤ seg.deadline) ∧
    ∀ now,
      if l.session.isClientPacketSessionOpening then
        l.session.ArmedFor now l.session.nextRetransmissionTime
      else
        ∃ next, IsLeast {d | l.session.Deadline d} next ∧ l.session.ArmedFor now next := by
  have hsummary : (Machine.run step (⟨.attached 0 0, .free⟩ : Paced (packetConfig false))
      emptiedRun).map (fun r => (r.1.session.nextRetransmissionTime,
        r.1.session.nextPacketOutputDelay 3100, r.1.session.outputHasErr, r.1.session.outputPc,
        r.1.session.sendBuf.len)) = some (11100, 8000, false, .waiting, 1) := by
    rfl
  obtain ⟨⟨l, outs⟩, hrun, heq⟩ := Option.map_eq_some_iff.mp hsummary
  simp only [Prod.mk.injEq] at heq
  obtain ⟨hnext, hdelay, herr, hwait, hlen⟩ := heq
  have hreach := Machine.reaches_of_run hrun
  exact ⟨l, outs, hreach, hnext, hdelay, wakes_before_deadlines hreach herr hwait (by omega)⟩

/-- The client that waits for its open session response sleeps through its heartbeat. -/
theorem unanswered_client_oversleeps : ∃ (l : Paced (packetConfig true)) (outs : List Event),
    Machine.Reaches step Machine.Free ⟨.attached 0 0, .free⟩ unansweredRun outs l ∧
    l.session.outputHasErr = false ∧ l.session.outputPc = .waiting ∧ 0 < l.session.sendBuf.len ∧
    ∃ d, l.session.Deadline d ∧ 10000 < d ∧ d < 10000 + l.session.nextPacketOutputDelay 10000 := by
  have hsummary : (Machine.run step (⟨.attached 0 0, .free⟩ : Paced (packetConfig true))
      unansweredRun).map (fun r => (r.1.session.outputHasErr, r.1.session.outputPc,
        r.1.session.sendBuf.len, r.1.session.lastTXTime +
          (sessionHeartbeatInterval + r.1.session.heartbeatJitter),
        r.1.session.nextPacketOutputDelay 10000)) =
      some (false, .waiting, 1, 5000000, 9990000) := by
    rfl
  obtain ⟨⟨l, outs⟩, hrun, heq⟩ := Option.map_eq_some_iff.mp hsummary
  simp only [Prod.mk.injEq] at heq
  obtain ⟨herr, hwait, hlen, hheart, hdelay⟩ := heq
  refine ⟨l, outs, Machine.reaches_of_run hrun, herr, hwait, by omega, 5000000, ?_, by decide, ?_⟩
  · exact hheart ▸ .heartbeat
  · rw [hdelay]
    decide

end Paced

end Mieru.Protocol
