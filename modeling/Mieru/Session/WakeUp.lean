import Mieru.Lib.Machine
import Mieru.Session.Flow

/-! # Wake-ups of the packet output loop

The output loop sleeps in its select. Whoever makes queued segments sendable has to leave a
token for it, in `packetOutputWakeup` or in the `chanNotEmptyEvent` of `sendQueue`. -/
namespace Mieru.Protocol

open OrderedTree ProtocolType

/-- The input loop is between changing the send window and its own wake-up. -/
def InputPc.owesWake : InputPc → Bool
  | releasing _ | requesting _ | counting _ => true
  | _ => false

/-- The output loop will not look at `sendQueue` any more before its next select. -/
def OutputPc.isPastSending : OutputPc → Bool
  | ackCheck | ackClear | ackSend | waiting | failed waiting => true
  | _ => false

def OutputPc.isFailed : OutputPc → Bool
  | failed _ => true
  | _ => false

namespace Session

variable {cfg : SessionConfig} (s : Session cfg)

def tokenPending : Bool := s.packetOutputWakeup ∨ s.sendQueue.chanNotEmptyEvent

/-- `Read` is about to take the open session response before the session is established. -/
def readsOpenResponse : Bool :=
  s.state = .attached ∧ s.unreadBuf = [] ∧
    (s.recvQueue.items.head?.map fun seg => (seg.protocol = openSessionResponse : Bool)).getD false

def movedWindow : UInt32 :=
  match s.recvBuf.items.head? with
  | some seg => if seg.seq = s.nextRecv then windowOf seg s.remoteWindowSize else s.remoteWindowSize
  | none => s.remoteWindowSize

/-- The output loop goes to sleep over segments it could send only if a token is pending. -/
def Alert (cwnd : ℤ) : Prop :=
  s.state = .established → s.inputPc.owesWake = false → s.outputPc.isPastSending = true →
    s.sendQueue.items ≠ [] → 0 < s.sendWindowSize cwnd → s.tokenPending = true

end Session

/-- A session with its congestion window. -/
structure Windowed (cfg : SessionConfig) where
  session : Session cfg
  cwnd : ℤ

/-- `OnAck` is called where segments are released, `OnLoss` and `OnTimeout` after a resend phase. -/
def Action.movesWindow : Action → Bool
  | releaseNext | resendNext .. | outputClose => true
  | _ => false

def Action.window? : Action → Option ℤ
  | sendCheck cwnd | sendNext cwnd .. => some cwnd
  | _ => none

namespace Windowed

variable {cfg : SessionConfig}

def step (l : Windowed cfg) (e : Action × ℤ) : Option (Windowed cfg × List Event) :=
  if (e.1.window? = none ∨ e.1.window? = some l.cwnd) ∧ (e.1.movesWindow = true ∨ e.2 = l.cwnd) then
    (l.session.step e.1).map fun (s, evs) => (⟨s, e.2⟩, evs)
  else none

/-- `Read` leaves establishing the session to the input loop, no segment that was received out of
order opens a remote window of zero, and a full `sendBuf` does not stop the output loop while
the window is open. -/
def leavesToken (l : Windowed cfg) (e : Action × ℤ) : Bool :=
  match e.1 with
  | .readLoop => ¬l.session.readsOpenResponse
  | .moveNext => l.session.remoteWindowSize = 0 → l.session.movedWindow = 0
  | .sendNext .. => 1 < l.session.sendBuf.remaining ∨ l.session.sendWindowSize l.cwnd = 0
  | _ => true

end Windowed

namespace Session

variable {cfg : SessionConfig} {s s' : Session cfg} {a : Action} {evs : List Event} {cwnd : ℤ}

theorem sendWindowSize_pos :
    0 < s.sendWindowSize cwnd ↔ (s.sendBuf.len : ℤ) < cwnd ∧ s.remoteWindowSize ≠ 0 := by
  have hzero : s.remoteWindowSize ≠ 0 ↔ 0 < s.remoteWindowSize.toNat := by
    rw [Nat.pos_iff_ne_zero, ne_eq, ne_eq, ← UInt32.toNat_inj]
    rfl
  rw [hzero]
  unfold sendWindowSize
  omega

theorem Alert.of_kept (h : s.Alert cwnd) (hstate : s'.state = s.state)
    (hout : s'.outputPc.isPastSending = true → s.outputPc.isPastSending = true)
    (hin : s'.inputPc.owesWake = false → s.inputPc.owesWake = false)
    (hqueue : s'.sendQueue.items = s.sendQueue.items)
    (hwindow : 0 < s'.sendWindowSize cwnd → 0 < s.sendWindowSize cwnd)
    (htoken : s.tokenPending = true → s'.tokenPending = true) : s'.Alert cwnd := by
  intro hest howes hpast hne hpos
  apply htoken
  apply h
  · exact hstate ▸ hest
  · exact hin howes
  · exact hout hpast
  · exact hqueue ▸ hne
  · exact hwindow hpos

theorem tokenPending_of_wakeup (h : s.packetOutputWakeup = true) : s.tokenPending = true := by
  simp [tokenPending, h]

theorem tokenPending_of_notEmpty (h : s.sendQueue.chanNotEmptyEvent = true) :
    s.tokenPending = true := by
  simp [tokenPending, h]

theorem Alert.of_keeps (h : s.Alert cwnd) (hkeep : ∀ x, a.touches x = false → s.Keeps s' x)
    (hstate : s'.state = s.state)
    (hout : s'.outputPc.isPastSending = true → s.outputPc.isPastSending = true)
    (hin : s'.inputPc.owesWake = false → s.inputPc.owesWake = false)
    (hqueue : a.touches .sendQueue = false) (hbuf : a.touches .sendBuf = false)
    (hremote : a.touches .remoteWindowSize = false)
    (hwakeup : a.touches .packetOutputWakeup = false) : s'.Alert cwnd := by
  have hitems : s'.sendQueue.items = s.sendQueue.items := (hkeep .sendQueue hqueue).1
  have hnotEmpty : s'.sendQueue.chanNotEmptyEvent = s.sendQueue.chanNotEmptyEvent :=
    (hkeep .sendQueue hqueue).2
  have hlen : s'.sendBuf.len = s.sendBuf.len := hkeep .sendBuf hbuf
  have hwindow : s'.remoteWindowSize = s.remoteWindowSize := hkeep .remoteWindowSize hremote
  have htoken : s'.packetOutputWakeup = s.packetOutputWakeup := hkeep .packetOutputWakeup hwakeup
  refine h.of_kept hstate hout hin hitems ?_ ?_
  · rw [sendWindowSize_pos, sendWindowSize_pos, hlen, hwindow]
    exact id
  · unfold tokenPending
    rw [hnotEmpty, htoken]
    exact id

theorem Alert.of_insert (h : s.Alert cwnd) (hkeep : ∀ x, a.touches x = false → s.Keeps s' x)
    (hparty : a.party = .writer)
    (hqueue : s'.sendQueue = s.sendQueue ∨
      ∃ seg ok, s.sendQueue.insert seg = (s'.sendQueue, ok)) : s'.Alert cwnd := by
  have hout : s'.outputPc = s.outputPc := hkeep .outputLoop (by simp [Action.touches, hparty])
  have hin : s'.inputPc = s.inputPc := hkeep .inputLoop (by simp [Action.touches, hparty])
  have hstate : s'.state = s.state := hkeep .state (by
    cases a <;> first | rfl | cases hparty)
  have hlen : s'.sendBuf.len = s.sendBuf.len := hkeep .sendBuf (by
    cases a <;> first | rfl | cases hparty)
  have hremote : s'.remoteWindowSize = s.remoteWindowSize := hkeep .remoteWindowSize (by
    cases a <;> first | rfl | cases hparty)
  have hwakeup : s'.packetOutputWakeup = s.packetOutputWakeup := hkeep .packetOutputWakeup (by
    cases a <;> first | rfl | cases hparty)
  intro hest howes hpast hne hpos
  rw [sendWindowSize_pos, hlen, hremote] at hpos
  have hbefore (hne : s.sendQueue.items ≠ []) : s.tokenPending = true :=
    h (hstate ▸ hest) (hin ▸ howes) (hout ▸ hpast) hne (sendWindowSize_pos.mpr hpos)
  unfold tokenPending at hbefore ⊢
  rw [hwakeup]
  rcases hqueue with hsame | ⟨seg, ok, hinsert⟩
  · rw [hsame] at hne ⊢
    exact hbefore hne
  · rcases SegmentTree.insert_notEmpty hinsert with hset | ⟨hsame, hne⟩
    · simp [hset]
    · rw [hsame]
      exact hbefore hne

theorem writeRequest_queue (h : s.writeRequest = some (s', evs)) :
    s'.sendQueue = s.sendQueue ∨ ∃ seg ok, s.sendQueue.insert seg = (s'.sendQueue, ok) := by
  unfold writeRequest at h
  split at h
  · split_ifs at h
    dsimp only at h
    split at h
    · rename_i hinsert
      cases h
      exact .inr ⟨_, _, hinsert⟩
    · rename_i hinsert
      split_ifs at h <;> cases h <;> exact .inr ⟨_, _, hinsert⟩
  · cases h

theorem writeFragment_queue (h : s.writeFragment = some (s', evs)) :
    s'.sendQueue = s.sendQueue ∨ ∃ seg ok, s.sendQueue.insert seg = (s'.sendQueue, ok) := by
  unfold writeFragment at h
  split at h
  · split at h
    · cases h
    dsimp only at h
    split at h
    · cases h
      exact .inl rfl
    · split at h
      · rename_i hinsert
        cases h
        exact .inr ⟨_, _, hinsert⟩
      · rename_i hinsert
        split at h <;> cases h <;> exact .inr ⟨_, _, hinsert⟩
  · cases h

theorem readLoop_state (h : s.readLoop = some (s', evs)) (hread : s.readsOpenResponse = false) :
    s'.state = s.state := by
  unfold readLoop at h
  split at h
  · split at h
    · cases h
      rfl
    · rename_i hunread
      split at h
      · split at h <;> cases h <;> rfl
      · rename_i seg q hq
        cases h
        dsimp only
        rw [if_neg]
        rintro ⟨-, hproto, hstate⟩
        have hhead : s.recvQueue.items.head? = some seg := by
          rw [SegmentTree.deleteMin_some hq]
          rfl
        have hread' : s.readsOpenResponse = true := by
          simp [readsOpenResponse, hstate, not_not.mp hunread, hhead, hproto]
        rw [hread'] at hread
        cases hread
  · cases h

/-! ## The output loop -/

theorem sendNext_alert {now timeout : ℤ} {fate : Fate}
    (h : s.sendNext cwnd now timeout fate = some (s', evs))
    (hfull : 1 < s.sendBuf.remaining ∨ s.sendWindowSize cwnd = 0) : s'.Alert cwnd := by
  unfold sendNext at h
  split at h
  · rename_i total hpc
    split at h
    · rename_i hstop
      cases h
      intro hest _ _ _ hpos
      rcases hstop with hone | hdefer
      · have hzero := hfull.resolve_left (Nat.not_lt.mpr hone)
        change 0 < s.sendWindowSize cwnd at hpos
        omega
      · -- data is deferred only before the session is established
        have hopening : s.state = .attached := by
          simp [shouldDeferNextPacketData, isClientPacketSessionOpening] at hdefer
          exact hdefer.1.2.2
        rw [hopening] at hest
        cases hest
    · split at h
      · rename_i q hnone
        cases h
        intro _ _ _ hne _
        exact tokenPending_of_notEmpty (SegmentTree.deleteMinIf_notEmpty hnone hne)
      · dsimp only at h
        split at h
        · cases h
          exact fun _ _ hpast => nomatch hpast
        · split at h <;> cases h <;> exact fun _ _ hpast => nomatch hpast
  · cases h

theorem sendCheck_alert (h : s.sendCheck cwnd = some (s', evs)) : s'.Alert cwnd := by
  unfold sendCheck at h
  split at h
  · split at h
    · cases h
      exact fun _ _ hpast => nomatch hpast
    · rename_i hskip
      cases h
      intro _ _ _ hne hpos
      exact absurd ⟨List.length_pos_iff.mpr hne, hpos⟩ hskip
  · cases h

theorem outputClose_closing (h : s.outputClose = some (s', evs)) : s'.closePc ≠ .idle := by
  unfold outputClose at h
  split at h
  · cases h
    exact closeWithError_ne_idle _ _
  · cases h

theorem Alert.output {cwnd' : ℤ} (hs : s.Alert cwnd) (h : s.perform a = some (s', evs))
    (ha : a.party = .outputLoop) (hpacket : cfg.transportProtocol = .packetTransport)
    (herr : s.outputHasErr = true → s.outputPc.isFailed = true) (hopen : s'.closePc = .idle)
    (hsees : a.window? = none ∨ a.window? = some cwnd)
    (hmoves : a.movesWindow = true ∨ cwnd' = cwnd)
    (hfull : ∀ now timeout fate, a = .sendNext cwnd now timeout fate →
      1 < s.sendBuf.remaining ∨ s.sendWindowSize cwnd = 0) : s'.Alert cwnd' := by
  have hflow := output_flow h ha
  have hkeep := (perform_effect h).keeps
  have hbusy (hpast : s'.outputPc.isPastSending = false) : s'.Alert cwnd' := by
    intro _ _ hpast'
    rw [hpast] at hpast'
    cases hpast'
  generalize hpc : s.outputPc = pc at hflow
  generalize hpc' : s'.outputPc = pc' at hflow
  cases hflow with
  | wake | stop | lockResend | lockSend | lockStream | resend | check | send =>
    exact hbusy (by rw [hpc']; rfl)
  | hasErr hset =>
    have hfailed := herr hset
    rw [hpc] at hfailed
    cases hfailed
  | start hstart =>
    apply hbusy
    rw [hpc']
    rcases hstart with rfl | rfl | rfl <;> rfl
  | resent hend =>
    apply hbusy
    rw [hpc']
    rcases hend with rfl | rfl <;> rfl
  | resume => exact absurd hopen (outputClose_closing h)
  | skipSend =>
    obtain rfl := hmoves.resolve_left Bool.false_ne_true
    obtain rfl := Option.some.inj (hsees.resolve_left (Option.some_ne_none _))
    exact sendCheck_alert h
  | sent =>
    obtain rfl := hmoves.resolve_left Bool.false_ne_true
    obtain rfl := Option.some.inj (hsees.resolve_left (Option.some_ne_none _))
    exact sendNext_alert h (hfull _ _ _ rfl)
  | checkAck | clear | ack =>
    obtain rfl := hmoves.resolve_left Bool.false_ne_true
    have hpast : s.outputPc.isPastSending = true := by rw [hpc]; rfl
    have hin : s'.inputPc = s.inputPc := hkeep .inputLoop rfl
    exact hs.of_keeps hkeep (hkeep .state rfl) (fun _ => hpast) (hin ▸ id) rfl rfl rfl rfl
  | stream hstream =>
    rw [hpacket] at hstream
    cases hstream

theorem outputHasErr_output {t : Session cfg} {seg : Segment} {fate : Fate} {now : ℤ} {ok : Bool}
    (h : s.output seg fate now = (t, ok)) : t.outputHasErr = s.outputHasErr := by
  obtain ⟨time, rfl⟩ := output_eq h
  rfl

theorem resendNext_failed {now txTime timeout : ℤ} {fate : Fate}
    (h : s.resendNext now txTime timeout fate = some (s', evs)) (hclean : s.outputHasErr = false)
    (hset : s'.outputHasErr = true) : s'.outputPc.isFailed = true := by
  have hnot : s.outputHasErr ≠ true := by simp [hclean]
  unfold resendNext at h
  split at h
  · split at h
    · cases h
      exact absurd hset hnot
    · split at h
      · cases h
        rfl
      · split at h
        · dsimp only at h
          split at h
          · cases h
            rfl
          · rename_i hout
            cases h
            exact absurd ((outputHasErr_output hout).symm.trans hset) hnot
        · cases h
          exact absurd hset hnot
  · cases h

theorem sendNext_failed {now timeout : ℤ} {fate : Fate}
    (h : s.sendNext cwnd now timeout fate = some (s', evs)) (hclean : s.outputHasErr = false)
    (hset : s'.outputHasErr = true) : s'.outputPc.isFailed = true := by
  have hnot : s.outputHasErr ≠ true := by simp [hclean]
  unfold sendNext at h
  split at h
  · split at h
    · cases h
      exact absurd hset hnot
    · split at h
      · cases h
        exact absurd hset hnot
      · dsimp only at h
        split at h
        · cases h
          rfl
        · split at h
          · cases h
            rfl
          · rename_i hout
            cases h
            exact absurd ((outputHasErr_output hout).symm.trans hset) hnot
  · cases h

theorem ackSend_failed {now jitter : ℤ} {fate : Fate}
    (h : s.ackSend now jitter fate = some (s', evs)) (hclean : s.outputHasErr = false)
    (hset : s'.outputHasErr = true) : s'.outputPc.isFailed = true := by
  have hnot : s.outputHasErr ≠ true := by simp [hclean]
  unfold ackSend at h
  split at h
  · split at h
    · cases h
    · dsimp only at h
      split at h
      · cases h
        rfl
      · rename_i hout
        cases h
        exact absurd ((outputHasErr_output hout).symm.trans hset) hnot
  · cases h

theorem output_failed (h : s.perform a = some (s', evs)) (ha : a.party = .outputLoop)
    (hpacket : cfg.transportProtocol = .packetTransport)
    (herr : s.outputHasErr = true → s.outputPc.isFailed = true) (hopen : s'.closePc = .idle)
    (hset : s'.outputHasErr = true) : s'.outputPc.isFailed = true := by
  have hkeep := (perform_effect h).keeps
  have hflow := output_flow h ha
  have hclean (hrunning : s.outputPc.isFailed = false) : s.outputHasErr = false := by
    apply Bool.eq_false_iff.mpr
    intro hset
    rw [herr hset] at hrunning
    cases hrunning
  generalize s.outputPc = pc at hflow hclean
  generalize hpc' : s'.outputPc = pc' at hflow
  rw [← hpc']
  cases hflow with
  | resend | resent => exact resendNext_failed h (hclean rfl) hset
  | send | sent => exact sendNext_failed h (hclean rfl) hset
  | ack => exact ackSend_failed h (hclean rfl) hset
  | resume => exact absurd hopen (outputClose_closing h)
  | stream hstream =>
    rw [hpacket] at hstream
    cases hstream
  | _ =>
    have hkept : s'.outputHasErr = s.outputHasErr := hkeep .outputHasErr rfl
    rw [hkept, hclean rfl] at hset
    cases hset

/-! ## The input loop -/

theorem tokenPending_wakeIfQueued (hne : s.sendQueue.items ≠ []) :
    s.wakeIfQueued.packetOutputWakeup = true := by
  have hlen : 0 < s.sendQueue.len := List.length_pos_iff.mpr hne
  unfold wakeIfQueued
  rw [if_pos hlen]
  rfl

theorem wakeup_requestPacketAck {now : ℤ} (h : s.packetOutputWakeup = true) :
    (s.requestPacketAck now).packetOutputWakeup = true := by
  unfold requestPacketAck
  split_ifs
  · exact h
  · rfl

theorem requestAck_alert {now : ℤ} (h : s.requestAck now = some (s', evs)) : s'.Alert cwnd := by
  have hkeep := (requestAck_effect h).keeps
  have hitems : s'.sendQueue.items = s.sendQueue.items := (hkeep .sendQueue rfl).1
  intro _ _ _ hne _
  rw [hitems] at hne
  apply tokenPending_of_wakeup
  unfold requestAck at h
  split at h
  · cases h
    exact wakeup_requestPacketAck (tokenPending_wakeIfQueued hne)
  · cases h

theorem countAck_alert (h : s.countAck = some (s', evs)) : s'.Alert cwnd := by
  have hkeep := (countAck_effect h).keeps
  have hitems : s'.sendQueue.items = s.sendQueue.items := (hkeep .sendQueue rfl).1
  intro _ _ _ hne _
  rw [hitems] at hne
  apply tokenPending_of_wakeup
  unfold countAck at h
  split at h
  · split at h
    · cases h
    · split at h
      · cases h
      · cases h
        exact tokenPending_wakeIfQueued hne
  · cases h

theorem requestAckAgain_alert {now : ℤ} (hs : s.Alert cwnd)
    (h : s.requestAckAgain now = some (s', evs)) : s'.Alert cwnd := by
  have hkeep := (requestAckAgain_effect h).keeps
  have hout : s'.outputPc = s.outputPc := hkeep .outputLoop rfl
  have hlen : s'.sendBuf.len = s.sendBuf.len := hkeep .sendBuf rfl
  have hremote : s'.remoteWindowSize = s.remoteWindowSize := hkeep .remoteWindowSize rfl
  have hnotEmpty : s'.sendQueue.chanNotEmptyEvent = s.sendQueue.chanNotEmptyEvent :=
    (hkeep .sendQueue rfl).2
  have hpc : s.inputPc.owesWake = false := by
    unfold requestAckAgain at h
    split at h
    · rename_i hpc
      rw [hpc]
      rfl
    · cases h
  have hwakeup : s.packetOutputWakeup = true → s'.packetOutputWakeup = true := by
    intro hset
    unfold requestAckAgain at h
    split at h
    · cases h
      exact wakeup_requestPacketAck hset
    · cases h
  refine hs.of_kept (hkeep .state rfl) (hout ▸ id) (fun _ => hpc) (hkeep .sendQueue rfl).1 ?_ ?_
  · rw [sendWindowSize_pos, sendWindowSize_pos, hlen, hremote]
    exact id
  · simp only [tokenPending, hnotEmpty, decide_eq_true_eq]
    exact Or.imp_left hwakeup

theorem finishInput_alert (hs : s.Alert cwnd) (h : s.finishInput = some (s', evs)) :
    s'.Alert cwnd := by
  unfold finishInput at h
  split at h
  · rename_i seg hpc
    have howes : s.inputPc.owesWake = false := by rw [hpc]; rfl
    split at h
    · cases h
      intro _ _ _ _ _
      exact tokenPending_of_wakeup rfl
    · cases h
      exact hs.of_kept rfl id (fun _ => howes) rfl id id
  · cases h

theorem moveNext_window (hpacket : cfg.transportProtocol = .packetTransport)
    (h : s.moveNext = some (s', evs)) :
    s'.remoteWindowSize = s.remoteWindowSize ∨ s'.remoteWindowSize = s.movedWindow := by
  unfold moveNext at h
  split at h
  · split at h
    · rename_i hstream
      rw [hpacket] at hstream
      cases hstream
    split at h
    · cases h
      exact .inl rfl
    · split at h
      · cases h
        exact .inl rfl
      · rename_i x buf hsome
        obtain ⟨hle, hitems⟩ := SegmentTree.deleteMinIf_some hsome
        split at h
        · cases h
          exact .inl rfl
        · rename_i hstale
          have hseq : x.seq = s.nextRecv := by
            have hle : x.seq ≤ s.nextRecv := by simpa using hle
            exact UInt32.le_antisymm hle (UInt32.not_lt.mp hstale)
          split at h
          · cases h
            right
            unfold movedWindow
            rw [hitems]
            exact (if_pos hseq).symm
          · split at h <;> cases h <;> exact .inl rfl
  · cases h

theorem moveNext_alert (hs : s.Alert cwnd) (hpacket : cfg.transportProtocol = .packetTransport)
    (h : s.moveNext = some (s', evs))
    (hmoved : s.remoteWindowSize = 0 → s.movedWindow = 0) : s'.Alert cwnd := by
  have hkeep := (moveNext_effect h).keeps
  have hout : s'.outputPc = s.outputPc := hkeep .outputLoop rfl
  have hlen : s'.sendBuf.len = s.sendBuf.len := hkeep .sendBuf rfl
  have hwakeup : s'.packetOutputWakeup = s.packetOutputWakeup := hkeep .packetOutputWakeup rfl
  have hnotEmpty : s'.sendQueue.chanNotEmptyEvent = s.sendQueue.chanNotEmptyEvent :=
    (hkeep .sendQueue rfl).2
  have howes : s.inputPc.owesWake = false := by
    unfold moveNext at h
    split at h
    · rename_i hpc
      rw [hpc]
      rfl
    · cases h
  have hclosed (hzero : s.remoteWindowSize = 0) : s'.remoteWindowSize = 0 := by
    rcases moveNext_window hpacket h with hsame | hmove
    · exact hsame.trans hzero
    · exact hmove.trans (hmoved hzero)
  refine hs.of_kept (hkeep .state rfl) (hout ▸ id) (fun _ => howes) (hkeep .sendQueue rfl).1 ?_ ?_
  · rw [sendWindowSize_pos, sendWindowSize_pos, hlen]
    exact And.imp_right (mt hclosed)
  · unfold tokenPending
    rw [hwakeup, hnotEmpty]
    exact id

theorem inputClose_closing {now : ℤ} {fate : Fate} (h : s.inputClose now fate = some (s', evs)) :
    s'.closePc ≠ .idle := by
  unfold inputClose at h
  split at h
  · split at h
    · cases h
    · split at h
      · dsimp only at h
        split at h <;> cases h <;> exact closeWithError_ne_idle _ _
      · cases h
        exact closeWithError_ne_idle _ _
  · cases h

theorem inputFail_closing (h : s.inputFail = some (s', evs)) : s'.closePc ≠ .idle := by
  unfold inputFail at h
  split at h
  · cases h
    exact closeWithError_ne_idle _ _
  · cases h

theorem Alert.input {cwnd' : ℤ} (hs : s.Alert cwnd) (h : s.perform a = some (s', evs))
    (ha : a.party = .inputLoop) (hpacket : cfg.transportProtocol = .packetTransport)
    (hanswer : s.inputPc.isResponding = false) (hopen : s'.closePc = .idle)
    (hmoves : a.movesWindow = true ∨ cwnd' = cwnd)
    (hmoved : a = .moveNext → s.remoteWindowSize = 0 → s.movedWindow = 0) : s'.Alert cwnd' := by
  have hflow := input_flow h ha
  have hkeep := (perform_effect h).keeps
  generalize hpc : s.inputPc = pc at hflow hanswer
  generalize hpc' : s'.inputPc = pc' at hflow
  cases hflow with
  | release | count | released =>
    intro _ howes
    rw [hpc'] at howes
    cases howes
  | request =>
    obtain rfl := hmoves.resolve_left Bool.false_ne_true
    exact requestAck_alert h
  | move | moved | deliver =>
    obtain rfl := hmoves.resolve_left Bool.false_ne_true
    exact moveNext_alert hs hpacket h (hmoved rfl)
  | requestAgain =>
    obtain rfl := hmoves.resolve_left Bool.false_ne_true
    exact requestAckAgain_alert hs h
  | answer | answerRefused => cases hanswer
  | finish =>
    obtain rfl := hmoves.resolve_left Bool.false_ne_true
    exact finishInput_alert hs h
  | counted => exact countAck_alert h
  | closing => exact absurd hopen (inputClose_closing h)
  | fail => exact absurd hopen (inputFail_closing h)
  | _ =>
    obtain rfl := hmoves.resolve_left Bool.false_ne_true
    have howes : s.inputPc.owesWake = false := by rw [hpc]; rfl
    have hout : s'.outputPc = s.outputPc := hkeep .outputLoop rfl
    exact hs.of_keeps hkeep (hkeep .state rfl) (hout ▸ id) (fun _ => howes) rfl rfl rfl rfl

theorem closer_closing (h : s.perform a = some (s', evs)) (ha : a.party = .closer) :
    s'.closePc ≠ .idle := by
  intro hopen
  have hidle := (perform_effect h).closes.idle hopen
  cases a with
  | close =>
    cases h
    exact closeWithError_ne_idle _ _ hopen
  | closeQueue =>
    simp only [perform, closeQueue, hidle] at h
    cases h
  | closePoll =>
    simp only [perform, closePoll, hidle] at h
    cases h
  | closeForce =>
    simp only [perform, closeForce, hidle] at h
    cases h
  | closeClear =>
    simp only [perform, closeClear, hidle] at h
    cases h
  | _ => cases ha

theorem input_isResponding (h : s.perform a = some (s', evs)) (ha : a.party = .inputLoop)
    (hclient : cfg.isClient = true) : s'.inputPc.isResponding = false := by
  have hafter (seg : Segment) : (s.afterData seg).isResponding = false := by
    unfold afterData
    rw [if_neg (by simp [hclient])]
    rfl
  have hflow := input_flow h ha
  generalize s.inputPc = pc at hflow
  generalize s'.inputPc = pc' at hflow ⊢
  cases hflow with
  | take => exact isResponding_inputDispatch cfg _
  | closed _ hpc =>
    rcases hpc with rfl | rfl
    · rfl
    · exact hafter _
  | deliver _ hpc =>
    rcases hpc with rfl | rfl
    · exact hafter _
    · rfl
  | requestAgain => exact hafter _
  | closing hpc => rcases hpc with rfl | rfl <;> rfl
  | _ => rfl

end Session

namespace Windowed

variable {cfg : SessionConfig} {l l' : Windowed cfg} {e : Action × ℤ} {evs : List Event}

/-- What carries over from step to step as long as nobody closes. -/
structure Watchful (l : Windowed cfg) : Prop where
  alert : l.session.Alert l.cwnd
  failed : l.session.outputHasErr = true → l.session.outputPc.isFailed = true
  answers : l.session.inputPc.isResponding = false

theorem step_eq (h : l.step e = some (l', evs)) :
    l.session.perform e.1 = some (l'.session, evs) ∧ l'.cwnd = e.2 ∧
      (e.1.window? = none ∨ e.1.window? = some l.cwnd) ∧
      (e.1.movesWindow = true ∨ e.2 = l.cwnd) := by
  unfold step at h
  split at h
  · rename_i hguard
    obtain ⟨⟨s', evs'⟩, hs, heq⟩ := Option.map_eq_some_iff.mp h
    cases heq
    exact ⟨Session.perform_of_step hs, rfl, hguard⟩
  · cases h

theorem step_alert (hpacket : cfg.transportProtocol = .packetTransport)
    (h : l.step e = some (l', evs)) (hopen : l'.session.closePc = .idle)
    (hguard : l.leavesToken e = true) (hl : l.Watchful) :
    l'.session.Alert l'.cwnd := by
  obtain ⟨hp, hcwnd, hsees, hmoves⟩ := step_eq h
  obtain ⟨a, cwnd'⟩ := e
  rw [hcwnd]
  have heff := Session.perform_effect hp
  have hkeep := heff.keeps
  have hs := hl.alert
  have hout (hparty : a.party ≠ .outputLoop) : l'.session.outputPc = l.session.outputPc :=
    hkeep .outputLoop (by simpa [Action.touches] using hparty)
  have hin (hparty : a.party ≠ .inputLoop) : l'.session.inputPc = l.session.inputPc :=
    hkeep .inputLoop (by simpa [Action.touches] using hparty)
  cases hparty : a.party with
  | writer =>
    cases a with
    | writeRequest =>
      obtain rfl : cwnd' = l.cwnd := hmoves.resolve_left Bool.false_ne_true
      exact hs.of_insert hkeep rfl (Session.writeRequest_queue hp)
    | writeFragment =>
      obtain rfl : cwnd' = l.cwnd := hmoves.resolve_left Bool.false_ne_true
      exact hs.of_insert hkeep rfl (Session.writeFragment_queue hp)
    | write | writeOpen | writeChunk | writeReserve | writeLock | writeAbort | writeDrain =>
      obtain rfl : cwnd' = l.cwnd := hmoves.resolve_left Bool.false_ne_true
      exact hs.of_keeps hkeep (hkeep .state rfl) (hout nofun ▸ id) (hin nofun ▸ id) rfl rfl rfl rfl
    | _ => cases hparty
  | reader =>
    cases a with
    | readLoop =>
      obtain rfl : cwnd' = l.cwnd := hmoves.resolve_left Bool.false_ne_true
      have hread : l.session.readsOpenResponse = false := by simpa [leavesToken] using hguard
      exact hs.of_keeps hkeep (Session.readLoop_state hp hread) (hout nofun ▸ id) (hin nofun ▸ id)
        rfl rfl rfl rfl
    | read | readReturn | readWake =>
      obtain rfl : cwnd' = l.cwnd := hmoves.resolve_left Bool.false_ne_true
      exact hs.of_keeps hkeep (hkeep .state rfl) (hout nofun ▸ id) (hin nofun ▸ id) rfl rfl rfl rfl
    | _ => cases hparty
  | outputLoop =>
    refine hs.output hp hparty hpacket hl.failed hopen hsees hmoves ?_
    rintro now timeout fate rfl
    simpa [leavesToken] using hguard
  | inputLoop =>
    refine hs.input hp hparty hpacket hl.answers hopen hmoves ?_
    rintro rfl
    simpa [leavesToken, or_iff_not_imp_left] using hguard
  | closer => exact absurd hopen (Session.closer_closing hp hparty)

theorem Watchful.step (hclient : cfg.isClient = true)
    (hpacket : cfg.transportProtocol = .packetTransport) (h : l.step e = some (l', evs))
    (hopen : l'.session.closePc = .idle) (hguard : l.leavesToken e = true) (hl : l.Watchful) :
    l'.Watchful := by
  have halert := step_alert hpacket h hopen hguard hl
  obtain ⟨hp, -⟩ := step_eq h
  have hkeep := (Session.perform_effect hp).keeps
  refine ⟨halert, ?_, ?_⟩
  · by_cases hparty : e.1.party = .outputLoop
    · exact Session.output_failed hp hparty hpacket hl.failed hopen
    · have hout : l'.session.outputPc = l.session.outputPc :=
        hkeep .outputLoop (by simpa [Action.touches] using hparty)
      have herr : l'.session.outputHasErr = l.session.outputHasErr := by
        obtain ⟨a, cwnd'⟩ := e
        exact hkeep .outputHasErr (by cases a <;> first | rfl | exact absurd rfl hparty)
      rw [hout, herr]
      exact hl.failed
  · by_cases hparty : e.1.party = .inputLoop
    · exact Session.input_isResponding hp hparty hclient
    · have hin : l'.session.inputPc = l.session.inputPc :=
        hkeep .inputLoop (by simpa [Action.touches] using hparty)
      rw [hin]
      exact hl.answers

theorem watchful_attached (now jitter cwnd : ℤ) :
    (⟨.attached now jitter, cwnd⟩ : Windowed cfg).Watchful where
  alert := nofun
  failed := nofun
  answers := rfl

/-- A client that is established, and whose input loop is not just about to wake the output loop,
leaves no sendable segment behind a sleeping output loop without a token. -/
theorem deferred_data_woken {now jitter cwnd : ℤ} {es : List (Action × ℤ)} {outs : List Event}
    (hclient : cfg.isClient = true) (hpacket : cfg.transportProtocol = .packetTransport)
    (h : Machine.Reaches step (fun l e => l.leavesToken e = true)
      (⟨.attached now jitter, cwnd⟩ : Windowed cfg) es outs l)
    (hopen : l.session.closeRequested = false) (hest : l.session.state = .established)
    (hinput : l.session.inputPc.owesWake = false) (hout : l.session.outputPc = .waiting)
    (hqueue : l.session.sendQueue.items ≠ []) (hwindow : 0 < l.session.sendWindowSize l.cwnd) :
    l.session.tokenPending = true := by
  have hwatch : l.session.closePc = .idle → l.Watchful := by
    refine h.invariant (I := fun l _ => l.session.closePc = .idle → l.Watchful) ?_ ?_
    · intro _
      exact watchful_attached now jitter cwnd
    · intro l _ e l' evs ih hguard hstep hidle
      have hbefore := (Session.perform_effect (step_eq hstep).1).closes.idle hidle
      exact (ih hbefore).step hclient hpacket hstep hidle hguard
  have hl := hwatch (Session.closeRequested_eq_false_iff.mp hopen)
  exact hl.alert hest hinput (by rw [hout]; rfl) hqueue hwindow

/-- The client writes twice. Its open session request is on the way, and the output loop has put
the data off and sleeps. -/
def deferringRun : List Action := [
  .write [1], .writeOpen, .writeRequest, .write [2], .writeOpen, .writeChunk, .writeReserve,
  .writeLock, .writeFragment,
  .outputWake .notEmpty, .outputStart 0, .sendCheck 16, .outputLock, .sendNext 16 0 1000 .sent,
  .sendNext 16 0 1000 .sent, .ackCheck 0,
  .outputWake .notEmpty, .outputStart 0, .sendCheck 16, .outputLock, .sendNext 16 0 1000 .sent,
  .ackCheck 0]

/-- The open session response comes, and the output loop looks once more before the session is
established. -/
def answeringRun : List Action := [
  .receive (Session.openResponseSegment (packetConfig false) 0).toPacket 0, .requestAck 0, .accept,
  .waitSpace, .moveNext,
  .outputWake .wakeup, .outputStart 0, .sendCheck 16, .outputLock, .sendNext 16 0 1000 .sent,
  .ackCheck 0]

def establishingRun : List Action := [.moveNext, .requestAckAgain 0, .finishInput]

def steady (es : List Action) : List (Action × ℤ) := es.map fun a => (a, 16)

theorem answered_client_woken : ∃ (l : Windowed (packetConfig true)) (outs : List Event),
    Machine.Reaches step (fun l e => l.leavesToken e = true) ⟨.attached 0 0, 16⟩
      (steady (deferringRun ++ answeringRun ++ establishingRun)) outs l ∧
    l.session.state = .established ∧ l.session.outputPc = .waiting ∧ l.session.sendQueue.len = 1 ∧
    l.session.tokenPending = true := by
  have hsummary : (Machine.run (Machine.guarded leavesToken step)
      (⟨.attached 0 0, 16⟩ : Windowed (packetConfig true))
      (steady (deferringRun ++ answeringRun ++ establishingRun))).map (fun r =>
        (r.1.session.closeRequested, r.1.session.state, r.1.session.inputPc.owesWake,
          r.1.session.outputPc, r.1.session.sendQueue.len, r.1.session.sendWindowSize r.1.cwnd)) =
      some (false, .established, false, .waiting, 1, 15) := by
    rfl
  obtain ⟨⟨l, outs⟩, hrun, heq⟩ := Option.map_eq_some_iff.mp hsummary
  simp only [Prod.mk.injEq] at heq
  obtain ⟨hopen, hest, hinput, hout, hqueue, hwindow⟩ := heq
  have hreach := Machine.reaches_of_guarded_run hrun
  have hne : l.session.sendQueue.items ≠ [] :=
    List.length_pos_iff.mp (Nat.lt_of_lt_of_eq Nat.one_pos hqueue.symm)
  exact ⟨l, outs, hreach, hest, hout, hqueue,
    deferred_data_woken rfl rfl hreach hopen hest hinput hout hne (by rw [hwindow]; decide)⟩

/-- `Read` takes the response and establishes the session, so that the input loop finds nothing
left to do. -/
theorem read_response_sleeps : ∃ (l : Windowed (packetConfig true)) (outs : List Event),
    Machine.Reaches step Machine.Free ⟨.attached 0 0, 16⟩
      (steady (deferringRun ++ answeringRun ++ [.read 8, .readLoop, .readLoop] ++ establishingRun))
      outs l ∧
    l.session.closeRequested = false ∧ l.session.state = .established ∧
    l.session.inputPc = .idle ∧ l.session.outputPc = .waiting ∧ l.session.sendQueue.len = 1 ∧
    l.session.sendWindowSize l.cwnd = 15 ∧ l.session.tokenPending = false := by
  have hsummary : (Machine.run step (⟨.attached 0 0, 16⟩ : Windowed (packetConfig true))
      (steady (deferringRun ++ answeringRun ++ [.read 8, .readLoop, .readLoop] ++
        establishingRun))).map (fun r =>
        (r.1.session.closeRequested, r.1.session.state, r.1.session.inputPc, r.1.session.outputPc,
          r.1.session.sendQueue.len, r.1.session.sendWindowSize r.1.cwnd,
          r.1.session.tokenPending)) =
      some (false, .established, .idle, .waiting, 1, 15, false) := by
    rfl
  obtain ⟨⟨l, outs⟩, hrun, heq⟩ := Option.map_eq_some_iff.mp hsummary
  simp only [Prod.mk.injEq] at heq
  exact ⟨l, outs, Machine.reaches_of_run hrun, heq⟩

end Windowed

end Mieru.Protocol
