import Mieru.Lib.Machine
import Mieru.Session.EndOfFile
import Mieru.Session.Flow

/-! # Waiting for segments

`Read` waits at `recvQueue`, and the output loop of a stream waits at `sendQueue`. Both sleep in
a select on `chanNotEmptyEvent`, which holds one token at most and is written without blocking.
Whoever takes the token looks at the tree before it sleeps again. The other goroutines may call
the tree in any order. -/
namespace Mieru.Protocol

open Machine

inductive TreeCall where
  | insert (seg : Segment)
  | deleteMin
  | deleteMinIf (si : Segment → Bool)
  | deleteAll

namespace SegmentTree

variable {cap : ℕ} {t : SegmentTree cap} {owed : Prop}

def call (t : SegmentTree cap) : TreeCall → SegmentTree cap
  | .insert seg => (t.insert seg).1
  | .deleteMin => t.deleteMin.2
  | .deleteMinIf si => (t.deleteMinIf si).2
  | .deleteAll => t.deleteAll

/-- For the segments in the tree there is a token, unless somebody owes a look at it. -/
def Watched (t : SegmentTree cap) (owed : Prop) : Prop :=
  t.items ≠ [] → t.chanNotEmptyEvent = true ∨ owed

theorem Watched.of_token (h : t.items ≠ [] → t.chanNotEmptyEvent = true) : t.Watched owed :=
  fun hne => .inl (h hne)

theorem Watched.of_empty (h : t.items = []) : t.Watched owed :=
  fun hne => absurd h hne

theorem Watched.token (h : t.Watched owed) (hpaid : ¬owed) (hne : t.items ≠ []) :
    t.chanNotEmptyEvent = true :=
  (h hne).resolve_right hpaid

theorem Watched.call (h : t.Watched owed) (c : TreeCall) : (t.call c).Watched owed := by
  cases c with
  | insert seg =>
    intro _
    have hinsert : t.insert seg = (t.call (.insert seg), (t.insert seg).2) := rfl
    rcases insert_notEmpty hinsert with hset | ⟨hsame, hne⟩
    · exact .inl hset
    · -- a replaced segment was in the tree before
      exact (h hne).imp_left hsame.trans
  | deleteMin => exact .of_token (deleteMin_notEmpty rfl)
  | deleteMinIf si => exact .of_token (deleteMinIf_notEmpty rfl)
  | deleteAll => exact .of_empty rfl

end SegmentTree

namespace Session

variable {cfg : SessionConfig} {s s' : Session cfg} {evs : List Event}

/-! ## Read -/

/-- `Read` will look at `recvQueue` before it returns or sleeps. -/
def looksAtRecvQueue (s : Session cfg) : Bool :=
  match s.readPc with
  | .looping _ _ => s.unreadBuf = []
  | _ => false

def RecvWatched (s : Session cfg) : Prop := s.recvQueue.Watched (s.looksAtRecvQueue = true)

theorem read_watched {len : ℕ} (hs : s.RecvWatched) (h : s.read len = some (s', evs)) :
    s'.RecvWatched := by
  unfold read at h
  split at h
  · rename_i hpc
    split at h
    · cases h
      exact hs
    · cases h
      exact .of_token (hs.token (by simp [looksAtRecvQueue, hpc]))
  · cases h

theorem readLoop_watched (hs : s.RecvWatched) (h : s.readLoop = some (s', evs)) :
    s'.RecvWatched := by
  unfold readLoop at h
  split at h
  · rename_i len acc hpc
    dsimp only at h
    split at h
    · rename_i hunread
      cases h
      exact .of_token (hs.token (by simp [looksAtRecvQueue, hpc, hunread]))
    · split at h
      · rename_i hnone
        have hempty : s.recvQueue.items = [] := (SegmentTree.deleteMin_none hnone).1
        split at h
        · cases h
          exact .of_empty hempty
        · cases h
          exact .of_empty hempty
      · rename_i hsome
        cases h
        exact .of_token (SegmentTree.deleteMin_notEmpty hsome)
  · cases h

theorem readReturn_watched (hs : s.RecvWatched) (h : s.readReturn = some (s', evs)) :
    s'.RecvWatched := by
  unfold readReturn at h
  split at h
  · rename_i hpc
    cases h
    exact .of_token (hs.token (by simp [looksAtRecvQueue, hpc]))
  · cases h

theorem readWake_watched {err : Option SessionError} (hwait : s.WaitsEmpty) (hs : s.RecvWatched)
    (h : s.readWake err = some (s', evs)) : s'.RecvWatched := by
  unfold readWake at h
  split at h
  · rename_i len hpc
    split at h
    · split at h
      · -- the token is gone, but `Read` owes a look
        cases h
        intro _
        exact .inr (decide_eq_true (hwait len hpc))
      · cases h
    · dsimp only at h
      split at h
      · cases h
        exact .of_token (hs.token (by simp [looksAtRecvQueue, hpc]))
      · cases h
  · cases h

theorem reader_watched {a : Action} (ha : a.party = .reader) (hwait : s.WaitsEmpty)
    (hs : s.RecvWatched) (h : s.step a = some (s', evs)) : s'.RecvWatched := by
  have hperform := perform_of_step h
  cases a with
  | read => exact read_watched hs hperform
  | readLoop => exact readLoop_watched hs hperform
  | readReturn => exact readReturn_watched hs hperform
  | readWake => exact readWake_watched hwait hs hperform
  | _ => cases ha

/-! ## The output loop of a stream -/

/-- The output loop will look at `sendQueue` before it sleeps, or never sleeps again. -/
def looksAtSendQueue (s : Session cfg) : Bool :=
  match s.outputPc with
  | .waiting => false
  | _ => true

def SendWatched (s : Session cfg) : Prop :=
  s.outputHasErr = false → s.sendQueue.Watched (s.looksAtSendQueue = true)

theorem SendWatched.of_looks (hlooks : s.looksAtSendQueue = true) : s.SendWatched :=
  fun _ _ => .inr hlooks

theorem outputWake_watched {why : OutputWake} (h : s.outputWake why = some (s', evs)) :
    s'.SendWatched := by
  unfold outputWake at h
  split at h
  · split at h <;> split_ifs at h <;> (cases h; exact .of_looks rfl)
  · cases h

theorem outputStart_watched {now : ℤ} (h : s.outputStart now = some (s', evs)) :
    s'.SendWatched := by
  unfold outputStart at h
  split at h
  · split at h
    · rename_i herr
      cases h
      intro hnone
      exact absurd herr (Bool.eq_false_iff.mp hnone)
    · split_ifs at h <;> (cases h; exact .of_looks rfl)
  · cases h

theorem outputLock_watched (h : s.outputLock = some (s', evs)) : s'.SendWatched := by
  unfold outputLock at h
  split at h
  · cases h
  · split at h
    · cases h
      exact .of_looks rfl
    · cases h
      exact .of_looks rfl
    · cases h
      exact .of_looks rfl
    · cases h

theorem streamNext_watched {now : ℤ} {fate : Fate} (h : s.streamNext now fate = some (s', evs)) :
    s'.SendWatched := by
  unfold streamNext at h
  split at h
  · rename_i hpc
    split at h
    · split at h
      · rename_i q hnone
        obtain ⟨hempty, rfl⟩ := SegmentTree.deleteMin_none hnone
        cases h
        exact fun _ => .of_empty hempty
      · split at h
        · cases h
          exact .of_looks rfl
        · rename_i hout
          cases h
          have hpc' : s'.outputPc = .streaming := (outputPc_output hout).trans hpc
          exact .of_looks (by simp [looksAtSendQueue, hpc'])
    · cases h
  · cases h

end Session

def Action.onStream : Action → Bool
  | outputWake _ | outputStart _ | outputLock | streamNext .. => true
  | _ => false

theorem Session.stream_watched {cfg : SessionConfig} {s s' : Session cfg} {a : Action}
    {evs : List Event} (ha : a.onStream = true) (h : s.step a = some (s', evs)) :
    s'.SendWatched := by
  have hperform := perform_of_step h
  cases a with
  | outputWake => exact outputWake_watched hperform
  | outputStart => exact outputStart_watched hperform
  | outputLock => exact outputLock_watched hperform
  | streamNext => exact streamNext_watched hperform
  | _ => cases ha

/-! ## Among other goroutines -/

/-- A step of a consumer or of the goroutines around it. -/
inductive Among (cfg : SessionConfig) where
  | call (c : TreeCall)
  /-- The rest of the session becomes that of `t`. -/
  | elsewhere (t : Session cfg)
  | act (a : Action)

/-- A session whose `Read` first looks at `Len` and then takes a segment. -/
structure Reader (cfg : SessionConfig) where
  session : Session cfg
  /-- `Len` was positive, `DeleteMin` comes next. -/
  lenSeen : Bool := false

namespace Reader

variable {cfg : SessionConfig} {r r' : Reader cfg} {evs : List Event}

def perform (r : Reader cfg) (a : Action) : Option (Reader cfg × List Event) :=
  (r.session.step a).map fun (s, evs) => ({ session := s }, evs)

def readLoop (r : Reader cfg) : Option (Reader cfg × List Event) :=
  if r.lenSeen then
    -- somebody else took the segment
    if r.session.recvQueue.len = 0 then some ({ r with lenSeen := false }, [])
    else r.perform .readLoop
  else if r.session.looksAtRecvQueue ∧ 0 < r.session.recvQueue.len then
    some ({ r with lenSeen := true }, [])
  else r.perform .readLoop

def step (r : Reader cfg) : Among cfg → Option (Reader cfg × List Event)
  | .call c =>
    some ({ r with session := { r.session with recvQueue := r.session.recvQueue.call c } }, [])
  | .elsewhere t =>
    some ({ r with
      session := { t with
        recvQueue := r.session.recvQueue
        readPc := r.session.readPc
        unreadBuf := r.session.unreadBuf } }, [])
  | .act .readLoop => r.readLoop
  | .act a => if a.party = .reader then r.perform a else none

structure Watched (r : Reader cfg) : Prop where
  waitsEmpty : r.session.WaitsEmpty
  watched : r.session.RecvWatched

theorem Watched.perform {a : Action} (hr : r.Watched) (ha : a.party = .reader)
    (h : r.perform a = some (r', evs)) : r'.Watched := by
  obtain ⟨⟨s, evs⟩, hs, heq⟩ := Option.map_eq_some_iff.mp h
  cases heq
  exact ⟨hr.waitsEmpty.step hs, Session.reader_watched ha hr.waitsEmpty hr.watched hs⟩

theorem Watched.step {e : Among cfg} (hr : r.Watched) (h : r.step e = some (r', evs)) :
    r'.Watched := by
  cases e with
  | call c =>
    cases h
    exact ⟨hr.waitsEmpty, SegmentTree.Watched.call hr.watched c⟩
  | elsewhere t =>
    cases h
    exact ⟨hr.waitsEmpty, hr.watched⟩
  | act a =>
    by_cases hloop : a = .readLoop
    · subst hloop
      simp only [Reader.step, readLoop] at h
      split_ifs at h
      · cases h
        exact ⟨hr.waitsEmpty, hr.watched⟩
      · exact hr.perform rfl h
      · cases h
        exact ⟨hr.waitsEmpty, hr.watched⟩
      · exact hr.perform rfl h
    · simp only [Reader.step] at h
      split_ifs at h with ha
      exact hr.perform ha h

/-- Undisturbed, the two steps are the one step of the session. -/
theorem run_readLoop {s s' : Session cfg} (h : s.step .readLoop = some (s', evs)) :
    ∃ es, run step ({ session := s } : Reader cfg) es = some ({ session := s' }, evs) := by
  by_cases hlook : s.looksAtRecvQueue ∧ 0 < s.recvQueue.len
  · have hlen : ¬s.recvQueue.len = 0 := Nat.pos_iff_ne_zero.mp hlook.2
    refine ⟨[.act .readLoop, .act .readLoop], ?_⟩
    simp [run, step, readLoop, perform, hlook, hlen, h]
  · refine ⟨[.act .readLoop], ?_⟩
    simp [run, step, readLoop, perform, hlook, h]

end Reader

namespace Sender

variable {cfg : SessionConfig} {s s' : Session cfg} {evs : List Event}

def step (s : Session cfg) : Among cfg → Option (Session cfg × List Event)
  | .call c => some ({ s with sendQueue := s.sendQueue.call c }, [])
  | .elsewhere t =>
    some ({ t with
      sendQueue := s.sendQueue
      outputPc := s.outputPc
      outputHasErr := s.outputHasErr || t.outputHasErr }, [])
  | .act a => if a.onStream then s.step a else none

theorem watched_step {e : Among cfg} (hs : s.SendWatched) (h : step s e = some (s', evs)) :
    s'.SendWatched := by
  cases e with
  | call c =>
    cases h
    exact fun hnone => (hs hnone).call c
  | elsewhere t =>
    cases h
    exact fun hnone => hs (Bool.or_eq_false_iff.mp hnone).1
  | act a =>
    simp only [step] at h
    split_ifs at h with ha
    exact Session.stream_watched ha h

end Sender

/-- A consumer that sleeps has a token in its channel while its tree is not empty. -/
theorem no_lost_wakeup (cfg : SessionConfig) (now jitter : ℤ) :
    (∀ es outs (r : Reader cfg) len,
      Reaches Reader.step Free { session := .attached now jitter } es outs r →
      r.session.readPc = .waiting len → r.session.recvQueue.items ≠ [] →
      r.session.recvQueue.chanNotEmptyEvent = true) ∧
    (∀ es outs (s : Session cfg),
      Reaches Sender.step Free (.attached now jitter) es outs s →
      s.outputHasErr = false → s.outputPc = .waiting → s.sendQueue.items ≠ [] →
      s.sendQueue.chanNotEmptyEvent = true) := by
  constructor
  · intro es outs r len hreach hpc hne
    have hstart : Reader.Watched ({ session := .attached now jitter } : Reader cfg) :=
      ⟨fun _ _ => rfl, .of_empty rfl⟩
    have hr : r.Watched := by
      refine hreach.invariant (I := fun r _ => r.Watched) hstart ?_
      intro r outs e r' out hr _ hstep
      exact hr.step hstep
    apply hr.watched.token ?_ hne
    simp [Session.looksAtRecvQueue, hpc]
  · intro es outs s hreach hnone hpc hne
    have hstart : (Session.attached now jitter : Session cfg).SendWatched :=
      fun _ => .of_empty rfl
    have hs : s.SendWatched := by
      refine hreach.invariant (I := fun s _ => s.SendWatched) hstart ?_
      intro s outs e s' out hs _ hstep
      exact Sender.watched_step hs hstep
    apply (hs hnone).token ?_ hne
    simp [Session.looksAtSendQueue, hpc]

def firstSegment : Segment := Session.openRequestSegment Session.streamServerConfig 0 [1]

/-- A segment arrives for a sleeping reader, and one is written for a sleeping output loop. -/
theorem no_lost_wakeup_segment :
    (∃ es outs, ∃ r : Reader Session.streamServerConfig,
      Reaches Reader.step Free { session := .attached 0 0 } es outs r ∧
      r.session.readPc = .waiting 8 ∧ r.session.recvQueue.items ≠ [] ∧
      r.session.recvQueue.chanNotEmptyEvent = true) ∧
    (∃ es outs, ∃ s : Session Session.streamServerConfig,
      Reaches Sender.step Free (.attached 0 0) es outs s ∧ s.outputHasErr = false ∧
      s.outputPc = .waiting ∧ s.sendQueue.items ≠ [] ∧
      s.sendQueue.chanNotEmptyEvent = true) := by
  have hsound := no_lost_wakeup Session.streamServerConfig 0 0
  constructor
  · have hrun : ∃ outs r, run Reader.step
        ({ session := .attached 0 0 } : Reader Session.streamServerConfig)
        [.act (.read 8), .act .readLoop, .call (.insert firstSegment)] = some (r, outs) ∧
          r.session.readPc = .waiting 8 ∧ r.session.recvQueue.items = [firstSegment] :=
      ⟨_, _, rfl, rfl, rfl⟩
    obtain ⟨outs, r, hrun, hpc, hitems⟩ := hrun
    have hne : r.session.recvQueue.items ≠ [] := by simp [hitems]
    have hreach := reaches_of_run hrun
    exact ⟨_, outs, r, hreach, hpc, hne, hsound.1 _ _ r 8 hreach hpc hne⟩
  · have hrun : ∃ outs s, run Sender.step (.attached 0 0 : Session Session.streamServerConfig)
        [.call (.insert firstSegment)] = some (s, outs) ∧ s.outputHasErr = false ∧
          s.outputPc = .waiting ∧ s.sendQueue.items = [firstSegment] :=
      ⟨_, _, rfl, rfl, rfl, rfl⟩
    obtain ⟨outs, s, hrun, herr, hpc, hitems⟩ := hrun
    have hne : s.sendQueue.items ≠ [] := by simp [hitems]
    have hreach := reaches_of_run hrun
    exact ⟨_, outs, s, hreach, herr, hpc, hne, hsound.2 _ _ s hreach herr hpc hne⟩

end Mieru.Protocol
