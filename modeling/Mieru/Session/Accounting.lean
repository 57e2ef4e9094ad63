import Mieru.Session.Pair

/-! # What `Write` reports

A call of `Write` tells its caller how many bytes it took. Beside the session runs a record
of what the call really put into `sendQueue` and added to `downloadBytes`. -/
namespace Mieru.Protocol

open LowEntropy OrderedTree

structure WriteCall where
  b : Bytes := []
  queued : Bytes := []
  counted : ℕ := 0

structure WriteReturn extends WriteCall where
  n : ℕ
  err : Option SessionError

/-- The queue took what the caller was told, and a server has counted it. -/
structure WriteReturn.Right (cfg : SessionConfig) (r : WriteReturn) : Prop where
  bounded : r.n ≤ r.b.length
  queued : r.queued = r.b.take r.n
  counted : cfg.isClient = false → r.counted = r.n

structure Ledger (cfg : SessionConfig) where
  session : Session cfg
  call : WriteCall := {}

namespace WriteCall

variable {cfg : SessionConfig} (call : WriteCall)

def enter : Action → WriteCall
  | .write b => { b := b }
  | _ => call

def observe (s s' : Session cfg) (evs : List Event) : WriteCall :=
  { call with
    queued := call.queued ++ evs.flatMap Event.acceptedBytes
    counted := call.counted + (s'.downloadBytes.getD 0 - s.downloadBytes.getD 0) }

def returned : Event → Option WriteReturn
  | .wrote n err => some { call with n := n, err := err }
  | _ => none

end WriteCall

namespace Ledger

variable {cfg : SessionConfig}

def step (l : Ledger cfg) (a : Action) : Option (Ledger cfg × List WriteReturn) :=
  match l.session.step a with
  | none => none
  | some (s, evs) =>
    if a.party = .writer then
      let call := (l.call.enter a).observe l.session s evs
      some (⟨s, call⟩, evs.filterMap call.returned)
    else some (⟨s, l.call⟩, [])

end Ledger

namespace Session

variable {cfg : SessionConfig}

def queuesFragment (s : Session cfg) (c : Chunk cfg) (offset : ℕ) : Bool :=
  (fragmentPayloadLen c (min c.fragmentSize (c.data.drop offset).length)).isOk ∧
    s.sendQueue.items.length < segmentSendQueueTreeCapacity

/-- If the step makes `Write` return early, then no fragment of the chunk is queued yet, and on
a server no chunk before it. A server that returns a count knows its user. -/
def returnsWhole (s : Session cfg) (a : Action) : Bool :=
  match s.writePc, a with
  | .writing b n, .writeChunk =>
    cfg.isClient ∨ n = 0 ∨
      if b = [] then s.downloadBytes.isSome
      else (maxFragmentSize cfg.mtu cfg.transportProtocol s.lowEntropySendConfig.1).isOk
  | .reserving c, .writeAbort _ => cfg.isClient ∨ c.written = 0
  | .fragmenting c _ offset, .writeAbort _ => offset = 0 ∧ (cfg.isClient ∨ c.written = 0)
  | .fragmenting c _ offset, .writeFragment =>
    s.queuesFragment c offset ∨ offset = 0 ∧ (cfg.isClient ∨ c.written = 0)
  | _, _ => true

end Session

namespace WriteCall

variable {cfg : SessionConfig} {call : WriteCall} {c : Chunk cfg}

structure InChunk (call : WriteCall) (c : Chunk cfg) : Prop where
  left : call.b.drop c.written = c.data ++ c.rest
  data : c.data ≠ []
  size : 0 < c.fragmentSize
  uncounted : call.counted = 0

/-- The record agrees with where `Write` stands. With `left + 1` fragments to go, the chunk has
that many fragments left and the last one is not empty. -/
def Balanced (call : WriteCall) : WritePc cfg → Prop
  | .idle => True
  | .opening b => call = { b := b }
  | .requesting b => cfg.isClient = true ∧ call = { b := b }
  | .writing rest n =>
    n ≤ call.b.length ∧ rest = call.b.drop n ∧ call.queued = call.b.take n ∧ call.counted = 0
  | .reserving c | .locking c => call.InChunk c ∧ call.queued = call.b.take c.written
  | .fragmenting c left offset =>
    call.InChunk c ∧ call.queued = call.b.take (c.written + offset) ∧
      (left - 1) * c.fragmentSize + offset < c.data.length ∧
      c.data.length ≤ left * c.fragmentSize + offset
  | .draining c => call.InChunk c ∧ call.queued = call.b.take (c.written + c.data.length)

theorem InChunk.length_le (h : call.InChunk c) : c.written + c.data.length ≤ call.b.length := by
  have hlen := congrArg List.length h.left
  have hpos := List.length_pos_iff.mpr h.data
  simp only [List.length_drop, List.length_append] at hlen
  omega

theorem InChunk.take_fragment (h : call.InChunk c) {offset k : ℕ}
    (hk : offset + k ≤ c.data.length) :
    call.b.take (c.written + offset) ++ (c.data.drop offset).take k =
      call.b.take (c.written + (offset + k)) := by
  have hdrop : call.b.drop (c.written + offset) = c.data.drop offset ++ c.rest := by
    rw [← List.drop_drop, h.left, List.drop_append_of_le_length (by omega)]
  rw [← Nat.add_assoc, List.take_add (i := c.written + offset), hdrop,
    List.take_append_of_le_length]
  simp only [List.length_drop]
  omega

theorem InChunk.right_iff (h : call.InChunk c) (err : Option SessionError) {offset : ℕ}
    (hoffset : offset ≤ c.data.length) (hqueued : call.queued = call.b.take (c.written + offset)) :
    WriteReturn.Right cfg { call with n := c.written, err := err } ↔
      offset = 0 ∧ (cfg.isClient = true ∨ c.written = 0) := by
  have hle := h.length_le
  constructor
  · rintro ⟨-, hq, hcounted⟩
    have hlen := congrArg List.length (hqueued.symm.trans hq)
    simp only [List.length_take] at hlen
    refine ⟨by omega, ?_⟩
    cases hclient : cfg.isClient with
    | true => exact .inl rfl
    | false => exact .inr ((hcounted hclient).symm.trans h.uncounted)
  · rintro ⟨rfl, hserver⟩
    refine ⟨by dsimp only; omega, hqueued, ?_⟩
    intro hclient
    rcases hserver with hc | hw
    · rw [hc] at hclient
      cases hclient
    · exact h.uncounted.trans hw.symm

end WriteCall

/-! ## Steps of the writer -/

namespace Session

variable {cfg : SessionConfig} {s s' : Session cfg} {evs : List Event} {call : WriteCall}

/-- The record is still right after the step, and the condition tells whether what the step
returned is. -/
def Settles (a : Action) (call : WriteCall) (s s' : Session cfg) (evs : List Event) : Prop :=
  ((call.enter a).observe s s' evs).Balanced s'.writePc ∧
    (s.returnsWhole a = true ↔
      ∀ r ∈ evs.filterMap ((call.enter a).observe s s' evs).returned, r.Right cfg)

theorem settles_quiet {a : Action} (henter : call.enter a = call)
    (hcount : s'.downloadBytes = s.downloadBytes) (hwhole : s.returnsWhole a = true)
    (hbal : call.Balanced s'.writePc) : Settles a call s s' [] := by
  have hsame : (call.enter a).observe s s' [] = call := by
    simp [henter, WriteCall.observe, hcount]
  refine ⟨by rw [hsame]; exact hbal, ?_⟩
  simp [hwhole]

theorem settles_queued {a : Action} {seg : Segment} (henter : call.enter a = call)
    (hcount : s'.downloadBytes = s.downloadBytes) (hwhole : s.returnsWhole a = true)
    (hbal : WriteCall.Balanced { call with queued := call.queued ++ seg.payload } s'.writePc) :
    Settles a call s s' [.created seg true] := by
  have hsame : (call.enter a).observe s s' [.created seg true] =
      { call with queued := call.queued ++ seg.payload } := by
    simp [henter, WriteCall.observe, hcount, Event.acceptedBytes]
  refine ⟨by rw [hsame]; exact hbal, ?_⟩
  simp [hwhole, WriteCall.returned]

theorem settles_return {a : Action} {n : ℕ} {err : Option SessionError} (bytes : Bytes)
    (hpc : s'.writePc = .idle) (hqueued : evs.flatMap Event.acceptedBytes = bytes)
    (hreturned : ∀ call, evs.filterMap (WriteCall.returned call) =
      [{ call with n := n, err := err }])
    (hiff : s.returnsWhole a = true ↔ WriteReturn.Right cfg {
      b := (call.enter a).b
      queued := (call.enter a).queued ++ bytes
      counted := (call.enter a).counted + (s'.downloadBytes.getD 0 - s.downloadBytes.getD 0)
      n := n
      err := err }) : Settles a call s s' evs := by
  refine ⟨by rw [hpc]; trivial, ?_⟩
  rw [hreturned]
  simpa [WriteCall.observe, hqueued] using hiff

theorem returnsWhole_of_ne {a : Action} (hchunk : a ≠ .writeChunk) (hfragment : a ≠ .writeFragment)
    (habort : ∀ cause, a ≠ .writeAbort cause) : s.returnsWhole a = true := by
  unfold returnsWhole
  split
  · exact absurd rfl hchunk
  · exact absurd rfl (habort _)
  · exact absurd rfl (habort _)
  · exact absurd rfl hfragment
  · rfl

theorem write_settles {b : Bytes} (h : s.write b = some (s', evs)) :
    Settles (.write b) call s s' evs := by
  have hwhole : s.returnsWhole (.write b) = true := returnsWhole_of_ne (by simp) (by simp) (by simp)
  have hright (err : Option SessionError) :
      WriteReturn.Right cfg { b := b, n := 0, err := err } := ⟨Nat.zero_le _, rfl, fun _ => rfl⟩
  unfold write at h
  split at h
  · rename_i hpc
    split_ifs at h <;> cases h
    · exact settles_return [] hpc rfl (fun _ => rfl)
        (iff_of_true hwhole (by simpa [WriteCall.enter] using hright _))
    · exact settles_return [] hpc rfl (fun _ => rfl)
        (iff_of_true hwhole (by simpa [WriteCall.enter] using hright _))
    · exact settles_return [] hpc rfl (fun _ => rfl)
        (iff_of_true hwhole (by simpa [WriteCall.enter] using hright _))
    · refine ⟨?_, by simp [hwhole]⟩
      simp [WriteCall.Balanced, WriteCall.observe, WriteCall.enter]
  · cases h

theorem piggyback_cases (s : Session cfg) (b : Bytes) : s.piggyback b = b ∨ s.piggyback b = [] := by
  unfold piggyback
  dsimp only
  split_ifs
  · exact .inl rfl
  · exact .inr rfl

theorem writeOpen_settles (h : s.writeOpen = some (s', evs)) (hbal : call.Balanced s.writePc) :
    Settles .writeOpen call s s' evs := by
  have hwhole : s.returnsWhole .writeOpen = true := returnsWhole_of_ne (by simp) (by simp) (by simp)
  unfold writeOpen at h
  split at h
  · rename_i b hpc
    rw [hpc] at hbal
    have hcall : call = { b := b } := hbal
    subst hcall
    split_ifs at h with hopen
    · cases h
      exact settles_quiet rfl rfl hwhole ⟨hopen.1, rfl⟩
    · cases h
      refine settles_quiet rfl rfl hwhole ?_
      simp [WriteCall.Balanced]
  · cases h

theorem writeRequest_settles (h : s.writeRequest = some (s', evs))
    (hbal : call.Balanced s.writePc) : Settles .writeRequest call s s' evs := by
  have hwhole : s.returnsWhole .writeRequest = true :=
    returnsWhole_of_ne (by simp) (by simp) (by simp)
  unfold writeRequest at h
  split at h
  · rename_i b hpc
    rw [hpc] at hbal
    obtain ⟨hclient, rfl⟩ := hbal
    split_ifs at h
    dsimp only at h
    split at h
    · cases h
      refine settles_return [] rfl rfl (fun _ => rfl) (iff_of_true hwhole ?_)
      exact ⟨Nat.zero_le _, rfl, by simp [WriteCall.enter]⟩
    · split_ifs at h with hpayload
      · cases h
        have hall : s.piggyback b = b := (s.piggyback_cases b).resolve_right hpayload
        refine settles_return b rfl ?_ (fun _ => rfl) (iff_of_true hwhole ?_)
        · simp [Event.acceptedBytes, openRequestSegment, hall]
        · refine ⟨?_, ?_, ?_⟩
          · simp [hall, WriteCall.enter]
          · simp [hall, WriteCall.enter]
          · intro hserver
            rw [hclient] at hserver
            cases hserver
      · cases h
        have hnone : s.piggyback b = [] := not_not.mp hpayload
        refine ⟨?_, ?_⟩
        · simp [WriteCall.Balanced, WriteCall.observe, WriteCall.enter, Event.acceptedBytes,
            openRequestSegment, hnone]
        · simp [hwhole, WriteCall.returned]
  · cases h

theorem boundary_right {b : Bytes} {n grown : ℕ} {err : Option SessionError} (hn : n ≤ b.length) :
    WriteReturn.Right cfg { b := b, queued := b.take n, counted := grown, n := n, err := err } ↔
      cfg.isClient = true ∨ grown = n := by
  constructor
  · intro h
    cases hclient : cfg.isClient with
    | true => exact .inl rfl
    | false => exact .inr (h.counted hclient)
  · intro h
    refine ⟨hn, rfl, ?_⟩
    intro hserver
    exact h.resolve_left (by simp [hserver])

theorem writeChunk_settles (h : s.writeChunk = some (s', evs)) (hbal : call.Balanced s.writePc) :
    Settles .writeChunk call s s' evs := by
  unfold writeChunk at h
  split at h
  · rename_i rest n hpc
    rw [hpc] at hbal
    obtain ⟨hn, hrest, hqueued, hcounted⟩ := hbal
    have hwhole : s.returnsWhole .writeChunk = true ↔ (cfg.isClient = true ∨ n = 0 ∨
        if rest = [] then s.downloadBytes.isSome = true
        else (maxFragmentSize cfg.mtu cfg.transportProtocol
          s.lowEntropySendConfig.1).isOk = true) := by
      simp only [returnsWhole, hpc, decide_eq_true_eq]
      split_ifs <;> rfl
    split at h
    · rename_i hdone
      cases h
      refine settles_return [] rfl rfl (fun _ => rfl) ?_
      rw [hwhole, if_pos hdone]
      simp only [WriteCall.enter, hqueued, hcounted, List.append_nil, Nat.zero_add,
        boundary_right hn]
      cases hclient : cfg.isClient <;> cases hd : s.downloadBytes <;>
        simp [countDownload, hclient, hd, eq_comm]
    · rename_i hmore
      rw [if_neg hmore] at hwhole
      split at h
      rename_i mode rotation low hconfig
      split at h
      · rename_i msg hsize
        cases h
        refine settles_return [] rfl rfl (fun _ => rfl) ?_
        rw [hwhole, hconfig, hsize]
        simp only [WriteCall.enter, hqueued, hcounted, List.append_nil, Nat.zero_add, Nat.sub_self,
          boundary_right hn]
        have hfails : (Except.error msg : Except String ℕ).isOk = false := rfl
        simp [hfails, @eq_comm _ n 0]
      · cases h
      · rename_i fragmentSize hsize
        cases h
        refine settles_quiet rfl rfl ?_ ?_
        · rw [hwhole, hconfig, hsize]
          exact .inr (.inr rfl)
        · refine ⟨⟨?_, ?_, Nat.succ_pos _, hcounted⟩, hqueued⟩
          · rw [← hrest, List.take_append_drop]
          · intro hnil
            rcases List.take_eq_nil_iff.mp hnil with hzero | hnil
            · exact absurd hzero (by decide)
            · exact hmore hnil
  · cases h

theorem writeReserve_settles (h : s.writeReserve = some (s', evs))
    (hbal : call.Balanced s.writePc) : Settles .writeReserve call s s' evs := by
  unfold writeReserve at h
  split at h
  · rename_i c hpc
    rw [hpc] at hbal
    split_ifs at h
    cases h
    exact settles_quiet rfl rfl (by simp [returnsWhole]) hbal
  · cases h

theorem nFragment_spec {c : Chunk cfg} (hdata : c.data ≠ []) (hsize : 0 < c.fragmentSize) :
    (c.nFragment - 1) * c.fragmentSize < c.data.length ∧
      c.data.length ≤ c.nFragment * c.fragmentSize := by
  have hpos := List.length_pos_iff.mpr hdata
  unfold Chunk.nFragment
  split_ifs with hlong
  · have hdiv := Nat.div_add_mod (c.data.length - 1) c.fragmentSize
    have hmod := Nat.mod_lt (c.data.length - 1) hsize
    rw [Nat.add_sub_cancel, Nat.add_mul, Nat.one_mul, Nat.mul_comm]
    omega
  · omega

theorem writeLock_settles (h : s.writeLock = some (s', evs)) (hbal : call.Balanced s.writePc) :
    Settles .writeLock call s s' evs := by
  unfold writeLock at h
  split at h
  · rename_i c hpc
    rw [hpc] at hbal
    obtain ⟨hchunk, hqueued⟩ := hbal
    split_ifs at h
    cases h
    obtain ⟨hlast, hall⟩ := nFragment_spec hchunk.data hchunk.size
    exact settles_quiet rfl rfl (by simp [returnsWhole]) ⟨hchunk, hqueued, hlast, hall⟩
  · cases h

theorem writeAbort_settles {err : SessionError} (h : s.writeAbort err = some (s', evs))
    (hbal : call.Balanced s.writePc) : Settles (.writeAbort err) call s s' evs := by
  unfold writeAbort at h
  dsimp only at h
  split at h
  · cases h
  split at h
  · rename_i c hpc
    rw [hpc] at hbal
    obtain ⟨hchunk, hqueued⟩ := hbal
    split_ifs at h
    cases h
    refine settles_return [] rfl rfl (fun _ => rfl) ?_
    have hright := hchunk.right_iff (some err) (Nat.zero_le _) hqueued
    simp only [WriteCall.enter, List.append_nil, Nat.sub_self, Nat.add_zero]
    rw [hright]
    simp [returnsWhole, hpc]
  · rename_i c left offset hpc
    rw [hpc] at hbal
    obtain ⟨hchunk, hqueued, hlast, hall⟩ := hbal
    cases h
    refine settles_return [] rfl rfl (fun _ => rfl) ?_
    have hright := hchunk.right_iff (some err) (Nat.le_of_lt (by omega)) hqueued
    simp only [WriteCall.enter, List.append_nil, Nat.sub_self, Nat.add_zero]
    rw [hright]
    simp [returnsWhole, hpc]
  · cases h

theorem writeDrain_settles (h : s.writeDrain = some (s', evs)) (hbal : call.Balanced s.writePc) :
    Settles .writeDrain call s s' evs := by
  have hwhole : s.returnsWhole .writeDrain = true :=
    returnsWhole_of_ne (by simp) (by simp) (by simp)
  unfold writeDrain at h
  split at h
  · rename_i c hpc
    rw [hpc] at hbal
    obtain ⟨hchunk, hqueued⟩ := hbal
    have hnext : call.Balanced (.writing c.rest (c.written + c.data.length) : WritePc cfg) := by
      refine ⟨hchunk.length_le, ?_, hqueued, hchunk.uncounted⟩
      rw [← List.drop_drop, hchunk.left, List.drop_left]
    dsimp only at h
    split at h
    · cases h
      exact settles_quiet rfl rfl hwhole hnext
    · split at h
      · cases h
        exact settles_quiet rfl rfl hwhole hnext
      · split_ifs at h
        cases h
        exact settles_quiet rfl rfl hwhole hnext
  · cases h

theorem writeFragment_settles (h : s.writeFragment = some (s', evs))
    (hbal : call.Balanced s.writePc) : Settles .writeFragment call s s' evs := by
  unfold writeFragment at h
  split at h
  · rename_i c left offset hpc
    rw [hpc] at hbal
    obtain ⟨hchunk, hqueued, hlast, hall⟩ := hbal
    have hwhole : s.returnsWhole .writeFragment = true ↔ s.queuesFragment c offset = true ∨
        offset = 0 ∧ (cfg.isClient = true ∨ c.written = 0) := by
      simp [returnsWhole, hpc]
    split at h
    · cases h
    dsimp only at h
    split at h
    · rename_i msg hlen
      cases h
      refine settles_return [] rfl rfl (fun _ => rfl) ?_
      have hright := hchunk.right_iff (some (.other msg)) (Nat.le_of_lt (by omega)) hqueued
      simp only [WriteCall.enter, List.append_nil, Nat.sub_self, Nat.add_zero]
      have hrefused : s.queuesFragment c offset = false := by
        simp only [queuesFragment, hlen]
        rfl
      rw [hright, hwhole, hrefused]
      simp
    · rename_i payloadLen hlen
      split at h
      · rename_i q hq
        cases h
        have hfull := (SegmentTree.insert_false hq).1
        refine settles_return [] rfl rfl (fun _ => rfl) ?_
        have hright := hchunk.right_iff (some .insertFailed) (Nat.le_of_lt (by omega)) hqueued
        simp only [WriteCall.enter, List.append_nil, Nat.sub_self, Nat.add_zero]
        have hrefused : s.queuesFragment c offset = false := by
          simp only [queuesFragment, decide_eq_false_iff_not, not_and, Nat.not_lt]
          exact fun _ => hfull
        rw [hright, hwhole, hrefused]
        simp
      · rename_i q hq
        have hqueues : s.queuesFragment c offset = true := by
          simp only [queuesFragment, hlen, decide_eq_true_eq]
          exact ⟨rfl, (SegmentTree.insert_true hq).1⟩
        have hwhole' : s.returnsWhole .writeFragment = true := hwhole.mpr (.inl hqueues)
        have hpart : offset + min c.fragmentSize (c.data.drop offset).length ≤ c.data.length := by
          rw [List.length_drop]
          omega
        have hgrown := hchunk.take_fragment hpart
        rw [← hqueued] at hgrown
        have hchunk' (queued : Bytes) : WriteCall.InChunk { call with queued := queued } c :=
          ⟨hchunk.left, hchunk.data, hchunk.size, hchunk.uncounted⟩
        simp only [Nat.succ_eq_add_one, Nat.add_sub_cancel, Nat.add_mul, Nat.one_mul] at hlast hall
        split_ifs at h with hzero
        · cases h
          refine settles_queued rfl rfl hwhole' ⟨hchunk' _, hgrown.trans ?_⟩
          -- the last fragment takes what is left
          rw [hzero, Nat.zero_mul] at hall
          rw [List.length_drop, Nat.min_eq_right (by omega)]
          congr 2
          omega
        · cases h
          -- every other fragment is full
          have hfull : c.fragmentSize ≤ left * c.fragmentSize :=
            Nat.le_mul_of_pos_left _ (Nat.pos_of_ne_zero hzero)
          have hmin : min c.fragmentSize (c.data.drop offset).length = c.fragmentSize := by
            rw [List.length_drop]
            omega
          have hprev : (left - 1) * c.fragmentSize + c.fragmentSize = left * c.fragmentSize := by
            rw [Nat.sub_mul, Nat.one_mul, Nat.sub_add_cancel hfull]
          refine settles_queued rfl rfl hwhole' ⟨hchunk' _, hgrown, ?_, ?_⟩
          · rw [hmin]
            omega
          · rw [hmin]
            omega
  · cases h

theorem writer_settles {a : Action} (h : s.step a = some (s', evs)) (ha : a.party = .writer)
    (hbal : call.Balanced s.writePc) : Settles a call s s' evs := by
  have hp := perform_of_step h
  cases a with
  | write => exact write_settles hp
  | writeOpen => exact writeOpen_settles hp hbal
  | writeRequest => exact writeRequest_settles hp hbal
  | writeChunk => exact writeChunk_settles hp hbal
  | writeReserve => exact writeReserve_settles hp hbal
  | writeLock => exact writeLock_settles hp hbal
  | writeFragment => exact writeFragment_settles hp hbal
  | writeAbort => exact writeAbort_settles hp hbal
  | writeDrain => exact writeDrain_settles hp hbal
  | _ => cases ha

end Session

namespace Ledger

variable {cfg : SessionConfig} {l l' : Ledger cfg} {a : Action} {rs : List WriteReturn}

theorem step_settles (h : l.step a = some (l', rs)) (hbal : l.call.Balanced l.session.writePc) :
    l'.call.Balanced l'.session.writePc ∧
      (l.session.returnsWhole a = true ↔ ∀ r ∈ rs, r.Right cfg) := by
  unfold step at h
  split at h
  · cases h
  · rename_i s evs hs
    split_ifs at h with hwriter
    · cases h
      exact Session.writer_settles hs hwriter hbal
    · cases h
      have hkept := (Session.step_effect hs).keeps .writer (by simpa [Action.touches] using hwriter)
      refine ⟨by rw [hkept.1]; exact hbal, iff_of_true ?_ (by simp)⟩
      unfold Session.returnsWhole
      split <;> first | rfl | exact absurd rfl hwriter

/-- Every call of `Write` in a run reports exactly what it queued and, on a server, counted,
if and only if no step of the run makes it return in the middle of its work. -/
theorem writes_right_iff {now jitter : ℤ} {es : List Action}
    (h : Machine.Reaches step Machine.Free (⟨.attached now jitter, {}⟩ : Ledger cfg) es rs l) :
    (∀ r ∈ rs, r.Right cfg) ↔
      Machine.Reaches step (fun l a => l.session.returnsWhole a = true)
        (⟨.attached now jitter, {}⟩ : Ledger cfg) es rs l := by
  refine Machine.emitted_iff_guarded_of_invariant
    (J := fun l : Ledger cfg => l.call.Balanced l.session.writePc) trivial ?_ ?_ h
  · intro l a l' rs hbal hstep
    exact (step_settles hstep hbal).1
  · intro l a l' rs hbal hstep
    exact (step_settles hstep hbal).2

def servedByteRun : List Action := [
  .receive (Session.openRequestSegment (packetConfig true) 0 []).toPacket 0, .requestAck 0, .accept,
  .waitSpace, .moveNext, .moveNext, .requestAckAgain 0, .respond true, .finishInput,
  .write [9], .writeOpen, .writeChunk, .writeReserve, .writeLock, .writeFragment,
  .outputWake .notEmpty, .outputStart 0, .sendCheck 16, .outputLock, .sendNext 16 0 1000 .sent,
  .sendNext 16 0 1000 .sent, .writeDrain, .writeChunk]

theorem served_byte_right : ∃ (l : Ledger (packetConfig false)) (rs : List WriteReturn),
    Machine.Reaches step Machine.Free ⟨.attached 0 0, {}⟩ servedByteRun rs l ∧
    rs.map (fun r => (r.n, r.queued, r.counted)) = [(1, [9], 1)] ∧
    ∀ r ∈ rs, r.Right (packetConfig false) := by
  have hsummary : (Machine.run (Machine.guarded (fun l a => l.session.returnsWhole a) step)
      (⟨.attached 0 0, {}⟩ : Ledger (packetConfig false)) servedByteRun).map
        (fun r => r.2.map fun w => (w.n, w.queued, w.counted)) = some [(1, [9], 1)] := by
    rfl
  obtain ⟨⟨l, rs⟩, hrun, heq⟩ := Option.map_eq_some_iff.mp hsummary
  have hguard := Machine.reaches_of_guarded_run hrun
  exact ⟨l, rs, hguard.free, heq, (writes_right_iff hguard.free).mpr hguard⟩

/-- The deadline passes when one of two fragments is queued. -/
def interruptedRun : List Action := [
  .write (List.replicate 1400 7), .writeOpen, .writeRequest, .writeChunk, .writeReserve,
  .writeLock, .writeFragment, .writeAbort .timeout]

theorem interrupted_write_not_right :
    ∃ (l : Ledger (packetConfig true)) (r : WriteReturn),
      Machine.Reaches step Machine.Free ⟨.attached 0 0, {}⟩ interruptedRun [r] l ∧
      r.n = 0 ∧ r.err = some .timeout ∧ r.queued.length = 1312 ∧
      ¬r.Right (packetConfig true) := by
  have hsummary : (Machine.run step (⟨.attached 0 0, {}⟩ : Ledger (packetConfig true))
      interruptedRun).map (fun r => r.2.map fun w => (w.n, w.err, w.queued.length)) =
      some [(0, some .timeout, 1312)] := by
    decide +kernel
  obtain ⟨⟨l, rs⟩, hrun, heq⟩ := Option.map_eq_some_iff.mp hsummary
  obtain ⟨r, rfl, hr⟩ := List.map_eq_singleton_iff.mp heq
  simp only [Prod.mk.injEq] at hr
  obtain ⟨hn, herr, hlen⟩ := hr
  refine ⟨l, r, Machine.reaches_of_run hrun, hn, herr, hlen, ?_⟩
  intro hright
  have hqueued := hright.queued
  rw [hn, List.take_zero] at hqueued
  rw [hqueued] at hlen
  cases hlen

end Ledger

end Mieru.Protocol
