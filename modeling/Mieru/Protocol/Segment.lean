import Mieru.Cipher
import Mieru.Lib.OrderedTree
import Mieru.Protocol.Metadata

/-! # Segments and segment trees

A segment tree is a bounded set of segments ordered by sequence number, with one
token each for the events "became empty" and "is not empty". -/
namespace Mieru.Protocol

open Cipher LowEntropy OrderedTree Result

inductive TransportProtocol where
  | unknownTransport
  | streamTransport
  | packetTransport
  deriving DecidableEq, Repr

theorem stream_ne_unknown : TransportProtocol.streamTransport ≠ .unknownTransport := by decide

theorem packet_ne_unknown : TransportProtocol.packetTransport ≠ .unknownTransport := by decide

def packetOverhead : ℕ := defaultNonceSize + metadataLength + defaultOverhead * 2
def packetNonHeaderPosition : ℕ := defaultNonceSize + metadataLength + defaultOverhead

def maxFragmentSizeInternal (mtu : ℤ) (transport : TransportProtocol) : ℕ :=
  if transport = .streamTransport then maxPDU else (mtu - packetOverhead).toNat

def maxFragmentSize (mtu : ℤ) (transport : TransportProtocol) (mode : LowEntropyMode) :
    Except String ℕ :=
  if mode = modeOff then .ok (maxFragmentSizeInternal mtu transport)
  else do
    let params ← buildLowEntropyParams mode
    let maxEncodableChunkCount := 65535 / lowEntropyChunkLen
    match transport with
    | .streamTransport =>
      return min (maxFragmentSizeInternal mtu transport)
        (maxEncodableChunkCount * params.sourceBytesPerChunk)
    | .packetTransport =>
      let mtuChunkCount := (mtu - packetOverhead) / lowEntropyChunkLen
      ensure (0 < mtuChunkCount) s!"MTU {mtu} has no capacity for a low entropy payload chunk"
      return mtuChunkCount.toNat * params.sourceBytesPerChunk
    | .unknownTransport => return maxFragmentSizeInternal mtu transport

structure Packet where
  metadata : Metadata
  payload : Bytes
  deriving DecidableEq, Repr

def Packet.protocol (p : Packet) : ProtocolType := p.metadata.protocol
def Packet.seq (p : Packet) : UInt32 := p.metadata.seq

/-- Times are in microseconds. -/
structure Segment extends Packet where
  ackCount : UInt8 := 0
  txCount : UInt8 := 0
  txTime : ℤ := 0
  txTimeout : ℤ := 0
  deriving DecidableEq, Repr

namespace Segment

abbrev protocol (seg : Segment) : ProtocolType := seg.toPacket.protocol
abbrev seq (seg : Segment) : UInt32 := seg.toPacket.seq

/-- Segments are compared by sequence number only. -/
def key (seg : Segment) : ℕ := seg.seq.toNat

/-- `unAckSeq` is brought up to date on each transmission of a data segment. -/
def refreshAck (seg : Segment) (nextRecv : UInt32) : Segment :=
  match seg.metadata with
  | .session _ => seg
  | .dataAck das => { seg with metadata := .dataAck { das with unAckSeq := nextRecv } }

theorem seq_refreshAck (seg : Segment) (nextRecv : UInt32) :
    (seg.refreshAck nextRecv).seq = seg.seq := by
  unfold refreshAck
  split <;> rename_i h <;> simp [seq, Packet.seq, Metadata.seq, h]

theorem payload_refreshAck (seg : Segment) (nextRecv : UInt32) :
    (seg.refreshAck nextRecv).payload = seg.payload := by
  unfold refreshAck
  split <;> rfl

end Segment

def segmentTreeCapacity : ℕ := 4096
def segmentSendQueueTreeCapacity : ℕ := 1024

structure SegmentTree (cap : ℕ) where
  tr : Tree Segment.key cap := .empty
  chanEmptyEvent : Bool := false
  chanNotEmptyEvent : Bool := false

namespace SegmentTree

variable {cap : ℕ}

def items (t : SegmentTree cap) : List Segment := t.tr.items
def len (t : SegmentTree cap) : ℕ := t.items.length
def remaining (t : SegmentTree cap) : ℕ := cap - t.len
def minSeq (t : SegmentTree cap) : Option UInt32 := t.items.head?.map Segment.seq

def notifyEmpty (t : SegmentTree cap) : SegmentTree cap := { t with chanEmptyEvent := true }
def notifyNotEmpty (t : SegmentTree cap) : SegmentTree cap :=
  { t with chanNotEmptyEvent := true }

def notify (t : SegmentTree cap) : SegmentTree cap :=
  if 0 < t.len then t.notifyNotEmpty else t.notifyEmpty

def insert (t : SegmentTree cap) (seg : Segment) : SegmentTree cap × Bool :=
  match t.tr.insert seg with
  | none => (t.notifyNotEmpty, false)
  | some tr =>
    let replace := t.items.any fun old => old.key = seg.key
    let t' := { t with tr := tr }
    (if replace then t' else t'.notifyNotEmpty, true)

def deleteMin (t : SegmentTree cap) : Option Segment × SegmentTree cap :=
  match t.items.head? with
  | none => (none, t)
  | some seg => (some seg, notify { t with tr := t.tr.tail })

def deleteMinIf (si : Segment → Bool) (t : SegmentTree cap) : Option Segment × SegmentTree cap :=
  match t.items.head? with
  | none => (none, t)
  | some seg =>
    if si seg then (some seg, notify { t with tr := t.tr.tail }) else (none, t.notify)

def deleteAll (t : SegmentTree cap) : SegmentTree cap := notifyEmpty { t with tr := .empty }

/-- Callers hold pointers into the tree and change a segment where it stands. -/
def modify (t : SegmentTree cap) (f : Segment → Segment) (hf : ∀ a, (f a).key = a.key) :
    SegmentTree cap := { t with tr := t.tr.map f hf }

theorem sorted (t : SegmentTree cap) : t.items.Pairwise fun a b => a.key < b.key := t.tr.sorted

@[simp] theorem items_notify (t : SegmentTree cap) : t.notify.items = t.items := by
  unfold notify
  split_ifs <;> rfl

@[simp] theorem items_deleteAll (t : SegmentTree cap) : t.deleteAll.items = [] := rfl

@[simp] theorem items_modify (t : SegmentTree cap) (f : Segment → Segment)
    (hf : ∀ a, (f a).key = a.key) : (t.modify f hf).items = t.items.map f := rfl

@[simp] theorem len_modify (t : SegmentTree cap) (f : Segment → Segment)
    (hf : ∀ a, (f a).key = a.key) : (t.modify f hf).len = t.len := by
  simp [len]

theorem insert_true {t t' : SegmentTree cap} {seg : Segment} (h : t.insert seg = (t', true)) :
    t.items.length < cap ∧ t'.items = place Segment.key seg t.items := by
  unfold insert at h
  split at h
  · simp at h
  · rename_i tr htr
    obtain ⟨hlt, hitems⟩ := Tree.insert_eq_some htr
    simp only [Prod.mk.injEq, and_true] at h
    refine ⟨hlt, Eq.trans ?_ hitems⟩
    rw [← h]
    split_ifs <;> rfl

theorem insert_false {t t' : SegmentTree cap} {seg : Segment} (h : t.insert seg = (t', false)) :
    cap ≤ t.items.length ∧ t'.items = t.items := by
  unfold insert at h
  split at h
  · rename_i htr
    simp only [Prod.mk.injEq, and_true] at h
    exact ⟨Tree.insert_eq_none htr, by rw [← h]; rfl⟩
  · simp at h

theorem mem_of_insert {t t' : SegmentTree cap} {seg x : Segment} {ok : Bool}
    (h : t.insert seg = (t', ok)) (hx : x ∈ t'.items) : x = seg ∨ x ∈ t.items := by
  cases ok with
  | false =>
    rw [(insert_false h).2] at hx
    exact .inr hx
  | true =>
    rw [(insert_true h).2] at hx
    rcases (mem_place t.sorted).mp hx with hnew | ⟨hold, -⟩
    · exact .inl hnew
    · exact .inr hold

theorem deleteMin_some {t t' : SegmentTree cap} {seg : Segment}
    (h : t.deleteMin = (some seg, t')) : t.items = seg :: t'.items := by
  unfold deleteMin at h
  split at h
  · simp at h
  · rename_i seg' hhead
    simp only [Prod.mk.injEq, Option.some.injEq] at h
    obtain ⟨rfl, rfl⟩ := h
    rw [items_notify]
    exact (List.cons_head?_tail hhead).symm

theorem deleteMin_none {t t' : SegmentTree cap} (h : t.deleteMin = (none, t')) :
    t.items = [] ∧ t' = t := by
  unfold deleteMin at h
  split at h
  · rename_i hhead
    simp only [Prod.mk.injEq, true_and] at h
    exact ⟨List.head?_eq_none_iff.mp hhead, h.symm⟩
  · simp at h

theorem deleteMinIf_some {t t' : SegmentTree cap} {si : Segment → Bool} {seg : Segment}
    (h : t.deleteMinIf si = (some seg, t')) : si seg = true ∧ t.items = seg :: t'.items := by
  unfold deleteMinIf at h
  split at h
  · simp at h
  · rename_i seg' hhead
    split_ifs at h with hsi
    · simp only [Prod.mk.injEq, Option.some.injEq] at h
      obtain ⟨rfl, rfl⟩ := h
      rw [items_notify]
      exact ⟨hsi, (List.cons_head?_tail hhead).symm⟩
    · simp at h

theorem deleteMinIf_none {t t' : SegmentTree cap} {si : Segment → Bool}
    (h : t.deleteMinIf si = (none, t')) : t'.items = t.items := by
  unfold deleteMinIf at h
  split at h
  · simp only [Prod.mk.injEq, true_and] at h
    rw [h]
  · split_ifs at h with hsi
    · simp at h
    · simp only [Prod.mk.injEq, true_and] at h
      rw [← h, items_notify]

theorem head_of_deleteMinIf_none {t t' : SegmentTree cap} {si : Segment → Bool} {seg : Segment}
    (h : t.deleteMinIf si = (none, t')) (hhead : t.items.head? = some seg) : si seg = false := by
  unfold deleteMinIf at h
  rw [hhead] at h
  dsimp only at h
  split_ifs at h with hsi
  · simp at h
  · exact Bool.eq_false_iff.mpr hsi

/-! ## Tokens -/

theorem notify_notEmpty {t : SegmentTree cap} (hne : t.notify.items ≠ []) :
    t.notify.chanNotEmptyEvent = true := by
  rw [items_notify] at hne
  have hlen : 0 < t.len := List.length_pos_iff.mpr hne
  unfold notify
  rw [if_pos hlen]
  rfl

theorem insert_notEmpty {t t' : SegmentTree cap} {seg : Segment} {ok : Bool}
    (h : t.insert seg = (t', ok)) :
    t'.chanNotEmptyEvent = true ∨
      (t'.chanNotEmptyEvent = t.chanNotEmptyEvent ∧ t.items ≠ []) := by
  unfold insert at h
  split at h
  · cases h
    exact .inl rfl
  · dsimp only at h
    split_ifs at h with hreplace
    · cases h
      refine .inr ⟨rfl, ?_⟩
      intro hempty
      rw [hempty] at hreplace
      cases hreplace
    · cases h
      exact .inl rfl

theorem deleteMin_notEmpty {t t' : SegmentTree cap} {seg : Option Segment}
    (h : t.deleteMin = (seg, t')) (hne : t'.items ≠ []) : t'.chanNotEmptyEvent = true := by
  unfold deleteMin at h
  split at h
  · rename_i hhead
    cases h
    exact absurd (List.head?_eq_none_iff.mp hhead) hne
  · cases h
    exact notify_notEmpty hne

theorem deleteMinIf_notEmpty {t t' : SegmentTree cap} {si : Segment → Bool} {seg : Option Segment}
    (h : t.deleteMinIf si = (seg, t')) (hne : t'.items ≠ []) : t'.chanNotEmptyEvent = true := by
  unfold deleteMinIf at h
  split at h
  · rename_i hhead
    cases h
    exact absurd (List.head?_eq_none_iff.mp hhead) hne
  · split_ifs at h
    · cases h
      exact notify_notEmpty hne
    · cases h
      exact notify_notEmpty hne

end SegmentTree

end Mieru.Protocol
