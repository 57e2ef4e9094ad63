import Mieru.Lib.BigEndian
import Mieru.Lib.Machine
import Mieru.Lib.PieceStream

/-! # Packets over a stream

`PacketOverStreamTunnel` puts each packet between a zero byte, two bytes of length and a byte
of ones. The reader has no state of its own: where it is in a frame is where the stream is. -/
namespace Mieru.Common

open PieceStream

abbrev Bytes := List UInt8

inductive TunnelError where
  | eof
  | unexpectedEof
  | timeout
  | shortBuffer
  | badPrefix (delim : UInt8)
  | badSuffix (delim : UInt8)
  deriving DecidableEq, Repr

/-- What `io.ReadFull` returns when it has to give up. -/
def TunnelError.ofShort (short : Short) : TunnelError :=
  match short.stop, short.got with
  | .timeout, _ => .timeout
  | .eof, [] => .eof
  | .eof, _ => .unexpectedEof

def TunnelError.text : TunnelError → String
  | eof => "EOF"
  | unexpectedEof => "unexpected EOF"
  | timeout => "i/o timeout"
  | shortBuffer => "short buffer"
  | badPrefix delim => "packet prefix 0x" ++ hex delim ++ " is not 0x00"
  | badSuffix delim => "packet suffix 0x" ++ hex delim ++ " is not 0xff"
where
  hex (b : UInt8) : String := String.ofList (Nat.toDigits 16 b.toNat)

/-- A reader of the stream. What an unsuccessful call has taken is gone. -/
abbrev TunnelM := ExceptT TunnelError (StateM (List Piece))

def fill (n : ℕ) : TunnelM Bytes := do
  match readFull n (← get) with
  | .ok (got, rest) =>
    set rest
    return got
  | .error short =>
    set short.rest
    throw (.ofShort short)

namespace PacketOverStreamTunnel

def read (len : ℕ) : TunnelM Bytes := do
  let delim ← fill 1
  if delim ≠ [0x00] then throw (.badPrefix (delim.headD 0))
  let lengthBytes ← fill 2
  let length := BigEndian.decode lengthBytes
  if len < length then throw .shortBuffer
  let p ← fill length
  let delim ← fill 1
  if delim ≠ [0xff] then throw (.badSuffix (delim.headD 0))
  return p

def frame (p : Bytes) : Bytes := 0x00 :: (BigEndian.encode 2 p.length ++ p ++ [0xff])

def write (p : Bytes) : Except String Bytes :=
  if 65535 < p.length then
    .error s!"packet length {p.length} is larger than maximum length 65535"
  else .ok (frame p)

theorem write_ok_iff {p bytes : Bytes} :
    write p = .ok bytes ↔ p.length ≤ 65535 ∧ bytes = frame p := by
  unfold write
  split_ifs with hlen
  · constructor
    · intro h
      cases h
    · rintro ⟨hle, -⟩
      omega
  · constructor
    · intro h
      cases h
      exact ⟨by omega, rfl⟩
    · rintro ⟨-, rfl⟩
      rfl

theorem writes_ok_iff {packets written : List Bytes} :
    packets.mapM write = .ok written ↔
      (∀ p ∈ packets, p.length ≤ 65535) ∧ written = packets.map frame := by
  induction packets generalizing written with
  | nil => simp [pure, Except.pure, eq_comm]
  | cons p packets ih =>
    have hcons : (p :: packets).mapM write = .ok written ↔
        ∃ bytes, write p = .ok bytes ∧ ∃ rest, packets.mapM write = .ok rest ∧
          written = bytes :: rest := by
      rw [List.mapM_cons]
      cases write p with
      | error e => simp [bind, Except.bind]
      | ok bytes =>
        cases packets.mapM write with
        | error e => simp [bind, Except.bind]
        | ok rest => simp [bind, Except.bind, pure, Except.pure, eq_comm]
    simp only [hcons, write_ok_iff, ih, List.forall_mem_cons, List.map_cons]
    constructor
    · rintro ⟨_, ⟨hp, rfl⟩, _, ⟨hrest, rfl⟩, rfl⟩
      exact ⟨⟨hp, hrest⟩, rfl⟩
    · rintro ⟨⟨hp, hrest⟩, rfl⟩
      exact ⟨_, ⟨hp, rfl⟩, _, ⟨hrest, rfl⟩, rfl⟩

structure Receiver where
  conn : List Piece
  /-- A failed call has taken bytes, and more follow. -/
  broken : Bool := false

def step (r : Receiver) (len : ℕ) : Option (Receiver × List Bytes) :=
  match (read len).run r.conn with
  | (.ok p, rest) => some ({ r with conn := rest }, [p])
  | (.error _, rest) =>
    some (⟨rest, r.broken || content rest ≠ content r.conn && content rest ≠ []⟩, [])

theorem run_bind {α β : Type} (x : TunnelM α) (f : α → TunnelM β) (conn : List Piece) :
    (x >>= f).run conn =
      match x.run conn with
      | (.ok a, mid) => (f a).run mid
      | (.error e, mid) => (.error e, mid) := by
  change ExceptT.bindCont f (x.run conn).1 (x.run conn).2 = _
  cases hx : x.run conn with
  | mk result mid => cases result <;> rfl

theorem bind_ok {α β : Type} {x : TunnelM α} {f : α → TunnelM β} {conn rest : List Piece} {b : β}
    (h : (x >>= f).run conn = (.ok b, rest)) :
    ∃ a mid, x.run conn = (.ok a, mid) ∧ (f a).run mid = (.ok b, rest) := by
  rw [run_bind] at h
  cases hx : x.run conn with
  | mk result mid =>
    rw [hx] at h
    cases result with
    | error e => cases h
    | ok a => exact ⟨a, mid, rfl, h⟩

theorem run_fill (n : ℕ) (conn : List Piece) :
    (fill n).run conn =
      match readFull n conn with
      | .ok (got, rest) => (.ok got, rest)
      | .error short => (.error (.ofShort short), short.rest) := by
  change (match readFull n conn with
    | .ok (got, rest) => _
    | .error short => _ : TunnelM Bytes).run conn = _
  cases readFull n conn <;> rfl

theorem fill_ok {n : ℕ} {conn rest : List Piece} {got : Bytes}
    (h : (fill n).run conn = (.ok got, rest)) :
    got.length = n ∧ content conn = got ++ content rest := by
  rw [run_fill] at h
  cases hread : readFull n conn with
  | error short =>
    rw [hread] at h
    cases h
  | ok r =>
    rw [hread] at h
    cases h
    exact content_of_readFull hread

theorem unless_throw_ok {α : Type} {c : Prop} [Decidable c] {e : TunnelError}
    {f : Unit → TunnelM α} {conn rest : List Piece} {a : α}
    (h : (if c then throw e >>= f else f ()).run conn = (.ok a, rest)) :
    ¬c ∧ (f ()).run conn = (.ok a, rest) := by
  split_ifs at h with hc
  · cases h
  · exact ⟨hc, h⟩

theorem read_ok {len : ℕ} {conn rest : List Piece} {p : Bytes}
    (h : (read len).run conn = (.ok p, rest)) :
    ∃ lengthBytes : Bytes, lengthBytes.length = 2 ∧ p.length = BigEndian.decode lengthBytes ∧
      content conn = 0x00 :: (lengthBytes ++ p ++ [0xff]) ++ content rest := by
  unfold read at h
  obtain ⟨delim, conn1, h1, h⟩ := bind_ok h
  obtain ⟨hdelim, h⟩ := unless_throw_ok h
  obtain ⟨lengthBytes, conn2, h2, h⟩ := bind_ok h
  obtain ⟨-, h⟩ := unless_throw_ok h
  obtain ⟨q, conn3, h3, h⟩ := bind_ok h
  obtain ⟨last, conn4, h4, h⟩ := bind_ok h
  obtain ⟨hlast, h⟩ := unless_throw_ok h
  cases h
  rw [not_not] at hdelim hlast
  obtain ⟨-, hconn⟩ := fill_ok h1
  obtain ⟨hlen, hconn1⟩ := fill_ok h2
  obtain ⟨hp, hconn2⟩ := fill_ok h3
  obtain ⟨-, hconn3⟩ := fill_ok h4
  refine ⟨lengthBytes, hlen, hp, ?_⟩
  rw [hconn, hconn1, hconn2, hconn3, hdelim, hlast]
  simp

theorem fill_bind {n : ℕ} {conn : List Piece} {bs : Bytes} {tail : List (Option UInt8)}
    (h : symbols conn = bs.map some ++ tail) (hn : bs.length = n) :
    ∃ rest, symbols rest = tail ∧
      ∀ f : Bytes → TunnelM Bytes, (fill n >>= f).run conn = (f bs).run rest := by
  obtain ⟨rest, hread, hrest⟩ := readFull_ok h
  rw [hn] at hread
  refine ⟨rest, hrest, ?_⟩
  intro f
  rw [run_bind, run_fill, hread]

theorem read_frame {len : ℕ} {p : Bytes} {conn : List Piece} {tail : List (Option UInt8)}
    (hp : p.length ≤ 65535) (hlen : p.length ≤ len)
    (h : symbols conn = (frame p).map some ++ tail) :
    ∃ rest, symbols rest = tail ∧ (read len).run conn = (.ok p, rest) := by
  have hlength : BigEndian.decode (BigEndian.encode 2 p.length) = p.length := by
    rw [BigEndian.decode_encode, Nat.mod_eq_of_lt (by omega)]
  have hframe : (frame p).map some ++ tail = [0x00].map some ++
      ((BigEndian.encode 2 p.length).map some ++ (p.map some ++ ([0xff].map some ++ tail))) := by
    simp [frame]
  rw [hframe] at h
  unfold read
  obtain ⟨conn1, h1, hdelim⟩ := fill_bind h (n := 1) rfl
  obtain ⟨conn2, h2, hlengthBytes⟩ := fill_bind h1 (n := 2) (by simp)
  obtain ⟨conn3, h3, hpayload⟩ := fill_bind h2 rfl
  obtain ⟨conn4, h4, hlast⟩ := fill_bind h3 (n := 1) rfl
  refine ⟨conn4, h4, ?_⟩
  rw [hdelim, if_neg (by simp), hlengthBytes, hlength, if_neg (by omega), hpayload, hlast,
    if_neg (by simp)]
  rfl

/-- The next bytes of the stream are the start of frames. -/
def Aligned (conn : List Piece) (packets : List Bytes) : Prop :=
  content conn <+: packets.flatMap frame

theorem read_aligned {len : ℕ} {conn rest : List Piece} {p : Bytes} {packets : List Bytes}
    (hsize : ∀ q ∈ packets, q.length ≤ 65535) (haligned : Aligned conn packets)
    (h : (read len).run conn = (.ok p, rest)) :
    ∃ packets', packets = p :: packets' ∧ Aligned rest packets' := by
  obtain ⟨lengthBytes, hlen, hp, hcontent⟩ := read_ok h
  obtain ⟨tail, htail⟩ := haligned
  rw [hcontent] at htail
  cases packets with
  | nil => simp at htail
  | cons q packets =>
    have hq : q.length ≤ 65535 := hsize q List.mem_cons_self
    simp only [List.flatMap_cons, frame, List.cons_append, List.append_assoc] at htail
    obtain ⟨hlengths, hrest⟩ := List.append_inj (List.cons.inj htail).2 (by simp [hlen])
    rw [hlengths, BigEndian.decode_encode, Nat.mod_eq_of_lt (by omega)] at hp
    obtain ⟨hpq, hframes⟩ := List.append_inj hrest hp
    refine ⟨packets, by rw [hpq], tail, ?_⟩
    simpa using hframes

theorem Aligned.of_content {conn rest : List Piece} {packets : List Bytes}
    (haligned : Aligned conn packets) (h : content rest = content conn ∨ content rest = []) :
    Aligned rest packets := by
  unfold Aligned
  rcases h with h | h
  · rw [h]
    exact haligned
  · rw [h]
    exact List.nil_prefix

def Follows (packets : List Bytes) (r : Receiver) (outs : List Bytes) : Prop :=
  ∃ remaining, packets = outs ++ remaining ∧ (r.broken = false → Aligned r.conn remaining)

theorem step_follows {packets outs out : List Bytes} {r r' : Receiver} {len : ℕ}
    (hsize : ∀ q ∈ packets, q.length ≤ 65535) (hfollows : Follows packets r outs)
    (hbroken : r.broken = false) (h : step r len = some (r', out)) :
    Follows packets r' (outs ++ out) := by
  obtain ⟨remaining, rfl, haligned⟩ := hfollows
  have hbefore := haligned hbroken
  unfold step at h
  split at h
  · rename_i p rest hread
    cases h
    have hremaining : ∀ q ∈ remaining, q.length ≤ 65535 :=
      fun q hq => hsize q (List.mem_append_right _ hq)
    obtain ⟨packets', rfl, hafter⟩ := read_aligned hremaining hbefore hread
    exact ⟨packets', by simp, fun _ => hafter⟩
  · rename_i rest hread
    cases h
    refine ⟨remaining, by simp, ?_⟩
    intro hunbroken
    apply hbefore.of_content
    by_contra hcontent
    rw [not_or] at hcontent
    simp [hcontent] at hunbroken

/-- However the stream is cut, the packets returned are the first ones written, as long as
`Read` is not called again on a stream that a failed call has left within a frame. -/
theorem reads_packets {packets written outs : List Bytes} {conn : List Piece} {lens : List ℕ}
    {r : Receiver} (hwrite : packets.mapM write = .ok written)
    (hconn : content conn <+: written.flatten)
    (h : Machine.Reaches step (fun r _ => r.broken = false) ⟨conn, false⟩ lens outs r) :
    outs <+: packets := by
  obtain ⟨hsize, rfl⟩ := writes_ok_iff.mp hwrite
  rw [← List.flatMap_def] at hconn
  have hinit : Follows packets ⟨conn, false⟩ [] := ⟨packets, rfl, fun _ => hconn⟩
  have hfollows : Follows packets r outs := by
    refine h.invariant hinit ?_
    intro s outs len s' out hinv hbroken hs
    exact step_follows hsize hinv hbroken hs
  obtain ⟨remaining, hpackets, -⟩ := hfollows
  exact ⟨remaining, hpackets.symm⟩

/-- Two packets, cut within the first, and a deadline between them. -/
theorem cut_stream_reads_packets :
    ∃ r, Machine.Reaches step (fun r _ => r.broken = false)
      ⟨[.bytes [0, 0, 2, 65], .bytes [66, 255], .deadline, .bytes [0, 0, 0, 255]], false⟩
      [4, 4, 4] [[65, 66], []] r ∧ [[65, 66], []] <+: ([[65, 66], []] : List Bytes) := by
  have hrun : Machine.Reaches step (fun r _ => decide (r.broken = false) = true)
      ⟨[.bytes [0, 0, 2, 65], .bytes [66, 255], .deadline, .bytes [0, 0, 0, 255]], false⟩
      [4, 4, 4] [[65, 66], []] ⟨[.bytes []], false⟩ :=
    Machine.reaches_of_guarded_run rfl
  have hreach := hrun.mono fun _ _ h => of_decide_eq_true h
  exact ⟨_, hreach, reads_packets rfl (by decide) hreach⟩

/-- A buffer that is too small for the packet leaves its content on the stream, where the
next call takes it for a frame. -/
theorem short_buffer_reads_content :
    write [0, 0, 1, 65, 255] = .ok (frame [0, 0, 1, 65, 255]) ∧
      ((read 4).run [.bytes (frame [0, 0, 1, 65, 255])]).1 = .error .shortBuffer ∧
      ∃ r, Machine.Reaches step Machine.Free ⟨[.bytes (frame [0, 0, 1, 65, 255])], false⟩
        [4, 16] [[65]] r ∧ ¬ [[65]] <+: ([[0, 0, 1, 65, 255]] : List Bytes) :=
  ⟨rfl, rfl, _, Machine.reaches_of_run rfl, by decide⟩

end PacketOverStreamTunnel

end Mieru.Common
