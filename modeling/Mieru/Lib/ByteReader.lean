import Mieru.Lib.Result

/-! # Readers of byte streams

A reader takes bytes from the front of a stream that then ends. `Consumes` says
that its result depends only on the bytes it took, so these bytes alone, or in
front of any other tail, are read in the same way. -/
namespace ByteReader

open Result

inductive ReadError where
  | eof
  | unexpectedEOF
  | failed (message : String)
  deriving DecidableEq

def ReadError.text : ReadError → String
  | .eof => "EOF"
  | .unexpectedEOF => "unexpected EOF"
  | .failed message => message

def Reader (α : Type) : Type := List UInt8 → Except ReadError (α × List UInt8)

variable {α β : Type}

instance : Monad Reader where
  pure a := fun bs => .ok (a, bs)
  bind p f := fun bs => p bs >>= fun r => f r.1 r.2

def fail (e : ReadError) : Reader α := fun _ => .error e

/-- `io.ReadFull`: a short stream is `EOF` only if nothing at all was read. -/
def readFull (n : ℕ) : Reader (List UInt8) := fun bs =>
  if n ≤ bs.length then .ok (bs.take n, bs.drop n)
  else if bs = [] then .error .eof
  else .error .unexpectedEOF

def readByte : Reader UInt8 := do
  let b ← readFull 1
  return b.headD 0

def Consumes (p : Reader α) : Prop :=
  ∀ bs a rest, p bs = .ok (a, rest) →
    ∃ raw, bs = raw ++ rest ∧ ∀ rest', p (raw ++ rest') = .ok (a, rest')

theorem bind_run (p : Reader α) (f : α → Reader β) (bs : List UInt8) :
    (p >>= f) bs = p bs >>= fun r => f r.1 r.2 := rfl

theorem pure_run (a : α) (bs : List UInt8) : (pure a : Reader α) bs = .ok (a, bs) := rfl

theorem consumes_pure (a : α) : Consumes (pure a : Reader α) := by
  intro bs b rest h
  cases h
  exact ⟨[], rfl, fun rest' => rfl⟩

theorem consumes_fail (e : ReadError) : Consumes (fail e : Reader α) := by
  intro bs b rest h
  cases h

theorem consumes_readFull (n : ℕ) : Consumes (readFull n) := by
  intro bs a rest h
  unfold readFull at h
  split_ifs at h with hn
  cases h
  refine ⟨bs.take n, (List.take_append_drop n bs).symm, ?_⟩
  intro rest'
  have hlen : (bs.take n).length = n := by simp [hn]
  simp only [readFull, List.length_append, hlen, List.take_left' hlen, List.drop_left' hlen]
  simp

theorem readFull_append {n : ℕ} {got : List UInt8} (h : got.length = n) (rest : List UInt8) :
    readFull n (got ++ rest) = .ok (got, rest) := by
  simp [readFull, ← h]

theorem readByte_cons (b : UInt8) (rest : List UInt8) : readByte (b :: rest) = .ok (b, rest) := rfl

theorem consumes_bind {p : Reader α} {f : α → Reader β} (hp : Consumes p)
    (hf : ∀ a, Consumes (f a)) : Consumes (p >>= f) := by
  intro bs b rest h
  rw [bind_run] at h
  obtain ⟨⟨a, mid⟩, ha, hb⟩ := bind_eq_ok.mp h
  obtain ⟨raw, rfl, hraw⟩ := hp bs a mid ha
  obtain ⟨raw', rfl, hraw'⟩ := hf a mid b rest hb
  refine ⟨raw ++ raw', by simp, ?_⟩
  intro rest'
  rw [bind_run, List.append_assoc, hraw, ok_bind]
  exact hraw' rest'

theorem consumes_ite {c : Prop} [Decidable c] {p q : Reader α} (hp : Consumes p)
    (hq : Consumes q) : Consumes (if c then p else q) := by
  by_cases hc : c
  · rwa [if_pos hc]
  · rwa [if_neg hc]

theorem consumes_readByte : Consumes readByte :=
  consumes_bind (consumes_readFull 1) fun _ => consumes_pure _

/-- What a `TeeReader` around the reader collects. -/
def consumed (bs rest : List UInt8) : List UInt8 := bs.take (bs.length - rest.length)

theorem consumed_append (raw rest : List UInt8) : consumed (raw ++ rest) rest = raw := by
  simp [consumed]

end ByteReader
