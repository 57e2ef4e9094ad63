import Mathlib.Tactic.Common

/-! # Byte streams that arrive in pieces

A reader that waits for a number of bytes sees neither how the bytes were cut on the way
nor how they were sent. It does see the deadlines that pass while it waits. -/
namespace PieceStream

inductive Piece where
  | bytes (b : List UInt8)
  | deadline
  deriving DecidableEq

inductive Stop where
  | eof
  | timeout
  deriving DecidableEq, Repr

/-- What was there when the reader had to give up. -/
structure Short where
  got : List UInt8
  stop : Stop
  rest : List Piece

def readFull : ℕ → List Piece → Except Short (List UInt8 × List Piece)
  | 0, ps => .ok ([], ps)
  | _ + 1, [] => .error ⟨[], .eof, []⟩
  | _ + 1, .deadline :: ps => .error ⟨[], .timeout, ps⟩
  | n + 1, .bytes b :: ps =>
    if n + 1 ≤ b.length then .ok (b.take (n + 1), .bytes (b.drop (n + 1)) :: ps)
    else
      match readFull (n + 1 - b.length) ps with
      | .ok (got, rest) => .ok (b ++ got, rest)
      | .error short => .error { short with got := b ++ short.got }

/-- What counts of a piece: bytes one by one, and deadlines as `none`. -/
def Piece.symbols : Piece → List (Option UInt8)
  | .bytes b => b.map some
  | .deadline => [none]

def symbols (ps : List Piece) : List (Option UInt8) := ps.flatMap Piece.symbols

theorem split_bytes {b bs : List UInt8} {s tail : List (Option UInt8)}
    (h : b.map some ++ s = bs.map some ++ tail) :
    (∃ more, bs = b ++ more ∧ s = more.map some ++ tail) ∨
      ∃ more, b = bs ++ more ∧ tail = more.map some ++ s := by
  induction b generalizing bs with
  | nil => exact .inl ⟨bs, rfl, h⟩
  | cons x b ih =>
    cases bs with
    | nil => exact .inr ⟨x :: b, rfl, h.symm⟩
    | cons y bs =>
      obtain ⟨hxy, hrest⟩ := List.cons.inj h
      cases hxy
      rcases ih hrest with ⟨more, rfl, hs⟩ | ⟨more, rfl, hs⟩
      · exact .inl ⟨more, rfl, hs⟩
      · exact .inr ⟨more, rfl, hs⟩

theorem readFull_append {b : List UInt8} {n : ℕ} (hn : 0 < n) (ps : List Piece) :
    readFull (b.length + n) (.bytes b :: ps) =
      match readFull n ps with
      | .ok (got, rest) => .ok (b ++ got, rest)
      | .error short => .error { short with got := b ++ short.got } := by
  obtain ⟨m, hm⟩ : ∃ m, b.length + n = m + 1 := ⟨b.length + n - 1, by omega⟩
  rw [hm, readFull, if_neg (by omega), show m + 1 - b.length = n by omega]

theorem readFull_ok {ps : List Piece} {bs : List UInt8} {tail : List (Option UInt8)}
    (h : symbols ps = bs.map some ++ tail) :
    ∃ rest, readFull bs.length ps = .ok (bs, rest) ∧ symbols rest = tail := by
  induction ps generalizing bs with
  | nil =>
    obtain ⟨hbs, htail⟩ := List.append_eq_nil_iff.mp h.symm
    rw [List.map_eq_nil_iff.mp hbs]
    exact ⟨[], rfl, htail.symm⟩
  | cons p ps ih =>
    cases bs with
    | nil => exact ⟨p :: ps, rfl, h⟩
    | cons x bs =>
      cases p with
      | deadline => cases h
      | bytes b =>
        rcases split_bytes h with ⟨more, hbs, hps⟩ | ⟨more, rfl, htail⟩
        · cases more with
          | nil =>
            rw [List.append_nil] at hbs
            subst hbs
            refine ⟨.bytes [] :: ps, ?_, hps⟩
            simp [readFull]
          | cons y more =>
            obtain ⟨rest, hread, hrest⟩ := ih hps
            refine ⟨rest, ?_, hrest⟩
            rw [hbs, List.length_append, readFull_append (by simp), hread]
        · refine ⟨.bytes more :: ps, ?_, htail.symm⟩
          have hle : bs.length + 1 ≤ (x :: bs ++ more).length := by simp
          rw [List.length_cons, readFull, if_pos hle, ← List.length_cons (a := x), List.take_left,
            List.drop_left]

theorem readFull_timeout {ps : List Piece} {bs : List UInt8} {tail : List (Option UInt8)} {n : ℕ}
    (h : symbols ps = bs.map some ++ none :: tail) (hn : bs.length < n) :
    ∃ rest, readFull n ps = .error ⟨bs, .timeout, rest⟩ ∧ symbols rest = tail := by
  induction ps generalizing bs n with
  | nil => simp [symbols] at h
  | cons p ps ih =>
    obtain ⟨m, rfl⟩ : ∃ m, n = m + 1 := ⟨n - 1, by omega⟩
    cases p with
    | deadline =>
      cases bs with
      | nil => exact ⟨ps, rfl, (List.cons.inj h).2⟩
      | cons x bs => cases h
    | bytes b =>
      obtain ⟨more, rfl, hps⟩ : ∃ more, bs = b ++ more ∧
          symbols ps = more.map some ++ none :: tail := by
        rcases split_bytes h with hmore | ⟨more, rfl, htail⟩
        · exact hmore
        · cases more with
          | nil => exact ⟨[], by simp, htail.symm⟩
          | cons y more => cases htail
      rw [List.length_append] at hn
      obtain ⟨rest, hread, hrest⟩ := ih hps (n := m + 1 - b.length) (by omega)
      refine ⟨rest, ?_, hrest⟩
      have hsplit : m + 1 = b.length + (m + 1 - b.length) := by omega
      rw [hsplit, readFull_append (by omega), hread]

theorem readFull_eof {ps : List Piece} {bs : List UInt8} {n : ℕ}
    (h : symbols ps = bs.map some) (hn : bs.length < n) :
    readFull n ps = .error ⟨bs, .eof, []⟩ := by
  induction ps generalizing bs n with
  | nil =>
    rw [List.map_eq_nil_iff.mp h.symm]
    obtain ⟨m, rfl⟩ : ∃ m, n = m + 1 := ⟨n - 1, by omega⟩
    rfl
  | cons p ps ih =>
    cases p with
    | deadline =>
      cases bs with
      | nil => cases h
      | cons x bs => cases h
    | bytes b =>
      obtain ⟨more, rfl, hps⟩ : ∃ more, bs = b ++ more ∧ symbols ps = more.map some := by
        rcases split_bytes (h.trans (List.append_nil _).symm) with ⟨more, hbs, hps⟩ |
          ⟨more, hb, hps⟩
        · exact ⟨more, hbs, hps.trans (List.append_nil _)⟩
        · obtain ⟨hmore, hnil⟩ := List.append_eq_nil_iff.mp hps.symm
          rw [List.map_eq_nil_iff.mp hmore, List.append_nil] at hb
          exact ⟨[], by rw [hb, List.append_nil], hnil⟩
      rw [List.length_append] at hn
      have hread := ih hps (n := n - b.length) (by omega)
      have hsplit : n = b.length + (n - b.length) := by omega
      rw [hsplit, readFull_append (by omega), hread]

def content (ps : List Piece) : List UInt8 := (symbols ps).filterMap id

@[simp] theorem content_nil : content [] = [] := rfl

@[simp] theorem content_bytes (b : List UInt8) (ps : List Piece) :
    content (.bytes b :: ps) = b ++ content ps := by
  simp [content, symbols, Piece.symbols]

@[simp] theorem content_deadline (ps : List Piece) : content (.deadline :: ps) = content ps := rfl

theorem content_of_readFull {n : ℕ} {ps rest : List Piece} {got : List UInt8}
    (h : readFull n ps = .ok (got, rest)) : got.length = n ∧ content ps = got ++ content rest := by
  induction ps generalizing n got with
  | nil =>
    cases n with
    | zero =>
      cases h
      exact ⟨rfl, rfl⟩
    | succ n => cases h
  | cons p ps ih =>
    cases n with
    | zero =>
      cases h
      exact ⟨rfl, rfl⟩
    | succ n =>
      cases p with
      | deadline => cases h
      | bytes b =>
        unfold readFull at h
        split_ifs at h with hle
        · cases h
          refine ⟨List.length_take_of_le hle, ?_⟩
          rw [content_bytes, content_bytes, ← List.append_assoc, List.take_append_drop]
        · split at h
          · rename_i more rest' hread
            cases h
            obtain ⟨hlen, hcontent⟩ := ih hread
            refine ⟨?_, ?_⟩
            · rw [List.length_append, hlen]
              omega
            · rw [content_bytes, hcontent, List.append_assoc]
          · cases h

/-- Frames one after the other; deadlines pass between them only. -/
inductive Carries : List (List UInt8) → List (Option UInt8) → Prop
  | done : Carries [] []
  | wait {fs : List (List UInt8)} {s : List (Option UInt8)} :
      Carries fs s → Carries fs (none :: s)
  | frame {f : List UInt8} {fs : List (List UInt8)} {s : List (Option UInt8)} :
      Carries fs s → Carries (f :: fs) (f.map some ++ s)

theorem carries_flatten (fs : List (List UInt8)) : Carries fs (fs.flatten.map some) := by
  induction fs with
  | nil => exact .done
  | cons f fs ih =>
    rw [List.flatten_cons, List.map_append]
    exact .frame ih

end PieceStream
