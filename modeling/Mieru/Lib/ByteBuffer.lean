import Mathlib.Tactic.Common

/-! # Filling a fixed buffer piece by piece

`copyAt` overwrites part of a buffer. A buffer that was filled from the front without
a gap holds the concatenation of the pieces, whatever it held before. -/
namespace ByteBuffer

variable {α : Type*}

/-- `copy(buf[offset:], data)`: what does not fit is left out. -/
def copyAt (buf : List α) (offset : ℕ) (data : List α) : List α :=
  buf.take offset ++ data.take (buf.length - offset) ++ buf.drop (offset + data.length)

/-- The buffer has `size` places, and the first ones hold `written`. -/
structure Holds (buf : List α) (size : ℕ) (written : List α) : Prop where
  length_eq : buf.length = size
  front : written <+: buf

theorem holds_nil (buf : List α) : Holds buf buf.length [] := ⟨rfl, List.nil_prefix⟩

theorem Holds.copyAt {buf written : List α} {size : ℕ} (h : Holds buf size written)
    (data : List α) (hfit : written.length + data.length ≤ size) :
    Holds (copyAt buf written.length data) size (written ++ data) := by
  obtain ⟨rfl, rest, rfl⟩ := h
  rw [List.length_append] at hfit
  have htake : data.take ((written ++ rest).length - written.length) = data := by
    apply List.take_of_length_le
    rw [List.length_append]
    omega
  constructor
  · simp only [ByteBuffer.copyAt, List.length_append, List.length_take, List.length_drop]
    omega
  · rw [ByteBuffer.copyAt, htake, List.take_left]
    exact List.prefix_append _ _

theorem Holds.left {buf first second : List α} {size : ℕ}
    (h : Holds buf size (first ++ second)) : Holds buf size first :=
  ⟨h.length_eq, (List.prefix_append _ _).trans h.front⟩

theorem Holds.slice {buf first second : List α} {size : ℕ}
    (h : Holds buf size (first ++ second)) :
    (buf.drop first.length).take second.length = second := by
  obtain ⟨-, rest, rfl⟩ := h
  rw [List.append_assoc, List.drop_left, List.take_left]

theorem Holds.eq {buf written : List α} {size : ℕ} (h : Holds buf size written)
    (hfull : written.length = size) : buf = written :=
  (h.front.eq_of_length (hfull.trans h.length_eq.symm)).symm

end ByteBuffer
