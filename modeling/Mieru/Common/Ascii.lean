import Mathlib.Data.Set.Finite.Lattice
import Mieru.Cipher.Nonce

/-! # Printable bytes

`ToPrintableChar` first clears the high bit where this gives a printable byte and counts the
bytes that are left. It then draws that many random characters in batches and writes each one
over the next byte that is not printable. The second pass has no bound of its own: it ends in
the range because it looks for no more bytes than were counted. -/
namespace Mieru.Common

open Cipher Result

def printableUint16Limit : ℕ := 2 ^ 16 - 2 ^ 16 % printableCharLen
def printableRandBatch : ℕ := 128

/-- A byte slice, with the indices that were used on it. -/
structure Buffer where
  b : List UInt8
  indexed : List ℕ := []

namespace Buffer

def load (s : Buffer) (i : ℕ) : Except Fault (UInt8 × Buffer) :=
  match s.b[i]? with
  | none => .error (.panicked "index out of range")
  | some c => .ok (c, { s with indexed := s.indexed ++ [i] })

def store (s : Buffer) (i : ℕ) (c : UInt8) : Except Fault Buffer :=
  if i < s.b.length then .ok { b := s.b.set i c, indexed := s.indexed ++ [i] }
  else .error (.panicked "index out of range")

end Buffer

/-- The first pass from `i` on, over `left` bytes. -/
def keepLowBits : ℕ → ℕ → ℕ → Buffer → Except Fault (ℕ × Buffer)
  | 0, _, randCount, s => .ok (randCount, s)
  | left + 1, i, randCount, s => do
    let (c, s) ← s.load i
    if isPrintable c then keepLowBits left (i + 1) randCount s
    else if c &&& 0x80 > 0 ∧ isPrintable (c &&& 0x7F) then
      let s ← s.store i (c &&& 0x7F)
      keepLowBits left (i + 1) randCount s
    else keepLowBits left (i + 1) (randCount + 1) s

/-- `left` is the number of bytes from `next` on. -/
def skipPrintable : ℕ → ℕ → Buffer → Except Fault (ℕ × Buffer)
  | 0, _, _ => .error (.panicked "index out of range")
  | left + 1, next, s => do
    let (c, s) ← s.load next
    if isPrintable c then skipPrintable left (next + 1) s else .ok (next, s)

def drawAt (rand : ℕ → UInt8) (k : ℕ) : ℕ := (rand (2 * k)).toNat * 256 + (rand (2 * k + 1)).toNat

def drawBatch (rand : ℕ → UInt8) : ℕ → ℕ → ℕ → ℕ → Buffer → Except Fault (ℕ × ℕ × Buffer)
  | 0, _, next, randCount, s => .ok (next, randCount, s)
  | left + 1, drawn, next, randCount, s =>
    let r := drawAt rand drawn
    if r ≥ printableUint16Limit then drawBatch rand left (drawn + 1) next randCount s
    else do
      let (next, s) ← skipPrintable (s.b.length - next) next s
      let s ← s.store next (UInt8.ofNat (r % printableCharLen + printableCharSub))
      drawBatch rand left (drawn + 1) (next + 1) (randCount - 1) s

/-- The second pass; `none` if it is not done after `batches` batches. -/
def fillRandom (rand : ℕ → UInt8) : ℕ → ℕ → ℕ → ℕ → Buffer → Except Fault (Option Buffer)
  | _, _, _, 0, s => .ok (some s)
  | 0, _, _, _ + 1, _ => .ok none
  | batches + 1, drawn, next, randCount + 1, s => do
    let drawCount := min (randCount + 1) printableRandBatch
    let (next, randCount, s) ← drawBatch rand drawCount drawn next (randCount + 1) s
    fillRandom rand batches (drawn + drawCount) next randCount s

def toPrintableChar (b : List UInt8) (beginIdx endIdx : ℕ) (rand : ℕ → UInt8) (batches : ℕ) :
    Except Fault (Option Buffer) := do
  ensure (beginIdx ≤ endIdx) (.panicked "begin index > end index")
  ensure (endIdx ≤ b.length) (.panicked "index out of range")
  let (randCount, s) ← keepLowBits (endIdx - beginIdx) beginIdx 0 { b := b }
  fillRandom rand batches 0 beginIdx randCount s

/-! ## What a pass may touch -/

structure Touches (lo hi : ℕ) (s s' : Buffer) : Prop where
  length : s'.b.length = s.b.length
  outside : ∀ i : ℕ, ¬(lo ≤ i ∧ i < hi) → s'.b[i]? = s.b[i]?
  indexed : ∀ i ∈ s'.indexed, i ∈ s.indexed ∨ (lo ≤ i ∧ i < hi)

namespace Touches

variable {lo lo' hi hi' : ℕ} {s s' s'' : Buffer}

theorem refl (lo hi : ℕ) (s : Buffer) : Touches lo hi s s :=
  ⟨rfl, fun _ _ => rfl, fun _ hi => .inl hi⟩

theorem trans (h : Touches lo hi s s') (h' : Touches lo hi s' s'') : Touches lo hi s s'' := by
  refine ⟨h'.length.trans h.length, ?_, ?_⟩
  · intro i hi
    exact (h'.outside i hi).trans (h.outside i hi)
  · intro i hi
    rcases h'.indexed i hi with hi | hi
    · exact h.indexed i hi
    · exact .inr hi

theorem mono (h : Touches lo' hi' s s') (hlo : lo ≤ lo') (hhi : hi' ≤ hi) :
    Touches lo hi s s' := by
  have hwithin (i : ℕ) : lo' ≤ i ∧ i < hi' → lo ≤ i ∧ i < hi :=
    fun hin => ⟨hlo.trans hin.1, hin.2.trans_le hhi⟩
  refine ⟨h.length, ?_, ?_⟩
  · intro i hout
    exact h.outside i fun hin => hout (hwithin i hin)
  · intro i hi
    exact (h.indexed i hi).imp_right (hwithin i)

end Touches

namespace Buffer

variable {lo hi i : ℕ} {s : Buffer} {c : UInt8}

theorem load_eq (h : s.b[i]? = some c) :
    s.load i = .ok (c, { s with indexed := s.indexed ++ [i] }) := by
  unfold load
  rw [h]

theorem store_eq (h : i < s.b.length) (c : UInt8) :
    s.store i c = .ok { b := s.b.set i c, indexed := s.indexed ++ [i] } :=
  if_pos h

theorem touches_load (hlo : lo ≤ i) (hhi : i < hi) :
    Touches lo hi s { s with indexed := s.indexed ++ [i] } := by
  refine ⟨rfl, fun _ _ => rfl, ?_⟩
  intro j hj
  rcases List.mem_append.mp hj with hj | hj
  · exact .inl hj
  · rw [List.mem_singleton.mp hj]
    exact .inr ⟨hlo, hhi⟩

theorem touches_store (hlo : lo ≤ i) (hhi : i < hi) :
    Touches lo hi s { b := s.b.set i c, indexed := s.indexed ++ [i] } := by
  refine ⟨List.length_set, ?_, (touches_load hlo hhi).indexed⟩
  intro j hj
  refine List.getElem?_set_ne ?_
  rintro rfl
  exact hj ⟨hlo, hhi⟩

end Buffer

/-! ## Bytes that are left -/

def pending (b : List UInt8) (lo hi : ℕ) : ℕ :=
  ((b.take hi).drop lo).countP fun c => !isPrintable c

section Pending

variable {b : List UInt8} {lo hi : ℕ} {c : UInt8}

theorem pending_empty (b : List UInt8) (h : hi ≤ lo) : pending b lo hi = 0 := by
  unfold pending
  rw [List.drop_eq_nil_of_le (le_trans (List.length_take_le _ _) h)]
  rfl

theorem pending_cons (hlt : lo < hi) (hc : b[lo]? = some c) :
    pending b lo hi = pending b (lo + 1) hi + if isPrintable c then 0 else 1 := by
  have hget : (b.take hi)[lo]? = some c := by rw [List.getElem?_take_of_lt hlt, hc]
  obtain ⟨hlen, rfl⟩ := List.getElem?_eq_some_iff.mp hget
  unfold pending
  rw [List.drop_eq_getElem_cons hlen, List.countP_cons]
  cases isPrintable (b.take hi)[lo] <;> rfl

theorem pending_congr {b' : List UInt8} (h : ∀ i, lo ≤ i → b'[i]? = b[i]?) :
    pending b' lo hi = pending b lo hi := by
  unfold pending
  congr 1
  apply List.ext_getElem?
  intro i
  rw [List.getElem?_drop, List.getElem?_drop, List.getElem?_take, List.getElem?_take,
    h (lo + i) (Nat.le_add_right lo i)]

theorem printable_of_pending_zero (h : pending b lo hi = 0) {i : ℕ} (hlo : lo ≤ i) (hhi : i < hi)
    (hc : b[i]? = some c) : isPrintable c = true := by
  have hmem : c ∈ (b.take hi).drop lo := by
    apply List.mem_of_getElem? (i := i - lo)
    rw [List.getElem?_drop, Nat.add_sub_cancel' hlo, List.getElem?_take_of_lt hhi, hc]
  simpa using List.countP_eq_zero.mp h c hmem

end Pending

/-! ## The passes -/

def lowBits (c : UInt8) : UInt8 :=
  if isPrintable c = false ∧ c &&& 0x80 > 0 ∧ isPrintable (c &&& 0x7F) then c &&& 0x7F else c

theorem lowBits_of_low {c : UInt8} (h : isPrintable (c &&& 0x7F) = true) :
    lowBits c = c &&& 0x7F := by
  have hall : ∀ i : Fin 256, isPrintable (UInt8.ofFin i &&& 0x7F) = true →
      lowBits (UInt8.ofFin i) = UInt8.ofFin i &&& 0x7F := by decide +kernel
  exact hall c.toFin h

theorem lowBits_of_printable {c : UInt8} (h : isPrintable c = true) : lowBits c = c := by
  simp [lowBits, h]

theorem keepLowBits_succ (left i randCount : ℕ) {s : Buffer} {c : UInt8} (hc : s.b[i]? = some c) :
    ∃ s₁, keepLowBits (left + 1) i randCount s = keepLowBits left (i + 1)
        (randCount + if isPrintable (lowBits c) then 0 else 1) s₁ ∧
      Touches i (i + 1) s s₁ ∧ s₁.b[i]? = some (lowBits c) := by
  have hlt : i < s.b.length := (List.getElem?_eq_some_iff.mp hc).1
  have hload := Buffer.touches_load (s := s) (le_refl i) (Nat.lt_succ_self i)
  simp only [keepLowBits, Buffer.load_eq hc, ok_bind]
  by_cases hprint : isPrintable c = true
  · rw [if_pos hprint, lowBits_of_printable hprint, if_pos hprint]
    exact ⟨_, rfl, hload, hc⟩
  · rw [if_neg hprint]
    by_cases hlow : c &&& 0x80 > 0 ∧ isPrintable (c &&& 0x7F) = true
    · have hbyte : lowBits c = c &&& 0x7F := if_pos ⟨Bool.eq_false_iff.mpr hprint, hlow⟩
      have hstored := Buffer.store_eq (s := { s with indexed := s.indexed ++ [i] }) hlt (c &&& 0x7F)
      rw [if_pos hlow, hstored, ok_bind, hbyte, if_pos hlow.2]
      refine ⟨_, rfl, hload.trans (Buffer.touches_store (le_refl i) (Nat.lt_succ_self i)), ?_⟩
      exact List.getElem?_set_self hlt
    · have hbyte : lowBits c = c := if_neg fun h => hlow h.2
      rw [if_neg hlow, hbyte, if_neg hprint]
      exact ⟨_, rfl, hload, hc⟩

theorem keepLowBits_ok (left i randCount : ℕ) (s : Buffer) (hlen : i + left ≤ s.b.length) :
    ∃ s', keepLowBits left i randCount s = .ok (randCount + pending s'.b i (i + left), s') ∧
      Touches i (i + left) s s' ∧
      ∀ k c, i ≤ k → k < i + left → s.b[k]? = some c → s'.b[k]? = some (lowBits c) := by
  induction left generalizing i randCount s with
  | zero =>
    refine ⟨s, ?_, Touches.refl _ _ _, ?_⟩
    · rw [Nat.add_zero, pending_empty s.b (le_refl i)]
      rfl
    · intro k c hk hk'
      omega
  | succ left ih =>
    obtain ⟨c, hc⟩ : ∃ c, s.b[i]? = some c := ⟨_, List.getElem?_eq_getElem (by omega)⟩
    obtain ⟨s₁, hround, htouch, hnew⟩ := keepLowBits_succ left i randCount hc
    obtain ⟨s', hrun, htouch', hbits⟩ := ih (i + 1) _ s₁ (by rw [htouch.length]; omega)
    rw [show i + 1 + left = i + (left + 1) by omega] at hrun htouch' hbits
    have hkept : s'.b[i]? = some (lowBits c) := by
      rw [htouch'.outside i (by omega), hnew]
    refine ⟨s', ?_, ?_, ?_⟩
    · rw [hround, hrun, pending_cons (by omega) hkept]
      congr 2
      omega
    · exact (htouch.mono (le_refl i) (by omega)).trans (htouch'.mono (by omega) (le_refl _))
    · intro k d hk hk' hd
      rcases Nat.eq_or_lt_of_le hk with rfl | hlt
      · rw [hc] at hd
        rw [hkept, Option.some.inj hd]
      · exact hbits k d hlt hk' ((htouch.outside k (by omega)).trans hd)

theorem skipPrintable_ok (left next hi : ℕ) (s : Buffer) (hleft : next + left = s.b.length)
    (hhi : hi ≤ s.b.length) (hpending : 0 < pending s.b next hi) :
    ∃ next' s', skipPrintable left next s = .ok (next', s') ∧ s'.b = s.b ∧
      Touches next hi s s' ∧ next ≤ next' ∧ next' < hi ∧
      pending s.b next hi = pending s.b (next' + 1) hi + 1 ∧
      (∀ c, s.b[next']? = some c → isPrintable c = false) ∧
      ∀ k c, next ≤ k → k < next' → s.b[k]? = some c → isPrintable c = true := by
  induction left generalizing next s with
  | zero =>
    rw [pending_empty _ (by omega)] at hpending
    omega
  | succ left ih =>
    have hlt : next < hi := by
      by_contra hge
      rw [pending_empty _ (by omega)] at hpending
      omega
    obtain ⟨c, hc⟩ : ∃ c, s.b[next]? = some c := ⟨_, List.getElem?_eq_getElem (by omega)⟩
    have hload := Buffer.touches_load (s := s) (le_refl next) hlt
    have hcount := pending_cons hlt hc
    simp only [skipPrintable, Buffer.load_eq hc, ok_bind]
    by_cases hprint : isPrintable c = true
    · rw [if_pos hprint]
      rw [if_pos hprint, Nat.add_zero] at hcount
      obtain ⟨next', s', hrun, hb, htouch, hle, hlt', hpend, hstop, hbytes⟩ :=
        ih (next + 1) { s with indexed := s.indexed ++ [next] } (by dsimp only; omega) hhi
          (hcount ▸ hpending)
      refine ⟨next', s', hrun, hb, hload.trans (htouch.mono (by omega) (le_refl hi)), by omega,
        hlt', hcount.trans hpend, hstop, ?_⟩
      intro k d hk hk' hd
      rcases Nat.eq_or_lt_of_le hk with rfl | hk
      · rw [hc] at hd
        exact Option.some.inj hd ▸ hprint
      · exact hbytes k d hk hk' hd
    · rw [if_neg hprint]
      rw [if_neg hprint] at hcount
      refine ⟨next, _, rfl, rfl, hload, le_refl next, hlt, hcount, ?_, ?_⟩
      · intro d hd
        rw [hc] at hd
        exact Option.some.inj hd ▸ Bool.eq_false_iff.mpr hprint
      · intro k d hk hk'
        omega

structure Filled (hi next next' : ℕ) (s s' : Buffer) : Prop where
  touches : Touches next hi s s'
  le : next ≤ next'
  printable : ∀ k c, next ≤ k → k < next' → s'.b[k]? = some c → isPrintable c = true
  kept : ∀ (k : ℕ) c, s.b[k]? = some c → isPrintable c = true → s'.b[k]? = some c
  ahead : ∀ k, next' ≤ k → s'.b[k]? = s.b[k]?

namespace Filled

variable {hi next mid next' : ℕ} {s s' s'' : Buffer}

theorem refl (hi next : ℕ) (s : Buffer) : Filled hi next next s s where
  touches := .refl _ _ _
  le := le_refl next
  printable := fun k c hk hk' => by omega
  kept := fun _ _ hc _ => hc
  ahead := fun _ _ => rfl

theorem trans (h : Filled hi next mid s s') (h' : Filled hi mid next' s' s'') :
    Filled hi next next' s s'' where
  touches := h.touches.trans (h'.touches.mono h.le (le_refl hi))
  le := h.le.trans h'.le
  printable := by
    intro k c hk hk' hc
    by_cases hmid : mid ≤ k
    · exact h'.printable k c hmid hk' hc
    · rw [h'.touches.outside k (by omega)] at hc
      exact h.printable k c hk (by omega) hc
  kept := fun k c hc hprint => h'.kept k c (h.kept k c hc hprint) hprint
  ahead := fun k hk => (h'.ahead k hk).trans (h.ahead k (h'.le.trans hk))

end Filled

theorem isPrintable_drawn (r : ℕ) :
    isPrintable (UInt8.ofNat (r % printableCharLen + printableCharSub)) = true := by
  have hall : ∀ k : Fin printableCharLen,
      isPrintable (UInt8.ofNat (k + printableCharSub)) = true := by
    decide
  exact hall ⟨r % printableCharLen, Nat.mod_lt r (by decide)⟩

theorem accepted_ok (r : ℕ) {next hi : ℕ} {s : Buffer} (hhi : hi ≤ s.b.length)
    (hpending : 0 < pending s.b next hi) :
    ∃ next' s₁ s', skipPrintable (s.b.length - next) next s = .ok (next', s₁) ∧
      s₁.store next' (UInt8.ofNat (r % printableCharLen + printableCharSub)) = .ok s' ∧
      Filled hi next (next' + 1) s s' ∧
      pending s.b next hi = pending s'.b (next' + 1) hi + 1 := by
  have hlt : next < hi := by
    by_contra hge
    rw [pending_empty _ (by omega)] at hpending
    omega
  obtain ⟨next', s₁, hskip, hb, htouch, hle, hlt', hpend, hstop, hbytes⟩ :=
    skipPrintable_ok (s.b.length - next) next hi s (by omega) hhi hpending
  have hin : next' < s₁.b.length := by rw [hb]; omega
  have hother : ∀ k, k ≠ next' →
      (s₁.b.set next' (UInt8.ofNat (r % printableCharLen + printableCharSub)))[k]? = s.b[k]? := by
    intro k hk
    rw [List.getElem?_set_ne (Ne.symm hk), hb]
  refine ⟨next', s₁, _, hskip, Buffer.store_eq hin _, ⟨?_, by omega, ?_, ?_, ?_⟩, ?_⟩
  · exact htouch.trans (Buffer.touches_store hle hlt')
  · intro k c hk hk' hc
    rcases Nat.eq_or_lt_of_le (Nat.le_of_lt_succ hk') with rfl | hbefore
    · rw [List.getElem?_set_self hin] at hc
      exact Option.some.inj hc ▸ isPrintable_drawn r
    · rw [hother k (by omega)] at hc
      exact hbytes k c hk hbefore hc
  · intro k c hc hprint
    rw [hother k, hc]
    rintro rfl
    rw [hstop c hc] at hprint
    cases hprint
  · intro k hk
    exact hother k (by omega)
  · rw [hpend, pending_congr fun k hk => hother k (by omega)]

theorem drawBatch_ok (rand : ℕ → UInt8) (left drawn next hi : ℕ) (s : Buffer)
    (hhi : hi ≤ s.b.length) (hleft : left ≤ pending s.b next hi) :
    ∃ next' s', drawBatch rand left drawn next (pending s.b next hi) s =
        .ok (next', pending s'.b next' hi, s') ∧ Filled hi next next' s s' ∧
      pending s'.b next' hi ≤ pending s.b next hi ∧
      ((∀ k, drawn ≤ k → drawAt rand k < printableUint16Limit) →
        pending s'.b next' hi + left = pending s.b next hi) := by
  induction left generalizing drawn next s with
  | zero => exact ⟨next, s, rfl, .refl _ _ _, le_refl _, fun _ => rfl⟩
  | succ left ih =>
    by_cases hreject : drawAt rand drawn ≥ printableUint16Limit
    · obtain ⟨next', s', hrun, hfill, hle, -⟩ := ih (drawn + 1) next s hhi (by omega)
      refine ⟨next', s', ?_, hfill, hle, ?_⟩
      · simp only [drawBatch, if_pos hreject]
        exact hrun
      · intro haccept
        exact absurd hreject (not_le.mpr (haccept drawn (le_refl drawn)))
    · obtain ⟨mid, s₁, s₂, hskip, hstore, hfill, hpend⟩ :=
        accepted_ok (drawAt rand drawn) hhi (show 0 < pending s.b next hi by omega)
      obtain ⟨next', s', hrun, hfill', hle, hall⟩ :=
        ih (drawn + 1) (mid + 1) s₂ (by rw [hfill.touches.length]; exact hhi) (by omega)
      refine ⟨next', s', ?_, hfill.trans hfill', by omega, ?_⟩
      · simp only [drawBatch, if_neg hreject, hskip, hstore, ok_bind]
        rw [hpend, Nat.add_sub_cancel]
        exact hrun
      · intro haccept
        have hrest := hall fun k hk => haccept k (by omega)
        omega

/-- Every batch uses up a draw that may be rejected, or fills a byte. -/
theorem fillRandom_ok (rand : ℕ → UInt8) {last : ℕ}
    (hlast : ∀ k, last ≤ k → drawAt rand k < printableUint16Limit) (batches drawn next hi : ℕ)
    (s : Buffer) (hhi : hi ≤ s.b.length)
    (henough : (last - drawn) + pending s.b next hi ≤ batches) :
    ∃ next' s', fillRandom rand batches drawn next (pending s.b next hi) s = .ok (some s') ∧
      Filled hi next next' s s' ∧ pending s'.b next' hi = 0 := by
  induction batches generalizing drawn next s with
  | zero =>
    have hzero : pending s.b next hi = 0 := by omega
    exact ⟨next, s, by rw [hzero]; rfl, .refl _ _ _, hzero⟩
  | succ batches ih =>
    cases hcount : pending s.b next hi with
    | zero => exact ⟨next, s, rfl, .refl _ _ _, hcount⟩
    | succ randCount =>
      have hdraws : 0 < min (randCount + 1) printableRandBatch :=
        lt_min (Nat.succ_pos _) (by decide)
      obtain ⟨mid, s₁, hbatch, hfill, hle, hall⟩ :=
        drawBatch_ok rand (min (randCount + 1) printableRandBatch) drawn next hi s hhi
          (hcount ▸ min_le_left _ _)
      have hless : (last - (drawn + min (randCount + 1) printableRandBatch)) +
          pending s₁.b mid hi ≤ batches := by
        by_cases hdrawn : last ≤ drawn
        · have hfewer := hall fun k hk => hlast k (hdrawn.trans hk)
          omega
        · omega
      obtain ⟨next', s', hrun, hfill', hdone⟩ :=
        ih _ mid s₁ (by rw [hfill.touches.length]; exact hhi) hless
      refine ⟨next', s', ?_, hfill.trans hfill', hdone⟩
      rw [hcount] at hbatch
      simp only [fillRandom, hbatch, ok_bind]
      exact hrun

theorem fillRandom_more {rand : ℕ → UInt8} {batches more drawn next randCount : ℕ} {s s' : Buffer}
    (h : fillRandom rand batches drawn next randCount s = .ok (some s')) (hle : batches ≤ more) :
    fillRandom rand more drawn next randCount s = .ok (some s') := by
  induction batches generalizing more drawn next randCount s with
  | zero =>
    cases randCount with
    | zero => simpa only [fillRandom] using h
    | succ randCount => cases h
  | succ batches ih =>
    cases randCount with
    | zero => simpa only [fillRandom] using h
    | succ randCount =>
      obtain ⟨more, rfl⟩ := Nat.exists_eq_add_of_lt (Nat.lt_of_succ_le hle)
      simp only [fillRandom] at h ⊢
      obtain ⟨⟨next, randCount, s⟩, hbatch, h⟩ := bind_eq_ok.mp h
      rw [hbatch, ok_bind]
      exact ih h (by omega)

structure MadePrintable (b : List UInt8) (beginIdx endIdx : ℕ) (s : Buffer) : Prop where
  length : s.b.length = b.length
  indexed : ∀ i ∈ s.indexed, beginIdx ≤ i ∧ i < endIdx
  outside : ∀ i : ℕ, ¬(beginIdx ≤ i ∧ i < endIdx) → s.b[i]? = b[i]?
  printable : ∀ i c, beginIdx ≤ i → i < endIdx → s.b[i]? = some c → isPrintable c = true
  kept : ∀ (i : ℕ) c, b[i]? = some c → isPrintable c = true → s.b[i]? = some c
  low : ∀ i c, beginIdx ≤ i → i < endIdx → b[i]? = some c → isPrintable (c &&& 0x7F) = true →
    s.b[i]? = some (c &&& 0x7F)

/-- If only finitely many draws are rejected, the call returns. -/
theorem toPrintableChar_ok {b : List UInt8} {beginIdx endIdx : ℕ} {rand : ℕ → UInt8}
    (hrange : beginIdx ≤ endIdx ∧ endIdx ≤ b.length)
    (hfinite : {k | printableUint16Limit ≤ drawAt rand k}.Finite) :
    ∃ batches s, (∀ n ≥ batches, toPrintableChar b beginIdx endIdx rand n = .ok (some s)) ∧
      MadePrintable b beginIdx endIdx s := by
  obtain ⟨last, hlast⟩ := hfinite.bddAbove
  have haccept : ∀ k, last + 1 ≤ k → drawAt rand k < printableUint16Limit := by
    intro k hk
    by_contra hreject
    have := hlast (not_lt.mp hreject)
    omega
  obtain ⟨s₁, hfirst, htouch, hlow⟩ := keepLowBits_ok (endIdx - beginIdx) beginIdx 0 { b := b }
    (by dsimp only; omega)
  rw [show beginIdx + (endIdx - beginIdx) = endIdx by omega] at hfirst htouch hlow
  obtain ⟨next, s, hrun, hfill, hdone⟩ := fillRandom_ok rand haccept
    (last + 1 + pending s₁.b beginIdx endIdx) 0 beginIdx endIdx s₁
    (by rw [htouch.length]; exact hrange.2) (le_refl _)
  have htouched := htouch.trans hfill.touches
  refine ⟨last + 1 + pending s₁.b beginIdx endIdx, s, ?_, htouched.length, ?_, htouched.outside, ?_,
    ?_, ?_⟩
  · intro n hn
    unfold toPrintableChar
    rw [ensure_true hrange.1, ok_bind, ensure_true hrange.2, ok_bind, hfirst, ok_bind, Nat.zero_add]
    exact fillRandom_more hrun hn
  · intro i hi
    exact (htouched.indexed i hi).resolve_left List.not_mem_nil
  · intro i c hlo hhi hc
    by_cases hnext : i < next
    · exact hfill.printable i c hlo hnext hc
    · exact printable_of_pending_zero hdone (not_lt.mp hnext) hhi hc
  · intro i c hc hprint
    by_cases hin : beginIdx ≤ i ∧ i < endIdx
    · have hsame := hlow i c hin.1 hin.2 hc
      rw [lowBits_of_printable hprint] at hsame
      exact hfill.kept i c hsame hprint
    · rw [htouched.outside i hin, hc]
  · intro i c hlo hhi hc hprint
    have hbyte := hlow i c hlo hhi hc
    rw [lowBits_of_low hprint] at hbyte
    exact hfill.kept i _ hbyte hprint

/-- Four bytes, of which the first is drawn and the third loses its high bit. -/
theorem toPrintableChar_four :
    (0 ≤ 3 ∧ 3 ≤ [0x01, 0x41, 0xC1, 0x02].length) ∧
      {k | printableUint16Limit ≤ drawAt (fun _ => 0) k}.Finite ∧
      ∃ batches s, (∀ n ≥ batches,
          toPrintableChar [0x01, 0x41, 0xC1, 0x02] 0 3 (fun _ => 0) n = .ok (some s)) ∧
        MadePrintable [0x01, 0x41, 0xC1, 0x02] 0 3 s := by
  have hrange : 0 ≤ 3 ∧ 3 ≤ [(0x01 : UInt8), 0x41, 0xC1, 0x02].length := by decide
  have hnone : {k | printableUint16Limit ≤ drawAt (fun _ => 0) k}.Finite := by
    have hzero (k : ℕ) : drawAt (fun _ => 0) k = 0 := by simp [drawAt]
    apply Set.Finite.subset Set.finite_empty
    intro k hk
    have hle : printableUint16Limit ≤ drawAt (fun _ => 0) k := hk
    rw [hzero] at hle
    exact absurd hle (by decide)
  exact ⟨hrange, hnone, toPrintableChar_ok hrange hnone⟩

/-! ## The nonce

`Cipher.toPrintableChar` takes a number for each byte it draws. What comes out here comes out
there for some numbers. -/

theorem drawn_of_printable {c : UInt8} (h : isPrintable c = true) :
    UInt8.ofNat ((c.toNat - printableCharSub) % printableCharLen + printableCharSub) = c := by
  have hall : ∀ i : Fin 256, isPrintable (UInt8.ofFin i) = true →
      UInt8.ofNat (((UInt8.ofFin i).toNat - printableCharSub) % printableCharLen +
        printableCharSub) = UInt8.ofFin i := by decide +kernel
  exact hall c.toFin h

theorem MadePrintable.nonce {nonce : Nonce} {beginIdx endIdx : ℕ} {s : Buffer}
    (hrange : beginIdx ≤ endIdx ∧ endIdx ≤ nonce.val.length)
    (h : MadePrintable nonce.val beginIdx endIdx s) :
    ∃ draws, Cipher.toPrintableChar nonce beginIdx endIdx draws =
      .ok ⟨s.b, h.length.trans nonce.property⟩ := by
  refine ⟨fun i => (s.b.getD i 0).toNat - printableCharSub, ?_⟩
  unfold Cipher.toPrintableChar rewriteRange
  rw [ensure_true (by exact_mod_cast hrange.1), ok_bind, ensure_true (by exact_mod_cast hrange.2),
    ok_bind]
  refine congrArg Except.ok (Subtype.ext (List.ext_getElem? fun i => ?_))
  rw [List.getElem?_mapIdx]
  cases hc : nonce.val[i]? with
  | none =>
    rw [Option.map_none, List.getElem?_eq_none_iff.mpr]
    rw [h.length]
    exact List.getElem?_eq_none_iff.mp hc
  | some c =>
    rw [Option.map_some]
    by_cases hin : beginIdx ≤ i ∧ i < endIdx
    · rw [if_pos (by exact_mod_cast hin)]
      dsimp only
      have hlt : i < s.b.length := by rw [h.length]; omega
      have hnew : s.b[i]? = some s.b[i] := List.getElem?_eq_getElem hlt
      by_cases hprint : isPrintable c = true
      · rw [if_pos hprint, h.kept i c hc hprint]
      · rw [if_neg hprint]
        by_cases hlow : c &&& 0x80 > 0 ∧ isPrintable (c &&& 0x7F) = true
        · rw [if_pos hlow, h.low i c hin.1 hin.2 hc hlow.2]
        · rw [if_neg hlow, List.getD_eq_getElem?_getD, hnew, Option.getD_some,
            drawn_of_printable (h.printable i _ hin.1 hin.2 hnew)]
    · rw [if_neg (by exact_mod_cast hin), h.outside i hin, hc]

end Mieru.Common
