import Mathlib.Data.List.AList
import Mathlib.Data.Finset.Card
import Mathlib.Data.List.Sort
import Mathlib.Data.UInt
import Mathlib.Tactic.Common

/-! # Two-generation replay cache

A packet signature is looked up in `current`, then in `previous`. Reaching the
capacity or the expiry time turns `current` into `previous`; the clock is an
argument of every call, in nanoseconds. -/
namespace Mieru.Replay

abbrev Tag := String
abbrev Signature := UInt64
abbrev SignatureMap := AList fun _ : Signature => Tag

def emptyTag : Tag := ""

def minDuration : ℤ := -2 ^ 63
def maxDuration : ℤ := 2 ^ 63 - 1

/-- `time.Time.Sub` saturates at the ends of `time.Duration`. -/
def timeSub (t u : ℤ) : ℤ := max minDuration (min maxDuration (t - u))

structure ReplayCache where
  capacity : ℕ
  expireTime : ℤ
  expireInterval : ℤ
  current : SignatureMap
  previous : SignatureMap
  interval_pos : 0 < expireInterval
  interval_le : expireInterval ≤ maxDuration

/-- The two panics of `NewCache` are the missing values here. -/
def newCache (capacity expireInterval now : ℤ) : Option ReplayCache :=
  if capacity < 0 then none
  else if h : 0 < expireInterval ∧ expireInterval ≤ maxDuration then
    some ⟨capacity.toNat, now + expireInterval, expireInterval, ∅, ∅, h.1, h.2⟩
  else none

/-- FNV-1a over 64 bits. -/
def computeSignature (data : List UInt8) : Signature :=
  data.foldl (fun hash b => (hash ^^^ b.toUInt64) * 1099511628211) 14695981039346656037

variable (c : ReplayCache)

/-- Both generations are dropped once even `previous` would have expired. -/
def ReplayCache.reset (now : ℤ) : ReplayCache :=
  if timeSub now c.expireTime > c.expireInterval then
    { c with current := ∅, previous := ∅, expireTime := now + c.expireInterval }
  else c

def ReplayCache.rotate (now : ℤ) : ReplayCache :=
  if c.current.keys.length ≥ c.capacity ∨ now > c.expireTime then
    { c with previous := c.current, current := ∅, expireTime := now + c.expireInterval }
  else c

/-- The state in which a call at `now` performs its two lookups. -/
def ReplayCache.refresh (now : ℤ) : ReplayCache := (c.reset now).rotate now

def tagConflict (existing tag : Tag) : Bool :=
  if existing = emptyTag ∨ tag = emptyTag then true else existing != tag

/-- A hit in `current` answers at once. Otherwise the tag of this call is stored
in `current` before `previous` is consulted. -/
def ReplayCache.lookup (sig : Signature) (tag : Tag) : Bool × ReplayCache :=
  match c.current.lookup sig with
  | some existing => (tagConflict existing tag, c)
  | none =>
    let c' := { c with current := c.current.insert sig tag }
    match c.previous.lookup sig with
    | some existing => (tagConflict existing tag, c')
    | none => (false, c')

def ReplayCache.isDuplicate (now : ℤ) (data : List UInt8) (tag : Tag) : Bool × ReplayCache :=
  if c.capacity = 0 then (false, c)
  else (c.refresh now).lookup (computeSignature data) tag

def ReplayCache.clear : ReplayCache := { c with current := ∅, previous := ∅ }

structure Call where
  now : ℤ
  data : List UInt8
  tag : Tag

def Call.sig (a : Call) : Signature := computeSignature a.data

def ReplayCache.answer (a : Call) : Bool := (c.isDuplicate a.now a.data a.tag).1
def ReplayCache.after (a : Call) : ReplayCache := (c.isDuplicate a.now a.data a.tag).2
def ReplayCache.afterAll (calls : List Call) : ReplayCache := calls.foldl ReplayCache.after c

inductive Op where
  | call (a : Call)
  | clear

def ReplayCache.apply : Op → ReplayCache
  | .call a => c.after a
  | .clear => c.clear

def ReplayCache.applyAll (ops : List Op) : ReplayCache := ops.foldl ReplayCache.apply c

def present (seen : List Signature) : Op → List Signature
  | .call a => a.sig :: seen
  | .clear => []

def presented (ops : List Op) : List Signature := ops.foldl present []

variable {c}

@[simp] theorem refresh_capacity (now : ℤ) : (c.refresh now).capacity = c.capacity := by
  unfold ReplayCache.refresh ReplayCache.rotate ReplayCache.reset
  split <;> split <;> rfl

@[simp] theorem refresh_interval (now : ℤ) :
    (c.refresh now).expireInterval = c.expireInterval := by
  unfold ReplayCache.refresh ReplayCache.rotate ReplayCache.reset
  split <;> split <;> rfl

theorem lt_of_timeSub_gt {now : ℤ} (h : timeSub now c.expireTime > c.expireInterval) :
    c.expireTime + c.expireInterval < now := by
  have hp := c.interval_pos
  unfold timeSub minDuration at h
  omega

theorem refresh_cases (hcap : 1 ≤ c.capacity) (now : ℤ) :
    (c.refresh now = c ∧ c.current.keys.length < c.capacity ∧ now ≤ c.expireTime) ∨
    ((c.refresh now).previous = c.current ∧ (c.refresh now).current = ∅ ∧
      (c.refresh now).expireTime = now + c.expireInterval ∧
      (c.capacity ≤ c.current.keys.length ∨ c.expireTime < now)) ∨
    ((c.refresh now).previous = ∅ ∧ (c.refresh now).current = ∅ ∧
      (c.refresh now).expireTime = now + c.expireInterval ∧
      c.expireTime + c.expireInterval < now) := by
  by_cases hr : timeSub now c.expireTime > c.expireInterval
  · have hlt := lt_of_timeSub_gt hr
    have hp := c.interval_pos
    refine Or.inr (Or.inr ?_)
    -- the fresh `current` is empty and the new deadline lies ahead, so nothing rotates
    have hn : ¬ (c.capacity = 0 ∨ c.expireInterval < 0) := by omega
    simp [ReplayCache.refresh, ReplayCache.reset, ReplayCache.rotate, hr, hn, hlt]
  · by_cases hk : c.current.keys.length ≥ c.capacity ∨ now > c.expireTime
    · refine Or.inr (Or.inl ?_)
      simp [ReplayCache.refresh, ReplayCache.reset, ReplayCache.rotate, hr, hk]
    · refine Or.inl
        ⟨by simp [ReplayCache.refresh, ReplayCache.reset, ReplayCache.rotate, hr, hk], ?_⟩
      omega

theorem now_le_refresh_expireTime (hcap : 1 ≤ c.capacity) (now : ℤ) :
    now ≤ (c.refresh now).expireTime := by
  have hp := c.interval_pos
  rcases refresh_cases hcap now with ⟨he, _, hn⟩ | ⟨_, _, he, _⟩ | ⟨_, _, he, _⟩
  · rwa [he]
  · omega
  · omega

theorem lookup_state (sig : Signature) (tag : Tag) :
    (c.lookup sig tag).2 = c ∧ sig ∈ c.current ∨
    (c.lookup sig tag).2 = { c with current := c.current.insert sig tag } ∧
      sig ∉ c.current := by
  unfold ReplayCache.lookup
  cases hc : c.current.lookup sig with
  | some e => exact Or.inl ⟨rfl, AList.lookup_isSome.mp (by rw [hc]; rfl)⟩
  | none =>
    refine Or.inr ⟨?_, AList.lookup_eq_none.mp hc⟩
    cases c.previous.lookup sig <;> rfl

@[simp] theorem lookup_capacity (sig : Signature) (tag : Tag) :
    (c.lookup sig tag).2.capacity = c.capacity := by
  rcases lookup_state (c := c) sig tag with ⟨h, _⟩ | ⟨h, _⟩ <;> rw [h]

@[simp] theorem lookup_interval (sig : Signature) (tag : Tag) :
    (c.lookup sig tag).2.expireInterval = c.expireInterval := by
  rcases lookup_state (c := c) sig tag with ⟨h, _⟩ | ⟨h, _⟩ <;> rw [h]

@[simp] theorem lookup_expireTime (sig : Signature) (tag : Tag) :
    (c.lookup sig tag).2.expireTime = c.expireTime := by
  rcases lookup_state (c := c) sig tag with ⟨h, _⟩ | ⟨h, _⟩ <;> rw [h]

@[simp] theorem lookup_previous (sig : Signature) (tag : Tag) :
    (c.lookup sig tag).2.previous = c.previous := by
  rcases lookup_state (c := c) sig tag with ⟨h, _⟩ | ⟨h, _⟩ <;> rw [h]

theorem mem_lookup_current {s sig : Signature} {tag : Tag} :
    s ∈ (c.lookup sig tag).2.current ↔ s = sig ∨ s ∈ c.current := by
  rcases lookup_state (c := c) sig tag with ⟨h, hm⟩ | ⟨h, _⟩
  · rw [h]
    exact ⟨Or.inr, fun hs => hs.elim (fun he => he ▸ hm) id⟩
  · rw [h]
    exact AList.mem_insert c.current

theorem after_eq (hcap : 1 ≤ c.capacity) (a : Call) :
    c.after a = ((c.refresh a.now).lookup a.sig a.tag).2 := by
  simp [ReplayCache.after, ReplayCache.isDuplicate, show c.capacity ≠ 0 by omega, Call.sig]

theorem answer_eq (hcap : 1 ≤ c.capacity) (a : Call) :
    c.answer a = ((c.refresh a.now).lookup a.sig a.tag).1 := by
  simp [ReplayCache.answer, ReplayCache.isDuplicate, show c.capacity ≠ 0 by omega, Call.sig]

@[simp] theorem after_capacity (a : Call) : (c.after a).capacity = c.capacity := by
  unfold ReplayCache.after ReplayCache.isDuplicate
  split <;> simp

@[simp] theorem after_interval (a : Call) : (c.after a).expireInterval = c.expireInterval := by
  unfold ReplayCache.after ReplayCache.isDuplicate
  split <;> simp

@[simp] theorem apply_capacity (op : Op) : (c.apply op).capacity = c.capacity := by
  cases op <;> simp [ReplayCache.apply, ReplayCache.clear]

@[simp] theorem apply_interval (op : Op) : (c.apply op).expireInterval = c.expireInterval := by
  cases op <;> simp [ReplayCache.apply, ReplayCache.clear]

theorem afterAll_config (calls : List Call) :
    (c.afterAll calls).capacity = c.capacity ∧
      (c.afterAll calls).expireInterval = c.expireInterval := by
  induction calls generalizing c with
  | nil => exact ⟨rfl, rfl⟩
  | cons a calls ih =>
    have h := ih (c := c.after a)
    simpa [ReplayCache.afterAll] using h

theorem applyAll_config (ops : List Op) :
    (c.applyAll ops).capacity = c.capacity ∧
      (c.applyAll ops).expireInterval = c.expireInterval := by
  induction ops generalizing c with
  | nil => exact ⟨rfl, rfl⟩
  | cons op ops ih =>
    have h := ih (c := c.apply op)
    simpa [ReplayCache.applyAll] using h

/-! ## Retention within one interval -/

/-- `sig` was presented at `t` and nothing since then can have displaced it:
either it never left `current`, or one rotation put it in `previous` and the
new `current` holds only signatures of `seen`. -/
def Retained (c : ReplayCache) (t : ℤ) (sig : Signature) (seen : Finset Signature) : Prop :=
  (sig ∈ c.current ∧ t ≤ c.expireTime) ∨
  (sig ∈ c.previous ∧ (∀ s ∈ c.current, s ∈ seen) ∧ t + c.expireInterval ≤ c.expireTime)

theorem current_length_le {seen : Finset Signature} (h : ∀ s ∈ c.current, s ∈ seen) :
    c.current.keys.length ≤ seen.card := by
  rw [← List.toFinset_card_of_nodup c.current.keys_nodup]
  apply Finset.card_le_card
  intro s hs
  exact h s (AList.mem_keys.mpr (List.mem_toFinset.mp hs))

theorem retained_refresh {t now : ℤ} {sig : Signature} {seen : Finset Signature}
    (hr : Retained c t sig seen) (hle : t ≤ now) (hin : now ≤ t + c.expireInterval)
    (hseen : seen.card < c.capacity) : Retained (c.refresh now) t sig seen := by
  have hcap : 1 ≤ c.capacity := by omega
  rcases hr with ⟨hm, ht⟩ | ⟨hm, hk, ht⟩
  · rcases refresh_cases hcap now with ⟨he, _⟩ | ⟨hp, hc, he, _⟩ | ⟨_, _, _, hlt⟩
    · rw [he]
      exact Or.inl ⟨hm, ht⟩
    · refine Or.inr ⟨hp ▸ hm, by simp [hc], ?_⟩
      rw [refresh_interval, he]
      omega
    · omega
  · have hlen := current_length_le hk
    have hpos := c.interval_pos
    rcases refresh_cases hcap now with ⟨he, _⟩ | ⟨_, _, _, hor⟩ | ⟨_, _, _, hlt⟩
    · rw [he]
      exact Or.inr ⟨hm, hk, ht⟩
    · omega
    · omega

theorem retained_lookup {t : ℤ} {sig s : Signature} {tag : Tag} {seen : Finset Signature}
    (hr : Retained c t sig seen) : Retained (c.lookup s tag).2 t sig (insert s seen) := by
  rcases hr with ⟨hm, ht⟩ | ⟨hm, hk, ht⟩
  · exact Or.inl ⟨mem_lookup_current.mpr (Or.inr hm), by simpa using ht⟩
  · refine Or.inr ⟨by simpa using hm, ?_, by simpa using ht⟩
    intro x hx
    rcases mem_lookup_current.mp hx with rfl | hx
    · exact Finset.mem_insert_self _ _
    · exact Finset.mem_insert_of_mem (hk x hx)

theorem retained_answer {t : ℤ} {sig : Signature} {seen : Finset Signature}
    (hr : Retained c t sig seen) : (c.lookup sig emptyTag).1 = true := by
  unfold ReplayCache.lookup
  cases hc : c.current.lookup sig with
  | some e => simp [tagConflict]
  | none =>
    rcases hr with ⟨hm, _⟩ | ⟨hm, _⟩
    · exact absurd hm (AList.lookup_eq_none.mp hc)
    · obtain ⟨e, he⟩ := Option.isSome_iff_exists.mp (AList.lookup_isSome.mpr hm)
      simp [he, tagConflict]

theorem retained_after_self (hcap : 1 ≤ c.capacity) (a : Call) :
    Retained (c.after a) a.now a.sig ∅ := by
  rw [after_eq hcap]
  refine Or.inl ⟨mem_lookup_current.mpr (Or.inl rfl), ?_⟩
  rw [lookup_expireTime]
  exact now_le_refresh_expireTime hcap a.now

/-- Induction over the calls in between; each adds at most its own signature. -/
theorem retained_afterAll {t : ℤ} {sig : Signature} {seen : Finset Signature}
    (mid : List Call) (hr : Retained c t sig seen)
    (hclock : ∀ a ∈ mid, t ≤ a.now ∧ a.now ≤ t + c.expireInterval)
    (hseen : (seen ∪ (mid.map Call.sig).toFinset).card < c.capacity) :
    Retained (c.afterAll mid) t sig (seen ∪ (mid.map Call.sig).toFinset) := by
  induction mid generalizing c seen with
  | nil => simpa [ReplayCache.afterAll] using hr
  | cons a mid ih =>
    have hcard : seen.card < c.capacity :=
      lt_of_le_of_lt (Finset.card_le_card Finset.subset_union_left) hseen
    have ha := hclock a List.mem_cons_self
    have hstep : Retained (c.after a) t sig (insert a.sig seen) := by
      rw [after_eq (by omega)]
      exact retained_lookup (retained_refresh hr ha.1 ha.2 hcard)
    have hunion : insert a.sig seen ∪ (mid.map Call.sig).toFinset =
        seen ∪ ((a :: mid).map Call.sig).toFinset := by
      simp [Finset.insert_union]
    have h := ih hstep (fun x hx => by simpa using hclock x (List.mem_cons_of_mem _ hx))
      (by rw [hunion]; simpa using hseen)
    rwa [hunion] at h

/-! ## Signatures never presented -/

def Known (c : ReplayCache) (seen : List Signature) : Prop :=
  ∀ sig, sig ∈ c.current ∨ sig ∈ c.previous → sig ∈ seen

theorem known_refresh {seen : List Signature} (h : Known c seen) (hcap : 1 ≤ c.capacity)
    (now : ℤ) : Known (c.refresh now) seen := by
  intro sig hs
  rcases refresh_cases hcap now with ⟨he, _⟩ | ⟨hp, hc, _⟩ | ⟨hp, hc, _⟩
  · exact h sig (he ▸ hs)
  · rw [hp, hc] at hs
    exact h sig (Or.inl (hs.resolve_left (AList.notMem_empty sig)))
  · rw [hp, hc] at hs
    exact (hs.elim (AList.notMem_empty sig) (AList.notMem_empty sig)).elim

theorem known_lookup {seen : List Signature} (h : Known c seen) (sig : Signature) (tag : Tag) :
    Known (c.lookup sig tag).2 (sig :: seen) := by
  intro s hs
  rw [mem_lookup_current, lookup_previous] at hs
  rcases hs with (rfl | hs) | hs
  · exact List.mem_cons_self
  · exact List.mem_cons_of_mem _ (h s (Or.inl hs))
  · exact List.mem_cons_of_mem _ (h s (Or.inr hs))

theorem known_apply {seen : List Signature} (h : Known c seen) (hcap : 1 ≤ c.capacity)
    (op : Op) : Known (c.apply op) (present seen op) := by
  cases op with
  | call a =>
    simp only [ReplayCache.apply, present]
    rw [after_eq hcap]
    exact known_lookup (known_refresh h hcap a.now) a.sig a.tag
  | clear =>
    intro sig hs
    exact (hs.elim (AList.notMem_empty sig) (AList.notMem_empty sig)).elim

theorem known_applyAll {seen : List Signature} (ops : List Op) (h : Known c seen)
    (hcap : 1 ≤ c.capacity) : Known (c.applyAll ops) (ops.foldl present seen) := by
  induction ops generalizing c seen with
  | nil => exact h
  | cons op ops ih => exact ih (known_apply h hcap op) (by simpa using hcap)

theorem known_answer {seen : List Signature} {sig : Signature} (h : Known c seen)
    (hs : sig ∉ seen) (tag : Tag) : (c.lookup sig tag).1 = false := by
  have hc : c.current.lookup sig = none :=
    AList.lookup_eq_none.mpr fun hm => hs (h sig (Or.inl hm))
  have hp : c.previous.lookup sig = none :=
    AList.lookup_eq_none.mpr fun hm => hs (h sig (Or.inr hm))
  simp [ReplayCache.lookup, hc, hp]

theorem newCache_config {capacity expireInterval now : ℤ}
    (h : newCache capacity expireInterval now = some c) :
    c.capacity = capacity.toNat ∧ 0 ≤ capacity ∧ c.expireInterval = expireInterval ∧
      Known c [] := by
  unfold newCache at h
  split at h
  · cases h
  · split at h
    · cases h
      refine ⟨rfl, by omega, rfl, ?_⟩
      intro sig hs
      exact (hs.elim (AList.notMem_empty sig) (AList.notMem_empty sig)).elim
    · cases h

/-- A signature presented twice within one interval, with fewer than `capacity`
distinct signatures in between, is reported; one never presented is not. -/
theorem presented_again_is_duplicate {capacity expireInterval start : ℤ} (hcap : 1 ≤ capacity)
    (hnew : newCache capacity expireInterval start = some c) (ops : List Op) :
    (∀ (a b : Call) (mid : List Call),
      ((a :: (mid ++ [b])).map Call.now).Pairwise (· ≤ ·) →
      (∀ x ∈ a :: (mid ++ [b]), x.tag = emptyTag) → a.sig = b.sig →
      b.now - a.now ≤ expireInterval →
      ((mid.map Call.sig).toFinset.card : ℤ) < capacity →
      (((c.applyAll ops).after a).afterAll mid).answer b = true) ∧
    (∀ b : Call, b.sig ∉ presented ops → (c.applyAll ops).answer b = false) := by
  obtain ⟨hc, h0, hi, hknown⟩ := newCache_config hnew
  obtain ⟨hcap', hint⟩ := applyAll_config (c := c) ops
  have hone : 1 ≤ (c.applyAll ops).capacity := by omega
  constructor
  · intro a b mid hclock htag hsig hin hcard
    simp only [List.map_cons, List.map_append, List.map_nil, List.pairwise_cons,
      List.pairwise_append, List.mem_append, List.mem_map, List.mem_singleton] at hclock
    obtain ⟨hfrom, -, -, hto⟩ := hclock
    have hab : a.now ≤ b.now := hfrom b.now (Or.inr rfl)
    have hmid : ∀ x ∈ mid, a.now ≤ x.now ∧
        x.now ≤ a.now + ((c.applyAll ops).after a).expireInterval := by
      intro x hx
      have hlow := hfrom x.now (Or.inl ⟨x, hx, rfl⟩)
      have hhigh := hto x.now ⟨x, hx, rfl⟩ b.now rfl
      rw [after_interval]
      omega
    have hr := retained_afterAll mid (retained_after_self hone a) hmid
      (by simp only [Finset.empty_union, after_capacity]; omega)
    obtain ⟨hk, hd⟩ := afterAll_config (c := (c.applyAll ops).after a) mid
    rw [after_capacity] at hk
    rw [after_interval] at hd
    have hb : b.tag = emptyTag := htag b (by simp)
    rw [answer_eq (by omega), hb, ← hsig]
    refine retained_answer (retained_refresh hr hab (by omega) ?_)
    simp only [Finset.empty_union]
    omega
  · intro b hb
    rw [answer_eq hone]
    exact known_answer (known_refresh (known_applyAll ops hknown (by omega)) hone b.now) hb b.tag

/-- One signature seen at the start, again exactly at the end of the interval,
and in between one rotation caused by the capacity. -/
theorem presented_again_at_capacity_two :
    ∃ c, newCache 2 60 0 = some c ∧
      (((c.applyAll []).after ⟨0, [1], ""⟩).afterAll [⟨30, [2], ""⟩]).answer ⟨60, [1], ""⟩ = true ∧
      (c.applyAll []).answer ⟨5, [7], ""⟩ = false := by
  have hnew : newCache 2 60 0 = some ⟨2, 60, 60, ∅, ∅, by decide, by decide⟩ := rfl
  have h := presented_again_is_duplicate (by decide) hnew []
  refine ⟨_, hnew, ?_, ?_⟩
  · exact h.1 ⟨0, [1], ""⟩ ⟨60, [1], ""⟩ [⟨30, [2], ""⟩] (by decide) (by decide) rfl
      (by decide) (by decide)
  · exact h.2 ⟨5, [7], ""⟩ (by decide)

/-! ## Tags -/

def Present (c : ReplayCache) (sig : Signature) : Prop := sig ∈ c.current ∨ sig ∈ c.previous

/-- A condition on the state before each call and on the call, along a run. -/
def Throughout (P : ReplayCache → Call → Prop) : ReplayCache → List Call → Prop
  | _, [] => True
  | c, a :: calls => P c a ∧ Throughout P (c.after a) calls

theorem throughout_append {P : ReplayCache → Call → Prop} (xs ys : List Call) :
    Throughout P c (xs ++ ys) ↔ Throughout P c xs ∧ Throughout P (c.afterAll xs) ys := by
  induction xs generalizing c with
  | nil => simp [Throughout, ReplayCache.afterAll]
  | cons x xs ih => simp [Throughout, ih, and_assoc, ReplayCache.afterAll]

theorem throughout_of_prefix {P : ReplayCache → Call → Prop} (calls : List Call)
    (h : ∀ pre x, (pre ++ [x]) <+: calls → P (c.afterAll pre) x) : Throughout P c calls := by
  induction calls generalizing c with
  | nil => trivial
  | cons a calls ih =>
    refine ⟨h [] a ⟨calls, rfl⟩, ih ?_⟩
    intro pre x hx
    exact h (a :: pre) x (List.cons_prefix_cons.mpr ⟨rfl, hx⟩)

/-- The signature survives the rotation of every call, so it is never dropped
and presented afresh in between. -/
def PresentThroughout (sig : Signature) : ReplayCache → List Call → Prop :=
  Throughout fun c a => Present (c.refresh a.now) sig

/-- No call under a foreign tag meets the signature in `previous` alone. -/
def NoForeignRecord (sig : Signature) (tag : Tag) : ReplayCache → List Call → Prop :=
  Throughout fun c a =>
    a.sig = sig → a.tag = tag ∨ a.tag = emptyTag ∨ sig ∈ (c.refresh a.now).current

/-- The younger of the two records carries the first tag, or none. -/
def Owned (c : ReplayCache) (sig : Signature) (tag : Tag) : Prop :=
  ∃ t, (c.current.lookup sig = some t ∨
    c.current.lookup sig = none ∧ c.previous.lookup sig = some t) ∧ (t = tag ∨ t = emptyTag)

theorem owned_refresh {sig : Signature} {tag : Tag} {now : ℤ} (hcap : 1 ≤ c.capacity)
    (h : Owned c sig tag) (hp : Present (c.refresh now) sig) : Owned (c.refresh now) sig tag := by
  rcases refresh_cases hcap now with ⟨he, _⟩ | ⟨hprev, hcur, _⟩ | ⟨hprev, hcur, _⟩
  · rwa [he]
  · obtain ⟨t, hl, ht⟩ := h
    have hm : sig ∈ c.current := by
      rw [Present, hprev, hcur] at hp
      exact hp.resolve_left (AList.notMem_empty sig)
    refine ⟨t, Or.inr ⟨by simp [hcur], ?_⟩, ht⟩
    rw [hprev]
    exact hl.resolve_right fun hn => AList.lookup_eq_none.mp hn.1 hm
  · rw [Present, hprev, hcur] at hp
    exact (hp.elim (AList.notMem_empty sig) (AList.notMem_empty sig)).elim

theorem owned_lookup {sig s : Signature} {tag t : Tag} (h : Owned c sig tag)
    (hf : s = sig → t = tag ∨ t = emptyTag ∨ sig ∈ c.current) :
    Owned (c.lookup s t).2 sig tag := by
  rcases lookup_state (c := c) s t with ⟨he, _⟩ | ⟨he, hn⟩
  · rwa [he]
  · obtain ⟨e, hl, ht⟩ := h
    rw [he]
    by_cases hs : s = sig
    · subst hs
      have htag := (hf rfl).imp_right fun h => h.resolve_right hn
      exact ⟨t, Or.inl (AList.lookup_insert _), htag⟩
    · refine ⟨e, ?_, ht⟩
      simpa [AList.lookup_insert_ne (Ne.symm hs)] using hl

theorem owned_answer {sig : Signature} {tag t : Tag} (h : Owned c sig tag) (ht : t ≠ tag) :
    (c.lookup sig t).1 = true := by
  obtain ⟨e, hl, he⟩ := h
  have hconf : tagConflict e t = true := by
    rcases he with rfl | rfl
    · simp [tagConflict, Ne.symm ht]
    · simp [tagConflict]
  rcases hl with hl | ⟨hn, hl⟩
  · simp [ReplayCache.lookup, hl, hconf]
  · simp [ReplayCache.lookup, hn, hl, hconf]

theorem owned_after {sig : Signature} {tag : Tag} {a : Call} (hcap : 1 ≤ c.capacity)
    (h : Owned c sig tag) (hp : Present (c.refresh a.now) sig)
    (hf : a.sig = sig → a.tag = tag ∨ a.tag = emptyTag ∨ sig ∈ (c.refresh a.now).current) :
    Owned (c.after a) sig tag := by
  rw [after_eq hcap]
  exact owned_lookup (owned_refresh hcap h hp) hf

theorem owned_of_not_duplicate {a : Call} (hcap : 1 ≤ c.capacity) (h : c.answer a = false) :
    Owned (c.after a) a.sig a.tag := by
  rw [answer_eq hcap] at h
  rw [after_eq hcap]
  rcases lookup_state (c := c.refresh a.now) a.sig a.tag with ⟨he, hm⟩ | ⟨he, hm⟩
  · obtain ⟨e, hl⟩ := Option.isSome_iff_exists.mp (AList.lookup_isSome.mpr hm)
    simp only [ReplayCache.lookup, hl, tagConflict] at h
    refine ⟨e, Or.inl (by rw [he]; exact hl), ?_⟩
    split at h
    · cases h
    · exact Or.inl (by simpa using h)
  · exact ⟨a.tag, Or.inl (by rw [he]; exact AList.lookup_insert _), Or.inl rfl⟩

theorem owned_afterAll {sig : Signature} {tag : Tag} (calls : List Call)
    (hcap : 1 ≤ c.capacity) (h : Owned c sig tag) (hkeep : PresentThroughout sig c calls)
    (hrec : NoForeignRecord sig tag c calls) : Owned (c.afterAll calls) sig tag := by
  induction calls generalizing c with
  | nil => exact h
  | cons a calls ih =>
    exact ih (by simpa using hcap) (owned_after hcap h hkeep.1 hrec.1) hkeep.2 hrec.2

/-- A tag that was stored while the signature was only in `previous` is accepted
when the very same call is made again: the record of the first tag is shadowed. -/
theorem repeated_record_accepted {a : Call} (hcap : 1 ≤ c.capacity) (ha : a.tag ≠ emptyTag)
    (hn : a.sig ∉ (c.refresh a.now).current) : (c.after a).answer a = false := by
  have hcap' : 1 ≤ (c.after a).capacity := by simpa using hcap
  have hle : a.now ≤ (c.after a).expireTime := by
    rw [after_eq hcap, lookup_expireTime]
    exact now_le_refresh_expireTime hcap a.now
  have hl : (c.after a).current.lookup a.sig = some a.tag := by
    rcases lookup_state (c := c.refresh a.now) a.sig a.tag with ⟨_, hm⟩ | ⟨he, _⟩
    · exact absurd hm hn
    · rw [after_eq hcap, he]
      exact AList.lookup_insert _
  have hconf : tagConflict a.tag a.tag = false := by simp [tagConflict, ha]
  have hpos := (c.after a).interval_pos
  rw [answer_eq hcap']
  rcases refresh_cases hcap' a.now with ⟨he, _⟩ | ⟨hp, hcur, _⟩ | ⟨_, _, _, hlt⟩
  · simp [he, ReplayCache.lookup, hl, hconf]
  · simp [ReplayCache.lookup, hcur, hp, hl, hconf]
  · omega

/-- `b` may follow `calls` in a run of the cache that started with `a`. -/
def MayFollow (c : ReplayCache) (a : Call) (calls : List Call) (b : Call) : Prop :=
  ((a :: (calls ++ [b])).map Call.now).Pairwise (· ≤ ·) ∧
    Present (((c.after a).afterAll calls).refresh b.now) a.sig

theorem present_after {a : Call} (hcap : 1 ≤ c.capacity) :
    Present ((c.after a).refresh a.now) a.sig := by
  have hcap' : 1 ≤ (c.after a).capacity := by simpa using hcap
  have hm : a.sig ∈ (c.after a).current := by
    rw [after_eq hcap]
    exact mem_lookup_current.mpr (Or.inl rfl)
  have hle : a.now ≤ (c.after a).expireTime := by
    rw [after_eq hcap, lookup_expireTime]
    exact now_le_refresh_expireTime hcap a.now
  have hpos := (c.after a).interval_pos
  rcases refresh_cases hcap' a.now with ⟨he, _⟩ | ⟨hp, _⟩ | ⟨_, _, _, hlt⟩
  · exact Or.inl (by rwa [he])
  · exact Or.inr (by rwa [hp])
  · omega

/-- Along any run, foreign tags are rejected at every point exactly when none of
them ever meets the signature in `previous` alone. -/
theorem foreign_tags_rejected_iff (hcap : 1 ≤ c.capacity) (a : Call) (calls : List Call)
    (hnew : c.answer a = false) (hclock : ((a :: calls).map Call.now).Pairwise (· ≤ ·))
    (hkeep : PresentThroughout a.sig (c.after a) calls) :
    (∀ pre b, pre <+: calls → MayFollow c a pre b → b.sig = a.sig → b.tag ≠ a.tag →
      ((c.after a).afterAll pre).answer b = true) ↔
    NoForeignRecord a.sig a.tag (c.after a) calls := by
  have hcap' : 1 ≤ (c.after a).capacity := by simpa using hcap
  have hcapAll : ∀ pre, 1 ≤ ((c.after a).afterAll pre).capacity := by
    intro pre
    rw [(afterAll_config pre).1]
    exact hcap'
  constructor
  · intro hall
    refine throughout_of_prefix calls ?_
    intro pre x hx hsig
    by_contra hbad
    push Not at hbad
    obtain ⟨htag, hempty, hcur⟩ := hbad
    -- the offending call is repeated at the same instant
    have hstate : (c.after a).afterAll (pre ++ [x]) = ((c.after a).afterAll pre).after x := by
      simp [ReplayCache.afterAll]
    have hfollow : MayFollow c a (pre ++ [x]) x := by
      refine ⟨?_, ?_⟩
      · obtain ⟨rest, rfl⟩ := hx
        simp only [List.map_cons, List.map_append, List.map_nil, List.append_assoc,
          List.pairwise_cons, List.pairwise_append, List.mem_append, List.mem_map,
          List.mem_cons, List.not_mem_nil, or_false] at hclock ⊢
        grind
      · rw [hstate, ← hsig]
        exact present_after (hcapAll pre)
    have hacc := hall (pre ++ [x]) x hx hfollow hsig htag
    rw [hstate, repeated_record_accepted (hcapAll pre) hempty (hsig ▸ hcur)] at hacc
    cases hacc
  · intro hrec pre b hpre hfollow hsig htag
    obtain ⟨rest, rfl⟩ := hpre
    have howned := owned_afterAll pre hcap' (owned_of_not_duplicate hcap hnew)
      ((throughout_append pre rest).mp hkeep).1 ((throughout_append pre rest).mp hrec).1
    rw [answer_eq (hcapAll pre), hsig]
    exact owned_answer (owned_refresh (hcapAll pre) howned hfollow.2) htag

/-- The condition is met by a run that rotates between two calls under the first tag. -/
theorem foreign_tag_rejected_after_rotation :
    ∃ c, newCache 2 60 0 = some c ∧
      ((c.after ⟨0, [1], "A"⟩).afterAll [⟨1, [2], "X"⟩, ⟨2, [1], "A"⟩]).answer
        ⟨3, [1], "B"⟩ = true := by
  have hnew : newCache 2 60 0 = some ⟨2, 60, 60, ∅, ∅, by decide, by decide⟩ := rfl
  refine ⟨_, hnew, ?_⟩
  refine (foreign_tags_rejected_iff (by decide) ⟨0, [1], "A"⟩
    [⟨1, [2], "X"⟩, ⟨2, [1], "A"⟩] (by decide) (by decide) ?_).mpr ?_
      _ ⟨3, [1], "B"⟩ List.prefix_rfl ⟨by decide, ?_⟩ rfl (by decide)
  · exact ⟨by unfold Present; decide, by unfold Present; decide, trivial⟩
  · exact ⟨by decide, by decide, trivial⟩
  · unfold Present; decide

/-- Capacity two, one rotation: the second tag is rejected once and then accepted,
although the signature never left the cache. -/
theorem second_tag_accepted_after_rotation :
    ∃ c, newCache 2 60 0 = some c ∧ c.answer ⟨0, [1], "A"⟩ = false ∧
      MayFollow c ⟨0, [1], "A"⟩ [⟨1, [2], "X"⟩, ⟨2, [1], "B"⟩] ⟨3, [1], "B"⟩ ∧
      PresentThroughout (computeSignature [1]) (c.after ⟨0, [1], "A"⟩)
        [⟨1, [2], "X"⟩, ⟨2, [1], "B"⟩] ∧
      ((c.after ⟨0, [1], "A"⟩).afterAll [⟨1, [2], "X"⟩]).answer ⟨2, [1], "B"⟩ = true ∧
      ((c.after ⟨0, [1], "A"⟩).afterAll [⟨1, [2], "X"⟩, ⟨2, [1], "B"⟩]).answer
        ⟨3, [1], "B"⟩ = false := by
  have hnew : newCache 2 60 0 = some ⟨2, 60, 60, ∅, ∅, by decide, by decide⟩ := rfl
  refine ⟨_, hnew, by decide, ⟨by decide, ?_⟩, ⟨?_, ?_, trivial⟩, by decide, by decide⟩
  all_goals unfold Present; decide

end Mieru.Replay
