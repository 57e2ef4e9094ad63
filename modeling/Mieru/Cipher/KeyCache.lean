import Mieru.Cipher.KeyGen
import Mieru.Lib.Machine

/-! # The two caches of keys

Keys are kept in a map of the process, by password, and in every stateless decryptor. Calls run at
the same time and in any order of their clocks, so an entry may be replaced by an older one
between any two steps of a call. -/
namespace Mieru.Cipher

open Clock Machine Result

section Entry

variable {kdf : Pbkdf2} {password : List UInt8}

theorem CachedCiphers.made_now (entry : CachedCiphers kdf password) {now : Time}
    (h : entry.epoch = cipherKeyEpoch now) :
    newBlockCipherList kdf password now = .ok entry.cipherList := by
  rw [← entry.made, newBlockCipherList, newBlockCipherList,
    saltFromTime_congr (h.symm.trans entry.epoch_eq)]

def creationError (err : String) : String := s!"newBlockCipherList() failed: {err}"

theorem createCiphers_eq (now : Time) :
    (createCiphers kdf password now).map CachedCiphers.cipherList =
      (newBlockCipherList kdf password now).mapError creationError := by
  unfold createCiphers
  split
  · rename_i err herr
    exact (congrArg (Except.mapError creationError) herr).symm
  · rename_i blockCiphers hmade
    exact (congrArg (Except.mapError creationError) hmade).symm

theorem createTime_createCiphers {now : Time} {entry : CachedCiphers kdf password}
    (h : createCiphers kdf password now = .ok entry) : entry.createTime = now := by
  unfold createCiphers at h
  split at h
  · cases h
  · cases h
    rfl

theorem epoch_createCiphers {now : Time} {entry : CachedCiphers kdf password}
    (h : createCiphers kdf password now = .ok entry) : entry.epoch = cipherKeyEpoch now :=
  entry.epoch_eq.trans (congrArg cipherKeyEpoch (createTime_createCiphers h))

end Entry

inductive KeyCaller (δ : Type) where
  | direct (password : List UInt8)
  | decryptor (d : δ)

section Calls

variable {δ κ : Type} (kdf : Pbkdf2) (passwordOf : δ → List UInt8)

def KeyCaller.password : KeyCaller δ → List UInt8
  | direct password => password
  | decryptor d => passwordOf d

/-- Where a call of `tryDecryptAt` or `getCachedCiphers` stands, with the time it was given. -/
inductive KeyCallPc where
  | idle
  | loadingOwn (d : δ) (now : Time)
  | lookingUp (c : KeyCaller δ) (now : Time)
  | creating (c : KeyCaller δ) (now : Time)
  | storing (c : KeyCaller δ) (now : Time) (entry : CachedCiphers kdf (c.password passwordOf))
  | storingOwn (d : δ) (now : Time) (entry : CachedCiphers kdf (passwordOf d))

structure KeyCaches (κ : Type) where
  cache : ∀ password, Option (CachedCiphers kdf password) := fun _ => none
  own : ∀ d, Option (CachedCiphers kdf (passwordOf d)) := fun _ => none
  calls : κ → KeyCallPc kdf passwordOf := fun _ => .idle

structure KeyUse where
  password : List UInt8
  now : Time
  ciphers : Except String (List StatelessCipher)

/-- As if the call had made its keys itself. -/
def KeyUse.Fresh (u : KeyUse) : Prop :=
  u.ciphers = (newBlockCipherList kdf u.password u.now).mapError creationError

inductive KeyAction (δ κ : Type) where
  | getCachedCiphers (k : κ) (password : List UInt8) (now : Time)
  | tryDecryptAt (k : κ) (d : δ) (now : Time)
  | loadOwn (k : κ)
  | lookUp (k : κ) (jitter : Duration)
  | create (k : κ)
  | store (k : κ)
  | storeOwn (k : κ)

end Calls

namespace KeyCaches

variable {δ κ : Type} [DecidableEq κ] {kdf : Pbkdf2} {passwordOf : δ → List UInt8}
  (s : KeyCaches kdf passwordOf κ)

def goto (k : κ) (pc : KeyCallPc kdf passwordOf) : KeyCaches kdf passwordOf κ :=
  { s with calls := Function.update s.calls k pc }

@[simp] theorem calls_goto (k : κ) (pc : KeyCallPc kdf passwordOf) :
    (s.goto k pc).calls k = pc := by
  simp only [goto, Function.update_self]

@[simp] theorem cache_goto (k : κ) (pc : KeyCallPc kdf passwordOf) :
    (s.goto k pc).cache = s.cache := rfl

@[simp] theorem own_goto (k : κ) (pc : KeyCallPc kdf passwordOf) :
    (s.goto k pc).own = s.own := rfl

def got (k : κ) (c : KeyCaller δ) (now : Time) (entry : CachedCiphers kdf (c.password passwordOf)) :
    KeyCaches kdf passwordOf κ × List KeyUse :=
  match c, entry with
  | .direct password, entry => (s.goto k .idle, [⟨password, now, .ok entry.cipherList⟩])
  | .decryptor d, entry => (s.goto k (.storingOwn d now entry), [])

def lookUp (k : κ) (c : KeyCaller δ) (now : Time) (jitter : Duration) :
    KeyCaches kdf passwordOf κ × List KeyUse :=
  match s.cache (c.password passwordOf) with
  | none => (s.goto k (.creating c now), [])
  | some entry =>
    if entry.epoch ≠ cipherKeyEpoch now ∨
        add entry.createTime (cacheValidInterval - jitter) < now then
      (s.goto k (.creating c now), [])
    else s.got k c now entry

def step [DecidableEq δ] (s : KeyCaches kdf passwordOf κ) :
    KeyAction δ κ → Option (KeyCaches kdf passwordOf κ × List KeyUse)
  | .getCachedCiphers k password now =>
    match s.calls k with
    | .idle => some (s.goto k (.lookingUp (.direct password) now), [])
    | _ => none
  | .tryDecryptAt k d now =>
    match s.calls k with
    | .idle => some (s.goto k (.loadingOwn d now), [])
    | _ => none
  | .loadOwn k =>
    match s.calls k with
    | .loadingOwn d now =>
      match s.own d with
      | none => some (s.goto k (.lookingUp (.decryptor d) now), [])
      | some entry =>
        if entry.epoch ≠ cipherKeyEpoch now then
          some (s.goto k (.lookingUp (.decryptor d) now), [])
        else some (s.goto k .idle, [⟨passwordOf d, now, .ok entry.cipherList⟩])
    | _ => none
  | .lookUp k jitter =>
    match s.calls k with
    | .lookingUp c now => some (s.lookUp k c now jitter)
    | _ => none
  | .create k =>
    match s.calls k with
    | .creating c now =>
      match createCiphers kdf (c.password passwordOf) now with
      | .error err => some (s.goto k .idle, [⟨c.password passwordOf, now, .error err⟩])
      | .ok entry => some (s.goto k (.storing c now entry), [])
    | _ => none
  | .store k =>
    match s.calls k with
    | .storing c now entry =>
      some (got { s with cache := Function.update s.cache (c.password passwordOf) (some entry) }
        k c now entry)
    | _ => none
  | .storeOwn k =>
    match s.calls k with
    | .storingOwn d now entry =>
      some (goto { s with own := Function.update s.own d (some entry) } k .idle,
        [⟨passwordOf d, now, .ok entry.cipherList⟩])
    | _ => none

/-! ## No call sees the caches -/

def Timely : KeyCallPc kdf passwordOf → Prop
  | .storing _ now entry => entry.epoch = cipherKeyEpoch now
  | .storingOwn _ now entry => entry.epoch = cipherKeyEpoch now
  | _ => True

def AllTimely : Prop := ∀ k, Timely (s.calls k)

variable {s} {s' : KeyCaches kdf passwordOf κ} {out : List KeyUse} {now : Time}

theorem CachedCiphers.fresh {password : List UInt8} (entry : CachedCiphers kdf password)
    (h : entry.epoch = cipherKeyEpoch now) :
    KeyUse.Fresh kdf ⟨password, now, .ok entry.cipherList⟩ := by
  unfold KeyUse.Fresh
  rw [entry.made_now h]
  rfl

theorem AllTimely.goto {k : κ} {pc : KeyCallPc kdf passwordOf} (h : s.AllTimely)
    (hpc : Timely pc) : (s.goto k pc).AllTimely := by
  intro j
  by_cases hj : j = k
  · subst hj
    simpa [KeyCaches.goto] using hpc
  · simpa [KeyCaches.goto, Function.update_of_ne hj] using h j

theorem AllTimely.got {k : κ} {c : KeyCaller δ} {entry : CachedCiphers kdf (c.password passwordOf)}
    (h : s.AllTimely) (hepoch : entry.epoch = cipherKeyEpoch now)
    (hgot : s.got k c now entry = (s', out)) : s'.AllTimely ∧ ∀ u ∈ out, u.Fresh kdf := by
  cases c with
  | direct password =>
    cases hgot
    refine ⟨h.goto trivial, ?_⟩
    intro u hu
    rw [List.mem_singleton.mp hu]
    exact CachedCiphers.fresh entry hepoch
  | decryptor d =>
    cases hgot
    refine ⟨h.goto hepoch, ?_⟩
    intro u hu
    exact absurd hu List.not_mem_nil

theorem AllTimely.lookUp {k : κ} {c : KeyCaller δ} {jitter : Duration} (h : s.AllTimely)
    (hlook : s.lookUp k c now jitter = (s', out)) : s'.AllTimely ∧ ∀ u ∈ out, u.Fresh kdf := by
  unfold KeyCaches.lookUp at hlook
  split at hlook
  · cases hlook
    exact ⟨h.goto trivial, nofun⟩
  · rename_i entry _
    split at hlook
    · cases hlook
      exact ⟨h.goto trivial, nofun⟩
    · rename_i hvalid
      exact h.got (not_not.mp (not_or.mp hvalid).1) hlook

variable [DecidableEq δ]

theorem AllTimely.step {a : KeyAction δ κ} (h : s.AllTimely) (hstep : s.step a = some (s', out)) :
    s'.AllTimely ∧ ∀ u ∈ out, u.Fresh kdf := by
  cases a with
  | getCachedCiphers k password now =>
    simp only [KeyCaches.step] at hstep
    split at hstep
    · cases hstep
      exact ⟨h.goto trivial, nofun⟩
    · cases hstep
  | tryDecryptAt k d now =>
    simp only [KeyCaches.step] at hstep
    split at hstep
    · cases hstep
      exact ⟨h.goto trivial, nofun⟩
    · cases hstep
  | loadOwn k =>
    simp only [KeyCaches.step] at hstep
    split at hstep
    · split at hstep
      · cases hstep
        exact ⟨h.goto trivial, nofun⟩
      · rename_i entry _
        split at hstep
        · cases hstep
          exact ⟨h.goto trivial, nofun⟩
        · rename_i hepoch
          cases hstep
          refine ⟨h.goto trivial, ?_⟩
          intro u hu
          rw [List.mem_singleton.mp hu]
          exact CachedCiphers.fresh entry (not_not.mp hepoch)
    · cases hstep
  | lookUp k jitter =>
    simp only [KeyCaches.step] at hstep
    split at hstep
    · exact h.lookUp (Option.some.inj hstep)
    · cases hstep
  | create k =>
    simp only [KeyCaches.step] at hstep
    split at hstep
    · rename_i c now _
      have hcreate : (createCiphers kdf (c.password passwordOf) now).map _ = _ :=
        createCiphers_eq now
      split at hstep
      · rename_i err herr
        cases hstep
        refine ⟨h.goto trivial, ?_⟩
        intro u hu
        rw [List.mem_singleton.mp hu]
        rw [herr] at hcreate
        exact hcreate
      · rename_i entry hentry
        cases hstep
        exact ⟨h.goto (epoch_createCiphers hentry), nofun⟩
    · cases hstep
  | store k =>
    simp only [KeyCaches.step] at hstep
    split at hstep
    · rename_i c now entry hpc
      have hepoch := h k
      rw [hpc] at hepoch
      have hcached : AllTimely { s with
          cache := Function.update s.cache (c.password passwordOf) (some entry) } := h
      exact hcached.got hepoch (Option.some.inj hstep)
    · cases hstep
  | storeOwn k =>
    simp only [KeyCaches.step] at hstep
    split at hstep
    · rename_i d now entry hpc
      have hepoch := h k
      rw [hpc] at hepoch
      cases hstep
      have hown : AllTimely { s with own := Function.update s.own d (some entry) } := h
      refine ⟨hown.goto trivial, ?_⟩
      intro u hu
      rw [List.mem_singleton.mp hu]
      exact CachedCiphers.fresh entry hepoch
    · cases hstep

/-- Whatever the calls do to each other's caches, each works with the keys of its own time. -/
theorem key_cache_transparent {es : List (KeyAction δ κ)} {outs : List KeyUse}
    (h : Reaches step Free ({} : KeyCaches kdf passwordOf κ) es outs s) :
    ∀ u ∈ outs, u.Fresh kdf := by
  have hstart : ({} : KeyCaches kdf passwordOf κ).AllTimely := fun _ => trivial
  have hboth : s.AllTimely ∧ ∀ u ∈ outs, u.Fresh kdf := by
    refine h.invariant (I := fun s outs => s.AllTimely ∧ ∀ u ∈ outs, u.Fresh kdf)
      ⟨hstart, nofun⟩ ?_
    intro s outs a s' out hs _ hstep
    obtain ⟨htimely, hfresh⟩ := hs.1.step hstep
    refine ⟨htimely, ?_⟩
    intro u hu
    rcases List.mem_append.mp hu with hu | hu
    · exact hs.2 u hu
    · exact hfresh u hu
  exact hboth.2

/-- One goroutine makes keys. Another finds them in the cache of the process, keeps them in its
decryptor and then comes with an earlier clock. -/
def sharedRun : List (KeyAction Unit Bool) :=
  [.getCachedCiphers false [1] 200000000000, .lookUp false 0, .create false,
    .tryDecryptAt true () 210000000000, .store false, .loadOwn true, .lookUp true 0, .storeOwn true,
    .tryDecryptAt true () 100000000000, .loadOwn true, .lookUp true 0, .create true, .store true,
    .storeOwn true]

theorem shared_keys_fresh : ∃ outs, ∃ s : KeyCaches pbkdf2Sha256 (fun _ : Unit => [1]) Bool,
    Reaches step Free {} sharedRun outs s ∧
      outs.map KeyUse.now = [200000000000, 210000000000, 100000000000] ∧
      ∀ u ∈ outs, u.Fresh pbkdf2Sha256 := by
  let passwordOf (_ : Unit) : List UInt8 := [1]
  obtain ⟨entry, hentry, hepoch⟩ :
      ∃ entry, createCiphers pbkdf2Sha256 (KeyCaller.password passwordOf (.direct [1]))
        200000000000 = .ok entry ∧ entry.epoch = _ := createCiphers_ok (by decide) _
  obtain ⟨early, hearly, -⟩ :
      ∃ entry, createCiphers pbkdf2Sha256 (KeyCaller.password passwordOf (.decryptor ()))
        100000000000 = .ok entry ∧ entry.epoch = _ := createCiphers_ok (by decide) _
  have htime : entry.createTime = 200000000000 := createTime_createCiphers hentry
  have hhit : Function.update (fun _ => none) (KeyCaller.password passwordOf (.direct [1]))
      (some entry) (KeyCaller.password passwordOf (.decryptor ())) = some entry :=
    Function.update_self ..
  have hvalid : cipherKeyEpoch 200000000000 = cipherKeyEpoch 210000000000 ∧
      ¬add 200000000000 cacheValidInterval < 210000000000 := by decide
  have hstale : cipherKeyEpoch 210000000000 ≠ cipherKeyEpoch 100000000000 := by decide
  have hrun : ∃ s outs, run step ({} : KeyCaches pbkdf2Sha256 passwordOf Bool) sharedRun =
      some (s, outs) ∧ outs.map KeyUse.now = [200000000000, 210000000000, 100000000000] := by
    simp [sharedRun, run, step, goto, lookUp, got, hentry, hearly, hepoch, htime, hhit, hvalid,
      hstale]
  obtain ⟨s, outs, hrun, hnow⟩ := hrun
  have hreach := reaches_of_run hrun
  exact ⟨outs, s, hreach, hnow, key_cache_transparent hreach⟩

/-! ## A call on its own -/

/-- After a step that led to `r`, the call `k` makes the use `u` of keys and returns. -/
def Ends (r : KeyCaches kdf passwordOf κ × List KeyUse) (k : κ) (u : KeyUse) : Prop :=
  ∃ es s' outs, run step r.1 es = some (s', outs) ∧ r.2 ++ outs = [u] ∧ s'.calls k = .idle

theorem Ends.of_step {k : κ} {u : KeyUse} {a : KeyAction δ κ}
    {r : KeyCaches kdf passwordOf κ × List KeyUse} (hstep : s.step a = some r) (h : Ends r k u) :
    Ends (s, []) k u := by
  obtain ⟨es, s', outs, hrun, hout, hidle⟩ := h
  refine ⟨a :: es, s', r.2 ++ outs, ?_, hout, hidle⟩
  simp only [run, hstep, hrun, Option.map_some]

theorem ends_got {k : κ} {c : KeyCaller δ} {entry : CachedCiphers kdf (c.password passwordOf)} :
    Ends (s.got k c now entry) k ⟨c.password passwordOf, now, .ok entry.cipherList⟩ := by
  cases c with
  | direct password => exact ⟨[], _, [], rfl, rfl, calls_goto s k .idle⟩
  | decryptor d =>
    let t := s.goto k (.storingOwn d now entry)
    have hstore : t.step (.storeOwn k) =
        some (goto { t with own := Function.update t.own d (some entry) } k .idle,
          [⟨passwordOf d, now, .ok entry.cipherList⟩]) := by
      simp only [step, calls_goto, t]
    exact Ends.of_step hstore ⟨[], _, [], rfl, rfl, calls_goto _ k .idle⟩

theorem ends_creating {k : κ} {c : KeyCaller δ} (hpc : s.calls k = .creating c now) :
    Ends (s, []) k ⟨c.password passwordOf, now,
      (createCiphers kdf (c.password passwordOf) now).map CachedCiphers.cipherList⟩ := by
  cases hmade : createCiphers kdf (c.password passwordOf) now with
  | error err =>
    have hcreate : s.step (.create k) =
        some (s.goto k .idle, [⟨c.password passwordOf, now, .error err⟩]) := by
      simp only [step, hpc, hmade]
    exact Ends.of_step hcreate ⟨[], _, [], rfl, rfl, calls_goto s k .idle⟩
  | ok entry =>
    let t := s.goto k (.storing c now entry)
    have hcreate : s.step (.create k) = some (t, []) := by
      simp only [step, hpc, hmade, t]
    have hstore : t.step (.store k) =
        some (got { t with cache := Function.update t.cache (c.password passwordOf) (some entry) }
          k c now entry) := by
      simp only [step, calls_goto, t]
    exact Ends.of_step hcreate (Ends.of_step hstore ends_got)

theorem ends_lookingUp {k : κ} {c : KeyCaller δ} (hpc : s.calls k = .lookingUp c now)
    (jitter : Duration) :
    Ends (s, []) k ⟨c.password passwordOf, now,
      (getCachedCiphers (s.cache (c.password passwordOf)) now jitter).map
        CachedCiphers.cipherList⟩ := by
  have hlook : s.step (.lookUp k jitter) = some (s.lookUp k c now jitter) := by
    simp only [step, hpc]
  have hmade : Ends (s.goto k (.creating c now), []) k ⟨c.password passwordOf, now,
      (createCiphers kdf (c.password passwordOf) now).map CachedCiphers.cipherList⟩ :=
    ends_creating (calls_goto s k _)
  apply Ends.of_step hlook
  unfold getCachedCiphers lookUp
  cases s.cache (c.password passwordOf) with
  | none => exact hmade
  | some entry =>
    dsimp only
    split_ifs
    · exact hmade
    · exact ends_got

theorem ends_getCachedCiphers {k : κ} (hidle : s.calls k = .idle) (password : List UInt8)
    (now : Time) (jitter : Duration) :
    Ends (s, []) k ⟨password, now,
      (getCachedCiphers (s.cache password) now jitter).map CachedCiphers.cipherList⟩ := by
  have hcall : s.step (.getCachedCiphers k password now) =
      some (s.goto k (.lookingUp (.direct password) now), []) := by
    simp only [step, hidle]
  exact Ends.of_step hcall (ends_lookingUp (calls_goto s k _) jitter)

theorem ends_tryDecryptAt {k : κ} (hidle : s.calls k = .idle) (d : δ) (now : Time)
    (jitter : Duration) :
    ∃ ciphers, Ends (s, []) k ⟨passwordOf d, now, ciphers⟩ ∧ ∀ ciphertext,
      tryDecryptAt (s.own d) (s.cache (passwordOf d)) ciphertext now jitter =
        ciphers.toOption.bind (selectDecryptStateless ciphertext) := by
  let t := s.goto k (.loadingOwn d now)
  have hcall : s.step (.tryDecryptAt k d now) = some (t, []) := by
    simp only [step, hidle, t]
  have hfetch : Ends (t.goto k (.lookingUp (.decryptor d) now), []) k ⟨passwordOf d, now,
      (getCachedCiphers (s.cache (passwordOf d)) now jitter).map CachedCiphers.cipherList⟩ :=
    ends_lookingUp (calls_goto t k _) jitter
  have hfetched (hload : t.step (.loadOwn k) =
      some (t.goto k (.lookingUp (.decryptor d) now), [])) :=
    Ends.of_step hcall (Ends.of_step hload hfetch)
  unfold tryDecryptAt
  cases hkept : s.own d with
  | none =>
    refine ⟨_, hfetched ?_, ?_⟩
    · simp only [step, calls_goto, t, own_goto, hkept]
    · intro ciphertext
      cases getCachedCiphers (s.cache (passwordOf d)) now jitter <;> rfl
  | some entry =>
    dsimp only
    by_cases hepoch : entry.epoch ≠ cipherKeyEpoch now
    · refine ⟨_, hfetched ?_, ?_⟩
      · simp only [step, calls_goto, t, own_goto, hkept, if_pos hepoch]
      · intro ciphertext
        simp only [if_pos hepoch]
        cases getCachedCiphers (s.cache (passwordOf d)) now jitter <;> rfl
    · have hload : t.step (.loadOwn k) =
          some (t.goto k .idle, [⟨passwordOf d, now, .ok entry.cipherList⟩]) := by
        simp only [step, calls_goto, t, own_goto, hkept, if_neg hepoch]
      refine ⟨.ok entry.cipherList, Ends.of_step hcall (Ends.of_step hload
        ⟨[], _, [], rfl, rfl, calls_goto t k .idle⟩), ?_⟩
      intro ciphertext
      simp only [if_neg hepoch]
      rfl

end KeyCaches

end Mieru.Cipher
