import Mathlib.Data.List.Forall2
import Mathlib.Tactic.Common

/-! # Computations that may fail

Inversion rules for chains of checks written with `do` in `Except`. -/
namespace Result

/-- A call can return an error, ask to be tried again later, or stop the program. -/
inductive Fault where
  | failed (msg : String)
  | notReady (msg : String)
  | panicked (msg : String)
  deriving DecidableEq, Repr

/-- `fmt.Errorf` with a wrapped error. -/
def Fault.wrap (context : String) : Fault → Fault
  | failed msg => failed s!"{context}: {msg}"
  | notReady msg => notReady s!"{context}: {msg}"
  | panicked msg => panicked msg

variable {ε α β : Type}

def lift (x : Except String α) : Except Fault α := x.mapError .failed

def inContext (context : String) (x : Except Fault α) : Except Fault α :=
  x.mapError (.wrap context)

@[simp] theorem lift_ok (a : α) : lift (.ok a) = .ok a := rfl

@[simp] theorem inContext_ok (context : String) (a : α) : inContext context (.ok a) = .ok a := rfl

theorem mapError_eq_ok {δ : Type} {f : δ → ε} {x : Except δ α} {a : α} :
    x.mapError f = .ok a ↔ x = .ok a := by
  cases x with
  | error e => simp [Except.mapError]
  | ok b => simp [Except.mapError]

theorem lift_eq_ok {x : Except String α} {a : α} : lift x = .ok a ↔ x = .ok a := mapError_eq_ok

theorem inContext_eq_ok {context : String} {x : Except Fault α} {a : α} :
    inContext context x = .ok a ↔ x = .ok a := mapError_eq_ok

def ensure (c : Prop) [Decidable c] (e : ε) : Except ε Unit :=
  if c then .ok () else .error e

@[simp] theorem ok_bind (a : α) (f : α → Except ε β) : (Except.ok a >>= f) = f a := rfl

@[simp] theorem error_bind (e : ε) (f : α → Except ε β) :
    ((Except.error e : Except ε α) >>= f) = .error e := rfl

theorem bind_eq_ok {x : Except ε α} {f : α → Except ε β} {b : β} :
    (x >>= f) = .ok b ↔ ∃ a, x = .ok a ∧ f a = .ok b := by
  cases x with
  | error e => simp
  | ok a => simp

theorem check_bind_eq_ok {x : Except ε Unit} {f : Unit → Except ε β} {b : β} :
    (x >>= f) = .ok b ↔ x = .ok () ∧ f () = .ok b := by
  cases x with
  | error e => simp
  | ok a => simp

theorem ensure_bind_eq_ok {c : Prop} [Decidable c] {e : ε} {f : Unit → Except ε β} {b : β} :
    (ensure c e >>= f) = .ok b ↔ c ∧ f () = .ok b := by
  by_cases hc : c <;> simp [ensure, hc]

theorem ensure_eq_ok {c : Prop} [Decidable c] {e : ε} : ensure c e = .ok () ↔ c := by
  by_cases hc : c <;> simp [ensure, hc]

theorem forM_eq_ok {f : α → Except ε PUnit} {l : List α} :
    l.forM f = .ok () ↔ ∀ a ∈ l, f a = .ok () := by
  induction l with
  | nil => exact iff_of_true rfl (by simp)
  | cons a l ih =>
    have hcons : (a :: l).forM f = (f a >>= fun _ => l.forM f) := rfl
    rw [hcons, bind_eq_ok, List.forall_mem_cons, ← ih]
    constructor
    · rintro ⟨⟨⟩, ha, hl⟩
      exact ⟨ha, hl⟩
    · rintro ⟨ha, hl⟩
      exact ⟨(), ha, hl⟩

theorem mapM_eq_ok {f : α → Except ε β} {l : List α} {bs : List β} :
    l.mapM f = .ok bs ↔ List.Forall₂ (fun a b => f a = .ok b) l bs := by
  induction l generalizing bs with
  | nil =>
    rw [List.mapM_nil, List.forall₂_nil_left_iff]
    exact ⟨fun h => (Except.ok.inj h).symm, fun h => congrArg _ h.symm⟩
  | cons a l ih =>
    rw [List.mapM_cons, List.forall₂_cons_left_iff]
    constructor
    · intro h
      obtain ⟨b, hb, h⟩ := bind_eq_ok.mp h
      obtain ⟨rest, hrest, h⟩ := bind_eq_ok.mp h
      exact ⟨b, rest, hb, ih.mp hrest, (Except.ok.inj h).symm⟩
    · rintro ⟨b, rest, hb, hrest, rfl⟩
      rw [hb, ok_bind, ih.mpr hrest]
      rfl

theorem exists_mapM_eq_ok {f : α → Except ε β} {l : List α} :
    (∃ bs, l.mapM f = .ok bs) ↔ ∀ a ∈ l, ∃ b, f a = .ok b := by
  simp only [mapM_eq_ok]
  induction l with
  | nil => exact iff_of_true ⟨[], .nil⟩ (by simp)
  | cons a l ih =>
    rw [List.forall_mem_cons, ← ih]
    constructor
    · rintro ⟨bs, hbs⟩
      obtain ⟨b, rest, hb, hrest, -⟩ := List.forall₂_cons_left_iff.mp hbs
      exact ⟨⟨b, hb⟩, rest, hrest⟩
    · rintro ⟨⟨b, hb⟩, rest, hrest⟩
      exact ⟨b :: rest, .cons hb hrest⟩

theorem ensure_bind {c : Prop} [Decidable c] (e : ε) (f : Unit → Except ε β) :
    (ensure c e >>= f) = if c then f () else .error e := by
  unfold ensure
  split_ifs <;> rfl

/-- A failing check stops a method; what the method has written so far stays. -/
theorem run_ensure_bind {σ : Type} {c : Prop} [Decidable c] (e : ε)
    (k : Unit → ExceptT ε (StateM σ) β) (s : σ) :
    ((liftM (ensure c e) >>= k : ExceptT ε (StateM σ) β).run).run s =
      if c then (k ()).run.run s else (.error e, s) := by
  unfold ensure
  split_ifs <;> rfl

@[simp] theorem ensure_true {c : Prop} [Decidable c] (hc : c) (e : ε) :
    ensure c e = .ok () := by
  simp [ensure, hc]

end Result
