import Mathlib.Tactic.Common

/-! # Runs of a partial machine that emits outputs

`step s e = none` means that `e` cannot happen in `s`. A run is guarded by a
condition on the state before each step and the event. -/
namespace Machine

variable {σ ε ω : Type*}

/-- `Reaches step P init es outs s`: from `init`, the events `es` lead to `s` and
emit `outs`, and every step meets `P`. -/
inductive Reaches (step : σ → ε → Option (σ × List ω)) (P : σ → ε → Prop) (init : σ) :
    List ε → List ω → σ → Prop
  | start : Reaches step P init [] [] init
  | next {es : List ε} {outs out : List ω} {s s' : σ} {e : ε} :
      Reaches step P init es outs s → P s e → step s e = some (s', out) →
      Reaches step P init (es ++ [e]) (outs ++ out) s'

def Free : σ → ε → Prop := fun _ _ => True

def run (step : σ → ε → Option (σ × List ω)) : σ → List ε → Option (σ × List ω)
  | s, [] => some (s, [])
  | s, e :: es =>
    match step s e with
    | none => none
    | some (s', out) => (run step s' es).map fun (s'', outs) => (s'', out ++ outs)

/-- The machine that only takes steps that meet the guard. -/
def guarded (guard : σ → ε → Bool) (step : σ → ε → Option (σ × List ω)) (s : σ) (e : ε) :
    Option (σ × List ω) :=
  if guard s e then step s e else none

variable {step : σ → ε → Option (σ × List ω)} {P : σ → ε → Prop} {init s : σ}
  {es : List ε} {outs : List ω}

theorem Reaches.mono {Q : σ → ε → Prop} (hPQ : ∀ s e, P s e → Q s e)
    (h : Reaches step P init es outs s) : Reaches step Q init es outs s := by
  induction h with
  | start => exact .start
  | next _ hP hstep ih => exact .next ih (hPQ _ _ hP) hstep

theorem Reaches.mono_of_mem {Q : σ → ε → Prop} (h : Reaches step P init es outs s)
    (hPQ : ∀ e ∈ es, ∀ s, P s e → Q s e) : Reaches step Q init es outs s := by
  induction h with
  | start => exact .start
  | next _ hP hstep ih =>
    have hlast := hPQ _ (List.mem_append_right _ (List.mem_singleton_self _)) _ hP
    exact .next (ih fun e he => hPQ e (List.mem_append_left _ he)) hlast hstep

theorem Reaches.free (h : Reaches step P init es outs s) : Reaches step Free init es outs s :=
  h.mono fun _ _ _ => trivial

theorem Reaches.trans {s' : σ} {es' : List ε} {outs' : List ω}
    (h : Reaches step P init es outs s) (h' : Reaches step P s es' outs' s') :
    Reaches step P init (es ++ es') (outs ++ outs') s' := by
  induction h' with
  | start => simpa using h
  | next _ hP hstep ih =>
    rw [← List.append_assoc, ← List.append_assoc]
    exact ih.next hP hstep

theorem Reaches.append_run {s' : σ} {es' : List ε} {outs' : List ω}
    (h : Reaches step Free init es outs s) (hrun : run step s es' = some (s', outs')) :
    Reaches step Free init (es ++ es') (outs ++ outs') s' := by
  induction es' generalizing es outs s outs' with
  | nil =>
    cases hrun
    simpa using h
  | cons e es' ih =>
    unfold run at hrun
    split at hrun
    · cases hrun
    · rename_i t out ht
      obtain ⟨⟨u, rest⟩, hu, heq⟩ := Option.map_eq_some_iff.mp hrun
      cases heq
      have hnext := ih (.next h trivial ht) hu
      rwa [List.append_assoc, List.singleton_append, List.append_assoc] at hnext

theorem reaches_of_run (h : run step init es = some (s, outs)) :
    Reaches step Free init es outs s :=
  Reaches.append_run .start h

theorem reaches_of_guarded_run {guard : σ → ε → Bool}
    (h : run (guarded guard step) init es = some (s, outs)) :
    Reaches step (fun s e => guard s e = true) init es outs s := by
  have hreach := reaches_of_run h
  clear h
  induction hreach with
  | start => exact .start
  | next _ _ hs ih =>
    unfold guarded at hs
    split_ifs at hs with hguard
    exact .next ih hguard hs

/-- A property of state and outputs that each admitted step preserves holds in every run. -/
theorem Reaches.invariant {I : σ → List ω → Prop} (hinit : I init [])
    (hstep : ∀ s outs e s' out, I s outs → P s e → step s e = some (s', out) →
      I s' (outs ++ out)) (h : Reaches step P init es outs s) : I s outs := by
  induction h with
  | start => exact hinit
  | next _ hP hs ih => exact hstep _ _ _ _ _ ih hP hs

/-- The run has been in a state that meets `Q`. -/
def Visited (step : σ → ε → Option (σ × List ω)) (init : σ) (es : List ε) (Q : σ → Prop) : Prop :=
  ∃ before after outs s, es = before ++ after ∧ Reaches step Free init before outs s ∧ Q s

theorem Visited.append {Q : σ → Prop} (h : Visited step init es Q) (es' : List ε) :
    Visited step init (es ++ es') Q := by
  obtain ⟨before, after, outs, s, rfl, hreach, hq⟩ := h
  exact ⟨before, after ++ es', outs, s, List.append_assoc _ _ _, hreach, hq⟩

theorem Visited.imp {Q R : σ → Prop} (h : Visited step init es Q)
    (hQR : ∀ es outs s, Reaches step Free init es outs s → Q s → R s) :
    Visited step init es R := by
  obtain ⟨before, after, outs, s, hes, hreach, hq⟩ := h
  exact ⟨before, after, outs, s, hes, hreach, hQR _ _ _ hreach hq⟩

/-- What does not hold at the start and can only come about from a state that meets `Q`. -/
theorem Reaches.since {R Q : σ → Prop} (hinit : ¬R init)
    (hstep : ∀ s e s' out, step s e = some (s', out) → R s' → R s ∨ Q s)
    (h : Reaches step Free init es outs s) (hr : R s) : Visited step init es Q := by
  induction h with
  | start => exact absurd hr hinit
  | @next es outs out s s' e hreach hfree hs ih =>
    rcases hstep s e s' out hs hr with hr | hq
    · exact (ih hr).append [e]
    · exact ⟨es, [e], outs, s, rfl, hreach, hq⟩

/-- If, among the states where `J` holds, the guard says of each step that its outputs are
good, then the good runs are the guarded ones. -/
theorem emitted_iff_guarded_of_invariant {J : σ → Prop} {Q : ω → Prop} (hinit : J init)
    (hJ : ∀ s e s' out, J s → step s e = some (s', out) → J s')
    (hP : ∀ s e s' out, J s → step s e = some (s', out) → (P s e ↔ ∀ o ∈ out, Q o))
    (h : Reaches step Free init es outs s) :
    (∀ o ∈ outs, Q o) ↔ Reaches step P init es outs s := by
  constructor
  · intro hgood
    suffices hboth : Reaches step P init es outs s ∧ J s from hboth.1
    induction h with
    | start => exact ⟨.start, hinit⟩
    | next _ _ hs ih =>
      obtain ⟨hleft, hj⟩ := ih fun o ho => hgood o (List.mem_append_left _ ho)
      have hout := (hP _ _ _ _ hj hs).mpr fun o ho => hgood o (List.mem_append_right _ ho)
      exact ⟨.next hleft hout hs, hJ _ _ _ _ hj hs⟩
  · intro hguard
    suffices hboth : J s ∧ ∀ o ∈ outs, Q o from hboth.2
    refine hguard.invariant (I := fun s outs => J s ∧ ∀ o ∈ outs, Q o) ⟨hinit, by simp⟩ ?_
    intro s outs e s' out ⟨hj, hinv⟩ hg hs
    refine ⟨hJ s e s' out hj hs, ?_⟩
    intro o ho
    rcases List.mem_append.mp ho with ho | ho
    · exact hinv o ho
    · exact (hP s e s' out hj hs).mp hg o ho

theorem emitted_iff_guarded {Q : ω → Prop}
    (hP : ∀ s e s' out, step s e = some (s', out) → (P s e ↔ ∀ o ∈ out, Q o))
    (h : Reaches step Free init es outs s) :
    (∀ o ∈ outs, Q o) ↔ Reaches step P init es outs s :=
  emitted_iff_guarded_of_invariant (J := fun _ => True) trivial (fun _ _ _ _ _ _ => trivial)
    (fun s e s' out _ => hP s e s' out) h

/-- If, among the states where `J` holds, the guard says of each step out of a good state
that it leads to a good one, then the runs through good states are the guarded ones. -/
theorem visited_iff_guarded {J Q : σ → Prop} (hinit : J init ∧ Q init)
    (hJ : ∀ s e s' out, J s → step s e = some (s', out) → J s')
    (hP : ∀ s e s' out, J s → Q s → step s e = some (s', out) → (P s e ↔ Q s')) :
    (Reaches step (fun s _ => Q s) init es outs s ∧ Q s) ↔ Reaches step P init es outs s := by
  constructor
  · rintro ⟨hgood, hs⟩
    suffices hboth : Reaches step P init es outs s ∧ J s from hboth.1
    induction hgood with
    | start => exact ⟨.start, hinit.1⟩
    | next _ hQ hstep ih =>
      obtain ⟨hleft, hj⟩ := ih hQ
      exact ⟨.next hleft ((hP _ _ _ _ hj hQ hstep).mpr hs) hstep, hJ _ _ _ _ hj hstep⟩
  · intro hguard
    suffices hboth : (Reaches step (fun s _ => Q s) init es outs s ∧ Q s) ∧ J s from hboth.1
    induction hguard with
    | start => exact ⟨⟨.start, hinit.2⟩, hinit.1⟩
    | next _ hg hstep ih =>
      obtain ⟨⟨hleft, hq⟩, hj⟩ := ih
      exact ⟨⟨.next hleft hq hstep, (hP _ _ _ _ hj hq hstep).mp hg⟩, hJ _ _ _ _ hj hstep⟩

end Machine
