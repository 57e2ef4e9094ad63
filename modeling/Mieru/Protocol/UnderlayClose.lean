import Mathlib.Data.List.Basic
import Mieru.Lib.Machine
import Mieru.Session.State

/-! # Adding sessions to an underlay that is being closed

`AddSession` puts the session in the map, attaches it and starts its two loops. `Close` takes the
close lock, closes the sessions it finds in the map, waits for their loops and then closes `done`.
The calls share the map and nothing else. Any number of both can run, next to goroutines that
close or remove sessions. -/
namespace Mieru.Protocol.UnderlayClose

inductive AddCall where
  | check
  | store
  | attach
  | start
  | returned (err : Option String)
  deriving DecidableEq

structure Session where
  id : ℕ
  isClient : Bool
  state : SessionState := .init
  ready : Bool := false
  closeRequested : Bool := false
  closedChan : Bool := false
  inputLoop : Bool := false
  outputLoop : Bool := false
  call : AddCall := .check
  deriving DecidableEq

/-- Where `Close` is with the session it closes: before `closeRequested` is swapped, before the
channel is closed, and waiting for the loops. -/
inductive Visit where
  | request
  | finish
  | wait
  deriving DecidableEq

/-- The holder of the close lock. `present` is what was in the map when `Range` started. -/
inductive Closing where
  | locked
  | ranging (present visited : List ℕ) (current : Option (ℕ × Visit))
  deriving DecidableEq

/-- Sessions are known by the number of their `AddSession` call. -/
structure Underlay where
  isClient : Bool
  sessionMap : List ℕ := []
  closing : Option Closing := none
  done : Bool := false
  closeReturned : Bool := false
  deriving DecidableEq

structure State where
  underlay : Underlay
  sessions : List Session
  deriving DecidableEq

def State.initial (isClient : Bool) : State := ⟨{ isClient }, []⟩

inductive Event where
  | addSession (id : ℕ) (isClient : Bool)
  | addStep (n : ℕ)
  | close
  | rangeStart
  | visit (n : ℕ)
  | visitStep
  | rangeEnd
  /-- Another goroutine calls `closeWithError`: one that was given the session or one of its
  loops. -/
  | requestClose (n : ℕ)
  | finishClose (n : ℕ)
  | inputEnds (n : ℕ)
  | outputEnds (n : ℕ)
  | establish (n : ℕ)
  /-- `RemoveSession` up to its `Delete`; it then closes the session like any other goroutine. -/
  | remove (n : ℕ)
  deriving DecidableEq

def errAlreadyExist : String := "ALREADY EXIST"

def addSessionError (u : Underlay) (x : Session) : Option String :=
  if x.id = 0 then some "session ID can't be 0"
  else if SessionState.attached.rank ≤ x.state.rank then
    some s!"session {x.id} is already attached to a underlay"
  else if u.isClient && !x.isClient then
    some "can't add a server session to a client underlay"
  else if !u.isClient && x.isClient then
    some "can't add a client session to a server underlay"
  else none

def State.loaded (s : State) (id : ℕ) : Bool :=
  s.underlay.sessionMap.any fun m => (s.sessions[m]?).any fun y => y.id = id

def State.become (s : State) (u : Underlay) : State := { s with underlay := u }

def State.update (s : State) (n : ℕ) (f : Session → Session) : State :=
  { s with sessions := s.sessions.modify n f }

def addStep (s : State) (n : ℕ) (x : Session) : Option State :=
  match x.call with
  | .check =>
    match addSessionError s.underlay x with
    | some err => some (s.update n fun x => { x with call := .returned (some err) })
    | none => some (s.update n fun x => { x with call := .store })
  | .store =>
    if s.loaded x.id then
      some (s.update n fun x => { x with call := .returned (some errAlreadyExist) })
    else
      some ((s.become { s.underlay with sessionMap := s.underlay.sessionMap ++ [n] }).update n
        fun x => { x with call := .attach })
  | .attach =>
    some (s.update n fun x =>
      { x with state := x.state.forwardTo .attached, ready := true, call := .start })
  | .start =>
    some (s.update n fun x =>
      { x with inputLoop := true, outputLoop := true, call := .returned none })
  | .returned _ => none

def Underlay.range (u : Underlay) (present visited : List ℕ) (current : Option (ℕ × Visit)) :
    Underlay :=
  { u with closing := some (.ranging present visited current) }

/-- `Close` has won the right to close the session and not closed its channel yet. -/
def Underlay.finishing (u : Underlay) (n : ℕ) : Bool :=
  match u.closing with
  | some (.ranging _ _ (some (m, .finish))) => m = n
  | _ => false

def Underlay.ranging (u : Underlay) : Bool :=
  match u.closing with
  | some (.ranging _ _ _) => true
  | _ => false

def closeChan (x : Session) : Session := { x with closedChan := true, state := .closed }

def visitStep (s : State) (present visited : List ℕ) (n : ℕ) (x : Session) : Visit → Option State
  | .request =>
    if x.closeRequested then some (s.become (s.underlay.range present visited (some (n, .wait))))
    else
      some ((s.become (s.underlay.range present visited (some (n, .finish)))).update n fun x =>
        { x with closeRequested := true })
  | .finish =>
    some ((s.become (s.underlay.range present visited (some (n, .wait)))).update n closeChan)
  | .wait =>
    if x.inputLoop || x.outputLoop then none
    else some (s.become (s.underlay.range present (visited ++ [n]) none))

/-- `Range` meets every session that stays in the map while it runs, and may miss or meet one
that comes or goes. -/
def next (s : State) : Event → Option State
  | .addSession id isClient => some { s with sessions := s.sessions ++ [{ id, isClient }] }
  | .addStep n => (s.sessions[n]?).bind (addStep s n)
  | .close =>
    match s.underlay.closing with
    | some _ => none
    | none =>
      if s.underlay.done then some (s.become { s.underlay with closeReturned := true })
      else some (s.become { s.underlay with closing := some .locked })
  | .rangeStart =>
    match s.underlay.closing with
    | some .locked => some (s.become (s.underlay.range s.underlay.sessionMap [] none))
    | _ => none
  | .visit n =>
    match s.underlay.closing with
    | some (.ranging present visited none) =>
      if (n ∈ present ∨ n ∈ s.underlay.sessionMap) ∧ n ∉ visited then
        some (s.become (s.underlay.range present visited (some (n, .request))))
      else none
    | _ => none
  | .visitStep =>
    match s.underlay.closing with
    | some (.ranging present visited (some (n, v))) =>
      (s.sessions[n]?).bind fun x => visitStep s present visited n x v
    | _ => none
  | .rangeEnd =>
    match s.underlay.closing with
    | some (.ranging present visited none) =>
      if ∀ m ∈ present, m ∈ visited ∨ m ∉ s.underlay.sessionMap then
        some (s.become { s.underlay with closing := none, done := true, closeReturned := true })
      else none
    | _ => none
  | .requestClose n =>
    (s.sessions[n]?).bind fun x =>
      if x.call = .returned none ∧ x.closeRequested = false then
        some (s.update n fun x => { x with closeRequested := true })
      else none
  | .finishClose n =>
    (s.sessions[n]?).bind fun x =>
      if x.closeRequested ∧ ¬ s.underlay.finishing n then some (s.update n closeChan) else none
  | .inputEnds n =>
    (s.sessions[n]?).bind fun x =>
      if x.closeRequested then some (s.update n fun x => { x with inputLoop := false }) else none
  | .outputEnds n =>
    (s.sessions[n]?).bind fun x =>
      if x.closedChan then some (s.update n fun x => { x with outputLoop := false }) else none
  | .establish n =>
    some (s.update n fun x => { x with state := x.state.forwardTo .established })
  | .remove n =>
    (s.sessions[n]?).bind fun x =>
      if SessionState.attached.rank ≤ x.state.rank then
        some (s.become
          { s.underlay with sessionMap := s.underlay.sessionMap.filter fun m => m ≠ n })
      else none

def step (s : State) (e : Event) : Option (State × List Empty) := (next s e).map fun s' => (s', [])

/-! ## Sessions that a `Close` can not miss -/

def Session.stored (x : Session) : Bool :=
  match x.call with
  | .attach => true
  | .start => true
  | .returned none => true
  | _ => false

structure Ranged (present visited : List ℕ) (current : Option (ℕ × Visit)) (n : ℕ) (x : Session) :
    Prop where
  stored : x.stored = true → n ∈ present ∨ x.closedChan = true
  visited : x.stored = true → n ∈ visited → x.closedChan = true
  waiting : x.stored = true → current = some (n, .wait) →
    x.closedChan = true ∨ x.call = .returned none

structure Fine (u : Underlay) (n : ℕ) (x : Session) : Prop where
  stored : x.stored = true → n ∈ u.sessionMap ∨ x.closedChan = true
  output : x.call = .returned none → x.outputLoop = true ∨ x.closedChan = true
  requested : x.closeRequested = true →
    x.closedChan = true ∨ x.call = .returned none ∨ u.finishing n = true
  ranged : ∀ present visited current, u.closing = some (.ranging present visited current) →
    Ranged present visited current n x
  done : u.done = true → x.stored = true → x.closedChan = true

structure Inv (s : State) : Prop where
  fine : ∀ n x, s.sessions[n]? = some x → Fine s.underlay n x
  returned : s.underlay.closeReturned = true → s.underlay.done = true

/-- A session is put in the map before `Range` starts, and what is removed from it is closed. -/
def inOrder (s : State) : Event → Bool
  | .addStep n =>
    (s.sessions[n]?).all fun x =>
      x.call ≠ .store || s.loaded x.id || !(s.underlay.done || s.underlay.ranging)
  | .remove n => (s.sessions[n]?).all (·.closedChan)
  | _ => true

variable {s s' : State} {u : Underlay} {n : ℕ} {x y : Session} {f : Session → Session}
  {present visited : List ℕ} {current : Option (ℕ × Visit)}

theorem Inv.move (h : Inv s)
    (hself : ∀ x, s.sessions[n]? = some x → Fine s.underlay n x → Fine u n (f x))
    (hother : ∀ m x, n ≠ m → Fine s.underlay m x → Fine u m x)
    (hreturned : u.closeReturned = true → u.done = true) : Inv ((s.become u).update n f) := by
  refine ⟨?_, hreturned⟩
  intro m y hy
  change (s.sessions.modify n f)[m]? = some y at hy
  rw [List.getElem?_modify] at hy
  obtain ⟨x, hx, rfl⟩ := Option.map_eq_some_iff.mp hy
  have hfine := h.fine m x hx
  split_ifs with hm
  · subst hm
    exact hself x hx hfine
  · exact hother m x hm hfine

theorem Inv.update (h : Inv s)
    (hself : ∀ x, s.sessions[n]? = some x → Fine s.underlay n x → Fine s.underlay n (f x)) :
    Inv (s.update n f) :=
  h.move hself (fun _ _ _ hfine => hfine) h.returned

theorem Inv.update_at (h : Inv s) (hx : s.sessions[n]? = some x)
    (hself : Fine s.underlay n x → Fine s.underlay n (f x)) : Inv (s.update n f) := by
  refine h.update ?_
  intro y hy hfine
  rw [hx] at hy
  cases hy
  exact hself hfine

theorem Inv.become (h : Inv s)
    (hf : ∀ n x, s.sessions[n]? = some x → Fine s.underlay n x → Fine u n x)
    (hreturned : u.closeReturned = true → u.done = true) : Inv (s.become u) :=
  ⟨fun n x hx => hf n x hx (h.fine n x hx), hreturned⟩

theorem Fine.mono (h : Fine u n x) (hstored : y.stored = true → x.stored = true)
    (hchan : x.closedChan = true → y.closedChan = true)
    (hcall : x.call = .returned none → y.call = .returned none)
    (houtput : y.call = .returned none → y.outputLoop = true ∨ y.closedChan = true)
    (hrequested : y.closeRequested = true →
      x.closeRequested = true ∨ y.closedChan = true ∨ y.call = .returned none) : Fine u n y where
  stored hy := (h.stored (hstored hy)).imp_right hchan
  output := houtput
  requested hy := by
    rcases hrequested hy with hx | hy | hy
    · rcases h.requested hx with hx | hx | hx
      · exact Or.inl (hchan hx)
      · exact Or.inr (Or.inl (hcall hx))
      · exact Or.inr (Or.inr hx)
    · exact Or.inl hy
    · exact Or.inr (Or.inl hy)
  ranged present visited current hu :=
    have hranged := h.ranged present visited current hu
    { stored := fun hy => (hranged.stored (hstored hy)).imp_right hchan
      visited := fun hy hn => hchan (hranged.visited (hstored hy) hn)
      waiting := fun hy hw => (hranged.waiting (hstored hy) hw).imp hchan hcall }
  done hdone hy := hchan (h.done hdone (hstored hy))

theorem Fine.range {current' : Option (ℕ × Visit)} {visited' : List ℕ} (h : Fine u n x)
    (hfinishing : u.finishing n = true → (u.range present visited' current').finishing n = true)
    (hranged : Ranged present visited' current' n x) :
    Fine (u.range present visited' current') n x where
  stored := h.stored
  output := h.output
  requested hx := (h.requested hx).imp_right fun hx => hx.imp_right hfinishing
  ranged present' visited'' current'' hu := by
    cases hu
    exact hranged
  done := h.done

theorem Fine.store (h : Fine u n x) (hcall : x.call = .store) (hdone : u.done = false)
    (hranging : u.ranging = false) :
    Fine { u with sessionMap := u.sessionMap ++ [n] } n { x with call := .attach } where
  stored _ := Or.inl (by simp)
  output hy := by cases hy
  requested hx := by
    rcases h.requested hx with hx | hx | hx
    · exact Or.inl hx
    · rw [hcall] at hx
      cases hx
    · exact Or.inr (Or.inr hx)
  ranged present visited current hu := by
    change u.closing = _ at hu
    simp [Underlay.ranging, hu] at hranging
  done hd := by
    change u.done = true at hd
    rw [hdone] at hd
    cases hd

theorem Fine.grow (h : Fine u n x) (m : ℕ) :
    Fine { u with sessionMap := u.sessionMap ++ [m] } n x where
  stored hx := (h.stored hx).imp_left fun hmem => List.mem_append_left _ hmem
  output := h.output
  requested := h.requested
  ranged := h.ranged
  done := h.done

theorem Inv.advance (h : Inv s) (hx : s.sessions[n]? = some x) (hcall : x.call ≠ .returned none)
    (hstored : (f x).stored = true → x.stored = true) (hchan : (f x).closedChan = x.closedChan)
    (hrequested : (f x).closeRequested = x.closeRequested)
    (houtput : (f x).call = .returned none → (f x).outputLoop = true) : Inv (s.update n f) := by
  refine h.update_at hx fun hfine => ?_
  refine hfine.mono hstored (fun hc => hchan.trans hc) (fun hc => absurd hc hcall)
    (fun hc => Or.inl (houtput hc)) ?_
  intro hr
  exact Or.inl (hrequested.symm.trans hr)

theorem addStep_inv (h : Inv s) (hx : s.sessions[n]? = some x)
    (hguard : inOrder s (.addStep n) = true) (hstep : addStep s n x = some s') : Inv s' := by
  unfold addStep at hstep
  split at hstep
  · rename_i hcall
    split at hstep
    · cases hstep
      exact h.advance hx (by simp [hcall]) (by simp [Session.stored]) rfl rfl (by simp)
    · cases hstep
      exact h.advance hx (by simp [hcall]) (by simp [Session.stored]) rfl rfl (by simp)
  · rename_i hcall
    split_ifs at hstep with hloaded
    · cases hstep
      exact h.advance hx (by simp [hcall]) (by simp [Session.stored]) rfl rfl (by simp)
    · cases hstep
      obtain ⟨hdone, hranging⟩ : s.underlay.done = false ∧ s.underlay.ranging = false := by
        simpa [inOrder, hx, hcall, hloaded] using hguard
      refine h.move ?_ (fun m y _ hfine => hfine.grow n) h.returned
      intro y hy hfine
      rw [hx] at hy
      cases hy
      exact hfine.store hcall hdone hranging
  · rename_i hcall
    cases hstep
    exact h.advance hx (by simp [hcall]) (by simp [Session.stored, hcall]) rfl rfl (by simp)
  · rename_i hcall
    cases hstep
    exact h.advance hx (by simp [hcall]) (by simp [Session.stored, hcall]) rfl rfl (by simp)
  · cases hstep

theorem Fine.request (h : Fine u n x) (hranged : Ranged present visited none n x) :
    Fine (u.range present visited (some (n, .finish))) n { x with closeRequested := true } where
  stored := h.stored
  output := h.output
  requested _ := Or.inr (Or.inr (by simp [Underlay.finishing, Underlay.range]))
  ranged present' visited' current' hu := by
    cases hu
    exact ⟨hranged.stored, hranged.visited, by simp⟩
  done := h.done

theorem Fine.closed : Fine u n (closeChan x) where
  stored _ := Or.inr rfl
  output _ := Or.inr rfl
  requested _ := Or.inl rfl
  ranged _ _ _ _ := ⟨fun _ => Or.inr rfl, fun _ _ => rfl, fun _ _ => Or.inl rfl⟩
  done _ _ := rfl

theorem Ranged.leave (h : Ranged present visited current n x) {v : Visit} (hv : v ≠ .wait) (m : ℕ) :
    Ranged present visited (some (m, v)) n x :=
  ⟨h.stored, h.visited, by simp [hv]⟩

theorem visitStep_inv {v : Visit} (h : Inv s)
    (hclosing : s.underlay.closing = some (.ranging present visited (some (n, v))))
    (hx : s.sessions[n]? = some x) (hstep : visitStep s present visited n x v = some s') :
    Inv s' := by
  have hold := h.fine n x hx
  have hself : ∀ y, s.sessions[n]? = some y → y = x := by
    intro y hy
    rw [hx] at hy
    cases hy
    rfl
  have hfinishing : ∀ m, n ≠ m → s.underlay.finishing m = false := by
    intro m hm
    cases v <;> simp [Underlay.finishing, hclosing, hm]
  cases v with
  | request =>
    have hnot : ∀ m, s.underlay.finishing m = false := by
      intro m
      simp [Underlay.finishing, hclosing]
    simp only [visitStep] at hstep
    split_ifs at hstep with hrequested
    · cases hstep
      refine h.become ?_ h.returned
      intro m y hy hfine
      have hm := hfine.ranged present visited _ hclosing
      refine hfine.range (by simp [hnot]) ⟨hm.stored, hm.visited, ?_⟩
      intro _ hwait
      cases hwait
      obtain rfl := hself y hy
      simpa [hnot] using hold.requested hrequested
    · cases hstep
      refine h.move ?_ ?_ h.returned
      · intro y hy hfine
        have hr := hfine.ranged present visited _ hclosing
        exact hfine.request ⟨hr.stored, hr.visited, by simp⟩
      · intro m y hm hfine
        have hr := hfine.ranged present visited _ hclosing
        exact hfine.range (by simp [hnot]) (hr.leave (by simp) n)
  | finish =>
    cases hstep
    refine h.move (fun y hy hfine => Fine.closed) ?_ h.returned
    intro m y hm hfine
    have hr := hfine.ranged present visited _ hclosing
    refine hfine.range (by simp [hfinishing m hm]) ⟨hr.stored, hr.visited, ?_⟩
    intro _ hwait
    cases hwait
    exact absurd rfl hm
  | wait =>
    simp only [visitStep] at hstep
    split_ifs at hstep with hloops
    cases hstep
    have hclosed : x.stored = true → x.closedChan = true := by
      intro hstored
      rcases (hold.ranged present visited _ hclosing).waiting hstored rfl with hc | hcall
      · exact hc
      · rcases hold.output hcall with ho | hc
        · simp [ho] at hloops
        · exact hc
    refine h.become ?_ h.returned
    intro m y hy hfine
    have hr := hfine.ranged present visited _ hclosing
    have hnot : s.underlay.finishing m = false := by simp [Underlay.finishing, hclosing]
    refine hfine.range (by simp [hnot]) ⟨hr.stored, ?_, by simp⟩
    intro hstored hmem
    rcases List.mem_append.mp hmem with hmem | hmem
    · exact hr.visited hstored hmem
    · cases List.mem_singleton.mp hmem
      obtain rfl := hself y hy
      exact hclosed hstored

theorem addSession_inv (h : Inv s) (id : ℕ) (isClient : Bool) :
    Inv { s with sessions := s.sessions ++ [{ id, isClient }] } := by
  refine ⟨?_, h.returned⟩
  intro n x hx
  change (s.sessions ++ [_])[n]? = some x at hx
  rw [List.getElem?_append] at hx
  split_ifs at hx
  · exact h.fine n x hx
  · obtain rfl : x = { id, isClient } := List.mem_singleton.mp (List.mem_of_getElem? hx)
    have hnot : ¬ Session.stored { id, isClient } = true := by simp [Session.stored]
    exact {
      stored := fun hs => absurd hs hnot
      output := fun hc => by cases hc
      requested := fun hq => by cases hq
      ranged := fun _ _ _ _ => ⟨fun hs => absurd hs hnot, fun hs => absurd hs hnot,
        fun hs => absurd hs hnot⟩
      done := fun _ hs => absurd hs hnot }

theorem rangeEnd_inv (h : Inv s)
    (hclosing : s.underlay.closing = some (.ranging present visited none))
    (hall : ∀ m ∈ present, m ∈ visited ∨ m ∉ s.underlay.sessionMap) :
    Inv (s.become { s.underlay with closing := none, done := true, closeReturned := true }) := by
  refine h.become ?_ fun _ => rfl
  intro n x _ hfine
  have hr := hfine.ranged present visited none hclosing
  have hnot : s.underlay.finishing n = false := by simp [Underlay.finishing, hclosing]
  have hclosed : x.stored = true → x.closedChan = true := by
    intro hstored
    rcases hr.stored hstored with hpresent | hc
    · rcases hall n hpresent with hvisited | hgone
      · exact hr.visited hstored hvisited
      · exact (hfine.stored hstored).resolve_left hgone
    · exact hc
  exact {
    stored := fun hs => Or.inr (hclosed hs)
    output := hfine.output
    requested := fun hq => (hfine.requested hq).imp_right fun hc => hc.imp_right (by simp [hnot])
    ranged := fun _ _ _ hu => by cases hu
    done := fun _ => hclosed }

theorem remove_inv (h : Inv s) (hx : s.sessions[n]? = some x) (hclosed : x.closedChan = true) :
    Inv (s.become
      { s.underlay with sessionMap := s.underlay.sessionMap.filter fun m => m ≠ n }) := by
  refine h.become ?_ h.returned
  intro m y hy hfine
  refine ⟨?_, hfine.output, hfine.requested, hfine.ranged, hfine.done⟩
  intro hstored
  by_cases hm : m = n
  · subst hm
    rw [hx] at hy
    cases hy
    exact Or.inr hclosed
  · exact (hfine.stored hstored).imp_left fun hmem => List.mem_filter.mpr ⟨hmem, by simp [hm]⟩

theorem next_inv {e : Event} (h : Inv s) (hguard : inOrder s e = true)
    (hstep : next s e = some s') : Inv s' := by
  cases e with
  | addSession id isClient =>
    cases hstep
    exact addSession_inv h id isClient
  | addStep n =>
    obtain ⟨x, hx, hstep⟩ := Option.bind_eq_some_iff.mp hstep
    exact addStep_inv h hx hguard hstep
  | close =>
    simp only [next] at hstep
    split at hstep
    · cases hstep
    · rename_i hclosing
      split_ifs at hstep with hdone
      · cases hstep
        refine h.become ?_ fun _ => hdone
        intro n x _ hfine
        exact ⟨hfine.stored, hfine.output, hfine.requested, hfine.ranged, hfine.done⟩
      · cases hstep
        refine h.become ?_ h.returned
        intro n x _ hfine
        have hnot : s.underlay.finishing n = false := by simp [Underlay.finishing, hclosing]
        exact ⟨hfine.stored, hfine.output,
          fun hq => (hfine.requested hq).imp_right fun hc => hc.imp_right (by simp [hnot]),
          (fun _ _ _ hu => by cases hu), hfine.done⟩
  | rangeStart =>
    simp only [next] at hstep
    split at hstep
    · rename_i hclosing
      cases hstep
      refine h.become ?_ h.returned
      intro n x _ hfine
      have hnot : s.underlay.finishing n = false := by simp [Underlay.finishing, hclosing]
      exact hfine.range (by simp [hnot]) ⟨hfine.stored, by simp, by simp⟩
    · cases hstep
  | visit n =>
    simp only [next] at hstep
    split at hstep
    · rename_i present visited hclosing
      split_ifs at hstep
      cases hstep
      refine h.become ?_ h.returned
      intro m x _ hfine
      have hr := hfine.ranged present visited none hclosing
      have hnot : s.underlay.finishing m = false := by simp [Underlay.finishing, hclosing]
      exact hfine.range (by simp [hnot]) (hr.leave (by simp) n)
    · cases hstep
  | visitStep =>
    simp only [next] at hstep
    split at hstep
    · rename_i present visited n v hclosing
      obtain ⟨x, hx, hstep⟩ := Option.bind_eq_some_iff.mp hstep
      exact visitStep_inv h hclosing hx hstep
    · cases hstep
  | rangeEnd =>
    simp only [next] at hstep
    split at hstep
    · rename_i present visited hclosing
      split_ifs at hstep with hall
      cases hstep
      exact rangeEnd_inv h hclosing hall
    · cases hstep
  | requestClose n =>
    obtain ⟨x, hx, hstep⟩ := Option.bind_eq_some_iff.mp hstep
    split_ifs at hstep with hcan
    cases hstep
    exact h.update_at hx fun hfine =>
      hfine.mono id id id hfine.output fun _ => Or.inr (Or.inr hcan.1)
  | finishClose n =>
    obtain ⟨x, hx, hstep⟩ := Option.bind_eq_some_iff.mp hstep
    split_ifs at hstep
    cases hstep
    exact h.update fun y _ _ => Fine.closed
  | inputEnds n =>
    obtain ⟨x, hx, hstep⟩ := Option.bind_eq_some_iff.mp hstep
    split_ifs at hstep
    cases hstep
    exact h.update fun y _ hfine => hfine.mono id id id hfine.output Or.inl
  | outputEnds n =>
    obtain ⟨x, hx, hstep⟩ := Option.bind_eq_some_iff.mp hstep
    split_ifs at hstep with hclosed
    cases hstep
    exact h.update_at hx fun hfine => hfine.mono id id id (fun _ => Or.inr hclosed) Or.inl
  | establish n =>
    cases hstep
    exact h.update fun y _ hfine => hfine.mono id id id hfine.output Or.inl
  | remove n =>
    obtain ⟨x, hx, hstep⟩ := Option.bind_eq_some_iff.mp hstep
    split_ifs at hstep
    cases hstep
    exact remove_inv h hx (by simpa [inOrder, hx] using hguard)

/-- Once a `Close` has returned, each `AddSession` call that has returned too gave an error or its
session is closed, if sessions are put in the map before `Close` starts to range over it. -/
theorem closed_with_underlay {isClient : Bool} {es : List Event} {outs : List Empty}
    {err : Option String}
    (h : Machine.Reaches step (fun s e => inOrder s e = true) (.initial isClient) es outs s)
    (hclose : s.underlay.closeReturned = true) (hx : s.sessions[n]? = some x)
    (hadd : x.call = .returned err) : err ≠ none ∨ x.closedChan = true := by
  have hinv : Inv s := by
    refine h.invariant (I := fun s _ => Inv s) ⟨by simp [State.initial], by simp [State.initial]⟩ ?_
    intro s outs e s' out hinv hguard hstep
    obtain ⟨t, ht, heq⟩ := Option.map_eq_some_iff.mp hstep
    cases heq
    exact next_inv hinv hguard ht
  cases err with
  | some e => exact Or.inl (by simp)
  | none =>
    refine Or.inr ((hinv.fine n x hx).done (hinv.returned hclose) ?_)
    simp [Session.stored, hadd]

/-- `Close` meets the session before it is attached. -/
def overlappingRun : List Event :=
  [.addSession 7 true, .addStep 0, .addStep 0, .close, .rangeStart, .visit 0, .visitStep,
    .visitStep, .addStep 0, .addStep 0, .inputEnds 0, .outputEnds 0, .visitStep, .rangeEnd]

def overlappedSession : Session :=
  { id := 7, isClient := true, state := .closed, ready := true, closeRequested := true,
    closedChan := true, call := .returned none }

theorem overlapping_session_closed :
    ∃ s, Machine.Reaches step (fun s e => inOrder s e = true) (.initial true) overlappingRun [] s ∧
      s.underlay.closeReturned = true ∧ s.sessions[0]? = some overlappedSession ∧
        ((none : Option String) ≠ none ∨ overlappedSession.closedChan = true) := by
  have hrun : Machine.run (Machine.guarded inOrder step) (.initial true) overlappingRun =
      some (⟨{ isClient := true, sessionMap := [0], done := true, closeReturned := true },
        [overlappedSession]⟩, []) := rfl
  have hreach := Machine.reaches_of_guarded_run hrun
  exact ⟨_, hreach, rfl, rfl, closed_with_underlay (n := 0) hreach rfl rfl rfl⟩

/-- An underlay that is closed after it was picked and before the session is added. -/
def lateRun : List Event :=
  [.close, .rangeStart, .rangeEnd, .addSession 7 true, .addStep 0, .addStep 0, .addStep 0,
    .addStep 0]

theorem late_session_open :
    ∃ s x, Machine.Reaches step Machine.Free (.initial true) lateRun [] s ∧
      s.underlay.closeReturned = true ∧ s.sessions[0]? = some x ∧ x.call = .returned none ∧
        x.closedChan = false := by
  have hrun : Machine.run step (.initial true) lateRun = some (_, []) := rfl
  exact ⟨_, _, Machine.reaches_of_run hrun, rfl, rfl, rfl, rfl⟩

end Mieru.Protocol.UnderlayClose
