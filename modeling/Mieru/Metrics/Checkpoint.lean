import Mieru.Lib.CrashDisk
import Mieru.Lib.Machine

/-! # Writing a checkpoint file

The metrics are written to a temporary file that then takes the place of the checkpoint. Any call
to the file system may fail, and the machine may crash between any two calls. -/
namespace Mieru.Metrics.Checkpoint

open CrashDisk Function

/-- The calls of `writeCheckpointFile` to the file system; the last three are deferred. -/
inductive Call where
  | lstat
  | openDir
  | createTemp
  | write
  | chmod
  | sync
  | close
  | rename
  | syncDir
  | closeTemp
  | removeTemp
  | closeDir
  deriving DecidableEq

namespace Call

def context : Call → String
  | lstat => "stat checkpoint: "
  | openDir => "open checkpoint directory: "
  | createTemp => "create temporary checkpoint: "
  | write => "write temporary checkpoint: "
  | chmod => "set checkpoint permissions: "
  | sync => "sync temporary checkpoint: "
  | close | closeTemp => "close temporary checkpoint: "
  | rename => "publish checkpoint: "
  | syncDir => "checkpoint published but directory sync failed; crash durability uncertain: "
  | removeTemp => "remove temporary checkpoint: "
  | closeDir => "close checkpoint directory: "

def afterSuccess : Call → Option Call
  | lstat => some openDir
  | openDir => some createTemp
  | createTemp => some write
  | write => some chmod
  | chmod => some sync
  | sync => some close
  | close => some rename
  | rename => some syncDir
  | syncDir | closeTemp => some removeTemp
  | removeTemp => some closeDir
  | closeDir => none

/-- The temporary file is closed once, and then removed if it is still there. -/
def afterFailure : Call → Option Call
  | lstat | openDir | closeDir => none
  | createTemp | removeTemp => some closeDir
  | write | chmod | sync => some closeTemp
  | close | rename | syncDir | closeTemp => some removeTemp

def deferred : Call → Bool
  | closeTemp | removeTemp | closeDir => true
  | _ => false

def temporary : Call → Bool
  | lstat | openDir | createTemp | closeDir => false
  | _ => true

end Call

structure State (ν : Type) where
  disk : Disk ν UInt8
  call : Option Call
  data : List UInt8
  mode : ℕ
  name : ν
  inode : ℕ
  /-- Joined as by `errors.Join`. -/
  errs : List String
  published : List (Option (Image UInt8))
  /-- The place in `published` that the last attempt without an error left. -/
  confirmed : ℕ

structure Returned where
  data : List UInt8
  errs : List String
  deriving DecidableEq

inductive Event (ν : Type) where
  | dump (data : List UInt8)
  | succeed
  | fail (cause : String)
  | irregular
  | create (name : ν)
  /-- A write that stops early, with an error or without one. -/
  | short (n : ℕ) (cause : Option String)
  | crash (choice : ℕ) (lost : ℕ → Image UInt8)

variable {ν : Type}

namespace State

def newMode (s : State ν) (path : ν) : ℕ :=
  match s.disk.dir path with
  | some i => (s.disk.file i).mode
  | none => 0o600

def perform [DecidableEq ν] (s : State ν) (path : ν) : Call → State ν
  | .lstat => { s with mode := s.newMode path }
  | .write => { s with disk := s.disk.write s.inode s.data }
  | .chmod => { s with disk := s.disk.chmod s.inode s.mode }
  | .sync => { s with disk := s.disk.sync s.inode }
  | .rename => { s with
      disk := s.disk.rename s.name path
      published := s.published ++ [some ⟨s.data, s.mode⟩] }
  | .syncDir => { s with disk := s.disk.syncDir }
  | .removeTemp => { s with disk := s.disk.remove s.name }
  | .openDir | .createTemp | .close | .closeTemp | .closeDir => s

def proceed (s : State ν) : Option Call → State ν × List Returned
  | some call => ({ s with call := some call }, [])
  | none => ({ s with
      call := none
      confirmed := if s.errs = [] then s.published.length - 1 else s.confirmed },
      [⟨s.data, s.errs⟩])

def failWith (s : State ν) (call : Call) (err : String) : State ν × List Returned :=
  { s with errs := s.errs ++ [err] }.proceed call.afterFailure

end State

def step [DecidableEq ν] (path : ν) (s : State ν) : Event ν → Option (State ν × List Returned)
  | .dump data => if s.call = none then
      some ({ s with call := some .lstat, data, errs := [] }, [])
    else none
  | .succeed => match s.call with
    | none | some .createTemp => none
    | some call => some ((s.perform path call).proceed call.afterSuccess)
  | .fail cause => s.call.map fun call => s.failWith call (call.context ++ cause)
  | .irregular => if s.call = some .lstat then
      some (s.failWith .lstat "checkpoint destination is not a regular file")
    else none
  | .create name => if s.call = some .createTemp ∧ name ≠ path ∧ s.disk.dir name = none then
      some ({ s with disk := s.disk.create name 0o600, name, inode := s.disk.next }.proceed
        (some .write))
    else none
  | .short n cause => if s.call = some .write ∧ (cause = none → n < s.data.length) then
      some ({ s with disk := s.disk.write s.inode (s.data.take n) }.failWith .write
        (Call.context .write ++ cause.getD "short write"))
    else none
  | .crash choice lost => (s.disk.crash choice lost).map fun disk =>
      ({ s with disk, call := none }, [])

def start [DecidableEq ν] (path : ν) (v : Option (Image UInt8)) : State ν where
  disk :=
    { file _ := (v.map Image.saved).getD ⟨[], 0, true⟩
      dir := update (fun _ => none) path (v.map fun _ => 0)
      past := []
      next := 1 }
  call := none
  data := []
  mode := 0
  name := path
  inode := 0
  errs := []
  published := [v]
  confirmed := 0

def modeOf (v : Option (Image UInt8)) : ℕ := (v.map Image.mode).getD 0o600

def lastSaved (outs : List Returned) : Option Returned := (outs.filter (·.errs = [])).getLast?

/-! ## What is found at the path -/

namespace State

/-- Something that was published, and not before the last attempt without an error. -/
def Recent (s : State ν) (entry : Option ℕ) : Prop :=
  ∃ k v, s.confirmed ≤ k ∧ s.published[k]? = some v ∧ s.disk.Shows entry v

def Own (s : State ν) (path : ν) : Prop :=
  s.disk.Every path (· ≠ some s.inode) ∧ s.disk.dir s.name = some s.inode ∧
    s.inode < s.disk.next

/-- Nothing but the last published file is found, even after a crash. -/
def Settled (s : State ν) (path : ν) : Prop :=
  ∃ v, v.data = s.data ∧ s.published.getLast? = some (some v) ∧
    s.disk.Every path fun entry => s.disk.Shows entry (some v)

def Ready (s : State ν) (path : ν) : Call → Prop
  | .lstat | .openDir | .createTemp => True
  | .write => s.Own path ∧ (s.disk.file s.inode).data = []
  | .chmod => s.Own path ∧ (s.disk.file s.inode).data = s.data
  | .sync => s.Own path ∧ (s.disk.file s.inode).data = s.data ∧
      (s.disk.file s.inode).mode = s.mode
  | .close | .rename => s.Own path ∧ s.disk.file s.inode = Image.saved ⟨s.data, s.mode⟩
  | .syncDir => s.disk.Shows (s.disk.dir path) (some ⟨s.data, s.mode⟩) ∧
      s.published.getLast? = some (some ⟨s.data, s.mode⟩)
  | .closeTemp => False
  | .removeTemp | .closeDir => s.Settled path

structure Sound (path : ν) (mode : ℕ) (outs : List Returned) (s : State ν) : Prop where
  recent : s.disk.Every path s.Recent
  bound : s.disk.Every path fun entry => ∀ i ∈ entry, i < s.disk.next
  modes : ∀ v ∈ s.published, modeOf v = mode
  recorded : ∀ r, lastSaved outs = some r →
    ∃ v, v.data = r.data ∧ s.published[s.confirmed]? = some (some v)

/-- What holds before the next call. After a failure only the deferred calls are left. -/
structure Prepared (path : ν) (mode : ℕ) (s : State ν) (call : Call) : Prop where
  named : call.temporary = true → s.name ≠ path
  moded : call ≠ .lstat → s.mode = mode
  ready : s.errs = [] ∧ s.Ready path call ∨ s.errs ≠ [] ∧ call.deferred = true

def Continues (path : ν) (mode : ℕ) (s : State ν) : Option Call → Prop
  | some call => s.Prepared path mode call
  | none => s.errs = [] → s.Settled path

variable {s : State ν} {path : ν} {mode : ℕ} {outs : List Returned}

theorem Sound.setFile (h : s.Sound path mode outs) {i : ℕ} (hi : s.disk.Every path (· ≠ some i))
    (f : File UInt8) : Sound path mode outs { s with disk := s.disk.setFile i f } := by
  refine ⟨fun dir hdir => ?_, h.bound, h.modes, h.recorded⟩
  obtain ⟨k, v, hk, hv, hshows⟩ := h.recent dir hdir
  exact ⟨k, v, hk, hv, hshows.setFile (hi dir hdir) f⟩

theorem Sound.setDir (h : s.Sound path mode outs) {dir : ν → Option ℕ}
    (hdir : dir path = s.disk.dir path) :
    Sound path mode outs { s with disk := s.disk.setDir dir } :=
  ⟨h.recent.setDir (hdir ▸ h.recent.now), h.bound.setDir (hdir ▸ h.bound.now), h.modes, h.recorded⟩

theorem Sound.confirmed_lt (h : s.Sound path mode outs) : s.confirmed < s.published.length := by
  obtain ⟨k, v, hk, hv, -⟩ := h.recent.now
  exact Nat.lt_of_le_of_lt hk (List.getElem?_eq_some_iff.mp hv).1

theorem Sound.newMode_eq (h : s.Sound path mode outs) : s.newMode path = mode := by
  obtain ⟨k, v, -, hv, hshows⟩ := h.recent.now
  have hmode := h.modes v (List.mem_of_getElem? hv)
  unfold newMode
  cases hentry : s.disk.dir path with
  | none =>
    rw [hentry] at hshows
    cases v with
    | none => exact hmode
    | some img => cases hshows
  | some i =>
    rw [hentry] at hshows
    cases v with
    | none => cases hshows
    | some img =>
      have hfile : s.disk.file i = img.saved := Option.some.inj hshows
      exact (congrArg File.mode hfile).trans hmode

theorem rename_sound [DecidableEq ν] (h : s.Sound path mode outs) (hname : s.name ≠ path)
    (hmode : s.mode = mode) (hready : s.Ready path .rename) :
    (s.perform path .rename).Sound path mode outs ∧
      (s.perform path .rename).Ready path .syncDir := by
  obtain ⟨⟨-, hdir, hlt⟩, hfile⟩ := hready
  have hentry : update (update s.disk.dir path (s.disk.dir s.name)) s.name none path =
      some s.inode := by
    rw [update_of_ne (Ne.symm hname), update_self, hdir]
  have hshows : s.disk.Shows (some s.inode) (some ⟨s.data, s.mode⟩) := congrArg some hfile
  have hrecent : s.disk.Every path
      (Recent { s with published := s.published ++ [some ⟨s.data, s.mode⟩] }) := by
    refine h.recent.imp fun entry ⟨k, v, hk, hv, hv'⟩ => ⟨k, v, hk, ?_, hv'⟩
    rw [List.getElem?_append_left (List.getElem?_eq_some_iff.mp hv).1, hv]
  refine ⟨⟨hrecent.setDir ?_, h.bound.setDir ?_, fun v hv => ?_, fun r hr => ?_⟩, ?_, ?_⟩
  · rw [hentry]
    exact ⟨s.published.length, _, Nat.le_of_lt h.confirmed_lt, List.getElem?_concat_length ..,
      hshows⟩
  · rw [hentry]
    rintro i hi
    cases hi
    exact hlt
  · rcases List.mem_append.mp hv with hv | hv
    · exact h.modes v hv
    · rw [List.mem_singleton.mp hv]
      exact hmode
  · obtain ⟨v, hv, hat⟩ := h.recorded r hr
    refine ⟨v, hv, ?_⟩
    rw [← hat]
    exact List.getElem?_append_left h.confirmed_lt
  · change s.disk.Shows (update (update s.disk.dir path _) s.name none path) _
    rwa [hentry]
  · exact List.getLast?_concat ..

theorem Prepared.of_succeeded {s' : State ν} {call next : Call} (hp : s.Prepared path mode call)
    (hcall : call ≠ .lstat ∧ (next.temporary = true → call.temporary = true))
    (hname : s'.name = s.name) (hmode : s'.mode = s.mode)
    (hready : s'.errs = [] ∧ s'.Ready path next ∨ s'.errs ≠ [] ∧ next.deferred = true) :
    s'.Prepared path mode next :=
  ⟨fun h => hname ▸ hp.named (hcall.2 h), fun _ => hmode ▸ hp.moded hcall.1, hready⟩

theorem perform_sound [DecidableEq ν] (h : s.Sound path mode outs) {call : Call}
    (hp : s.Prepared path mode call) (hcall : call ≠ .createTemp) :
    (s.perform path call).Sound path mode outs ∧
      (s.perform path call).Continues path mode call.afterSuccess := by
  have hpath (hname : s.name ≠ path) : update s.disk.dir s.name none path = s.disk.dir path :=
    update_of_ne (Ne.symm hname) _ _
  rcases hp.ready with ⟨herrs, hready⟩ | ⟨herrs, hdeferred⟩
  · cases call with
    | createTemp => exact absurd rfl hcall
    | lstat =>
      exact ⟨⟨h.recent, h.bound, h.modes, h.recorded⟩,
        (fun htemp => by cases htemp), fun _ => h.newMode_eq, .inl ⟨herrs, trivial⟩⟩
    | openDir => exact ⟨h, hp.of_succeeded (by decide) rfl rfl (.inl ⟨herrs, trivial⟩)⟩
    | write =>
      obtain ⟨hown, hdata⟩ := hready
      refine ⟨h.setFile hown.1 _, hp.of_succeeded (by decide) rfl rfl
        (.inl ⟨herrs, hown, ?_⟩)⟩
      simp only [perform, Disk.write, Disk.setFile, update_self, hdata, List.nil_append]
    | chmod =>
      obtain ⟨hown, hdata⟩ := hready
      refine ⟨h.setFile hown.1 _, hp.of_succeeded (by decide) rfl rfl
        (.inl ⟨herrs, hown, ?_⟩)⟩
      simp only [perform, Disk.chmod, Disk.setFile, update_self, hdata, and_self]
    | sync =>
      obtain ⟨hown, hdata, hmode⟩ := hready
      refine ⟨h.setFile hown.1 _, hp.of_succeeded (by decide) rfl rfl
        (.inl ⟨herrs, hown, ?_⟩)⟩
      simp only [perform, Disk.sync, Disk.setFile, update_self, hdata, hmode, Image.saved]
    | close => exact ⟨h, hp.of_succeeded (by decide) rfl rfl (.inl ⟨herrs, hready⟩)⟩
    | rename =>
      obtain ⟨hsound, hready'⟩ := rename_sound h (hp.named rfl) (hp.moded (by decide)) hready
      exact ⟨hsound, hp.of_succeeded (by decide) rfl rfl (.inl ⟨herrs, hready'⟩)⟩
    | syncDir =>
      obtain ⟨hshows, hlast⟩ := hready
      refine ⟨⟨Disk.every_syncDir h.recent.now, Disk.every_syncDir h.bound.now, h.modes,
        h.recorded⟩, hp.of_succeeded (by decide) rfl rfl (.inl ⟨herrs, ?_⟩)⟩
      exact ⟨_, rfl, hlast, Disk.every_syncDir hshows⟩
    | closeTemp => exact hready.elim
    | removeTemp =>
      have hsame := hpath (hp.named rfl)
      obtain ⟨v, hv, hlast, hshows⟩ := hready
      exact ⟨h.setDir hsame, hp.of_succeeded (by decide) rfl rfl
        (.inl ⟨herrs, v, hv, hlast, hshows.setDir (hsame ▸ hshows.now)⟩)⟩
    | closeDir => exact ⟨h, fun _ => hready⟩
  · cases call with
    | closeTemp => exact ⟨h, hp.of_succeeded (by decide) rfl rfl (.inr ⟨herrs, rfl⟩)⟩
    | removeTemp =>
      exact ⟨h.setDir (hpath (hp.named rfl)), hp.of_succeeded (by decide) rfl rfl
        (.inr ⟨herrs, rfl⟩)⟩
    | closeDir => exact ⟨h, fun hnil => absurd hnil herrs⟩
    | _ => cases hdeferred

structure Invariant (path : ν) (mode : ℕ) (s : State ν) (outs : List Returned) : Prop where
  sound : s.Sound path mode outs
  prepared : ∀ call, s.call = some call → s.Prepared path mode call

theorem lastSaved_saved (outs : List Returned) (data : List UInt8) :
    lastSaved (outs ++ [⟨data, []⟩]) = some ⟨data, []⟩ := by
  simp [lastSaved]

theorem lastSaved_failed (outs : List Returned) (data : List UInt8) {errs : List String}
    (h : errs ≠ []) : lastSaved (outs ++ [⟨data, errs⟩]) = lastSaved outs := by
  simp [lastSaved, h]

theorem proceed_invariant (h : s.Sound path mode outs) {next : Option Call}
    (hnext : s.Continues path mode next) :
    (s.proceed next).1.Invariant path mode (outs ++ (s.proceed next).2) := by
  cases next with
  | some call =>
    unfold proceed
    rw [List.append_nil]
    refine ⟨⟨h.recent, h.bound, h.modes, h.recorded⟩, fun call' hcall => ?_⟩
    cases hcall
    refine ⟨hnext.named, hnext.moded, ?_⟩
    cases call <;> exact hnext.ready
  | none =>
    unfold proceed
    dsimp only
    by_cases herrs : s.errs = []
    · obtain ⟨v, hv, hlast, hshows⟩ := hnext herrs
      rw [List.getLast?_eq_getElem?] at hlast
      rw [if_pos herrs, herrs]
      refine ⟨⟨fun dir hdir => ⟨_, _, Nat.le_refl _, hlast, hshows dir hdir⟩, h.bound, h.modes,
        fun r hr => ?_⟩, fun call hcall => by cases hcall⟩
      cases (lastSaved_saved outs s.data).symm.trans hr
      exact ⟨v, hv, hlast⟩
    · rw [if_neg herrs]
      refine ⟨⟨h.recent, h.bound, h.modes, fun r hr => ?_⟩, fun call hcall => by cases hcall⟩
      rw [lastSaved_failed outs s.data herrs] at hr
      exact h.recorded r hr

theorem failWith_invariant (h : s.Sound path mode outs) {call : Call}
    (hname : call.temporary = true → s.name ≠ path) (hmode : call ≠ .lstat → s.mode = mode)
    (err : String) :
    (s.failWith call err).1.Invariant path mode (outs ++ (s.failWith call err).2) := by
  have herrs : s.errs ++ [err] ≠ [] := List.concat_ne_nil _ _
  have hsound : Sound path mode outs { s with errs := s.errs ++ [err] } :=
    ⟨h.recent, h.bound, h.modes, h.recorded⟩
  refine proceed_invariant hsound ?_
  cases call with
  | lstat | openDir | closeDir => exact fun hnil => absurd hnil herrs
  | createTemp | removeTemp =>
    exact ⟨(fun htemp => by cases htemp), fun _ => hmode (by decide), .inr ⟨herrs, rfl⟩⟩
  | _ => exact ⟨fun _ => hname rfl, fun _ => hmode (by decide), .inr ⟨herrs, rfl⟩⟩

variable {s' : State ν} {out : List Returned}

theorem create_invariant [DecidableEq ν] (h : s.Sound path mode outs) (hmode : s.mode = mode)
    (herrs : s.errs = []) {name : ν} (hname : name ≠ path) :
    Invariant path mode
      ({ s with disk := s.disk.create name 0o600, name, inode := s.disk.next }.proceed
        (some .write)).1 (outs ++ []) := by
  set t : State ν := { s with disk := s.disk.create name 0o600, name, inode := s.disk.next }
  have hpath : update s.disk.dir name (some s.disk.next) path = s.disk.dir path :=
    update_of_ne (Ne.symm hname) _ _
  have happart : s.disk.Every path (· ≠ some s.disk.next) := by
    intro dir hdir hentry
    exact Nat.lt_irrefl _ (h.bound dir hdir s.disk.next hentry)
  have hold := (h.setFile happart ⟨[], 0o600, false⟩).setDir hpath
  have hsound : t.Sound path mode outs :=
    ⟨hold.recent, fun dir hdir i hi => Nat.lt_succ_of_lt (hold.bound dir hdir i hi), hold.modes,
      hold.recorded⟩
  have hown : t.Own path :=
    ⟨happart.setDir (ne_of_eq_of_ne hpath happart.now), update_self .., Nat.lt_succ_self _⟩
  have hfile : t.disk.file t.inode = ⟨[], 0o600, false⟩ := update_self ..
  have hempty : (t.disk.file t.inode).data = [] := congrArg File.data hfile
  have hready : t.Prepared path mode .write :=
    ⟨fun _ => hname, fun _ => hmode, .inl ⟨herrs, hown, hempty⟩⟩
  exact proceed_invariant hsound hready

theorem step_invariant [DecidableEq ν] {e : Event ν} (h : s.Invariant path mode outs)
    (hs : step path s e = some (s', out)) : s'.Invariant path mode (outs ++ out) := by
  obtain ⟨hsound, hprepared⟩ := h
  cases e with
  | dump data =>
    simp only [step, Option.ite_none_right_eq_some, Option.some.injEq, Prod.mk.injEq] at hs
    obtain ⟨-, rfl, rfl⟩ := hs
    rw [List.append_nil]
    refine ⟨⟨hsound.recent, hsound.bound, hsound.modes, hsound.recorded⟩, fun call hcall => ?_⟩
    cases hcall
    exact ⟨(fun htemp => by cases htemp), fun hne => absurd rfl hne, .inl ⟨rfl, trivial⟩⟩
  | succeed =>
    simp only [step] at hs
    split at hs
    · cases hs
    · cases hs
    · rename_i call hne hcall
      obtain ⟨hsound', hnext⟩ := perform_sound hsound (hprepared call hcall) hne
      obtain ⟨rfl, rfl⟩ := Prod.mk.inj (Option.some.inj hs)
      exact proceed_invariant hsound' hnext
  | fail cause =>
    obtain ⟨call, hcall, heq⟩ := Option.map_eq_some_iff.mp hs
    obtain ⟨rfl, rfl⟩ := Prod.mk.inj heq
    exact failWith_invariant hsound (hprepared call hcall).named (hprepared call hcall).moded _
  | irregular =>
    simp only [step, Option.ite_none_right_eq_some, Option.some.injEq] at hs
    obtain ⟨hcall, heq⟩ := hs
    obtain ⟨rfl, rfl⟩ := Prod.mk.inj heq
    exact failWith_invariant hsound (hprepared _ hcall).named (hprepared _ hcall).moded _
  | create name =>
    simp only [step, Option.ite_none_right_eq_some, Option.some.injEq] at hs
    obtain ⟨⟨hcall, hname, -⟩, heq⟩ := hs
    obtain ⟨rfl, rfl⟩ := Prod.mk.inj heq
    obtain ⟨-, hmode, ⟨herrs, -⟩ | ⟨-, hdeferred⟩⟩ := hprepared _ hcall
    · exact create_invariant hsound (hmode (by decide)) herrs hname
    · cases hdeferred
  | short n cause =>
    simp only [step, Option.ite_none_right_eq_some, Option.some.injEq] at hs
    obtain ⟨⟨hcall, -⟩, heq⟩ := hs
    obtain ⟨rfl, rfl⟩ := Prod.mk.inj heq
    obtain ⟨hname, hmode, ⟨herrs, hown, -⟩ | ⟨-, hdeferred⟩⟩ := hprepared _ hcall
    · exact failWith_invariant (hsound.setFile hown.1 _) hname hmode _
    · cases hdeferred
  | crash choice lost =>
    obtain ⟨disk, hcrash, heq⟩ := Option.map_eq_some_iff.mp hs
    obtain ⟨rfl, rfl⟩ := Prod.mk.inj heq
    rw [List.append_nil]
    refine ⟨⟨?_, ?_, hsound.modes, hsound.recorded⟩, fun call hcall => by cases hcall⟩
    · refine (hsound.recent.crash hcrash).imp fun entry hentry => ?_
      obtain ⟨k, v, hk, hv, hshows⟩ := hentry
      exact ⟨k, v, hk, hv, hshows.crash hcrash⟩
    · rw [Disk.next_of_crash hcrash]
      exact hsound.bound.crash hcrash

end State

theorem start_invariant [DecidableEq ν] (path : ν) (v : Option (Image UInt8)) :
    (start path v).Invariant path (modeOf v) [] := by
  have hentry : (start path v).disk.dir path = v.map fun _ => 0 := by
    simp only [start, update_self]
  have hshows : (start path v).disk.Shows ((start path v).disk.dir path) v := by
    rw [hentry]
    cases v <;> rfl
  refine ⟨⟨fun dir hdir => ?_, fun dir hdir => ?_, fun w hw => ?_, fun r hr => by cases hr⟩,
    fun call hcall => by cases hcall⟩
  · rw [List.mem_singleton.mp hdir]
    exact ⟨0, v, Nat.le_refl 0, rfl, hshows⟩
  · rw [List.mem_singleton.mp hdir, hentry]
    intro i hi
    cases v <;> cases hi
    exact Nat.zero_lt_one
  · rw [List.mem_singleton.mp hw]

/-- Whatever fails and whenever the machine crashes, the checkpoint is complete: it is a file that
was published in one piece, and not an older one than the last attempt without an error left. Its
mode stays what it was. -/
theorem checkpoint_durable [DecidableEq ν] {path : ν} {v : Option (Image UInt8)}
    {es : List (Event ν)} {outs : List Returned} {s : State ν}
    (h : Machine.Reaches (step path) Machine.Free (start path v) es outs s) :
    (∃ k w, s.confirmed ≤ k ∧ s.published[k]? = some w ∧
      (s.disk.dir path).map s.disk.file = w.map Image.saved ∧ modeOf w = modeOf v) ∧
    ∀ r, lastSaved outs = some r →
      ∃ w, w.data = r.data ∧ s.published[s.confirmed]? = some (some w) := by
  have hinv : s.Invariant path (modeOf v) outs :=
    h.invariant (start_invariant path v) fun _ _ _ _ _ hi _ hs => State.step_invariant hi hs
  obtain ⟨k, w, hk, hw, hshows⟩ := hinv.sound.recent.now
  exact ⟨⟨k, w, hk, hw, hshows, hinv.sound.modes w (List.mem_of_getElem? hw)⟩,
    hinv.sound.recorded⟩

/-- A second attempt publishes its file, and the machine crashes before the directory is synced. -/
def crashedRun : List (Event Bool) :=
  [.dump [1], .succeed, .succeed, .create false] ++ List.replicate 8 .succeed ++
  [.dump [2], .succeed, .succeed, .create false] ++ List.replicate 5 .succeed ++
  [.fail "input/output error", .crash 1 fun _ => ⟨[], 0⟩]

theorem crashed_checkpoint_durable :
    ∃ s, Machine.run (step true) (start true none) crashedRun = some (s, [⟨[1], []⟩]) ∧
      (s.disk.dir true).map s.disk.file = some (Image.saved ⟨[1], 0o600⟩) ∧
      ∃ k w, s.confirmed ≤ k ∧ s.published[k]? = some w ∧
        (s.disk.dir true).map s.disk.file = w.map Image.saved ∧ modeOf w = 0o600 := by
  have hrun : ∃ s, Machine.run (step true) (start true none) crashedRun = some (s, [⟨[1], []⟩]) ∧
      (s.disk.dir true).map s.disk.file = some (Image.saved ⟨[1], 0o600⟩) := ⟨_, rfl, rfl⟩
  obtain ⟨s, hs, hfile⟩ := hrun
  exact ⟨s, hs, hfile, (checkpoint_durable (Machine.reaches_of_run hs)).1⟩

end Mieru.Metrics.Checkpoint
