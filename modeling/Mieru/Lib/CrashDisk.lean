import Mathlib.Logic.Function.Basic
import Mathlib.Tactic.Common

/-! # A directory that survives a crash

What was written to a file survives once the file has been synced. The directory comes back in one
of the states that it has been in since it was last synced. -/
namespace CrashDisk

open Function

structure File (α : Type*) where
  data : List α
  mode : ℕ
  synced : Bool

structure Image (α : Type*) where
  data : List α
  mode : ℕ

def Image.saved {α : Type*} (v : Image α) : File α := ⟨v.data, v.mode, true⟩

structure Disk (ν α : Type*) where
  file : ℕ → File α
  dir : ν → Option ℕ
  /-- The states of the directory since it was last synced. -/
  past : List (ν → Option ℕ)
  next : ℕ

variable {ν α : Type*}

namespace Disk

def setFile (d : Disk ν α) (i : ℕ) (f : File α) : Disk ν α := { d with file := update d.file i f }

def write (d : Disk ν α) (i : ℕ) (bs : List α) : Disk ν α :=
  d.setFile i { d.file i with data := (d.file i).data ++ bs, synced := false }

def chmod (d : Disk ν α) (i mode : ℕ) : Disk ν α :=
  d.setFile i { d.file i with mode, synced := false }

def sync (d : Disk ν α) (i : ℕ) : Disk ν α := d.setFile i { d.file i with synced := true }

def setDir (d : Disk ν α) (dir : ν → Option ℕ) : Disk ν α :=
  { d with dir, past := d.dir :: d.past }

section Names

variable [DecidableEq ν]

def create (d : Disk ν α) (name : ν) (mode : ℕ) : Disk ν α :=
  { (d.setFile d.next ⟨[], mode, false⟩).setDir (update d.dir name (some d.next)) with
    next := d.next + 1 }

def rename (d : Disk ν α) (source target : ν) : Disk ν α :=
  d.setDir (update (update d.dir target (d.dir source)) source none)

def remove (d : Disk ν α) (name : ν) : Disk ν α := d.setDir (update d.dir name none)

end Names

def syncDir (d : Disk ν α) : Disk ν α := { d with past := [] }

/-- Which state of the directory comes back, and what is in the files that were not synced, is
left to chance. -/
def crash (d : Disk ν α) (choice : ℕ) (lost : ℕ → Image α) : Option (Disk ν α) :=
  (d.dir :: d.past)[choice]?.map fun dir =>
    { file i := if (d.file i).synced then d.file i else (lost i).saved
      dir, past := [], next := d.next }

/-- A file with this image, which a crash does not change; or no file. -/
def Shows (d : Disk ν α) (entry : Option ℕ) (v : Option (Image α)) : Prop :=
  entry.map d.file = v.map Image.saved

/-- `P` holds of the entry for `name`, now and after a crash. -/
def Every (d : Disk ν α) (name : ν) (P : Option ℕ → Prop) : Prop :=
  ∀ dir ∈ d.dir :: d.past, P (dir name)

section Lemmas

variable {d d' : Disk ν α} {name : ν} {P Q : Option ℕ → Prop} {entry : Option ℕ}
  {v : Option (Image α)} {i : ℕ}

theorem Every.now (h : d.Every name P) : P (d.dir name) := h _ (List.mem_cons_self ..)

theorem Every.imp (h : d.Every name P) (hPQ : ∀ entry, P entry → Q entry) : d.Every name Q :=
  fun dir hdir => hPQ _ (h dir hdir)

theorem Every.setDir (h : d.Every name P) {dir : ν → Option ℕ} (hnew : P (dir name)) :
    (d.setDir dir).Every name P := by
  intro dir' hdir
  rcases List.mem_cons.mp hdir with rfl | hdir
  · exact hnew
  · exact h dir' hdir

theorem every_syncDir (h : P (d.dir name)) : d.syncDir.Every name P := by
  intro dir hdir
  rwa [List.mem_singleton.mp hdir]

theorem Every.crash (h : d.Every name P) {choice : ℕ} {lost : ℕ → Image α}
    (hcrash : d.crash choice lost = some d') : d'.Every name P := by
  obtain ⟨dir, hdir, rfl⟩ := Option.map_eq_some_iff.mp hcrash
  intro dir' hdir'
  rw [List.mem_singleton.mp hdir']
  exact h dir (List.mem_of_getElem? hdir)

theorem next_of_crash {choice : ℕ} {lost : ℕ → Image α} (hcrash : d.crash choice lost = some d') :
    d'.next = d.next := by
  obtain ⟨dir, hdir, rfl⟩ := Option.map_eq_some_iff.mp hcrash
  rfl

theorem Shows.setFile (h : d.Shows entry v) (hi : entry ≠ some i) (f : File α) :
    (d.setFile i f).Shows entry v := by
  cases entry with
  | none => exact h
  | some j =>
    have hj : update d.file i f j = d.file j := update_of_ne (fun hji => hi (congrArg some hji)) _ _
    exact (congrArg some hj).trans h

theorem Shows.crash (h : d.Shows entry v) {choice : ℕ} {lost : ℕ → Image α}
    (hcrash : d.crash choice lost = some d') : d'.Shows entry v := by
  obtain ⟨dir, hdir, rfl⟩ := Option.map_eq_some_iff.mp hcrash
  cases entry with
  | none => exact h
  | some j =>
    cases v with
    | none => cases h
    | some img =>
      have hj : d.file j = img.saved := Option.some.inj h
      refine congrArg some ?_
      simp only [hj, Image.saved, if_true]

end Lemmas

end Disk

end CrashDisk
