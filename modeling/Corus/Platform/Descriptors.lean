import Mathlib.Data.List.Basic

/-!
# Descriptor tables

The open descriptors of a process and the calls that change them. A fork copies the
table, and an exec keeps what is not marked close-on-exec.
-/

namespace Corus.Platform

/-- What an open descriptor refers to, and whether an exec closes it. -/
structure Descriptor (File : Type) where
  file : File
  closeOnExec : Bool
deriving DecidableEq, Repr

/-- The open descriptors with their numbers. -/
structure DescriptorTable (File : Type) where
  entries : List (Nat × Descriptor File)
deriving DecidableEq, Repr

namespace DescriptorTable

variable {File : Type}

/-- The table of a process that has ended. -/
def empty : DescriptorTable File := ⟨[]⟩

def find (table : DescriptorTable File) (fd : Nat) : Option (Descriptor File) :=
  (table.entries.find? fun entry => entry.1 == fd).map Prod.snd

/-- `close(2)`. -/
def close (table : DescriptorTable File) (fd : Nat) : DescriptorTable File :=
  ⟨table.entries.filter fun entry => entry.1 != fd⟩

/-- A number gets a descriptor, in place of the one it had. -/
def install (table : DescriptorTable File) (fd : Nat) (descriptor : Descriptor File) : DescriptorTable File :=
  ⟨(fd, descriptor) :: (table.close fd).entries⟩

/-- `dup2(2)`; the copy is not marked close-on-exec. -/
def dup2 (table : DescriptorTable File) (oldFd newFd : Nat) : DescriptorTable File :=
  match table.find oldFd with
  | none => table
  | some descriptor => if oldFd = newFd then table else table.install newFd { descriptor with closeOnExec := false }

/-- What `execve(2)` leaves open. -/
def exec (table : DescriptorTable File) : DescriptorTable File :=
  ⟨table.entries.filter fun entry => !entry.2.closeOnExec⟩

/-- Some descriptor refers to the file. -/
def Holds (table : DescriptorTable File) (file : File) : Prop := ∃ entry ∈ table.entries, entry.2.file = file

instance [DecidableEq File] (table : DescriptorTable File) (file : File) : Decidable (table.Holds file) :=
  inferInstanceAs (Decidable (∃ entry ∈ table.entries, entry.2.file = file))

/-- No descriptor but this one refers to the file. -/
def Only (table : DescriptorTable File) (file : File) (fd : Nat) : Prop :=
  ∀ entry ∈ table.entries, entry.2.file = file → entry.1 = fd

instance [DecidableEq File] (table : DescriptorTable File) (file : File) (fd : Nat) :
    Decidable (table.Only file fd) :=
  inferInstanceAs (Decidable (∀ entry ∈ table.entries, entry.2.file = file → entry.1 = fd))

variable {table : DescriptorTable File} {file : File} {fd : Nat}

@[simp] theorem not_holds_empty : ¬ (empty : DescriptorTable File).Holds file := by
  rintro ⟨entry, member, _⟩
  cases member

theorem Holds.of_close {closed : Nat} (holds : (table.close closed).Holds file) : table.Holds file := by
  obtain ⟨entry, member, same⟩ := holds
  exact ⟨entry, (List.mem_filter.mp member).1, same⟩

theorem Only.close (only : table.Only file fd) (closed : Nat) : (table.close closed).Only file fd :=
  fun entry member => only entry (List.mem_filter.mp member).1

/-- The file is gone with its only descriptor. -/
theorem Only.not_holds_close (only : table.Only file fd) : ¬ (table.close fd).Holds file := by
  rintro ⟨entry, member, same⟩
  obtain ⟨present, other⟩ := List.mem_filter.mp member
  rw [only entry present same] at other
  simp at other

theorem Holds.of_install {descriptor : Descriptor File} (holds : (table.install fd descriptor).Holds file) :
    descriptor.file = file ∨ table.Holds file := by
  obtain ⟨entry, member, same⟩ := holds
  rcases List.mem_cons.mp member with rfl | old
  · exact .inl same
  · exact .inr (Holds.of_close ⟨entry, old, same⟩)

/-- A file that is opened has one descriptor. -/
theorem Only.install (absent : ¬ table.Holds file) (descriptor : Descriptor File) :
    (table.install fd descriptor).Only file fd := by
  intro entry member same
  rcases List.mem_cons.mp member with rfl | old
  · rfl
  · exact absurd (Holds.of_close ⟨entry, old, same⟩) absent

theorem Holds.of_find {descriptor : Descriptor File} (found : table.find fd = some descriptor) :
    table.Holds descriptor.file := by
  obtain ⟨entry, present, rfl⟩ := Option.map_eq_some_iff.mp found
  exact ⟨entry, List.mem_of_find?_eq_some present, rfl⟩

/-- A number that is listed is found. -/
theorem find_of_mem {descriptor : Descriptor File} (listed : (fd, descriptor) ∈ table.entries) :
    ∃ found, table.find fd = some found ∧ (fd, found) ∈ table.entries := by
  have isSome : (table.entries.find? fun entry => entry.1 == fd).isSome = true := by
    rw [List.find?_isSome]
    exact ⟨_, listed, beq_self_eq_true fd⟩
  obtain ⟨⟨number, found⟩, first⟩ := Option.isSome_iff_exists.mp isSome
  have matching := List.find?_some first
  have same : number = fd := eq_of_beq matching
  subst same
  exact ⟨found, by rw [find, first, Option.map_some], List.mem_of_find?_eq_some first⟩

theorem Holds.of_dup2 {oldFd newFd : Nat} (holds : (table.dup2 oldFd newFd).Holds file) : table.Holds file := by
  unfold dup2 at holds
  split at holds
  · exact holds
  · rename_i descriptor found
    split at holds
    · exact holds
    · have original : table.Holds descriptor.file := Holds.of_find found
      rcases holds.of_install with same | old
      · exact same ▸ original
      · exact old

/-- The file that a number is open on. -/
def fileAt (table : DescriptorTable File) (fd : Nat) : Option File := (table.find fd).map Descriptor.file

theorem find_close (closed : Nat) : (table.close closed).find fd = if fd = closed then none else table.find fd := by
  unfold find close
  rw [List.find?_filter]
  split
  · rename_i same
    have none : (table.entries.find? fun entry =>
        decide ((entry.1 != closed) = true ∧ (entry.1 == fd) = true)) = none := by
      apply List.find?_eq_none.mpr
      intro entry _
      simp [same]
    rw [none, Option.map_none]
  · rename_i other
    congr 2
    funext entry
    by_cases found : entry.1 = fd
    · simp [found, other]
    · simp [found]

theorem find_install (descriptor : Descriptor File) (installed : Nat) :
    (table.install installed descriptor).find fd = if fd = installed then some descriptor else table.find fd := by
  have rest := @find_close _ table fd installed
  unfold find at rest ⊢
  unfold install
  rw [List.find?_cons]
  by_cases same : fd = installed
  · simp [same]
  · rw [if_neg same] at rest ⊢
    have other : (installed == fd) = false := by simpa using fun equal : installed = fd => same equal.symm
    simp only [other]
    exact rest

theorem fileAt_close (closed : Nat) :
    (table.close closed).fileAt fd = if fd = closed then none else table.fileAt fd := by
  rw [fileAt, find_close]
  split
  · rfl
  · rfl

/-- `dup2` opens the new number on the file of the old one, also when they are the same. -/
theorem fileAt_dup2 {oldFd : Nat} (opened : table.fileAt oldFd = some file) (newFd : Nat) :
    (table.dup2 oldFd newFd).fileAt fd = if fd = newFd then some file else table.fileAt fd := by
  obtain ⟨descriptor, found, rfl⟩ := Option.map_eq_some_iff.mp opened
  unfold dup2
  rw [found]
  simp only
  split
  · rename_i same
    split
    · rename_i target
      rw [target, ← same]
      exact opened
    · rfl
  · rw [fileAt, find_install]
    split <;> rfl

theorem Holds.of_exec (holds : table.exec.Holds file) : table.Holds file := by
  obtain ⟨entry, member, same⟩ := holds
  exact ⟨entry, (List.mem_filter.mp member).1, same⟩

end DescriptorTable

end Corus.Platform
