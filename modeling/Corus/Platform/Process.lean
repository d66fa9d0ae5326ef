import Corus.Platform.Kernel

/-!
# Tasks and how they end

The identity of a task as its own system calls report it, the effect of `clone`
on that identity, and the status word that `wait4` stores for a task that ended.
-/

namespace Corus.Platform

/-- A task: `gettid`, `getpid` and `getppid` answer its three fields. -/
structure Task where
  tid : Int32
  tgid : Int32
  ppid : Int32
deriving DecidableEq, Repr

def cloneVm : Nat := 0x100
def cloneFs : Nat := 0x200
def cloneFiles : Nat := 0x400
def cloneParent : Nat := 0x8000
def cloneThread : Nat := 0x10000
def cloneUntraced : Nat := 0x800000

/-- `clone(2)`: with `CLONE_THREAD` the new task joins the caller's process, without
it it is a process of its own, whose parent is the caller's unless `CLONE_PARENT`
shares the caller's parent. -/
def Task.clone (task : Task) (flags : Nat) (pid : Int32) : Task :=
  if flags &&& cloneThread ≠ 0 then { task with tid := pid }
  else { tid := pid, tgid := pid, ppid := if flags &&& cloneParent ≠ 0 then task.ppid else task.tgid }

/-- How a task ended: with an exit code, or by a signal with or without a core. -/
inductive Exit where
  | exited (code : UInt8)
  | killed (signal : Signal) (core : Bool)
deriving DecidableEq, Repr

/-- The status word that `wait4` stores. -/
def Exit.status : Exit → Nat
  | .exited code => code.toNat <<< 8
  | .killed signal core => signal.number ||| (if core then 0x80 else 0)

/-- `status & 0x7f`, the number of the signal that ended the task. -/
def termSignal (status : Nat) : Nat := status &&& 0x7f

/-- `(status >> 8) & 0xff`, the exit code. -/
def exitCode (status : Nat) : Nat := (status >>> 8) &&& 0xff

@[simp] theorem termSignal_exited (code : UInt8) : termSignal (Exit.exited code).status = 0 := by
  simp only [termSignal, Exit.status]
  rw [show (0x7f : Nat) = 2 ^ 7 - 1 from rfl, Nat.and_two_pow_sub_one_eq_mod, Nat.shiftLeft_eq]
  omega

@[simp] theorem exitCode_exited (code : UInt8) : exitCode (Exit.exited code).status = code.toNat := by
  have small := code.toNat_lt
  simp only [exitCode, Exit.status, Nat.shiftLeft_shiftRight]
  rw [show (0xff : Nat) = 2 ^ 8 - 1 from rfl, Nat.and_two_pow_sub_one_eq_mod]
  exact Nat.mod_eq_of_lt small

theorem termSignal_killed (signal : Signal) (core : Bool) :
    termSignal (Exit.killed signal core).status = signal.number := by
  have bounded := signal.bounded
  have reduced : signal.number % 128 = signal.number := Nat.mod_eq_of_lt (by omega)
  simp only [termSignal, Exit.status]
  rw [show (0x7f : Nat) = 2 ^ 7 - 1 from rfl, Nat.and_two_pow_sub_one_eq_mod, Nat.or_mod_two_pow]
  cases core <;> simp [reduced]

end Corus.Platform
