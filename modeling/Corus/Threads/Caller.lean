import Corus.Threads.Lister

/-!
# The caller of the lister

`with_mmap_stack` and `list_all_process_threads` as a machine over the process
flags they change. The caller clones the lister, waits for it and decodes its
status into the parameter block they share.
-/

namespace Corus.Threads

open Corus.Logical Corus.Platform

/-- `decode_lister_status`. -/
def decodeListerStatus (status : Nat) (params : Params) : Params :=
  if termSignal status = 0 then
    match exitCode status with
    | 0 => params
    | 1 => ⟨-1, if params.err = 0 then Errno.echild.code else params.err⟩
    | 2 => ⟨-1, Errno.efault.code⟩
    | 3 => ⟨-1, Errno.eperm.code⟩
    | _ => ⟨-1, Errno.echild.code⟩
  else ⟨-1, Errno.efault.code⟩

/-- A lister that ended with code zero keeps its own report. -/
theorem decodeListerStatus_zero (params : Params) :
    decodeListerStatus (Exit.exited 0).status params = params := by
  simp [decodeListerStatus]

/-- Any other end of the lister is reported as an error with a number. -/
theorem decodeListerStatus_failed {exit : Exit} (failed : exit ≠ .exited 0) (params : Params) :
    (decodeListerStatus exit.status params).result = -1 ∧
      (decodeListerStatus exit.status params).err ≠ 0 := by
  cases exit with
  | killed signal core =>
      have positive := signal.positive
      simp [decodeListerStatus, termSignal_killed, Nat.ne_of_gt positive, Errno.efault]
  | exited code =>
      have nonzero : code.toNat ≠ 0 := by
        intro zero
        exact failed (congrArg Exit.exited (UInt8.toNat_inj.mp zero))
      simp only [decodeListerStatus, termSignal_exited, exitCode_exited, if_true]
      split
      · rename_i zero
        exact absurd zero nonzero
      · refine ⟨rfl, ?_⟩
        dsimp only
        split
        · decide
        · assumption
      · exact ⟨rfl, by decide⟩
      · exact ⟨rfl, by decide⟩
      · exact ⟨rfl, by decide⟩

/-- How the lister ended, if it did. -/
def Lister.ending {callback : Callback} (lister : Lister callback) : Option Exit :=
  match lister.pc with
  | .finished code => some (.exited code)
  | .dead exit => some exit
  | _ => none

/-- What `wait4` may answer to the parent of a task: the status once the task has
ended; an interruption at any time; another error only if the task has ended and
is not there to be waited for any more. -/
def WaitAnswer (ending : Option Exit) : Reply → Prop
  | .ok answer => ∃ exit, ending = some exit ∧ answer.stored.toNat = exit.status
  | .error errno => errno = .eintr ∨ ending ≠ none

/-- What the calls of the caller change in the process: the dumpable flag and the
signal mask of the calling thread. -/
structure ProcessFlags where
  dumpable : UInt64
  mask : UInt64
deriving DecidableEq, Repr

/-- The set that is blocked around the clone: every signal but the crash signals. -/
def blockedSignals : UInt64 :=
  listerCrashSignals.foldl (fun set signal => set &&& ~~~((1 : UInt64) <<< UInt64.ofNat (signal.number - 1)))
    (~~~(0 : UInt64))

/-- Where the caller stands. A position after the clone was tried carries its
result, one after the wait the error of an early return, if any. -/
inductive CallerPc where
  | mmap
  | getDumpable
  | setDumpable
  | blockSignals
  | clone
  | setPtracer (clonePid : UInt64)
  | restoreMask (cloned : Except Errno UInt64)
  | wait (clonePid : UInt64)
  | restoreDumpable (early : Option Errno)
  | munmap (result : Except Int Int32)
  | returned (result : Except Int Int32)
deriving DecidableEq, Repr

/-- The caller: its position, the dumpable flag and the mask it saved, and the
flags of the process. `failedWaits` is kept for the observer only. -/
structure Caller where
  pc : CallerPc
  dumpable : UInt64
  old : UInt64
  flags : ProcessFlags
  failedWaits : List Errno
deriving DecidableEq, Repr

namespace Caller

/-- `if params.result == -1 { Err(params.err) } else { Ok(params.result) }`. -/
def report (params : Params) : Except Int Int32 :=
  if params.result = -1 then .error params.err else .ok params.result

/-- One step of the caller, given the answer to the call it makes. It shares the
parameter block with the lister. -/
def step (caller : Caller) (params : Params) (reply : Reply) : Caller × Params :=
  match caller.pc with
  | .mmap =>
      match reply with
      | .ok _ => ({ caller with pc := .getDumpable }, params)
      | .error errno => ({ caller with pc := .returned (.error errno.code) }, params)
  | .getDumpable =>
      let dumpable := match reply with
        | .ok answer => answer.returned
        | .error _ => 0
      ({ caller with dumpable, pc := if dumpable = 0 then .setDumpable else .blockSignals }, params)
  | .setDumpable =>
      let flags := match reply with
        | .ok _ => { caller.flags with dumpable := 1 }
        | .error _ => caller.flags
      ({ caller with flags, pc := .blockSignals }, params)
  | .blockSignals =>
      match reply with
      | .ok _ =>
          ({ caller with
              old := caller.flags.mask
              flags := { caller.flags with mask := caller.flags.mask ||| blockedSignals }
              pc := .clone }, params)
      | .error errno => ({ caller with pc := .restoreDumpable (some errno) }, params)
  | .clone =>
      match reply with
      | .ok answer => ({ caller with pc := .setPtracer answer.returned }, params)
      | .error errno => ({ caller with pc := .restoreMask (.error errno) }, params)
  | .setPtracer clonePid => ({ caller with pc := .restoreMask (.ok clonePid) }, params)
  | .restoreMask cloned =>
      let flags := match reply with
        | .ok _ => { caller.flags with mask := caller.old }
        | .error _ => caller.flags
      match cloned with
      | .ok clonePid => ({ caller with flags, pc := .wait clonePid }, params)
      | .error errno => ({ caller with flags, pc := .restoreDumpable (some errno) }, params)
  | .wait _ =>
      match reply with
      | .ok answer =>
          ({ caller with pc := .restoreDumpable none }, decodeListerStatus answer.stored.toNat params)
      | .error errno =>
          if errno = .eintr then (caller, params)
          else
            -- The status word still is the zero it was initialized with.
            ({ caller with
                failedWaits := caller.failedWaits ++ [errno]
                pc := .restoreDumpable none },
              decodeListerStatus 0 ⟨-1, errno.code⟩)
  | .restoreDumpable early =>
      let flags := match reply with
        | .ok _ => if caller.dumpable = 0 then { caller.flags with dumpable := 0 } else caller.flags
        | .error _ => caller.flags
      let result := match early with
        | some errno => .error (errno.code : Int)
        | none => report params
      ({ caller with flags, pc := .munmap result }, params)
  | .munmap result => ({ caller with pc := .returned result }, params)
  | .returned _ => (caller, params)

end Caller

end Corus.Threads
