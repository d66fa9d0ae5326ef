import Corus.Dump.Replay

/-!
# The permission to attach

With Yama's `ptrace_scope` at 1, the lister may attach to the threads of the
process only after the caller has named it with `PR_SET_PTRACER`. The caller does so
after the clone, when the lister is already running, and nothing makes the lister
wait for it.
-/

namespace Corus.Dump

open Corus.Logical Corus.Platform Corus.Elf Corus.Threads

/-- The lister is at work on the records of the task directory. -/
def scanning {Local : Type} : Pc Local → Bool
  | .walk | .statThread _ | .attach _ | .waitStop _ | .peekFirst _ | .peekSecond _ | .drop _ | .record _
  | .publish _ => true
  | _ => false

/-- The lister gets to the records by reading the directory. -/
theorem scanning_of_step {callback : Callback} {lister : Lister callback} {reply : Reply}
    (later : scanning (lister.step reply).pc = true) :
    lister.pc = .getdents ∨ scanning lister.pc = true := by
  cases pc : lister.pc <;> simp only [scanning, or_true, reduceCtorEq, false_or, Bool.false_eq_true]
  case closeMarker failure =>
    revert later
    cases failure with
    | none =>
        simp only [Lister.step, pc]
        split <;> simp [scanning]
    | some errno => simp [Lister.step, pc, scanning]
  case resume rest next =>
    revert later
    rcases rest with _ | ⟨pid, rest⟩ <;> rcases next with errno | _ | _ <;>
      simp [Lister.step, Lister.fail, Lister.request, pc, scanning]
  all_goals
    revert later
    simp only [Lister.step, pc, imp_false, Lister.fail, Lister.waitFailed]
    repeat' split
    all_goals simp [scanning, pc]

namespace Dumping

variable {arch : Arch} {engine : Engine arch}

/-- The caller has named the lister it cloned as its tracer. -/
def registered (state : Dumping engine) : Bool :=
  match state.caller.pc with
  | .restoreMask (.ok _) | .wait _ | .restoreDumpable none | .munmap _ | .returned _ => state.cloned
  | _ => false

/-- Once registered, the lister stays so. -/
theorem registered_apply {state : Dumping engine} (done : state.registered = true) (choice : Choice) :
    (state.apply choice).registered = true := by
  cases choice with
  | caller reply =>
      unfold registered at done
      cases pc : state.caller.pc <;> rw [pc] at done
      case restoreMask cloned =>
        cases cloned with
        | ok clonePid => simp only [apply, callerStep, Caller.step, pc, registered, done, Bool.true_or]
        | error errno => cases done
      case wait clonePid =>
        cases reply with
        | ok answer => simp only [apply, callerStep, Caller.step, pc, registered, done, Bool.true_or]
        | error errno =>
            by_cases interrupted : errno = .eintr
            · simp only [apply, callerStep, Caller.step, pc, if_pos interrupted, registered, done, Bool.true_or]
            · simp only [apply, callerStep, Caller.step, pc, if_neg interrupted, registered, done, Bool.true_or]
      case restoreDumpable early =>
        cases early with
        | none => simp only [apply, callerStep, Caller.step, pc, registered, done, Bool.true_or]
        | some errno => cases done
      case munmap result | returned result =>
        simp only [apply, callerStep, Caller.step, pc, registered, done, Bool.true_or]
      all_goals cases done
  | childExits | childKilled signal core =>
      simp only [apply, endChild]
      split
      · exact done
      · exact done
  | lister reply => exact done
  | crash signum => exact done
  | kill signal core => exact done

/-- The lister works on the task directory only when it is registered. -/
def Permitted (state : Dumping engine) : Prop := scanning state.lister.pc = true → state.registered = true

/-- The choice does not make the lister read the task directory before it is registered. -/
def readsRegistered (state : Dumping engine) : Choice → Bool
  | .lister _ =>
      match state.lister.pc with
      | .getdents => state.registered
      | _ => true
  | _ => true

/-- The choice does not make the lister attach to a thread before it is registered. -/
def attachesRegistered (state : Dumping engine) : Choice → Bool
  | .lister _ =>
      match state.lister.pc with
      | .attach _ => state.registered
      | _ => true
  | _ => true

theorem Permitted.apply {state : Dumping engine} (permitted : state.Permitted) {choice : Choice}
    (reads : state.readsRegistered choice = true) : (state.apply choice).Permitted := by
  intro later
  apply registered_apply
  cases choice with
  | lister reply =>
      rcases scanning_of_step later with first | earlier
      · simpa only [readsRegistered, first] using reads
      · exact permitted earlier
  | childExits | childKilled signal core =>
      apply permitted
      simp only [Dumping.apply, endChild] at later
      split at later
      · exact later
      · exact later
  | caller reply => exact permitted later
  | crash signum => cases later
  | kill signal core => cases later

/-- Permission precedes use. In every run in which the lister reads the task
directory only after the caller's `PR_SET_PTRACER`, it attaches to threads only
after it. -/
theorem attach_registered (flags : ProcessFlags) (statics : Statics) (choices : List Choice)
    (allowed : (start engine flags statics).lawful choices = true)
    (reads : throughout readsRegistered (start engine flags statics) choices = true) :
    throughout attachesRegistered (start engine flags statics) choices = true := by
  refine (@throughout_keep _ _ Permitted _ attachesRegistered ?_ _ _ (fun early => by cases early) allowed reads).1
  intro state choice permitted _ reads
  refine ⟨?_, permitted.apply reads⟩
  unfold attachesRegistered
  split
  · split
    · rename_i pc
      exact permitted (by rw [pc]; rfl)
    · rfl
  · rfl

end Dumping

open Lister in
/-- The caller up to the clone of lister 102. -/
def clonedChoices : List Choice :=
  [.caller (succeeds 4096 0), .caller (succeeds 1 0), .caller (succeeds 0 0), .caller (succeeds 102 0)]

open Lister in
/-- The caller registers the lister and goes on to wait; the lister suspends a thread. -/
def patientChoices : List Choice :=
  clonedChoices ++ [.caller (succeeds 0 0), .caller (succeeds 0 0)] ++ callbackReplies.map .lister

theorem attach_registered_sample :
    (Dumping.start sampleEngine ⟨1, 0⟩ .fresh).throughout Dumping.attachesRegistered patientChoices = true ∧
      .attach 100 ∈ ((Dumping.start sampleEngine ⟨1, 0⟩ .fresh).replay patientChoices).lister.history.requests :=
  ⟨Dumping.attach_registered ⟨1, 0⟩ .fresh patientChoices (by decide +kernel) (by decide +kernel), by decide +kernel⟩

open Lister in
/-- Before the caller makes its next step, the lister gets to both threads and Yama
refuses them; then the caller goes on. -/
def hastyChoices : List Choice :=
  clonedChoices ++ setupReplies.map .lister ++
    ([succeeds 0 0, succeeds 0 7, .error .eperm, succeeds 0 0, succeeds 0 7, .error .eperm, succeeds 0 0] ++
      List.replicate 6 (succeeds 0 0)).map .lister ++
    [.caller (succeeds 0 0), .caller (succeeds 0 0), .caller (succeeds 0 768), .caller (succeeds 0 0),
      .caller (succeeds 0 0)]

/-- The attach is refused with EPERM before `PR_SET_PTRACER`, and so is the dump. -/
theorem attach_unregistered : (Dumping.start sampleEngine ⟨1, 0⟩ .fresh).lawful hastyChoices = true ∧
    (Dumping.start sampleEngine ⟨1, 0⟩ .fresh).throughout Dumping.attachesRegistered hastyChoices = false ∧
    ((Dumping.start sampleEngine ⟨1, 0⟩ .fresh).replay hastyChoices).result =
      some (.error (.threadList Errno.eperm.code)) := by
  refine ⟨by decide +kernel, by decide +kernel, ?_⟩
  have returned : ((Dumping.start sampleEngine ⟨1, 0⟩ .fresh).replay hastyChoices).caller.pc =
      .returned (.error Errno.eperm.code) := by decide +kernel
  simp only [Dumping.result, returned]

end Corus.Dump
