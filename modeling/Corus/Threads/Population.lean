import Corus.Threads.Caller
import Corus.Threads.Scan
import Mathlib.Logic.Function.Basic

/-!
# The threads of the process

The lister beside the threads that it scans for. Threads that run start others and
exit at any moment; one that the lister has stopped does neither. The task directory
names every thread that was there for the whole of a pass, and need not name one
that came or went meanwhile. The kernel can deny the lister any thread.
-/

namespace Corus.Threads

open Corus.Logical Corus.Platform

/-- A thread id in the life of a process. No id is used twice. -/
inductive Life where
  | unborn
  | running
  | stopped
  | gone
deriving DecidableEq, Repr

namespace Life

def alive : Life → Bool
  | .running | .stopped => true
  | .unborn | .gone => false

/-- The stop that `wait4` reports for an attached thread. -/
def stop : Life → Life
  | .running => .stopped
  | life => life

/-- A detach lets a stopped thread run. -/
def resume : Life → Life
  | .stopped => .running
  | life => life

theorem resume_of_ne_stopped {life : Life} (other : life ≠ .stopped) : life.resume = life := by
  cases life <;> simp [resume] at other ⊢

end Life

/-- A position within a pass over the task directory. -/
def Pc.inPass {Local : Type} (pc : Pc Local) : Bool :=
  match pc.scanPhase with
  | .between | .walking | .viewing _ | .counting _ => true
  | _ => false

/-- The lister and the threads of the process. `born` holds every id that is or was in
use. The rest is kept for the observer: the threads that the current pass found there
when it began, and whether one has gone or was denied to the lister since. -/
structure Freezing (callback : Callback) where
  lister : Lister callback
  born : List Int32
  life : Int32 → Life
  early : List Int32
  lost : Bool

/-- What happens next: an answer to the lister, a thread that starts another one, a
thread that exits, or a crash signal for the lister. -/
inductive Happening where
  | lister (reply : Reply)
  | spawn (parent child : Int32)
  | exit (pid : Int32)
  | crash (signum : Signal)

namespace Freezing

variable {callback : Callback}

/-- What the call that the lister makes does to the threads. -/
def lives (state : Freezing callback) (reply : Reply) : Int32 → Life :=
  match state.lister.pc with
  | .waitStop pid =>
      match reply with
      | .ok _ => Function.update state.life pid (state.life pid).stop
      | .error _ => state.life
  | .drop pid => Function.update state.life pid (state.life pid).resume
  | .resume (pid :: _) _ => Function.update state.life pid (state.life pid).resume
  | _ => state.life

/-- A result with this value in the memory that the call writes. -/
def shows (reply : Reply) (value : UInt64) : Bool :=
  match reply with
  | .ok answer => answer.stored == value
  | .error _ => false

/-- The kernel denies the lister a thread that is there: the thread does not show the
marker, cannot be attached or waited for, or its memory does not follow the lister's. -/
def denies (state : Freezing callback) (reply : Reply) : Bool :=
  match state.lister.pc with
  | .statThread pid => (state.life pid).alive && !shows reply state.lister.markerIno
  | .attach pid => (state.life pid).alive && !reply.isOk
  | .waitStop pid =>
      match reply with
      | .ok _ => false
      | .error errno => (state.life pid).alive && errno != .eintr
  | .peekFirst pid => (state.life pid).alive && !shows reply 0
  | .peekSecond pid => (state.life pid).alive && !shows reply 1
  | _ => false

/-- A step of the lister. A pass begins with the threads that are there. -/
def listerStep (state : Freezing callback) (reply : Reply) : Freezing callback where
  lister := state.lister.step reply
  born := state.born
  life := state.lives reply
  early := match state.lister.pc with
    | .rewind => state.born.filter fun pid => (state.life pid).alive
    | _ => state.early
  lost := match state.lister.pc with
    | .rewind => false
    | _ => state.lost || state.denies reply

/-- One happening. The threads of a tracer that died run on. -/
def apply (state : Freezing callback) : Happening → Freezing callback
  | .lister reply => state.listerStep reply
  | .spawn _ child =>
      { state with born := child :: state.born, life := Function.update state.life child .running }
  | .exit pid =>
      { state with
        life := Function.update state.life pid .gone
        lost := state.lost || state.lister.pc.inPass }
  | .crash signum =>
      { state with lister := Lister.sigHandler signum state.lister, life := fun pid => (state.life pid).resume }

/-- What the kernel answers truly: the lister's own id, and a task directory that names
threads of the process and, at its end, has named all that were there since the rewind. -/
def answers (own : Int32) (state : Freezing callback) (reply : Reply) : Bool :=
  match state.lister.pc with
  | .gettid =>
      match reply with
      | .ok answer => cInt answer.returned == own
      | .error _ => true
  | .getdents =>
      match reply with
      | .ok answer =>
          if answer.entries.isEmpty then
            state.early.all fun pid => !(state.life pid).alive || state.lister.history.listed.contains pid
          else answer.entries.all fun dirent =>
            dirent.dReclen != 0 && dirent.thread.all fun pid => state.life pid != .unborn
      | .error _ => true
  | _ => true

/-- The happenings that a state allows: only a running thread starts another, under an
id that was not used before. -/
def admits (own : Int32) (state : Freezing callback) : Happening → Bool
  | .lister reply => state.answers own reply
  | .spawn parent child => state.life parent == .running && state.life child == .unborn
  | .exit pid => (state.life pid).alive
  | .crash signum =>
      state.lister.ending.isNone && state.lister.handlersInstalled && listerCrashSignals.contains signum

/-- A lister `own` that has just been cloned, beside the threads of a process. -/
structure Initial (own : Int32) (state : Freezing callback) : Prop where
  lister : Lister.Initial state.lister
  foreign : state.life own = .gone
  born : ∀ pid, state.life pid ≠ .unborn → pid ∈ state.born
  untraced : ∀ pid, state.life pid ≠ .stopped

end Freezing

end Corus.Threads
