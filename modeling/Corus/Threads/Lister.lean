import Corus.Logical.Transition
import Corus.Threads.TaskDirectory

/-!
# The lister thread

`lister_thread` as a machine that makes one system call, or one store that
another task or the crash handler can see, in each step. It runs a callback that
is a machine of its own. `History` keeps what an observer knows about the run;
the lister never reads it.
-/

namespace Corus.Threads

open Corus.Logical Corus.Platform

/-- `MAX_THREADS`. -/
def maxThreads : Nat := 4096

/-- Flags the lister is cloned with. -/
def listerFlags : Nat := cloneVm ||| cloneFs ||| cloneFiles ||| cloneUntraced

/-- `LISTER_CRASH_SIGNALS`. -/
def listerCrashSignals : List Signal :=
  [.sigabrt, .sigill, .sigfpe, .sigsegv, .sigbus, .sigxcpu, .sigxfsz]

/-- How a callback goes on after one of its steps. -/
inductive Progress (Local : Type) where
  | running (position : Local)
  | returned (rc : Int32)

/-- The memory a callback works on: `SNAPSHOT_CHILD`, and its own context. -/
structure Shared (Memory : Type) where
  snapshotChild : Int32
  memory : Memory

/-- A callback, as a machine that is entered with the suspended thread ids. -/
structure Callback where
  Local : Type
  Memory : Type
  enter : List Int32 → Local
  step : Local → Reply → Shared Memory → Progress Local × Shared Memory

/-- How a completed scan ended: the leading thread was not suspended, or the
callback has run. -/
inductive Outcome where
  | parentMissing
  | dumped
deriving DecidableEq, Repr

/-- What comes after the threads have been resumed. -/
inductive AfterResume where
  | fail (errno : Errno)
  | report (outcome : Outcome)
deriving DecidableEq, Repr

/-- Where the lister stands: the call or store it makes next. -/
inductive Pc (Local : Type) where
  | gettid
  | getppid
  | socket
  | setCloexec
  | statMarker
  | closeUnused (errno : Errno)
  | storePids
  | storeCount
  | installHandlers
  | openTask
  | rewind
  | getdents
  | walk
  | statThread (pid : Int32)
  | attach (pid : Int32)
  | waitStop (pid : Int32)
  | peekFirst (pid : Int32)
  | peekSecond (pid : Int32)
  | drop (pid : Int32)
  | record (pid : Int32)
  | publish (pid : Int32)
  | closeProc (failure : Option Errno)
  | closeMarker (failure : Option Errno)
  | callback (position : Local)
  | storeResult (rc : Int32)
  | storeErr
  | clearPids (outcome : Outcome)
  | clearCount (outcome : Outcome)
  | resume (rest : List Int32) (next : AfterResume)
  | takeChild
  | reap (child : Int32)
  | finished (code : UInt8)
  | dead (exit : Exit)
deriving DecidableEq

/-- The results in `ListerParams`. -/
structure Params where
  result : Int32
  err : Int
deriving DecidableEq, Repr

/-- Requests that change which threads are held: successful attaches, and the
detach and kill requests, whether or not they succeed. -/
inductive Request where
  | attach (pid : Int32)
  | detach (pid : Int32)
  | kill (pid : Int32)
deriving DecidableEq, Repr

/-- What happened so far: the ptrace requests, the threads that the current pass
over the directory listed, those of them that were passed over without being
suspended, and the `wait4` calls that failed. -/
structure History where
  requests : List Request
  listed : List Int32
  skipped : List Int32
  failedWaits : List Errno
deriving Repr

/-- The lister and the memory it shares. `pids` is the filled part of the array,
`sigPids` tells whether `SIG_PIDS` points to it. -/
structure Lister (callback : Callback) where
  pc : Pc callback.Local
  cloneTid : Int32
  ppid : Int32
  markerIno : UInt64
  entries : List Dirent
  pids : List Int32
  foundParent : Bool
  added : Nat
  sigPids : Bool
  sigNumThreads : Nat
  handlersInstalled : Bool
  params : Params
  snapshotChild : Int32
  memory : callback.Memory
  history : History

namespace Lister

variable {callback : Callback}

/-- `fail`, and the return that follows it. -/
def fail (lister : Lister callback) (errno : Errno) : Lister callback :=
  { lister with params := ⟨-1, errno.code⟩, pc := .finished 1 }

/-- Issue a ptrace request. -/
def request (lister : Lister callback) (request : Request) : Lister callback :=
  { lister with history := { lister.history with requests := lister.history.requests ++ [request] } }

/-- Note that some listed threads are passed over. -/
def skip (lister : Lister callback) (pids : List Int32) : Lister callback :=
  { lister with history := { lister.history with skipped := lister.history.skipped ++ pids } }

/-- Note that a `wait4` failed. -/
def waitFailed (lister : Lister callback) (errno : Errno) : Lister callback :=
  { lister with history := { lister.history with failedWaits := lister.history.failedWaits ++ [errno] } }

/-- A thread that the walk has to look at: not the lister itself, not recorded yet. -/
def candidate (lister : Lister callback) (dirent : Dirent) : Option Int32 :=
  dirent.thread.filter fun pid => pid != lister.cloneTid && !lister.pids.contains pid

/-- The end of the loop body over directory records: a record of length zero ends
the walk over the buffer. -/
def advance (lister : Lister callback) : Lister callback :=
  match lister.entries with
  | [] => { lister with pc := .walk }
  | dirent :: rest =>
      if dirent.dReclen = 0 then
        { lister.skip (rest.filterMap lister.candidate) with entries := [], pc := .walk }
      else { lister with entries := rest, pc := .walk }

/-- The end of the loop body touches the records and the history only. -/
theorem advance_eq (lister : Lister callback) : ∃ entries skipped, lister.advance =
    { lister with pc := .walk, entries := entries, history := { lister.history with skipped := skipped } } := by
  unfold advance
  split
  · exact ⟨_, _, rfl⟩
  · split
    · exact ⟨_, _, rfl⟩
    · exact ⟨_, _, rfl⟩

/-- The decision on a wait status in `reap_snapshot_child`. -/
def exitedCleanly (status : Nat) : Bool := termSignal status == 0 && exitCode status == 0

/-- One step of `lister_thread`, given the answer to the call it makes. -/
def step (lister : Lister callback) (reply : Reply) : Lister callback :=
  match lister.pc with
  | .gettid =>
      match reply with
      | .ok answer => { lister with cloneTid := cInt answer.returned, pc := .getppid }
      | .error errno => lister.fail errno
  | .getppid =>
      match reply with
      | .ok answer => { lister with ppid := cInt answer.returned, pc := .socket }
      | .error errno => lister.fail errno
  | .socket =>
      match reply with
      | .ok _ => { lister with pc := .setCloexec }
      | .error errno => lister.fail errno
  | .setCloexec =>
      match reply with
      | .ok _ => { lister with pc := .statMarker }
      | .error errno => { lister with pc := .closeUnused errno }
  | .statMarker =>
      match reply with
      | .ok answer => { lister with markerIno := answer.stored, pc := .storePids }
      | .error errno => { lister with pc := .closeUnused errno }
  | .closeUnused errno => lister.fail errno
  | .storePids => { lister with sigPids := true, pc := .storeCount }
  | .storeCount => { lister with sigNumThreads := 0, pc := .installHandlers }
  | .installHandlers => { lister with handlersInstalled := true, pc := .openTask }
  | .openTask =>
      match reply with
      | .ok _ => { lister with pc := .rewind }
      | .error errno => if errno = .eintr then lister else { lister with pc := .closeUnused errno }
  | .rewind =>
      { lister with
        added := 0
        history := { lister.history with listed := [], skipped := [] }
        pc := .getdents }
  | .getdents =>
      match reply with
      | .ok answer =>
          if answer.entries.isEmpty then
            { lister with pc := if lister.added = 0 then .closeProc none else .rewind }
          else
            { lister with
              entries := answer.entries
              history := { lister.history with listed := lister.history.listed ++ threadsOf answer.entries }
              pc := .walk }
      | .error errno =>
          if errno = .eintr then lister else { lister with pc := .closeProc (some errno) }
  | .walk =>
      match lister.entries with
      | [] => { lister with pc := .getdents }
      | dirent :: _ =>
          match lister.candidate dirent with
          | some pid => { lister with pc := .statThread pid }
          | none => lister.advance
  -- `thread_shares_address_space`, then the check of the capacity.
  | .statThread pid =>
      match reply with
      | .ok answer =>
          if answer.stored = lister.markerIno then
            if maxThreads ≤ lister.pids.length then { lister with pc := .closeProc (some .enomem) }
            else { lister with pc := .attach pid }
          else (lister.skip [pid]).advance
      | .error _ => (lister.skip [pid]).advance
  -- `attach_and_verify`.
  | .attach pid =>
      match reply with
      | .ok _ => { lister.request (.attach pid) with pc := .waitStop pid }
      | .error _ => (lister.skip [pid]).advance
  | .waitStop pid =>
      match reply with
      | .ok _ => { lister with pc := .peekFirst pid }
      | .error errno =>
          if errno = .eintr then lister else { lister.waitFailed errno with pc := .drop pid }
  | .peekFirst pid =>
      match reply with
      | .ok answer => { lister with pc := if answer.stored = 0 then .peekSecond pid else .drop pid }
      | .error _ => { lister with pc := .drop pid }
  | .peekSecond pid =>
      match reply with
      | .ok answer => { lister with pc := if answer.stored = 1 then .record pid else .drop pid }
      | .error _ => { lister with pc := .drop pid }
  | .drop pid => ((lister.request (.detach pid)).skip [pid]).advance
  | .record pid => { lister with pids := lister.pids ++ [pid], pc := .publish pid }
  | .publish pid =>
      advance { lister with
        sigNumThreads := lister.pids.length
        foundParent := lister.foundParent || pid == lister.ppid
        added := lister.added + 1 }
  | .closeProc failure => { lister with pc := .closeMarker failure }
  | .closeMarker (some errno) => { lister with pc := .resume lister.pids (.fail errno) }
  | .closeMarker none =>
      { lister with
        pc := if lister.foundParent then .callback (callback.enter lister.pids)
          else .clearPids .parentMissing }
  | .callback position =>
      match callback.step position reply ⟨lister.snapshotChild, lister.memory⟩ with
      | (.running later, shared) =>
          { lister with
            snapshotChild := shared.snapshotChild
            memory := shared.memory
            pc := .callback later }
      | (.returned rc, shared) =>
          { lister with
            snapshotChild := shared.snapshotChild
            memory := shared.memory
            pc := .storeResult rc }
  | .storeResult rc => { lister with params := { lister.params with result := rc }, pc := .storeErr }
  | .storeErr => { lister with params := { lister.params with err := 0 }, pc := .clearPids .dumped }
  -- `clear_crash_state` and `resume_all_process_threads`.
  | .clearPids outcome => { lister with sigPids := false, pc := .clearCount outcome }
  | .clearCount outcome =>
      { lister with sigNumThreads := 0, pc := .resume lister.pids (.report outcome) }
  | .resume (pid :: rest) next => { lister.request (.detach pid) with pc := .resume rest next }
  | .resume [] (.fail errno) => lister.fail errno
  | .resume [] (.report .parentMissing) => { lister with pc := .finished 3 }
  | .resume [] (.report .dumped) => { lister with pc := .takeChild }
  -- `SNAPSHOT_CHILD.swap`, then `reap_snapshot_child`.
  | .takeChild =>
      { lister with
        snapshotChild := 0
        pc := if 0 < lister.snapshotChild then .reap lister.snapshotChild else .finished 0 }
  | .reap _ =>
      match reply with
      | .ok answer =>
          if exitedCleanly answer.stored.toNat then { lister with pc := .finished 0 }
          else { lister with params := ⟨-1, Errno.efault.code⟩, pc := .finished 0 }
      | .error errno =>
          if errno = .eintr then lister
          else { lister.waitFailed errno with params := ⟨-1, errno.code⟩, pc := .finished 0 }
  | .finished _ => lister
  | .dead _ => lister

/-- The threads that `sig_handler` finds in the published list. -/
def handlerPids (lister : Lister callback) : List Int32 :=
  if lister.sigPids then lister.pids.take lister.sigNumThreads else []

/-- The request that `sig_handler` makes for each of them. -/
def handlerRequest (signum : Signal) : Int32 → Request :=
  if signum = .sigabrt then .kill else .detach

/-- `sig_handler`. -/
def sigHandler (signum : Signal) (lister : Lister callback) : Lister callback :=
  { lister with
    sigPids := false
    history := { lister.history with
      requests := lister.history.requests ++ lister.handlerPids.map (handlerRequest signum) }
    pc := .dead (.exited (if signum = .sigabrt then 1 else 2)) }

/-- The state in which a lister is cloned. The published count may be left over
from an earlier dump. -/
structure Initial (lister : Lister callback) : Prop where
  pc : lister.pc = .gettid
  entries : lister.entries = []
  pids : lister.pids = []
  foundParent : lister.foundParent = false
  handlers : lister.handlersInstalled = false
  params : lister.params = ⟨-1, 0⟩
  history : lister.history = ⟨[], [], [], []⟩

/-- The lister on its own, with every answer to every call. -/
def system (callback : Callback) : TransitionSystem (Lister callback) Reply :=
  .ofFunction Initial step

end Lister

end Corus.Threads
