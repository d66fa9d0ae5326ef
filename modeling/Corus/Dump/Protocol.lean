import Corus.Dump.Capture
import Corus.Threads.Caller

/-!
# The dump protocol

The calling thread, the lister and the snapshot child of one dump, interleaved
step by step over the memory they share. `dump_callback` is the callback that the
lister runs; `write_core_dump_to_fd_options` reads the result once the lister has
been reaped.
-/

namespace Corus.Dump

open Corus.Logical Corus.Platform Corus.Output Corus.Elf Corus.Threads

/-- The caller's frame, unless the options already carry one. -/
def DumpOptions.withFrame {arch : Arch} (opts : DumpOptions arch) (tid : Except Errno Int32)
    (regs : Regs arch) : DumpOptions arch :=
  match opts.frame with
  | some _ => opts
  | none => { opts with frame := some (tid.toOption.getD 0, regs) }

/-- What one dump works with: the options and the frame of the calling thread, the
answers to the calls of the capture, and those of the serialization. -/
structure Engine (arch : Arch) where
  options : DumpOptions arch
  gettid : Except Errno Int32
  frame : Regs arch
  host : Host arch
  kernel : Kernel
  proc : ProcFs
  fd : OutFd
  world : World

namespace Engine

variable {arch : Arch} (engine : Engine arch)

def opts : DumpOptions arch := engine.options.withFrame engine.gettid engine.frame

/-- The capture that `dump_callback` makes of the suspended threads. -/
def capture (pids : List Int32) : Except DumpError (CapturedDump arch) :=
  captureDump engine.host pids (engine.host.mainPid pids) engine.opts

/-- The serialization of a capture. -/
def serialize (cap : CapturedDump arch) : Serialized :=
  runSerialize engine.kernel engine.proc cap engine.opts engine.fd engine.world

end Engine

/-- The snapshot child, from its fork to its end. -/
inductive Child (arch : Arch) where
  | none
  | running (pid : Int32) (cap : CapturedDump arch)
  | ended (pid : Int32) (exit : Exit)

/-- `DumpCtx` and what else the parties leave behind: the snapshot child, and the
capture whose serialization was carried through, by the child or in-line. -/
structure DumpMemory (arch : Arch) where
  result : Int32
  error : Option DumpError
  child : Child arch
  serialized : Option (CapturedDump arch)

def DumpMemory.initial {arch : Arch} : DumpMemory arch := ⟨-1, none, .none, none⟩

/-- Where `dump_callback` stands. -/
inductive DumpPosition (arch : Arch) where
  | capture (pids : List Int32)
  | fork (cap : CapturedDump arch)
  | publishChild (pid : Int32)
  | provisional
  | inline (cap : CapturedDump arch)

section Callback

variable {arch : Arch} (engine : Engine arch)

/-- One step of `dump_callback` in the lister. What the child does after the fork
is a matter of its own. -/
def dumpCallbackStep (position : DumpPosition arch) (reply : Reply) (shared : Shared (DumpMemory arch)) :
    Progress (DumpPosition arch) × Shared (DumpMemory arch) :=
  match position with
  | .capture pids =>
      match engine.capture pids with
      | .error error =>
          (.returned 0, { shared with memory := { shared.memory with error := some error, result := -1 } })
      | .ok cap =>
          match engine.opts.strategy with
          | .forkSnapshot => (.running (.fork cap), shared)
          | .inProcessFrozen => (.running (.inline cap), shared)
  | .fork cap =>
      match reply with
      | .ok answer =>
          (.running (.publishChild (cInt answer.returned)),
            { shared with memory := { shared.memory with child := .running (cInt answer.returned) cap } })
      | .error _ => (.running (.inline cap), shared)
  | .publishChild pid => (.running .provisional, { shared with snapshotChild := pid })
  | .provisional => (.returned 0, { shared with memory := { shared.memory with result := 0 } })
  | .inline cap =>
      let out := engine.serialize cap
      (.returned 0,
        { shared with
          memory := { shared.memory with
            error := out.error <|> shared.memory.error
            result := if out.success then 0 else -1
            serialized := some cap } })

/-- `dump_callback`. -/
def dumpCallback : Callback where
  Local := DumpPosition arch
  Memory := DumpMemory arch
  enter := .capture
  step := dumpCallbackStep engine

end Callback

/-- How the child ends: it exits as soon as its serialization is over, and any
signal may kill it before. -/
inductive ChildEnds {arch : Arch} (engine : Engine arch) (memory : DumpMemory arch) :
    DumpMemory arch → Prop where
  | serialized {pid : Int32} {cap : CapturedDump arch} (running : memory.child = .running pid cap) :
      ChildEnds engine memory { memory with
        child := .ended pid (.exited (if (engine.serialize cap).success then 0 else 1))
        serialized := some cap }
  | killed {pid : Int32} {cap : CapturedDump arch} (running : memory.child = .running pid cap)
      (signal : Signal) (core : Bool) :
      ChildEnds engine memory { memory with child := .ended pid (.killed signal core) }

/-- Error returned by the core dump engine entrypoints. -/
inductive CoreDumpError where
  | threadList (errno : Int)
  | dump (error : DumpError)
  | compressor (errno : Int)

/-- `dump_error_errno`. -/
def dumpErrorErrno : DumpError → Int
  | .callbackAborted | .createElfCore _ | .unknown => -1
  | .ptraceGetRegs _ errno | .pipe errno => errno.code
  | .parseMaps error => error.errno.code

/-- `CoreDumpError::errno`. -/
def CoreDumpError.errno : CoreDumpError → Int
  | .threadList errno | .compressor errno => errno
  | .dump error => dumpErrorErrno error

/-- All parties of one dump. -/
structure Dumping {arch : Arch} (engine : Engine arch) where
  caller : Caller
  cloned : Bool
  lister : Lister (dumpCallback engine)

/-- What happens next: an answer to the caller or to the lister, the end of the
child, or a signal that ends the lister, through its crash handler or at once. -/
inductive Event where
  | caller (reply : Reply)
  | lister (reply : Reply)
  | child
  | crash (signum : Signal)
  | kill (signal : Signal) (core : Bool)

namespace Dumping

variable {arch : Arch} {engine : Engine arch}

def memory (state : Dumping engine) : DumpMemory arch := state.lister.memory

def setMemory (state : Dumping engine) (memory : DumpMemory arch) : Dumping engine :=
  { state with lister := { state.lister with memory := memory } }

/-- A step of the caller. A clone that succeeds starts the lister. -/
def callerStep (state : Dumping engine) (reply : Reply) : Dumping engine :=
  let after := state.caller.step state.lister.params reply
  { caller := after.1
    cloned := state.cloned || (state.caller.pc == .clone && reply.isOk)
    lister := { state.lister with params := after.2 } }

/-- The kernel's side of a step of the caller. -/
def CallerAnswer (state : Dumping engine) (reply : Reply) : Prop :=
  ∀ clonePid, state.caller.pc = .wait clonePid → WaitAnswer state.lister.ending reply

/-- The kernel's side of a step of the lister: a fork answers a positive pid to the
parent, and a successful wait for the child answers the status it ended with. -/
structure ListerAnswer (state : Dumping engine) (reply : Reply) : Prop where
  fork : ∀ cap answer, state.lister.pc = .callback (.fork cap) → reply = .ok answer → 0 < cInt answer.returned
  reap : ∀ child answer, state.lister.pc = .reap child → reply = .ok answer →
    ∃ exit, state.memory.child = .ended child exit ∧ answer.stored.toNat = exit.status

/-- One step of one of the parties. -/
inductive Step : Dumping engine → Event → Dumping engine → Prop where
  | caller {state : Dumping engine} {reply : Reply} (answered : state.CallerAnswer reply) :
      Step state (.caller reply) (state.callerStep reply)
  | lister {state : Dumping engine} {reply : Reply} (cloned : state.cloned = true)
      (answered : state.ListerAnswer reply) :
      Step state (.lister reply) { state with lister := state.lister.step reply }
  | child {state : Dumping engine} {after : DumpMemory arch}
      (ends : ChildEnds engine state.memory after) : Step state .child (state.setMemory after)
  /-- A crash signal finds the handler installed. -/
  | crash {state : Dumping engine} {signum : Signal} (cloned : state.cloned = true)
      (alive : state.lister.ending = none) (installed : state.lister.handlersInstalled = true)
      (handled : signum ∈ listerCrashSignals) :
      Step state (.crash signum) { state with lister := Lister.sigHandler signum state.lister }
  /-- Any other deadly signal ends the lister at once. -/
  | kill {state : Dumping engine} {signal : Signal} {core : Bool} (cloned : state.cloned = true)
      (alive : state.lister.ending = none) :
      Step state (.kill signal core)
        { state with lister := { state.lister with pc := .dead (.killed signal core) } }

/-- The call of `write_core_dump_to_fd_options`, without a child left over from an
earlier dump. -/
structure Initial (state : Dumping engine) : Prop where
  caller : state.caller.pc = .mmap
  waits : state.caller.failedWaits = []
  cloned : state.cloned = false
  lister : Lister.Initial state.lister
  snapshotChild : state.lister.snapshotChild = 0
  memory : state.memory = .initial

/-- The dumps that an engine can carry out. -/
def system (engine : Engine arch) : TransitionSystem (Dumping engine) Event where
  Initial := Initial
  Step := Step

/-- What `write_core_dump_to_fd_options` returns, once `with_mmap_stack` has. -/
def result (state : Dumping engine) : Option (Except CoreDumpError Int32) :=
  match state.caller.pc with
  | .returned (.error errno) => some (.error (.threadList errno))
  | .returned (.ok _) =>
      some (if state.memory.result = 0 then .ok 0
        else .error (.dump (state.memory.error.getD .unknown)))
  | _ => none

end Dumping

end Corus.Dump
