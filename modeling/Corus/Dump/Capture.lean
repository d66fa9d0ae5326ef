import Corus.Dump.Serialize
import Corus.Platform.Process

/-!
# Capturing the stopped threads

`capture_dump` runs in the lister while the threads are stopped. It collects their
registers, the auxiliary vector and the process information, and decides which
thread the notes of the core start with.
-/

namespace Corus.Dump

open Corus.Logical Corus.Platform Corus.Elf

def maxDumpThreads : Nat := 512
def maxAuxv : Nat := 64
def exePathLen : Nat := 256

/-- The answers to the calls that are made while capturing. -/
structure Host (arch : Arch) where
  getpid : Except Errno Int32
  getppid : Except Errno Int32
  getsid : Except Errno Int32
  geteuid : Except Errno UInt32
  getegid : Except Errno UInt32
  getpriority : Except Errno UInt64
  /-- What the pre-dump callback returns. -/
  preDump : Int32
  /-- `PTRACE_GETREGS` and `PTRACE_GETFPREGS` of a stopped thread. -/
  gpregs : Int32 → Except Errno (Regs arch)
  fpregs : Int32 → Except Errno (FpRegs arch)
  /-- A failure to open the auxiliary vector, if any, and the entry that each read
  fills in full. -/
  auxvOpen : Option Errno
  auxvRead : Nat → Option AuxvT
  /-- The target of `/proc/self/exe`. -/
  exe : Except Errno Bytes
  /-- Opening `/proc/self/cmdline`, and reading its first bytes. -/
  cmdline : Except Errno (Except Errno Bytes)

section Capture

variable {arch : Arch}

/-- The loop of `read_auxv`, with the number of entries that still fit. -/
def readAuxvFrom (host : Host arch) (index : Nat) : Nat → List AuxvT
  | 0 => []
  | room + 1 =>
      match host.auxvRead index with
      | none => []
      | some entry => if entry.aType = 0 then [entry] else entry :: readAuxvFrom host (index + 1) room

/-- `read_auxv`; a failure counts as an empty vector. -/
def readAuxv (host : Host arch) : List AuxvT :=
  match host.auxvOpen with
  | some _ => []
  | none => readAuxvFrom host 0 maxAuxv

/-- Copy bytes to the front of a zeroed array. -/
def fillArray (size : Nat) (bytes : Bytes) : Vector Byte size := Vector.ofFn fun index => bytes.getD index 0

/-- The part of a path behind its last slash. -/
def basename (path : Bytes) : Bytes := (path.reverse.takeWhile fun byte => byte != 0x2f).reverse

/-- `build_prpsinfo`. -/
def buildPrpsinfo (host : Host arch) (mainPid : Int32) : Prpsinfo :=
  let exe := (host.exe.toOption.getD []).take exePathLen
  let args := match host.cmdline with
    | .ok (.ok text) => (text.take 80).map fun byte => if byte = 0 then 0x20 else byte
    | _ => []
  { Prpsinfo.zeroed with
    prSname := 0x52
    prNice := match host.getpriority with
      | .ok value => value.toUInt8.toInt8
      | .error _ => 0
    prUid := host.geteuid.toOption.getD 0
    prGid := host.getegid.toOption.getD 0
    prPid := mainPid
    prPpid := host.getppid.toOption.getD 0
    prSid := host.getsid.toOption.getD 0
    prFname := fillArray 16 (basename exe)
    prPsargs := fillArray 80 args }

/-- The registers of the calling thread: its own snapshot, on x86_64 with the
segment bases that only the kernel knows. -/
def frameRegs : {arch : Arch} → Regs arch → Regs arch → Regs arch
  | .x86_64, frame, ptraced => Regs.withSegmentBases frame ptraced
  | .aarch64, frame, _ => frame

/-- One round of the register loop. -/
def captureThread (host : Host arch) (opts : DumpOptions arch) (pid : Int32) :
    Except DumpError (ThreadState arch) :=
  match host.gpregs pid with
  | .error errno => .error (.ptraceGetRegs pid errno)
  | .ok regs =>
      let fpregs := match host.fpregs pid with
        | .ok fpregs => fpregs
        | .error _ => FpRegs.zeroed
      let regs := match opts.frame with
        | some (frameTid, frame) => if pid = frameTid then frameRegs frame regs else regs
        | none => regs
      .ok ⟨pid, regs, fpregs⟩

/-- The register loop from an index on, with the main index found so far. -/
def captureThreads (host : Host arch) (opts : DumpOptions arch) (mainPid : Int32) :
    Nat → Nat → List Int32 → Except DumpError (List (ThreadState arch) × Nat)
  | _, mainIdx, [] => .ok ([], mainIdx)
  | index, mainIdx, pid :: rest =>
      match captureThread host opts pid with
      | .error error => .error error
      | .ok thread =>
          match captureThreads host opts mainPid (index + 1)
              (if pid = mainPid then index else mainIdx) rest with
          | .error error => .error error
          | .ok (threads, mainIdx) => .ok (thread :: threads, mainIdx)

/-- `capture_dump`. -/
def captureDump (host : Host arch) (pids : List Int32) (mainPid : Int32) (opts : DumpOptions arch) :
    Except DumpError (CapturedDump arch) :=
  if opts.callback = true ∧ host.preDump ≠ 0 then .error .callbackAborted
  else
    match captureThreads host opts mainPid 0 0 (pids.take maxDumpThreads) with
    | .error error => .error error
    | .ok (threads, mainIdx) =>
        .ok ⟨threads, mainIdx, readAuxv host, buildPrpsinfo host mainPid, mainPid⟩

/-- The `main_pid` of `dump_callback`: what `getpid` says in the lister. -/
def Host.mainPid (host : Host arch) (pids : List Int32) : Int32 :=
  match host.getpid with
  | .ok pid => pid
  | .error _ => pids.head?.getD 0

/-! ## Which threads are captured -/

variable {host : Host arch} {opts : DumpOptions arch} {mainPid : Int32}

/-- A successful capture holds one state for each thread, in order, and the main
index stays where it was unless the main thread is listed. -/
theorem captureThreads_ok {index mainIdx last : Nat} {pids : List Int32} {threads : List (ThreadState arch)}
    (captured : captureThreads host opts mainPid index mainIdx pids = .ok (threads, last)) :
    List.Forall₂ (fun pid thread => captureThread host opts pid = .ok thread) pids threads ∧
      (mainPid ∉ pids → last = mainIdx) := by
  induction pids generalizing index mainIdx threads with
  | nil =>
      cases captured
      exact ⟨.nil, fun _ => rfl⟩
  | cons pid rest ih =>
      simp only [captureThreads] at captured
      split at captured
      · cases captured
      rename_i thread own
      split at captured
      · cases captured
      rename_i others mainIdx others_ok
      cases captured
      obtain ⟨each, kept⟩ := ih others_ok
      refine ⟨.cons own each, ?_⟩
      intro absent
      simp only [List.mem_cons, not_or] at absent
      rw [kept absent.2, if_neg (Ne.symm absent.1)]

/-- A captured state carries the id it was captured for. -/
theorem captureThread_pid {pid : Int32} {thread : ThreadState arch}
    (captured : captureThread host opts pid = .ok thread) : thread.pid = pid := by
  simp only [captureThread] at captured
  split at captured
  · cases captured
  · cases captured
    rfl

/-- What a capture holds: the registers of the first threads, in order, and the
process information. Without the main thread among them it starts at the first. -/
theorem captureDump_ok {pids : List Int32} {cap : CapturedDump arch}
    (captured : captureDump host pids mainPid opts = .ok cap) :
    List.Forall₂ (fun pid thread => captureThread host opts pid = .ok thread)
        (pids.take maxDumpThreads) cap.threads ∧
      cap.prpsinfo = buildPrpsinfo host mainPid ∧ (mainPid ∉ pids → cap.mainIdx = 0) := by
  unfold captureDump at captured
  split at captured
  · cases captured
  split at captured
  · cases captured
  rename_i threads mainIdx registers
  cases captured
  obtain ⟨each, kept⟩ := captureThreads_ok registers
  refine ⟨each, rfl, ?_⟩
  intro absent
  exact kept fun member => absent (List.mem_of_mem_take member)

end Capture

end Corus.Dump
