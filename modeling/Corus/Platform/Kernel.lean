import Corus.Logical.Bytes

/-!
# System calls

What the dump engine sees of the kernel. A system call is answered by an oracle
indexed by the number of calls made so far, so that a statement about every
`Kernel` is a statement about every sequence of answers. Calls that the source
retries on `EINTR` are answered by a `Response`, which fixes how often the call
is interrupted before its real result.
-/

namespace Corus.Platform

open Corus.Logical

/-- A kernel error number: `from_ret` decodes only return values in `-4095..=-1`. -/
structure Errno where
  code : Nat
  positive : 0 < code
  bounded : code ≤ 4095
deriving DecidableEq, Repr

namespace Errno

def eperm : Errno := ⟨1, by decide, by decide⟩
def enoent : Errno := ⟨2, by decide, by decide⟩
def eintr : Errno := ⟨4, by decide, by decide⟩
def echild : Errno := ⟨10, by decide, by decide⟩
def eagain : Errno := ⟨11, by decide, by decide⟩
def enomem : Errno := ⟨12, by decide, by decide⟩
def efault : Errno := ⟨14, by decide, by decide⟩
def einval : Errno := ⟨22, by decide, by decide⟩

end Errno

/-- A signal that can end a task. -/
structure Signal where
  number : Nat
  positive : 0 < number
  bounded : number ≤ 64
deriving DecidableEq, Repr

namespace Signal

def sigill : Signal := ⟨4, by decide, by decide⟩
def sigabrt : Signal := ⟨6, by decide, by decide⟩
def sigbus : Signal := ⟨7, by decide, by decide⟩
def sigfpe : Signal := ⟨8, by decide, by decide⟩
def sigsegv : Signal := ⟨11, by decide, by decide⟩
def sigxcpu : Signal := ⟨24, by decide, by decide⟩
def sigxfsz : Signal := ⟨25, by decide, by decide⟩

end Signal

/-- The answer to a call that is first interrupted `interruptions` times. -/
structure Response (Result : Type) where
  interruptions : Nat
  result : Result
deriving Repr

/-- The retry loop with a given number of `EINTR` answers still to come. -/
def retryAfter {Result : Type} : Nat → Result → Result
  | 0, result => result
  | interruptions + 1, result => retryAfter interruptions result

/-- `loop { match call() { Err(EINTR) => continue, other => return other } }`. -/
def Response.retry {Result : Type} (response : Response Result) : Result :=
  retryAfter response.interruptions response.result

/-- Any finite number of interruptions leaves the result of a retry loop unchanged. -/
@[simp] theorem Response.retry_eq {Result : Type} (response : Response Result) :
    response.retry = response.result := by
  unfold Response.retry
  induction response.interruptions with
  | zero => rfl
  | succ interruptions ih => exact ih

/-- How `write_memory_probe` ends: the number of bytes queued or the error, and
the empty pipe slots a faulted copy leaves behind. -/
structure ProbeAnswer where
  outcome : Except Errno Nat
  emptySlots : Nat

/-- The loopback pipe: queued bytes, the empty slots behind them, the read end's
`O_NONBLOCK` flag and the capacity in bytes. -/
structure PipeState where
  queued : Bytes
  emptySlots : Nat
  nonblocking : Bool
  capacity : Nat
deriving DecidableEq, Repr

/-- A pipe without bytes or slots in use. -/
def PipeState.Clean (pipe : PipeState) : Prop := pipe.queued = [] ∧ pipe.emptySlots = 0

/-- The kernel as seen by the serializing task: the process memory, which is
stable, and the answers to its system calls. -/
structure Kernel where
  pageSize : Nat
  memory : Nat → Byte
  readablePage : Nat → Bool
  /-- `pipe2(2)`; success carries the capacity of the new pipe. -/
  pipe2 : Nat → Except Errno Nat
  /-- A failure of `fcntl(F_GETPIPE_SZ)`, if any. -/
  getPipeSize : Nat → Option Errno
  /-- `fcntl(F_SETPIPE_SZ, size)`; success carries the capacity now in force. -/
  setPipeSize : Nat → Nat → Except Errno Nat
  /-- A failure of `fcntl(F_GETFL)` or `fcntl(F_SETFL)`, if any. -/
  statusFlags : Nat → Option Errno
  /-- `write(2)` of a memory range into the pipe. -/
  probe : Nat → Nat → Nat → Response ProbeAnswer
  /-- `read(2)` of the pipe; a count is cut to what is asked for and queued. -/
  pipeRead : Nat → Response (Except Errno Nat)

namespace Kernel

/-- Readability is a property of whole pages. -/
def readable (kernel : Kernel) (address : Nat) : Bool :=
  kernel.readablePage (address / kernel.pageSize)

/-- What a reader of the live process is entitled to see at an address: the
byte, or zero where its page cannot be read. -/
def visible (kernel : Kernel) (address : Nat) : Byte :=
  if kernel.readable address then kernel.memory address else 0

/-- A load of the byte at an address by the task itself. One from a page that cannot be
read has no result: the fault ends the task. -/
def load (kernel : Kernel) (address : Nat) : Option Byte :=
  if kernel.readable address then some (kernel.memory address) else none

/-- The `count` memory bytes from `address` on. -/
def memoryRange (kernel : Kernel) (address count : Nat) : Bytes :=
  (List.range count).map fun index => kernel.memory (address + index)

/-- As `memoryRange`, with unreadable pages shown as zeros. -/
def visibleRange (kernel : Kernel) (address count : Nat) : Bytes :=
  (List.range count).map fun index => kernel.visible (address + index)

end Kernel

/-- The state of the serializing task's system calls. `stalled` records that
some call would have blocked for good, `faulted` that a load of the task faulted;
in either case the task never came to what follows. -/
structure World where
  clock : Nat
  pipe : PipeState
  stalled : Bool
  faulted : Bool
deriving DecidableEq, Repr

/-- One more system call has been made. -/
def World.tick (world : World) : World := { world with clock := world.clock + 1 }

namespace Kernel

variable {kernel : Kernel}

@[simp] theorem length_memoryRange (address count : Nat) :
    (kernel.memoryRange address count).length = count := by
  simp [memoryRange]

@[simp] theorem length_visibleRange (address count : Nat) :
    (kernel.visibleRange address count).length = count := by
  simp [visibleRange]

@[simp] theorem visibleRange_zero (address : Nat) : kernel.visibleRange address 0 = [] := rfl

theorem memoryRange_succ (address count : Nat) :
    kernel.memoryRange address (count + 1) = kernel.memory address :: kernel.memoryRange (address + 1) count := by
  simp [memoryRange, List.range_succ_eq_map, Function.comp_def, Nat.add_assoc, Nat.add_comm 1]

/-- Consecutive ranges concatenate. -/
theorem visibleRange_add (address first second : Nat) :
    kernel.visibleRange address (first + second) =
      kernel.visibleRange address first ++ kernel.visibleRange (address + first) second := by
  simp [visibleRange, List.range_add, Nat.add_assoc, Function.comp_def]

/-- On readable bytes the visible memory is the memory. -/
theorem visibleRange_eq_memoryRange {address count : Nat}
    (readable : ∀ index < count, kernel.readable (address + index)) :
    kernel.visibleRange address count = kernel.memoryRange address count := by
  apply List.map_congr_left
  intro index member
  simp [visible, readable index (List.mem_range.mp member)]

/-- On unreadable bytes the visible memory is zero. -/
theorem visibleRange_eq_zeros {address count : Nat}
    (unreadable : ∀ index < count, kernel.readable (address + index) = false) :
    kernel.visibleRange address count = List.replicate count 0 := by
  apply List.eq_replicate_iff.mpr
  refine ⟨by simp, ?_⟩
  intro byte member
  obtain ⟨index, inRange, rfl⟩ := List.mem_map.mp member
  simp [visible, unreadable index (List.mem_range.mp inRange)]

/-- The byte at a given offset of a visible range. -/
theorem visibleRange_getElem? {address count index : Nat} (inside : index < count) :
    (kernel.visibleRange address count)[index]? = some (kernel.visible (address + index)) := by
  simp [visibleRange, inside]

end Kernel

end Corus.Platform
