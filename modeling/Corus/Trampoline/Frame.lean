import Corus.Dump.Outcome
import Corus.Trampoline.Aarch64
import Corus.Trampoline.X86

/-!
# The frame of the calling thread

`write_core_dump_to_fd_options` has `capture_frame` fill a zeroed `Regs` and hands
it to the dump, which records it in place of the registers ptrace finds while the
thread waits. What the core then says of the thread is its state at the call.
-/

namespace Corus.Trampoline

open Corus.Logical Corus.Elf Corus.Dump

/-- The `Regs` at an address. -/
def readRegs (arch : Arch) (memory : WordMemory) (out : Word) : Regs arch :=
  Vector.ofFn fun slot => UInt64.ofBitVec (memory.load (WordMemory.slotAddress out slot))

section

variable {arch : Arch} {engine : Engine arch} {tid : Int32} {pids : List Int32} {cap : CapturedDump arch}

/-- Every captured thread has the registers that ptrace reports, the calling thread
its own frame. -/
theorem capture_regs (unframed : engine.options.frame = none) (caller : engine.gettid = .ok tid)
    (captured : engine.capture pids = .ok cap) :
    ∀ thread ∈ cap.threads, ∃ ptraced, engine.host.gpregs thread.pid = .ok ptraced ∧
      thread.regs = if thread.pid = tid then frameRegs engine.frame ptraced else ptraced := by
  intro thread member
  obtain ⟨each, -, -⟩ := captureDump_ok captured
  obtain ⟨index, inBounds, rfl⟩ := List.mem_iff_getElem.mp member
  have taken := List.forall₂_iff_get.mp each
  have one := taken.2 index (by rw [taken.1]; exact inBounds) inBounds
  simp only [List.get_eq_getElem] at one
  rw [captureThread_pid one]
  simp only [captureThread, Engine.opts, DumpOptions.withFrame, unframed, caller] at one
  split at one
  · cases one
  · rename_i ptraced traced
    exact ⟨ptraced, traced, (congrArg ThreadState.regs (Except.ok.inj one)).symm⟩

/-- The slots of a filled buffer. -/
theorem readRegs_storeSlots (memory : WordMemory) (out : Word) {writes : List (Nat × Word)}
    (inBounds : ∀ write ∈ writes, write.1 < arch.regWords) (slot : Nat) (inRegs : slot < arch.regWords) :
    (readRegs arch (memory.storeSlots out writes) out)[slot] =
      ((WordMemory.lastWrite slot writes).map UInt64.ofBitVec).getD (readRegs arch memory out)[slot] := by
  have small : 8 * arch.regWords ≤ 2 ^ 64 := by cases arch <;> decide
  simp only [readRegs, Vector.getElem_ofFn]
  rw [WordMemory.load_storeSlots arch.regWords small inBounds inRegs]
  cases WordMemory.lastWrite slot writes <;> rfl

end

/-! ## x86_64 -/

namespace X86

theorem fsBase_inRegs : 21 < Arch.x86_64.regWords := by decide

theorem gsBase_inRegs : 22 < Arch.x86_64.regWords := by decide

/-- What a debugger is to see of the thread that called `capture_frame`: its registers,
the return address as `rip`, the stack pointer behind the return address, the segment
bases from ptrace and zeros in the slots nothing fills. -/
def callSite (state : State) (ptraced : Regs .x86_64) : Regs .x86_64 :=
  let reg (name : Gpr) : UInt64 := UInt64.ofBitVec (state.regs name)
  #v[reg .r15, reg .r14, reg .r13, reg .r12, reg .rbp, reg .rbx, reg .r11, reg .r10, reg .r9, reg .r8, reg .rax,
    reg .rcx, reg .rdx, reg .rsi, reg .rdi, 0, UInt64.ofBitVec (state.peek (state.regs .rsp)), 0, 0,
    UInt64.ofBitVec (state.regs .rsp + 8), 0, ptraced.get ⟨21, fsBase_inRegs⟩, ptraced.get ⟨22, gsBase_inRegs⟩,
    0, 0, 0, 0]

theorem frameSlots_inBounds (state : State) : ∀ write ∈ frameSlots state, write.1 < Arch.x86_64.regWords := by
  simp [frameSlots, savedRegs, Arch.regWords]

theorem frameRegs_afterCapture {state : State} (zeroed : readRegs .x86_64 state.memory (state.regs .rdi) = Regs.zeroed)
    (ptraced : Regs .x86_64) :
    frameRegs (readRegs .x86_64 (afterCapture state).memory (state.regs .rdi)) ptraced = callSite state ptraced := by
  ext slot inRegs
  have filled := readRegs_storeSlots state.memory (state.regs .rdi) (frameSlots_inBounds state)
  simp only [frameRegs, Regs.withSegmentBases, Vector.getElem_set]
  rw [afterCapture]
  simp only [MachineState.set_memory, filled, zeroed]
  simp only [Arch.regWords] at inRegs
  interval_cases slot <;> rfl

/-- The core of the calling thread shows the call: for every machine state in which
`capture_frame` is entered with a zeroed buffer off its return address, it returns to its
caller with all registers but the scratch one, it has changed nothing outside of the buffer,
and a dump that is handed the buffer records the registers, the return address and the
stack pointer of the call for the calling thread, and those of ptrace for every other. -/
theorem captureFrame_recorded (state : State) (separate : Separate (state.regs .rdi) 216 (state.regs .rsp) 8)
    (zeroed : readRegs .x86_64 state.memory (state.regs .rdi) = Regs.zeroed) :
    ∃ final : State, run captureFrame state = .returned (state.peek (state.regs .rsp)) final ∧
      final.regs .rsp = state.regs .rsp + 8 ∧ (∀ reg, reg ≠ .rsp → reg ≠ .rax → final.regs reg = state.regs reg) ∧
      (∀ byte, ¬ InBlock (state.regs .rdi) 216 byte → final.memory byte = state.memory byte) ∧
      ∀ (engine : Engine .x86_64) (tid : Int32), engine.options.frame = none → engine.gettid = .ok tid →
        engine.frame = readRegs .x86_64 final.memory (state.regs .rdi) →
        ∀ pids cap, engine.capture pids = .ok cap → ∀ thread ∈ cap.threads,
          ∃ ptraced, engine.host.gpregs thread.pid = .ok ptraced ∧
            thread.regs = if thread.pid = tid then callSite state ptraced else ptraced := by
  refine ⟨afterCapture state, run_captureFrame state separate, ?_, ?_, ?_, ?_⟩
  · rw [afterCapture, MachineState.set_regs, if_pos rfl]
  · intro reg notStack notScratch
    rw [afterCapture, MachineState.set_regs, if_neg notStack, MachineState.set_regs, if_neg notScratch]
  · intro byte outside
    exact WordMemory.storeSlots_outside 27 (by decide) (frameSlots_inBounds state) outside
  · intro engine tid unframed caller filled pids cap captured thread member
    obtain ⟨ptraced, traced, regs⟩ := capture_regs unframed caller captured thread member
    refine ⟨ptraced, traced, ?_⟩
    rw [regs, filled, frameRegs_afterCapture zeroed]

/-- A call of `capture_frame` with its buffer below the return address. -/
def sampleCall : State where
  regs
    | .rdi => 0x1000
    | .rsp => 0x2000
    | .rbx => 7
    | _ => 0
  memory := WordMemory.store (fun _ => 0) 0x2000 0x401000
  zero := false

theorem sampleCall_separate : Separate (sampleCall.regs .rdi) 216 (sampleCall.regs .rsp) 8 := by
  intro address inBuffer inStack
  simp only [InBlock, sampleCall] at inBuffer inStack
  bv_omega

/-- A dump of the thread that made the call and one other. -/
def framedEngine (frame : Regs .x86_64) : Engine .x86_64 :=
  { sampleEngine with
    options := sampleOptions
    gettid := .ok 100
    frame := frame }

theorem captureFrame_recorded_sample :
    sampleCall.peek 0x2000 = 0x401000 ∧
      ∃ final : State, run captureFrame sampleCall = .returned (sampleCall.peek 0x2000) final ∧
      ∃ cap, (framedEngine (readRegs .x86_64 final.memory 0x1000)).capture [100, 101] = .ok cap ∧
        cap.threads.map (fun thread => thread.pid) = [100, 101] ∧
        ∀ thread ∈ cap.threads, ∃ ptraced, sampleHost.gpregs thread.pid = .ok ptraced ∧
          thread.regs = if thread.pid = 100 then callSite sampleCall ptraced else ptraced := by
  obtain ⟨final, runs, -, -, -, recorded⟩ :=
    captureFrame_recorded sampleCall sampleCall_separate (by decide +kernel)
  refine ⟨by decide +kernel, final, runs, _, rfl, rfl, ?_⟩
  exact recorded (framedEngine (readRegs .x86_64 final.memory 0x1000)) 100 rfl rfl rfl [100, 101] _ rfl

end X86

/-! ## aarch64 -/

namespace Aarch64

/-- The registers of the call, with the return address as `pc` and a zero `pstate`. -/
def callSite (state : State) : Regs .aarch64 :=
  Vector.ofFn fun slot =>
    if inFile : slot.val < 31 then UInt64.ofBitVec (state.regs (.x ⟨slot, inFile⟩))
    else if slot.val = 31 then UInt64.ofBitVec (state.regs .sp)
    else if slot.val = 32 then UInt64.ofBitVec (state.regs .lr)
    else 0

theorem frameSlots_inBounds (state : State) : ∀ write ∈ frameSlots state, write.1 < Arch.aarch64.regWords := by
  have slots : (frameSlots state).map Prod.fst = List.range 33 := rfl
  intro write member
  have listed : write.1 ∈ (frameSlots state).map Prod.fst := List.mem_map_of_mem member
  rw [slots, List.mem_range] at listed
  simp only [Arch.regWords]
  omega

theorem frameRegs_afterCapture {state : State}
    (zeroed : readRegs .aarch64 state.memory (state.regs (.x 0)) = Regs.zeroed)
    (ptraced : Regs .aarch64) :
    frameRegs (readRegs .aarch64 (afterCapture state).memory (state.regs (.x 0))) ptraced = callSite state := by
  ext slot inRegs
  have filled := readRegs_storeSlots state.memory (state.regs (.x 0)) (frameSlots_inBounds state)
  simp only [frameRegs]
  rw [afterCapture]
  simp only [MachineState.set_memory, filled, zeroed, callSite, Vector.getElem_ofFn]
  simp only [Arch.regWords] at inRegs
  interval_cases slot <;> rfl

/-- The core of the calling thread shows the call: for every machine state in which
`capture_frame` is entered with a zeroed buffer, it returns to its caller with all registers
but the scratch one, it has changed nothing outside of the buffer, and a dump that is handed
the buffer records the registers, the return address and the stack pointer of the call for
the calling thread, and those of ptrace for every other. -/
theorem captureFrame_snapshot (state : State)
    (zeroed : readRegs .aarch64 state.memory (state.regs (.x 0)) = Regs.zeroed) :
    ∃ final : State, run captureFrame state = .returned (state.regs .lr) final ∧
      (∀ reg, reg ≠ .x 9 → final.regs reg = state.regs reg) ∧
      (∀ byte, ¬ InBlock (state.regs (.x 0)) 272 byte → final.memory byte = state.memory byte) ∧
      ∀ (engine : Engine .aarch64) (tid : Int32), engine.options.frame = none → engine.gettid = .ok tid →
        engine.frame = readRegs .aarch64 final.memory (state.regs (.x 0)) →
        ∀ pids cap, engine.capture pids = .ok cap → ∀ thread ∈ cap.threads,
          ∃ ptraced, engine.host.gpregs thread.pid = .ok ptraced ∧
            thread.regs = if thread.pid = tid then callSite state else ptraced := by
  refine ⟨afterCapture state, run_captureFrame state, ?_, ?_, ?_⟩
  · intro reg notScratch
    rw [afterCapture, MachineState.set_regs, if_neg notScratch]
  · intro byte outside
    exact WordMemory.storeSlots_outside 34 (by decide) (frameSlots_inBounds state) outside
  · intro engine tid unframed caller filled pids cap captured thread member
    obtain ⟨ptraced, traced, regs⟩ := capture_regs unframed caller captured thread member
    refine ⟨ptraced, traced, ?_⟩
    rw [regs, filled, frameRegs_afterCapture zeroed]

/-- A call of `capture_frame` from the function at `0x401000`. -/
def sampleCall : State where
  regs
    | .sp => 0x2000
    | .x index => if index = 0 then 0x1000 else if index = 30 then 0x401000 else 0
  memory _ := 0
  zero := false

def sampleHost : Host .aarch64 where
  getpid := .ok 102
  getppid := .ok 100
  getsid := .ok 100
  geteuid := .ok 1000
  getegid := .ok 1000
  getpriority := .ok 0
  preDump := 0
  gpregs pid := .ok (Vector.replicate _ (UInt64.ofNat pid.toInt.toNat))
  fpregs _ := .error .eperm
  auxvOpen := none
  auxvRead _ := none
  exe := .error .eperm
  cmdline := .error .eperm

/-- A dump of the thread that made the call and one other. -/
def framedEngine (frame : Regs .aarch64) : Engine .aarch64 where
  options := ⟨.forkSnapshot, none, false, [], false, none⟩
  gettid := .ok 100
  frame := frame
  host := sampleHost
  kernel := sampleEngine.kernel
  proc := sampleEngine.proc
  fd := sampleEngine.fd
  world := sampleEngine.world

theorem captureFrame_snapshot_sample :
    ∃ final : State, run captureFrame sampleCall = .returned 0x401000 final ∧
      ∃ cap, (framedEngine (readRegs .aarch64 final.memory 0x1000)).capture [100, 101] = .ok cap ∧
        cap.threads.map (fun thread => thread.pid) = [100, 101] ∧
        ∀ thread ∈ cap.threads, ∃ ptraced, sampleHost.gpregs thread.pid = .ok ptraced ∧
          thread.regs = if thread.pid = 100 then callSite sampleCall else ptraced := by
  obtain ⟨final, runs, -, -, recorded⟩ := captureFrame_snapshot sampleCall (by decide +kernel)
  refine ⟨final, runs, _, rfl, rfl, ?_⟩
  exact recorded (framedEngine (readRegs .aarch64 final.memory 0x1000)) 100 rfl rfl rfl [100, 101] _ rfl

end Aarch64

end Corus.Trampoline
