import Corus.Logical.Machine

/-!
# The x86_64 trampolines

The instructions that `capture_frame` and `clone` are written in, and the two
functions instruction by instruction. An operand the compiler chooses a register
for is a parameter of the code.
-/

namespace Corus.Trampoline.X86

open Corus.Logical

/-- General-purpose registers. -/
inductive Gpr where
  | rax | rbx | rcx | rdx | rsi | rdi | rbp | rsp
  | r8 | r9 | r10 | r11 | r12 | r13 | r14 | r15
deriving DecidableEq, Repr

/-- The instructions used, with the operand order of the source. -/
inductive Instr where
  /-- `mov [base + disp], src` -/
  | store (base : Gpr) (disp : Word) (src : Gpr)
  /-- `mov dst, [base]` -/
  | load (dst base : Gpr)
  /-- `lea dst, [base + disp]` -/
  | lea (dst base : Gpr) (disp : Word)
  /-- `mov dst, src` -/
  | mov (dst src : Gpr)
  /-- `mov dst, imm` -/
  | movImm (dst : Gpr) (imm : Word)
  /-- `and dst, imm` -/
  | andImm (dst : Gpr) (imm : Word)
  /-- `sub dst, imm` -/
  | subImm (dst : Gpr) (imm : Word)
  /-- `xor dst, src` on the lower halves -/
  | xor32 (dst src : Gpr)
  /-- `test left, right` -/
  | test (left right : Gpr)
  /-- `jz 2f` -/
  | jz
  /-- `jnz 2f` -/
  | jnz
  | pop (dst : Gpr)
  /-- `call target`, followed by the instruction at `back` -/
  | call (target : Gpr) (back : Word)
  | ret
  | syscall
deriving DecidableEq, Repr

abbrev State := MachineState Gpr

/-- One instruction. Writing the lower half of a register clears its upper half. -/
def exec : Instr → State → Effect Gpr
  | .store base disp src, state => .next (state.poke (state.regs base + disp) (state.regs src))
  | .load dst base, state => .next (state.set dst (state.peek (state.regs base)))
  | .lea dst base disp, state => .next (state.set dst (state.regs base + disp))
  | .mov dst src, state => .next (state.set dst (state.regs src))
  | .movImm dst imm, state => .next (state.set dst imm)
  | .andImm dst imm, state => .next ((state.set dst (state.regs dst &&& imm)).compare (state.regs dst &&& imm))
  | .subImm dst imm, state => .next ((state.set dst (state.regs dst - imm)).compare (state.regs dst - imm))
  | .xor32 dst src, state =>
      let result := ((state.regs dst).setWidth 32 ^^^ (state.regs src).setWidth 32).setWidth 64
      .next ((state.set dst result).compare result)
  | .test left right, state => .next (state.compare (state.regs left &&& state.regs right))
  | .jz, state => if state.zero then .leave state else .next state
  | .jnz, state => if state.zero then .next state else .leave state
  | .pop dst, state => .next ((state.set .rsp (state.regs .rsp + 8)).set dst (state.peek (state.regs .rsp)))
  | .call target back, state =>
      .call (state.regs target) ((state.set .rsp (state.regs .rsp - 8)).poke (state.regs .rsp - 8) back)
  | .ret, state => .ret (state.peek (state.regs .rsp)) (state.set .rsp (state.regs .rsp + 8))
  | .syscall, state => .trap state

abbrev run (code : List Instr) (state : State) : Stop Gpr Instr := runCode exec code state

/-- `capture_frame`. -/
def captureFrame : List Instr :=
  [.store .rdi 0 .r15, .store .rdi 8 .r14, .store .rdi 16 .r13, .store .rdi 24 .r12, .store .rdi 32 .rbp,
    .store .rdi 40 .rbx, .store .rdi 48 .r11, .store .rdi 56 .r10, .store .rdi 64 .r9, .store .rdi 72 .r8,
    .store .rdi 80 .rax, .store .rdi 88 .rcx, .store .rdi 96 .rdx, .store .rdi 104 .rsi, .store .rdi 112 .rdi,
    .load .rax .rsp, .store .rdi 128 .rax, .lea .rax .rsp 8, .store .rdi 152 .rax, .ret]

def nrClone : Word := 56
def nrExit : Word := 60

/-- `-(EINVAL as isize) as usize`. -/
def einval : Word := BitVec.ofInt 64 (-22)

/-- The part of `clone` that only the child runs. -/
def cloneChild (back : Word) : List Instr :=
  [.xor32 .rbp .rbp, .pop .rax, .pop .rdi, .call .rax back, .mov .rdi .rax, .movImm .rax nrExit, .syscall]

/-- `clone` behind its first system call. -/
def cloneTail (back : Word) : List Instr := .test .rax .rax :: .jnz :: cloneChild back

/-- `clone`, with the registers chosen for `func`, `child_stack` and `arg`. -/
def clone (func stack arg : Gpr) (back : Word) : List Instr :=
  [.test func func, .jz, .test stack stack, .jz, .andImm stack (BitVec.ofInt 64 (-16)), .subImm stack 16, .store stack 8 arg,
    .store stack 0 func, .mov .rsi stack, .movImm .rax nrClone, .syscall] ++ cloneTail back

/-! ## The captured frame -/

/-- `mov [rdi + 8 * slot], reg`. -/
def save (slot : Nat × Gpr) : Instr := .store .rdi (BitVec.ofNat 64 (8 * slot.1)) slot.2

/-- The registers saved before any is used as scratch, by slot of `Regs`. -/
def savedRegs : List (Nat × Gpr) :=
  [(0, .r15), (1, .r14), (2, .r13), (3, .r12), (4, .rbp), (5, .rbx), (6, .r11), (7, .r10), (8, .r9), (9, .r8),
    (10, .rax), (11, .rcx), (12, .rdx), (13, .rsi), (14, .rdi)]

/-- Everything `capture_frame` stores: slot 16 is `rip`, slot 19 `rsp`. -/
def frameSlots (state : State) : List (Nat × Word) :=
  (savedRegs.map fun slot => (slot.1, state.regs slot.2)) ++
    [(16, state.peek (state.regs .rsp)), (19, state.regs .rsp + 8)]

/-- The machine when `capture_frame` has returned. -/
def afterCapture (state : State) : State :=
  let recorded : State := { state with memory := state.memory.storeSlots (state.regs .rdi) (frameSlots state) }
  (recorded.set .rax (state.regs .rsp + 8)).set .rsp (state.regs .rsp + 8)

/-- The leading stores. -/
theorem straight_savedRegs (state : State) : straight exec (savedRegs.map save) state = some { state with
    memory := state.memory.storeSlots (state.regs .rdi) (savedRegs.map fun slot => (slot.1, state.regs slot.2)) } :=
  @straight_stores _ _ exec _ save (fun slot => [slot]) .rdi (fun _ _ => rfl) savedRegs state

/-- `capture_frame` into a buffer that does not hold its own return address. -/
theorem run_captureFrame (state : State) (separate : Separate (state.regs .rdi) 216 (state.regs .rsp) 8) :
    run captureFrame state = .returned (state.peek (state.regs .rsp)) (afterCapture state) := by
  have saved : (state.memory.storeSlots (state.regs .rdi)
      (savedRegs.map fun slot => (slot.1, state.regs slot.2))).load (state.regs .rsp) = state.peek (state.regs .rsp) :=
    WordMemory.load_storeSlots_of_separate 27 (by decide) (by simp [savedRegs]) separate
  have kept : (state.memory.storeSlots (state.regs .rdi) (frameSlots state)).load (state.regs .rsp) =
      state.peek (state.regs .rsp) :=
    WordMemory.load_storeSlots_of_separate 27 (by decide) (by simp [frameSlots, savedRegs]) separate
  have recorded : ((state.memory.storeSlots (state.regs .rdi)
      (savedRegs.map fun slot => (slot.1, state.regs slot.2))).store (state.regs .rdi + 128)
        (state.peek (state.regs .rsp))).store (state.regs .rdi + 152) (state.regs .rsp + 8) =
      state.memory.storeSlots (state.regs .rdi) (frameSlots state) := by
    rw [frameSlots, WordMemory.storeSlots_append]
    rfl
  have split : captureFrame = savedRegs.map save ++ captureFrame.drop 15 := by decide
  rw [run, split, runCode_append (straight_savedRegs state)]
  simp only [captureFrame, List.drop, runCode, exec, MachineState.peek, MachineState.set, MachineState.poke,
    Function.update_idem, Function.update_self, Function.update_of_ne, ne_eq, reduceCtorEq,
    not_false_eq_true] at saved recorded kept ⊢
  rw [saved, recorded, kept]
  rfl

end Corus.Trampoline.X86
