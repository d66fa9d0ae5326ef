import Corus.Elf.Structs
import Corus.Threads.Lister
import Corus.Trampoline.Aarch64
import Corus.Trampoline.Spawning
import Corus.Trampoline.X86

/-!
# `clone`

The two ports of `clone` put the function and its argument on the stack of the child,
make the system call, and take them off again in the child. What this is for holds in
every interleaving of the two tasks with the rest of the process.
-/

namespace Corus.Trampoline

open Corus.Logical Corus.Elf

/-! ## The stack of the lister -/

def altStackSize : Nat := 64 * 1024
def listerFrameHeadroom : Nat := 16384
def listerStackSlack : Nat := 65536

/-- `LISTER_PATH_SCRATCH`. -/
def listerPathScratch (arch : Arch) : Nat := arch.pageSize

/-- `LISTER_OWN_STACK`: the thread ids, the alternate stack, the directory buffer, the
paths and the frames. -/
def listerOwnStack (arch : Arch) : Nat :=
  Threads.maxThreads * 4 + altStackSize + arch.pageSize + listerPathScratch arch + listerFrameHeadroom

/-- `lister_stack_size`; `& !(PAGE_SIZE - 1)` clears the bits below the page. -/
def listerStackSize (arch : Arch) (callbackStack : Nat) : Nat :=
  (listerOwnStack arch + callbackStack + listerStackSlack + (arch.pageSize - 1)) / arch.pageSize * arch.pageSize

/-- The stack holds all that is planned for, and a page-aligned mapping of its size ends
at an address that is a multiple of sixteen. -/
theorem listerStackSize_planned (arch : Arch) (callbackStack : Nat) :
    listerOwnStack arch + callbackStack + listerStackSlack ≤ listerStackSize arch callbackStack ∧
      listerStackSize arch callbackStack % 16 = 0 := by
  cases arch <;> simp only [listerStackSize, listerOwnStack, listerPathScratch, Arch.pageSize] <;> omega

/-! ## Addresses -/

/-- `& -16` clears the lower four bits. -/
theorem toNat_mask (address : Word) : (address &&& BitVec.ofInt 64 (-16)).toNat = address.toNat / 16 * 16 := by
  have shifted : address &&& BitVec.ofInt 64 (-16) = address >>> 4 <<< 4 := by
    ext bit inBounds
    have mask : ∀ bit : Fin 64, (BitVec.ofInt 64 (-16)).getLsbD bit = decide (4 ≤ bit.val) := by decide
    have masked : (BitVec.ofInt 64 (-16))[bit] = decide (4 ≤ bit) := mask ⟨bit, inBounds⟩
    rw [BitVec.getElem_and, masked, BitVec.getElem_shiftLeft]
    by_cases low : bit < 4
    · simp [low]
    · simp [low, Nat.le_of_not_lt low, BitVec.getElem_eq_testBit_toNat]
  have bounded := address.isLt
  rw [shifted, BitVec.toNat_shiftLeft, BitVec.toNat_ushiftRight, Nat.shiftRight_eq_div_pow, Nat.shiftLeft_eq]
  omega

/-- The two words below an address that a block ends at belong to the block, and so
they do below the address rounded down. -/
theorem inBlock_top {base address : Word} {size : Nat} (ends : address = base + BitVec.ofNat 64 size)
    (fits : base.toNat + size < 2 ^ 64) (room : 32 ≤ size) {byte : Word}
    (inside : InBlock ((address &&& BitVec.ofInt 64 (-16)) - 16) 16 byte) : InBlock base size byte := by
  have aligned := toNat_mask address
  have top : address.toNat = base.toNat + size := by
    rw [ends, BitVec.toNat_add, BitVec.toNat_ofNat, Nat.mod_eq_of_lt (by omega : size < 2 ^ 64),
      Nat.mod_eq_of_lt fits]
  simp only [InBlock] at inside ⊢
  generalize address &&& BitVec.ofInt 64 (-16) = masked at aligned inside
  bv_omega

/-- Neighbouring words do not overlap. -/
theorem separate_words (address : Word) : Separate address 8 (address + 8) 8 := by
  intro byte low high
  simp only [InBlock] at low high
  bv_omega

/-! ## x86_64 -/

namespace X86

def abi : Abi Gpr where
  number := .rax
  result := .rax
  argument := .rdi
  pointer := .rsp
  childStack := .rsi
  scratch reg := reg = .rcx || reg = .r11
  nrClone := nrClone
  nrExit := nrExit

/-- The registers the compiler chose for `func`, `child_stack` and `arg`, none of them
one of the registers named in the assembly. -/
structure Operands where
  func : Gpr
  stack : Gpr
  arg : Gpr
  stack_func : stack ≠ func
  stack_arg : stack ≠ arg
  stack_named : stack ∉ [Gpr.rax, .rdi, .rdx, .r8, .r10, .rsi, .rcx, .r11]

variable (operands : Operands) (back : Word) (caller : State)

/-- The stack pointer that the child starts with. -/
def childTop : Word := (caller.regs operands.stack &&& BitVec.ofInt 64 (-16)) - 16

/-- The machine at the system call: the function and its argument are on the new stack. -/
def prepared : State where
  regs := Function.update (Function.update (Function.update caller.regs operands.stack (childTop operands caller))
    .rsi (childTop operands caller)) .rax nrClone
  memory := (caller.memory.store (childTop operands caller + 8) (caller.regs operands.arg)).store
    (childTop operands caller) (caller.regs operands.func)
  zero := childTop operands caller = 0

/-- The calling convention at the first instruction of the function. -/
structure Entered (cpu : State) : Prop where
  argument : cpu.regs .rdi = caller.regs operands.arg
  outermost : cpu.regs .rbp = 0
  aligned : (cpu.regs .rsp).toNat % 16 = 8
  returns : cpu.peek (cpu.regs .rsp) = back

/-- `test reg, reg` followed by `jz`. -/
theorem run_guard (reg : Gpr) (rest : List Instr) (state : State) :
    run (.test reg reg :: .jz :: rest) state =
      if state.regs reg = 0 then .finished (state.compare (state.regs reg))
      else run rest (state.compare (state.regs reg)) := by
  simp only [runCode, exec, BitVec.and_self, MachineState.compare_zero, decide_eq_true_eq]
  split
  · rename_i passed
    split at passed
    · cases passed
    · rename_i nonzero
      cases passed
      rw [if_neg nonzero]
  all_goals
    rename_i passed
    split at passed
    · rename_i null
      cases passed
      try rw [if_pos null]
    · cases passed

/-- Without a function or a stack there is no system call, and `rax` keeps the error. -/
theorem run_clone_null (null : caller.regs operands.func = 0 ∨ caller.regs operands.stack = 0) :
    ∃ final : State, run (clone operands.func operands.stack operands.arg back) caller = .finished final ∧
      final.regs = caller.regs ∧ final.memory = caller.memory := by
  rw [clone, List.cons_append, List.cons_append, run_guard]
  by_cases noFunc : caller.regs operands.func = 0
  · rw [if_pos noFunc]
    exact ⟨_, rfl, rfl, rfl⟩
  · rw [if_neg noFunc, List.cons_append, List.cons_append, run_guard, MachineState.compare_regs,
      if_pos (null.resolve_left noFunc)]
    exact ⟨_, rfl, rfl, rfl⟩

theorem run_clone (func : caller.regs operands.func ≠ 0) (stack : caller.regs operands.stack ≠ 0) :
    run (clone operands.func operands.stack operands.arg back) caller =
      .trapped (prepared operands caller) (cloneTail back) := by
  rw [clone, List.cons_append, List.cons_append, run_guard, if_neg func, List.cons_append, List.cons_append, run_guard,
    MachineState.compare_regs, if_neg stack]
  have arg := operands.stack_arg.symm
  have fn := operands.stack_func.symm
  simp only [List.cons_append, List.nil_append, runCode, exec, MachineState.set, MachineState.poke,
    MachineState.compare, Function.update_self, Function.update_idem, Function.update_of_ne arg,
    Function.update_of_ne fn, add_zero]
  rfl

theorem loaded_prepared : (prepared operands caller).memory.load (childTop operands caller) = caller.regs operands.func ∧
    (prepared operands caller).memory.load (childTop operands caller + 8) = caller.regs operands.arg := by
  constructor
  · exact WordMemory.load_store _ _ _
  · rw [prepared, WordMemory.load_store_of_separate (separate_words _), WordMemory.load_store]

/-- Off its two words the new stack and all other memory are as before. -/
theorem prepared_outside {byte : Word} (outside : ¬ InBlock (childTop operands caller) 16 byte) :
    (prepared operands caller).memory byte = caller.memory byte := by
  simp only [prepared]
  rw [WordMemory.store_outside, WordMemory.store_outside]
  · intro inside
    apply outside
    simp only [InBlock] at inside ⊢
    bv_omega
  · intro inside
    apply outside
    simp only [InBlock] at inside ⊢
    omega

/-- The parent goes on behind the code. -/
theorem run_tail_parent (cpu : State) (nonzero : cpu.regs .rax ≠ 0) :
    ∃ final : State, run (cloneTail back) cpu = .finished final ∧ final.regs = cpu.regs ∧ final.memory = cpu.memory := by
  refine ⟨cpu.compare (cpu.regs .rax), ?_, rfl, rfl⟩
  have set : (cpu.compare (cpu.regs .rax)).zero = false := by
    rw [MachineState.compare_zero, decide_eq_false_iff_not]
    exact nonzero
  simp only [cloneTail, runCode, exec, BitVec.and_self, set, Bool.false_eq_true, if_false]

/-- The child takes the function and its argument off its stack and calls it. -/
theorem run_tail_child (cpu : State) (zero : cpu.regs .rax = 0) :
    ∃ entered : State, run (cloneTail back) cpu =
        .called (cpu.memory.load (cpu.regs .rsp)) entered [.mov .rdi .rax, .movImm .rax nrExit, .syscall] ∧
      entered.regs .rdi = cpu.memory.load (cpu.regs .rsp + 8) ∧ entered.regs .rbp = 0 ∧
      entered.regs .rsp = cpu.regs .rsp + 8 ∧ entered.memory.load (cpu.regs .rsp + 8) = back ∧
      ∀ byte, ¬ InBlock (cpu.regs .rsp) 16 byte → entered.memory byte = cpu.memory byte := by
  have set : (cpu.compare (cpu.regs .rax)).zero = true := by
    rw [MachineState.compare_zero, decide_eq_true_eq]
    exact zero
  simp only [cloneTail, cloneChild, runCode, exec, BitVec.and_self, set, if_true, BitVec.xor_self]
  simp only [MachineState.set, MachineState.poke, MachineState.peek, MachineState.compare, Function.update_self,
    Function.update_of_ne, ne_eq, reduceCtorEq, not_false_eq_true]
  refine ⟨_, rfl, ?_, ?_, ?_, ?_, ?_⟩
  · simp
  · simp
  · simp
  · simp [WordMemory.load_store]
  · -- The call pushes the return address where the argument was.
    intro byte outside
    refine (WordMemory.store_outside ?_).trans rfl
    simp only [InBlock] at outside ⊢
    bv_omega

/-- `exit` with what the function returned. -/
theorem run_exit (cpu : State) :
    ∃ final : State, run [.mov .rdi .rax, .movImm .rax nrExit, .syscall] cpu = .trapped final [] ∧
      final.regs .rax = nrExit ∧ final.regs .rdi = cpu.regs .rax ∧ final.memory = cpu.memory := by
  refine ⟨_, rfl, ?_, ?_, rfl⟩
  · rw [MachineState.set_regs, if_pos rfl]
  · rw [MachineState.set_regs, if_neg (by decide), MachineState.set_regs, if_pos rfl]

theorem childTop_aligned : (childTop operands caller).toNat % 16 = 0 := by
  have masked := toNat_mask (caller.regs operands.stack)
  simp only [childTop]
  generalize caller.regs operands.stack &&& BitVec.ofInt 64 (-16) = aligned at masked ⊢
  bv_omega

/-- The code behind the system call of one `clone`. -/
def spawnCode : SpawnCode abi exec where
  func := caller.regs operands.func
  arg := caller.regs operands.arg
  top := childTop operands caller
  tail := cloneTail back
  after := [.mov .rdi .rax, .movImm .rax nrExit, .syscall]
  Entered := Entered operands back caller
  passes := run_tail_parent back
  enters := by
    intro cpu zero pointer func arg
    obtain ⟨entered, runs, argument, outermost, stack, returns, memory⟩ := run_tail_child back cpu zero
    rw [show cpu.regs .rsp = childTop operands caller from pointer] at runs argument stack returns memory
    rw [func] at runs
    refine ⟨entered, runs, ⟨argument.trans arg, outermost, ?_, ?_⟩, memory⟩
    · have aligned := childTop_aligned operands caller
      rw [stack]
      bv_omega
    · rw [stack]
      exact returns
  exits := run_exit

/-- The registers that the assembly declares as changed, and the one it changes besides. -/
def changed : List Gpr := [.rax, .rsi, .rcx, .r11, operands.stack]

theorem prepared_regs {reg : Gpr} (kept : reg ∉ changed operands) :
    (prepared operands caller).regs reg = caller.regs reg := by
  simp only [changed, List.mem_cons, List.not_mem_nil, or_false, not_or] at kept
  obtain ⟨notRax, notRsi, -, -, notStack⟩ := kept
  simp only [prepared]
  rw [Function.update_of_ne notRax, Function.update_of_ne notRsi, Function.update_of_ne notStack]

/-- A call with the stack that `with_mmap_stack` maps at `0x700000`. -/
def sampleClone : State where
  regs
    | .r12 => 0x401000
    | .r13 => 0x700000 + BitVec.ofNat 64 (listerStackSize .x86_64 0)
    | .r14 => 42
    | .rax => einval
    | _ => 0
  memory _ := 0
  zero := false

def sampleOperands : Operands where
  func := .r12
  stack := .r13
  arg := .r14
  stack_func := by decide
  stack_arg := by decide
  stack_named := by decide

end X86

/-! ## aarch64 -/

namespace Aarch64

def abi : Abi Reg where
  number := .x 8
  result := .x 0
  argument := .x 0
  pointer := .sp
  childStack := .x 1
  scratch _ := false
  nrClone := nrClone
  nrExit := nrExit

variable (back : Word) (caller : State)

/-- The stack pointer that the child starts with. -/
def childTop : Word := caller.regs (.x 1) + BitVec.ofInt 64 (-16)

/-- The machine at the system call. -/
def prepared : State where
  regs := Function.update (Function.update caller.regs (.x 1) (childTop caller)) (.x 8) nrClone
  memory := (caller.memory.store (childTop caller) (caller.regs (.x 9))).store (childTop caller + 8) (caller.regs (.x 10))
  zero := caller.zero

/-- The calling convention at the first instruction of the function: its stack is the one
that was passed to `clone`. -/
structure Entered (cpu : State) : Prop where
  argument : cpu.regs (.x 0) = caller.regs (.x 10)
  stack : cpu.regs .sp = caller.regs (.x 1)
  returns : cpu.regs .lr = back

/-- Without a stack there is no system call. -/
theorem clone_null (null : caller.regs (.x 1) = 0) : clone back caller = .finished (caller.set (.x 0) einval) :=
  if_pos null

theorem run_clone (stack : caller.regs (.x 1) ≠ 0) :
    clone back caller = .trapped (prepared caller) (cloneTail back) := by
  rw [clone, if_neg stack]
  simp only [cloneAsm, List.cons_append, List.nil_append, runCode, exec]
  refine congrArg₂ Stop.trapped ?_ rfl
  apply MachineState.ext
  · ext reg
    simp only [MachineState.set_regs, pokePair_regs, prepared, childTop, Function.update_apply]
  · rw [MachineState.set_memory, MachineState.set_memory, pokePair_memory]
    simp only [prepared, childTop]
  · rw [MachineState.set_zero, MachineState.set_zero, pokePair_zero]
    simp only [prepared]

theorem childTop_restored : childTop caller + 16 = caller.regs (.x 1) := by
  rw [childTop, BitVec.add_assoc, show BitVec.ofInt 64 (-16) + (16 : Word) = 0 by decide]
  exact BitVec.add_zero _

theorem loaded_prepared : (prepared caller).memory.load (childTop caller) = caller.regs (.x 9) ∧
    (prepared caller).memory.load (childTop caller + 8) = caller.regs (.x 10) := by
  constructor
  · rw [prepared, WordMemory.load_store_of_separate (separate_words _).symm, WordMemory.load_store]
  · exact WordMemory.load_store _ _ _

/-- Off its two words the new stack and all other memory are as before. -/
theorem prepared_outside {byte : Word} (outside : ¬ InBlock (childTop caller) 16 byte) :
    (prepared caller).memory byte = caller.memory byte := by
  simp only [prepared]
  rw [WordMemory.store_outside, WordMemory.store_outside]
  · intro inside
    apply outside
    simp only [InBlock] at inside ⊢
    omega
  · intro inside
    apply outside
    simp only [InBlock] at inside ⊢
    bv_omega

/-- The parent goes on behind the code. -/
theorem run_tail_parent (cpu : State) (nonzero : cpu.regs (.x 0) ≠ 0) :
    ∃ final : State, run (cloneTail back) cpu = .finished final ∧ final.regs = cpu.regs ∧ final.memory = cpu.memory := by
  refine ⟨cpu, ?_, rfl, rfl⟩
  simp only [cloneTail, runCode, exec, if_neg nonzero]

/-- The child takes the function and its argument off its stack and calls it. -/
theorem run_tail_child (cpu : State) (zero : cpu.regs (.x 0) = 0) :
    ∃ entered : State, run (cloneTail back) cpu =
        .called (cpu.memory.load (cpu.regs .sp)) entered [.movImm (.x 8) nrExit, .svc] ∧
      entered.regs (.x 0) = cpu.memory.load (cpu.regs .sp + 8) ∧ entered.regs .sp = cpu.regs .sp + 16 ∧
      entered.regs .lr = back ∧ entered.memory = cpu.memory := by
  have target : Reg.x 1 ≠ Reg.x 0 := by decide
  have argument : Reg.x 0 ≠ Reg.lr := by decide
  have pointer : Reg.sp ≠ Reg.lr := by decide
  simp only [cloneTail, cloneChild, runCode, exec, if_pos zero]
  simp only [MachineState.set, MachineState.peek, Function.update_self, Function.update_of_ne target]
  refine ⟨_, rfl, ?_, ?_, ?_, rfl⟩
  · simp only [Function.update_of_ne argument, Function.update_self]
  · simp only [Function.update_of_ne pointer, Function.update_of_ne, ne_eq, reduceCtorEq, not_false_eq_true,
      Function.update_self]
  · simp only [Function.update_self]

/-- `exit` with what the function returned. -/
theorem run_exit (cpu : State) :
    ∃ final : State, run [.movImm (.x 8) nrExit, .svc] cpu = .trapped final [] ∧
      final.regs (.x 8) = nrExit ∧ final.regs (.x 0) = cpu.regs (.x 0) ∧ final.memory = cpu.memory := by
  refine ⟨_, rfl, ?_, ?_, rfl⟩
  · rw [MachineState.set_regs, if_pos rfl]
  · rw [MachineState.set_regs, if_neg (by decide)]

/-- The code behind the system call of one `clone`. -/
def spawnCode : SpawnCode abi exec where
  func := caller.regs (.x 9)
  arg := caller.regs (.x 10)
  top := childTop caller
  tail := cloneTail back
  after := [.movImm (.x 8) nrExit, .svc]
  Entered := Entered back caller
  passes := run_tail_parent back
  enters := by
    intro cpu zero pointer func arg
    obtain ⟨entered, runs, argument, stack, returns, memory⟩ := run_tail_child back cpu zero
    rw [show cpu.regs .sp = childTop caller from pointer] at runs argument stack
    rw [func] at runs
    refine ⟨entered, runs, ⟨argument.trans arg, stack.trans (childTop_restored caller), returns⟩, ?_⟩
    intro byte _
    rw [memory]
  exits := run_exit

/-- The registers that the assembly declares as changed. -/
def changed : List Reg := [.x 0, .x 1, .x 8]

theorem prepared_regs {reg : Reg} (kept : reg ∉ [Reg.x 1, .x 8]) : (prepared caller).regs reg = caller.regs reg := by
  simp only [List.mem_cons, List.not_mem_nil, or_false, not_or] at kept
  simp only [prepared]
  rw [Function.update_of_ne kept.2, Function.update_of_ne kept.1]

theorem prepared_stack : (prepared caller).regs (.x 1) = childTop caller := by
  simp only [prepared]
  rw [Function.update_of_ne (by decide), Function.update_self]

/-- The end of a stack that `with_mmap_stack` maps is aligned: mappings begin on a page,
and pages are multiples of 4096 bytes. -/
theorem mmapStack_aligned {base : Word} {callbackStack : Nat} (paged : 4096 ∣ base.toNat)
    (fits : base.toNat + listerStackSize .aarch64 callbackStack < 2 ^ 64) :
    (base + BitVec.ofNat 64 (listerStackSize .aarch64 callbackStack)).toNat % 16 = 0 := by
  obtain ⟨-, whole⟩ := listerStackSize_planned .aarch64 callbackStack
  have sum : (base + BitVec.ofNat 64 (listerStackSize .aarch64 callbackStack)).toNat =
      base.toNat + listerStackSize .aarch64 callbackStack := by
    rw [BitVec.toNat_add, BitVec.toNat_ofNat, Nat.mod_eq_of_lt (by omega : listerStackSize .aarch64 callbackStack < 2 ^ 64),
      Nat.mod_eq_of_lt fits]
  omega

/-- `clone` on a stack of `with_mmap_stack`, in every interleaving of its two tasks with
code that leaves that stack alone: the system call gets the caller's arguments and the new
stack, with nothing changed outside of it; the child calls the function with its argument
on an aligned stack, exits with what the function returned and never leaves the assembly;
the parent leaves it with the kernel's answer and the registers it came with; and on their
ways neither of them writes outside of the new stack. -/
theorem clone_keeps_faith {base : Word} {callbackStack : Nat} (paged : 4096 ∣ base.toNat)
    (fits : base.toNat + listerStackSize .aarch64 callbackStack < 2 ^ 64)
    (ends : caller.regs (.x 1) = base + BitVec.ofNat 64 (listerStackSize .aarch64 callbackStack))
    {state : Spawning Reg Instr}
    (reached : (Spawning.system abi exec base (listerStackSize .aarch64 callbackStack) (clone back caller)).Reachable
      state) :
    (spawnCode back caller).Faithful (prepared caller) state ∧
      (∀ target cpu rest, state.child = .stopped (.called target cpu rest) → (cpu.regs .sp).toNat % 16 = 0) ∧
      (∀ cpu rest, state.parent = .stopped (.trapped cpu rest) → cpu.regs (.x 8) = nrClone ∧
        cpu.regs (.x 1) = childTop caller ∧
        (∀ reg ∈ [Reg.x 0, .x 2, .x 3, .x 4], cpu.regs reg = caller.regs reg) ∧
        ∀ byte, ¬ InBlock base (listerStackSize .aarch64 callbackStack) byte → cpu.memory byte = caller.memory byte) ∧
      (∀ cpu, state.parent = .stopped (.finished cpu) →
        ∀ reg, reg ∉ changed → cpu.regs reg = caller.regs reg) ∧
      ∀ event next, Spawning.Step abi exec base (listerStackSize .aarch64 callbackStack) state event next →
        event = .parent ∨ event = .child → ∀ byte, ¬ InBlock base (listerStackSize .aarch64 callbackStack) byte →
          next.memory byte = state.memory byte := by
  obtain ⟨planned, -⟩ := listerStackSize_planned .aarch64 callbackStack
  have room : 16 ≤ listerStackSize .aarch64 callbackStack :=
    (show 16 ≤ listerStackSlack by decide).trans ((Nat.le_add_left ..).trans planned)
  have aligned := ends ▸ mmapStack_aligned paged fits
  generalize listerStackSize .aarch64 callbackStack = size at ends fits room reached ⊢
  have stack : caller.regs (.x 1) ≠ 0 := by
    rw [ends]
    intro null
    bv_omega
  have inside : ∀ byte, InBlock (childTop caller) 16 byte → InBlock base size byte := by
    intro byte inWords
    have restored := childTop_restored caller
    simp only [InBlock] at inWords ⊢
    generalize childTop caller = top at restored inWords
    bv_omega
  rw [run_clone back caller stack] at reached
  have child := prepared_stack caller
  have sound := @SpawnCode.Sound.reachable _ _ _ _ (spawnCode back caller) _ _ _ _ child inside
    (loaded_prepared caller) reached
  refine ⟨sound.faithful, ?_, ?_, ?_, ?_⟩
  · intro target cpu rest called
    obtain ⟨-, entered⟩ := sound.faithful.entered target cpu rest called
    rw [entered.stack]
    exact aligned
  · intro cpu rest trapped
    obtain ⟨rfl, -, -, -⟩ := sound.at_trap trapped
    refine ⟨?_, child, ?_, ?_⟩
    · simp only [prepared, Function.update_self]
    · intro reg named
      apply prepared_regs
      simp only [List.mem_cons, List.not_mem_nil, or_false] at named
      rcases named with rfl | rfl | rfl | rfl <;> decide
    · intro byte outside
      exact prepared_outside caller fun inWords => outside (inside byte inWords)
  · intro cpu finished reg kept
    obtain ⟨value, -, answers⟩ := sound.faithful.parent cpu finished
    simp only [changed, List.mem_cons, List.not_mem_nil, or_false, not_or] at kept
    rw [answers.2 reg kept.1 rfl, prepared_regs caller]
    simpa using kept.2
  · intro event next step own byte outside
    exact sound.untouched step own fun inWords => outside (inside byte inWords)

/-- A call with the stack that `with_mmap_stack` maps at `0x700000`. -/
def sampleClone : State where
  regs
    | .sp => 0x2000
    | .x index =>
        if index = 1 then 0x700000 + BitVec.ofNat 64 (listerStackSize .aarch64 0)
        else if index = 9 then 0x401000
        else if index = 10 then 42
        else 0
  memory _ := 0
  zero := false

theorem clone_keeps_faith_sample :
    ∃ state, (Spawning.system abi exec 0x700000 (listerStackSize .aarch64 0)
        (clone 0x402000 sampleClone)).Reachable state ∧
      ∃ cpu rest, state.child = .stopped (.called 0x401000 cpu rest) ∧ cpu.regs (.x 0) = 42 ∧
        (cpu.regs .sp).toNat % 16 = 0 := by
  have size : listerStackSize .aarch64 0 = 327680 := by decide
  have ends : sampleClone.regs (.x 1) = 0x700000 + BitVec.ofNat 64 (listerStackSize .aarch64 0) := by
    simp only [sampleClone, if_true]
  have stack : sampleClone.regs (.x 1) ≠ 0 := by
    rw [ends, size]
    decide
  obtain ⟨state, reached, cpu, rest, called⟩ :=
    @SpawnCode.reaches_function _ _ _ _ (spawnCode 0x402000 sampleClone) 0x700000 (listerStackSize .aarch64 0)
      (prepared sampleClone) _ (by simp only [prepared, abi, Function.update_self]) (prepared_stack sampleClone)
      (by decide) (loaded_prepared sampleClone)
  rw [show (spawnCode 0x402000 sampleClone).tail = cloneTail 0x402000 from rfl,
    ← run_clone 0x402000 sampleClone stack] at reached
  obtain ⟨faithful, aligned, -⟩ := clone_keeps_faith 0x402000 sampleClone (by decide) (by rw [size]; decide) ends reached
  obtain ⟨-, entered⟩ := faithful.entered _ cpu rest called
  exact ⟨state, reached, cpu, rest, called, entered.argument, aligned _ cpu rest called⟩

end Aarch64

end Corus.Trampoline
