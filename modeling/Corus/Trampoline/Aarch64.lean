import Corus.Logical.Machine

/-!
# The aarch64 trampolines

The instructions that `capture_frame` and `clone` are written in on aarch64, and
the two functions instruction by instruction.
-/

namespace Corus.Trampoline.Aarch64

open Corus.Logical

/-- The register file is not empty, so that registers have numerals. -/
instance neZeroRegisters : NeZero 31 := ⟨by decide⟩

/-- The registers `x0` to `x30` and the stack pointer. -/
inductive Reg where
  | x (index : Fin 31)
  | sp
deriving DecidableEq, Repr

/-- The link register. -/
def Reg.lr : Reg := .x 30

/-- The instructions used, with the operand order of the source. -/
inductive Instr where
  /-- `stp first, second, [base, #offset]` -/
  | stp (first second base : Reg) (offset : Word)
  /-- `stp first, second, [base, #offset]!` -/
  | stpPre (first second base : Reg) (offset : Word)
  /-- `str src, [base, #offset]` -/
  | str (src base : Reg) (offset : Word)
  /-- `ldp first, second, [base], #offset` -/
  | ldpPost (first second base : Reg) (offset : Word)
  /-- `mov dst, src` -/
  | mov (dst src : Reg)
  /-- `mov dst, imm` -/
  | movImm (dst : Reg) (imm : Word)
  | svc
  /-- `cbnz reg, 2f` -/
  | cbnz (reg : Reg)
  /-- `blr target`, followed by the instruction at `back` -/
  | blr (target : Reg) (back : Word)
  | ret
deriving DecidableEq, Repr

abbrev State := MachineState Reg

/-- Store a pair of words. -/
def pokePair (state : State) (address first second : Word) : State :=
  (state.poke address first).poke (address + 8) second

@[simp] theorem pokePair_regs (state : State) (address first second : Word) :
    (pokePair state address first second).regs = state.regs := by
  rw [pokePair, MachineState.poke_regs, MachineState.poke_regs]

@[simp] theorem pokePair_zero (state : State) (address first second : Word) :
    (pokePair state address first second).zero = state.zero := by
  rw [pokePair, MachineState.poke_zero, MachineState.poke_zero]

theorem pokePair_memory (state : State) (address first second : Word) :
    (pokePair state address first second).memory = (state.memory.store address first).store (address + 8) second := by
  rw [pokePair, MachineState.poke_memory, MachineState.poke_memory]

/-- One instruction. -/
def exec : Instr → State → Effect Reg
  | .stp first second base offset, state =>
      .next (pokePair state (state.regs base + offset) (state.regs first) (state.regs second))
  | .stpPre first second base offset, state =>
      let address := state.regs base + offset
      .next ((pokePair state address (state.regs first) (state.regs second)).set base address)
  | .str src base offset, state => .next (state.poke (state.regs base + offset) (state.regs src))
  | .ldpPost first second base offset, state =>
      let address := state.regs base
      .next (((state.set base (address + offset)).set first (state.peek address)).set second (state.peek (address + 8)))
  | .mov dst src, state => .next (state.set dst (state.regs src))
  | .movImm dst imm, state => .next (state.set dst imm)
  | .svc, state => .trap state
  | .cbnz reg, state => if state.regs reg = 0 then .next state else .leave state
  | .blr target back, state => .call (state.regs target) (state.set .lr back)
  | .ret, state => .ret (state.regs .lr) state

abbrev run (code : List Instr) (state : State) : Stop Reg Instr := runCode exec code state

/-- `capture_frame`. -/
def captureFrame : List Instr :=
  [.stp (.x 0) (.x 1) (.x 0) 0, .stp (.x 2) (.x 3) (.x 0) 16, .stp (.x 4) (.x 5) (.x 0) 32,
    .stp (.x 6) (.x 7) (.x 0) 48, .stp (.x 8) (.x 9) (.x 0) 64, .stp (.x 10) (.x 11) (.x 0) 80,
    .stp (.x 12) (.x 13) (.x 0) 96, .stp (.x 14) (.x 15) (.x 0) 112, .stp (.x 16) (.x 17) (.x 0) 128,
    .stp (.x 18) (.x 19) (.x 0) 144, .stp (.x 20) (.x 21) (.x 0) 160, .stp (.x 22) (.x 23) (.x 0) 176,
    .stp (.x 24) (.x 25) (.x 0) 192, .stp (.x 26) (.x 27) (.x 0) 208, .stp (.x 28) (.x 29) (.x 0) 224,
    .str (.x 30) (.x 0) 240, .mov (.x 9) .sp, .str (.x 9) (.x 0) 248, .str (.x 30) (.x 0) 256, .ret]

def nrClone : Word := 220
def nrExit : Word := 93

/-- `-(EINVAL as isize) as usize`. -/
def einval : Word := BitVec.ofInt 64 (-22)

/-- The part of `clone` that only the child runs. -/
def cloneChild (back : Word) : List Instr :=
  [.ldpPost (.x 1) (.x 0) .sp 16, .blr (.x 1) back, .movImm (.x 8) nrExit, .svc]

/-- `clone` behind its first system call. -/
def cloneTail (back : Word) : List Instr := .cbnz (.x 0) :: cloneChild back

/-- The assembly of `clone`. -/
def cloneAsm (back : Word) : List Instr :=
  [.stpPre (.x 9) (.x 10) (.x 1) (BitVec.ofInt 64 (-16)), .movImm (.x 8) nrClone, .svc] ++ cloneTail back

/-- `clone`: the stack in `x1` is checked before the assembly is entered. -/
def clone (back : Word) (state : State) : Stop Reg Instr :=
  if state.regs (.x 1) = 0 then .finished (state.set (.x 0) einval) else run (cloneAsm back) state

/-! ## The captured frame -/

/-- `stp x(2n), x(2n+1), [x0, #16n]`. -/
def savePair (pair : Fin 15) : Instr :=
  .stp (.x ⟨2 * pair, by omega⟩) (.x ⟨2 * pair + 1, by omega⟩) (.x 0) (BitVec.ofNat 64 (8 * (2 * pair)))

/-- The slots of a pair. -/
def pairSlots (pair : Fin 15) : List (Nat × Reg) :=
  [(2 * pair, .x ⟨2 * pair, by omega⟩), (2 * pair + 1, .x ⟨2 * pair + 1, by omega⟩)]

/-- Everything `capture_frame` stores: register by register, then `sp` in slot 31 and
the return address in slot 32. -/
def frameSlots (state : State) : List (Nat × Word) :=
  (((List.finRange 15).flatMap pairSlots).map fun slot => (slot.1, state.regs slot.2)) ++
    [(30, state.regs .lr), (31, state.regs .sp), (32, state.regs .lr)]

/-- The machine when `capture_frame` has returned. -/
def afterCapture (state : State) : State :=
  let recorded : State := { state with memory := state.memory.storeSlots (state.regs (.x 0)) (frameSlots state) }
  recorded.set (.x 9) (state.regs .sp)

theorem exec_savePair (pair : Fin 15) (state : State) : exec (savePair pair) state = .next { state with
    memory := state.memory.storeSlots (state.regs (.x 0)) ((pairSlots pair).map fun slot => (slot.1, state.regs slot.2)) } := by
  have second : state.regs (.x 0) + BitVec.ofNat 64 (8 * (2 * pair)) + 8 =
      state.regs (.x 0) + BitVec.ofNat 64 (8 * (2 * pair + 1)) := by
    rw [BitVec.add_assoc, show (8 : Word) = BitVec.ofNat 64 8 from rfl, ← BitVec.ofNat_add]
    rfl
  simp only [savePair, exec, pokePair, second]
  rfl

/-- The leading stores. -/
theorem straight_savePairs (state : State) :
    straight exec ((List.finRange 15).map savePair) state = some { state with
      memory := state.memory.storeSlots (state.regs (.x 0))
        (((List.finRange 15).flatMap pairSlots).map fun slot => (slot.1, state.regs slot.2)) } :=
  straight_stores exec_savePair _ state

/-- `capture_frame`, whatever its buffer is. -/
theorem run_captureFrame (state : State) :
    run captureFrame state = .returned (state.regs .lr) (afterCapture state) := by
  have recorded : (((state.memory.storeSlots (state.regs (.x 0))
      (((List.finRange 15).flatMap pairSlots).map fun slot => (slot.1, state.regs slot.2))).store
        (state.regs (.x 0) + 240) (state.regs .lr)).store (state.regs (.x 0) + 248) (state.regs .sp)).store
        (state.regs (.x 0) + 256) (state.regs .lr) =
      state.memory.storeSlots (state.regs (.x 0)) (frameSlots state) := by
    rw [frameSlots, WordMemory.storeSlots_append]
    rfl
  have split : captureFrame = (List.finRange 15).map savePair ++ captureFrame.drop 15 := by decide
  have base : Reg.x 0 ≠ Reg.x 9 := by decide
  have link : Reg.x 30 ≠ Reg.x 9 := by decide
  rw [run, split, runCode_append (straight_savePairs state)]
  simp only [captureFrame, List.drop, runCode, exec, MachineState.set, MachineState.poke, Reg.lr,
    Function.update_self, Function.update_of_ne base, Function.update_of_ne link] at recorded ⊢
  rw [recorded]
  rfl

end Corus.Trampoline.Aarch64
