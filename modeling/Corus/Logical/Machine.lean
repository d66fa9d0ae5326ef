import Corus.Logical.Transition
import Corus.Logical.WordMemory
import Mathlib.Logic.Function.Basic

/-!
# Straight-line machine code

Registers, memory and one condition flag, over any instruction set whose
instructions say by an `Effect` how control goes on. Code runs by itself up to
the next point where something else has to act: the kernel, a called function,
or the code it returns to.
-/

namespace Corus.Logical

/-- What an instruction reads and writes. -/
@[ext]
structure MachineState (Reg : Type) where
  regs : Reg → Word
  memory : WordMemory
  zero : Bool

/-- How control goes on after an instruction. -/
inductive Effect (Reg : Type) where
  /-- With the next instruction. -/
  | next (state : MachineState Reg)
  /-- At the label behind the last instruction. -/
  | leave (state : MachineState Reg)
  /-- In the function at an address, which is to return to the next instruction. -/
  | call (target : Word) (state : MachineState Reg)
  /-- In the caller. -/
  | ret (target : Word) (state : MachineState Reg)
  /-- In the kernel. -/
  | trap (state : MachineState Reg)

/-- Where code stops running by itself, with the instructions that are left. -/
inductive Stop (Reg Instr : Type) where
  | finished (state : MachineState Reg)
  | called (target : Word) (state : MachineState Reg) (rest : List Instr)
  | returned (target : Word) (state : MachineState Reg)
  | trapped (state : MachineState Reg) (rest : List Instr)

namespace MachineState

variable {Reg : Type} (state : MachineState Reg) (address value : Word)

def poke : MachineState Reg := { state with memory := state.memory.store address value }

def peek : Word := state.memory.load address

/-- Record whether a result was zero. -/
def compare : MachineState Reg := { state with zero := value = 0 }

@[simp] theorem poke_regs : (state.poke address value).regs = state.regs := rfl
@[simp] theorem poke_memory : (state.poke address value).memory = state.memory.store address value := rfl
@[simp] theorem poke_zero : (state.poke address value).zero = state.zero := rfl
@[simp] theorem compare_regs : (state.compare value).regs = state.regs := rfl
@[simp] theorem compare_memory : (state.compare value).memory = state.memory := rfl
@[simp] theorem compare_zero : (state.compare value).zero = decide (value = 0) := rfl

variable [DecidableEq Reg] (reg other : Reg)

def set (state : MachineState Reg) (reg : Reg) (value : Word) : MachineState Reg :=
  { state with regs := Function.update state.regs reg value }

theorem set_regs : (state.set reg value).regs other = if other = reg then value else state.regs other :=
  Function.update_apply _ _ _ _

@[simp] theorem set_memory : (state.set reg value).memory = state.memory := rfl
@[simp] theorem set_zero : (state.set reg value).zero = state.zero := rfl

end MachineState

variable {Reg Instr : Type}

/-- Run code up to its next stop. -/
def runCode (exec : Instr → MachineState Reg → Effect Reg) : List Instr → MachineState Reg → Stop Reg Instr
  | [], state => .finished state
  | instr :: rest, state =>
      match exec instr state with
      | .next state => runCode exec rest state
      | .leave state => .finished state
      | .call target state => .called target state rest
      | .ret target state => .returned target state
      | .trap state => .trapped state rest

/-- What instructions do when each of them passes control on. -/
def straight (exec : Instr → MachineState Reg → Effect Reg) :
    List Instr → MachineState Reg → Option (MachineState Reg)
  | [], state => some state
  | instr :: rest, state =>
      match exec instr state with
      | .next state => straight exec rest state
      | _ => none

variable {exec : Instr → MachineState Reg → Effect Reg} {instr : Instr} {instrs rest : List Instr}
  {state following final : MachineState Reg}

theorem straight_cons (passes : exec instr state = .next following) :
    straight exec (instr :: rest) state = straight exec rest following := by
  rw [straight, passes]

theorem runCode_cons (passes : exec instr state = .next following) :
    runCode exec (instr :: rest) state = runCode exec rest following := by
  rw [runCode, passes]

/-- Code that passes control on is run before the code behind it. -/
theorem runCode_append (passes : straight exec instrs state = some final) :
    runCode exec (instrs ++ rest) state = runCode exec rest final := by
  induction instrs generalizing state with
  | nil =>
      cases passes
      rfl
  | cons instr instrs ih =>
      rw [straight] at passes
      split at passes
      · rename_i following effect
        rw [List.cons_append, runCode_cons effect]
        exact ih passes
      · cases passes

/-- Instructions that only store registers into slots of one array do so in order. -/
theorem straight_stores {Item : Type} {code : Item → Instr} {slots : Item → List (Nat × Reg)} {base : Reg}
    (effect : ∀ item state, exec (code item) state = .next { state with
      memory := state.memory.storeSlots (state.regs base) ((slots item).map fun slot => (slot.1, state.regs slot.2)) })
    (items : List Item) (state : MachineState Reg) :
    straight exec (items.map code) state = some { state with
      memory := state.memory.storeSlots (state.regs base)
        ((items.flatMap slots).map fun slot => (slot.1, state.regs slot.2)) } := by
  induction items generalizing state with
  | nil => rfl
  | cons item rest ih =>
      rw [List.map_cons, straight_cons (effect item state), ih, List.flatMap_cons, List.map_append,
        WordMemory.storeSlots_append]

end Corus.Logical
