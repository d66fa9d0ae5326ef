import Corus.Logical.Machine

/-!
# Two tasks out of one system call

Behind its system call `clone` is run by two tasks that share their memory. Each of
them runs by itself up to its next stop; then the kernel or the called function goes
on, and in between any other code of the process may run that leaves the stack of the
child alone. What holds for all interleavings follows from what the code does between
two stops.
-/

namespace Corus.Trampoline

open Corus.Logical

/-- The registers and numbers by which functions and the kernel are called. -/
structure Abi (Reg : Type) where
  /-- The number of a system call. -/
  number : Reg
  /-- What a function and the kernel return. -/
  result : Reg
  /-- The first argument of a function, and the status of `exit`. -/
  argument : Reg
  pointer : Reg
  /-- The stack that `clone` gives to the child. -/
  childStack : Reg
  /-- Registers that a system call may change besides the result. -/
  scratch : Reg → Bool
  nrClone : Word
  nrExit : Word

/-- The registers after a system call that returned a value. -/
def Abi.Answers {Reg : Type} (abi : Abi Reg) (before : Reg → Word) (value : Word) (after : Reg → Word) : Prop :=
  after abi.result = value ∧ ∀ reg, reg ≠ abi.result → abi.scratch reg = false → after reg = before reg

/-- The registers that a new task starts with. -/
def Abi.Spawns {Reg : Type} (abi : Abi Reg) (before after : Reg → Word) : Prop :=
  after abi.result = 0 ∧ after abi.pointer = before abi.childStack

/-- What a task is doing. -/
inductive Control (Reg Instr : Type) where
  | absent
  /-- About to run code; the memory is the one all tasks share. -/
  | ready (code : List Instr) (cpu : MachineState Reg)
  | stopped (stop : Stop Reg Instr)
  | ended

/-- The memory a run leaves. -/
def stopMemory {Reg Instr : Type} : Stop Reg Instr → WordMemory
  | .finished state => state.memory
  | .called _ state _ => state.memory
  | .returned _ state => state.memory
  | .trapped state _ => state.memory

/-- A call of `clone`: the two tasks, what the kernel answered to the parent, and what
the function of the child returned. -/
structure Spawning (Reg Instr : Type) where
  memory : WordMemory
  parent : Control Reg Instr
  child : Control Reg Instr
  answer : Option Word
  result : Option Word

inductive SpawnEvent where
  | parent
  | child
  | clone
  | refuse
  | function
  | exit
  | others

namespace Spawning

variable {Reg Instr : Type}

/-- A step of one task, of the kernel, of the called function or of other code. -/
inductive Step (abi : Abi Reg) (exec : Instr → MachineState Reg → Effect Reg) (base : Word) (size : Nat) :
    Spawning Reg Instr → SpawnEvent → Spawning Reg Instr → Prop where
  | parent {state code cpu} (ready : state.parent = .ready code cpu) :
      Step abi exec base size state .parent
        { state with
          memory := stopMemory (runCode exec code { cpu with memory := state.memory })
          parent := .stopped (runCode exec code { cpu with memory := state.memory }) }
  | child {state code cpu} (ready : state.child = .ready code cpu) :
      Step abi exec base size state .child
        { state with
          memory := stopMemory (runCode exec code { cpu with memory := state.memory })
          child := .stopped (runCode exec code { cpu with memory := state.memory }) }
  | clone {state cpu rest} {tid : Word} {kept spawned : MachineState Reg}
      (trapped : state.parent = .stopped (.trapped cpu rest)) (number : cpu.regs abi.number = abi.nrClone)
      (task : tid ≠ 0) (answers : abi.Answers cpu.regs tid kept.regs) (spawns : abi.Spawns cpu.regs spawned.regs) :
      Step abi exec base size state .clone
        { state with parent := .ready rest kept, child := .ready rest spawned, answer := some tid }
  | refuse {state cpu rest} {errno : Word} {kept : MachineState Reg}
      (trapped : state.parent = .stopped (.trapped cpu rest)) (number : cpu.regs abi.number = abi.nrClone)
      (failed : errno ≠ 0) (answers : abi.Answers cpu.regs errno kept.regs) :
      Step abi exec base size state .refuse { state with parent := .ready rest kept, answer := some errno }
  | function {state target cpu rest} {after : MachineState Reg}
      (called : state.child = .stopped (.called target cpu rest)) :
      Step abi exec base size state .function
        { state with memory := after.memory, child := .ready rest after, result := some (after.regs abi.result) }
  | exit {state cpu rest} (trapped : state.child = .stopped (.trapped cpu rest))
      (number : cpu.regs abi.number = abi.nrExit) :
      Step abi exec base size state .exit { state with child := .ended }
  | others {state memory} (spared : ∀ byte, InBlock base size byte → memory byte = state.memory byte) :
      Step abi exec base size state .others { state with memory := memory }

/-- The call has run its code up to the first stop. -/
def start (stop : Stop Reg Instr) : Spawning Reg Instr := ⟨stopMemory stop, .stopped stop, .absent, none, none⟩

/-- All interleavings of a call, while other code spares a range of memory. -/
def system (abi : Abi Reg) (exec : Instr → MachineState Reg → Effect Reg) (base : Word) (size : Nat)
    (stop : Stop Reg Instr) : TransitionSystem (Spawning Reg Instr) SpawnEvent where
  Initial state := state = start stop
  Step := Step abi exec base size

end Spawning

/-- Code behind the system call: where the child finds its function, and what the code
does between two stops. -/
structure SpawnCode {Reg Instr : Type} (abi : Abi Reg) (exec : Instr → MachineState Reg → Effect Reg) where
  func : Word
  arg : Word
  /-- The stack of the child, with the function and its argument on it. -/
  top : Word
  tail : List Instr
  after : List Instr
  /-- How the function is to be entered. -/
  Entered : MachineState Reg → Prop
  passes : ∀ cpu, cpu.regs abi.result ≠ 0 →
    ∃ final, runCode exec tail cpu = .finished final ∧ final.regs = cpu.regs ∧ final.memory = cpu.memory
  enters : ∀ cpu, cpu.regs abi.result = 0 → cpu.regs abi.pointer = top → cpu.memory.load top = func →
    cpu.memory.load (top + 8) = arg → ∃ entered, runCode exec tail cpu = .called func entered after ∧ Entered entered ∧
      ∀ byte, ¬ InBlock top 16 byte → entered.memory byte = cpu.memory byte
  exits : ∀ cpu, ∃ final, runCode exec after cpu = .trapped final [] ∧ final.regs abi.number = abi.nrExit ∧
    final.regs abi.argument = cpu.regs abi.result ∧ final.memory = cpu.memory

namespace SpawnCode

variable {Reg Instr : Type} {abi : Abi Reg} {exec : Instr → MachineState Reg → Effect Reg}
  (code : SpawnCode abi exec)

/-- The words that the child takes off its stack are there. -/
def Loaded (memory : WordMemory) : Prop := memory.load code.top = code.func ∧ memory.load (code.top + 8) = code.arg

/-- What the parent does, for the registers at its system call. -/
inductive ParentAt (prepared : MachineState Reg) : Spawning Reg Instr → Prop where
  | trapped {state : Spawning Reg Instr} (parent : state.parent = .stopped (.trapped prepared code.tail))
      (child : state.child = .absent)
      (loaded : code.Loaded state.memory) : ParentAt prepared state
  | ready {state : Spawning Reg Instr} {cpu : MachineState Reg} {value : Word}
      (parent : state.parent = .ready code.tail cpu)
      (answer : state.answer = some value) (real : value ≠ 0) (answers : abi.Answers prepared.regs value cpu.regs) :
      ParentAt prepared state
  | finished {state : Spawning Reg Instr} {cpu : MachineState Reg} {value : Word}
      (parent : state.parent = .stopped (.finished cpu))
      (answer : state.answer = some value) (answers : abi.Answers prepared.regs value cpu.regs) :
      ParentAt prepared state

/-- What the child does. -/
inductive ChildAt : Spawning Reg Instr → Prop where
  | absent {state : Spawning Reg Instr} (child : state.child = .absent) : ChildAt state
  | ready {state : Spawning Reg Instr} {cpu : MachineState Reg} (child : state.child = .ready code.tail cpu)
      (result : cpu.regs abi.result = 0) (pointer : cpu.regs abi.pointer = code.top)
      (loaded : code.Loaded state.memory) : ChildAt state
  | called {state : Spawning Reg Instr} {cpu : MachineState Reg}
      (child : state.child = .stopped (.called code.func cpu code.after))
      (entered : code.Entered cpu) : ChildAt state
  | back {state : Spawning Reg Instr} {cpu : MachineState Reg} (child : state.child = .ready code.after cpu)
      (result : state.result = some (cpu.regs abi.result)) : ChildAt state
  | trapped {state : Spawning Reg Instr} {cpu : MachineState Reg} (child : state.child = .stopped (.trapped cpu []))
      (number : cpu.regs abi.number = abi.nrExit) (result : state.result = some (cpu.regs abi.argument)) : ChildAt state
  | ended {state : Spawning Reg Instr} (child : state.child = .ended) : ChildAt state

/-- The parent and the child of a call, at any point of an interleaving. -/
structure Sound (prepared : MachineState Reg) (state : Spawning Reg Instr) : Prop where
  parent : code.ParentAt prepared state
  child : code.ChildAt state

variable {code} {base : Word} {size : Nat} {prepared : MachineState Reg} {state : Spawning Reg Instr}

/-- Other code that spares the stack of the child leaves its words. -/
theorem Loaded.spared {memory other : WordMemory} (loaded : code.Loaded memory)
    (inside : ∀ byte, InBlock code.top 16 byte → InBlock base size byte)
    (spared : ∀ byte, InBlock base size byte → other byte = memory byte) : code.Loaded other := by
  have low : ∀ byte, InBlock code.top 8 byte → other byte = memory byte := by
    intro byte inWord
    exact spared byte (inside byte (Nat.lt_of_lt_of_le inWord (by decide)))
  have high : ∀ byte, InBlock (code.top + 8) 8 byte → other byte = memory byte := by
    intro byte inWord
    refine spared byte (inside byte ?_)
    simp only [InBlock] at inWord ⊢
    bv_omega
  exact ⟨(WordMemory.load_congr low).trans loaded.1, (WordMemory.load_congr high).trans loaded.2⟩

variable {next : Spawning Reg Instr} {event : SpawnEvent}

/-- Where the child is depends on its own part of the state and on its words. -/
theorem ChildAt.transport (place : code.ChildAt state) (child : next.child = state.child)
    (result : next.result = state.result) (loaded : code.Loaded state.memory → code.Loaded next.memory) :
    code.ChildAt next := by
  cases place with
  | absent isAbsent => exact .absent (child.trans isAbsent)
  | ready isReady zero pointer words => exact .ready (child.trans isReady) zero pointer (loaded words)
  | called isCalled entered => exact .called (child.trans isCalled) entered
  | back isBack left => exact .back (child.trans isBack) (result.trans left)
  | trapped isTrapped number left => exact .trapped (child.trans isTrapped) number (result.trans left)
  | ended isEnded => exact .ended (child.trans isEnded)

/-- Where the parent is depends on its own part of the state and, before the child
exists, on the child's words. -/
theorem ParentAt.transport (place : code.ParentAt prepared state) (parent : next.parent = state.parent)
    (answer : next.answer = state.answer) (absent : state.child = .absent → next.child = .absent)
    (loaded : state.child = .absent → code.Loaded state.memory → code.Loaded next.memory) :
    code.ParentAt prepared next := by
  cases place with
  | trapped isTrapped isAbsent words =>
      exact .trapped (parent.trans isTrapped) (absent isAbsent) (loaded isAbsent words)
  | ready isReady answered real answers => exact .ready (parent.trans isReady) (answer.trans answered) real answers
  | finished isFinished answered answers => exact .finished (parent.trans isFinished) (answer.trans answered) answers

/-- A run of the parent behind its system call. -/
theorem Sound.parent_runs {rest : List Instr} {cpu : MachineState Reg} (sound : code.Sound prepared state)
    (ready : state.parent = .ready rest cpu) :
    code.Sound prepared { state with
      memory := stopMemory (runCode exec rest { cpu with memory := state.memory })
      parent := .stopped (runCode exec rest { cpu with memory := state.memory }) } := by
  cases sound.parent with
  | trapped isTrapped _ _ =>
      rw [ready] at isTrapped
      cases isTrapped
  | finished isFinished _ _ =>
      rw [ready] at isFinished
      cases isFinished
  | ready isReady answered real answers =>
      rw [ready] at isReady
      cases isReady
      have nonzero : ({ cpu with memory := state.memory } : MachineState Reg).regs abi.result ≠ 0 := by
        rw [show ({ cpu with memory := state.memory } : MachineState Reg).regs = cpu.regs from rfl, answers.1]
        exact real
      obtain ⟨final, runs, regs, memory⟩ := code.passes _ nonzero
      rw [runs]
      constructor
      · refine .finished rfl answered ?_
        rw [regs]
        exact answers
      · refine sound.child.transport rfl rfl ?_
        intro words
        simpa only [stopMemory, memory] using words

/-- A run of the child: into its function, or from there to its end. -/
theorem Sound.child_runs {rest : List Instr} {cpu : MachineState Reg} (sound : code.Sound prepared state)
    (ready : state.child = .ready rest cpu) :
    code.Sound prepared { state with
      memory := stopMemory (runCode exec rest { cpu with memory := state.memory })
      child := .stopped (runCode exec rest { cpu with memory := state.memory }) } := by
  have present : state.child ≠ .absent := by
    rw [ready]
    intro same
    cases same
  constructor
  · exact sound.parent.transport rfl rfl (fun absent => absurd absent present) (fun absent => absurd absent present)
  · cases sound.child with
    | absent isAbsent => exact absurd isAbsent present
    | ready isReady zero pointer words =>
        rw [ready] at isReady
        cases isReady
        obtain ⟨entered, runs, holds, -⟩ := code.enters { cpu with memory := state.memory } zero pointer words.1 words.2
        rw [runs]
        exact .called rfl holds
    | called isCalled _ =>
        rw [ready] at isCalled
        cases isCalled
    | back isBack left =>
        rw [ready] at isBack
        cases isBack
        obtain ⟨final, runs, number, argument, -⟩ := code.exits { cpu with memory := state.memory }
        rw [runs]
        refine .trapped rfl number ?_
        rw [argument]
        exact left
    | trapped isTrapped _ _ =>
        rw [ready] at isTrapped
        cases isTrapped
    | ended isEnded =>
        rw [ready] at isEnded
        cases isEnded

/-- At its system call the parent is where the code stopped. -/
theorem Sound.at_trap {cpu : MachineState Reg} {rest : List Instr} (sound : code.Sound prepared state)
    (trapped : state.parent = .stopped (.trapped cpu rest)) :
    cpu = prepared ∧ rest = code.tail ∧ state.child = .absent ∧ code.Loaded state.memory := by
  cases sound.parent with
  | trapped isTrapped isAbsent words =>
      rw [trapped] at isTrapped
      cases isTrapped
      exact ⟨rfl, rfl, isAbsent, words⟩
  | ready isReady _ _ _ =>
      rw [trapped] at isReady
      cases isReady
  | finished isFinished _ _ =>
      rw [trapped] at isFinished
      cases isFinished

/-- Every step keeps the two tasks where the code can take them. -/
theorem Sound.step (top : prepared.regs abi.childStack = code.top)
    (inside : ∀ byte, InBlock code.top 16 byte → InBlock base size byte) (sound : code.Sound prepared state)
    (step : Spawning.Step abi exec base size state event next) : code.Sound prepared next := by
  cases step with
  | parent ready => exact sound.parent_runs ready
  | child ready => exact sound.child_runs ready
  | clone trapped number task answers spawns =>
      obtain ⟨rfl, rfl, _, words⟩ := sound.at_trap trapped
      constructor
      · exact .ready rfl rfl task answers
      · exact .ready rfl spawns.1 (spawns.2.trans top) words
  | refuse trapped number failed answers =>
      obtain ⟨rfl, rfl, absent, _⟩ := sound.at_trap trapped
      constructor
      · exact .ready rfl rfl failed answers
      · exact .absent absent
  | function called =>
      have present : state.child ≠ .absent := by
        rw [called]
        intro same
        cases same
      constructor
      · exact sound.parent.transport rfl rfl (fun absent => absurd absent present) (fun absent => absurd absent present)
      · cases sound.child with
        | called isCalled _ =>
            rw [called] at isCalled
            cases isCalled
            exact .back rfl rfl
        | absent isAbsent => exact absurd isAbsent present
        | ready isReady _ _ _ =>
            rw [called] at isReady
            cases isReady
        | back isBack _ =>
            rw [called] at isBack
            cases isBack
        | trapped isTrapped _ _ =>
            rw [called] at isTrapped
            cases isTrapped
        | ended isEnded =>
            rw [called] at isEnded
            cases isEnded
  | exit trapped number =>
      have present : state.child ≠ .absent := by
        rw [trapped]
        intro same
        cases same
      constructor
      · exact sound.parent.transport rfl rfl (fun absent => absurd absent present) (fun absent => absurd absent present)
      · exact .ended rfl
  | others spared =>
      constructor
      · exact sound.parent.transport rfl rfl id fun _ words => words.spared inside spared
      · exact sound.child.transport rfl rfl fun words => words.spared inside spared

/-- So they are in every interleaving. -/
theorem Sound.reachable (top : prepared.regs abi.childStack = code.top)
    (inside : ∀ byte, InBlock code.top 16 byte → InBlock base size byte) (words : code.Loaded prepared.memory)
    (reached : (Spawning.system abi exec base size (.trapped prepared code.tail)).Reachable state) :
    code.Sound prepared state := by
  refine reached.invariant ?_ ?_
  · rintro _ rfl
    exact ⟨.trapped rfl rfl words, .absent rfl⟩
  · intro current event following _ sound step
    exact sound.step top inside step

/-- Behind the system call the code writes nothing but words of the child's stack, neither
on the way of the parent to its return nor on that of the child to its function and its
end. -/
theorem Sound.untouched (sound : code.Sound prepared state) (step : Spawning.Step abi exec base size state event next)
    (own : event = .parent ∨ event = .child) {byte : Word} (outside : ¬ InBlock code.top 16 byte) :
    next.memory byte = state.memory byte := by
  cases step with
  | @parent rest cpu ready =>
      cases sound.parent with
      | ready isReady _ real answers =>
          rw [ready] at isReady
          cases isReady
          have nonzero : cpu.regs abi.result ≠ 0 := by
            rw [answers.1]
            exact real
          obtain ⟨final, runs, -, memory⟩ := code.passes { cpu with memory := state.memory } nonzero
          simp only [runs, stopMemory, memory]
      | trapped place _ _ | finished place _ _ =>
          rw [ready] at place
          cases place
  | @child rest cpu ready =>
      cases sound.child with
      | ready isReady zero pointer words =>
          rw [ready] at isReady
          cases isReady
          obtain ⟨entered, runs, -, memory⟩ := code.enters { cpu with memory := state.memory } zero pointer words.1 words.2
          simp only [runs, stopMemory, memory byte outside]
      | back isBack _ =>
          rw [ready] at isBack
          cases isBack
          obtain ⟨final, runs, -, -, memory⟩ := code.exits { cpu with memory := state.memory }
          simp only [runs, stopMemory, memory]
      | absent place | called place _ | trapped place _ _ | ended place =>
          rw [ready] at place
          cases place
  | clone | refuse | function | exit | others => simp at own

/-- What a call of `clone` owes its caller, at any point of an interleaving: the child
enters the function as it should, ends with what the function returned and never leaves
the code, and the parent comes out of it with the kernel's answer. -/
structure Faithful (code : SpawnCode abi exec) (prepared : MachineState Reg) (state : Spawning Reg Instr) : Prop where
  entered : ∀ target cpu rest, state.child = .stopped (.called target cpu rest) →
    target = code.func ∧ code.Entered cpu
  exits : ∀ cpu rest, state.child = .stopped (.trapped cpu rest) →
    cpu.regs abi.number = abi.nrExit ∧ state.result = some (cpu.regs abi.argument)
  confined : (∀ cpu, state.child ≠ .stopped (.finished cpu)) ∧
    ∀ target cpu, state.child ≠ .stopped (.returned target cpu)
  parent : ∀ cpu, state.parent = .stopped (.finished cpu) →
    ∃ value, state.answer = some value ∧ abi.Answers prepared.regs value cpu.regs

theorem Sound.faithful (sound : code.Sound prepared state) : code.Faithful prepared state := by
  refine ⟨?_, ?_, ⟨?_, ?_⟩, ?_⟩
  · intro target cpu rest called
    cases sound.child <;> simp_all
  · intro cpu rest trapped
    cases sound.child <;> simp_all
  · intro cpu finished
    cases sound.child <;> simp_all
  · intro target cpu returned
    cases sound.child <;> simp_all
  · intro cpu finished
    cases sound.parent <;> simp_all

/-- The child of a call that the kernel accepts can get to its function. -/
theorem reaches_function [DecidableEq Reg] (number : prepared.regs abi.number = abi.nrClone)
    (top : prepared.regs abi.childStack = code.top) (distinct : abi.result ≠ abi.pointer)
    (words : code.Loaded prepared.memory) :
    ∃ state, (Spawning.system abi exec base size (.trapped prepared code.tail)).Reachable state ∧
      ∃ cpu rest, state.child = .stopped (.called code.func cpu rest) := by
  let kept : MachineState Reg := prepared.set abi.result 1
  let spawned : MachineState Reg := (prepared.set abi.pointer code.top).set abi.result 0
  have answers : abi.Answers prepared.regs 1 kept.regs := by
    constructor
    · exact Function.update_self _ _ _
    · intro reg other _
      exact Function.update_of_ne other _ _
  have zero : spawned.regs abi.result = 0 := Function.update_self _ _ _
  have pointer : spawned.regs abi.pointer = code.top := by
    rw [MachineState.set_regs, if_neg distinct.symm, MachineState.set_regs, if_pos rfl]
  obtain ⟨entered, runs, -, -⟩ := code.enters spawned zero pointer words.1 words.2
  have cloned : Spawning.Step abi exec base size (Spawning.start (.trapped prepared code.tail)) .clone _ :=
    .clone rfl number (by decide : (1 : Word) ≠ 0) answers ⟨zero, pointer.trans top.symm⟩
  have reached : (Spawning.system abi exec base size (.trapped prepared code.tail)).Reachable _ :=
    ⟨_, _, rfl, .single cloned⟩
  refine ⟨_, reached.step (.child rfl), entered, code.after, ?_⟩
  exact congrArg Control.stopped runs

end SpawnCode

end Corus.Trampoline
