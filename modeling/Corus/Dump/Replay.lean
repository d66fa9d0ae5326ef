import Corus.Dump.Outcome

/-!
# Replaying a dump

A dump as a function of its schedule and of the answers to its calls. A choice
says what an event leaves open, so that the state after it can be computed, and
what the kernel admits can be checked.
-/

namespace Corus.Dump

open Corus.Logical Corus.Platform Corus.Output Corus.Elf Corus.Threads

/-- An event, with the way the child ended. -/
inductive Choice where
  | caller (reply : Reply)
  | lister (reply : Reply)
  | childExits
  | childKilled (signal : Signal) (core : Bool)
  | crash (signum : Signal)
  | kill (signal : Signal) (core : Bool)

def Choice.event : Choice → Event
  | .caller reply => .caller reply
  | .lister reply => .lister reply
  | .childExits | .childKilled _ _ => .child
  | .crash signum => .crash signum
  | .kill signal core => .kill signal core

/-- What is left in the static variables of the process: whether `SIG_PIDS` is set,
`SIG_NUM_THREADS` and `SNAPSHOT_CHILD`. -/
structure Statics where
  sigPids : Bool
  sigNumThreads : Nat
  snapshotChild : Int32
deriving DecidableEq, Repr

/-- The values they start with. -/
def Statics.fresh : Statics := ⟨false, 0, 0⟩

namespace Dumping

variable {arch : Arch} {engine : Engine arch}

/-- The call of `write_core_dump_to_fd_options` in a process with the given flags
and statics. Locals are written before they are read. -/
def start (engine : Engine arch) (flags : ProcessFlags) (statics : Statics) : Dumping engine where
  caller := ⟨.mmap, 0, 0, flags, []⟩
  cloned := false
  lister :=
    { pc := .gettid
      cloneTid := 0
      ppid := 0
      markerIno := 0
      entries := []
      pids := []
      foundParent := false
      added := 0
      sigPids := statics.sigPids
      sigNumThreads := statics.sigNumThreads
      handlersInstalled := false
      params := ⟨-1, 0⟩
      snapshotChild := statics.snapshotChild
      memory := DumpMemory.initial
      history := ⟨[], [], [], []⟩ }

/-- What a dump leaves in the static variables. -/
def statics (state : Dumping engine) : Statics :=
  ⟨state.lister.sigPids, state.lister.sigNumThreads, state.lister.snapshotChild⟩

/-- The snapshot child ends in a given way, if there is one at work. -/
def endChild (state : Dumping engine) (exit : CapturedDump arch → Exit) (through : Bool) : Dumping engine :=
  match state.memory.child with
  | .running pid cap =>
      state.setMemory { state.memory with
        child := .ended pid (exit cap)
        serialized := if through then some cap else state.memory.serialized }
  | _ => state

/-- The state after a choice. -/
def apply (state : Dumping engine) : Choice → Dumping engine
  | .caller reply => state.callerStep reply
  | .lister reply => { state with lister := state.lister.step reply }
  | .childExits => state.endChild (fun cap => .exited (if (engine.serialize cap).success then 0 else 1)) true
  | .childKilled signal core => state.endChild (fun _ => .killed signal core) false
  | .crash signum => { state with lister := Lister.sigHandler signum state.lister }
  | .kill signal core => { state with lister := { state.lister with pc := .dead (.killed signal core) } }

/-- The lister is there and has not ended. -/
def alive (state : Dumping engine) : Bool := state.cloned && state.lister.ending.isNone

/-- Whether the kernel admits a choice. -/
def admits (state : Dumping engine) : Choice → Bool
  | .caller reply =>
      match state.caller.pc, reply, state.lister.ending with
      | .wait _, .ok answer, some exit => answer.stored.toNat == exit.status
      | .wait _, .ok _, none => false
      | .wait _, .error errno, none => errno == .eintr
      | _, _, _ => true
  | .lister reply =>
      state.cloned &&
        match state.lister.pc, reply, state.memory.child with
        | .callback (.fork _), .ok answer, _ => decide (0 < cInt answer.returned)
        | .reap child, .ok answer, .ended pid exit => pid == child && answer.stored.toNat == exit.status
        | .reap _, .ok _, _ => false
        | _, _, _ => true
  | .childExits | .childKilled _ _ =>
      match state.memory.child with
      | .running _ _ => true
      | _ => false
  | .crash signum => state.alive && state.lister.handlersInstalled && listerCrashSignals.contains signum
  | .kill _ _ => state.alive

/-- What the kernel admits to the caller. -/
theorem admits_caller_iff {state : Dumping engine} {reply : Reply} :
    state.admits (.caller reply) = true ↔ state.CallerAnswer reply := by
  unfold CallerAnswer admits
  cases pc : state.caller.pc <;> simp only [reduceCtorEq, false_implies, implies_true]
  case wait clonePid =>
    cases reply with
    | ok answer =>
        cases state.lister.ending with
        | none => simp [WaitAnswer]
        | some exit => simp [WaitAnswer]
    | error errno =>
        cases state.lister.ending with
        | none => simp [WaitAnswer]
        | some exit => simp [WaitAnswer]

/-- What the kernel admits to the lister. -/
theorem admits_lister_iff {state : Dumping engine} {reply : Reply} :
    state.admits (.lister reply) = true ↔ state.cloned = true ∧ state.ListerAnswer reply := by
  simp only [admits, Bool.and_eq_true]
  refine and_congr_right fun _ => ?_
  constructor
  · intro allowed
    refine ⟨?_, ?_⟩
    · rintro cap answer pc rfl
      simpa [pc] using allowed
    · rintro child answer pc rfl
      simp only [pc] at allowed
      cases ended : state.memory.child with
      | ended pid exit =>
          simp only [ended, Bool.and_eq_true, beq_iff_eq] at allowed
          exact ⟨exit, by rw [allowed.1], allowed.2⟩
      | none => simp [ended] at allowed
      | running pid cap => simp [ended] at allowed
  · intro answered
    split
    · rename_i cap answer pc
      exact decide_eq_true (answered.fork cap answer pc rfl)
    · rename_i child answer pid exit pc ended
      obtain ⟨status, same, stored⟩ := answered.reap child answer pc rfl
      rw [ended] at same
      cases same
      simp [stored]
    · rename_i child answer pc notEnded
      obtain ⟨status, same, stored⟩ := answered.reap child answer pc rfl
      exact absurd same (notEnded child status)
    · rfl

theorem alive_iff {state : Dumping engine} :
    state.alive = true ↔ state.cloned = true ∧ state.lister.ending = none := by
  simp [alive]

/-- The steps of a dump are the choices that the kernel admits. -/
theorem step_iff {state next : Dumping engine} {event : Event} :
    Step state event next ↔
      ∃ choice, Choice.event choice = event ∧ state.admits choice = true ∧ next = state.apply choice := by
  constructor
  · intro transition
    cases transition with
    | caller answered => exact ⟨.caller _, rfl, admits_caller_iff.mpr answered, rfl⟩
    | lister cloned answered => exact ⟨.lister _, rfl, admits_lister_iff.mpr ⟨cloned, answered⟩, rfl⟩
    | child ends =>
        cases ends with
        | serialized running =>
            exact ⟨.childExits, rfl, by simp [admits, running], by simp [apply, endChild, running]⟩
        | killed running signal core =>
            exact ⟨.childKilled signal core, rfl, by simp [admits, running], by simp [apply, endChild, running]⟩
    | @crash signum cloned alive installed handled =>
        refine ⟨.crash signum, rfl, ?_, rfl⟩
        simp only [admits, alive_iff.mpr ⟨cloned, alive⟩, installed, Bool.true_and]
        exact List.contains_iff_mem.mpr handled
    | @kill signal core cloned alive =>
        exact ⟨.kill signal core, rfl, alive_iff.mpr ⟨cloned, alive⟩, rfl⟩
  · rintro ⟨choice, rfl, allowed, rfl⟩
    cases choice with
    | caller reply => exact .caller (admits_caller_iff.mp allowed)
    | lister reply => exact .lister (admits_lister_iff.mp allowed).1 (admits_lister_iff.mp allowed).2
    | childExits =>
        simp only [admits] at allowed
        split at allowed
        · rename_i pid cap running
          simp only [apply, endChild, running]
          exact .child (.serialized running)
        · cases allowed
    | childKilled signal core =>
        simp only [admits] at allowed
        split at allowed
        · rename_i pid cap running
          simp only [apply, endChild, running]
          exact .child (.killed running signal core)
        · cases allowed
    | crash signum =>
        simp only [admits, Bool.and_eq_true] at allowed
        obtain ⟨⟨alive, installed⟩, handled⟩ := allowed
        obtain ⟨cloned, running⟩ := alive_iff.mp alive
        exact .crash cloned running installed (List.contains_iff_mem.mp handled)
    | kill signal core =>
        obtain ⟨cloned, running⟩ := alive_iff.mp allowed
        exact .kill cloned running

/-- The state after a schedule. -/
def replay (state : Dumping engine) (choices : List Choice) : Dumping engine := choices.foldl apply state

/-- Whether every choice of a schedule has a property, in the state in which it is made. -/
def throughout (property : Dumping engine → Choice → Bool) (state : Dumping engine) (choices : List Choice) : Bool :=
  Logical.throughout apply property state choices

theorem throughout_cons (property : Dumping engine → Choice → Bool) (state : Dumping engine) (choice : Choice)
    (rest : List Choice) : throughout property state (choice :: rest) =
      (property state choice && throughout property (state.apply choice) rest) := rfl

theorem throughout_append (property : Dumping engine → Choice → Bool) (state : Dumping engine)
    (first second : List Choice) : throughout property state (first ++ second) =
      (throughout property state first && throughout property (state.replay first) second) :=
  Logical.throughout_append apply property state first second

/-- Whether the kernel admits a schedule. -/
def lawful (state : Dumping engine) (choices : List Choice) : Bool := throughout admits state choices

/-- A schedule that the kernel admits is an execution. -/
theorem replay_steps {state : Dumping engine} {choices : List Choice} (allowed : state.lawful choices = true) :
    (system engine).Steps state (choices.map Choice.event) (state.replay choices) := by
  induction choices generalizing state with
  | nil => exact .refl
  | cons choice rest ih =>
      simp only [lawful, throughout_cons, Bool.and_eq_true] at allowed
      have first : (system engine).Step state choice.event (state.apply choice) :=
        step_iff.mpr ⟨choice, rfl, allowed.1, rfl⟩
      exact (TransitionSystem.Steps.single first).trans (ih allowed.2)

theorem start_sound (engine : Engine arch) (flags : ProcessFlags) (statics : Statics) :
    Sound statics.snapshotChild (start engine flags statics) := ⟨rfl, rfl, rfl, rfl⟩

/-- The invariant of a dump holds after every schedule, whatever the statics. -/
theorem replay_sound {stale : Int32} {state : Dumping engine} {choices : List Choice} (sound : Sound stale state)
    (allowed : state.lawful choices = true) : Sound stale (state.replay choices) := by
  induction choices generalizing state with
  | nil => exact sound
  | cons choice rest ih =>
      simp only [lawful, throughout_cons, Bool.and_eq_true] at allowed
      exact ih (sound.step (step_iff.mpr ⟨choice, rfl, allowed.1, rfl⟩)) allowed.2

/-- A dump in a process without a child left over is a run of the protocol. -/
theorem replay_reachable {flags : ProcessFlags} {statics : Statics} {choices : List Choice}
    (none : statics.snapshotChild = 0) (allowed : (start engine flags statics).lawful choices = true) :
    (system engine).Reachable ((start engine flags statics).replay choices) :=
  ⟨_, _, ⟨rfl, rfl, rfl, ⟨rfl, rfl, rfl, rfl, rfl, rfl, rfl⟩, none, rfl⟩, replay_steps allowed⟩

/-- What an invariant and a property of the choices imply for a single choice holds
throughout a schedule that the kernel admits. -/
theorem throughout_keep {Invariant : Dumping engine → Prop} {given shown : Dumping engine → Choice → Bool}
    (single : ∀ state choice, Invariant state → state.admits choice = true → given state choice = true →
      shown state choice = true ∧ Invariant (state.apply choice))
    {state : Dumping engine} {choices : List Choice} (holds : Invariant state)
    (allowed : state.lawful choices = true) (always : throughout given state choices = true) :
    throughout shown state choices = true ∧ Invariant (state.replay choices) := by
  induction choices generalizing state with
  | nil => exact ⟨rfl, holds⟩
  | cons choice rest ih =>
      simp only [lawful, throughout_cons, Bool.and_eq_true] at allowed always ⊢
      obtain ⟨here, kept⟩ := single state choice holds allowed.1 always.1
      obtain ⟨later, last⟩ := ih kept allowed.2 always.2
      exact ⟨⟨here, later⟩, last⟩

end Dumping

end Corus.Dump
