import Corus.Dump.Honesty
import Corus.Dump.Limited
import Corus.Threads.Suspension

/-!
# What a dump returns

The result of `write_core_dump_to_fd_options` for every interleaving of the
caller, the lister and the snapshot child, and the run to it once a serialization
has succeeded.
-/

namespace Corus.Dump

open Corus.Logical Corus.Platform Corus.Output Corus.Elf Corus.Threads

/-- No error of a dump is mistaken for success. -/
theorem dumpErrorErrno_ne_zero (error : DumpError) : dumpErrorErrno error ≠ 0 := by
  have positive : ∀ errno : Errno, (errno.code : Int) ≠ 0 := fun errno => by
    exact_mod_cast Nat.ne_of_gt errno.positive
  cases error <;> simp only [dumpErrorErrno] <;> first | decide | exact positive _

namespace Dumping

variable {arch : Arch} {engine : Engine arch} {state : Dumping engine}

/-- What is certain about a result. -/
theorem Sound.result {stale : Int32} (sound : Sound stale state) {outcome : Except CoreDumpError Int32}
    (returned : state.result = some outcome) :
    (outcome = .ok 0 ∧ Succeeded engine state.memory) ∨
      ∃ error, outcome = .error error ∧ error.errno ≠ 0 ∧
        (state.Excused ∨ ¬ Succeeded engine state.memory) := by
  unfold Dumping.result at returned
  split at returned
  · rename_i errno pc
    cases returned
    simp only [Sound, pc, stage] at sound
    exact .inr ⟨_, rfl, sound.2.1, sound.2.2.imp id And.right⟩
  · rename_i rc pc
    cases returned
    simp only [Sound, pc, stage] at sound
    rcases sound.2.2 with ⟨zero, succeeded⟩ | ⟨nonzero, failed⟩
    · exact .inl ⟨by rw [if_pos zero], succeeded⟩
    · exact .inr ⟨.dump (state.memory.error.getD .unknown), by rw [if_neg nonzero], dumpErrorErrno_ne_zero _,
        .inr failed⟩
  · cases returned

/-! ## The way to the result -/

/-- Steps that a lister still has to make when its callback is about to return. -/
def listerRemaining (lister : Lister (dumpCallback engine)) : Nat :=
  match lister.pc with
  | .callback (.publishChild _) => lister.pids.length + 9
  | .callback _ => lister.pids.length + 8
  | .storeResult _ => lister.pids.length + 7
  | .storeErr => lister.pids.length + 6
  | .clearPids _ => lister.pids.length + 5
  | .clearCount _ => lister.pids.length + 4
  | .resume rest _ => rest.length + 3
  | .takeChild => 2
  | .reap _ => 1
  | _ => 0

/-- A call that succeeds and stores a zero. -/
def granted : Reply := .ok ⟨0, 0, []⟩

/-- Once a serialization has succeeded, a lister that is granted its calls gets
closer to its end. -/
theorem Honest.proceeds {lister : Lister (dumpCallback engine)} (honest : Honest engine 0 lister)
    (succeeded : Succeeded engine lister.memory) (alive : lister.ending = none) :
    listerRemaining (lister.step granted) < listerRemaining lister ∧
      Succeeded engine (lister.step granted).memory ∧
      (lister.step granted).history.failedWaits = lister.history.failedWaits ∧
      ∀ exit, (lister.step granted).pc ≠ .dead exit := by
  unfold Honest at honest
  have notEarly : ¬ (lister.snapshotChild = 0 ∧ lister.memory = DumpMemory.initial) := by
    rintro ⟨_, early⟩
    exact initial_fails (early ▸ succeeded)
  cases pc : lister.pc <;> simp only [pc, Channels] at honest
  case callback position =>
    cases position with
    | publishChild pid =>
        simp [listerRemaining, Lister.step, pc, dumpCallback, dumpCallbackStep, succeeded]
    | provisional =>
        simp only [Lister.step, pc, dumpCallback, dumpCallbackStep]
        exact ⟨by simp [listerRemaining, pc], succeeded, trivial, by simp⟩
    | _ => exact absurd honest notEarly
  case storeResult rc => simp [listerRemaining, Lister.step, pc, succeeded]
  case storeErr => simp [listerRemaining, Lister.step, pc, succeeded]
  case clearPids outcome => simp [listerRemaining, Lister.step, pc, succeeded]
  case clearCount outcome => simp [listerRemaining, Lister.step, pc, succeeded]
  case resume rest next =>
    rcases next with errno | _ | _
    · exact absurd honest notEarly
    · exact absurd honest notEarly
    · cases rest <;> simp [listerRemaining, Lister.step, Lister.request, pc, succeeded]
  case takeChild =>
    by_cases forked : 0 < lister.snapshotChild
    · simp [listerRemaining, Lister.step, pc, forked, succeeded]
    · simp [listerRemaining, Lister.step, pc, forked, succeeded]
  case reap child =>
    have clean : Lister.exitedCleanly 0 = true := by decide
    simp [listerRemaining, Lister.step, pc, granted, clean, succeeded]
  case finished code => simp [Lister.ending, pc] at alive
  case dead exit => simp [Lister.ending, pc] at alive
  all_goals exact absurd honest notEarly

/-- What the kernel may answer a lister whose child has succeeded. -/
theorem Honest.granted_answer (honest : Honest engine 0 state.lister)
    (succeeded : Succeeded engine state.memory) : state.ListerAnswer granted := by
  constructor
  · intro cap answer pc _
    simp only [Honest, pc, Channels] at honest
    exact absurd (show state.memory = .initial from honest.2) (fun early => initial_fails (early ▸ succeeded))
  · intro child answer pc reply
    simp only [Honest, pc, Channels] at honest
    have told := honest.2.resolve_right (by
      rintro ⟨_, positive, _⟩
      exact absurd positive (by decide))
    have forked := told.1.2
    cases reply
    split at forked
    · exact forked.elim
    · obtain ⟨cap, present, _⟩ := succeeded
      exact absurd (present.symm.trans forked.2) (by simp)
    · rename_i pid exit ended
      obtain ⟨rfl, outcome⟩ := forked
      exact ⟨exit, ended, by rw [outcome.mp succeeded]; rfl⟩

/-- Steps that the caller still has to make after the clone. -/
def callerRemaining : CallerPc → Nat
  | .setPtracer _ => 5
  | .restoreMask _ => 4
  | .wait _ => 3
  | .restoreDumpable _ => 2
  | .munmap _ => 1
  | _ => 0

def remaining (state : Dumping engine) : Nat :=
  callerRemaining state.caller.pc + listerRemaining state.lister

/-- The status word of a task that exited fits its field. -/
theorem status_stored (code : UInt8) :
    (UInt64.ofNat (Exit.exited code).status).toNat = (Exit.exited code).status := by
  have small := code.toNat_lt
  simp only [Exit.status, Nat.shiftLeft_eq, UInt64.toNat_ofNat']
  omega

/-- A step of the caller that is no failed wait. -/
theorem proceeds_caller {reply : Reply} (answered : state.CallerAnswer reply)
    (closer : callerRemaining (state.caller.step state.lister.params reply).1.pc <
      callerRemaining state.caller.pc)
    (waits : (state.caller.step state.lister.params reply).1.failedWaits = state.caller.failedWaits)
    (succeeded : Succeeded engine state.memory) (clean : ¬ state.Excused) :
    ∃ event next, Step state event next ∧ next.remaining < state.remaining ∧
      Succeeded engine next.memory ∧ ¬ next.Excused := by
  refine ⟨_, _, .caller answered, Nat.add_lt_add_right closer _, succeeded, ?_⟩
  rintro (listerWait | callerWait | dead)
  · exact clean (.inl listerWait)
  · exact clean (.inr (.inl (waits ▸ callerWait)))
  · exact clean (.inr (.inr dead))

/-- After a success, and with nothing to excuse it, some party can make a step
towards the result. -/
theorem Sound.proceeds (sound : Sound 0 state) (succeeded : Succeeded engine state.memory)
    (clean : ¬ state.Excused) (pending : state.result = none) :
    ∃ event next, Step state event next ∧ next.remaining < state.remaining ∧
      Succeeded engine next.memory ∧ ¬ next.Excused := by
  have notEarly : state.memory ≠ .initial := fun early => initial_fails (early ▸ succeeded)
  have notWaiting : ∀ {reply : Reply}, (∀ clonePid, state.caller.pc ≠ .wait clonePid) →
      state.CallerAnswer reply := fun other clonePid pc => absurd pc (other clonePid)
  unfold Sound at sound
  cases pc : state.caller.pc <;> simp only [pc, stage] at sound
  case setPtracer clonePid =>
    apply @proceeds_caller _ _ _ granted (notWaiting (by simp [pc])) _ _ succeeded clean
    · simp [Caller.step, pc, callerRemaining]
    · simp [Caller.step, pc]
  case restoreMask cloned =>
    cases cloned with
    | error errno => exact absurd sound.2.2.2 notEarly
    | ok clonePid =>
        apply @proceeds_caller _ _ _ granted (notWaiting (by simp [pc])) _ _ succeeded clean
        · simp [Caller.step, pc, callerRemaining]
        · simp [Caller.step, pc]
  case wait clonePid =>
    cases ended : state.lister.ending with
    | none =>
        -- The caller is blocked, so the lister moves.
        obtain ⟨closer, still, waits, alive⟩ := Honest.proceeds sound.2 succeeded ended
        refine ⟨_, _, .lister sound.1 (Honest.granted_answer sound.2 succeeded),
          Nat.add_lt_add_left closer _, still, ?_⟩
        rintro (listerWait | callerWait | ⟨exit, dead⟩)
        · exact clean (.inl (waits ▸ listerWait))
        · exact clean (.inr (.inl callerWait))
        · exact alive exit dead
    | some exit =>
        unfold Lister.ending at ended
        split at ended
        · rename_i code finished
          cases ended
          have answered : state.CallerAnswer (.ok ⟨0, UInt64.ofNat (Exit.exited code).status, []⟩) := by
            intro _ _
            exact ⟨.exited code, by simp [Lister.ending, finished], status_stored code⟩
          apply proceeds_caller answered _ _ succeeded clean
          · simp [Caller.step, pc, callerRemaining]
          · simp [Caller.step, pc]
        · rename_i exit dead
          exact absurd (.inr (.inr ⟨exit, dead⟩)) clean
        · cases ended
  case restoreDumpable early =>
    cases early with
    | some errno => exact absurd sound.2.2.2 notEarly
    | none =>
        apply @proceeds_caller _ _ _ granted (notWaiting (by simp [pc])) _ _ succeeded clean
        · simp [Caller.step, pc, callerRemaining]
        · simp [Caller.step, pc]
  case munmap result =>
    apply @proceeds_caller _ _ _ granted (notWaiting (by simp [pc])) _ _ succeeded clean
    · simp [Caller.step, pc, callerRemaining]
    · simp [Caller.step, pc]
  case returned result =>
    simp only [Dumping.result, pc] at pending
    cases result <;> simp at pending
  all_goals exact absurd sound.2.2.2 notEarly

/-- After a success, and with nothing to excuse it, the call can be carried on
until it returns. -/
theorem returns_of_succeeded (reached : (system engine).Reachable state)
    (succeeded : Succeeded engine state.memory) (clean : ¬ state.Excused) :
    ∃ events later, (system engine).Steps state events later ∧ later.result = some (.ok 0) := by
  induction measure : state.remaining using Nat.strong_induction_on generalizing state with
  | _ bound ih =>
    have sound := Sound.of_reachable reached
    cases returned : state.result with
    | none =>
        obtain ⟨event, next, transition, closer, still, cleanNext⟩ := sound.proceeds succeeded clean returned
        obtain ⟨events, later, steps, done⟩ :=
          ih next.remaining (measure ▸ closer) (reached.step transition) still cleanNext rfl
        exact ⟨_, later, (TransitionSystem.Steps.single transition).trans steps, done⟩
    | some outcome =>
        refine ⟨[], state, .refl, ?_⟩
        rcases sound.result returned with ⟨rfl, _⟩ | ⟨error, _, _, excuse | failed⟩
        · exact returned
        · exact absurd excuse clean
        · exact absurd succeeded failed

/-- Honest result. In every state that any interleaving of the parties reaches:
the call has returned `Ok(0)` only if a serialization of this dump has finished
with success; once one has, no wait has failed and the lister has not crashed,
every result is `Ok(0)`, and the call can be carried on until it returns it; and
every error that is returned has a number other than zero. -/
theorem writeCoreDump_honest (reached : (system engine).Reachable state) :
    (state.result = some (.ok 0) → Succeeded engine state.memory) ∧
      (Succeeded engine state.memory → ¬ state.Excused →
        (∀ outcome, state.result = some outcome → outcome = .ok 0) ∧
        ∃ events later, (system engine).Steps state events later ∧ later.result = some (.ok 0)) ∧
      (∀ error, state.result = some (.error error) → error.errno ≠ 0) := by
  have sound := Sound.of_reachable reached
  refine ⟨?_, ?_, ?_⟩
  · intro returned
    rcases sound.result returned with ⟨_, succeeded⟩ | ⟨_, wrong, _⟩
    · exact succeeded
    · cases wrong
  · intro succeeded clean
    refine ⟨?_, returns_of_succeeded reached succeeded clean⟩
    intro outcome returned
    rcases sound.result returned with ⟨equal, _⟩ | ⟨_, _, _, excuse | failed⟩
    · exact equal
    · exact absurd excuse clean
    · exact absurd succeeded failed
  · intro error returned
    rcases sound.result returned with ⟨wrong, _⟩ | ⟨_, same, number, _⟩
    · cases wrong
    · cases same
      exact number

/-! ## A run -/

/-- What the caller and the lister do with an answer. -/
def perform (state : Dumping engine) : Event → Dumping engine
  | .caller reply => state.callerStep reply
  | .lister reply => { state with lister := state.lister.step reply }
  | _ => state

/-- An answer that the kernel can always give, or the answer to a wait. -/
def ordinary (state : Dumping engine) : Event → Bool
  | .caller reply =>
      match state.caller.pc, reply, state.lister.ending with
      | .wait _, .ok answer, some exit => answer.stored.toNat == exit.status
      | .wait _, .ok _, none => false
      | .wait _, .error errno, _ => errno == .eintr
      | _, _, _ => true
  | .lister _ =>
      match state.lister.pc with
      | .callback (.fork _) | .reap _ => false
      | _ => state.cloned
  | _ => false

def ordinaryRun : Dumping engine → List Event → Bool
  | _, [] => true
  | state, event :: rest => state.ordinary event && ordinaryRun (state.perform event) rest

theorem step_perform {event : Event} (ordinary : state.ordinary event = true) :
    Step state event (state.perform event) := by
  cases event with
  | caller reply =>
      apply Step.caller
      intro clonePid pc
      simp only [Dumping.ordinary, pc] at ordinary
      cases reply with
      | ok answer =>
          cases ended : state.lister.ending with
          | none => simp [ended] at ordinary
          | some exit =>
              simp only [ended, beq_iff_eq] at ordinary
              exact ⟨exit, rfl, ordinary⟩
      | error errno => exact .inl (by simpa using ordinary)
  | lister reply =>
      simp only [Dumping.ordinary] at ordinary
      split at ordinary
      · cases ordinary
      · cases ordinary
      · rename_i notFork notReap
        refine Step.lister ordinary ⟨?_, ?_⟩
        · intro cap answer pc
          exact absurd pc (notFork cap)
        · intro child answer pc
          exact absurd pc (notReap child)
  | child => cases ordinary
  | crash signum => cases ordinary
  | kill signal core => cases ordinary

/-- A schedule of ordinary answers is an execution. -/
theorem steps_perform {events : List Event} (run : state.ordinaryRun events = true) :
    (system engine).Steps state events (events.foldl perform state) := by
  induction events generalizing state with
  | nil => exact .refl
  | cons event rest ih =>
      simp only [ordinaryRun, Bool.and_eq_true] at run
      exact (TransitionSystem.Steps.single (step_perform run.1)).trans (ih run.2)

end Dumping

/-- Lister 102 of process 100, whose parent is 1. -/
def sampleHost : Host .x86_64 where
  getpid := .ok 102
  getppid := .ok 100
  getsid := .ok 100
  geteuid := .ok 1000
  getegid := .ok 1000
  getpriority := .ok 0
  preDump := 0
  gpregs pid := .ok (Vector.replicate _ (UInt64.ofNat pid.toInt.toNat))
  fpregs _ := .error .eperm
  auxvOpen := none
  auxvRead _ := none
  exe := .error .eperm
  cmdline := .error .eperm

def sampleEngine : Engine .x86_64 where
  options := { sampleOptions with strategy := .inProcessFrozen }
  gettid := .ok 100
  frame := Regs.zeroed
  host := sampleHost
  kernel := faultyKernel
  proc := sampleProc
  fd := sampleMachine.sink.fd
  world := sampleMachine.world

def sampleStart : Dumping sampleEngine where
  caller := ⟨.mmap, 0, 0, ⟨1, 0⟩, []⟩
  cloned := false
  lister := { Lister.newborn with pc := .gettid, memory := DumpMemory.initial }

theorem sampleStart_initial : Dumping.Initial sampleStart :=
  ⟨rfl, rfl, rfl, ⟨rfl, rfl, rfl, rfl, rfl, rfl, rfl⟩, rfl, rfl⟩

open Lister in
/-- The lister suspends a thread and serializes in-line while the caller waits. -/
def sampleEvents : List Event :=
  [Event.caller (succeeds 4096 0), .caller (succeeds 1 0), .caller (succeeds 0 0), .caller (succeeds 102 0)] ++
    callbackReplies.map Event.lister ++ [Event.caller (succeeds 0 0), .caller (succeeds 0 0)] ++
    (List.replicate 10 (succeeds 0 0)).map Event.lister ++
    [Event.caller (.error .eintr), .caller (succeeds 0 0), .caller (succeeds 0 0), .caller (succeeds 0 0)]

def sampleEnd : Dumping sampleEngine := sampleEvents.foldl Dumping.perform sampleStart

theorem sampleEnd_reachable : (Dumping.system sampleEngine).Reachable sampleEnd :=
  ⟨sampleStart, sampleEvents, sampleStart_initial,
    Dumping.steps_perform (by decide +kernel : sampleStart.ordinaryRun sampleEvents = true)⟩

/-- What is captured of thread 100. -/
def sampleCaptured : CapturedDump .x86_64 := (sampleEngine.capture [100]).toOption.getD sampleCapture

/-- The sample environment serves every capture without an auxiliary vector. -/
theorem runSerialize_sample {cap : CapturedDump .x86_64} (opts : DumpOptions .x86_64) (auxv : cap.auxv = []) :
    (runSerialize faultyKernel sampleProc cap opts sampleMachine.sink.fd sampleMachine.world).success = true := by
  have pagesize : cap.pagesize.toNat = faultyKernel.pageSize := by
    rw [CapturedDump.pagesize, auxv]
    rfl
  have served : Served faultyKernel sampleProc cap sampleParsed :=
    ⟨faultyKernel_documented, pagesize, by decide, sampleCapture_served.parses, sampleCapture_served.regular⟩
  exact runSerialize_served served opts sampleMachine_accepting _

theorem sampleEnd_succeeded : Succeeded sampleEngine sampleEnd.memory :=
  ⟨sampleCaptured, rfl, runSerialize_sample _ rfl⟩

theorem writeCoreDump_honest_sample : Succeeded sampleEngine sampleEnd.memory ∧ ¬ sampleEnd.Excused ∧
    sampleEnd.result = some (.ok 0) := by
  have finished : sampleEnd.lister.pc = .finished 0 := rfl
  have clean : ¬ sampleEnd.Excused := by
    rintro (listerWait | callerWait | ⟨exit, dead⟩)
    · exact listerWait (by decide +kernel)
    · exact callerWait (by decide +kernel)
    · rw [finished] at dead
      cases dead
  refine ⟨sampleEnd_succeeded, clean, ?_⟩
  obtain ⟨_, success, _⟩ := Dumping.writeCoreDump_honest sampleEnd_reachable
  have returned : sampleEnd.caller.pc = .returned (.ok 0) := by decide +kernel
  have some : sampleEnd.result.isSome = true := by
    unfold Dumping.result
    rw [returned]
    rfl
  obtain ⟨outcome, result⟩ := Option.isSome_iff_exists.mp some
  rw [result, (success sampleEnd_succeeded clean).1 outcome result]

end Corus.Dump
