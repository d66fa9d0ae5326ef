import Corus.Dump.Protocol
import Corus.Threads.Moves

/-!
# An honest result

Success of a dump passes through the callback's context, the child's exit status,
the parameter block and the lister's status, three of which say success before it
is certain. The invariant says at each step what these channels hold, and the
result follows from it for every order of steps.
-/

namespace Corus.Dump

open Corus.Logical Corus.Platform Corus.Elf Corus.Threads

section Memory

variable {arch : Arch} (engine : Engine arch)

/-- A serialization of this dump has finished with success. -/
def Succeeded (memory : DumpMemory arch) : Prop :=
  ∃ cap, memory.serialized = some cap ∧ (engine.serialize cap).success = true

/-- No child is still at work. -/
def Quiet (memory : DumpMemory arch) : Prop := ∀ pid cap, memory.child ≠ .running pid cap

/-- The snapshot child with the given pid was forked, and once it has ended its
exit code tells whether it succeeded. -/
def Forked (child : Int32) (memory : DumpMemory arch) : Prop :=
  0 < child ∧
    match memory.child with
    | .none => False
    | .running pid _ => pid = child ∧ memory.serialized = none
    | .ended pid exit => pid = child ∧ (Succeeded engine memory ↔ exit = .exited 0)

/-- The context tells whether the dump succeeded. -/
def Told (memory : DumpMemory arch) : Prop :=
  Quiet memory ∧ (memory.result = 0 ∧ Succeeded engine memory ∨
    memory.result ≠ 0 ∧ ¬ Succeeded engine memory)

/-- What holds when the callback has returned: a child is at work and success is
provisional, or there is none and the context tells. `stale` is what an earlier dump
left in `SNAPSHOT_CHILD`. -/
def Dumped (stale snapshotChild : Int32) (memory : DumpMemory arch) : Prop :=
  Forked engine snapshotChild memory ∧ memory.result = 0 ∨
    snapshotChild = stale ∧ memory.child = .none ∧ Told engine memory

/-- What the result of `list_all_process_threads` means, where `excused` is that a
wait failed or the lister crashed. -/
def Meant (memory : DumpMemory arch) (excused : Prop) : Except Int Int32 → Prop
  | .ok _ => Told engine memory
  | .error errno => errno ≠ 0 ∧ (excused ∨ Quiet memory ∧ ¬ Succeeded engine memory)

variable {engine} {memory : DumpMemory arch}

theorem initial_quiet : Quiet (DumpMemory.initial : DumpMemory arch) := by
  simp [Quiet, DumpMemory.initial]

theorem initial_fails : ¬ Succeeded engine DumpMemory.initial := by
  simp [Succeeded, DumpMemory.initial]

/-- More excuses do not change the meaning. -/
theorem Meant.mono {excused further : Prop} {result : Except Int Int32}
    (meant : Meant engine memory excused result) (more : excused → further) :
    Meant engine memory further result := by
  cases result with
  | ok rc => exact meant
  | error errno => exact ⟨meant.1, meant.2.imp more id⟩

/-- A lister that did not exit with zero is reported as an error. -/
theorem meant_of_failed {excused : Prop} {exit : Exit} (failed : exit ≠ .exited 0) (params : Params)
    (reason : excused ∨ Quiet memory ∧ ¬ Succeeded engine memory) :
    Meant engine memory excused (Caller.report (decodeListerStatus exit.status params)) := by
  obtain ⟨result, err⟩ := decodeListerStatus_failed failed params
  rw [Caller.report, if_pos result]
  exact ⟨err, reason⟩

theorem report_of_failure {params : Params} (result : params.result = -1) :
    Caller.report params = .error params.err := by
  rw [Caller.report, if_pos result]

theorem report_of_success {params : Params} (result : params.result = 0) :
    Caller.report params = .ok params.result := by
  rw [Caller.report, result, if_neg (by decide)]

/-- A wait status is clean exactly for a task that exited with zero. -/
theorem exitedCleanly_iff {exit : Exit} : Lister.exitedCleanly exit.status = true ↔ exit = .exited 0 := by
  cases exit with
  | killed signal core =>
      have positive := signal.positive
      simp [Lister.exitedCleanly, termSignal_killed, Nat.ne_of_gt positive]
  | exited code => simp [Lister.exitedCleanly, ← UInt8.toNat_inj]

end Memory

section Channels

variable {arch : Arch} (engine : Engine arch) (stale : Int32)

/-- What the channels hold at a position of the lister. -/
def Channels (params : Params) (snapshotChild : Int32) (memory : DumpMemory arch) (waits : List Errno) :
    Pc (DumpPosition arch) → Prop
  | .callback (.publishChild pid) => Forked engine pid memory
  | .callback .provisional => Forked engine snapshotChild memory
  | .storeResult rc => rc = 0 ∧ Dumped engine stale snapshotChild memory
  | .storeErr | .clearPids .dumped | .clearCount .dumped | .resume _ (.report .dumped) | .takeChild =>
      params.result = 0 ∧ Dumped engine stale snapshotChild memory
  | .reap child => params.result = 0 ∧
      (Forked engine child memory ∧ memory.result = 0 ∨ child = stale ∧ 0 < stale ∧ memory.child = .none)
  | .finished code => Meant engine memory (waits ≠ [])
      (Caller.report (decodeListerStatus (Exit.exited code).status params))
  | .dead exit => exit ≠ .exited 0
  | _ => snapshotChild = stale ∧ memory = .initial

/-- The channels agree with the position of the lister. -/
def Honest (lister : Lister (dumpCallback engine)) : Prop :=
  Channels engine stale lister.params lister.snapshotChild lister.memory lister.history.failedWaits lister.pc

variable {engine stale} {lister : Lister (dumpCallback engine)}

/-- Nothing has been reported yet. -/
theorem Honest.advance (early : lister.snapshotChild = stale ∧ lister.memory = DumpMemory.initial) :
    Honest engine stale lister.advance := by
  obtain ⟨entries, skipped, equal⟩ := lister.advance_eq
  rw [equal]
  exact early

/-- A lister that exits with zero is taken at its word. -/
theorem Honest.exited (exits : lister.pc = .finished 0)
    (meant : Meant engine lister.memory (lister.history.failedWaits ≠ []) (Caller.report lister.params)) :
    Honest engine stale lister := by
  unfold Honest
  rw [exits]
  simpa only [Channels, decodeListerStatus_zero] using meant

/-- Ending with a nonzero code before the callback has run. -/
theorem meant_of_early {memory : DumpMemory arch} (early : memory = .initial) (code : UInt8)
    (nonzero : code ≠ 0) (excused : Prop) (params : Params) :
    Meant engine memory excused (Caller.report (decodeListerStatus (Exit.exited code).status params)) := by
  rw [early]
  exact meant_of_failed (by simpa using nonzero) params (.inr ⟨initial_quiet, initial_fails⟩)

/-- A step of the callback passes from one state of the channels to the next. -/
theorem channels_callback {params : Params} {snapshotChild : Int32} {memory : DumpMemory arch}
    {waits : List Errno} {position : DumpPosition arch} {reply : Reply} {progress : Progress (DumpPosition arch)}
    {shared : Shared (DumpMemory arch)}
    (ran : dumpCallbackStep engine position reply ⟨snapshotChild, memory⟩ = (progress, shared))
    (fork : ∀ cap answer, position = .fork cap → reply = .ok answer → 0 < cInt answer.returned)
    (channels : Channels engine stale params snapshotChild memory waits (.callback position)) :
    Channels engine stale params shared.snapshotChild shared.memory waits progress.pc := by
  cases position with
  | capture pids =>
      obtain ⟨none, early⟩ := channels
      subst early
      simp only [dumpCallbackStep] at ran
      cases captured : engine.capture pids with
      | error error =>
          have failed : (-1 : Int32) ≠ 0 := by decide
          simp only [captured] at ran
          cases ran
          exact ⟨rfl, .inr ⟨none, rfl, initial_quiet, .inr ⟨failed, initial_fails⟩⟩⟩
      | ok cap =>
          simp only [captured] at ran
          split at ran
          · cases ran
            exact ⟨none, rfl⟩
          · cases ran
            exact ⟨none, rfl⟩
  | fork cap =>
      obtain ⟨none, early⟩ := channels
      subst early
      cases reply with
      | ok answer =>
          cases ran
          exact ⟨fork cap answer rfl rfl, rfl, rfl⟩
      | error errno =>
          cases ran
          exact ⟨none, rfl⟩
  | publishChild pid =>
      cases ran
      exact channels
  | provisional =>
      cases ran
      exact ⟨rfl, .inl ⟨channels, rfl⟩⟩
  | inline cap =>
      obtain ⟨none, early⟩ := channels
      subst early
      cases ran
      refine ⟨rfl, .inr ⟨none, rfl, initial_quiet, ?_⟩⟩
      cases success : (engine.serialize cap).success with
      | true => exact .inl ⟨by simp, cap, rfl, success⟩
      | false =>
          refine .inr ⟨by simp, ?_⟩
          rintro ⟨other, same, succeeded⟩
          cases same
          rw [success] at succeeded
          cases succeeded

/-- After a clean wait for the child the provisional success is final. -/
theorem told_of_reaped {memory : DumpMemory arch} {child : Int32} {exit : Exit}
    (forked : Forked engine child memory) (ended : memory.child = .ended child exit) :
    Quiet memory ∧ (Succeeded engine memory ↔ exit = .exited 0) := by
  have status := forked.2
  rw [ended] at status
  refine ⟨?_, status.2⟩
  intro pid cap running
  rw [ended] at running
  cases running

/-- What the wait for the child tells: its status is clean exactly if the serialization succeeded. -/
theorem Honest.told (honest : Honest engine stale lister) {child : Int32} {answer : Success}
    (here : lister.pc = .reap child)
    (answered : ∃ exit, (lister.memory : DumpMemory arch).child = .ended child exit ∧
      answer.stored.toNat = exit.status) :
    lister.params.result = 0 ∧ (lister.memory : DumpMemory arch).result = 0 ∧ Quiet lister.memory ∧
      (Succeeded engine lister.memory ↔ Lister.exitedCleanly answer.stored.toNat = true) := by
  rw [Honest, here] at honest
  obtain ⟨result, own⟩ := honest
  obtain ⟨exit, ended, status⟩ := answered
  obtain ⟨forked, provisional⟩ := own.resolve_right (by
    rintro ⟨_, _, childless⟩
    rw [childless] at ended
    cases ended)
  obtain ⟨quiet, succeeded⟩ := told_of_reaped forked ended
  exact ⟨result, provisional, quiet, by rw [succeeded, status, exitedCleanly_iff]⟩

/-- A step that only moves on keeps the channels honest. -/
theorem Honest.turn {reply : Reply} {pc later : Pc (dumpCallback engine).Local} (honest : Honest engine stale lister)
    (reap : ∀ child answer, lister.pc = .reap child → reply = .ok answer →
      ∃ exit, (lister.memory : DumpMemory arch).child = .ended child exit ∧ answer.stored.toNat = exit.status)
    (here : lister.pc = pc) (turn : lister.Turn pc reply later) :
    Honest engine stale { lister with pc := later } := by
  have holds := honest
  rw [Honest, here] at holds
  cases turn with
  | reportMissing => exact meant_of_early holds.2 3 (by decide) _ _
  | mismatch mismatches => cases mismatches <;> exact holds
  | reaped clean =>
      obtain ⟨result, provisional, quiet, succeeded⟩ := honest.told here (reap _ _ here rfl)
      refine Honest.exited rfl ?_
      rw [report_of_success result]
      exact ⟨quiet, .inl ⟨provisional, succeeded.mpr clean⟩⟩
  | _ => exact holds

/-- A step of the lister keeps the channels honest. -/
theorem Honest.moves {reply : Reply} {after : Lister (dumpCallback engine)} (honest : Honest engine stale lister)
    (fork : ∀ cap answer, lister.pc = .callback (.fork cap) → reply = .ok answer → 0 < cInt answer.returned)
    (reap : ∀ child answer, lister.pc = .reap child → reply = .ok answer →
      ∃ exit, (lister.memory : DumpMemory arch).child = .ended child exit ∧ answer.stored.toNat = exit.status)
    (moves : lister.Moves reply after) : Honest engine stale after := by
  have holds := honest
  unfold Honest at holds
  cases moves with
  | rests => exact honest
  | turns here turn => exact honest.turn reap here turn
  | failsEarly here fails =>
      rw [here] at holds
      cases fails <;> exact meant_of_early holds.2 1 (by decide) _ _
  | passes here passed =>
      rw [here] at holds
      cases passed <;> exact Honest.advance holds
  | advances here | drops here | publishes here =>
      rw [here] at holds
      exact Honest.advance holds
  | runs here ran =>
      rw [here] at holds
      exact channels_callback ran (fun cap answer position => fork cap answer (here.trans (congrArg _ position))) holds
  | @clearPids outcome here | @clearCount outcome here =>
      rw [here] at holds
      cases outcome <;> exact holds
  | @detaches pid rest afterResume here =>
      rw [here] at holds
      rcases afterResume with errno | _ | _ <;> exact holds
  | failsLate here =>
      rw [here] at holds
      exact meant_of_early holds.2 1 (by decide) _ _
  | takesChild here =>
      rw [here] at holds
      obtain ⟨result, ⟨forked, provisional⟩ | ⟨left, childless, told⟩⟩ := holds
      · rw [if_pos forked.1]
        exact ⟨result, .inl ⟨forked, provisional⟩⟩
      · rw [left]
        split
        · rename_i positive
          exact ⟨result, .inr ⟨rfl, positive, childless⟩⟩
        · refine Honest.exited rfl ?_
          rw [report_of_success result]
          exact told
  | reapsFailure here ok unclean =>
      obtain ⟨_, _, quiet, succeeded⟩ := honest.told here (reap _ _ here ok)
      have failed : ¬ Succeeded engine lister.memory := by
        rw [succeeded, unclean]
        exact Bool.false_ne_true
      have number : (Errno.efault.code : Int) ≠ 0 := by decide
      refine Honest.exited rfl ?_
      rw [report_of_failure rfl]
      exact ⟨number, .inr ⟨quiet, failed⟩⟩
  | @reapFails child errno here =>
      have number : (errno.code : Int) ≠ 0 := by exact_mod_cast Nat.ne_of_gt errno.positive
      refine Honest.exited rfl ?_
      rw [report_of_failure rfl]
      exact ⟨number, .inl (by simp [Lister.waitFailed])⟩
  | gettid here | getppid here | statMarker here | storePids here | storeCount here | installHandlers here
  | rewind here | reads here | attaches here | waitFails here | records here | storeResult here | storeErr here =>
      rw [here] at holds
      exact holds

theorem Honest.step {reply : Reply} (honest : Honest engine stale lister)
    (fork : ∀ cap answer, lister.pc = .callback (.fork cap) → reply = .ok answer → 0 < cInt answer.returned)
    (reap : ∀ child answer, lister.pc = .reap child → reply = .ok answer →
      ∃ exit, (lister.memory : DumpMemory arch).child = .ended child exit ∧ answer.stored.toNat = exit.status) :
    Honest engine stale (lister.step reply) :=
  honest.moves fork reap (lister.step_moves reply)

end Channels

section ChildEnds

variable {arch : Arch} {engine : Engine arch} {memory after : DumpMemory arch}

theorem ChildEnds.running (ends : ChildEnds engine memory after) : ¬ Quiet memory := by
  intro quiet
  cases ends with
  | serialized running => exact quiet _ _ running
  | killed running => exact quiet _ _ running

theorem ChildEnds.result (ends : ChildEnds engine memory after) : after.result = memory.result := by
  cases ends <;> rfl

/-- The exit status of the child is true to its work. -/
theorem Forked.childEnds {child : Int32} (forked : Forked engine child memory)
    (ends : ChildEnds engine memory after) : Forked engine child after := by
  obtain ⟨positive, status⟩ := forked
  refine ⟨positive, ?_⟩
  cases ends with
  | @serialized pid cap running =>
      rw [running] at status
      refine ⟨status.1, ?_⟩
      cases success : (engine.serialize cap).success with
      | true => simpa [success] using ⟨cap, rfl, success⟩
      | false =>
          constructor
          · rintro ⟨other, same, succeeded⟩
            cases same
            rw [success] at succeeded
            cases succeeded
          · intro zero
            cases zero
  | @killed pid cap running signal core =>
      rw [running] at status
      refine ⟨status.1, ?_⟩
      constructor
      · rintro ⟨cap, present, _⟩
        rw [show memory.serialized = none from status.2] at present
        cases present
      · intro zero
        cases zero

theorem Dumped.childEnds {stale snapshotChild : Int32} (dumped : Dumped engine stale snapshotChild memory)
    (ends : ChildEnds engine memory after) : Dumped engine stale snapshotChild after := by
  rcases dumped with ⟨forked, result⟩ | ⟨_, _, told⟩
  · exact .inl ⟨forked.childEnds ends, ends.result.trans result⟩
  · exact absurd told.1 ends.running

/-- A child that still runs after the report is one that was excused. -/
theorem Meant.childEnds {excused : Prop} {result : Except Int Int32}
    (meant : Meant engine memory excused result) (ends : ChildEnds engine memory after) :
    Meant engine after excused result := by
  cases result with
  | ok rc => exact absurd meant.1 ends.running
  | error errno =>
      rcases meant with ⟨number, excuse | ⟨quiet, _⟩⟩
      · exact ⟨number, .inl excuse⟩
      · exact absurd quiet ends.running

/-- The end of the child keeps the channels honest. -/
theorem Channels.childEnds {stale : Int32} {params : Params} {snapshotChild : Int32} {waits : List Errno}
    {pc : Pc (DumpPosition arch)} (channels : Channels engine stale params snapshotChild memory waits pc)
    (ends : ChildEnds engine memory after) : Channels engine stale params snapshotChild after waits pc := by
  have early : ¬ (snapshotChild = stale ∧ memory = .initial) := by
    rintro ⟨_, rfl⟩
    exact ends.running initial_quiet
  cases pc
  case callback position =>
    cases position with
    | publishChild pid => exact Forked.childEnds channels ends
    | provisional => exact Forked.childEnds channels ends
    | _ => exact absurd channels early
  case storeResult rc => exact ⟨channels.1, channels.2.childEnds ends⟩
  case storeErr | takeChild => exact ⟨channels.1, channels.2.childEnds ends⟩
  case clearPids outcome | clearCount outcome =>
    cases outcome with
    | parentMissing => exact absurd channels early
    | dumped => exact ⟨channels.1, channels.2.childEnds ends⟩
  case resume rest next =>
    rcases next with errno | _ | _
    · exact absurd channels early
    · exact absurd channels early
    · exact ⟨channels.1, channels.2.childEnds ends⟩
  case reap child =>
    obtain ⟨result, ⟨forked, provisional⟩ | ⟨_, _, childless⟩⟩ := channels
    · exact ⟨result, .inl ⟨forked.childEnds ends, ends.result.trans provisional⟩⟩
    · refine absurd ?_ ends.running
      intro pid cap running
      rw [childless] at running
      cases running
  case finished code => exact Meant.childEnds channels ends
  case dead exit => exact channels
  all_goals exact absurd channels early

end ChildEnds

/-! ## All parties -/

/-- How far the caller is: the lister is not there yet, it may be at work, or its
result is known, in the parameter block or already taken from it. -/
inductive Stage where
  | before
  | waiting
  | reported (result : Option (Except Int Int32))

def stage : CallerPc → Stage
  | .mmap | .getDumpable | .setDumpable | .blockSignals | .clone | .restoreMask (.error _)
  | .restoreDumpable (some _) => .before
  | .setPtracer _ | .restoreMask (.ok _) | .wait _ => .waiting
  | .restoreDumpable none => .reported none
  | .munmap result | .returned result => .reported (some result)

namespace Dumping

variable {arch : Arch} {engine : Engine arch} {stale : Int32}

/-- Some wait failed, or a signal ended the lister. -/
def Excused (state : Dumping engine) : Prop :=
  state.lister.history.failedWaits ≠ [] ∨ state.caller.failedWaits ≠ [] ∨
    ∃ exit, state.lister.pc = .dead exit

/-- The lister makes no further step. -/
def Over (state : Dumping engine) : Prop := state.cloned = false ∨ state.lister.ending ≠ none

/-- The invariant of a dump. -/
def Sound (stale : Int32) (state : Dumping engine) : Prop :=
  match stage state.caller.pc with
  | .before => state.cloned = false ∧ state.lister.pc = .gettid ∧ state.lister.snapshotChild = stale ∧
      state.memory = .initial
  | .waiting => state.cloned = true ∧ Honest engine stale state.lister
  | .reported result => state.Over ∧
      Meant engine state.memory state.Excused (result.getD (Caller.report state.lister.params))

theorem Sound.initial {state : Dumping engine} (start : Initial state) : Sound 0 state := by
  unfold Sound
  rw [start.caller]
  exact ⟨start.cloned, start.lister.pc, start.snapshotChild, start.memory⟩

/-- Once the lister has ended, its decoded status means what it says. -/
theorem Sound.decoded {state : Dumping engine} (honest : Honest engine stale state.lister) {exit : Exit}
    (ended : state.lister.ending = some exit) :
    Meant engine state.memory state.Excused
      (Caller.report (decodeListerStatus exit.status state.lister.params)) := by
  unfold Lister.ending at ended
  unfold Honest at honest
  split at ended
  · rename_i code pc
    cases ended
    rw [pc] at honest
    exact Meant.mono honest .inl
  · rename_i exit pc
    cases ended
    rw [pc] at honest
    exact meant_of_failed honest _ (.inl (.inr (.inr ⟨_, pc⟩)))
  · cases ended

/-- A step of the caller. -/
theorem Sound.callerStep {state : Dumping engine} {reply : Reply} (sound : Sound stale state)
    (answered : state.CallerAnswer reply) : Sound stale (state.callerStep reply) := by
  have unchanged := sound
  unfold Sound at sound
  have positive : ∀ errno : Errno, (errno.code : Int) ≠ 0 := fun errno => by
    exact_mod_cast Nat.ne_of_gt errno.positive
  have failed : ∀ errno : Errno, state.memory = .initial →
      Meant engine state.memory (state.callerStep reply).Excused (.error errno.code) := by
    intro errno early
    exact ⟨positive errno, .inr (early ▸ ⟨initial_quiet, initial_fails⟩)⟩
  cases pc : state.caller.pc <;> simp only [pc, stage] at sound <;>
    simp only [Dumping.callerStep, Caller.step, pc] at failed ⊢
  case mmap =>
    obtain ⟨uncloned, start, none, early⟩ := sound
    cases reply with
    | ok answer => exact ⟨by rw [uncloned]; rfl, start, none, early⟩
    | error errno => exact ⟨.inl (by rw [uncloned]; rfl), failed errno early⟩
  case getDumpable =>
    obtain ⟨uncloned, start, none, early⟩ := sound
    cases reply with
    | ok answer =>
        simp only
        split <;> exact ⟨by rw [uncloned]; rfl, start, none, early⟩
    | error errno => exact ⟨by rw [uncloned]; rfl, start, none, early⟩
  case setDumpable =>
    obtain ⟨uncloned, start, none, early⟩ := sound
    exact ⟨by rw [uncloned]; rfl, start, none, early⟩
  case blockSignals =>
    obtain ⟨uncloned, start, none, early⟩ := sound
    cases reply with
    | ok answer => exact ⟨by rw [uncloned]; rfl, start, none, early⟩
    | error errno => exact ⟨by rw [uncloned]; rfl, start, none, early⟩
  case clone =>
    obtain ⟨uncloned, start, none, early⟩ := sound
    cases reply with
    | ok answer =>
        have honest : Honest engine stale state.lister := by
          unfold Honest
          rw [start]
          exact ⟨none, early⟩
        exact ⟨by rw [uncloned]; rfl, honest⟩
    | error errno => exact ⟨by rw [uncloned]; rfl, start, none, early⟩
  case setPtracer clonePid => exact ⟨by rw [sound.1]; rfl, sound.2⟩
  case restoreMask cloned =>
    cases cloned with
    | ok clonePid => exact ⟨by rw [sound.1]; rfl, sound.2⟩
    | error errno =>
        obtain ⟨uncloned, start, none, early⟩ := sound
        exact ⟨by rw [uncloned]; rfl, start, none, early⟩
  case wait clonePid =>
    have allowed := answered clonePid pc
    cases reply with
    | ok answer =>
        obtain ⟨exit, ended, status⟩ := allowed
        simp only [status]
        refine ⟨.inr ?_, Sound.decoded sound.2 ended⟩
        show state.lister.ending ≠ none
        simp [ended]
    | error errno =>
        simp only
        split
        · simp only [Sound, pc, stage]
          exact ⟨by rw [sound.1]; rfl, sound.2⟩
        · rename_i notInterrupted
          refine ⟨.inr (allowed.resolve_left notInterrupted), ?_⟩
          -- The status word is zero, which leaves the error as it was stored.
          show Meant engine state.memory _
            (Caller.report (decodeListerStatus (Exit.exited 0).status ⟨-1, errno.code⟩))
          rw [decodeListerStatus_zero, report_of_failure rfl]
          exact ⟨positive errno, .inl (.inr (.inl (by simp)))⟩
  case restoreDumpable failure =>
    cases failure with
    | none =>
        obtain ⟨uncloned | ended, meant⟩ := sound
        · exact ⟨.inl (by rw [uncloned]; rfl), meant⟩
        · exact ⟨.inr ended, meant⟩
    | some errno =>
        obtain ⟨uncloned, start, none, early⟩ := sound
        exact ⟨.inl (by rw [uncloned]; rfl), failed errno early⟩
  case munmap result =>
    obtain ⟨uncloned | ended, meant⟩ := sound
    · exact ⟨.inl (by rw [uncloned]; rfl), meant⟩
    · exact ⟨.inr ended, meant⟩
  case returned result =>
    simp only [Sound, pc, stage]
    obtain ⟨uncloned | ended, meant⟩ := sound
    · exact ⟨.inl (by rw [uncloned]; rfl), meant⟩
    · exact ⟨.inr ended, meant⟩

/-- A lister that has ended stays as it is. -/
theorem step_of_ended {callback : Callback} {lister : Lister callback} (ended : lister.ending ≠ none)
    (reply : Reply) : lister.step reply = lister := by
  unfold Lister.ending at ended
  split at ended
  · rename_i pc
    simp [Lister.step, pc]
  · rename_i pc
    simp [Lister.step, pc]
  · exact absurd rfl ended

/-- A signal that ends the lister before it has returned. -/
theorem Sound.killed {state : Dumping engine} (sound : Sound stale state) (cloned : state.cloned = true)
    (alive : state.lister.ending = none) {exit : Exit} (failed : exit ≠ .exited 0)
    {lister : Lister (dumpCallback engine)} (dead : lister.pc = .dead exit) :
    Sound stale { state with lister := lister } := by
  unfold Sound at sound ⊢
  cases staged : stage state.caller.pc with
  | before =>
      simp only [staged] at sound
      exact absurd (sound.1.symm.trans cloned) (by decide)
  | waiting =>
      simp only [Honest, dead]
      exact ⟨cloned, failed⟩
  | reported result =>
      simp only [staged] at sound
      obtain ⟨uncloned | ended, _⟩ := sound
      · exact absurd (uncloned.symm.trans cloned) (by decide)
      · exact absurd alive ended

/-- A step of the lister. -/
theorem Sound.listerStep {state : Dumping engine} (sound : Sound stale state) {reply : Reply}
    (cloned : state.cloned = true) (answered : state.ListerAnswer reply) :
    Sound stale { state with lister := state.lister.step reply } := by
  unfold Sound at sound ⊢
  cases staged : stage state.caller.pc with
  | before =>
      simp only [staged] at sound
      exact absurd (sound.1.symm.trans cloned) (by decide)
  | waiting =>
      simp only [staged] at sound
      exact ⟨cloned, Honest.step sound.2 answered.fork answered.reap⟩
  | reported result =>
      simp only [staged] at sound
      obtain ⟨uncloned | ended, meant⟩ := sound
      · exact absurd (uncloned.symm.trans cloned) (by decide)
      · simp only [step_of_ended ended]
        exact ⟨.inr ended, meant⟩

/-- The end of the child. -/
theorem Sound.childEnds {state : Dumping engine} (sound : Sound stale state) {after : DumpMemory arch}
    (ends : ChildEnds engine state.memory after) : Sound stale (state.setMemory after) := by
  unfold Sound at sound ⊢
  simp only [setMemory]
  cases staged : stage state.caller.pc with
  | before =>
      simp only [staged] at sound
      obtain ⟨_, _, _, early⟩ := sound
      exact absurd (early ▸ initial_quiet) ends.running
  | waiting =>
      simp only [staged] at sound
      exact ⟨sound.1, Channels.childEnds sound.2 ends⟩
  | reported result =>
      simp only [staged] at sound
      exact ⟨sound.1, sound.2.childEnds ends⟩

/-- Every step of every party keeps the invariant. -/
theorem Sound.step {state next : Dumping engine} {event : Event} (sound : Sound stale state)
    (transition : Step state event next) : Sound stale next := by
  cases transition with
  | caller answered => exact sound.callerStep answered
  | lister cloned answered => exact sound.listerStep cloned answered
  | child ends => exact sound.childEnds ends
  | @crash signum cloned alive installed handled =>
      refine sound.killed cloned alive ?_ (show (Lister.sigHandler signum state.lister).pc = _ from rfl)
      split <;> decide
  | kill cloned alive => exact sound.killed cloned alive (by simp) rfl

theorem Sound.of_reachable {state : Dumping engine} (reached : (system engine).Reachable state) :
    Sound 0 state := by
  refine @TransitionSystem.Reachable.invariant _ _ _ (Sound 0) (fun _ start => Sound.initial start) ?_ _ reached
  intro before event after _ sound transition
  exact sound.step transition

end Dumping

end Corus.Dump
