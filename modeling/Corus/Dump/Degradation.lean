import Corus.Dump.Permission
import Corus.Threads.Degradation

/-!
# Dumps that leave threads out

Which answers a dump has to get so that its callback runs with every live thread
suspended, and `list_all_process_threads` reports a failure otherwise. The kernel may
refuse the leading thread; any other refusal during the last pass is passed over in
silence.
-/

namespace Corus.Dump

open Corus.Logical Corus.Platform Corus.Output Corus.Elf Corus.Threads

namespace Dumping

variable {arch : Arch} {engine : Engine arch}

/-- The choice makes the lister give up on no live thread, apart from the leading one. -/
def keepsLive (alive : Int32 → Bool) (state : Dumping engine) : Choice → Bool
  | .lister reply => (state.lister.givesUp reply).all fun pid => !alive pid || pid == state.lister.ppid
  | _ => true

/-- The choice grants no attach on the thread. -/
def denies (pid : Int32) (state : Dumping engine) : Choice → Bool
  | .lister (.ok _) =>
      match state.lister.pc with
      | .attach viewed => viewed != pid
      | _ => true
  | _ => true

/-- The lister is about to begin a pass. -/
def begins (state : Dumping engine) : Bool :=
  match state.lister.pc with
  | .rewind => true
  | _ => false

/-- The choice is not the one after which the next pass begins. -/
def staysInPass (state : Dumping engine) (choice : Choice) : Bool := state.begins || !(state.apply choice).begins

/-- What the caller has heard of the lister: a success only of one that exited with zero. -/
def Heard (state : Dumping engine) : Prop :=
  match state.caller.pc with
  | .restoreDumpable none => state.lister.params.result ≠ -1 → state.lister.pc = .finished 0
  | .munmap (.ok _) | .returned (.ok _) => state.lister.pc = .finished 0
  | _ => True

/-- What holds of a dump whatever its threads do. -/
structure Steady (stale : Int32) (state : Dumping engine) : Prop where
  sound : Sound stale state
  scanned : state.lister.Scanned
  led : state.lister.Led
  heard : state.Heard

theorem start_steady (engine : Engine arch) (flags : ProcessFlags) (statics : Statics) :
    Steady statics.snapshotChild (start engine flags statics) := by
  have fresh : (start engine flags statics).lister.Initial := ⟨rfl, rfl, rfl, rfl, rfl, rfl, rfl⟩
  exact ⟨start_sound engine flags statics, .initial fresh, .initial fresh, trivial⟩

/-- A lister that ended with status zero exited with zero. -/
theorem Sound.finished {stale : Int32} {state : Dumping engine} (sound : Sound stale state) {clonePid : UInt64}
    (waits : state.caller.pc = .wait clonePid) (ended : state.lister.ending = some (.exited 0)) :
    state.lister.pc = .finished 0 := by
  simp only [Sound, waits, stage] at sound
  have honest := sound.2
  unfold Lister.ending at ended
  split at ended
  · rename_i code finished
    cases ended
    exact finished
  · rename_i exit dead
    cases ended
    rw [Honest, dead] at honest
    exact absurd rfl honest
  · cases ended

/-- A step of the caller. -/
theorem Heard.callerStep {stale : Int32} {state : Dumping engine} {reply : Reply} (heard : state.Heard)
    (sound : Sound stale state) (answered : state.CallerAnswer reply) : (state.callerStep reply).Heard := by
  unfold Heard at heard
  cases pc : state.caller.pc <;> simp only [pc] at heard <;> simp only [Dumping.callerStep, Caller.step, pc]
  case wait clonePid =>
    cases reply with
    | ok answer =>
        obtain ⟨exit, ended, status⟩ := answered clonePid pc
        intro success
        simp only [status] at success
        have clean : exit = .exited 0 := by
          by_contra failed
          exact success (decodeListerStatus_failed failed _).1
        exact sound.finished pc (clean ▸ ended)
    | error errno =>
        simp only
        split
        · simp only [Heard, pc]
        · -- The status word is zero, which leaves the error as it was stored.
          intro success
          exact absurd rfl success
  case restoreDumpable early =>
    cases early with
    | some errno => trivial
    | none =>
        simp only [Caller.report]
        split
        · trivial
        · rename_i success
          exact heard success
  case munmap result =>
    cases result with
    | ok rc => exact heard
    | error errno => trivial
  case returned result =>
    cases result with
    | ok rc => simpa only [Heard, pc] using heard
    | error errno => simp only [Heard, pc]
  case mmap | blockSignals | clone => cases reply <;> trivial
  case restoreMask cloned => cases cloned <;> trivial
  case getDumpable =>
    cases reply with
    | ok answer => by_cases clear : answer.returned = 0 <;> simp [Heard, clear]
    | error errno => trivial
  case setDumpable | setPtracer => trivial

/-- Once the caller has heard of it, the lister makes no more steps. -/
theorem Heard.of_over {stale : Int32} {state next : Dumping engine} (heard : state.Heard) (sound : Sound stale state)
    (caller : next.caller = state.caller)
    (kept : state.Over → next.lister.params = state.lister.params ∧ next.lister.pc = state.lister.pc) : next.Heard := by
  unfold Heard at heard ⊢
  unfold Sound at sound
  rw [caller]
  cases pc : state.caller.pc <;> simp only [pc, stage] at heard sound
  case restoreDumpable early =>
    cases early with
    | some errno => trivial
    | none =>
        obtain ⟨params, same⟩ := kept sound.1
        simp only [params, same]
        exact heard
  case munmap result | returned result =>
    cases result with
    | ok rc => exact (kept sound.1).2.trans heard
    | error errno => trivial
  all_goals trivial

/-- Every choice that the kernel admits keeps that. -/
theorem Steady.apply {stale : Int32} {state : Dumping engine} (steady : Steady stale state) {choice : Choice}
    (allowed : state.admits choice = true) : Steady stale (state.apply choice) := by
  have sound := steady.sound.step (step_iff.mpr ⟨choice, rfl, allowed, rfl⟩)
  obtain ⟨before, scanned, led, heard⟩ := steady
  have unended : ∀ {next : Dumping engine}, state.alive = true → next.caller = state.caller → next.Heard := by
    intro next alive caller
    obtain ⟨cloned, running⟩ := alive_iff.mp alive
    refine heard.of_over before caller fun isOver => ?_
    rcases isOver with uncloned | ended
    · exact absurd (uncloned.symm.trans cloned) (by decide)
    · exact absurd running ended
  cases choice with
  | caller reply =>
      exact ⟨sound, scanned, ⟨led.found, led.early⟩, heard.callerStep before (admits_caller_iff.mp allowed)⟩
  | lister reply =>
      refine ⟨sound, scanned.step reply, led.moves scanned (state.lister.step_moves reply), ?_⟩
      refine heard.of_over before rfl fun isOver => ?_
      rcases isOver with uncloned | ended
      · exact absurd (uncloned.symm.trans (admits_lister_iff.mp allowed).1) (by decide)
      · cases pc : state.lister.pc <;> simp only [Lister.ending, pc, ne_eq, not_true_eq_false] at ended
        all_goals
          simp only [Dumping.apply, Lister.step, pc]
          exact ⟨trivial, trivial⟩
  | childExits | childKilled signal core =>
      have lister : ∀ memory, (state.setMemory memory).Heard := fun memory =>
        heard.of_over before rfl fun _ => ⟨rfl, rfl⟩
      simp only [Dumping.apply, endChild] at sound ⊢
      split
      · exact ⟨by simpa only [*] using sound, scanned, ⟨led.found, led.early⟩, lister _⟩
      · exact ⟨before, scanned, led, heard⟩
  | crash signum =>
      simp only [admits, Bool.and_eq_true] at allowed
      exact ⟨sound, trivial, ⟨led.found, fun early => by simp [Dumping.apply, Lister.sigHandler] at early⟩,
        unended allowed.1.1 rfl⟩
  | kill signal core =>
      exact ⟨sound, trivial, ⟨led.found, fun early => by simp [Dumping.apply] at early⟩, unended allowed rfl⟩

theorem Steady.replay {stale : Int32} {state : Dumping engine} (steady : Steady stale state) {choices : List Choice}
    (allowed : state.lawful choices = true) : Steady stale (state.replay choices) := by
  induction choices generalizing state with
  | nil => exact steady
  | cons choice rest ih =>
      simp only [lawful, throughout_cons, Bool.and_eq_true] at allowed
      exact ih (steady.apply allowed.1) allowed.2

/-! ## Runs that spare the live threads -/

section Run

variable {alive : Int32 → Bool} {state : Dumping engine} {stale : Int32}

/-- A choice that spares the live threads keeps the invariant of the pass. -/
theorem thorough_apply (thorough : state.lister.Thorough fun pid => alive pid = true) (steady : Steady stale state)
    {choice : Choice} (spared : state.keepsLive alive choice = true) :
    (state.apply choice).lister.Thorough fun pid => alive pid = true := by
  cases choice with
  | lister reply =>
      refine thorough.moves steady.scanned steady.led ?_ (state.lister.step_moves reply)
      intro pid member living
      have each := List.all_eq_true.mp spared pid member
      simpa [living] using each
  | childExits | childKilled signal core =>
      simp only [apply, endChild]
      split
      · exact thorough
      · exact thorough
  | caller reply => exact thorough
  | crash signum => trivial
  | kill signal core => trivial

theorem thorough_replay (thorough : state.lister.Thorough fun pid => alive pid = true) (steady : Steady stale state)
    {choices : List Choice} (allowed : state.lawful choices = true)
    (spared : throughout (keepsLive alive) state choices = true) :
    (state.replay choices).lister.Thorough fun pid => alive pid = true := by
  induction choices generalizing state with
  | nil => exact thorough
  | cons choice rest ih =>
      simp only [lawful, throughout_cons, Bool.and_eq_true] at allowed spared
      exact ih (thorough_apply thorough steady spared.1) (steady.apply allowed.1) allowed.2 spared.2

/-- A thread on which no attach is granted is never recorded. -/
theorem unattached_replay {pid : Int32} (unattached : state.lister.Unattached pid) {choices : List Choice}
    (denied : throughout (denies pid) state choices = true) : (state.replay choices).lister.Unattached pid := by
  induction choices generalizing state with
  | nil => exact unattached
  | cons choice rest ih =>
      rw [throughout_cons, Bool.and_eq_true] at denied
      refine ih ?_ denied.2
      cases choice with
      | lister reply =>
          refine unattached.moves ?_ (state.lister.step_moves reply)
          rintro here answer rfl
          simp [denies, here] at denied
      | childExits | childKilled signal core =>
          simp only [apply, endChild]
          split
          · exact ⟨unattached.pids, unattached.elsewhere⟩
          · exact unattached
      | caller reply => exact ⟨unattached.pids, unattached.elsewhere⟩
      | crash signum => exact ⟨unattached.pids, id⟩
      | kill signal core => exact ⟨unattached.pids, id⟩

/-- A doomed thread stays so to the end of the pass. -/
theorem doomed_replay {pid : Int32} (doomed : state.lister.Doomed pid) (within : state.begins = false)
    {choices : List Choice} (last : throughout staysInPass state choices = true) :
    (state.replay choices).lister.Doomed pid := by
  induction choices generalizing state with
  | nil => exact doomed
  | cons choice rest ih =>
      simp only [throughout_cons, Bool.and_eq_true, staysInPass, within, Bool.false_or, Bool.not_eq_true'] at last
      refine ih ?_ last.1 last.2
      cases choice with
      | lister reply =>
          refine doomed.step ?_ reply
          intro here
          simp [begins, here] at within
      | childExits | childKilled signal core =>
          simp only [apply, endChild]
          split
          · exact doomed
          · exact doomed
      | caller reply => exact doomed
      | crash signum => exact .inr (.inr (.inr rfl))
      | kill signal core => exact .inr (.inr (.inr rfl))

/-- In a pass that does not spare the live threads one of them is doomed. -/
theorem doomed_of_unspared {choices : List Choice} (last : throughout staysInPass state choices = true)
    (unspared : throughout (keepsLive alive) state choices = false) :
    ∃ pid, alive pid = true ∧ (state.replay choices).lister.Doomed pid := by
  induction choices generalizing state with
  | nil => cases unspared
  | cons choice rest ih =>
      rw [throughout_cons, Bool.and_eq_true] at last
      rw [throughout_cons, Bool.and_eq_false_iff] at unspared
      rcases unspared with here | later
      · cases choice with
        | lister reply =>
            obtain ⟨pid, member, given⟩ := List.all_eq_false.mp here
            simp only [Bool.or_eq_true, Bool.not_eq_true', not_or, Bool.not_eq_false] at given
            have within : state.begins = false := by
              unfold begins
              split
              · rename_i pc
                simp [Lister.givesUp, pc] at member
              · rfl
            have stays : (state.apply (.lister reply)).begins = false := by
              simpa [staysInPass, within] using last.1
            exact ⟨pid, given.1, doomed_replay (Lister.doomed_of_givesUp member) stays last.2⟩
        | _ => cases here
      · exact ih last.2 later

end Run

/-- No silent degradation. From the beginning of a pass on, let every answer spare the
live threads but the leading one. Then the callback runs, and the caller returns a
success, only with every live thread that the last pass listed suspended, apart from
the lister; and a live listed thread to which no attach is ever granted makes the
caller return an error, without the callback. In the last pass the callback runs with
all of them suspended in no other case. -/
theorem callback_suspends_iff (alive : Int32 → Bool) (flags : ProcessFlags) (statics : Statics)
    {earlier pass : List Choice} (allowed : (start engine flags statics).lawful (earlier ++ pass) = true)
    (begun : earlier = [] ∨ ((start engine flags statics).replay earlier).begins = true) :
    let final := (start engine flags statics).replay (earlier ++ pass)
    let suspends := final.lister.Suspends fun pid => alive pid = true
    let spared := ((start engine flags statics).replay earlier).throughout (keepsLive alive) pass = true
    (spared → (∀ position, final.lister.pc = .callback position → suspends) ∧
      (∀ rc, final.caller.pc = .returned (.ok rc) → suspends) ∧
      ∀ pid, alive pid = true → pid ≠ final.lister.cloneTid → pid ∈ final.lister.history.listed →
        (start engine flags statics).throughout (denies pid) (earlier ++ pass) = true →
        (∀ position, final.lister.pc ≠ .callback position) ∧
          ∀ result, final.caller.pc = .returned result → ∃ errno, result = .error errno ∧ errno ≠ 0) ∧
    (((start engine flags statics).replay earlier).throughout staysInPass pass = true →
      ∀ position, final.lister.pc = .callback position → suspends → spared) := by
  intro final suspends spared
  have origin := start_steady engine flags statics
  have steady : Steady statics.snapshotChild final := origin.replay allowed
  have split : final = ((start engine flags statics).replay earlier).replay pass := List.foldl_append ..
  rw [lawful, throughout_append, Bool.and_eq_true] at allowed
  have begun_steady := origin.replay allowed.1
  have thorough : ((start engine flags statics).replay earlier).lister.Thorough fun pid => alive pid = true := by
    rcases begun with rfl | begins
    · trivial
    · unfold Dumping.begins at begins
      split at begins
      · rename_i pc
        rw [Lister.Thorough, pc]
        trivial
      · cases begins
  refine ⟨fun given => ?_, fun last position running holds => ?_⟩
  · have kept : final.lister.Thorough fun pid => alive pid = true :=
      split ▸ thorough_replay thorough begun_steady allowed.2 given
    have callback : ∀ position, final.lister.pc = .callback position → suspends := by
      intro position running
      rw [Lister.Thorough, running] at kept
      exact kept
    have success : ∀ rc, final.caller.pc = .returned (.ok rc) → suspends := by
      intro rc returned
      have heard := steady.heard
      simp only [Heard, returned] at heard
      rw [Lister.Thorough, heard] at kept
      exact kept
    refine ⟨callback, success, ?_⟩
    intro pid living other listed denied
    have unattached : final.lister.Unattached pid :=
      @unattached_replay _ _ (start engine flags statics) pid ⟨List.not_mem_nil, id⟩ _ denied
    have missing : ¬ suspends := fun holds => unattached.pids (holds pid listed living other)
    refine ⟨fun position running => missing (callback position running), ?_⟩
    intro result returned
    cases result with
    | ok rc => exact absurd (success rc returned) missing
    | error errno =>
        refine ⟨errno, rfl, ?_⟩
        have reported : final.result = some (.error (.threadList errno)) := by simp only [Dumping.result, returned]
        rcases steady.sound.result reported with ⟨wrong, _⟩ | ⟨error, same, number, _⟩
        · cases wrong
        · cases same
          exact number
  · by_contra unspared
    obtain ⟨pid, living, doomed⟩ := doomed_of_unspared last (Bool.eq_false_iff.mpr unspared)
    rw [← split] at doomed
    exact doomed.degrades steady.scanned running living holds

end Dumping

open Lister in
/-- A first pass that suspends thread 100 and is denied the attach to thread 101. -/
def firstPass : List Choice :=
  clonedChoices ++ [.caller (succeeds 0 0), .caller (succeeds 0 0)] ++
    (setupReplies ++ suspendReplies ++
      [succeeds 0 0, succeeds 0 7, .error .eperm, succeeds 0 0, succeeds 0 0]).map .lister

open Lister in
/-- A second pass that is denied it again and goes on to the callback. -/
def deniedPass : List Choice :=
  [succeeds 0 0, twoThreads, succeeds 0 0, succeeds 0 0, succeeds 0 7, .error .eperm, succeeds 0 0,
    succeeds 0 0, succeeds 0 0, succeeds 0 0].map .lister

theorem callback_suspends_iff_sample :
    (((Dumping.start sampleEngine ⟨1, 0⟩ .fresh).replay (firstPass ++ deniedPass)).lister.Suspends
        fun pid => (pid == 100) = true) ∧
      ¬ ((Dumping.start sampleEngine ⟨1, 0⟩ .fresh).replay (firstPass ++ deniedPass)).lister.Suspends
        fun _ => true = true := by
  have running : ((Dumping.start sampleEngine ⟨1, 0⟩ .fresh).replay (firstPass ++ deniedPass)).lister.pc =
      .callback (.capture [100]) := rfl
  have begun : ((Dumping.start sampleEngine ⟨1, 0⟩ .fresh).replay firstPass).begins = true := by decide +kernel
  constructor
  · exact ((Dumping.callback_suspends_iff (fun pid => pid == 100) ⟨1, 0⟩ .fresh (by decide +kernel)
      (.inr begun)).1 (by decide +kernel)).1 _ running
  · intro suspends
    have spared := (Dumping.callback_suspends_iff (fun _ => true) ⟨1, 0⟩ .fresh (by decide +kernel)
      (.inr begun)).2 (by decide +kernel) _ running suspends
    exact absurd spared (by decide +kernel)

open Lister in
/-- The callback is done, the lister exits and the caller returns. -/
def successChoices : List Choice :=
  (List.replicate 9 (succeeds 0 0)).map .lister ++ List.replicate 3 (.caller (succeeds 0 0))

/-- Although every attach to the live thread 101 is denied, the callback runs without
it and the dump is a success. -/
theorem callback_degraded :
    (Dumping.system sampleEngine).Reachable
        ((Dumping.start sampleEngine ⟨1, 0⟩ .fresh).replay (firstPass ++ deniedPass ++ successChoices)) ∧
      (Dumping.start sampleEngine ⟨1, 0⟩ .fresh).throughout (Dumping.denies 101)
        (firstPass ++ deniedPass ++ successChoices) = true ∧
      ((Dumping.start sampleEngine ⟨1, 0⟩ .fresh).replay (firstPass ++ deniedPass)).lister.pc =
        .callback (.capture [100]) ∧
      101 ∈ ((Dumping.start sampleEngine ⟨1, 0⟩ .fresh).replay (firstPass ++ deniedPass)).lister.history.listed ∧
      ((Dumping.start sampleEngine ⟨1, 0⟩ .fresh).replay (firstPass ++ deniedPass)).lister.cloneTid = 102 ∧
      ((Dumping.start sampleEngine ⟨1, 0⟩ .fresh).replay (firstPass ++ deniedPass)).lister.pids = [100] ∧
      ((Dumping.start sampleEngine ⟨1, 0⟩ .fresh).replay
        (firstPass ++ deniedPass ++ successChoices)).caller.pc = .returned (.ok 0) :=
  ⟨Dumping.replay_reachable rfl (by decide +kernel), by decide +kernel, rfl, by decide +kernel, by decide +kernel,
    by decide +kernel, by decide +kernel⟩

end Corus.Dump
