import Corus.Dump.Outcome
import Corus.Logical.Unending
import Corus.Threads.Convergence

/-!
# Every dump comes to an end

An unending execution of the caller, the lister and the snapshot child in which the
parties are not held up for ever gets to the return of the call. The lister goes
through three stages: its setup and what follows the scan are bounded, and the scan
ends because every pass but the last records a thread.
-/

namespace Corus.Dump

open Filter
open Corus.Logical Corus.Platform Corus.Output Corus.Elf Corus.Threads

/-! ## The stages of the lister -/

/-- How far the lister has come. -/
def progress {Local : Type} : Pc Local → Nat
  | .gettid | .getppid | .socket | .setCloexec | .statMarker | .storePids | .storeCount | .installHandlers
  | .openTask => 0
  | .rewind | .getdents | .walk | .statThread _ | .attach _ | .waitStop _ | .peekFirst _ | .peekSecond _
  | .drop _ | .record _ | .publish _ => 1
  | .finished _ | .dead _ => 3
  | _ => 2

theorem progress_scanning {Local : Type} (pc : Pc Local) : progress pc = 1 ↔ pc.Scanning := by
  cases pc <;> simp [progress, Pc.Scanning, Pc.passPhase]
  case closeProc failure => cases failure <;> simp
  case closeMarker failure => cases failure <;> simp

theorem progress_le_three {Local : Type} (pc : Pc Local) : progress pc ≤ 3 := by
  cases pc <;> simp [progress]

variable {arch : Arch} {engine : Engine arch}

/-- Steps that are left of the callback. -/
def callbackWork : DumpPosition arch → Nat
  | .capture _ => 4
  | .fork _ => 3
  | .publishChild _ => 2
  | .provisional | .inline _ => 1

/-- The callback returns, or gets closer to its return. -/
theorem callbackWork_step (position : DumpPosition arch) (reply : Reply) (shared : Shared (DumpMemory arch))
    {later : DumpPosition arch} {after : Shared (DumpMemory arch)}
    (runs : dumpCallbackStep engine position reply shared = (.running later, after)) :
    callbackWork later < callbackWork position := by
  cases position with
  | capture pids =>
      simp only [dumpCallbackStep] at runs
      split at runs
      · cases runs
      · split at runs
        · cases runs
          simp [callbackWork]
        · cases runs
          simp [callbackWork]
  | fork cap =>
      cases reply with
      | ok answer =>
          cases runs
          simp [callbackWork]
      | error errno =>
          cases runs
          simp [callbackWork]
  | publishChild pid =>
      cases runs
      simp [callbackWork]
  | provisional => cases runs
  | inline cap => cases runs

/-- Steps that are left before the scan, and after it. -/
def Lister.work (lister : Lister (dumpCallback engine)) : Nat :=
  match lister.pc with
  | .gettid => 11
  | .getppid => 10
  | .socket => 9
  | .setCloexec => 8
  | .statMarker => 7
  | .storePids => 6
  | .storeCount => 5
  | .installHandlers => 4
  | .openTask => 3
  | .closeUnused _ => 1
  | .closeProc _ => lister.pids.length + 14
  | .closeMarker _ => lister.pids.length + 13
  | .callback position => lister.pids.length + 8 + callbackWork position
  | .storeResult _ => lister.pids.length + 8
  | .storeErr => lister.pids.length + 7
  | .clearPids _ => lister.pids.length + 6
  | .clearCount _ => lister.pids.length + 5
  | .resume rest _ => rest.length + 3
  | .takeChild => 2
  | .reap _ => 1
  | _ => 0

theorem progress_advance {callback : Callback} (lister : Lister callback) : progress lister.advance.pc = 1 := by
  obtain ⟨entries, skipped, equal⟩ := lister.advance_eq
  rw [equal]
  rfl

/-- Outside of the scan a step moves on to a later stage, lowers the work, or is an
interrupted call that is made again. -/
theorem work_step (lister : Lister (dumpCallback engine)) (outside : progress lister.pc ≠ 1)
    (alive : progress lister.pc ≠ 3) (reply : Reply) :
    progress lister.pc < progress (lister.step reply).pc ∨
      progress (lister.step reply).pc = progress lister.pc ∧ Lister.work (lister.step reply) < Lister.work lister ∨
      reply = .error .eintr ∧ lister.step reply = lister := by
  have moves := lister.step_moves reply
  generalize lister.step reply = after at moves
  cases moves with
  | rests rests =>
      refine .inr (.inr ⟨?_, rfl⟩)
      cases pc : lister.pc <;> simp only [pc, progress, ne_eq, not_true_eq_false] at rests outside alive
      case openTask | reap => exact rests
      all_goals cases rests
  | turns here turn =>
      cases turn with
      | mismatch mismatches => cases mismatches <;> simp [here, progress] at outside
      | _ => simp [here, progress, Lister.work, dumpCallback, callbackWork] at outside ⊢
  | failsEarly here fails => cases fails <;> simp [here, Lister.fail, progress]
  | passes here passed => cases passed <;> simp [here, progress] at outside
  | advances here | drops here | publishes here => simp [here, progress] at outside
  | @runs position progressed shared here ran =>
      right
      left
      cases progressed with
      | running later =>
          have lower := callbackWork_step position reply ⟨lister.snapshotChild, lister.memory⟩ ran
          refine ⟨by rw [here]; rfl, ?_⟩
          simp only [Lister.work, Progress.pc, here]
          omega
      | returned rc =>
          have some : 0 < callbackWork position := by cases position <;> simp [callbackWork]
          refine ⟨by rw [here]; rfl, ?_⟩
          simp only [Lister.work, Progress.pc, here]
          omega
  | takesChild here =>
      by_cases forked : 0 < lister.snapshotChild
      · simp [here, forked, progress, Lister.work]
      · simp [here, forked, progress]
  | _ here => simp [here, Lister.fail, Lister.request, progress, Lister.work] at outside ⊢

/-- No step leads back to an earlier stage. -/
theorem progress_le_step (lister : Lister (dumpCallback engine)) (reply : Reply) :
    progress lister.pc ≤ progress (lister.step reply).pc := by
  by_cases scanning : progress lister.pc = 1
  · rw [scanning]
    have moves := lister.step_moves reply
    generalize lister.step reply = after at moves
    cases moves with
    | rests rests => exact Nat.le_of_eq scanning.symm
    | turns here turn =>
        rw [here] at scanning
        cases turn <;> simp [progress] at scanning ⊢
    | failsEarly here fails => cases fails <;> simp [here, progress] at scanning
    | advances here | passes here | drops here | publishes here => rw [progress_advance]
    | takesChild here | runs here => simp [here, progress] at scanning
    | _ here => simp [here, progress] at scanning ⊢
  · by_cases ended : progress lister.pc = 3
    · have still : lister.step reply = lister := by
        cases pc : lister.pc <;> simp [pc, progress] at ended
        · simp only [Lister.step, pc]
        · simp only [Lister.step, pc]
      rw [still]
    · rcases work_step lister scanning ended reply with later | ⟨equal, -⟩ | ⟨-, held⟩
      · exact Nat.le_of_lt later
      · exact Nat.le_of_eq equal.symm
      · rw [held]

namespace Dumping

/-! ## What the other parties leave alone -/

/-- What a step means for the lister: it is its own, it changes only what the parties
share, or it ends the lister. -/
theorem Step.lister_cases {state next : Dumping engine} {event : Event} (step : Step state event next) :
    (∃ reply, event = .lister reply ∧ next.lister = state.lister.step reply) ∨
      ((∀ reply, event ≠ .lister reply) ∧
        (progress next.lister.pc = 3 ∨
          ∃ params memory, next.lister = { state.lister with params := params, memory := memory })) := by
  cases step with
  | caller answered => exact .inr ⟨nofun, .inr ⟨_, _, rfl⟩⟩
  | lister cloned answered => exact .inl ⟨_, rfl, rfl⟩
  | child ends => exact .inr ⟨nofun, .inr ⟨_, _, rfl⟩⟩
  | crash cloned alive installed handled => exact .inr ⟨nofun, .inl rfl⟩
  | kill cloned alive => exact .inr ⟨nofun, .inl rfl⟩

/-- The invariant of the scan holds whatever the other parties do. -/
theorem scanned_of_reachable {state : Dumping engine} (reached : (system engine).Reachable state) :
    state.lister.Scanned := by
  refine @TransitionSystem.Reachable.invariant _ _ _ (fun state => state.lister.Scanned) ?_ ?_ _ reached
  · exact fun state start => Lister.Scanned.initial start.lister
  · intro before event after _ scanned step
    rcases step.lister_cases with ⟨reply, -, same⟩ | ⟨-, gone | ⟨params, memory, same⟩⟩
    · rw [same]
      exact scanned.step reply
    · rw [Lister.Scanned]
      cases pc : after.lister.pc <;> simp [pc, progress] at gone
      · exact trivial
      · exact trivial
    · rw [same]
      exact scanned

theorem Step.cloned {state next : Dumping engine} {event : Event} (step : Step state event next)
    (cloned : state.cloned = true) : next.cloned = true := by
  cases step with
  | caller answered => simp [callerStep, cloned]
  | _ => exact cloned

/-- The lister has ended or waits for its child. -/
def Reaping (state : Dumping engine) : Prop := progress state.lister.pc = 3 ∨ ∃ child, state.lister.pc = .reap child

theorem Step.reaping {state next : Dumping engine} {event : Event} (step : Step state event next)
    (reaping : state.Reaping) : next.Reaping := by
  rcases step.lister_cases with ⟨reply, -, same⟩ | ⟨-, gone | ⟨params, memory, same⟩⟩
  · rw [Reaping, same]
    rcases reaping with ended | ⟨child, waits⟩
    · have bound := progress_le_step state.lister reply
      rw [ended] at bound
      exact .inl (Nat.le_antisymm (progress_le_three _) bound)
    · cases reply with
      | ok answer =>
          simp only [Lister.step, waits]
          split
          · exact .inl rfl
          · exact .inl rfl
      | error errno =>
          by_cases interrupted : errno = .eintr
          · exact .inr ⟨child, by simp only [Lister.step, waits, interrupted, if_true]⟩
          · exact .inl (by simp only [Lister.step, waits, interrupted, if_false, progress])
  · exact .inl gone
  · rw [Reaping, same]
    exact reaping

/-- No child is started while the lister waits for one. -/
theorem Step.childless {state next : Dumping engine} {event : Event} (step : Step state event next)
    (reaping : state.Reaping) (none : ∀ pid cap, state.memory.child ≠ .running pid cap) :
    ∀ pid cap, next.memory.child ≠ .running pid cap := by
  cases step with
  | @lister reply cloned answered =>
      have same : (state.lister.step reply).memory = state.lister.memory := by
        rcases reaping with ended | ⟨child, waits⟩
        · cases pc : state.lister.pc <;> simp [pc, progress] at ended
          · simp only [Lister.step, pc]
          · simp only [Lister.step, pc]
        · cases reply with
          | ok answer =>
              simp only [Lister.step, waits]
              split
              · rfl
              · rfl
          | error errno =>
              simp only [Lister.step, waits]
              split
              · rfl
              · rfl
      rw [memory, same]
      exact none
  | child ends =>
      cases ends with
      | serialized running => exact absurd running (none _ _)
      | killed running signal core => exact absurd running (none _ _)
  | _ => exact none

end Dumping

/-! ## Unending executions -/

section Execution

variable (run : Unending (Dumping.system engine))

/-- The lister makes a step that is no interruption. -/
def ListerMoves (time : Nat) : Prop := ∃ reply, run.events time = .lister reply ∧ reply ≠ .error .eintr

/-- The caller makes a step that is no interrupted wait. -/
def CallerMoves (time : Nat) : Prop :=
  ∃ reply, run.events time = .caller reply ∧
    ∀ clonePid, (run.states time).caller.pc = .wait clonePid → reply ≠ .error .eintr

/-- The caller waits for a lister that has not ended. -/
def CallerBlocked (state : Dumping engine) : Prop :=
  (∃ clonePid, state.caller.pc = .wait clonePid) ∧ progress state.lister.pc ≠ 3

/-- The lister waits for a child that has not ended. -/
def ListerBlocked (state : Dumping engine) : Prop :=
  (∃ child, state.lister.pc = .reap child) ∧ ∃ pid cap, state.memory.child = .running pid cap

/-- Nobody is held up for ever: a caller that is blocked no more moves again and again; so
does a lister that exists and is blocked no more; the child ends; and a directory that is
read again and again is read to its end again and again. -/
structure Unhindered : Prop where
  caller : (∀ᶠ time in atTop, ¬ CallerBlocked (run.states time)) → ∃ᶠ time in atTop, CallerMoves run time
  lister : (∀ᶠ time in atTop, (run.states time).cloned = true ∧ progress (run.states time).lister.pc ≠ 3 ∧
    ¬ ListerBlocked (run.states time)) → ∃ᶠ time in atTop, ListerMoves run time
  child : ∀ time pid cap, (run.states time).memory.child = .running pid cap →
    ∃ later, time ≤ later ∧ ∀ pid cap, (run.states later).memory.child ≠ .running pid cap
  listing : (∃ᶠ time in atTop, (run.states time).lister.pc = .getdents ∧ ListerMoves run time) →
    ∃ᶠ time in atTop, (run.states time).lister.pc = .getdents ∧
      ∃ reply, run.events time = .lister reply ∧ Lister.endsListing reply = true

variable {run}

/-! ## The lister -/

/-- The lister never falls back to an earlier stage. -/
theorem progress_later {time later : Nat} (after : time ≤ later) :
    progress (run.states time).lister.pc ≤ progress (run.states later).lister.pc := by
  induction after with
  | refl => exact Nat.le_refl _
  | @step moment _ ih =>
      refine Nat.le_trans ih ?_
      rcases (run.steps moment).lister_cases with ⟨reply, -, same⟩ | ⟨-, gone | ⟨params, memory, same⟩⟩
      · rw [same]
        exact progress_le_step _ _
      · rw [gone]
        exact progress_le_three _
      · rw [same]

/-- A lister that exists and never ends moves again and again. -/
theorem lister_moves (fair : Unhindered run) {since : Nat} (cloned : (run.states since).cloned = true)
    (alive : ∀ time, progress (run.states time).lister.pc ≠ 3) : ∃ᶠ time in atTop, ListerMoves run time := by
  apply fair.lister
  have present : ∀ time, since ≤ time → (run.states time).cloned = true := fun time after =>
    @Unending.keeps _ _ _ run (fun state => state.cloned = true) (fun moment => (run.steps moment).cloned) _ _ after cloned
  by_cases blocks : ∃ time, ListerBlocked (run.states time)
  · obtain ⟨time, waits, pid, cap, running⟩ := blocks
    obtain ⟨later, after, ended⟩ := fair.child time pid cap running
    have reaping : ∀ moment, time ≤ moment → (run.states moment).Reaping := fun moment beyond =>
      run.keeps (fun now => (run.steps now).reaping) beyond (.inr waits)
    have childless : ∀ moment, later ≤ moment → ∀ pid cap, (run.states moment).memory.child ≠ .running pid cap := by
      intro moment beyond
      induction beyond with
      | refl => exact ended
      | @step now reached ih =>
          have before : later ≤ now := reached
          exact (run.steps now).childless (reaping now (by omega)) ih
    refine eventually_atTop.mpr ⟨max since later, fun moment beyond => ?_⟩
    refine ⟨present moment (by omega), alive moment, ?_⟩
    rintro ⟨-, pid, cap, still⟩
    exact childless moment (by omega) pid cap still
  · refine eventually_atTop.mpr ⟨since, fun moment beyond => ?_⟩
    exact ⟨present moment beyond, alive moment, fun blocked => blocks ⟨moment, blocked⟩⟩

/-- What a step of any party means for a lister that is outside of the scan. -/
theorem stage_step {time : Nat} (outside : progress (run.states time).lister.pc ≠ 1)
    (alive : progress (run.states time).lister.pc ≠ 3) :
    progress (run.states time).lister.pc < progress (run.states (time + 1)).lister.pc ∨
      Lister.work (run.states (time + 1)).lister < Lister.work (run.states time).lister ∨
      ¬ ListerMoves run time ∧ Lister.work (run.states (time + 1)).lister = Lister.work (run.states time).lister := by
  rcases (run.steps time).lister_cases with ⟨reply, event, same⟩ | ⟨other, gone | ⟨params, memory, same⟩⟩
  · rw [same]
    rcases work_step (run.states time).lister outside alive reply with later | ⟨-, lower⟩ | ⟨rfl, held⟩
    · exact .inl later
    · exact .inr (.inl lower)
    · refine .inr (.inr ⟨?_, by rw [held]⟩)
      rintro ⟨reply, again, free⟩
      rw [event] at again
      cases again
      exact free rfl
  · have bound := progress_le_three (run.states time).lister.pc
    exact .inl (by omega)
  · refine .inr (.inr ⟨fun ⟨reply, event, _⟩ => other reply event, ?_⟩)
    rw [same]
    rfl

/-- A lister that moves again and again gets past its setup, and past what follows the scan. -/
theorem leaves_stage (moves : ∃ᶠ time in atTop, ListerMoves run time) {time : Nat}
    (outside : progress (run.states time).lister.pc ≠ 1) (alive : progress (run.states time).lister.pc ≠ 3) :
    ∃ later, progress (run.states time).lister.pc < progress (run.states later).lister.pc := by
  have stays : ∀ now, ¬ (now < time ∨ progress (run.states time).lister.pc < progress (run.states now).lister.pc) →
      progress (run.states now).lister.pc = progress (run.states time).lister.pc := by
    intro now unreached
    have kept := @progress_later _ _ run time now (by omega)
    omega
  have steps : ∀ now, ¬ (now < time ∨ progress (run.states time).lister.pc < progress (run.states now).lister.pc) →
      _ := fun now unreached =>
    @stage_step _ _ run now (stays now unreached ▸ outside) (stays now unreached ▸ alive)
  obtain ⟨later, after, reached⟩ := @reaches_of_effort
    (fun now => now < time ∨ progress (run.states time).lister.pc < progress (run.states now).lister.pc)
    (fun now => ¬ ListerMoves run now) (fun now => Lister.work (run.states now).lister)
    (by simpa only [not_not] using moves)
    (by
      intro now unreached free
      rcases steps now unreached with past | lower | ⟨held, _⟩
      · exact .inl (.inr (stays now unreached ▸ past))
      · exact .inr lower
      · exact absurd held free)
    (by
      intro now unreached
      rcases steps now unreached with past | lower | ⟨_, same⟩
      · exact .inl (.inr (stays now unreached ▸ past))
      · exact .inr (Nat.le_of_lt lower)
      · exact .inr (Nat.le_of_eq same))
    time
  exact ⟨later, reached.resolve_left (by omega)⟩

/-! ## The scan -/

/-- The lister makes a step. -/
def ListerSteps (run : Unending (Dumping.system engine)) (time : Nat) : Prop :=
  ∃ reply, run.events time = .lister reply

/-- Before it reads the directory again, a lister that scans for ever lowers its effort with
every step that is not held up. -/
theorem scan_step {time : Nat} (scanning : progress (run.states time).lister.pc = 1)
    (walking : (run.states time).lister.pc ≠ .getdents) :
    progress (run.states (time + 1)).lister.pc ≠ 1 ∨ (run.states (time + 1)).lister.pc = .getdents ∨
      (run.states (time + 1)).lister.effort < (run.states time).lister.effort ∨
      ¬ ListerMoves run time ∧ (run.states (time + 1)).lister.effort = (run.states time).lister.effort := by
  rcases (run.steps time).lister_cases with ⟨reply, event, same⟩ | ⟨other, gone | ⟨params, memory, same⟩⟩
  · rw [same, ne_eq, progress_scanning]
    rcases Lister.effort_step (Dumping.scanned_of_reachable (run.reachable time))
      ((progress_scanning _).mp scanning) walking reply with left | asking | lower | ⟨rfl, held⟩
    · exact .inl left
    · exact .inr (.inl asking)
    · exact .inr (.inr (.inl lower))
    · refine .inr (.inr (.inr ⟨?_, by rw [held]⟩))
      rintro ⟨reply, again, free⟩
      rw [event] at again
      cases again
      exact free rfl
  · exact .inl (by omega)
  · refine .inr (.inr (.inr ⟨fun ⟨reply, event, _⟩ => other reply event, ?_⟩))
    rw [same]
    rfl

section Scanning

variable {since : Nat} (moves : ∃ᶠ time in atTop, ListerMoves run time)
  (scanning : ∀ time, since ≤ time → progress (run.states time).lister.pc = 1)
include scanning

/-- Whatever the other parties do, a lister that scans for ever stays where it is until its
own next move. -/
theorem stays_until {Move : Nat → Prop} {pc : Pc (dumpCallback engine).Local} (again : ∃ᶠ time in atTop, Move time)
    (held : ∀ now, ¬ Move now → (run.states now).lister.pc = pc → ∀ reply, run.events now = .lister reply →
      ((run.states now).lister.step reply).pc = pc) {time : Nat} (reached : since ≤ time)
    (here : (run.states time).lister.pc = pc) :
    ∃ later, time ≤ later ∧ Move later ∧ (run.states later).lister.pc = pc := by
  obtain ⟨later, beyond, moved, still⟩ := @Unending.meets _ _ _ run Move
    (fun state => state.lister.pc = pc ∨ progress state.lister.pc = 3) again
    (by
      rintro now unmoved (waits | ended)
      · rcases (run.steps now).lister_cases with ⟨reply, event, same⟩ | ⟨_, gone | ⟨params, memory, same⟩⟩
        · rw [same]
          exact .inl (held now unmoved waits reply event)
        · exact .inr gone
        · rw [same]
          exact .inl waits
      · have kept := @progress_later _ _ run now (now + 1) (Nat.le_succ _)
        have bound := progress_le_three (run.states (now + 1)).lister.pc
        exact .inr (by omega))
    time (.inl here)
  refine ⟨later, beyond, moved, still.resolve_right ?_⟩
  rw [scanning later (by omega)]
  decide

include moves

/-- A lister that scans for ever reads the directory again and again. -/
theorem reads_again : ∃ᶠ time in atTop, (run.states time).lister.pc = .getdents ∧ ListerMoves run time := by
  refine frequently_atTop.mpr fun moment => ?_
  obtain ⟨asked, after, asking⟩ := @reaches_of_effort
    (fun now => now < since ∨ (run.states now).lister.pc = .getdents)
    (fun now => ¬ ListerMoves run now) (fun now => (run.states now).lister.effort)
    (by simpa only [not_not] using moves)
    (by
      intro now unreached free
      have inside := scanning now (by omega)
      rcases scan_step inside (fun asking => unreached (.inr asking)) with left | asking | lower | ⟨held, _⟩
      · exact absurd (scanning (now + 1) (by omega)) left
      · exact .inl (.inr asking)
      · exact .inr lower
      · exact absurd held free)
    (by
      intro now unreached
      have inside := scanning now (by omega)
      rcases scan_step inside (fun asking => unreached (.inr asking)) with left | asking | lower | ⟨_, same⟩
      · exact absurd (scanning (now + 1) (by omega)) left
      · exact .inl (.inr asking)
      · exact .inr (Nat.le_of_lt lower)
      · exact .inr (Nat.le_of_eq same))
    (max moment since)
  have reading : (run.states asked).lister.pc = .getdents := asking.resolve_left (by omega)
  obtain ⟨later, beyond, moved, still⟩ := stays_until scanning moves
    (by
      intro now held reads reply event
      have interrupted : reply = .error .eintr := by
        by_contra free
        exact held ⟨reply, event, free⟩
      rw [interrupted]
      simp only [Lister.step, reads, if_true])
    (by omega) reading
  exact ⟨later, by omega, still, moved⟩

/-- It begins a pass again and again. -/
theorem begins_again (fair : Unhindered run) :
    ∃ᶠ time in atTop, (run.states time).lister.pc = .rewind ∧ ListerSteps run time := by
  refine frequently_atTop.mpr fun moment => ?_
  obtain ⟨asked, after, reading, reply, event, ends⟩ :=
    frequently_atTop.mp (fair.listing (reads_again moves scanning)) (max moment since)
  have rewinds : (run.states (asked + 1)).lister.pc = .rewind := by
    rcases (run.steps asked).lister_cases with ⟨answer, same, next⟩ | ⟨other, -⟩
    · rw [event] at same
      cases same
      rcases Lister.step_endsListing reading ends with again | left
      · rw [next]
        exact again
      · rw [← next, ← progress_scanning] at left
        exact absurd (scanning (asked + 1) (by omega)) left
    · exact absurd event (other reply)
  obtain ⟨later, beyond, steps, still⟩ := @stays_until _ _ _ _ scanning (ListerSteps run) _
    (moves.mono fun _ ⟨reply, event, _⟩ => ⟨reply, event⟩)
    (fun now held _ reply event => absurd ⟨reply, event⟩ held) _ (by omega) rewinds
  exact ⟨later, by omega, still, steps⟩

end Scanning

/-- The observer of the scan beside the other parties. -/
def observe (run : Unending (Dumping.system engine)) : Nat → Observed (dumpCallback engine)
  | 0 => ⟨(run.states 0).lister, 0, []⟩
  | time + 1 =>
      match run.events time with
      | .lister reply => (observe run time).step reply
      | _ => { observe run time with lister := (run.states (time + 1)).lister }

/-- The two ways in which the observer sees a step. -/
theorem observe_cases (run : Unending (Dumping.system engine)) (time : Nat) :
    (∃ reply, run.events time = .lister reply ∧ observe run (time + 1) = (observe run time).step reply) ∨
      ((∀ reply, run.events time ≠ .lister reply) ∧
        observe run (time + 1) = { observe run time with lister := (run.states (time + 1)).lister }) := by
  rw [observe]
  split
  · rename_i reply event
    exact .inl ⟨reply, event, rfl⟩
  · rename_i other
    exact .inr ⟨other, rfl⟩

theorem observe_lister (run : Unending (Dumping.system engine)) (time : Nat) :
    (observe run time).lister = (run.states time).lister := by
  induction time with
  | zero => rfl
  | succ time ih =>
      rcases observe_cases run time with ⟨reply, event, equal⟩ | ⟨other, equal⟩
      · rcases (run.steps time).lister_cases with ⟨answer, same, next⟩ | ⟨none, -⟩
        · rw [event] at same
          cases same
          rw [equal, Observed.step_lister, ih, next]
        · exact absurd event (none reply)
      · rw [equal]

/-- As long as the lister has not ended, the passes are counted as without the other parties. -/
theorem observe_counted (alive : ∀ time, progress (run.states time).lister.pc ≠ 3) (time : Nat) :
    (observe run time).Counted := by
  induction time with
  | zero => exact Observed.Counted.initial ⟨run.initial.lister, rfl, rfl⟩
  | succ time ih =>
      rcases observe_cases run time with ⟨reply, event, equal⟩ | ⟨other, equal⟩
      · rw [equal]
        exact ih.step reply
      · rcases (run.steps time).lister_cases with ⟨reply, event, -⟩ | ⟨-, gone | ⟨params, memory, same⟩⟩
        · exact absurd event (other reply)
        · exact absurd gone (alive _)
        · rw [equal, same]
          rw [Observed.Counted, observe_lister] at ih
          exact ih

/-- The scan is left, because every pass but the last records a thread. -/
theorem leaves_scan (fair : Unhindered run) (moves : ∃ᶠ time in atTop, ListerMoves run time)
    (alive : ∀ time, progress (run.states time).lister.pc ≠ 3) {since : Nat}
    (scanning : ∀ time, since ≤ time → progress (run.states time).lister.pc = 1) : False := by
  have grows : ∃ᶠ time in atTop, (observe run time).passes < (observe run (time + 1)).passes := by
    refine (begins_again moves scanning fair).mono ?_
    rintro time ⟨rewinds, reply, event⟩
    rcases observe_cases run time with ⟨answer, same, equal⟩ | ⟨other, -⟩
    · rw [equal]
      exact (Observed.passes_step answer).2 (by rw [observe_lister, rewinds])
    · exact absurd event (other reply)
  have kept : ∀ time, (observe run time).passes ≤ (observe run (time + 1)).passes := by
    intro time
    rcases observe_cases run time with ⟨reply, -, equal⟩ | ⟨-, equal⟩
    · rw [equal]
      exact (Observed.passes_step reply).1
    · rw [equal]
  obtain ⟨time, many⟩ := exceeds_of_grows kept grows (maxThreads + 2)
  have few := (observe_counted alive time).bounded.1
  omega

/-- A lister that was started comes to its end. -/
theorem lister_ends (fair : Unhindered run) {since : Nat} (cloned : (run.states since).cloned = true) :
    ∃ time, progress (run.states time).lister.pc = 3 := by
  by_contra never
  have alive : ∀ time, progress (run.states time).lister.pc ≠ 3 := fun time ended => never ⟨time, ended⟩
  have moves := lister_moves fair cloned alive
  have bound := fun time => progress_le_three (run.states time).lister.pc
  -- The setup is left for the scan or for what follows it, and so is the scan.
  have scanned : ∃ time, 2 ≤ progress (run.states time).lister.pc := by
    by_contra early
    have below : ∀ time, progress (run.states time).lister.pc < 2 := fun time =>
      Nat.lt_of_not_le fun past => early ⟨time, past⟩
    have started : ∃ time, progress (run.states time).lister.pc = 1 := by
      by_contra setup
      have first : progress (run.states 0).lister.pc ≠ 1 := fun scanning => setup ⟨0, scanning⟩
      obtain ⟨later, past⟩ := leaves_stage moves first (alive 0)
      have bounded := below later
      exact setup ⟨later, by omega⟩
    obtain ⟨since, begun⟩ := started
    refine leaves_scan fair moves alive (fun time after => ?_ : ∀ time, since ≤ time → _)
    have kept := @progress_later _ _ run since time after
    have bounded := below time
    omega
  obtain ⟨time, past⟩ := scanned
  obtain ⟨later, beyond⟩ := @leaves_stage _ _ run moves time (by omega) (alive time)
  have last := bound later
  exact alive later (by omega)

/-! ## The caller -/

/-- Steps that are left to the caller. -/
def callerWork : CallerPc → Nat
  | .mmap => 10
  | .getDumpable => 9
  | .setDumpable => 8
  | .blockSignals => 7
  | .clone => 6
  | .setPtracer _ => 5
  | .restoreMask _ => 4
  | .wait _ => 3
  | .restoreDumpable _ => 2
  | .munmap _ => 1
  | .returned _ => 0

/-- A step of the caller gets closer to its return, or is an interrupted wait. -/
theorem callerWork_step (caller : Caller) (params : Params) (reply : Reply)
    (unfinished : ∀ result, caller.pc ≠ .returned result) :
    callerWork (caller.step params reply).1.pc < callerWork caller.pc ∨
      (∃ clonePid, caller.pc = .wait clonePid) ∧ reply = .error .eintr ∧ (caller.step params reply).1 = caller := by
  cases pc : caller.pc <;> simp only [Caller.step, pc]
  case mmap | blockSignals | clone => cases reply <;> simp [callerWork]
  case getDumpable =>
    have either : ∀ dumpable : UInt64, callerWork (if dumpable = 0 then .setDumpable else .blockSignals) < 9 := by
      intro dumpable
      split
      · simp [callerWork]
      · simp [callerWork]
    exact .inl (either _)
  case setDumpable | setPtracer | restoreDumpable | munmap => simp [callerWork]
  case restoreMask cloned => cases cloned <;> simp [callerWork]
  case wait clonePid =>
    cases reply with
    | ok answer => simp [callerWork]
    | error errno =>
        by_cases interrupted : errno = .eintr
        · simp [interrupted]
        · simp [interrupted, callerWork]
  case returned result => exact absurd pc (unfinished result)

/-- Only the caller moves the caller. -/
theorem Dumping.Step.caller_cases {state next : Dumping engine} {event : Event} (step : Dumping.Step state event next) :
    (∃ reply, event = .caller reply ∧ next.caller = (state.caller.step state.lister.params reply).1) ∨
      (∀ reply, event ≠ .caller reply) ∧ next.caller = state.caller := by
  cases step with
  | caller answered => exact .inl ⟨_, rfl, rfl⟩
  | lister cloned answered => exact .inr ⟨nofun, rfl⟩
  | child ends => exact .inr ⟨nofun, rfl⟩
  | crash cloned alive installed handled => exact .inr ⟨nofun, rfl⟩
  | kill cloned alive => exact .inr ⟨nofun, rfl⟩

/-- A caller that waits has started a lister. -/
theorem cloned_of_wait {state : Dumping engine} (reached : (Dumping.system engine).Reachable state)
    {clonePid : UInt64} (waits : state.caller.pc = .wait clonePid) : state.cloned = true := by
  have sound := Dumping.Sound.of_reachable reached
  rw [Dumping.Sound, waits] at sound
  exact sound.1

/-- The caller is not blocked for ever. -/
theorem caller_moves (fair : Unhindered run) : ∃ᶠ time in atTop, CallerMoves run time := by
  apply fair.caller
  by_cases blocks : ∃ time, CallerBlocked (run.states time)
  · obtain ⟨time, ⟨clonePid, waits⟩, -⟩ := blocks
    obtain ⟨ended, gone⟩ := lister_ends fair (cloned_of_wait (run.reachable time) waits)
    refine eventually_atTop.mpr ⟨ended, fun later after => ?_⟩
    rintro ⟨-, alive⟩
    have kept := @progress_later _ _ run ended later after
    have bound := progress_le_three (run.states later).lister.pc
    exact alive (by omega)
  · exact Eventually.of_forall fun time blocked => blocks ⟨time, blocked⟩

/-- The call returns: in every execution in which nobody is held up for ever,
`write_core_dump_to_fd_options` gets to its result, whichever threads come and go,
whatever is interrupted, and however the lister and the child end; and then no lister
is left. -/
theorem dump_returns (run : Unending (Dumping.system engine)) (fair : Unhindered run) :
    ∃ time, (run.states time).result ≠ none ∧ (run.states time).Over := by
  have returned : ∃ time result, (run.states time).caller.pc = .returned result := by
    by_contra never
    have unfinished : ∀ time result, (run.states time).caller.pc ≠ .returned result :=
      fun time result ended => never ⟨time, result, ended⟩
    have steps : ∀ time, callerWork (run.states (time + 1)).caller.pc < callerWork (run.states time).caller.pc ∨
        ¬ CallerMoves run time ∧ (run.states (time + 1)).caller = (run.states time).caller := by
      intro time
      rcases (run.steps time).caller_cases with ⟨reply, event, next⟩ | ⟨other, next⟩
      · rcases callerWork_step (run.states time).caller (run.states time).lister.params reply (unfinished time) with
          lower | ⟨⟨clonePid, waits⟩, interrupted, same⟩
        · exact .inl (next ▸ lower)
        · refine .inr ⟨?_, next.trans same⟩
          rintro ⟨answer, again, free⟩
          rw [event] at again
          cases again
          exact free clonePid waits interrupted
      · exact .inr ⟨fun ⟨reply, event, _⟩ => other reply event, next⟩
    obtain ⟨_, _, wrong⟩ := @reaches_of_effort (fun _ => False) (fun now => ¬ CallerMoves run now)
      (fun now => callerWork (run.states now).caller.pc)
      (by simpa only [not_not] using caller_moves fair)
      (by
        intro now _ free
        rcases steps now with lower | ⟨held, _⟩
        · exact .inr lower
        · exact absurd held free)
      (by
        intro now _
        rcases steps now with lower | ⟨_, same⟩
        · exact .inr (Nat.le_of_lt lower)
        · exact .inr (by rw [same]))
      0
    exact wrong
  obtain ⟨time, result, pc⟩ := returned
  have sound := Dumping.Sound.of_reachable (run.reachable time)
  rw [Dumping.Sound, pc] at sound
  refine ⟨time, ?_, sound.1⟩
  rw [Dumping.result, pc]
  cases result <;> simp

end Execution

/-! ## A run -/

/-- A caller that has returned changes nothing any more. -/
theorem callerStep_returned {state : Dumping engine} {result : Except Int Int32}
    (returned : state.caller.pc = .returned result) (reply : Reply) : state.callerStep reply = state := by
  have same : state.caller.step state.lister.params reply = (state.caller, state.lister.params) := by
    simp only [Caller.step, returned]
  have other : (state.caller.pc == .clone) = false := by
    rw [returned]
    rfl
  rw [Dumping.callerStep, same, other, Bool.false_and, Bool.or_false]

/-- The sample dump, and a caller that has returned for ever after. -/
def endlessEvents (time : Nat) : Event := sampleEvents.getD time (.caller (Lister.succeeds 0 0))

def endlessStates : Nat → Dumping sampleEngine := runAt Dumping.perform sampleStart endlessEvents

/-- The end of the sample dump. -/
structure AllOver (state : Dumping sampleEngine) : Prop where
  caller : state.caller.pc = .returned (.ok 0)
  lister : state.lister.pc = .finished 0
  child : ∀ pid cap, state.memory.child ≠ .running pid cap

theorem endlessStates_over (delay : Nat) : AllOver (endlessStates (sampleEvents.length + delay)) := by
  induction delay with
  | zero =>
      have events : (List.range sampleEvents.length).map endlessEvents = sampleEvents := by
        apply List.ext_getElem
        · simp
        · intro index _ inside
          simp [endlessEvents, inside]
      rw [Nat.add_zero, endlessStates, runAt_eq_foldl, events]
      constructor
      · decide +kernel
      · rfl
      · rintro pid cap ⟨⟩
  | succ delay ih =>
      have event : endlessEvents (sampleEvents.length + delay) = .caller (Lister.succeeds 0 0) := by
        simp [endlessEvents]
      have same : endlessStates (sampleEvents.length + delay + 1) = endlessStates (sampleEvents.length + delay) := by
        rw [endlessStates, runAt, event]
        exact callerStep_returned ih.caller (Lister.succeeds 0 0)
      rw [← Nat.add_assoc, same]
      exact ih

theorem endless_ordinary (time : Nat) : (endlessStates time).ordinary (endlessEvents time) = true := by
  by_cases early : time < sampleEvents.length
  · revert early
    revert time
    decide +kernel
  · have gone := endlessStates_over (time - sampleEvents.length)
    rw [Nat.add_sub_cancel' (Nat.le_of_not_lt early)] at gone
    have event : endlessEvents time = .caller (Lister.succeeds 0 0) := by
      simp [endlessEvents, Nat.le_of_not_lt early]
    simp [event, Dumping.ordinary, gone.caller]

def endlessRun : Unending (Dumping.system sampleEngine) where
  states := endlessStates
  events := endlessEvents
  initial := sampleStart_initial
  steps time := Dumping.step_perform (endless_ordinary time)

theorem endlessRun_over {time : Nat} (late : sampleEvents.length ≤ time) : AllOver (endlessRun.states time) := by
  have gone := endlessStates_over (time - sampleEvents.length)
  rw [Nat.add_sub_cancel' late] at gone
  exact gone

theorem endlessRun_unhindered : Unhindered endlessRun := by
  constructor
  · intro _
    refine frequently_atTop.mpr fun time => ⟨sampleEvents.length + time, Nat.le_add_left .., ?_⟩
    have event : endlessEvents (sampleEvents.length + time) = .caller (Lister.succeeds 0 0) := by
      simp [endlessEvents]
    exact ⟨_, event, nofun⟩
  · intro present
    obtain ⟨since, alive⟩ := eventually_atTop.mp present
    have ended := (endlessRun_over (Nat.le_max_left sampleEvents.length since)).lister
    exact absurd (by rw [ended]; rfl) (alive _ (Nat.le_max_right ..)).2.1
  · intro time _ _ _
    exact ⟨_, Nat.le_max_right sampleEvents.length time, (endlessRun_over (Nat.le_max_left ..)).child⟩
  · intro reads
    obtain ⟨later, after, asking, -⟩ := frequently_atTop.mp reads sampleEvents.length
    rw [(endlessRun_over after).lister] at asking
    cases asking

theorem dump_returns_sample : Unhindered endlessRun ∧
    ∃ time, (endlessRun.states time).result ≠ none ∧ (endlessRun.states time).Over :=
  ⟨endlessRun_unhindered, dump_returns endlessRun endlessRun_unhindered⟩

end Corus.Dump
