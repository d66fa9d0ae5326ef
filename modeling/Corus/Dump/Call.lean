import Corus.Dump.History

/-!
# Calling the engine

`write_core_dump_to_fd_options` as its callers see it: a function of the options and
of what the call meets, with the bytes that reach the descriptor and the invocations
of the pre-dump callback.
-/

namespace Corus.Dump

open Corus.Logical Corus.Platform Corus.Output Corus.Elf Corus.Threads

/-- What one call of the engine meets: the state of the process, the answers to its
system calls and its schedule. `fragment` is what a snapshot child that did not get
through has written. -/
structure Site (arch : Arch) where
  gettid : Except Errno Int32
  frame : Regs arch
  host : Host arch
  kernel : Kernel
  proc : ProcFs
  answers : Nat → Response (Except Errno Nat)
  world : World
  flags : ProcessFlags
  statics : Statics
  choices : List Choice
  fragment : Bytes

namespace Dumping

variable {arch : Arch} {engine : Engine arch}

/-- The choice makes the lister run `capture_dump`, which begins with the pre-dump
callback. -/
def captures (state : Dumping engine) : Choice → Bool
  | .lister _ =>
      match state.lister.pc with
      | .callback (.capture _) => true
      | _ => false
  | _ => false

/-- How often `capture_dump` is run in a schedule. -/
def invocations : Dumping engine → List Choice → Nat
  | _, [] => 0
  | state, choice :: rest => (if state.captures choice then 1 else 0) + invocations (state.apply choice) rest

/-- The lister is behind the capture, or has ended. -/
def captureOver : Pc (DumpPosition arch) → Bool
  | .callback (.capture _) => false
  | .callback _ | .storeResult _ | .storeErr | .clearPids .dumped | .clearCount .dumped
  | .resume _ (.report .dumped) | .takeChild | .reap _ | .finished _ | .dead _ => true
  | _ => false

/-- A lister that is past the capture stays so. -/
theorem captureOver_step {lister : Lister (dumpCallback engine)} (reply : Reply)
    (behind : captureOver lister.pc = true) :
    captureOver (lister.step reply).pc = true := by
  cases pc : lister.pc <;> rw [pc] at behind
  case callback position =>
    cases position with
    | capture pids => cases behind
    | fork cap => cases reply <;> simp only [Lister.step, pc, dumpCallback, dumpCallbackStep] <;> rfl
    | publishChild pid => simp only [Lister.step, pc, dumpCallback, dumpCallbackStep]; rfl
    | provisional => simp only [Lister.step, pc, dumpCallback, dumpCallbackStep]; rfl
    | inline cap => simp only [Lister.step, pc, dumpCallback, dumpCallbackStep]; rfl
  case clearPids outcome | clearCount outcome =>
    cases outcome with
    | parentMissing => cases behind
    | dumped => simp only [Lister.step, pc]; rfl
  case resume rest next =>
    rcases next with errno | _ | _
    · cases behind
    · cases behind
    · cases rest <;> simp only [Lister.step, Lister.request, pc] <;> rfl
  case takeChild =>
    simp only [Lister.step, pc]
    split <;> rfl
  case reap child =>
    cases reply with
    | ok answer =>
        simp only [Lister.step, pc]
        split <;> rfl
    | error errno =>
        simp only [Lister.step, pc]
        split
        · rw [pc]
          rfl
        · rfl
  case storeResult | storeErr => simp only [Lister.step, pc]; rfl
  case finished | dead => simp only [Lister.step, pc]; exact behind
  all_goals cases behind

/-- The capture is passed by running it. -/
theorem captureOver_of_captures {state : Dumping engine} {choice : Choice} (runs : state.captures choice = true) :
    captureOver (state.apply choice).lister.pc = true := by
  cases choice with
  | lister reply =>
      simp only [captures] at runs
      split at runs
      · rename_i pids pc
        simp only [apply, Lister.step, pc, dumpCallback, dumpCallbackStep]
        cases engine.capture pids with
        | error error => rfl
        | ok cap => cases engine.opts.strategy <;> rfl
      · cases runs
  | _ => cases runs

theorem captureOver_apply {state : Dumping engine} (behind : captureOver state.lister.pc = true) (choice : Choice) :
    captureOver (state.apply choice).lister.pc = true := by
  cases choice with
  | caller reply => exact behind
  | lister reply => exact captureOver_step reply behind
  | childExits | childKilled signal core =>
      simp only [apply, endChild]
      split
      · exact behind
      · exact behind
  | crash signum => rfl
  | kill signal core => rfl

/-- Past the capture it is not run again. -/
theorem invocations_of_captureOver {state : Dumping engine} (behind : captureOver state.lister.pc = true)
    (choices : List Choice) : state.invocations choices = 0 := by
  induction choices generalizing state with
  | nil => rfl
  | cons choice rest ih =>
      have idle : state.captures choice = false := by
        cases choice with
        | lister reply =>
            simp only [captures]
            split
            · rename_i pc
              rw [pc] at behind
              cases behind
            · rfl
        | _ => rfl
      simp only [invocations, idle, Bool.false_eq_true, if_false, Nat.zero_add]
      exact ih (captureOver_apply behind choice)

/-- A dump runs the capture at most once. -/
theorem invocations_le_one (state : Dumping engine) (choices : List Choice) : state.invocations choices ≤ 1 := by
  induction choices generalizing state with
  | nil => exact Nat.zero_le _
  | cons choice rest ih =>
      simp only [invocations]
      split
      · rename_i runs
        rw [invocations_of_captureOver (captureOver_of_captures runs)]
      · have later := ih (state.apply choice)
        omega

/-- No serialization has begun. -/
structure Idle (state : Dumping engine) : Prop where
  child : state.memory.child = .none
  serialized : state.memory.serialized = none
  position : ∀ position, state.lister.pc = .callback position → ∃ pids, position = .capture pids

/-- Serializations begin with a successful capture only. -/
theorem Idle.apply {state : Dumping engine} (idle : state.Idle) {choice : Choice}
    (refuses : state.captures choice = true → ∀ pids, ∃ error, engine.capture pids = .error error) :
    (state.apply choice).Idle := by
  cases choice with
  | caller reply => exact ⟨idle.child, idle.serialized, idle.position⟩
  | lister reply =>
      rcases @Lister.step_involved _ state.lister reply with
        pc | ⟨pid, pc⟩ | pc | ⟨position, pc⟩ | uninvolved
      · cases reply <;> simp only [Dumping.apply, Lister.step, pc]
        · exact ⟨idle.child, idle.serialized, fun _ here => by cases here⟩
        · exact ⟨idle.child, idle.serialized, fun _ here => by cases here⟩
      · simp only [Dumping.apply, Lister.step, pc]
        exact ⟨idle.child, idle.serialized, fun _ here => by cases here⟩
      · simp only [Dumping.apply, Lister.step, pc]
        split
        · refine ⟨idle.child, idle.serialized, ?_⟩
          intro position entered
          cases entered
          exact ⟨_, rfl⟩
        · exact ⟨idle.child, idle.serialized, fun _ here => by cases here⟩
      · obtain ⟨pids, rfl⟩ := idle.position position pc
        obtain ⟨error, refused⟩ := refuses (by simp only [captures, pc]) pids
        simp only [Dumping.apply, Lister.step, pc, dumpCallback, dumpCallbackStep, refused]
        exact ⟨idle.child, idle.serialized, fun _ here => by cases here⟩
      · have same : (state.apply (.lister reply)).memory = state.memory := uninvolved.memory
        exact ⟨same ▸ idle.child, same ▸ idle.serialized,
          fun position here => absurd here (uninvolved.position position)⟩
  | childExits | childKilled signal core =>
      simp only [Dumping.apply, endChild, idle.child]
      exact idle
  | crash signum => exact ⟨idle.child, idle.serialized, fun _ here => by cases here⟩
  | kill signal core => exact ⟨idle.child, idle.serialized, fun _ here => by cases here⟩

/-- Without a successful capture no serialization begins. -/
theorem Idle.replay {state : Dumping engine} (idle : state.Idle) {choices : List Choice}
    (refuses : state.invocations choices = 0 ∨ ∀ pids, ∃ error, engine.capture pids = .error error) :
    (state.replay choices).Idle := by
  induction choices generalizing state with
  | nil => exact idle
  | cons choice rest ih =>
      have here : state.captures choice = true → ∀ pids, ∃ error, engine.capture pids = .error error := by
        intro runs
        rcases refuses with none | always
        · simp [invocations, runs] at none
        · exact always
      refine ih (idle.apply here) (refuses.imp_left fun none => ?_)
      simp only [invocations] at none
      omega

theorem start_idle (engine : Engine arch) (flags : ProcessFlags) (statics : Statics) :
    (start engine flags statics).Idle := ⟨rfl, rfl, fun _ here => by cases here⟩

theorem Idle.fails {state : Dumping engine} (idle : state.Idle) : ¬ Succeeded engine state.memory := by
  rintro ⟨cap, present, _⟩
  rw [idle.serialized] at present
  cases present

end Dumping

/-! ## The call -/

namespace Site

variable {arch : Arch} (site : Site arch) (opts : DumpOptions arch)

def engine : Engine arch where
  options := opts
  gettid := site.gettid
  frame := site.frame
  host := site.host
  kernel := site.kernel
  proc := site.proc
  fd := ⟨[], 0, site.answers⟩
  world := site.world

def origin : Dumping (site.engine opts) := .start (site.engine opts) site.flags site.statics

def final : Dumping (site.engine opts) := (site.origin opts).replay site.choices

/-- The kernel admits the schedule. -/
def lawful : Bool := (site.origin opts).lawful site.choices

/-- `write_core_dump_to_fd_options`, where it returns. -/
def writeCoreDumpToFdOptions : Option (Except CoreDumpError Int32) := (site.final opts).result

/-- What reaches the descriptor. -/
def stream : Bytes :=
  match (site.final opts).memory.serialized, (site.final opts).memory.child with
  | some cap, _ => ((site.engine opts).serialize cap).fd.accepted
  | none, .none => []
  | none, _ => site.fragment

/-- What the pre-dump callback returned, each time it was invoked. -/
def callbacks : List Int32 :=
  if opts.callback then List.replicate ((site.origin opts).invocations site.choices) site.host.preDump else []

/-- A complete core of the process: what a successful serialization wrote. -/
def Complete (core : Bytes) : Prop :=
  ∃ cap, ((site.engine opts).serialize cap).success = true ∧ core = ((site.engine opts).serialize cap).fd.accepted

variable {site opts}

/-- An error has a number. -/
theorem error_of_lawful (allowed : site.lawful opts = true) {error : CoreDumpError}
    (returned : site.writeCoreDumpToFdOptions opts = some (.error error)) : error.errno ≠ 0 := by
  have sound := Dumping.replay_sound (Dumping.start_sound (site.engine opts) site.flags site.statics) allowed
  rcases sound.result returned with ⟨wrong, _⟩ | ⟨_, same, number, _⟩
  · cases wrong
  · cases same
    exact number

/-- Without a capture, or with a pre-dump callback that declines, no serialization
begins. -/
theorem idle_of_refused (refused : (site.origin opts).invocations site.choices = 0 ∨
    opts.callback = true ∧ site.host.preDump ≠ 0) : (site.final opts).Idle := by
  refine (Dumping.start_idle (site.engine opts) site.flags site.statics).replay (refused.imp_right ?_)
  rintro declines pids
  have set : (site.engine opts).opts.callback = true := by
    rw [Engine.opts, DumpOptions.withFrame]
    split
    · exact declines.1
    · exact declines.1
  refine ⟨.callbackAborted, ?_⟩
  rw [Engine.capture, captureDump, if_pos ⟨set, declines.2⟩]

theorem stream_of_idle (idle : (site.final opts).Idle) : site.stream opts = [] := by
  simp only [stream, idle.serialized, idle.child]

/-- A call that returns a value has written a complete core, after one capture that
the pre-dump callback did not decline. -/
theorem ok_of_lawful (allowed : site.lawful opts = true) {rc : Int32}
    (returned : site.writeCoreDumpToFdOptions opts = some (.ok rc)) :
    rc = 0 ∧ site.Complete opts (site.stream opts) ∧ (site.origin opts).invocations site.choices = 1 ∧
      (opts.callback = true → site.host.preDump = 0) := by
  have sound := Dumping.replay_sound (Dumping.start_sound (site.engine opts) site.flags site.statics) allowed
  rcases sound.result returned with ⟨equal, succeeded⟩ | ⟨_, wrong, _⟩
  · cases equal
    refine ⟨rfl, ?_, ?_, ?_⟩
    · obtain ⟨cap, present, success⟩ := succeeded
      have here : (site.final opts).memory.serialized = some cap := present
      exact ⟨cap, success, by simp only [stream, here]⟩
    · have most := Dumping.invocations_le_one (site.origin opts) site.choices
      have some : (site.origin opts).invocations site.choices ≠ 0 := fun none =>
        (idle_of_refused (.inl none)).fails succeeded
      omega
    · intro set
      by_contra declines
      exact (idle_of_refused (.inr ⟨set, declines⟩)).fails succeeded
  · cases wrong

end Site

end Corus.Dump
