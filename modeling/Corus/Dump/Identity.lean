import Corus.Dump.Outcome
import Corus.Dump.Written
import Corus.Threads.Scan

/-!
# Whose identity a core carries

A core shows the threads in the order in which the lister recorded them, started
at the main one, and the process that `getpid` and `getppid` tell in the lister.
The lister is a process of its own and never records itself, so the search for
the main thread finds nothing.
-/

namespace Corus.Dump

open Corus.Logical Corus.Platform Corus.Output Corus.Elf Corus.Threads

section Origin

variable {arch : Arch} (engine : Engine arch)

/-- A position of the callback comes from the capture of these threads. -/
def DumpPosition.From (pids : List Int32) : DumpPosition arch → Prop
  | .capture listed => listed = pids
  | .fork cap | .inline cap => engine.capture pids = .ok cap
  | .publishChild _ | .provisional => True

end Origin

/-- The thread that called the public API, as `opts.frame` records it. -/
def Engine.requester {arch : Arch} (engine : Engine arch) : Int32 :=
  (engine.opts.frame.map Prod.fst).getD 0

namespace Dumping

variable {arch : Arch} {engine : Engine arch} {state next : Dumping engine}

/-- Every capture in the memory of the parties is the capture of the threads that
the lister has recorded, of which it is none itself. -/
structure Originated (state : Dumping engine) : Prop where
  scanned : state.lister.Scanned
  started : state.lister.pc = .gettid → state.lister.pids = []
  foreign : state.lister.cloneTid ∉ state.lister.pids
  position : ∀ position, state.lister.pc = .callback position → position.From engine state.lister.pids
  child : ∀ pid cap, state.memory.child = .running pid cap → engine.capture state.lister.pids = .ok cap
  serialized : ∀ cap, state.memory.serialized = some cap → engine.capture state.lister.pids = .ok cap

theorem Originated.initial (start : Initial state) : state.Originated where
  scanned := Lister.Scanned.initial start.lister
  started _ := start.lister.pids
  foreign := by simp [start.lister.pids]
  position position here := by
    rw [start.lister.pc] at here
    cases here
  child pid cap running := by simp [start.memory, DumpMemory.initial] at running
  serialized cap present := by simp [start.memory, DumpMemory.initial] at present

/-- A lister that is at work keeps the channels honest. -/
theorem Sound.honest (sound : Sound 0 state) (cloned : state.cloned = true)
    (alive : state.lister.ending = none) : Honest engine 0 state.lister := by
  unfold Sound at sound
  cases reached : stage state.caller.pc with
  | before =>
      simp only [reached] at sound
      exact absurd (sound.1.symm.trans cloned) (by decide)
  | waiting =>
      simp only [reached] at sound
      exact sound.2
  | reported result =>
      simp only [reached] at sound
      obtain ⟨uncloned | ended, _⟩ := sound
      · exact absurd (uncloned.symm.trans cloned) (by decide)
      · exact absurd alive ended

/-- What the callback makes of a capture it holds, it makes of that capture. -/
theorem Originated.callbackStep (origin : state.Originated) {position : DumpPosition arch}
    (here : state.lister.pc = .callback position) (reply : Reply) :
    Originated { state with lister := state.lister.step reply } := by
  obtain ⟨scanned, _, foreign, held, child, serialized⟩ := origin
  have after := scanned.step reply
  have source := held position here
  simp only [Lister.step, here, dumpCallback] at after ⊢
  cases position with
  | capture listed =>
      cases (source : listed = state.lister.pids)
      simp only [dumpCallbackStep] at after ⊢
      cases captured : engine.capture state.lister.pids with
      | error error =>
          simp only [captured] at after
          exact ⟨after, by simp, foreign, by simp, child, serialized⟩
      | ok cap =>
          simp only [captured] at after
          cases strategy : engine.opts.strategy <;> simp only [strategy] at after
          · refine ⟨after, by simp, foreign, ?_, child, serialized⟩
            rintro later ⟨rfl⟩
            exact captured
          · refine ⟨after, by simp, foreign, ?_, child, serialized⟩
            rintro later ⟨rfl⟩
            exact captured
  | fork cap =>
      cases reply with
      | ok answer =>
          refine ⟨after, by simp [dumpCallbackStep], foreign, ?_, ?_, serialized⟩
          · rintro later ⟨rfl⟩
            exact trivial
          · rintro pid other ⟨rfl⟩
            exact source
      | error errno =>
          refine ⟨after, by simp [dumpCallbackStep], foreign, ?_, child, serialized⟩
          rintro later ⟨rfl⟩
          exact source
  | publishChild pid =>
      refine ⟨after, by simp [dumpCallbackStep], foreign, ?_, child, serialized⟩
      rintro later ⟨rfl⟩
      exact trivial
  | provisional => exact ⟨after, by simp [dumpCallbackStep], foreign, by simp [dumpCallbackStep], child, serialized⟩
  | inline cap =>
      refine ⟨after, by simp [dumpCallbackStep], foreign, by simp [dumpCallbackStep], child, ?_⟩
      rintro other ⟨rfl⟩
      exact source

/-- A step of the lister. While threads are recorded no capture has been made. -/
theorem Originated.listerStep (origin : state.Originated) (sound : Sound 0 state) (cloned : state.cloned = true)
    (reply : Reply) : Originated { state with lister := state.lister.step reply } := by
  have after := origin.scanned.step reply
  rcases state.lister.step_involved reply with start | ⟨pid, record⟩ | close | ⟨position, here⟩ | uninvolved
  · obtain ⟨pids, memory, elsewhere⟩ : (state.lister.step reply).pids = state.lister.pids ∧
        (state.lister.step reply).memory = state.lister.memory ∧
        ∀ position, (state.lister.step reply).pc ≠ .callback position := by
      cases reply <;> simp [Lister.step, start, Lister.fail]
    have none := pids.trans (origin.started start)
    refine ⟨after, fun _ => none, by simp [none], fun position here => absurd here (elsewhere position), ?_, ?_⟩
    · simp only [Dumping.memory, memory, pids]
      exact origin.child
    · simp only [Dumping.memory, memory, pids]
      exact origin.serialized
  · have early : state.memory = .initial := by
      have honest := sound.honest cloned (by simp [Lister.ending, record])
      simp only [Honest, record, Channels] at honest
      exact honest.2
    have other : pid ≠ state.lister.cloneTid := by
      have viewing := origin.scanned
      simp only [Lister.Scanned, record, Pc.scanPhase, ScanView.Holds] at viewing
      exact viewing.2.2.2.1
    simp only [Lister.step, record] at after ⊢
    refine ⟨after, by simp, ?_, by simp, ?_, ?_⟩
    · simp only [List.mem_append, List.mem_singleton, not_or]
      exact ⟨origin.foreign, other.symm⟩
    · intro child cap running
      exact absurd (show state.memory.child = .running child cap from running) (by simp [early, DumpMemory.initial])
    · intro cap present
      exact absurd (show state.memory.serialized = some cap from present) (by simp [early, DumpMemory.initial])
  · simp only [Lister.step, close] at after ⊢
    refine ⟨after, by split <;> simp, origin.foreign, ?_, origin.child, origin.serialized⟩
    intro position here
    split at here
    · cases here
      rfl
    · cases here
  · exact origin.callbackStep here reply
  · refine ⟨after, fun start => absurd start uninvolved.later, ?_,
      fun position here => absurd here (uninvolved.position position), ?_, ?_⟩
    · simp only [uninvolved.cloneTid, uninvolved.pids]
      exact origin.foreign
    · simp only [Dumping.memory, uninvolved.memory, uninvolved.pids]
      exact origin.child
    · simp only [Dumping.memory, uninvolved.memory, uninvolved.pids]
      exact origin.serialized

/-- Every step of every party keeps the captures. -/
theorem Originated.step {event : Event} (origin : state.Originated) (sound : Sound 0 state)
    (transition : Step state event next) : next.Originated := by
  cases transition with
  | caller answered =>
      exact ⟨origin.scanned, origin.started, origin.foreign, origin.position, origin.child, origin.serialized⟩
  | lister cloned answered => exact origin.listerStep sound cloned _
  | child ends =>
      refine ⟨origin.scanned, origin.started, origin.foreign, origin.position, ?_, ?_⟩
      · intro pid cap running
        cases ends <;> cases running
      · intro cap present
        cases ends with
        | serialized running =>
            cases present
            exact origin.child _ _ running
        | killed running => exact origin.serialized cap present
  | crash | kill =>
      exact ⟨trivial, by simp [Lister.sigHandler], origin.foreign, by simp [Lister.sigHandler], origin.child,
        origin.serialized⟩

/-- The serialized capture is the one of the recorded threads. -/
theorem Originated.of_reachable (reached : (system engine).Reachable state) : state.Originated := by
  refine @TransitionSystem.Reachable.invariant _ _ _ Originated (fun _ start => Originated.initial start) ?_ _ reached
  intro before event after earlier origin transition
  exact origin.step (Sound.of_reachable earlier) transition

/-- The lister of a process, with the id that `clone` gave it: what it learns about
itself is the identity of a task that was cloned with its flags. -/
structure ListerOf (process : Task) (pid : Int32) (state : Dumping engine) : Prop where
  fresh : pid ≠ process.tgid
  gettid : state.lister.cloneTid = (process.clone listerFlags pid).tid
  getpid : engine.host.getpid = .ok (process.clone listerFlags pid).tgid
  getppid : engine.host.getppid = .ok (process.clone listerFlags pid).ppid

/-- Without `CLONE_THREAD` the lister is a process of its own, a child of the one it dumps. -/
theorem clone_listerFlags (process : Task) (pid : Int32) :
    process.clone listerFlags pid = ⟨pid, pid, process.tgid⟩ := rfl

section Identity

variable {process : Task} {pid : Int32} {cap : CapturedDump arch}

/-- The main thread of the capture is the first one that was recorded. -/
theorem captured_main (reached : (system engine).Reachable state) (task : ListerOf process pid state)
    (dumped : state.memory.serialized = some cap) (nonempty : state.lister.pids ≠ []) :
    ∃ thread ∈ cap.threads, cap.threads[cap.mainIdx]? = some thread ∧
      state.lister.pids.head? = some thread.pid := by
  have origin := Originated.of_reachable reached
  have mainPid : engine.host.mainPid state.lister.pids = state.lister.cloneTid := by
    rw [Host.mainPid, task.getpid, task.gettid]
    rfl
  obtain ⟨each, _, unmoved⟩ := captureDump_ok (origin.serialized cap dumped)
  rw [mainPid] at unmoved
  rw [unmoved origin.foreign]
  obtain ⟨first, rest, recorded⟩ := List.exists_cons_of_ne_nil nonempty
  rw [recorded] at each ⊢
  rcases captured : cap.threads with _ | ⟨thread, others⟩
  · rw [captured] at each
    cases each
  · rw [captured] at each
    obtain ⟨own, _⟩ := List.forall₂_cons.mp each
    exact ⟨thread, List.mem_cons_self, rfl, congrArg _ (captureThread_pid own).symm⟩

/-- What the file shows of its leading thread: something if the core is complete,
and nothing but the first thread that was recorded. -/
theorem leadingThread_written (reached : (system engine).Reachable state) (task : ListerOf process pid state)
    (dumped : state.memory.serialized = some cap) (nonempty : state.lister.pids ≠ []) {file : Bytes}
    (written : (engine.serialize cap).fd.accepted = engine.fd.accepted ++ file) :
    ∃ thread ∈ cap.threads, state.lister.pids.head? = some thread.pid ∧
      ((engine.serialize cap).success = true → engine.opts.maxLength = none →
        leadingThread file = some thread.leading) ∧
      ∀ lead, leadingThread file = some lead → lead = thread.leading := by
  obtain ⟨thread, captured, main, first⟩ := captured_main reached task dumped nonempty
  obtain ⟨left, accepted, begins, complete⟩ :=
    runSerialize_begins engine.kernel engine.proc cap engine.opts engine.fd engine.world
  cases List.append_cancel_left (accepted.symm.trans written)
  refine ⟨thread, captured, first, ?_, ?_⟩
  · intro success unlimited
    exact (complete unlimited success).leadingThread main
  · intro lead found
    exact begins.leadingThread main found

/-- Which thread comes first. In every core that any run leaves, whole or cut, the
first PRSTATUS and PRFPREG notes and the NT_PRXREG note are those of the thread
that called the public API exactly if that thread is the first one the lister
recorded. A complete core has these notes. -/
theorem requester_leads_iff (reached : (system engine).Reachable state) (task : ListerOf process pid state)
    (dumped : state.memory.serialized = some cap) (suspended : engine.requester ∈ state.lister.pids) {file : Bytes}
    (written : (engine.serialize cap).fd.accepted = engine.fd.accepted ++ file) :
    ((engine.serialize cap).success = true → engine.opts.maxLength = none →
        ∃ lead, leadingThread file = some lead) ∧
      ∀ lead, leadingThread file = some lead →
        ((∃ thread ∈ cap.threads, thread.pid = engine.requester ∧ lead = thread.leading) ↔
          state.lister.pids.head? = some engine.requester) := by
  obtain ⟨first, captured, head, complete, shown⟩ :=
    leadingThread_written reached task dumped (List.ne_nil_of_mem suspended) written
  refine ⟨fun success unlimited => ⟨_, complete success unlimited⟩, ?_⟩
  intro lead found
  rw [shown lead found, head]
  constructor
  · rintro ⟨thread, _, requester, same⟩
    rw [ThreadState.pid_of_leading same, requester]
  · intro requester
    exact ⟨first, captured, Option.some.inj requester, rfl⟩

/-- What the file shows of the process: something if the core is complete, and
nothing but the identity of the lister. -/
theorem processInfo_written (reached : (system engine).Reachable state) (task : ListerOf process pid state)
    (dumped : state.memory.serialized = some cap) {file : Bytes}
    (written : (engine.serialize cap).fd.accepted = engine.fd.accepted ++ file) :
    ((engine.serialize cap).success = true → engine.opts.maxLength = none →
        (processInfo file).isSome = true) ∧
      ∀ info, processInfo file = some info → info.prPid = pid ∧ info.prPpid = process.tgid := by
  obtain ⟨left, accepted, begins, complete⟩ :=
    runSerialize_begins engine.kernel engine.proc cap engine.opts engine.fd engine.world
  cases List.append_cancel_left (accepted.symm.trans written)
  obtain ⟨_, prpsinfo, _⟩ := captureDump_ok ((Originated.of_reachable reached).serialized cap dumped)
  refine ⟨?_, ?_⟩
  · intro success unlimited
    rw [(complete unlimited success).processInfo]
    rfl
  · intro info found
    rw [begins.processInfo found, prpsinfo]
    simp [buildPrpsinfo, Host.mainPid, task.getpid, task.getppid, clone_listerFlags, Except.toOption]

/-- Whose process it is. In every core that any run leaves, with either strategy
and any outcome of the fork, the process information names the lister and as its
parent the dumped process, so it never names the dumped process and its parent. A
complete core has process information. -/
theorem processInfo_not_process (reached : (system engine).Reachable state) (task : ListerOf process pid state)
    (dumped : state.memory.serialized = some cap) {file : Bytes}
    (written : (engine.serialize cap).fd.accepted = engine.fd.accepted ++ file) :
    ((engine.serialize cap).success = true → engine.opts.maxLength = none →
        (processInfo file).isSome = true) ∧
      ∀ info, processInfo file = some info → info.prPid = pid ∧ info.prPpid = process.tgid ∧
        ¬ (info.prPid = process.tgid ∧ info.prPpid = process.ppid) := by
  obtain ⟨complete, shown⟩ := processInfo_written reached task dumped written
  refine ⟨complete, ?_⟩
  intro info found
  obtain ⟨prPid, prPpid⟩ := shown info found
  refine ⟨prPid, prPpid, ?_⟩
  rintro ⟨own, _⟩
  exact task.fresh (prPid.symm.trans own)

end Identity

end Dumping

/-- Process 100, whose parent is 1. -/
def sampleProcess : Task := ⟨100, 100, 1⟩

theorem sampleEnd_listerOf : sampleEnd.ListerOf sampleProcess 102 :=
  ⟨by decide, by decide +kernel, rfl, rfl⟩

theorem requester_leads_iff_sample : sampleEnd.lister.pids.head? = some sampleEngine.requester ∧
    ∃ file lead, (sampleEngine.serialize sampleCaptured).fd.accepted = file ∧ leadingThread file = some lead ∧
      ∃ thread ∈ sampleCaptured.threads, thread.pid = 100 ∧ lead = thread.leading := by
  have first : sampleEnd.lister.pids.head? = some sampleEngine.requester := by decide +kernel
  obtain ⟨file, written, _⟩ := runSerialize_begins sampleEngine.kernel sampleEngine.proc sampleCaptured
    sampleEngine.opts sampleEngine.fd sampleEngine.world
  obtain ⟨complete, leads⟩ := Dumping.requester_leads_iff sampleEnd_reachable sampleEnd_listerOf
    (show sampleEnd.memory.serialized = some sampleCaptured from rfl) (List.mem_of_head? first) written
  obtain ⟨lead, found⟩ := complete (runSerialize_sample _ rfl) rfl
  exact ⟨first, file, lead, written, found, (leads lead found).mpr first⟩

/-- A worker thread, 101, calls the public API. -/
def workerEngine : Engine .x86_64 := { sampleEngine with gettid := .ok 101 }

open Lister in
/-- The lister suspends both threads of the process, the leading one first. -/
def workerEvents : List Event :=
  [Event.caller (succeeds 4096 0), .caller (succeeds 1 0), .caller (succeeds 0 0), .caller (succeeds 102 0)] ++
    (setupReplies ++ suspendReplies ++ suspendReplies ++
      [succeeds 0 0, succeeds 0 0, succeeds 0 0, twoThreads] ++ List.replicate 16 (succeeds 0 0)).map Event.lister ++
    List.replicate 5 (Event.caller (succeeds 0 0))

def workerStart : Dumping workerEngine where
  caller := ⟨.mmap, 0, 0, ⟨1, 0⟩, []⟩
  cloned := false
  lister := { Lister.newborn with pc := .gettid, memory := DumpMemory.initial }

def workerEnd : Dumping workerEngine := workerEvents.foldl Dumping.perform workerStart

theorem workerEnd_reachable : (Dumping.system workerEngine).Reachable workerEnd :=
  ⟨workerStart, workerEvents, ⟨rfl, rfl, rfl, ⟨rfl, rfl, rfl, rfl, rfl, rfl, rfl⟩, rfl, rfl⟩,
    Dumping.steps_perform (by decide +kernel : workerStart.ordinaryRun workerEvents = true)⟩

/-- What is captured of threads 100 and 101. -/
def workerCaptured : CapturedDump .x86_64 := (workerEngine.capture [100, 101]).toOption.getD sampleCapture

theorem workerEnd_listerOf : workerEnd.ListerOf sampleProcess 102 :=
  ⟨by decide, by decide +kernel, rfl, rfl⟩

/-- The core that worker thread 101 asks for starts with thread 100. -/
theorem requester_leads_worker : (Dumping.system workerEngine).Reachable workerEnd ∧
    workerEnd.ListerOf sampleProcess 102 ∧ workerEngine.requester = 101 ∧ 101 ∈ workerEnd.lister.pids ∧
    workerEnd.caller.pc = .returned (.ok 0) ∧ workerEnd.memory.serialized = some workerCaptured ∧
    (workerEngine.serialize workerCaptured).success = true ∧
    ∃ file lead, (workerEngine.serialize workerCaptured).fd.accepted = file ∧ leadingThread file = some lead ∧
      ¬ ∃ thread ∈ workerCaptured.threads, thread.pid = 101 ∧ lead = thread.leading := by
  have serialized : workerEnd.memory.serialized = some workerCaptured := rfl
  have pids : workerEnd.lister.pids = [100, 101] := by decide +kernel
  have success : (workerEngine.serialize workerCaptured).success = true := runSerialize_sample _ rfl
  obtain ⟨file, written, _⟩ := runSerialize_begins workerEngine.kernel workerEngine.proc workerCaptured
    workerEngine.opts workerEngine.fd workerEngine.world
  obtain ⟨first, _, head, complete, _⟩ := Dumping.leadingThread_written workerEnd_reachable workerEnd_listerOf
    serialized (by simp [pids]) written
  refine ⟨workerEnd_reachable, workerEnd_listerOf, rfl, by simp [pids], by decide +kernel, serialized, success,
    file, first.leading, written, complete success rfl, ?_⟩
  rintro ⟨thread, _, requester, same⟩
  rw [pids, ThreadState.pid_of_leading same, requester] at head
  exact absurd head (by decide)

theorem processInfo_not_process_sample : ∃ file info,
    (sampleEngine.serialize sampleCaptured).fd.accepted = file ∧ processInfo file = some info ∧
      info.prPid = 102 ∧ info.prPpid = 100 := by
  obtain ⟨file, written, _⟩ := runSerialize_begins sampleEngine.kernel sampleEngine.proc sampleCaptured
    sampleEngine.opts sampleEngine.fd sampleEngine.world
  obtain ⟨complete, shown⟩ := Dumping.processInfo_not_process sampleEnd_reachable sampleEnd_listerOf
    (show sampleEnd.memory.serialized = some sampleCaptured from rfl) written
  obtain ⟨info, found⟩ := Option.isSome_iff_exists.mp (complete (runSerialize_sample _ rfl) rfl)
  exact ⟨file, info, written, found, (shown info found).1, (shown info found).2.1⟩

/-- The core of process 100 with parent 1 does not say so. -/
theorem processInfo_lister : (Dumping.system sampleEngine).Reachable sampleEnd ∧
    sampleEnd.ListerOf sampleProcess 102 ∧ sampleEnd.memory.serialized = some sampleCaptured ∧
    (sampleEngine.serialize sampleCaptured).success = true ∧ ∃ file info,
      (sampleEngine.serialize sampleCaptured).fd.accepted = file ∧ processInfo file = some info ∧
      ¬ (info.prPid = 100 ∧ info.prPpid = 1) := by
  have serialized : sampleEnd.memory.serialized = some sampleCaptured := rfl
  have success : (sampleEngine.serialize sampleCaptured).success = true := runSerialize_sample _ rfl
  obtain ⟨file, written, _⟩ := runSerialize_begins sampleEngine.kernel sampleEngine.proc sampleCaptured
    sampleEngine.opts sampleEngine.fd sampleEngine.world
  obtain ⟨complete, shown⟩ :=
    Dumping.processInfo_written sampleEnd_reachable sampleEnd_listerOf serialized written
  obtain ⟨info, found⟩ := Option.isSome_iff_exists.mp (complete success rfl)
  refine ⟨sampleEnd_reachable, sampleEnd_listerOf, serialized, success, file, info, written, found, ?_⟩
  rintro ⟨prPid, _⟩
  rw [(shown info found).1] at prPid
  exact absurd prPid (by decide)

end Corus.Dump
