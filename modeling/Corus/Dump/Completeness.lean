import Corus.Dump.Outcome

/-!
# Completeness of a capture

Whether every thread that the lister suspended reaches the core. The lister suspends
up to `maxThreads` threads and reports more as an error, but `capture_dump` has room
for the first `maxDumpThreads` only and leaves out the others without a word.
-/

namespace Corus.Dump

open Corus.Logical Corus.Platform Corus.Threads Corus.Elf

section Completeness

variable {arch : Arch}

/-- The state of one thread as it should be captured: the registers that ptrace returned
for it, or those of the caller's frame. -/
structure Captures (host : Host arch) (opts : DumpOptions arch) (pid : Int32) (thread : ThreadState arch) :
    Prop where
  own : thread.pid = pid
  regs : ∃ ptraced, host.gpregs pid = .ok ptraced ∧
    (∀ frame, opts.frame = some (pid, frame) → thread.regs = frameRegs frame ptraced) ∧
    ((∀ frame, opts.frame ≠ some (pid, frame)) → thread.regs = ptraced)
  fpregs : ∀ ptraced, host.fpregs pid = .ok ptraced → thread.fpregs = ptraced

/-- A capture with one entry for each listed thread, in order, and the main index at
the main thread if that is listed. -/
structure Complete (host : Host arch) (opts : DumpOptions arch) (mainPid : Int32) (pids : List Int32)
    (cap : CapturedDump arch) : Prop where
  threads : List.Forall₂ (Captures host opts) pids cap.threads
  mainIdx : ∀ index : Nat, pids[index]? = some mainPid → cap.mainIdx = index

variable {host : Host arch} {opts : DumpOptions arch} {mainPid : Int32}

theorem captureThread_captures {pid : Int32} {thread : ThreadState arch}
    (captured : captureThread host opts pid = .ok thread) : Captures host opts pid thread := by
  simp only [captureThread] at captured
  split at captured
  · cases captured
  rename_i ptraced granted
  cases captured
  refine ⟨rfl, ⟨ptraced, granted, ?_, ?_⟩, ?_⟩
  · intro frame given
    simp [given]
  · intro other
    cases frame : opts.frame with
    | none => rfl
    | some given =>
        obtain ⟨tid, regs⟩ := given
        have differs : pid ≠ tid := by
          rintro rfl
          exact other regs frame
        simp [differs]
  · intro fpregs granted
    simp only [granted]

/-- The register loop fails only where ptrace refuses the registers of a thread. -/
theorem captureThreads_of_granted {index mainIdx : Nat} {pids : List Int32}
    (granted : ∀ pid ∈ pids, ∃ regs, host.gpregs pid = .ok regs) :
    ∃ result, captureThreads host opts mainPid index mainIdx pids = .ok result := by
  induction pids generalizing index mainIdx with
  | nil => exact ⟨_, rfl⟩
  | cons pid rest ih =>
      obtain ⟨regs, own⟩ := granted pid List.mem_cons_self
      obtain ⟨others, ran⟩ := @ih (index + 1) (if pid = mainPid then index else mainIdx)
        fun other member => granted other (List.mem_cons_of_mem _ member)
      simp only [captureThreads, captureThread, own, ran]
      exact ⟨_, rfl⟩

theorem captureThreads_refused {index mainIdx : Nat} {pids : List Int32} {pid : Int32} (member : pid ∈ pids)
    {errno : Errno} (refused : host.gpregs pid = .error errno) (result : List (ThreadState arch) × Nat) :
    captureThreads host opts mainPid index mainIdx pids ≠ .ok result := by
  intro captured
  obtain ⟨each, _⟩ := captureThreads_ok captured
  obtain ⟨position, inside, rfl⟩ := List.mem_iff_getElem.mp member
  have own := each.get inside (each.length_eq ▸ inside)
  obtain ⟨ptraced, granted, _⟩ := (captureThread_captures own).regs
  rw [List.get_eq_getElem] at granted
  rw [refused] at granted
  cases granted

/-- The main index is where the main thread is listed. -/
theorem captureThreads_mainIdx {index mainIdx last position : Nat} {pids : List Int32}
    {threads : List (ThreadState arch)} (distinct : pids.Nodup) (listed : pids[position]? = some mainPid)
    (captured : captureThreads host opts mainPid index mainIdx pids = .ok (threads, last)) :
    last = index + position := by
  induction pids generalizing index mainIdx position threads with
  | nil => cases listed
  | cons pid rest ih =>
      obtain ⟨first, later⟩ := List.nodup_cons.mp distinct
      simp only [captureThreads] at captured
      split at captured
      · cases captured
      split at captured
      · cases captured
      rename_i others final others_ok
      cases captured
      cases position with
      | zero =>
          cases listed
          rw [if_pos rfl] at others_ok
          exact (captureThreads_ok others_ok).2 first
      | succ position =>
          rw [ih later listed others_ok]
          omega

/-- The capture of a list that fits is complete. -/
theorem captureDump_complete {pids : List Int32} {cap : CapturedDump arch} (distinct : pids.Nodup)
    (fits : pids.length ≤ maxDumpThreads) (captured : captureDump host pids mainPid opts = .ok cap) :
    Complete host opts mainPid pids cap := by
  unfold captureDump at captured
  rw [List.take_of_length_le fits] at captured
  split at captured
  · cases captured
  split at captured
  · cases captured
  rename_i threads mainIdx registers
  cases captured
  refine ⟨(captureThreads_ok registers).1.imp fun _ _ => captureThread_captures, ?_⟩
  intro index listed
  have found := captureThreads_mainIdx distinct listed registers
  rwa [Nat.zero_add] at found

/-- Completeness of captures. Whatever threads the lister hands over, in whatever order,
a successful capture holds all of them exactly if there are no more than the capture has
room for, or the capture fails for another reason: the pre-dump callback refuses, or
ptrace refuses the registers of one of the threads that are captured. -/
theorem captureDump_complete_iff (host : Host arch) (opts : DumpOptions arch) (mainPid : Int32)
    (pids : List Int32) (distinct : pids.Nodup) :
    (∀ cap, captureDump host pids mainPid opts = .ok cap → Complete host opts mainPid pids cap) ↔
      pids.length ≤ maxDumpThreads ∨ (opts.callback = true ∧ host.preDump ≠ 0) ∨
        ∃ pid ∈ pids.take maxDumpThreads, ∃ errno, host.gpregs pid = .error errno := by
  constructor
  · intro complete
    by_contra neither
    simp only [not_or, not_exists, not_and] at neither
    obtain ⟨many, goesOn, granted⟩ := neither
    have registers : ∀ pid ∈ pids.take maxDumpThreads, ∃ regs, host.gpregs pid = .ok regs := by
      intro pid member
      cases answer : host.gpregs pid with
      | ok regs => exact ⟨regs, rfl⟩
      | error errno => exact absurd answer (granted pid member errno)
    obtain ⟨⟨threads, mainIdx⟩, ran⟩ := @captureThreads_of_granted arch host opts mainPid 0 0 _ registers
    have captured : captureDump host pids mainPid opts =
        .ok ⟨threads, mainIdx, readAuxv host, buildPrpsinfo host mainPid, mainPid⟩ := by
      have accepted : ¬ (opts.callback = true ∧ host.preDump ≠ 0) := fun refuses => goesOn refuses.1 refuses.2
      simp only [captureDump, accepted, if_false, ran]
    -- The capture has entries for the first threads only.
    have held := (complete _ captured).threads.length_eq
    have taken := (captureThreads_ok ran).1.length_eq
    rw [List.length_take] at taken
    simp only at held
    omega
  · rintro (fits | ⟨asked, refused⟩ | ⟨pid, member, errno, refused⟩) cap captured
    · exact captureDump_complete distinct fits captured
    · simp [captureDump, asked, refused] at captured
    · unfold captureDump at captured
      split at captured
      · cases captured
      split at captured
      · cases captured
      rename_i threads mainIdx ran
      exact absurd ran (captureThreads_refused member refused _)

end Completeness

theorem captureDump_complete_iff_sample :
    ∃ cap, captureDump sampleHost [100, 101] 101 sampleOptions = .ok cap ∧
      Complete sampleHost sampleOptions 101 [100, 101] cap := by
  refine ⟨_, rfl, ?_⟩
  exact (captureDump_complete_iff sampleHost sampleOptions 101 [100, 101] (by decide)).mpr (.inl (by decide)) _ rfl

/-- Threads 1 to 513. -/
def manyThreads : List Int32 := (List.range 513).map fun number => Int32.ofNat (number + 1)

theorem manyThreads_nodup : manyThreads.Nodup := by
  apply List.Nodup.map_on _ List.nodup_range
  intro first below second other same
  rw [List.mem_range] at below other
  have values := congrArg Int32.toInt same
  rw [Int32.toInt_ofNat_of_lt (by omega), Int32.toInt_ofNat_of_lt (by omega)] at values
  omega

/-- Thread 513 was suspended like the others, and is missing in the capture. -/
theorem captureDump_incomplete : manyThreads.length ≤ maxThreads ∧ manyThreads.Nodup ∧
    ∃ cap, captureDump sampleHost manyThreads 513 sampleOptions = .ok cap ∧
      ¬ Complete sampleHost sampleOptions 513 manyThreads cap := by
  have length : manyThreads.length = 513 := by rw [manyThreads, List.length_map, List.length_range]
  refine ⟨by rw [length]; decide, manyThreads_nodup, ?_⟩
  obtain ⟨⟨threads, mainIdx⟩, ran⟩ := @captureThreads_of_granted .x86_64 sampleHost sampleOptions 513 0 0
    (manyThreads.take maxDumpThreads) fun _ _ => ⟨_, rfl⟩
  refine ⟨⟨threads, mainIdx, readAuxv sampleHost, buildPrpsinfo sampleHost 513, 513⟩, ?_, ?_⟩
  · have accepted : ¬ (sampleOptions.callback = true ∧ sampleHost.preDump ≠ 0) := by decide
    simp only [captureDump, accepted, if_false, ran]
  · intro complete
    have held := complete.threads.length_eq
    have taken := (captureThreads_ok ran).1.length_eq
    rw [List.length_take, length] at taken
    simp only [length] at held
    rw [show min maxDumpThreads 513 = 512 from rfl] at taken
    omega

end Corus.Dump
