import Mathlib.Data.List.TakeWhile
import Corus.Memory.Probe

/-!
# The discipline of the loopback pipe

Every probe relies on the pipe being empty when it starts. `readMemory_answered` says what
one call of `read_memory` does with a pipe that is: it never asks for bytes that are not
there, and unless a call on the read end fails it leaves the pipe as it was.
-/

namespace Corus.Memory

open Corus.Logical Corus.Platform

/-! ## The calls on the read end -/

/-- A system call on the read end of the pipe: a `read`, with what it asks for, what is
queued when it does and the flag, or an `fcntl`. -/
inductive PipeCall where
  | read (asked queued : Nat) (nonblocking failed : Bool)
  | statusFlags (failed : Bool)
deriving DecidableEq, Repr

/-- The call failed, for another reason than an empty pipe. -/
def PipeCall.failed : PipeCall → Bool
  | .read _ _ _ failed => failed
  | .statusFlags failed => failed

/-- A blocking read asks only for bytes that are queued already. -/
def PipeCall.Prompt : PipeCall → Prop
  | .read asked queued nonblocking _ => nonblocking = false → asked ≤ queued
  | .statusFlags _ => True

/-- The call of `c_read` for a positive length. -/
def readCall (kernel : Kernel) (len : Nat) (world : World) : PipeCall :=
  .read len world.pipe.queued.length world.pipe.nonblocking (!(kernel.pipeRead world.clock).retry.isOk)

/-- The call of `setNonblocking`. -/
def statusCall (kernel : Kernel) (world : World) : PipeCall :=
  .statusFlags (kernel.statusFlags world.clock).isSome

/-- The calls of `drain`. -/
def drainCalls (kernel : Kernel) : Nat → Nat → World → List PipeCall
  | 0, _, _ => []
  | fuel + 1, remaining, world =>
      if remaining = 0 then []
      else
        readCall kernel remaining world ::
          match cRead kernel remaining world with
          | (.ok (byte :: bytes), world) => drainCalls kernel fuel (remaining - (byte :: bytes).length) world
          | _ => []

/-- The calls of `discard`. -/
def discardCalls (kernel : Kernel) : Nat → World → List PipeCall
  | 0, _ => []
  | fuel + 1, world =>
      readCall kernel 1 world ::
        match cRead kernel 1 world with
        | (.ok (_ :: _), world) => discardCalls kernel fuel world
        | _ => []

/-- The calls of `clear_probe_slots`. -/
def clearProbeSlotsCalls (kernel : Kernel) (world : World) : List PipeCall :=
  statusCall kernel world ::
    match kernel.statusFlags world.clock with
    | some _ => []
    | none =>
        statusCall kernel world.tick ::
          match setNonblocking kernel true world.tick with
          | (.error _, _) => []
          | (.ok (), world) =>
              discardCalls kernel (world.pipe.queued.length + 1) world ++
                [statusCall kernel (discard kernel (world.pipe.queued.length + 1) world).2]

/-- The calls of `read_memory` on the read end. -/
def readMemoryCalls (kernel : Kernel) (mem : Nat) (scratch : Bytes) (world : World) : List PipeCall :=
  match writeMemoryProbe kernel mem scratch.length world with
  | (.error errno, world) => if errno = .efault then clearProbeSlotsCalls kernel world else []
  | (.ok wrote, world) =>
      drainCalls kernel wrote wrote world ++
        match drain kernel wrote wrote world with
        | (.error _, _, _) => []
        | (.ok (), _, world) =>
            if wrote < scratch.length then clearProbeSlotsCalls kernel world else []

/-! ## The pipe discipline -/

/-- What a pipe promises, whatever else the kernel does: only a faulted probe leaves empty
slots behind, `fcntl` does not fail with `EFAULT`, and a `read` fails with `EAGAIN` only for
an empty pipe and never with `EFAULT`. -/
structure Loopback (kernel : Kernel) : Prop where
  wholeSlots : ∀ clock address count queued, (kernel.probe clock address count).result.outcome = .ok queued →
    count ≤ queued → (kernel.probe clock address count).result.emptySlots = 0
  refusedSlots : ∀ clock address count errno, (kernel.probe clock address count).result.outcome = .error errno →
    errno ≠ .efault → (kernel.probe clock address count).result.emptySlots = 0
  statusErrors : ∀ clock, kernel.statusFlags clock ≠ some .efault
  readErrors : ∀ clock errno, (kernel.pipeRead clock).result = .error errno → errno ≠ .efault ∧ errno ≠ .eagain

/-- A call on the read end failed, and with it what made it. -/
structure Broken (kernel : Kernel) (calls : List PipeCall) (errno : Errno) : Prop where
  other : errno ≠ .efault
  call : ∃ call ∈ calls, call.failed = true
  cause : ∃ clock failure, (kernel.pipeRead clock).result = .error failure ∨ kernel.statusFlags clock = some failure

theorem Broken.mono {kernel : Kernel} {calls more : List PipeCall} {errno : Errno}
    (broken : Broken kernel calls errno) (among : calls ⊆ more) : Broken kernel more errno := by
  obtain ⟨call, member, failed⟩ := broken.call
  exact ⟨broken.other, ⟨call, among member, failed⟩, broken.cause⟩

/-- The pipe and the records of stalls and faults are as before. -/
structure Settles (before after : World) : Prop where
  pipe : after.pipe = before.pipe
  stalled : after.stalled = before.stalled
  faulted : after.faulted = before.faulted

theorem Settles.refl (world : World) : Settles world world := ⟨rfl, rfl, rfl⟩

theorem Settles.trans {first second third : World} (head : Settles first second)
    (tail : Settles second third) : Settles first third :=
  ⟨tail.pipe.trans head.pipe, tail.stalled.trans head.stalled, tail.faulted.trans head.faulted⟩

variable {kernel : Kernel}

theorem readCall_failed {len : Nat} {world : World} {errno : Errno}
    (answer : (kernel.pipeRead world.clock).result = .error errno) :
    (readCall kernel len world).failed = true := by
  simp [PipeCall.failed, readCall, answer, Except.isOk, Except.toBool]

theorem statusCall_failed {world : World} {errno : Errno} (answer : kernel.statusFlags world.clock = some errno) :
    (statusCall kernel world).failed = true := by
  simp [PipeCall.failed, statusCall, answer]

theorem Broken.of_read (loopback : Loopback kernel) {calls : List PipeCall} {len : Nat} {world : World}
    {errno : Errno} (answer : (kernel.pipeRead world.clock).result = .error errno)
    (member : readCall kernel len world ∈ calls) : Broken kernel calls errno :=
  ⟨(loopback.readErrors _ _ answer).1, ⟨_, member, readCall_failed answer⟩, world.clock, errno, .inl answer⟩

theorem Broken.of_status (loopback : Loopback kernel) {calls : List PipeCall} {world : World}
    {errno : Errno} (answer : kernel.statusFlags world.clock = some errno)
    (member : statusCall kernel world ∈ calls) : Broken kernel calls errno := by
  refine ⟨?_, ⟨_, member, statusCall_failed answer⟩, world.clock, errno, .inr answer⟩
  rintro rfl
  exact loopback.statusErrors _ answer

/-- A read of queued bytes fails, or delivers a non-empty prefix; it cannot block. -/
theorem cRead_queued (kernel : Kernel) {len : Nat} {world : World} (asked : 0 < len) (queued : world.pipe.queued ≠ []) :
    (∃ errno, (kernel.pipeRead world.clock).result = .error errno ∧
      cRead kernel len world = (.error errno, world.tick)) ∨
    ∃ taken, 0 < taken ∧ taken ≤ len ∧ taken ≤ world.pipe.queued.length ∧
      cRead kernel len world = (.ok (world.pipe.queued.take taken),
        { world.tick with pipe := { world.pipe with queued := world.pipe.queued.drop taken } }) := by
  have nonzero : len ≠ 0 := by omega
  cases answer : (kernel.pipeRead world.clock).result with
  | error errno =>
      refine .inl ⟨errno, rfl, ?_⟩
      simp only [cRead, nonzero, if_false, Response.retry_eq, answer]
  | ok count =>
      have present : 0 < world.pipe.queued.length := List.length_pos_iff.mpr queued
      refine .inr ⟨max 1 (min count (min len world.pipe.queued.length)), by omega, by omega, by omega, ?_⟩
      simp only [cRead, nonzero, if_false, Response.retry_eq, answer, queued]

/-- A round of the drain loop that read something. -/
theorem drain_of_read {fuel remaining : Nat} {world middle : World} {bytes : Bytes}
    (asked : 0 < remaining) (some : 0 < bytes.length) (read : cRead kernel remaining world = (.ok bytes, middle)) :
    drain kernel (fuel + 1) remaining world =
        ((drain kernel fuel (remaining - bytes.length) middle).1,
          bytes ++ (drain kernel fuel (remaining - bytes.length) middle).2.1,
          (drain kernel fuel (remaining - bytes.length) middle).2.2) ∧
      drainCalls kernel (fuel + 1) remaining world =
        readCall kernel remaining world :: drainCalls kernel fuel (remaining - bytes.length) middle := by
  have nonzero : remaining ≠ 0 := by omega
  obtain ⟨byte, more, rfl⟩ := List.exists_cons_of_length_pos some
  constructor
  · simp only [drain, nonzero, if_false, read]
  · simp only [drainCalls, nonzero, if_false, read]

/-- What draining comes to: all that is queued, or an error of a `read`. -/
inductive Drains (kernel : Kernel) (world : World) (calls : List PipeCall) :
    Except Errno Unit × Bytes × World → Prop where
  | whole (after : World) (pipe : after.pipe = { world.pipe with queued := [] })
      (stalled : after.stalled = world.stalled) : Drains kernel world calls (.ok (), world.pipe.queued, after)
  | failed (errno : Errno) (bytes : Bytes) (after : World) (broken : Broken kernel calls errno)
      (stalled : after.stalled = world.stalled) : Drains kernel world calls (.error errno, bytes, after)

/-- There is nothing to drain from an empty pipe. -/
theorem drain_empty (kernel : Kernel) (fuel : Nat) {world : World} (empty : world.pipe.queued = []) :
    Drains kernel world (drainCalls kernel fuel world.pipe.queued.length world)
        (drain kernel fuel world.pipe.queued.length world) ∧
      ∀ call ∈ drainCalls kernel fuel world.pipe.queued.length world, call.Prompt := by
  have ran : drain kernel fuel world.pipe.queued.length world = (.ok (), world.pipe.queued, world) := by
    cases fuel <;> simp [drain, empty]
  have calls : drainCalls kernel fuel world.pipe.queued.length world = [] := by
    cases fuel <;> simp [drainCalls, empty]
  rw [ran, calls]
  exact ⟨.whole world (by simp [← empty]) rfl, by simp⟩

/-- Draining exactly what is queued asks for no more than is there. -/
theorem drain_answered (loopback : Loopback kernel) {fuel : Nat} (world : World)
    (enough : world.pipe.queued.length ≤ fuel) :
    Drains kernel world (drainCalls kernel fuel world.pipe.queued.length world)
        (drain kernel fuel world.pipe.queued.length world) ∧
      ∀ call ∈ drainCalls kernel fuel world.pipe.queued.length world, call.Prompt := by
  -- Each round reads a non-empty part of the queue, so the queue is the measure.
  induction fuel generalizing world with
  | zero => exact drain_empty kernel 0 (List.eq_nil_of_length_eq_zero (by omega))
  | succ fuel ih =>
      by_cases empty : world.pipe.queued = []
      · exact drain_empty kernel (fuel + 1) empty
      · have present : 0 < world.pipe.queued.length := List.length_pos_iff.mpr empty
        have nonzero : world.pipe.queued.length ≠ 0 := by omega
        have prompt : (readCall kernel world.pipe.queued.length world).Prompt := fun _ => Nat.le_refl _
        rcases cRead_queued kernel present empty with ⟨errno, answer, read⟩ | ⟨taken, positive, _, bounded, read⟩
        · have calls : drainCalls kernel (fuel + 1) world.pipe.queued.length world =
              [readCall kernel world.pipe.queued.length world] := by
            simp only [drainCalls, nonzero, if_false, read]
          have ran : drain kernel (fuel + 1) world.pipe.queued.length world = (.error errno, [], world.tick) := by
            simp only [drain, nonzero, if_false, read]
          rw [calls, ran]
          exact ⟨.failed errno [] world.tick (.of_read loopback answer (List.mem_singleton_self _)) rfl,
            List.forall_mem_singleton.mpr prompt⟩
        · let middle : World :=
            { world.tick with pipe := { world.pipe with queued := world.pipe.queued.drop taken } }
          have head : (world.pipe.queued.take taken).length = taken := by simp [bounded]
          have left : world.pipe.queued.length - (world.pipe.queued.take taken).length =
              middle.pipe.queued.length := by
            simp [middle, head]
          obtain ⟨ran, calls⟩ := @drain_of_read kernel fuel _ world middle _ present (by omega) read
          rw [left] at ran calls
          obtain ⟨drains, prompts⟩ := ih middle (by omega)
          rw [ran, calls]
          refine ⟨?_, List.forall_mem_cons.mpr ⟨prompt, prompts⟩⟩
          generalize drain kernel fuel middle.pipe.queued.length middle = drained at drains
          cases drains with
          | whole after pipe stalled =>
              have whole := @Drains.whole kernel world (readCall kernel world.pipe.queued.length world ::
                drainCalls kernel fuel middle.pipe.queued.length middle) after pipe stalled
              simpa only [middle, List.take_append_drop] using whole
          | failed errno bytes after broken stalled =>
              exact .failed errno _ after (broken.mono (List.subset_cons_self _ _)) stalled

/-- What clearing an empty pipe comes to: no slots, or an error of a call on the read end. -/
inductive Clears (kernel : Kernel) (world : World) (calls : List PipeCall) : Except Errno Unit × World → Prop where
  | whole (after : World) (pipe : after.pipe = { world.pipe with emptySlots := 0 })
      (stalled : after.stalled = world.stalled) : Clears kernel world calls (.ok (), after)
  | failed (errno : Errno) (after : World) (broken : Broken kernel calls errno)
      (stalled : after.stalled = world.stalled) : Clears kernel world calls (.error errno, after)

/-- Discarding from an empty pipe without blocking takes one call. -/
theorem discard_empty (loopback : Loopback kernel) {fuel : Nat} {world : World}
    (empty : world.pipe.queued = []) (nonblocking : world.pipe.nonblocking = true) :
    discardCalls kernel (fuel + 1) world = [readCall kernel 1 world] ∧
      ∃ drained cleared, discard kernel (fuel + 1) world = (drained, cleared) ∧
        cleared.stalled = world.stalled ∧
        ((∃ errno, (kernel.pipeRead world.clock).result = .error errno ∧ drained = .error errno) ∨
          drained = .ok () ∧ cleared.pipe = { world.pipe with emptySlots := 0 }) := by
  cases answer : (kernel.pipeRead world.clock).result with
  | error errno =>
      have read : cRead kernel 1 world = (.error errno, world.tick) := by
        simp only [cRead, Nat.one_ne_zero, if_false, Response.retry_eq, answer]
      refine ⟨by simp only [discardCalls, read], .error errno, world.tick, ?_, rfl, .inl ⟨errno, rfl, rfl⟩⟩
      simp only [discard, read, (loopback.readErrors _ _ answer).2, if_false]
  | ok count =>
      have read : cRead kernel 1 world =
          (.error .eagain, { world.tick with pipe := { world.pipe with emptySlots := 0 } }) := by
        simp only [cRead, Nat.one_ne_zero, if_false, Response.retry_eq, answer, empty, nonblocking, if_true]
      refine ⟨by simp only [discardCalls, read], .ok (),
        { world.tick with pipe := { world.pipe with emptySlots := 0 } }, ?_, rfl, .inr ⟨rfl, rfl⟩⟩
      simp only [discard, read, if_true]

theorem setNonblocking_done {world : World} (value : Bool) (answer : kernel.statusFlags world.clock = none) :
    ∃ after, setNonblocking kernel value world = (.ok (), after) ∧
      after.pipe = { world.pipe with nonblocking := value } ∧ after.stalled = world.stalled :=
  ⟨{ world.tick with pipe := { world.pipe with nonblocking := value } },
    by simp only [setNonblocking, answer], rfl, rfl⟩

theorem statusCall_prompt (world : World) : (statusCall kernel world).Prompt := trivial

/-- Clearing an empty pipe once the flags are known and set: the read finds nothing, and the
flag is restored. -/
theorem clearProbeSlots_flagged (loopback : Loopback kernel) (world : World) (empty : world.pipe.queued = [])
    (first : kernel.statusFlags world.clock = none) (second : kernel.statusFlags world.tick.clock = none) :
    Clears kernel world (clearProbeSlotsCalls kernel world) (clearProbeSlots kernel world) ∧
      ∀ call ∈ clearProbeSlotsCalls kernel world, call.Prompt := by
  obtain ⟨flagged, set, pipe, stalled⟩ : ∃ flagged, setNonblocking kernel true world.tick = (.ok (), flagged) ∧
      flagged.pipe = { world.pipe with nonblocking := true } ∧ flagged.stalled = world.stalled :=
    setNonblocking_done true second
  have noBytes : flagged.pipe.queued = [] := by rw [pipe, empty]
  obtain ⟨discarding, drained, cleared, discardRan, unstalled, discarded⟩ :=
    @discard_empty kernel loopback flagged.pipe.queued.length flagged noBytes (by rw [pipe])
  rw [stalled] at unstalled
  have calls : clearProbeSlotsCalls kernel world = [statusCall kernel world,
      statusCall kernel world.tick, readCall kernel 1 flagged, statusCall kernel cleared] := by
    simp only [clearProbeSlotsCalls, first, set, discarding, discardRan, List.cons_append, List.nil_append]
  have prompt : ∀ call ∈ clearProbeSlotsCalls kernel world, call.Prompt := by
    rw [calls]
    simp only [List.forall_mem_cons, List.not_mem_nil, false_implies, implies_true, and_true]
    refine ⟨statusCall_prompt _, statusCall_prompt _, ?_, statusCall_prompt _⟩
    intro blocking
    simp [pipe] at blocking
  refine ⟨?_, prompt⟩
  cases third : kernel.statusFlags cleared.clock with
  | some errno =>
      have ran : clearProbeSlots kernel world = (.error errno, cleared.tick) := by
        simp only [clearProbeSlots, first, set, discardRan]
        simp only [setNonblocking, third]
      rw [ran]
      exact .failed errno cleared.tick (.of_status loopback third (by simp [calls])) unstalled
  | none =>
      have ran : clearProbeSlots kernel world =
          (drained, { cleared.tick with
            pipe := { cleared.pipe with nonblocking := world.pipe.nonblocking } }) := by
        simp only [clearProbeSlots, first, set, discardRan]
        simp only [setNonblocking, third]
      rw [ran]
      rcases discarded with ⟨errno, answer, rfl⟩ | ⟨rfl, released⟩
      · have member : readCall kernel 1 flagged ∈ clearProbeSlotsCalls kernel world := by simp [calls]
        exact .failed errno _ (.of_read loopback answer member) unstalled
      · exact .whole _ (by rw [released, pipe]) unstalled

/-- Clearing an empty pipe blocks on nothing, and unless a call fails it releases every
slot and restores the flag. -/
theorem clearProbeSlots_answered (loopback : Loopback kernel) (world : World)
    (empty : world.pipe.queued = []) :
    Clears kernel world (clearProbeSlotsCalls kernel world) (clearProbeSlots kernel world) ∧
      ∀ call ∈ clearProbeSlotsCalls kernel world, call.Prompt := by
  cases first : kernel.statusFlags world.clock with
  | some errno =>
      have calls : clearProbeSlotsCalls kernel world = [statusCall kernel world] := by
        simp only [clearProbeSlotsCalls, first]
      have ran : clearProbeSlots kernel world = (.error errno, world.tick) := by
        simp only [clearProbeSlots, first]
      rw [calls, ran]
      have broken := Broken.of_status loopback first (List.mem_singleton_self _)
      exact ⟨.failed errno world.tick broken rfl, List.forall_mem_singleton.mpr (statusCall_prompt _)⟩
  | none =>
      cases second : kernel.statusFlags world.tick.clock with
      | some errno =>
          have calls : clearProbeSlotsCalls kernel world =
              [statusCall kernel world, statusCall kernel world.tick] := by
            simp only [clearProbeSlotsCalls, first, setNonblocking, second]
          have ran : clearProbeSlots kernel world = (.error errno, world.tick.tick) := by
            simp only [clearProbeSlots, first, setNonblocking, second]
          rw [calls, ran]
          have broken := Broken.of_status loopback second
            (List.mem_cons_of_mem (statusCall kernel world) (List.mem_singleton_self _))
          exact ⟨.failed errno world.tick.tick broken rfl, by simp [statusCall_prompt]⟩
      | none => exact clearProbeSlots_flagged loopback world empty first second

/-- The pipe is ready for a probe of `count` bytes. -/
structure Ready (world : World) (count : Nat) : Prop where
  clean : world.pipe.Clean
  fits : count ≤ world.pipe.capacity

/-- After a settled call the pipe is as ready as it was. -/
theorem Ready.settled {before after : World} {count : Nat} (ready : Ready before count)
    (settled : Settles before after) : Ready after count := by
  obtain ⟨clean, fits⟩ := ready
  exact ⟨by rw [settled.pipe]; exact clean, by rw [settled.pipe]; exact fits⟩

section Call

variable {mem : Nat} {scratch : Bytes} {world : World}

/-- The answer of the kernel to the probe that a call starts with. -/
def probeAnswer (kernel : Kernel) (mem : Nat) (scratch : Bytes) (world : World) : ProbeAnswer :=
  (kernel.probe world.clock mem scratch.length).result

/-- A probe of a ready pipe that fails does not block, and queues nothing. -/
theorem writeMemoryProbe_failed (ready : Ready world scratch.length) {errno : Errno}
    (answer : (probeAnswer kernel mem scratch world).outcome = .error errno) :
    ∃ after, writeMemoryProbe kernel mem scratch.length world = (.error errno, after) ∧
      after.stalled = world.stalled ∧
      after.pipe = { world.pipe with emptySlots := (probeAnswer kernel mem scratch world).emptySlots } := by
  unfold probeAnswer at answer ⊢
  refine ⟨{ world.tick with pipe := { world.pipe with
    emptySlots := (kernel.probe world.clock mem scratch.length).result.emptySlots } }, ?_, rfl, rfl⟩
  simp only [writeMemoryProbe, Response.retry_eq, answer, World.tick, ready.clean.1, ready.clean.2, List.length_nil,
    Nat.zero_mul, Nat.zero_add, Nat.not_lt.mpr ready.fits, decide_false, Bool.or_false]

/-- A probe of a ready pipe that queues something does not block. -/
theorem writeMemoryProbe_queued (ready : Ready world scratch.length) {queued : Nat}
    (answer : (probeAnswer kernel mem scratch world).outcome = .ok queued) :
    ∃ after, writeMemoryProbe kernel mem scratch.length world = (.ok (min queued scratch.length), after) ∧
      after.stalled = world.stalled ∧
      after.pipe = { world.pipe with
        queued := kernel.memoryRange mem (min queued scratch.length)
        emptySlots := (probeAnswer kernel mem scratch world).emptySlots } := by
  unfold probeAnswer at answer ⊢
  refine ⟨{ world.tick with pipe := { world.pipe with
    queued := kernel.memoryRange mem (min queued scratch.length)
    emptySlots := (kernel.probe world.clock mem scratch.length).result.emptySlots } }, ?_, rfl, rfl⟩
  simp only [writeMemoryProbe, Response.retry_eq, answer, World.tick, ready.clean.1, ready.clean.2, List.length_nil,
    Nat.zero_mul, Nat.zero_add, List.nil_append, Nat.not_lt.mpr ready.fits, decide_false, Bool.or_false]

/-- How `read_memory` answers, by the answer that its probe got: it delivers what was
queued, passes the error on, or ends in a failed call on the read end. In all but the last
case the pipe is as it was. -/
inductive Answers (kernel : Kernel) (mem : Nat) (scratch : Bytes) (world : World) (filled : Filled) : Prop where
  | queued (queued : Nat)
      (answer : (probeAnswer kernel mem scratch world).outcome = .ok queued)
      (result : filled.result = .ok (min queued scratch.length))
      (copied : filled.scratch = overwrite scratch 0 (kernel.memoryRange mem (min queued scratch.length)))
      (settled : Settles world filled.world)
  | refused (errno : Errno)
      (answer : (probeAnswer kernel mem scratch world).outcome = .error errno)
      (result : filled.result = .error errno)
      (kept : filled.scratch = scratch)
      (settled : Settles world filled.world)
  | broken (errno : Errno)
      (result : filled.result = .error errno)
      (broken : Broken kernel (readMemoryCalls kernel mem scratch world) errno)

/-- What one call of `read_memory` does with a ready pipe. -/
structure Serves (kernel : Kernel) (mem : Nat) (scratch : Bytes) (world : World) (filled : Filled) : Prop where
  answers : Answers kernel mem scratch world filled
  unstalled : filled.world.stalled = world.stalled
  prompt : ∀ call ∈ readMemoryCalls kernel mem scratch world, call.Prompt

/-- A probe that failed: the error is passed on after the slots of a fault are released. -/
theorem readMemory_failed (loopback : Loopback kernel) (ready : Ready world scratch.length) {errno : Errno}
    (answer : (probeAnswer kernel mem scratch world).outcome = .error errno) :
    Serves kernel mem scratch world (readMemory kernel mem scratch world) := by
  obtain ⟨probed, ran, unstalled, pipe⟩ := writeMemoryProbe_failed ready answer
  have unfaulted := faulted_readMemory kernel world mem scratch
  by_cases fault : errno = .efault
  · subst fault
    have noBytes : probed.pipe.queued = [] := by rw [pipe, ready.clean.1]
    obtain ⟨clears, prompt⟩ := clearProbeSlots_answered loopback probed noBytes
    have calls : readMemoryCalls kernel mem scratch world = clearProbeSlotsCalls kernel probed := by
      simp only [readMemoryCalls, ran, if_true]
    obtain ⟨outcome, cleared, clearRan⟩ : ∃ outcome cleared,
        clearProbeSlots kernel probed = (outcome, cleared) := ⟨_, _, rfl⟩
    rw [clearRan] at clears
    cases clears with
    | whole _ released stalled =>
        have called : readMemory kernel mem scratch world = ⟨.error .efault, scratch, cleared⟩ := by
          simp only [readMemory, ran, if_true, clearRan]
        rw [called] at unfaulted ⊢
        refine ⟨.refused .efault answer rfl rfl ⟨?_, ?_, unfaulted⟩, ?_, calls ▸ prompt⟩
        · rw [released, pipe, ← ready.clean.2]
        · rw [stalled, unstalled]
        · rw [stalled, unstalled]
    | failed failure _ broken stalled =>
        have called : readMemory kernel mem scratch world = ⟨.error failure, scratch, cleared⟩ := by
          simp only [readMemory, ran, if_true, clearRan]
        rw [called]
        exact ⟨.broken failure rfl (calls ▸ broken), by rw [stalled, unstalled], calls ▸ prompt⟩
  · have noSlots := loopback.refusedSlots _ _ _ _ answer fault
    have called : readMemory kernel mem scratch world = ⟨.error errno, scratch, probed⟩ := by
      simp only [readMemory, ran, fault, if_false]
    have calls : readMemoryCalls kernel mem scratch world = [] := by
      simp only [readMemoryCalls, ran, fault, if_false]
    rw [called] at unfaulted ⊢
    refine ⟨.refused errno answer rfl rfl ⟨?_, unstalled, unfaulted⟩, unstalled, by simp [calls]⟩
    rw [pipe, probeAnswer, noSlots, ← ready.clean.2]

/-- The state of a call when all that its probe queued has been drained. -/
structure Drained (kernel : Kernel) (mem : Nat) (scratch : Bytes) (world : World) (queued wrote : Nat)
    (probed drained : World) : Prop where
  answer : (probeAnswer kernel mem scratch world).outcome = .ok queued
  wroteEq : wrote = min queued scratch.length
  probeRan : writeMemoryProbe kernel mem scratch.length world = (.ok wrote, probed)
  drainRan : drain kernel wrote wrote probed = (.ok (), kernel.memoryRange mem wrote, drained)
  prompt : ∀ call ∈ drainCalls kernel wrote wrote probed, call.Prompt
  pipe : drained.pipe = { world.pipe with emptySlots := (probeAnswer kernel mem scratch world).emptySlots }
  stalled : drained.stalled = world.stalled

/-- After a short probe the slots are released. -/
theorem Drained.short {queued wrote : Nat} {probed drained : World} (loopback : Loopback kernel)
    (ready : Ready world scratch.length) (state : Drained kernel mem scratch world queued wrote probed drained)
    (short : wrote < scratch.length) : Serves kernel mem scratch world (readMemory kernel mem scratch world) := by
  obtain ⟨answer, wroteEq, ran, drainRan, drainPrompt, pipe, unstalled⟩ := state
  have noBytes : drained.pipe.queued = [] := by rw [pipe, ready.clean.1]
  obtain ⟨clears, clearPrompt⟩ := clearProbeSlots_answered loopback drained noBytes
  have calls : readMemoryCalls kernel mem scratch world =
      drainCalls kernel wrote wrote probed ++ clearProbeSlotsCalls kernel drained := by
    simp only [readMemoryCalls, ran, drainRan, short, if_true]
  have prompt : ∀ call ∈ readMemoryCalls kernel mem scratch world, call.Prompt := by
    rw [calls]
    exact List.forall_mem_append.mpr ⟨drainPrompt, clearPrompt⟩
  obtain ⟨outcome, cleared, clearRan⟩ : ∃ outcome cleared,
      clearProbeSlots kernel drained = (outcome, cleared) := ⟨_, _, rfl⟩
  rw [clearRan] at clears
  cases clears with
  | whole _ released same =>
      have called : readMemory kernel mem scratch world =
          ⟨.ok wrote, overwrite scratch 0 (kernel.memoryRange mem wrote), cleared⟩ := by
        simp only [readMemory, ran, drainRan, short, if_true, clearRan, Kernel.length_memoryRange]
      have unfaulted := faulted_readMemory kernel world mem scratch
      rw [called] at unfaulted ⊢
      have settled : Settles world cleared := by
        refine ⟨?_, by rw [same, unstalled], unfaulted⟩
        rw [released, pipe, ← ready.clean.2]
      exact ⟨.queued queued answer (by rw [wroteEq]) (by rw [wroteEq]) settled, settled.stalled, prompt⟩
  | failed failure _ broken same =>
      have called : readMemory kernel mem scratch world =
          ⟨.error failure, overwrite scratch 0 (kernel.memoryRange mem wrote), cleared⟩ := by
        simp only [readMemory, ran, drainRan, short, if_true, clearRan]
      have among := broken.mono (List.subset_append_right (drainCalls kernel wrote wrote probed) _)
      rw [called]
      exact ⟨.broken failure rfl (calls ▸ among), by rw [same, unstalled], prompt⟩

/-- After a whole probe there is nothing to release. -/
theorem Drained.whole {queued wrote : Nat} {probed drained : World} (loopback : Loopback kernel)
    (ready : Ready world scratch.length) (state : Drained kernel mem scratch world queued wrote probed drained)
    (whole : ¬ wrote < scratch.length) : Serves kernel mem scratch world (readMemory kernel mem scratch world) := by
  obtain ⟨answer, wroteEq, ran, drainRan, prompt, pipe, unstalled⟩ := state
  have noSlots := loopback.wholeSlots _ _ _ _ answer (by omega)
  have called : readMemory kernel mem scratch world =
      ⟨.ok wrote, overwrite scratch 0 (kernel.memoryRange mem wrote), drained⟩ := by
    simp only [readMemory, ran, drainRan, whole, if_false, Kernel.length_memoryRange]
  have calls : readMemoryCalls kernel mem scratch world = drainCalls kernel wrote wrote probed := by
    simp only [readMemoryCalls, ran, drainRan, whole, if_false, List.append_nil]
  have unfaulted := faulted_readMemory kernel world mem scratch
  rw [called] at unfaulted ⊢
  have settled : Settles world drained := by
    refine ⟨?_, unstalled, unfaulted⟩
    rw [pipe, probeAnswer, noSlots, ← ready.clean.2]
  exact ⟨.queued queued answer (by rw [wroteEq]) (by rw [wroteEq]) settled, settled.stalled, calls ▸ prompt⟩

/-- A probe that queued something: it is drained, and after a short one the slots are released. -/
theorem readMemory_queued (loopback : Loopback kernel) (ready : Ready world scratch.length) {queued : Nat}
    (answer : (probeAnswer kernel mem scratch world).outcome = .ok queued) :
    Serves kernel mem scratch world (readMemory kernel mem scratch world) := by
  obtain ⟨probed, ran, unstalled, pipe⟩ := writeMemoryProbe_queued ready answer
  obtain ⟨wrote, wroteEq⟩ : ∃ wrote, wrote = min queued scratch.length := ⟨_, rfl⟩
  rw [← wroteEq] at ran pipe
  have bytes : probed.pipe.queued = kernel.memoryRange mem wrote := by rw [pipe]
  have size : probed.pipe.queued.length = wrote := by simp [bytes]
  obtain ⟨drains, prompt⟩ := drain_answered loopback probed (Nat.le_of_eq size)
  rw [size] at drains prompt
  obtain ⟨outcome, taken, drained, drainRan⟩ : ∃ outcome taken drained,
      drain kernel wrote wrote probed = (outcome, taken, drained) := ⟨_, _, _, rfl⟩
  rw [drainRan] at drains
  cases drains with
  | failed errno _ _ broken stalled =>
      have called : readMemory kernel mem scratch world = ⟨.error errno, overwrite scratch 0 taken, drained⟩ := by
        simp only [readMemory, ran, drainRan]
      have calls : readMemoryCalls kernel mem scratch world = drainCalls kernel wrote wrote probed := by
        simp only [readMemoryCalls, ran, drainRan, List.append_nil]
      rw [called]
      exact ⟨.broken errno rfl (calls ▸ broken), by rw [stalled, unstalled], calls ▸ prompt⟩
  | whole _ emptied stalled =>
      rw [bytes] at drainRan
      have state : Drained kernel mem scratch world queued wrote probed drained := by
        refine ⟨answer, wroteEq, ran, drainRan, prompt, ?_, by rw [stalled, unstalled]⟩
        rw [emptied, pipe, ← ready.clean.1]
      by_cases short : wrote < scratch.length
      · exact state.short loopback ready short
      · exact state.whole loopback ready short

/-- On a ready pipe `read_memory` never blocks, and unless a call on the read end fails it
leaves the pipe ready for the next call. -/
theorem readMemory_answered (loopback : Loopback kernel) (ready : Ready world scratch.length) :
    Serves kernel mem scratch world (readMemory kernel mem scratch world) := by
  cases answer : (probeAnswer kernel mem scratch world).outcome with
  | error errno => exact readMemory_failed loopback ready answer
  | ok queued => exact readMemory_queued loopback ready answer

end Call

/-! ## Runs of calls -/

section Runs

/-- One call of `read_memory`. -/
structure Request where
  mem : Nat
  scratch : Bytes

/-- Serve a request. -/
def serve (kernel : Kernel) (world : World) (request : Request) : World :=
  (readMemory kernel request.mem request.scratch world).world

/-- Serve one request after the other through the same pipe. -/
def serveAll (kernel : Kernel) (world : World) (requests : List Request) : World :=
  requests.foldl (serve kernel) world

/-- All calls on the read end that serving the requests makes. -/
def servingCalls (kernel : Kernel) : World → List Request → List PipeCall
  | _, [] => []
  | world, request :: rest =>
      readMemoryCalls kernel request.mem request.scratch world ++
        servingCalls kernel (serve kernel world request) rest

/-- What `read_memory` owes its callers when it serves a request of a run that began with
a given pipe. -/
structure Disciplined (kernel : Kernel) (start before : World) (request : Request) : Prop where
  released : ((∃ count, (readMemory kernel request.mem request.scratch before).result = .ok count) ∨
      (readMemory kernel request.mem request.scratch before).result = .error .efault) →
    (serve kernel before request).pipe.Clean ∧
      (serve kernel before request).pipe.nonblocking = start.pipe.nonblocking
  prompt : ∀ call ∈ readMemoryCalls kernel request.mem request.scratch before, call.Prompt
  unstalled : (serve kernel before request).stalled = start.stalled
  delivered : ∀ count, (readMemory kernel request.mem request.scratch before).result = .ok count →
    count ≤ request.scratch.length ∧
      (readMemory kernel request.mem request.scratch before).scratch =
        kernel.memoryRange request.mem count ++ request.scratch.drop count

variable {start : World}

/-- Unless a call on the read end fails, a request leaves the pipe as it was. -/
theorem Serves.settles {mem : Nat} {scratch : Bytes} {world : World} {filled : Filled}
    (serves : Serves kernel mem scratch world filled)
    (unbroken : ∀ call ∈ readMemoryCalls kernel mem scratch world, call.failed = false) :
    Settles world filled.world := by
  cases serves.answers with
  | queued _ _ _ _ settled => exact settled
  | refused _ _ _ _ settled => exact settled
  | broken _ _ broken =>
      obtain ⟨call, member, failed⟩ := broken.call
      rw [unbroken call member] at failed
      exact Bool.noConfusion failed

/-- The pipe is as it was after any number of requests. -/
theorem serveAll_settles (loopback : Loopback kernel) {requests : List Request} (clean : start.pipe.Clean)
    (fits : ∀ request ∈ requests, request.scratch.length ≤ start.pipe.capacity)
    (unbroken : ∀ call ∈ servingCalls kernel start requests, call.failed = false) :
    Settles start (serveAll kernel start requests) := by
  induction requests generalizing start with
  | nil => exact Settles.refl start
  | cons request rest ih =>
      obtain ⟨here, later⟩ := List.forall_mem_append.mp unbroken
      have first : Settles start (serve kernel start request) :=
        (readMemory_answered loopback ⟨clean, fits request List.mem_cons_self⟩).settles here
      have second := @ih (serve kernel start request) (by rw [first.pipe]; exact clean)
        (by rw [first.pipe]; exact fun other member => fits other (List.mem_cons_of_mem _ member)) later
      exact first.trans second

/-- Through any number of calls, and whatever the probes and reads come to, every call
finds the pipe empty and leaves it so: it blocks on nothing and delivers what was asked for. -/
theorem readMemory_disciplined (loopback : Loopback kernel) {earlier : List Request} {request : Request}
    (clean : start.pipe.Clean)
    (fits : ∀ other ∈ earlier ++ [request], other.scratch.length ≤ start.pipe.capacity)
    (unbroken : ∀ call ∈ servingCalls kernel start earlier, call.failed = false) :
    Disciplined kernel start (serveAll kernel start earlier) request := by
  obtain ⟨fitsEarlier, fitsHere⟩ := List.forall_mem_append.mp fits
  have settled := serveAll_settles loopback clean fitsEarlier unbroken
  have ready : Ready (serveAll kernel start earlier) request.scratch.length := by
    refine ⟨by rw [settled.pipe]; exact clean, ?_⟩
    rw [settled.pipe]
    exact fitsHere request (List.mem_singleton_self _)
  have serves : Serves kernel request.mem request.scratch _ _ := readMemory_answered loopback ready
  have released : ∀ {world : World}, Settles (serveAll kernel start earlier) world →
      world.pipe.Clean ∧ world.pipe.nonblocking = start.pipe.nonblocking := by
    intro world same
    rw [same.pipe, settled.pipe]
    exact ⟨clean, rfl⟩
  refine ⟨?_, serves.prompt, serves.unstalled.trans settled.stalled, ?_⟩
  · intro returned
    cases serves.answers with
    | queued _ _ _ _ same => exact released same
    | refused _ _ _ _ same => exact released same
    | broken errno result broken =>
        rw [result] at returned
        rcases returned with ⟨_, ok⟩ | fault
        · cases ok
        · exact absurd (Except.error.inj fault) broken.other
  · intro count ok
    cases serves.answers with
    | queued queued _ result copied _ =>
        obtain rfl : min queued request.scratch.length = count := Except.ok.inj (result.symm.trans ok)
        refine ⟨Nat.min_le_right _ _, ?_⟩
        simp [copied, overwrite]
    | refused _ _ result _ _ => cases result.symm.trans ok
    | broken _ result _ => cases result.symm.trans ok

/-- A kernel with one unreadable page and 64-bit addresses. Probes are interrupted and
leave a slot behind where they fault, and reads deliver one byte at a time. -/
def holeyKernel : Kernel where
  pageSize := 4096
  memory address := UInt8.ofNat address
  readablePage page := page != 1 && decide (page < 2 ^ 52)
  pipe2 _ := .ok 65536
  getPipeSize _ := none
  setPipeSize _ size := .ok size
  statusFlags _ := none
  probe clock address count :=
    let readable := ((List.range count).takeWhile fun index =>
      (address + index) / 4096 != 1 && decide ((address + index) / 4096 < 2 ^ 52)).length
    ⟨clock, if readable = count then ⟨.ok count, 0⟩
      else if readable = 0 then ⟨.error .efault, 1⟩
      else ⟨.ok readable, 1⟩⟩
  pipeRead clock := ⟨clock, .ok 1⟩

/-- What a probe of this kernel comes to. -/
theorem holeyKernel_probe (clock address count : Nat) :
    ∃ readable ≤ count, (∀ index < readable, holeyKernel.readable (address + index)) ∧
      ((∀ index < count, holeyKernel.readable (address + index)) → readable = count) ∧
      (holeyKernel.probe clock address count).result =
        if readable = count then ⟨.ok count, 0⟩
        else if readable = 0 then ⟨.error .efault, 1⟩
        else ⟨.ok readable, 1⟩ := by
  obtain ⟨indices, indicesEq⟩ : ∃ indices, indices = (List.range count).takeWhile fun index =>
    holeyKernel.readable (address + index) := ⟨_, rfl⟩
  have front : indices <+: List.range count := indicesEq ▸ List.takeWhile_prefix _
  have bounded : indices.length ≤ count := by simpa using front.length_le
  have satisfied : indices.all (fun index => holeyKernel.readable (address + index)) = true :=
    indicesEq ▸ List.all_takeWhile
  refine ⟨indices.length, bounded, ?_, ?_, ?_⟩
  · intro index inside
    have here : indices[index] = index := by
      rw [front.getElem inside, List.getElem_range]
    have member : index ∈ indices := here ▸ List.getElem_mem inside
    exact List.all_eq_true.mp satisfied index member
  · intro readable
    rw [indicesEq, List.takeWhile_eq_self_iff.mpr fun index member => readable index (List.mem_range.mp member),
      List.length_range]
  · rw [indicesEq]
    rfl

theorem loopback_holeyKernel : Loopback holeyKernel := by
  refine ⟨?_, ?_, fun _ => by simp [holeyKernel], fun _ _ => by simp [holeyKernel]⟩
  · intro clock address count queued answer whole
    obtain ⟨readable, bounded, _, _, result⟩ := holeyKernel_probe clock address count
    rw [result] at answer ⊢
    split at answer <;> grind
  · intro clock address count errno answer other
    obtain ⟨readable, _, _, _, result⟩ := holeyKernel_probe clock address count
    rw [result] at answer ⊢
    split at answer <;> grind

/-- A probe that faults on the second page, one that stops in front of it, and one behind it. -/
theorem readMemory_disciplined_holeyKernel :
    Disciplined holeyKernel ⟨0, ⟨[], 0, false, 4096⟩, false, false⟩
      (serveAll holeyKernel ⟨0, ⟨[], 0, false, 4096⟩, false, false⟩ [⟨4096, [1, 2, 3]⟩, ⟨4094, [1, 2, 3]⟩])
      ⟨8192, [1, 2, 3]⟩ :=
  readMemory_disciplined loopback_holeyKernel ⟨rfl, rfl⟩ (by simp) (by decide)

end Runs

end Corus.Memory
