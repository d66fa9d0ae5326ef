import Corus.Platform.Kernel

/-!
# Reading memory through a pipe

Process memory is never dereferenced: `write_memory_probe` lets the kernel copy
a range into a private pipe, and `read_memory` drains what was queued. A faulted
copy can leave empty slots behind, which `clear_probe_slots` releases.
-/

namespace Corus.Memory

open Corus.Logical Corus.Platform

/-- Staged segment output size. -/
def memoryBufferSize : Nat := 64 * 1024

/-- `Pipe::new`: the task's loopback pipe is a fresh, blocking, empty one. -/
def pipeNew (kernel : Kernel) (world : World) : Except Errno Unit × World :=
  match kernel.pipe2 world.clock with
  | .error errno => (.error errno, world.tick)
  | .ok capacity => (.ok (), { world.tick with pipe := ⟨[], 0, false, capacity⟩ })

/-- `Pipe::memory_capacity`: growing the pipe is best-effort. -/
def memoryCapacity (kernel : Kernel) (world : World) : Except Errno Nat × World :=
  match kernel.getPipeSize world.clock with
  | some errno => (.error errno, world.tick)
  | none =>
      let capacity := world.pipe.capacity
      let world := world.tick
      if capacity < memoryBufferSize then
        match kernel.setPipeSize world.clock memoryBufferSize with
        | .error _ => (.ok capacity, world.tick)
        | .ok grown => (.ok grown, { world.tick with pipe := { world.pipe with capacity := grown } })
      else (.ok capacity, world)

/-- `write_memory_probe`: the kernel queues a prefix of the range or fails, and
may leave empty slots. A call that does not fit the free capacity would block. -/
def writeMemoryProbe (kernel : Kernel) (address count : Nat) (world : World) :
    Except Errno Nat × World :=
  let answer := (kernel.probe world.clock address count).retry
  let used := world.pipe.queued.length + world.pipe.emptySlots * 4096
  let world := { world.tick with stalled := world.stalled || decide (world.pipe.capacity < used + count) }
  let pipe := { world.pipe with emptySlots := world.pipe.emptySlots + answer.emptySlots }
  match answer.outcome with
  | .error errno => (.error errno, { world with pipe := pipe })
  | .ok queued =>
      let wrote := min queued count
      (.ok wrote,
        { world with pipe := { pipe with queued := pipe.queued ++ kernel.memoryRange address wrote } })

/-- `c_read` on the read end. Queued bytes are delivered, at least one of them.
Without any, the slots are released and the call fails with `EAGAIN`, or blocks
when the descriptor is blocking. -/
def cRead (kernel : Kernel) (len : Nat) (world : World) : Except Errno Bytes × World :=
  if len = 0 then (.ok [], world)
  else
    match (kernel.pipeRead world.clock).retry with
    | .error errno => (.error errno, world.tick)
    | .ok count =>
        if world.pipe.queued = [] then
          let released := { world.tick with pipe := { world.pipe with emptySlots := 0 } }
          if world.pipe.nonblocking then (.error .eagain, released)
          else (.ok [], { released with stalled := true })
        else
          let taken := max 1 (min count (min len world.pipe.queued.length))
          (.ok (world.pipe.queued.take taken),
            { world.tick with pipe := { world.pipe with queued := world.pipe.queued.drop taken } })

/-- The drain loop of `read_memory`: what was read so far, and an error if one
ended the loop. `fuel` bounds the rounds, each of which reads at least one byte. -/
def drain (kernel : Kernel) : Nat → Nat → World → Except Errno Unit × Bytes × World
  | 0, _, world => (.ok (), [], world)
  | fuel + 1, remaining, world =>
      if remaining = 0 then (.ok (), [], world)
      else
        match cRead kernel remaining world with
        | (.error errno, world) => (.error errno, [], world)
        | (.ok [], world) => (.ok (), [], world)
        | (.ok (byte :: bytes), world) =>
            match drain kernel fuel (remaining - (byte :: bytes).length) world with
            | (outcome, rest, world) => (outcome, byte :: bytes ++ rest, world)

/-- The discarding loop of `clear_probe_slots`. -/
def discard (kernel : Kernel) : Nat → World → Except Errno Unit × World
  | 0, world => (.ok (), world)
  | fuel + 1, world =>
      match cRead kernel 1 world with
      | (.ok [], world) => (.ok (), world)
      | (.ok (_ :: _), world) => discard kernel fuel world
      | (.error errno, world) => (if errno = .eagain then .ok () else .error errno, world)

/-- `fcntl` on the status flags of the read end. -/
def setNonblocking (kernel : Kernel) (value : Bool) (world : World) : Except Errno Unit × World :=
  match kernel.statusFlags world.clock with
  | some errno => (.error errno, world.tick)
  | none => (.ok (), { world.tick with pipe := { world.pipe with nonblocking := value } })

/-- `clear_probe_slots`: drain without blocking, then restore the status flags. -/
def clearProbeSlots (kernel : Kernel) (world : World) : Except Errno Unit × World :=
  match kernel.statusFlags world.clock with
  | some errno => (.error errno, world.tick)
  | none =>
      let flags := world.pipe.nonblocking
      match setNonblocking kernel true world.tick with
      | (.error errno, world) => (.error errno, world)
      | (.ok (), world) =>
          match discard kernel (world.pipe.queued.length + 1) world with
          | (drained, world) =>
              match setNonblocking kernel flags world with
              | (.error errno, world) => (.error errno, world)
              | (.ok (), world) => (drained, world)

/-- The result of a call that fills a scratch slice. -/
structure Filled where
  result : Except Errno Nat
  scratch : Bytes
  world : World

/-- `read_memory`: copy `scratch.len()` bytes at `mem` through the loopback pipe. -/
def readMemory (kernel : Kernel) (mem : Nat) (scratch : Bytes) (world : World) : Filled :=
  match writeMemoryProbe kernel mem scratch.length world with
  | (.error errno, world) =>
      if errno = .efault then
        match clearProbeSlots kernel world with
        | (.error errno, world) => ⟨.error errno, scratch, world⟩
        | (.ok (), world) => ⟨.error .efault, scratch, world⟩
      else ⟨.error errno, scratch, world⟩
  | (.ok wrote, world) =>
      match drain kernel wrote wrote world with
      | (.error errno, bytes, world) => ⟨.error errno, overwrite scratch 0 bytes, world⟩
      | (.ok (), bytes, world) =>
          if wrote < scratch.length then
            match clearProbeSlots kernel world with
            | (.error errno, world) => ⟨.error errno, overwrite scratch 0 bytes, world⟩
            | (.ok (), world) => ⟨.ok bytes.length, overwrite scratch 0 bytes, world⟩
          else ⟨.ok bytes.length, overwrite scratch 0 bytes, world⟩

/-! ## What holds of every kernel -/

/-- A read never delivers more than was asked for. -/
theorem length_cRead {kernel : Kernel} {len : Nat} {world after : World} {bytes : Bytes}
    (ran : cRead kernel len world = (.ok bytes, after)) : bytes.length ≤ len := by
  unfold cRead at ran
  split at ran
  · cases ran
    simp
  · rename_i asked
    split at ran
    · cases ran
    · split at ran
      · split at ran <;> cases ran
        simp
      · rename_i queued
        cases ran
        simp only [List.length_take]
        omega

/-- Draining collects at most the bytes that were queued by the probe. -/
theorem length_drain (kernel : Kernel) (fuel remaining : Nat) (world : World) :
    (drain kernel fuel remaining world).2.1.length ≤ remaining := by
  induction fuel generalizing remaining world with
  | zero => simp [drain]
  | succ fuel ih =>
      unfold drain
      split
      · simp
      · split
        · simp
        · simp
        · rename_i byte bytes after read
          have bounded := length_cRead read
          have rest := ih (remaining - (byte :: bytes).length) after
          change (byte :: bytes ++ (drain kernel fuel _ after).2.1).length ≤ remaining
          rw [List.length_append]
          omega

/-- Whatever the kernel does, the scratch slice keeps its length. -/
theorem length_readMemory (kernel : Kernel) (mem : Nat) (scratch : Bytes) (world : World) :
    (readMemory kernel mem scratch world).scratch.length = scratch.length := by
  have wrote_le : ∀ {wrote after}, writeMemoryProbe kernel mem scratch.length world = (.ok wrote, after) →
      wrote ≤ scratch.length := by
    intro wrote after probed
    unfold writeMemoryProbe at probed
    simp only at probed
    split at probed <;> cases probed
    exact Nat.min_le_right ..
  unfold readMemory
  split
  · split
    · split <;> rfl
    · rfl
  · rename_i wrote after probed
    have bounded := wrote_le probed
    have drained := length_drain kernel wrote wrote after
    have kept : (overwrite scratch 0 (drain kernel wrote wrote after).2.1).length = scratch.length :=
      length_overwrite (by omega)
    split
    · rename_i errno bytes final equation
      rw [equation] at kept
      exact kept
    · rename_i bytes final equation
      rw [equation] at kept
      split
      · split <;> exact kept
      · exact kept

/-! ## No load of the task's own

The kernel copies, so none of these calls can fault, whatever it answers. -/

section Faults

variable (kernel : Kernel) (world : World)

@[simp] theorem faulted_writeMemoryProbe (address count : Nat) :
    (writeMemoryProbe kernel address count world).2.faulted = world.faulted := by
  unfold writeMemoryProbe
  simp only
  split <;> rfl

@[simp] theorem faulted_cRead (len : Nat) : (cRead kernel len world).2.faulted = world.faulted := by
  unfold cRead
  split
  · rfl
  · split
    · rfl
    · split
      · simp only
        split <;> rfl
      · rfl

@[simp] theorem faulted_drain (fuel remaining : Nat) :
    (drain kernel fuel remaining world).2.2.faulted = world.faulted := by
  induction fuel generalizing remaining world with
  | zero => rfl
  | succ fuel ih =>
      have read := faulted_cRead kernel world remaining
      unfold drain
      split
      · rfl
      · split
        · rename_i ran
          rwa [ran] at read
        · rename_i ran
          rwa [ran] at read
        · rename_i ran
          rw [ran] at read
          exact (ih _ _).trans read

@[simp] theorem faulted_discard (fuel : Nat) : (discard kernel fuel world).2.faulted = world.faulted := by
  induction fuel generalizing world with
  | zero => rfl
  | succ fuel ih =>
      have read := faulted_cRead kernel world 1
      unfold discard
      split
      · rename_i ran
        rwa [ran] at read
      · rename_i ran
        rw [ran] at read
        exact (ih _).trans read
      · rename_i ran
        rwa [ran] at read

@[simp] theorem faulted_setNonblocking (value : Bool) :
    (setNonblocking kernel value world).2.faulted = world.faulted := by
  unfold setNonblocking
  split <;> rfl

@[simp] theorem faulted_clearProbeSlots : (clearProbeSlots kernel world).2.faulted = world.faulted := by
  unfold clearProbeSlots
  split
  · rfl
  have set := faulted_setNonblocking kernel world.tick true
  simp only
  split
  · rename_i ran
    rwa [ran] at set
  rename_i flagged ran
  rw [ran] at set
  have discarded := faulted_discard kernel flagged (flagged.pipe.queued.length + 1)
  generalize discard kernel (flagged.pipe.queued.length + 1) flagged = outcome at discarded ⊢
  obtain ⟨drained, cleared⟩ := outcome
  have restored := faulted_setNonblocking kernel cleared world.pipe.nonblocking
  simp only at discarded ⊢
  split
  · rename_i ran
    rw [ran] at restored
    exact restored.trans (discarded.trans set)
  · rename_i ran
    rw [ran] at restored
    exact restored.trans (discarded.trans set)

@[simp] theorem faulted_readMemory (mem : Nat) (scratch : Bytes) :
    (readMemory kernel mem scratch world).world.faulted = world.faulted := by
  have probed := faulted_writeMemoryProbe kernel world mem scratch.length
  unfold readMemory
  split
  · rename_i errno after ran
    rw [ran] at probed
    have cleared := faulted_clearProbeSlots kernel after
    split
    · split
      · rename_i clearRan
        rw [clearRan] at cleared
        exact cleared.trans probed
      · rename_i clearRan
        rw [clearRan] at cleared
        exact cleared.trans probed
    · exact probed
  · rename_i wrote after ran
    rw [ran] at probed
    have drained := faulted_drain kernel after wrote wrote
    split
    · rename_i drainRan
      rw [drainRan] at drained
      exact drained.trans probed
    · rename_i bytes final drainRan
      rw [drainRan] at drained
      have cleared := faulted_clearProbeSlots kernel final
      split
      · split
        · rename_i clearRan
          rw [clearRan] at cleared
          exact cleared.trans (drained.trans probed)
        · rename_i clearRan
          rw [clearRan] at cleared
          exact cleared.trans (drained.trans probed)
      · exact drained.trans probed

end Faults

end Corus.Memory
