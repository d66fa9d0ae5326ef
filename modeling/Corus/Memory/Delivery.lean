import Corus.Memory.Loopback

/-!
# What `read_memory` delivers

On a kernel that copies what can be read, `read_memory` delivers the whole range, a readable
prefix of it or nothing. Behind the prefix the slice keeps its bytes, so a caller that
zeroed it first sees zeros there.
-/

namespace Corus.Memory

open Corus.Logical Corus.Platform

/-- A probe queues a readable range in full; otherwise it fails with `EFAULT` or queues a
readable prefix. It may always fail for another reason. -/
structure Honest (kernel : Kernel) : Prop extends Loopback kernel where
  probeReadable : ∀ clock address count, (∀ index < count, kernel.readable (address + index)) →
    (kernel.probe clock address count).result.outcome = .ok count ∨
    ∃ errno, errno ≠ .efault ∧ (kernel.probe clock address count).result.outcome = .error errno
  probeFaulted : ∀ clock address count, (¬ ∀ index < count, kernel.readable (address + index)) →
    (kernel.probe clock address count).result.outcome = .error .efault ∨
    (∃ queued < count, (kernel.probe clock address count).result.outcome = .ok queued ∧
      ∀ index < queued, kernel.readable (address + index)) ∨
    ∃ errno, errno ≠ .efault ∧ (kernel.probe clock address count).result.outcome = .error errno

/-- A probe never copies what cannot be read: one that queues a whole range could read all of it. -/
def Truthful (kernel : Kernel) : Prop :=
  ∀ clock address count queued, (kernel.probe clock address count).result.outcome = .ok queued → count ≤ queued →
    ∀ index < count, kernel.readable (address + index)

/-- So, whatever state the pipe is in, a call that delivers a whole range could read all of it. -/
theorem Truthful.readable {kernel : Kernel} (truthful : Truthful kernel) {mem count : Nat} {scratch : Bytes}
    {world : World} (result : (readMemory kernel mem scratch world).result = .ok count)
    (whole : scratch.length ≤ count) : count = scratch.length ∧ ∀ index < count, kernel.readable (mem + index) := by
  have probed : ∀ {wrote after}, writeMemoryProbe kernel mem scratch.length world = (.ok wrote, after) →
      ∃ queued, (kernel.probe world.clock mem scratch.length).result.outcome = .ok queued ∧
        wrote = min queued scratch.length := by
    intro wrote after ran
    unfold writeMemoryProbe at ran
    simp only [Response.retry_eq] at ran
    split at ran
    · cases ran
    · rename_i queued outcome
      cases ran
      exact ⟨queued, outcome, rfl⟩
  unfold readMemory at result
  split at result
  · split at result
    · split at result <;> cases result
    · cases result
  rename_i wrote after ran
  obtain ⟨queued, outcome, wroteEq⟩ := probed ran
  have bounded := length_drain kernel wrote wrote after
  have delivered : (drain kernel wrote wrote after).2.1.length = count := by
    split at result
    · cases result
    · rename_i bytes final drained
      rw [drained]
      split at result
      · split at result
        · cases result
        · exact Except.ok.inj result
      · exact Except.ok.inj result
  have size : count = scratch.length := by omega
  exact ⟨size, size ▸ truthful _ _ _ queued outcome (by omega)⟩

/-- No call on the pipe fails for another reason than unreadable memory. -/
structure Reliable (kernel : Kernel) : Prop extends Honest kernel where
  probe : ∀ clock address count errno,
    (kernel.probe clock address count).result.outcome = .error errno → errno = .efault
  statusFlags : ∀ clock, kernel.statusFlags clock = none
  pipeRead : ∀ clock, ∃ count, (kernel.pipeRead clock).result = .ok count

/-- What the engine is told about the kernel on `write_memory_probe`: a readable
range is queued in full and leaves no empty slot; otherwise the call fails with
`EFAULT` or queues a readable prefix. Pipe calls themselves do not fail, a grown
pipe holds what was asked for, and pages are multiples of 4096 bytes. -/
structure Documented (kernel : Kernel) : Prop where
  pages : 0 < kernel.pageSize ∧ 4096 ∣ kernel.pageSize
  pipe2 : ∀ call, ∃ capacity, kernel.pipe2 call = .ok capacity ∧ kernel.pageSize ≤ capacity
  getPipeSize : ∀ call, kernel.getPipeSize call = none
  setPipeSize : ∀ call size grown, kernel.setPipeSize call size = .ok grown → size ≤ grown
  statusFlags : ∀ call, kernel.statusFlags call = none
  probeReadable : ∀ call address count, (∀ index < count, kernel.readable (address + index)) →
    (kernel.probe call address count).result = ⟨.ok count, 0⟩
  probeFaulted : ∀ call address count, (¬ ∀ index < count, kernel.readable (address + index)) →
    (kernel.probe call address count).result.outcome = .error .efault ∨
    ∃ queued < count, (kernel.probe call address count).result.outcome = .ok queued ∧
      ∀ index < queued, kernel.readable (address + index)
  pipeRead : ∀ call, ∃ count, (kernel.pipeRead call).result = .ok count

theorem Documented.reliable {kernel : Kernel} (documented : Documented kernel) : Reliable kernel := by
  have faultOnly : ∀ clock address count errno,
      (kernel.probe clock address count).result.outcome = .error errno → errno = .efault := by
    intro clock address count errno answer
    by_cases readable : ∀ index < count, kernel.readable (address + index)
    · rw [documented.probeReadable clock address count readable] at answer
      cases answer
    · rcases documented.probeFaulted clock address count readable with fault | ⟨queued, _, ok, _⟩
      · exact Except.error.inj (answer.symm.trans fault)
      · cases answer.symm.trans ok
  refine ⟨⟨⟨?_, ?_, ?_, ?_⟩, ?_, ?_⟩, faultOnly, documented.statusFlags, documented.pipeRead⟩
  · intro clock address count queued answer whole
    by_cases readable : ∀ index < count, kernel.readable (address + index)
    · rw [documented.probeReadable clock address count readable]
    · rcases documented.probeFaulted clock address count readable with fault | ⟨less, below, ok, _⟩
      · cases answer.symm.trans fault
      · cases answer.symm.trans ok
        omega
  · intro clock address count errno answer other
    exact absurd (faultOnly clock address count errno answer) other
  · intro clock
    rw [documented.statusFlags clock]
    simp
  · intro clock errno answer
    obtain ⟨count, ok⟩ := documented.pipeRead clock
    cases answer.symm.trans ok
  · intro clock address count readable
    rw [documented.probeReadable clock address count readable]
    exact .inl rfl
  · intro clock address count unreadable
    rcases documented.probeFaulted clock address count unreadable with fault | short
    · exact .inl fault
    · exact .inr (.inl short)

variable {kernel : Kernel}

/-- What `read_memory` can do on a ready pipe: deliver the whole range, deliver a
readable proper prefix, or fault. The slice keeps every byte not delivered. -/
inductive Delivers (kernel : Kernel) (mem : Nat) (scratch : Bytes) (filled : Filled) : Prop where
  | whole
      (readable : ∀ index < scratch.length, kernel.readable (mem + index))
      (result : filled.result = .ok scratch.length)
      (copied : filled.scratch = kernel.memoryRange mem scratch.length)
  | short (count : Nat)
      (faulted : ¬ ∀ index < scratch.length, kernel.readable (mem + index))
      (less : count < scratch.length)
      (readable : ∀ index < count, kernel.readable (mem + index))
      (result : filled.result = .ok count)
      (copied : filled.scratch = overwrite scratch 0 (kernel.memoryRange mem count))
  | fault
      (faulted : ¬ ∀ index < scratch.length, kernel.readable (mem + index))
      (result : filled.result = .error .efault)
      (kept : filled.scratch = scratch)

/-- On a ready pipe, `read_memory` delivers what is readable unless it fails for another reason. -/
theorem readMemory_honest (honest : Honest kernel) {mem : Nat} {scratch : Bytes} {world : World}
    (ready : Ready world scratch.length) :
    Delivers kernel mem scratch (readMemory kernel mem scratch world) ∧
        Settles world (readMemory kernel mem scratch world).world ∨
      ∃ errno, errno ≠ .efault ∧ (readMemory kernel mem scratch world).result = .error errno := by
  have serves : Serves kernel mem scratch world (readMemory kernel mem scratch world) :=
    readMemory_answered honest.toLoopback ready
  cases serves.answers with
  | broken errno result broken => exact .inr ⟨errno, broken.other, result⟩
  | queued queued answer result copied settled =>
      refine .inl ⟨?_, settled⟩
      by_cases readable : ∀ index < scratch.length, kernel.readable (mem + index)
      · rcases honest.probeReadable world.clock mem scratch.length readable with ok | ⟨_, _, failed⟩
        · obtain rfl : queued = scratch.length := Except.ok.inj (answer.symm.trans ok)
          rw [Nat.min_self] at result copied
          exact .whole readable result (by simp [copied, overwrite])
        · cases answer.symm.trans failed
      · rcases honest.probeFaulted world.clock mem scratch.length readable with
          fault | ⟨less, below, ok, front⟩ | ⟨_, _, failed⟩
        · cases answer.symm.trans fault
        · obtain rfl : queued = less := Except.ok.inj (answer.symm.trans ok)
          rw [Nat.min_eq_left (Nat.le_of_lt below)] at result copied
          exact .short queued readable below front result copied
        · cases answer.symm.trans failed
  | refused errno answer result kept settled =>
      by_cases fault : errno = .efault
      · subst fault
        refine .inl ⟨.fault ?_ result kept, settled⟩
        intro readable
        rcases honest.probeReadable world.clock mem scratch.length readable with ok | ⟨other, differs, failed⟩
        · cases answer.symm.trans ok
        · exact differs (Except.error.inj (failed.symm.trans answer))
      · exact .inr ⟨errno, fault, result⟩

/-- On a ready pipe of a reliable kernel, `read_memory` delivers what is readable and leaves
the pipe ready for the next call. -/
theorem readMemory_delivers (reliable : Reliable kernel) {mem : Nat} {scratch : Bytes} {world : World}
    (ready : Ready world scratch.length) :
    Delivers kernel mem scratch (readMemory kernel mem scratch world) ∧
      Settles world (readMemory kernel mem scratch world).world := by
  have serves : Serves kernel mem scratch world (readMemory kernel mem scratch world) :=
    readMemory_answered reliable.toLoopback ready
  rcases readMemory_honest reliable.toHonest ready with delivered | ⟨errno, other, result⟩
  · exact delivered
  · -- Neither the probe nor a call on the read end can have failed.
    exfalso
    cases serves.answers with
    | queued _ _ ok _ _ => cases result.symm.trans ok
    | refused failure answer failed _ _ =>
        obtain rfl : errno = failure := Except.error.inj (result.symm.trans failed)
        exact other (reliable.probe _ _ _ _ answer)
    | broken _ _ broken =>
        obtain ⟨clock, failure, failed | failed⟩ := broken.cause
        · obtain ⟨count, ok⟩ := reliable.pipeRead clock
          cases failed.symm.trans ok
        · rw [reliable.statusFlags clock] at failed
          cases failed

/-- On a reliable kernel `read_memory` fails only with a fault. -/
theorem Reliable.error_efault (reliable : Reliable kernel) {mem : Nat} {scratch : Bytes} {world : World} {errno : Errno}
    (ready : Ready world scratch.length) (result : (readMemory kernel mem scratch world).result = .error errno) :
    errno = .efault := by
  obtain ⟨reads, _⟩ := @readMemory_delivers kernel reliable mem scratch world ready
  cases reads with
  | whole _ ok _ => cases result.symm.trans ok
  | short _ _ _ _ ok _ => cases result.symm.trans ok
  | fault _ fault _ => exact Except.error.inj (result.symm.trans fault)

/-- All bytes of a range that does not leave its page are readable or none is. -/
theorem readable_of_samePage {mem count first second : Nat}
    (samePage : ∀ index < count, (mem + index) / kernel.pageSize = mem / kernel.pageSize)
    (inFirst : first < count) (inSecond : second < count) (readable : kernel.readable (mem + first)) :
    kernel.readable (mem + second) := by
  rw [Kernel.readable, samePage second inSecond]
  rwa [Kernel.readable, samePage first inFirst] at readable

/-- Within one page `read_memory` delivers everything, or nothing because the
page cannot be read. -/
inductive DeliversBlock (kernel : Kernel) (mem : Nat) (scratch : Bytes) (filled : Filled) : Prop where
  | whole
      (readable : ∀ index < scratch.length, kernel.readable (mem + index))
      (result : filled.result = .ok scratch.length)
      (copied : filled.scratch = kernel.memoryRange mem scratch.length)
  | nothing
      (unreadable : ∀ index < scratch.length, kernel.readable (mem + index) = false)
      (result : filled.result = .ok 0 ∨ filled.result = .error .efault)
      (kept : filled.scratch = scratch)

theorem Delivers.block {mem : Nat} {scratch : Bytes} {filled : Filled}
    (samePage : ∀ index < scratch.length, (mem + index) / kernel.pageSize = mem / kernel.pageSize)
    (delivers : Delivers kernel mem scratch filled) : DeliversBlock kernel mem scratch filled := by
  have none : (¬ ∀ index < scratch.length, kernel.readable (mem + index)) →
      ∀ index < scratch.length, kernel.readable (mem + index) = false := by
    intro faulted index inside
    rw [← Bool.not_eq_true]
    intro readable
    exact faulted fun other within => readable_of_samePage samePage inside within readable
  cases delivers with
  | whole readable result copied => exact .whole readable result copied
  | short count faulted less readable result copied =>
      -- A readable first byte would make the whole page readable.
      have nothing : count = 0 := by
        apply Nat.eq_zero_of_not_pos
        intro positive
        exact Bool.noConfusion ((none faulted 0 (by omega)).symm.trans (readable 0 positive))
      subst nothing
      exact .nothing (none faulted) (.inl result) (by rw [copied]; simp [overwrite, Kernel.memoryRange])
  | fault faulted result kept => exact .nothing (none faulted) (.inr result) kept

/-- A probe into a zeroed slice stores a readable prefix and leaves zeros behind. -/
theorem Delivers.stored {mem probe : Nat} {filled : Filled}
    (delivers : Delivers kernel mem (List.replicate probe 0) filled) :
    ∃ count ≤ probe,
      filled.scratch = kernel.memoryRange mem count ++ List.replicate (probe - count) 0 ∧
      (∀ index < count, kernel.readable (mem + index)) ∧
      (filled.result = .ok count ∨ count = 0 ∧ filled.result = .error .efault) := by
  cases delivers with
  | whole readable result copied =>
      simp only [List.length_replicate] at readable result copied
      exact ⟨probe, Nat.le_refl _, by simp [copied], readable, .inl result⟩
  | short count _ less readable result copied =>
      simp only [List.length_replicate] at less
      refine ⟨count, Nat.le_of_lt less, ?_, readable, .inl result⟩
      simp [copied, overwrite]
  | fault _ result kept =>
      exact ⟨0, Nat.zero_le _, by simp [kept, Kernel.memoryRange],
        fun _ below => absurd below (Nat.not_lt_zero _), .inr ⟨rfl, result⟩⟩

theorem reliable_holeyKernel : Reliable holeyKernel := by
  refine ⟨⟨loopback_holeyKernel, ?_, ?_⟩, ?_, fun _ => rfl, fun _ => ⟨1, rfl⟩⟩
  · intro clock address count readable
    obtain ⟨front, _, _, whole, result⟩ := holeyKernel_probe clock address count
    rw [result, if_pos (whole readable)]
    exact .inl rfl
  · intro clock address count unreadable
    obtain ⟨front, bounded, readable, _, result⟩ := holeyKernel_probe clock address count
    have less : front ≠ count := by
      rintro rfl
      exact unreadable readable
    rw [result, if_neg less]
    by_cases none : front = 0
    · rw [if_pos none]
      exact .inl rfl
    · rw [if_neg none]
      exact .inr (.inl ⟨front, by omega, rfl, readable⟩)
  · intro clock address count errno failed
    obtain ⟨front, _, _, _, result⟩ := holeyKernel_probe clock address count
    rw [result] at failed
    grind

end Corus.Memory
