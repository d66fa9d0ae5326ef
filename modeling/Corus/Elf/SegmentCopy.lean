import Corus.Elf.Segments

/-!
# Segment contents of arbitrary mappings

The address of a copy round wraps at the end of the address space, where no memory can be
read. So the loop streams the visible memory of every mapping, whatever its start and size.
-/

namespace Corus.Elf

open Corus.Logical Corus.Platform Corus.Output Corus.Memory Corus.Proc

variable {kernel : Kernel}

/-- What the mapping has to contribute to the core: for every address, in order, the byte
of the memory, or zero where its page cannot be read. -/
def segmentBytes (kernel : Kernel) (mapping : Mapping) : Bytes :=
  (List.range mapping.writeSize.toNat).map fun index =>
    kernel.visible ((mapping.start.toNat + index) % 2 ^ 64)

/-- The kernel with its addresses continued behind the end of the address space. -/
def wrapped (kernel : Kernel) : Kernel :=
  { kernel with
    pageSize := 1
    memory := fun address => kernel.memory (address % 2 ^ 64)
    readablePage := fun address => kernel.readable (address % 2 ^ 64) }

theorem readable_wrapped (address : Nat) : (wrapped kernel).readable address = kernel.readable (address % 2 ^ 64) := by
  simp [Kernel.readable, wrapped]

theorem visible_wrapped (address : Nat) : (wrapped kernel).visible address = kernel.visible (address % 2 ^ 64) := by
  rw [Kernel.visible, Kernel.visible, readable_wrapped]
  rfl

theorem visibleSegments_wrapped (mappings : List Mapping) :
    visibleSegments (wrapped kernel) mappings = mappings.map (segmentBytes kernel) := by
  simp only [visibleSegments, Kernel.visibleRange, visible_wrapped]
  rfl

/-- Without memory behind the end of the address space, a call reads what is shown there. -/
theorem mirrors_wrapped (top : ∀ address, 2 ^ 64 ≤ address → kernel.readable address = false) (start size : Nat) :
    Mirrors kernel (wrapped kernel) start size := by
  refine ⟨?_, ?_⟩
  · intro place index _ _ readable
    have below : place % 2 ^ 64 + index < 2 ^ 64 := by
      by_contra beyond
      rw [top _ (Nat.not_lt.mp beyond)] at readable
      exact Bool.noConfusion readable
    have same : (place + index) % 2 ^ 64 = place % 2 ^ 64 + index := by omega
    rw [readable_wrapped, same]
    exact ⟨readable, congrArg kernel.memory same⟩
  · intro place index _ _ block unreadable
    -- The end of the address space is a page boundary.
    have same : (place + index) % 2 ^ 64 = place % 2 ^ 64 + index := by omega
    rw [readable_wrapped, same]
    exact unreadable

/-- A chunk needs no more rounds than it has bytes. -/
theorem copyChunk_ends {view : Kernel} {capacity start size offset chunk copied : Nat} {scratch : Bytes}
    {world : World} (reliable : Reliable kernel) (pages : 4096 ∣ kernel.pageSize)
    (mirrors : Mirrors kernel view start size) (ahead : offset + chunk ≤ size) {fuel : Nat}
    (probing : Probing capacity world) (filling : Filling view (start + offset) chunk copied scratch)
    (enough : chunk ≤ fuel + copied) (extra : Nat) :
    copyChunk kernel capacity start offset chunk (fuel + extra) copied scratch world =
      copyChunk kernel capacity start offset chunk fuel copied scratch world := by
  induction fuel generalizing copied scratch world with
  | zero =>
      have done : ¬ copied < chunk := by omega
      cases extra with
      | zero => rfl
      | succ extra => simp only [copyChunk, done, if_false]
  | succ fuel ih =>
      rw [Nat.succ_add_eq_add_succ, Nat.add_succ, copyChunk, copyChunk]
      by_cases more : copied < chunk
      · obtain ⟨settled, bytes, result, positive, advanced⟩ :=
          copyRound_advances reliable pages mirrors ahead probing filling more
        have rest := ih (probing.settled settled) advanced (by omega)
        rw [if_pos more, if_pos more]
        generalize copyRound kernel capacity start offset chunk copied scratch world = round at *
        obtain ⟨outcome, buffer, next⟩ := round
        simp only at result
        subst result
        exact rest
      · rw [if_neg more, if_neg more]

/-- The segment loop ends, and it writes the visible memory of every mapping and nothing
else, whatever the probes make of unreadable pages and whatever the scratch buffer held. -/
theorem writeSegments_copies {Sink : Type} [Writer Sink] (total : AcceptsEveryByte Sink)
    (reliable : Reliable kernel) (pages : kernel.pageSize = 4096)
    (top : ∀ address, 2 ^ 64 ≤ address → kernel.readable address = false)
    {capacity : Nat} (mappings : List Mapping) {scratch : Bytes} {machine : Machine Sink}
    (probing : Probing capacity machine.world) (accepting : total.accepting machine.sink)
    (size : scratch.length = memoryBufferSize) :
    (∃ after, writeSegments kernel capacity mappings scratch machine = (.ok (), after) ∧
      Streamed total machine after (mappings.map (segmentBytes kernel)).flatten) ∧
    ∀ start offset chunk buffer world extra, Probing capacity world → chunk ≤ buffer.length →
      copyChunk kernel capacity start offset chunk (chunk + extra) 0
          (overwrite buffer 0 (List.replicate chunk 0)) world =
        copyChunk kernel capacity start offset chunk chunk 0
          (overwrite buffer 0 (List.replicate chunk 0)) world := by
  have divides : 4096 ∣ kernel.pageSize := by rw [pages]
  refine ⟨?_, ?_⟩
  · rw [← visibleSegments_wrapped]
    exact writeSegments_streams total reliable divides (fun mapping _ => mirrors_wrapped top _ _) probing accepting size
  · intro start offset chunk buffer world extra between fits
    exact copyChunk_ends reliable divides (mirrors_wrapped top start (offset + chunk)) (Nat.le_refl _) between
      (filling_zeroed fits) (Nat.le_add_right _ 0) extra

theorem holeyKernel_top (address : Nat) (high : 2 ^ 64 ≤ address) : holeyKernel.readable address = false := by
  have page : ¬ address / 4096 < 2 ^ 52 := by omega
  change (address / 4096 != 1 && decide (address / 4096 < 2 ^ 52)) = false
  rw [decide_eq_false page, Bool.and_false]

/-- A mapping that starts inside the first page and ends behind the unreadable one. -/
def acrossHole : Mapping := { Mapping.zeroed with start := 0x801, writeSize := 0x1900 }

/-- A mapping that goes on behind the end of the address space. -/
def acrossTop : Mapping := { Mapping.zeroed with start := 0xfffffffffffffffe, writeSize := 5 }

/-- A machine with an empty pipe whose descriptor takes at most 100 bytes at a time. -/
def pipedMachine : Machine SimpleWriter where
  world := ⟨0, ⟨[], 0, false, 65536⟩, false, false⟩
  sink := ⟨[], 0, fun _ => ⟨1, .ok 100⟩⟩

theorem writeSegments_copies_holeyKernel :
    ∃ after, writeSegments holeyKernel 65536 [acrossHole, acrossTop] (List.replicate memoryBufferSize 7) pipedMachine =
        (.ok (), after) ∧
      after.sink.fd.accepted = segmentBytes holeyKernel acrossHole ++ [254, 255, 0, 1, 2] := by
  have probing : Probing 65536 pipedMachine.world := ⟨⟨rfl, rfl⟩, rfl, by decide⟩
  obtain ⟨after, ran, streamed⟩ := (writeSegments_copies SimpleWriter.acceptsEveryByte reliable_holeyKernel rfl
    holeyKernel_top [acrossHole, acrossTop] probing (fun _ => ⟨100, by decide, rfl⟩)
    (List.length_replicate (n := memoryBufferSize) (a := 7))).1
  have beyond : segmentBytes holeyKernel acrossTop = [254, 255, 0, 1, 2] := by decide
  refine ⟨after, ran, ?_⟩
  have written : after.sink.fd.accepted = [] ++ ([acrossHole, acrossTop].map (segmentBytes holeyKernel)).flatten :=
    streamed.emitted
  rw [written, List.map_cons, List.map_singleton, List.flatten_cons, List.flatten_singleton, beyond, List.nil_append]

end Corus.Elf
