import Corus.Elf.Layout
import Corus.Memory.Delivery

/-!
# Segment contents on the documented kernel

The copy loop of `create_elf_core` probes as much as the pipe takes, falls back
to single pages where that faults, and leaves zeros where a page cannot be read.
`writeSegments_streams` says that what it streams is exactly the memory as a
reader of the live process sees it, and that no pipe call ever blocks.
-/

namespace Corus.Elf

open Corus.Logical Corus.Platform Corus.Output Corus.Memory Corus.Proc

variable {kernel : Kernel}

/-- The chunk in the scratch buffer is filled up to `copied` with the visible
memory from `base` on, and still zero behind. -/
structure Filling (kernel : Kernel) (base chunk copied : Nat) (scratch : Bytes) : Prop where
  fits : chunk ≤ scratch.length
  within : copied ≤ chunk
  contents : scratch.take chunk = kernel.visibleRange base copied ++ List.replicate (chunk - copied) 0

namespace Filling

variable {base chunk copied : Nat} {scratch : Bytes}

/-- What is left of the chunk is zero. -/
theorem window_eq (filling : Filling kernel base chunk copied scratch) {probe : Nat}
    (inside : probe ≤ chunk - copied) : window scratch copied probe = List.replicate probe 0 := by
  have within := filling.within
  rw [← window_take (show copied + probe ≤ chunk by omega), filling.contents, window,
    List.drop_left' (Kernel.length_visibleRange ..), List.take_replicate, Nat.min_eq_left inside]

/-- Storing readable bytes behind the filled part fills it further. -/
theorem advance (filling : Filling kernel base chunk copied scratch) {probe count : Nat}
    (inside : probe ≤ chunk - copied) (bounded : count ≤ probe)
    (readable : ∀ index < count, kernel.readable (base + copied + index)) :
    Filling kernel base chunk (copied + count) (overwrite scratch copied
      (kernel.memoryRange (base + copied) count ++ List.replicate (probe - count) 0)) := by
  have fits := filling.fits
  have within := filling.within
  have length : (kernel.memoryRange (base + copied) count ++ List.replicate (probe - count) 0).length =
      probe := by
    rw [List.length_append, Kernel.length_memoryRange, List.length_replicate]
    omega
  refine ⟨?_, by omega, ?_⟩
  · rw [length_overwrite (by omega)]
    exact fits
  · have outside : (overwrite scratch copied (kernel.memoryRange (base + copied) count ++
        List.replicate (probe - count) 0)).take chunk = overwrite (scratch.take chunk) copied
          (kernel.memoryRange (base + copied) count ++ List.replicate (probe - count) 0) := by
      rw [take_overwrite_of_le (by omega)]
    rw [outside, filling.contents, overwrite, length, List.take_left' (Kernel.length_visibleRange ..),
      ← List.drop_drop, List.drop_left' (Kernel.length_visibleRange ..), List.drop_replicate,
      Kernel.visibleRange_add, Kernel.visibleRange_eq_memoryRange readable, List.append_assoc,
      List.append_assoc, List.append_assoc, List.replicate_append_replicate]
    congr 3
    omega

/-- Unreadable bytes need no storing. -/
theorem skip (filling : Filling kernel base chunk copied scratch) {count : Nat}
    (inside : count ≤ chunk - copied)
    (unreadable : ∀ index < count, kernel.readable (base + copied + index) = false) :
    Filling kernel base chunk (copied + count) scratch := by
  have within := filling.within
  refine ⟨filling.fits, by omega, ?_⟩
  rw [filling.contents, Kernel.visibleRange_add, Kernel.visibleRange_eq_zeros unreadable,
    List.append_assoc, List.replicate_append_replicate]
  congr 2
  omega

end Filling

/-- The pipe of the copy loop between two calls. -/
structure Probing (capacity : Nat) (world : World) : Prop where
  clean : world.pipe.Clean
  known : world.pipe.capacity = capacity
  page : 4096 ≤ capacity

theorem Probing.settled {capacity : Nat} {before after : World} (probing : Probing capacity before)
    (settled : Settles before after) : Probing capacity after := by
  obtain ⟨clean, same, page⟩ := probing
  exact ⟨by rw [settled.pipe]; exact clean, by rw [settled.pipe]; exact same, page⟩

theorem Probing.ready {capacity count : Nat} {world : World} (probing : Probing capacity world)
    (fits : count ≤ capacity) : Ready world count :=
  ⟨probing.clean, by rw [probing.known]; exact fits⟩

/-- What a round of the copy loop achieves: it advances over a visible part of the chunk. -/
structure Advances (kernel : Kernel) (base chunk copied : Nat) (world : World) (round : Round) : Prop where
  settled : Settles world round.world
  progress : ∃ bytes, round.result = .ok bytes ∧ 0 < bytes ∧
    Filling kernel base chunk (copied + bytes) round.scratch

/-- A kernel shows the memory of a range that another one holds: what is read of a place in
one call is what is shown from there on, and what cannot be read within the smallest kernel
page is not shown. -/
structure Mirrors (kernel view : Kernel) (start size : Nat) : Prop where
  readable : ∀ place index, start ≤ place → place + index < start + size →
    kernel.readable (place % 2 ^ 64 + index) = true →
      view.readable (place + index) = true ∧ view.memory (place + index) = kernel.memory (place % 2 ^ 64 + index)
  unreadable : ∀ place index, start ≤ place → place + index < start + size → index < 4096 - place % 4096 →
    kernel.readable (place % 2 ^ 64 + index) = false → view.readable (place + index) = false

/-- A range inside the address space is its own mirror. -/
theorem mirrors_self {start size : Nat} (bounded : start + size ≤ 2 ^ 64) : Mirrors kernel kernel start size := by
  have same : ∀ place index, place + index < start + size → place % 2 ^ 64 = place :=
    fun place index inside => Nat.mod_eq_of_lt (by omega)
  refine ⟨?_, ?_⟩
  · intro place index _ inside readable
    rw [same place index inside] at readable ⊢
    exact ⟨readable, rfl⟩
  · intro place index _ inside _ unreadable
    rwa [same place index inside] at unreadable

/-- Bytes that were read are the bytes that are shown. -/
theorem Mirrors.memoryRange_eq {view : Kernel} {start size place count : Nat}
    (mirrors : Mirrors kernel view start size) (behind : start ≤ place) (inside : place + count ≤ start + size)
    (readable : ∀ index < count, kernel.readable (place % 2 ^ 64 + index)) :
    kernel.memoryRange (place % 2 ^ 64) count = view.memoryRange place count := by
  apply List.map_congr_left
  intro index member
  have below := List.mem_range.mp member
  exact (mirrors.readable place index behind (by omega) (readable index below)).2.symm

section Copy

variable {view : Kernel} {capacity start size offset chunk copied : Nat} {scratch : Bytes} {world : World}

/-- Within the smallest kernel page, and so within one page of the kernel. -/
theorem samePage_of_block (pages : 4096 ∣ kernel.pageSize) {address index : Nat}
    (inside : index < 4096 - address % 4096) :
    (address + index) / kernel.pageSize = address / kernel.pageSize := by
  obtain ⟨blocks, size⟩ := pages
  have same : (address + index) / 4096 = address / 4096 := by omega
  rw [size, ← Nat.div_div_eq_div_mul, ← Nat.div_div_eq_div_mul, same]

/-- The single-page fallback copies the page or skips it when it cannot be read. -/
theorem copyPage_advances (reliable : Reliable kernel) (pages : 4096 ∣ kernel.pageSize) {base : Nat}
    (mirrors : Mirrors kernel view start size) (behind : start ≤ base) (ahead : base + chunk ≤ start + size)
    (probing : Probing capacity world) (filling : Filling view base chunk copied scratch) (more : copied < chunk) :
    Advances view base chunk copied world
      (copyPage kernel ((base + copied) % 2 ^ 64) chunk copied scratch world) := by
  obtain ⟨address, addressEq⟩ : ∃ address, address = (base + copied) % 2 ^ 64 := ⟨_, rfl⟩
  obtain ⟨pageChunk, equation⟩ : ∃ pageChunk,
      pageChunk = min (4096 - address % 4096) (chunk - copied) := ⟨_, rfl⟩
  have block : address % 4096 = (base + copied) % 4096 := by omega
  have positive : 0 < pageChunk := by omega
  have inside : pageChunk ≤ chunk - copied := by omega
  have room := probing.page
  have ready : Ready world (List.replicate pageChunk (0 : Byte)).length := by
    rw [List.length_replicate]
    exact probing.ready (by omega)
  have delivered : Delivers kernel address (List.replicate pageChunk 0)
      (readMemory kernel address (List.replicate pageChunk 0) world) ∧ _ :=
    readMemory_delivers reliable ready
  unfold copyPage
  simp only
  rw [← addressEq, ← equation, filling.window_eq inside]
  generalize readMemory kernel address (List.replicate pageChunk 0) world = filled at delivered
  obtain ⟨delivers, settled⟩ := delivered
  have delivery := delivers.block fun index within => by
    rw [List.length_replicate] at within
    exact samePage_of_block pages (by omega)
  cases delivery with
  | whole readable result stored =>
      rw [List.length_replicate, addressEq] at readable
      rw [List.length_replicate] at result
      rw [List.length_replicate, addressEq, mirrors.memoryRange_eq (by omega) (by omega) readable] at stored
      have shown : ∀ index < pageChunk, view.readable (base + copied + index) := fun index within =>
        (mirrors.readable _ index (by omega) (by omega) (readable index within)).1
      obtain ⟨less, rfl⟩ : ∃ less, pageChunk = less + 1 := ⟨pageChunk - 1, by omega⟩
      have advanced := filling.advance inside (Nat.le_refl _) shown
      rw [Nat.sub_self, List.replicate_zero, List.append_nil] at advanced
      simp only [result, stored]
      exact ⟨settled, _, rfl, positive, advanced⟩
  | nothing unreadable result kept =>
      rw [List.length_replicate, addressEq] at unreadable
      have unchanged : overwrite scratch copied (List.replicate pageChunk 0) = scratch := by
        have back := overwrite_window scratch copied pageChunk
        rwa [filling.window_eq inside] at back
      have skipped := filling.skip inside fun index within =>
        mirrors.unreadable _ index (by omega) (by omega) (by omega) (unreadable index within)
      rcases result with none | fault
      · simp only [none, kept, unchanged]
        exact ⟨settled, _, rfl, positive, skipped⟩
      · simp only [fault, kept, unchanged, if_true]
        exact ⟨settled, _, rfl, positive, skipped⟩

/-- Every round of the copy loop advances. -/
theorem copyRound_advances (reliable : Reliable kernel) (pages : 4096 ∣ kernel.pageSize)
    (mirrors : Mirrors kernel view start size) (ahead : offset + chunk ≤ size) (probing : Probing capacity world)
    (filling : Filling view (start + offset) chunk copied scratch) (more : copied < chunk) :
    Advances view (start + offset) chunk copied world
      (copyRound kernel capacity start offset chunk copied scratch world) := by
  obtain ⟨probe, equation⟩ : ∃ probe, probe = min (chunk - copied) capacity := ⟨_, rfl⟩
  have inside : probe ≤ chunk - copied := by omega
  have room := probing.page
  have ready : Ready world (List.replicate probe (0 : Byte)).length := by
    rw [List.length_replicate]
    exact probing.ready (by omega)
  have delivered : Delivers kernel ((start + offset + copied) % 2 ^ 64) (List.replicate probe 0)
      (readMemory kernel ((start + offset + copied) % 2 ^ 64) (List.replicate probe 0) world) ∧ _ :=
    readMemory_delivers reliable ready
  unfold copyRound
  simp only
  rw [← equation, filling.window_eq inside, ← Nat.add_assoc]
  generalize readMemory kernel ((start + offset + copied) % 2 ^ 64) (List.replicate probe 0) world = filled at delivered
  obtain ⟨delivers, settled⟩ := delivered
  obtain ⟨count, within, stored, readable, result⟩ := delivers.stored
  rw [mirrors.memoryRange_eq (by omega) (by omega) readable] at stored
  have shown : ∀ index < count, view.readable (start + offset + copied + index) := fun index below =>
    (mirrors.readable _ index (by omega) (by omega) (readable index below)).1
  have advanced := filling.advance inside within shown
  rw [← stored] at advanced
  -- Without a byte the page fallback continues from the same place.
  have fallback : count = 0 → Advances view (start + offset) chunk copied world
      (copyPage kernel ((start + offset + copied) % 2 ^ 64) chunk copied
        (overwrite scratch copied filled.scratch) filled.world) := by
    rintro rfl
    have page := copyPage_advances reliable pages mirrors (Nat.le_add_right start offset) (by omega)
      (probing.settled settled) advanced more
    exact ⟨settled.trans page.settled, page.progress⟩
  rcases result with ok | ⟨none, fault⟩
  · cases count with
    | zero =>
        simp only [ok]
        exact fallback rfl
    | succ less =>
        simp only [ok]
        exact ⟨settled, _, rfl, Nat.succ_pos _, advanced⟩
  · simp only [fault, if_true]
    exact fallback none

/-- The copy loop fills the whole chunk. -/
theorem copyChunk_fills (reliable : Reliable kernel) (pages : 4096 ∣ kernel.pageSize)
    (mirrors : Mirrors kernel view start size) (ahead : offset + chunk ≤ size) {fuel : Nat}
    (probing : Probing capacity world) (filling : Filling view (start + offset) chunk copied scratch)
    (enough : chunk ≤ fuel + copied) :
    ∃ filled after, copyChunk kernel capacity start offset chunk fuel copied scratch world =
        (.ok (), filled, after) ∧
      Filling view (start + offset) chunk chunk filled ∧ Settles world after := by
  induction fuel generalizing copied scratch world with
  | zero =>
      have whole : copied = chunk := by
        have within := filling.within
        omega
      exact ⟨scratch, world, rfl, whole ▸ filling, Settles.refl _⟩
  | succ fuel ih =>
      by_cases more : copied < chunk
      · obtain ⟨settled, bytes, result, positive, advanced⟩ :=
          copyRound_advances reliable pages mirrors ahead probing filling more
        obtain ⟨filled, after, ran, done, rest⟩ :=
          ih (probing.settled settled) advanced (by omega)
        refine ⟨filled, after, ?_, done, settled.trans rest⟩
        rw [copyChunk, if_pos more]
        generalize copyRound kernel capacity start offset chunk copied scratch world = round at *
        obtain ⟨outcome, buffer, next⟩ := round
        simp only at result
        subst result
        exact ran
      · have whole : copied = chunk := by
          have within := filling.within
          omega
        exact ⟨scratch, world, by rw [copyChunk, if_neg more], whole ▸ filling, Settles.refl _⟩

/-- A zeroed chunk is filled up to its first byte. -/
theorem filling_zeroed {base : Nat} (fits : chunk ≤ scratch.length) :
    Filling view base chunk 0 (overwrite scratch 0 (List.replicate chunk 0)) := by
  refine ⟨?_, Nat.zero_le _, ?_⟩
  · rw [length_overwrite (by simpa using fits)]
    exact fits
  · simp [overwrite]

/-- One chunk holds the visible memory. -/
theorem fillChunk_fills (reliable : Reliable kernel) (pages : 4096 ∣ kernel.pageSize)
    (mirrors : Mirrors kernel view start size) (ahead : offset + chunk ≤ size) (probing : Probing capacity world)
    (fits : chunk ≤ scratch.length) :
    ∃ filled after, fillChunk kernel capacity start offset chunk scratch world = (.ok filled, after) ∧
      filled.take chunk = view.visibleRange (start + offset) chunk ∧ Settles world after := by
  obtain ⟨filled, after, ran, done, settled⟩ :=
    copyChunk_fills reliable pages mirrors ahead probing (filling_zeroed fits) (Nat.le_add_right _ 0)
  refine ⟨filled, after, ?_, ?_, settled⟩
  · simp only [fillChunk, ran]
  · rw [done.contents, Nat.sub_self, List.replicate_zero, List.append_nil]

end Copy

section Streaming

variable {Sink : Type} [Writer Sink] (total : AcceptsEveryByte Sink)

/-- From one state of the machine to another, exactly these bytes were written
and no pipe call blocked or left anything behind. -/
structure Streamed (before after : Machine Sink) (bytes : Bytes) : Prop
    extends Wrote total before after bytes where
  settled : Settles before.world after.world

/-- The segment loop streams the rest of the segment. -/
theorem writeSegment_streams (reliable : Reliable kernel) (pages : 4096 ∣ kernel.pageSize) {view : Kernel}
    {capacity offset : Nat} {mapping : Mapping} {scratch : Bytes} {machine : Machine Sink}
    (mirrors : Mirrors kernel view mapping.start.toNat mapping.writeSize.toNat)
    (probing : Probing capacity machine.world) (accepting : total.accepting machine.sink)
    (size : scratch.length = memoryBufferSize) (within : offset ≤ mapping.writeSize.toNat) :
    ∃ rest after, writeSegment kernel capacity mapping offset scratch machine = (.ok rest, after) ∧
      rest.length = memoryBufferSize ∧
      Streamed total machine after (view.visibleRange (mapping.start.toNat + offset)
        (mapping.writeSize.toNat - offset)) := by
  induction left : mapping.writeSize.toNat - offset using Nat.strongRecOn
    generalizing offset scratch machine with
  | _ remaining ih =>
    by_cases more : offset < mapping.writeSize.toNat
    · obtain ⟨chunk, chunkEq⟩ : ∃ chunk,
          chunk = min (mapping.writeSize.toNat - offset) memoryBufferSize := ⟨_, rfl⟩
      have positive : 0 < memoryBufferSize := by decide
      obtain ⟨filled, world, fillRan, contents, settled⟩ := fillChunk_fills reliable pages mirrors
        (show offset + chunk ≤ mapping.writeSize.toNat by omega) probing
        (show chunk ≤ scratch.length by omega)
      obtain ⟨sent, writeRan, emitted, kept, accepts⟩ :=
        writeFull_emits total (filled.take chunk) { machine with world := world } accepting
      have sentWorld : sent.world = world := kept
      have filledSize := (length_fillChunk (show chunk ≤ scratch.length by omega) fillRan).trans size
      obtain ⟨rest, after, restRan, restSize, streamed⟩ :=
        ih (mapping.writeSize.toNat - (offset + chunk)) (by omega)
          (sentWorld ▸ probing.settled settled) accepts filledSize (by omega) rfl
      refine ⟨rest, after, ?_, restSize, ⟨⟨?_, streamed.accepting⟩, ?_⟩⟩
      · have loaded : onWorld (fillChunk kernel capacity mapping.start.toNat offset chunk scratch) machine =
            (.ok filled, { machine with world := world }) := by
          simp only [onWorld, fillRan]
        rw [writeSegment, dif_pos more]
        simp only [← chunkEq]
        rw [Action.bind_of_ok loaded, Action.bind_of_ok (Action.mapError_of_ok writeRan)]
        exact restRan
      · have stored : total.emitted sent.sink = total.emitted machine.sink ++ filled.take chunk := emitted
        rw [streamed.emitted, stored, contents, List.append_assoc, ← Nat.add_assoc mapping.start.toNat,
          ← Kernel.visibleRange_add]
        congr 2
        omega
      · rw [← sentWorld] at settled
        exact settled.trans streamed.settled
    · refine ⟨scratch, machine, by rw [writeSegment, dif_neg more]; rfl, size, ⟨⟨?_, accepting⟩,
        Settles.refl _⟩⟩
      rw [show remaining = 0 by omega]
      simp

/-- The contents of all segments: what each mapping shows to a reader. -/
def visibleSegments (kernel : Kernel) (mappings : List Mapping) : List Bytes :=
  mappings.map fun mapping => kernel.visibleRange mapping.start.toNat mapping.writeSize.toNat

theorem writeSegments_streams (reliable : Reliable kernel) (pages : 4096 ∣ kernel.pageSize) {view : Kernel}
    {capacity : Nat} {mappings : List Mapping} {scratch : Bytes} {machine : Machine Sink}
    (mirrors : ∀ mapping ∈ mappings, Mirrors kernel view mapping.start.toNat mapping.writeSize.toNat)
    (probing : Probing capacity machine.world) (accepting : total.accepting machine.sink)
    (size : scratch.length = memoryBufferSize) :
    ∃ after, writeSegments kernel capacity mappings scratch machine = (.ok (), after) ∧
      Streamed total machine after (visibleSegments view mappings).flatten := by
  induction mappings generalizing scratch machine with
  | nil => exact ⟨machine, rfl, ⟨by simp [visibleSegments], accepting⟩, Settles.refl _⟩
  | cons mapping rest ih =>
      obtain ⟨left, middle, segmentRan, leftSize, streamed⟩ := writeSegment_streams total reliable pages
        (mirrors mapping List.mem_cons_self) probing accepting size (Nat.zero_le _)
      obtain ⟨after, restRan, streamedRest⟩ := ih (fun other member => mirrors other (List.mem_cons_of_mem _ member))
        (probing.settled streamed.settled) streamed.accepting leftSize
      refine ⟨after, ?_, ⟨?_, streamedRest.accepting⟩, streamed.settled.trans streamedRest.settled⟩
      · rw [writeSegments, Action.bind_of_ok segmentRan]
        exact restRan
      · rw [streamedRest.emitted, streamed.emitted, List.append_assoc]
        rfl

/-- The pipe and its capacity are ready on the documented kernel. -/
theorem openPipe_documented (documented : Documented kernel) (world : World) :
    ∃ capacity piped sized, pipeNew kernel world = (.ok (), piped) ∧
      memoryCapacity kernel piped = (.ok capacity, sized) ∧ Probing capacity sized ∧
      sized.stalled = world.stalled ∧ sized.faulted = world.faulted := by
  obtain ⟨initial, created, large⟩ := documented.pipe2 world.clock
  have page : 4096 ≤ kernel.pageSize := Nat.le_of_dvd documented.pages.1 documented.pages.2
  have piped : pipeNew kernel world = (.ok (), { world.tick with pipe := ⟨[], 0, false, initial⟩ }) := by
    simp only [pipeNew, created]
  by_cases small : initial < memoryBufferSize
  · cases grow : kernel.setPipeSize (world.clock + 1 + 1) memoryBufferSize with
    | error errno =>
        refine ⟨initial, _, { world with
          clock := world.clock + 1 + 1 + 1, pipe := ⟨[], 0, false, initial⟩ }, piped, ?_,
          ⟨⟨rfl, rfl⟩, rfl, by omega⟩, rfl, rfl⟩
        simp only [memoryCapacity, documented.getPipeSize, World.tick, small, if_true, grow]
    | ok grown =>
        have enough := documented.setPipeSize _ _ _ grow
        refine ⟨grown, _, { world with
          clock := world.clock + 1 + 1 + 1, pipe := ⟨[], 0, false, grown⟩ }, piped, ?_,
          ⟨⟨rfl, rfl⟩, rfl, by simp only [memoryBufferSize] at enough; omega⟩, rfl, rfl⟩
        simp only [memoryCapacity, documented.getPipeSize, World.tick, small, if_true, grow]
  · refine ⟨initial, _, { world with
      clock := world.clock + 1 + 1, pipe := ⟨[], 0, false, initial⟩ }, piped, ?_,
      ⟨⟨rfl, rfl⟩, rfl, by omega⟩, rfl, rfl⟩
    simp only [memoryCapacity, documented.getPipeSize, World.tick, small, if_false]

/-- On the documented kernel, a core is written completely and its segments are
what the mappings show. -/
theorem createElfCore_documented {arch : Arch} (documented : Documented kernel) (inputs : CoreInputs arch)
    {machine : Machine Sink} (accepting : total.accepting machine.sink)
    (fits : ∀ mapping ∈ inputs.mappings, mapping.nameLen < fnameMax)
    (bounded : ∀ mapping ∈ inputs.mappings, mapping.start.toNat + mapping.writeSize.toNat ≤ 2 ^ 64) :
    ∃ final, createElfCore kernel inputs machine = (.ok (), final) ∧
      Wrote total machine final
        (inputs.headerBytes ++ (visibleSegments kernel inputs.mappings).flatten) ∧
      final.world.stalled = machine.world.stalled ∧ final.world.faulted = machine.world.faulted := by
  obtain ⟨capacity, piped, sized, pipeRan, sizeRan, probing, unstalled, unfaulted⟩ :=
    openPipe_documented documented machine.world
  obtain ⟨written, writeRan, emitted, kept, accepts⟩ :=
    writeHeaders_emits total inputs fits { machine with world := sized } accepting
  have writtenWorld : written.world = sized := kept
  have prepared : prepareCore kernel inputs machine = (.ok capacity, written) := by
    have opened : onWorld (pipeNew kernel) machine = (.ok (), { machine with world := piped }) := by
      simp only [onWorld, pipeRan]
    have measured : onWorld (memoryCapacity kernel) { machine with world := piped } =
        (.ok capacity, { machine with world := sized }) := by
      simp only [onWorld, sizeRan]
    rw [prepareCore, Action.bind_of_ok (Action.mapError_of_ok opened),
      Action.bind_of_ok (Action.mapError_of_ok measured), Action.bind_of_ok writeRan]
    rfl
  obtain ⟨final, segmentsRan, streamed⟩ := writeSegments_streams total documented.reliable documented.pages.2
    (fun mapping member => mirrors_self (bounded mapping member)) (writtenWorld ▸ probing) accepts
    (List.length_replicate ..)
  refine ⟨final, ?_, ⟨?_, streamed.accepting⟩, ?_, ?_⟩
  · rw [createElfCore, Action.bind_of_ok prepared]
    exact segmentsRan
  · rw [streamed.emitted, ← List.append_assoc]
    exact congrArg (· ++ _) emitted
  · rw [streamed.settled.stalled, writtenWorld, unstalled]
  · rw [streamed.settled.faulted, writtenWorld, unfaulted]

end Streaming

end Corus.Elf
