import Corus.Elf.NoteSection

/-!
# File layout of a core

Offsets are announced in the program headers long before the bytes they point
at are written. `headerBytes` is everything in front of the segments; with
segments of the announced sizes behind it, an independent reader finds each part
exactly where its header says (`Layout.of_segments`).
-/

namespace Corus.Elf

open Corus.Logical Corus.Platform Corus.Output Corus.Memory Corus.Proc

/-- A core file as a reader sees it. -/
structure CoreFile where
  ehdr : Ehdr
  phdrs : List Phdr

/-- Read the file header and the program header table of a little-endian ELF64 core. -/
def decodeCore (file : Bytes) : Option CoreFile :=
  match Ehdr.parser file with
  | none => none
  | some (ehdr, _) =>
      if ehdr.eIdent.toList.take 6 = elfMag ++ [elfClass64, elfData2Lsb] ∧ ehdr.eType = etCore ∧
          ehdr.ePhentsize.toNat = phdrSize then
        match Parser.times ehdr.ePhnum.toNat Phdr.parser (file.drop ehdr.ePhoff.toNat) with
        | none => none
        | some (phdrs, _) => some ⟨ehdr, phdrs⟩
      else none

/-- The file range a program header points at. -/
def Phdr.contents (phdr : Phdr) (file : Bytes) : Bytes :=
  window file phdr.pOffset.toNat phdr.pFilesz.toNat

/-- The file offset just past the range of a program header. -/
def Phdr.fileEnd (phdr : Phdr) : Nat := phdr.pOffset.toNat + phdr.pFilesz.toNat

/-! ## The headers -/

/-- The program headers `writeLoadPhdrs` writes. -/
def loadPhdrsFrom (pagesize : UInt64) : Nat → List Mapping → List Phdr
  | _, [] => []
  | offset, mapping :: rest =>
      loadPhdr pagesize offset mapping :: loadPhdrsFrom pagesize (offset + mapping.writeSize.toNat) rest

/-- The sizes of the segments, in file order. -/
def segmentSizes (mappings : List Mapping) : List Nat :=
  mappings.map fun mapping => mapping.writeSize.toNat

@[simp] theorem length_loadPhdrsFrom (pagesize : UInt64) (offset : Nat) (mappings : List Mapping) :
    (loadPhdrsFrom pagesize offset mappings).length = mappings.length := by
  induction mappings generalizing offset with
  | nil => rfl
  | cons mapping rest ih => simp [loadPhdrsFrom, ih]

/-- Header `index` announces the offset at which its segment starts. -/
theorem loadPhdrsFrom_getElem? (pagesize : UInt64) (offset : Nat) (mappings : List Mapping)
    (index : Nat) :
    (loadPhdrsFrom pagesize offset mappings)[index]? =
      mappings[index]?.map (loadPhdr pagesize (offset + chunkOffset (segmentSizes mappings) index)) := by
  induction mappings generalizing offset index with
  | nil => simp [loadPhdrsFrom]
  | cons mapping rest ih =>
      cases index with
      | zero => simp [loadPhdrsFrom]
      | succ index =>
          simp only [loadPhdrsFrom, List.getElem?_cons_succ, ih, segmentSizes, List.map_cons,
            chunkOffset_cons_succ, Nat.add_assoc]

namespace CoreInputs

variable {arch : Arch} (inputs : CoreInputs arch)

def loadPhdrs : List Phdr := loadPhdrsFrom inputs.pagesize inputs.segmentsStart inputs.mappings

/-- The program header table. -/
def phdrs : List Phdr := inputs.notePhdr :: inputs.loadPhdrs

/-- The file up to the first segment. -/
def headerBytes : Bytes :=
  inputs.ehdr.asBytes ++ (inputs.phdrs.flatMap Phdr.asBytes ++
    (inputs.noteSection ++ List.replicate inputs.noteAlign 0))

theorem length_phdrs : inputs.phdrs.length = inputs.mappings.length + 1 := by
  simp [phdrs, loadPhdrs]

theorem length_phdrs_asBytes :
    (inputs.phdrs.flatMap Phdr.asBytes).length = (inputs.mappings.length + 1) * phdrSize := by
  rw [← inputs.length_phdrs]
  induction inputs.phdrs with
  | nil => simp
  | cons phdr rest ih =>
      rw [List.flatMap_cons, List.length_append, ih, Phdr.length_asBytes, List.length_cons,
        Nat.succ_mul, Nat.add_comm]

theorem length_headerBytes (fits : ∀ mapping ∈ inputs.mappings, mapping.nameLen < fnameMax) :
    inputs.headerBytes.length = inputs.segmentsStart := by
  simp only [headerBytes, List.length_append, Ehdr.length_asBytes, length_phdrs_asBytes,
    length_noteSection inputs fits, List.length_replicate, segmentsStart, phdrsEnd]
  omega

/-- The first segment starts on a page boundary. -/
theorem pagesize_dvd_segmentsStart (positive : 0 < inputs.pagesize.toNat) :
    inputs.pagesize.toNat ∣ inputs.segmentsStart := by
  have bounded := Nat.mod_lt (inputs.phdrsEnd + inputs.noteSectionSize) positive
  have split := Nat.div_add_mod (inputs.phdrsEnd + inputs.noteSectionSize) inputs.pagesize.toNat
  by_cases aligned : (inputs.phdrsEnd + inputs.noteSectionSize) % inputs.pagesize.toNat = 0
  · rw [segmentsStart, noteAlign, aligned, Nat.sub_zero, Nat.mod_self, Nat.add_zero]
    exact Nat.dvd_of_mod_eq_zero aligned
  · rw [segmentsStart, noteAlign, Nat.mod_eq_of_lt (by omega)]
    refine ⟨(inputs.phdrsEnd + inputs.noteSectionSize) / inputs.pagesize.toNat + 1, ?_⟩
    rw [Nat.mul_add, Nat.mul_one]
    omega

/-- The size of the core that is written for the inputs. -/
def fileSize : Nat := inputs.segmentsStart + (segmentSizes inputs.mappings).sum

end CoreInputs

section Emission

variable {arch : Arch} {Sink : Type} [Writer Sink] (total : AcceptsEveryByte Sink)

theorem writeLoadPhdrs_emits (pagesize : UInt64) (offset : Nat) (mappings : List Mapping) :
    Emits total.observation (writeLoadPhdrs pagesize offset mappings)
      ((loadPhdrsFrom pagesize offset mappings).flatMap Phdr.asBytes) := by
  induction mappings generalizing offset with
  | nil => exact Emits.pure
  | cons mapping rest ih => exact (writeFull_emits total _).mapError.bind (ih _)

/-- The padding loop writes that many zeros, whatever its block size. -/
theorem writePadding_emits (remaining : Nat) :
    Emits total.observation (writePadding remaining) (List.replicate remaining 0) := by
  induction remaining using Nat.strongRecOn with
  | _ remaining ih =>
    rw [writePadding]
    by_cases more : remaining > 0
    · have block : (List.replicate 4096 0 : Bytes).take (min remaining 4096) ++
          List.replicate (remaining - min remaining 4096) 0 = List.replicate remaining 0 := by
        rw [List.take_replicate, List.replicate_append_replicate]
        congr 1
        omega
      rw [dif_pos more, ← block]
      exact (writeFull_emits total _).mapError.bind (ih _ (by omega))
    · rw [dif_neg more, Nat.eq_zero_of_not_pos more]
      exact Emits.pure

theorem writeHeaders_emits (inputs : CoreInputs arch)
    (fits : ∀ mapping ∈ inputs.mappings, mapping.nameLen < fnameMax) :
    Emits total.observation inputs.writeHeaders inputs.headerBytes := by
  have order : inputs.headerBytes = inputs.ehdr.asBytes ++ (inputs.notePhdr.asBytes ++
      (inputs.loadPhdrs.flatMap Phdr.asBytes ++
        (inputs.noteSection ++ List.replicate inputs.noteAlign 0))) := by
    simp only [CoreInputs.headerBytes, CoreInputs.phdrs, List.flatMap_cons, List.append_assoc]
  rw [order]
  exact (writeFull_emits total _).mapError.bind ((writeFull_emits total _).mapError.bind
    ((writeLoadPhdrs_emits total _ _ _).bind
      ((writeNotes_emits total inputs fits).bind (writePadding_emits total _))))

end Emission

/-! ## The segments, whatever the kernel answers -/

theorem length_copyPage (kernel : Kernel) (address chunk copied : Nat) (scratch : Bytes)
    (world : World) :
    (copyPage kernel address chunk copied scratch world).scratch.length = scratch.length := by
  have kept := length_overwrite_window
    (length_readMemory kernel address (window scratch copied (min (4096 - address % 4096) (chunk - copied)))
      world)
  unfold copyPage
  simp only
  split
  · exact kept
  · exact kept
  · split <;> exact kept

theorem length_copyRound (kernel : Kernel) (capacity start offset chunk copied : Nat)
    (scratch : Bytes) (world : World) :
    (copyRound kernel capacity start offset chunk copied scratch world).scratch.length =
      scratch.length := by
  have kept := length_overwrite_window
    (length_readMemory kernel ((start + (offset + copied)) % 2 ^ 64)
      (window scratch copied (min (chunk - copied) capacity)) world)
  unfold copyRound
  simp only
  split
  · rw [length_copyPage, kept]
  · exact kept
  · split
    · rw [length_copyPage, kept]
    · exact kept

theorem length_copyChunk (kernel : Kernel) (capacity start offset chunk fuel copied : Nat)
    (scratch : Bytes) (world : World) :
    (copyChunk kernel capacity start offset chunk fuel copied scratch world).2.1.length =
      scratch.length := by
  induction fuel generalizing copied scratch world with
  | zero => rfl
  | succ fuel ih =>
      have kept := length_copyRound kernel capacity start offset chunk copied scratch world
      unfold copyChunk
      split
      · split
        · rename_i round
          rw [round] at kept
          rw [ih, ← kept]
        · rename_i round
          rw [round] at kept
          exact kept
      · rfl

/-- Filling a chunk keeps the scratch buffer's length. -/
theorem length_fillChunk {kernel : Kernel} {capacity start offset chunk : Nat} {scratch filled : Bytes}
    {world after : World} (fits : chunk ≤ scratch.length)
    (ran : fillChunk kernel capacity start offset chunk scratch world = (.ok filled, after)) :
    filled.length = scratch.length := by
  have kept := length_copyChunk kernel capacity start offset chunk chunk 0
    (overwrite scratch 0 (List.replicate chunk 0)) world
  rw [length_overwrite (by simpa using fits)] at kept
  unfold fillChunk at ran
  simp only at ran
  split at ran
  · rename_i copied
    rw [copied] at kept
    cases ran
    exact kept
  · cases ran

section Segments

variable {Sink : Type} [Writer Sink] (total : AcceptsEveryByte Sink)

/-- From one state of the machine to another, exactly these bytes were written. -/
structure Wrote (before after : Machine Sink) (bytes : Bytes) : Prop where
  emitted : total.emitted after.sink = total.emitted before.sink ++ bytes
  accepting : total.accepting after.sink

/-- What was written between two states of the machine. -/
def writtenBetween (before after : Machine Sink) : Bytes :=
  (total.emitted after.sink).drop (total.emitted before.sink).length

theorem Wrote.writtenBetween_eq {before after : Machine Sink} {bytes : Bytes}
    (wrote : Wrote total before after bytes) : writtenBetween total before after = bytes := by
  rw [writtenBetween, wrote.emitted, List.drop_left]

/-- One round of the segment loop: it fills the chunk and writes exactly that. -/
theorem writeSegment_round {kernel : Kernel} {capacity offset : Nat} {mapping : Mapping}
    {scratch rest : Bytes} {before after : Machine Sink} (accepting : total.accepting before.sink)
    (size : scratch.length = memoryBufferSize) (more : offset < mapping.writeSize.toNat)
    (ran : writeSegment kernel capacity mapping offset scratch before = (.ok rest, after)) :
    ∃ chunk filled middle, chunk = min (mapping.writeSize.toNat - offset) memoryBufferSize ∧
      filled.length = memoryBufferSize ∧ Wrote total before middle (filled.take chunk) ∧
      writeSegment kernel capacity mapping (offset + chunk) filled middle = (.ok rest, after) := by
  rw [writeSegment, dif_pos more] at ran
  obtain ⟨filled, loaded, fillRan, nextRan⟩ := Action.bind_eq_ok ran
  obtain ⟨world, filledRan, rfl⟩ := onWorld_eq_ok fillRan
  obtain ⟨_, sent, writeRan, restRan⟩ := Action.bind_eq_ok nextRan
  obtain ⟨stored, storeRan, emitted, _, accepts⟩ := writeFull_emits total
    (filled.take (min (mapping.writeSize.toNat - offset) memoryBufferSize))
    { before with world := world } accepting
  cases (Action.mapError_eq_ok writeRan).symm.trans storeRan
  exact ⟨_, filled, sent, rfl, (length_fillChunk (by omega) filledRan).trans size,
    ⟨emitted, accepts⟩, restRan⟩

/-- A segment loop that returns has written as many bytes as the mapping's write
size has left, and handed back a scratch buffer of the same length. -/
theorem writeSegment_wrote {kernel : Kernel} {capacity offset : Nat} {mapping : Mapping}
    {scratch rest : Bytes} {before after : Machine Sink} (accepting : total.accepting before.sink)
    (size : scratch.length = memoryBufferSize)
    (ran : writeSegment kernel capacity mapping offset scratch before = (.ok rest, after)) :
    rest.length = memoryBufferSize ∧ ∃ bytes, Wrote total before after bytes ∧
      bytes.length = mapping.writeSize.toNat - offset := by
  -- Every round writes one non-empty chunk, so fewer bytes are left.
  induction left : mapping.writeSize.toNat - offset using Nat.strongRecOn
    generalizing offset scratch before with
  | _ remaining ih =>
    by_cases more : offset < mapping.writeSize.toNat
    · obtain ⟨chunk, filled, middle, chunkEq, filledSize, wroteChunk, restRan⟩ :=
        writeSegment_round total accepting size more ran
      have positive : 0 < memoryBufferSize := by decide
      obtain ⟨restSize, bytes, wrote, length⟩ :=
        ih (mapping.writeSize.toNat - (offset + chunk)) (by omega) wroteChunk.accepting filledSize
          restRan rfl
      refine ⟨restSize, filled.take chunk ++ bytes, ⟨?_, wrote.accepting⟩, ?_⟩
      · rw [wrote.emitted, wroteChunk.emitted, List.append_assoc]
      · rw [List.length_append, List.length_take, length, filledSize]
        omega
    · rw [writeSegment, dif_neg more] at ran
      cases ran
      exact ⟨size, [], ⟨by simp, accepting⟩, by simp only [List.length_nil]; omega⟩

/-- What the segment loop wrote for each mapping, in order. -/
def segmentOutputs (kernel : Kernel) (capacity : Nat) :
    List Mapping → Bytes → Machine Sink → List Bytes
  | [], _, _ => []
  | mapping :: rest, scratch, machine =>
      match writeSegment kernel capacity mapping 0 scratch machine with
      | (.ok scratch, after) =>
          writtenBetween total machine after :: segmentOutputs kernel capacity rest scratch after
      | (.error _, _) => []

/-- A returning run of the segment loops wrote the outputs one after the other,
each of the announced size. -/
theorem writeSegments_wrote {kernel : Kernel} {capacity : Nat} {mappings : List Mapping}
    {scratch : Bytes} {before after : Machine Sink} (accepting : total.accepting before.sink)
    (size : scratch.length = memoryBufferSize)
    (ran : writeSegments kernel capacity mappings scratch before = (.ok (), after)) :
    Wrote total before after (segmentOutputs total kernel capacity mappings scratch before).flatten ∧
      (segmentOutputs total kernel capacity mappings scratch before).map List.length =
        segmentSizes mappings := by
  induction mappings generalizing scratch before with
  | nil =>
      cases ran
      exact ⟨⟨by simp [segmentOutputs], accepting⟩, rfl⟩
  | cons mapping rest ih =>
      obtain ⟨left, middle, segmentRan, restRan⟩ := Action.bind_eq_ok ran
      obtain ⟨leftSize, bytes, wrote, length⟩ := writeSegment_wrote total accepting size segmentRan
      obtain ⟨wroteRest, sizes⟩ := ih wrote.accepting leftSize restRan
      simp only [segmentOutputs, segmentRan, wrote.writtenBetween_eq, List.flatten_cons,
        List.map_cons, length, sizes]
      refine ⟨⟨?_, wroteRest.accepting⟩, rfl⟩
      rw [wroteRest.emitted, wrote.emitted, List.append_assoc]

/-- However a segment loop ends, it writes no more than the mapping's write size
has left. -/
theorem writeSegment_within (kernel : Kernel) (capacity : Nat) (mapping : Mapping) (offset : Nat)
    (scratch : Bytes) {before : Machine Sink} (accepting : total.accepting before.sink) :
    ∃ bytes, Wrote total before (writeSegment kernel capacity mapping offset scratch before).2 bytes ∧
      bytes.length ≤ mapping.writeSize.toNat - offset := by
  induction left : mapping.writeSize.toNat - offset using Nat.strongRecOn
    generalizing offset scratch before with
  | _ remaining ih =>
    have nothing : ∀ world, Wrote total before { before with world := world } [] := fun world =>
      ⟨(List.append_nil _).symm, accepting⟩
    rw [writeSegment]
    split
    · rename_i more
      have positive : 0 < memoryBufferSize := by decide
      rcases filled : fillChunk kernel capacity mapping.start.toNat offset
          (min (mapping.writeSize.toNat - offset) memoryBufferSize) scratch before.world with
        ⟨failure | chunk, world⟩
      · rw [Action.bind_of_error (onWorld_of_eq filled)]
        exact ⟨[], nothing world, Nat.zero_le _⟩
      · obtain ⟨stored, storeRan, emitted, _, accepts⟩ := writeFull_emits total
          (chunk.take (min (mapping.writeSize.toNat - offset) memoryBufferSize))
          { before with world := world } accepting
        rw [Action.bind_of_ok (onWorld_of_eq filled), Action.bind_of_ok (Action.mapError_of_ok storeRan)]
        obtain ⟨bytes, wrote, within⟩ := ih (mapping.writeSize.toNat -
          (offset + min (mapping.writeSize.toNat - offset) memoryBufferSize)) (by omega)
          (offset + min (mapping.writeSize.toNat - offset) memoryBufferSize) chunk accepts rfl
        refine ⟨chunk.take (min (mapping.writeSize.toNat - offset) memoryBufferSize) ++ bytes,
          ⟨?_, wrote.accepting⟩, ?_⟩
        · rw [wrote.emitted, show total.emitted stored.sink = _ from emitted, List.append_assoc]
          rfl
        · rw [List.length_append, List.length_take]
          omega
    · exact ⟨[], nothing before.world, Nat.zero_le _⟩

/-- However the segment loops end, they write no more than all write sizes together. -/
theorem writeSegments_within (kernel : Kernel) (capacity : Nat) (mappings : List Mapping) (scratch : Bytes)
    {before : Machine Sink} (accepting : total.accepting before.sink) :
    ∃ bytes, Wrote total before (writeSegments kernel capacity mappings scratch before).2 bytes ∧
      bytes.length ≤ (segmentSizes mappings).sum := by
  induction mappings generalizing scratch before with
  | nil => exact ⟨[], ⟨(List.append_nil _).symm, accepting⟩, Nat.zero_le _⟩
  | cons mapping rest ih =>
      obtain ⟨bytes, wrote, within⟩ := writeSegment_within total kernel capacity mapping 0 scratch accepting
      rcases ran : writeSegment kernel capacity mapping 0 scratch before with ⟨failure | left, after⟩
      · rw [ran] at wrote
        rw [writeSegments, Action.bind_of_error ran]
        refine ⟨bytes, wrote, Nat.le_trans within ?_⟩
        simp only [segmentSizes, List.map_cons, List.sum_cons]
        omega
      · rw [ran] at wrote
        rw [writeSegments, Action.bind_of_ok ran]
        obtain ⟨others, wroteOthers, withinOthers⟩ := ih left wrote.accepting
        refine ⟨bytes ++ others, ⟨?_, wroteOthers.accepting⟩, ?_⟩
        · rw [wroteOthers.emitted, wrote.emitted, List.append_assoc]
        · simp only [segmentSizes, List.map_cons, List.sum_cons, List.length_append] at withinOthers ⊢
          omega

end Segments

/-! ## What a reader recovers -/

/-- What is asked of the inputs of the assembly: few enough mappings for
`e_phnum`, ordered ranges, stored names of the documented size, a power of two
as page size, and a file smaller than 2^64 bytes. -/
structure CoreInputs.Sized {arch : Arch} (inputs : CoreInputs arch) : Prop where
  count : inputs.mappings.length ≤ 65534
  ordered : ∀ mapping ∈ inputs.mappings, mapping.start.toNat ≤ mapping.end.toNat
  nameLen : ∀ mapping ∈ inputs.mappings, mapping.nameLen < fnameMax
  pagesize : ∃ exponent, inputs.pagesize.toNat = 2 ^ exponent
  total : inputs.segmentsStart + (segmentSizes inputs.mappings).sum < 2 ^ 64

/-- A decoded core describes its inputs: `notes` and `segments` are the bytes
that were written as the note section and for each mapping. -/
structure Layout {arch : Arch} (inputs : CoreInputs arch) (file notes : Bytes) (segments : List Bytes)
    (core : CoreFile) : Prop where
  phoff : core.ehdr.ePhoff = 64
  phnum : core.ehdr.ePhnum.toNat = inputs.mappings.length + 1
  count : core.phdrs.length = inputs.mappings.length + 1
  note : ∀ phdr : Phdr, core.phdrs[0]? = some phdr →
    phdr.pType = ptNote ∧ phdr.pFilesz.toNat = notes.length ∧ phdr.contents file = notes
  load : ∀ (index : Nat) (mapping : Mapping), inputs.mappings[index]? = some mapping →
    ∃ (phdr : Phdr) (segment : Bytes), core.phdrs[index + 1]? = some phdr ∧ segments[index]? = some segment ∧
      phdr.pType = ptLoad ∧ phdr.pVaddr = mapping.start ∧
      phdr.pMemsz.toNat = mapping.end.toNat - mapping.start.toNat ∧
      phdr.pFlags = mapping.pfFlags ∧ phdr.pFilesz = mapping.writeSize ∧
      segment.length = mapping.writeSize.toNat ∧ phdr.contents file = segment
  consecutive : ∀ (index : Nat) (phdr next : Phdr), core.phdrs[index + 1]? = some phdr →
    core.phdrs[index + 2]? = some next → next.pOffset.toNat = phdr.fileEnd
  disjoint : ∀ (first second : Nat) (phdr other : Phdr), first < second → core.phdrs[first + 1]? = some phdr →
    core.phdrs[second + 1]? = some other → phdr.fileEnd ≤ other.pOffset.toNat
  padding : ∀ note first : Phdr, core.phdrs[0]? = some note → core.phdrs[1]? = some first →
    note.fileEnd ≤ first.pOffset.toNat ∧
      window file note.fileEnd (first.pOffset.toNat - note.fileEnd) =
        List.replicate (first.pOffset.toNat - note.fileEnd) 0
  aligned : ∀ first : Phdr, core.phdrs[1]? = some first → inputs.pagesize.toNat ∣ first.pOffset.toNat
  ends : ∀ last : Phdr, inputs.mappings ≠ [] → core.phdrs.getLast? = some last → file.length = last.fileEnd

namespace CoreInputs

variable {arch : Arch} {inputs : CoreInputs arch}

/-- The reader finds the header and all program headers. -/
theorem decodeCore_headerBytes (count : inputs.mappings.length ≤ 65534) (rest : Bytes) :
    decodeCore (inputs.headerBytes ++ rest) = some ⟨inputs.ehdr, inputs.phdrs⟩ := by
  have phnum : inputs.ehdr.ePhnum.toNat = inputs.phdrs.length := by
    simp only [ehdr, inputs.length_phdrs, UInt16.toNat_ofNat']
    omega
  have table : Parses (Parser.times inputs.ehdr.ePhnum.toNat Phdr.parser)
      (inputs.phdrs.flatMap Phdr.asBytes) inputs.phdrs := by
    have reads := @Parses.times Phdr Phdr.parser Phdr Phdr.asBytes id inputs.phdrs fun phdr _ =>
      Phdr.parses_asBytes phdr
    rwa [List.map_id, ← phnum] at reads
  have identified : inputs.ehdr.eIdent.toList.take 6 = elfMag ++ [elfClass64, elfData2Lsb] ∧
      inputs.ehdr.eType = etCore ∧ inputs.ehdr.ePhentsize.toNat = phdrSize := ⟨rfl, rfl, rfl⟩
  have dropped : (inputs.headerBytes ++ rest).drop inputs.ehdr.ePhoff.toNat =
      inputs.phdrs.flatMap Phdr.asBytes ++
        (inputs.noteSection ++ (List.replicate inputs.noteAlign 0 ++ rest)) := by
    simp only [headerBytes, List.append_assoc]
    exact List.drop_left' (Ehdr.length_asBytes _)
  have header : Ehdr.parser (inputs.headerBytes ++ rest) =
      some (inputs.ehdr, inputs.phdrs.flatMap Phdr.asBytes ++
        (inputs.noteSection ++ (List.replicate inputs.noteAlign 0 ++ rest))) := by
    simp only [headerBytes, List.append_assoc]
    exact Ehdr.parses_asBytes inputs.ehdr _
  simp only [decodeCore, header, identified, and_self, if_true, dropped, table _]

/-- Where a load header points, and how much it announces. -/
theorem phdrs_load (sized : inputs.Sized) {index : Nat} {phdr : Phdr}
    (found : inputs.phdrs[index + 1]? = some phdr) :
    ∃ mapping, inputs.mappings[index]? = some mapping ∧
      phdr = loadPhdr inputs.pagesize
        (inputs.segmentsStart + chunkOffset (segmentSizes inputs.mappings) index) mapping ∧
      phdr.pOffset.toNat = inputs.segmentsStart + chunkOffset (segmentSizes inputs.mappings) index ∧
      phdr.fileEnd = inputs.segmentsStart + chunkOffset (segmentSizes inputs.mappings) (index + 1) := by
  rw [phdrs, List.getElem?_cons_succ, loadPhdrs, loadPhdrsFrom_getElem?, Option.map_eq_some_iff] at found
  obtain ⟨mapping, listed, rfl⟩ := found
  have size : (segmentSizes inputs.mappings)[index]? = some mapping.writeSize.toNat := by
    simp [segmentSizes, listed]
  have below := chunkOffset_le_sum (segmentSizes inputs.mappings) index
  have bound := sized.total
  have offset : (UInt64.ofNat (inputs.segmentsStart +
      chunkOffset (segmentSizes inputs.mappings) index)).toNat =
        inputs.segmentsStart + chunkOffset (segmentSizes inputs.mappings) index := by
    rw [UInt64.toNat_ofNat', Nat.mod_eq_of_lt (by omega)]
  refine ⟨mapping, listed, rfl, offset, ?_⟩
  rw [Phdr.fileEnd, chunkOffset_succ size, ← Nat.add_assoc]
  exact congrArg (· + mapping.writeSize.toNat) offset

/-- The note header announces exactly the place and size of the notes. -/
theorem notePhdr_range (sized : inputs.Sized) :
    inputs.notePhdr.pOffset.toNat = inputs.phdrsEnd ∧
      inputs.notePhdr.pFilesz.toNat = inputs.noteSectionSize ∧
      inputs.notePhdr.fileEnd = inputs.phdrsEnd + inputs.noteSectionSize := by
  have bound := sized.total
  have start : inputs.segmentsStart = inputs.phdrsEnd + inputs.noteSectionSize + inputs.noteAlign := rfl
  have offset : inputs.notePhdr.pOffset.toNat = inputs.phdrsEnd := by
    simp only [notePhdr, UInt64.toNat_ofNat']
    omega
  have filesz : inputs.notePhdr.pFilesz.toNat = inputs.noteSectionSize := by
    simp only [notePhdr, UInt64.toNat_ofNat']
    omega
  exact ⟨offset, filesz, by rw [Phdr.fileEnd, offset, filesz]⟩

theorem length_beforeNotes :
    (inputs.ehdr.asBytes ++ inputs.phdrs.flatMap Phdr.asBytes).length = inputs.phdrsEnd := by
  rw [List.length_append, Ehdr.length_asBytes, inputs.length_phdrs_asBytes]
  rfl

theorem contents_notePhdr (sized : inputs.Sized) (rest : Bytes) :
    inputs.notePhdr.contents (inputs.headerBytes ++ rest) = inputs.noteSection := by
  obtain ⟨offset, filesz, _⟩ := notePhdr_range sized
  have shape : inputs.headerBytes ++ rest = inputs.ehdr.asBytes ++ inputs.phdrs.flatMap Phdr.asBytes ++
      (inputs.noteSection ++ (List.replicate inputs.noteAlign 0 ++ rest)) := by
    simp only [headerBytes, List.append_assoc]
  rw [Phdr.contents, offset, filesz, shape]
  exact window_append length_beforeNotes (length_noteSection inputs sized.nameLen)

theorem window_padding (sized : inputs.Sized) (rest : Bytes) :
    window (inputs.headerBytes ++ rest) (inputs.phdrsEnd + inputs.noteSectionSize) inputs.noteAlign =
      List.replicate inputs.noteAlign 0 := by
  have shape : inputs.headerBytes ++ rest =
      inputs.ehdr.asBytes ++ inputs.phdrs.flatMap Phdr.asBytes ++ inputs.noteSection ++
        (List.replicate inputs.noteAlign 0 ++ rest) := by
    simp only [headerBytes, List.append_assoc]
  have before : (inputs.ehdr.asBytes ++ inputs.phdrs.flatMap Phdr.asBytes ++
      inputs.noteSection).length = inputs.phdrsEnd + inputs.noteSectionSize := by
    rw [List.length_append, length_beforeNotes, length_noteSection inputs sized.nameLen]
  rw [shape]
  exact window_append before (List.length_replicate ..)

/-- With segments of the announced sizes behind the headers, the file is laid out as announced. -/
theorem layout_of_segments (sized : inputs.Sized) {segments : List Bytes}
    (sizes : segments.map List.length = segmentSizes inputs.mappings) :
    Layout inputs (inputs.headerBytes ++ segments.flatten) inputs.noteSection segments
      ⟨inputs.ehdr, inputs.phdrs⟩ := by
  have headers := inputs.length_headerBytes sized.nameLen
  have start : inputs.segmentsStart = inputs.phdrsEnd + inputs.noteSectionSize + inputs.noteAlign := rfl
  obtain ⟨_, noteFilesz, noteEnd⟩ := notePhdr_range sized
  constructor
  case phoff => rfl
  case phnum =>
    have count := sized.count
    simp only [ehdr, UInt16.toNat_ofNat']
    omega
  case count => exact inputs.length_phdrs
  case note =>
    rintro phdr ⟨rfl⟩
    exact ⟨rfl, noteFilesz.trans (length_noteSection inputs sized.nameLen).symm,
      contents_notePhdr sized _⟩
  case load =>
    intro index mapping listed
    have size : (segments.map List.length)[index]? = some mapping.writeSize.toNat := by
      simp [sizes, segmentSizes, listed]
    rw [List.getElem?_map, Option.map_eq_some_iff] at size
    obtain ⟨segment, found, length⟩ := size
    have here : inputs.phdrs[index + 1]? = some (loadPhdr inputs.pagesize
        (inputs.segmentsStart + chunkOffset (segmentSizes inputs.mappings) index) mapping) := by
      rw [phdrs, List.getElem?_cons_succ, loadPhdrs, loadPhdrsFrom_getElem?, listed, Option.map_some]
    obtain ⟨_, _, _, offset, _⟩ := phdrs_load sized here
    refine ⟨_, segment, here, found, rfl, rfl, ?_, rfl, rfl, length, ?_⟩
    · have ordered := sized.ordered mapping (List.mem_of_getElem? listed)
      exact UInt64.toNat_sub_of_le _ _ (UInt64.le_iff_toNat_le.mpr ordered)
    · have located := @window_flatten segments inputs.headerBytes [] segment index found
      rw [List.append_nil, headers, sizes, length] at located
      rw [Phdr.contents, offset]
      exact located
  case consecutive =>
    intro index phdr next found foundNext
    obtain ⟨_, _, _, _, ends⟩ := phdrs_load sized found
    obtain ⟨_, _, _, offset, _⟩ := phdrs_load sized foundNext
    rw [offset, ends]
  case disjoint =>
    intro first second phdr other ordered found foundOther
    obtain ⟨_, _, _, _, ends⟩ := phdrs_load sized found
    obtain ⟨_, _, _, offset, _⟩ := phdrs_load sized foundOther
    rw [offset, ends]
    exact Nat.add_le_add_left (chunkOffset_mono _ ordered) _
  case padding =>
    rintro note first ⟨rfl⟩ found
    obtain ⟨_, _, _, offset, _⟩ := phdrs_load sized found
    rw [chunkOffset_zero, Nat.add_zero, start] at offset
    have gap : first.pOffset.toNat - inputs.notePhdr.fileEnd = inputs.noteAlign := by omega
    rw [gap, noteEnd]
    exact ⟨by omega, window_padding sized _⟩
  case aligned =>
    intro first found
    obtain ⟨_, _, _, offset, _⟩ := phdrs_load sized found
    rw [chunkOffset_zero, Nat.add_zero] at offset
    obtain ⟨exponent, power⟩ := sized.pagesize
    rw [offset]
    exact inputs.pagesize_dvd_segmentsStart (by rw [power]; exact Nat.two_pow_pos exponent)
  case ends =>
    intro last some found
    have count := inputs.length_phdrs
    have positive : 0 < inputs.mappings.length := List.length_pos_iff.mpr some
    obtain ⟨before, previous⟩ : ∃ before, inputs.mappings.length = before + 1 :=
      ⟨inputs.mappings.length - 1, by omega⟩
    rw [List.getLast?_eq_getElem?, count, Nat.add_sub_cancel, previous] at found
    obtain ⟨_, _, _, _, ends⟩ := phdrs_load sized found
    have whole : chunkOffset (segmentSizes inputs.mappings) (before + 1) =
        (segmentSizes inputs.mappings).sum := by
      rw [chunkOffset, List.take_of_length_le (by simp [segmentSizes, previous])]
    rw [ends, whole, List.length_append, headers, List.length_flatten, sizes]

end CoreInputs

/-- Preparing the core fails before anything is written, or writes the headers. -/
theorem prepareCore_wrote {arch : Arch} {Sink : Type} [Writer Sink] (total : AcceptsEveryByte Sink)
    {inputs : CoreInputs arch} (fits : ∀ mapping ∈ inputs.mappings, mapping.nameLen < fnameMax)
    (kernel : Kernel) {machine : Machine Sink} (accepting : total.accepting machine.sink) :
    (∃ failure world, prepareCore kernel inputs machine = (.error failure, { machine with world := world })) ∨
      ∃ capacity prepared, prepareCore kernel inputs machine = (.ok capacity, prepared) ∧
        Wrote total machine prepared inputs.headerBytes := by
  unfold prepareCore
  rcases piped : pipeNew kernel machine.world with ⟨errno | _, world⟩
  · exact .inl ⟨_, _, Action.bind_of_error (Action.mapError_of_error (onWorld_of_eq piped))⟩
  rw [Action.bind_of_ok (Action.mapError_of_ok (onWorld_of_eq piped))]
  rcases sized : memoryCapacity kernel world with ⟨errno | capacity, world⟩
  · exact .inl ⟨_, _, Action.bind_of_error (Action.mapError_of_error (onWorld_of_eq sized))⟩
  rw [Action.bind_of_ok (Action.mapError_of_ok (onWorld_of_eq sized))]
  obtain ⟨stored, storeRan, emitted, _, accepts⟩ :=
    writeHeaders_emits total inputs fits { machine with world := world } accepting
  rw [Action.bind_of_ok storeRan]
  exact .inr ⟨capacity, stored, rfl, emitted, accepts⟩

/-- What a run that prepared the core and then returned has written: the headers
and the outputs of the segment loop. -/
theorem createElfCore_wrote {arch : Arch} {Sink : Type} [Writer Sink] (total : AcceptsEveryByte Sink)
    {inputs : CoreInputs arch} (fits : ∀ mapping ∈ inputs.mappings, mapping.nameLen < fnameMax)
    {kernel : Kernel} {machine final : Machine Sink} (accepting : total.accepting machine.sink)
    (ran : createElfCore kernel inputs machine = (.ok (), final)) :
    ∃ capacity prepared, prepareCore kernel inputs machine = (.ok capacity, prepared) ∧
      Wrote total machine final (inputs.headerBytes ++ (segmentOutputs total kernel capacity
        inputs.mappings (List.replicate memoryBufferSize 0) prepared).flatten) ∧
      (segmentOutputs total kernel capacity inputs.mappings (List.replicate memoryBufferSize 0)
        prepared).map List.length = segmentSizes inputs.mappings := by
  obtain ⟨capacity, prepared, prepareRan, segmentsRan⟩ := Action.bind_eq_ok ran
  rcases prepareCore_wrote total fits kernel accepting with ⟨_, _, failed⟩ | ⟨_, _, returned, headers⟩
  · cases prepareRan.symm.trans failed
  cases prepareRan.symm.trans returned
  obtain ⟨wrote, sizes⟩ := writeSegments_wrote total headers.accepting (List.length_replicate ..) segmentsRan
  refine ⟨capacity, prepared, prepareRan, ⟨?_, wrote.accepting⟩, sizes⟩
  rw [wrote.emitted, headers.emitted, List.append_assoc]

/-- Every core that was written completely decodes to its inputs: the program
headers describe the notes and each mapping, and their file ranges hold exactly
what was written for them, one after the other, from a page boundary to the end
of the file. -/
theorem createElfCore_decodes {arch : Arch} {Sink : Type} [Writer Sink] (total : AcceptsEveryByte Sink)
    (inputs : CoreInputs arch) (valid : inputs.Sized) (kernel : Kernel) (machine final : Machine Sink)
    (accepting : total.accepting machine.sink)
    (ran : createElfCore kernel inputs machine = (.ok (), final)) :
    ∃ file notes capacity prepared core,
      total.emitted final.sink = total.emitted machine.sink ++ file ∧
      Emits total.observation inputs.writeNotes notes ∧
      prepareCore kernel inputs machine = (.ok capacity, prepared) ∧
      decodeCore file = some core ∧
      Layout inputs file notes (segmentOutputs total kernel capacity inputs.mappings
        (List.replicate memoryBufferSize 0) prepared) core := by
  obtain ⟨capacity, prepared, prepareRan, wrote, sizes⟩ :=
    createElfCore_wrote total valid.nameLen accepting ran
  exact ⟨_, inputs.noteSection, capacity, prepared, _, wrote.emitted,
    writeNotes_emits total inputs valid.nameLen, prepareRan, inputs.decodeCore_headerBytes valid.count _,
    inputs.layout_of_segments valid sizes⟩

/-- A kernel that delivers all memory, at most 20 bytes a read. -/
def sampleKernel : Kernel where
  pageSize := 4096
  memory address := UInt8.ofNat address
  readablePage _ := true
  pipe2 _ := .ok 4096
  getPipeSize _ := none
  setPipeSize _ _ := .error .eperm
  statusFlags _ := none
  probe _ _ count := ⟨1, ⟨.ok count, 0⟩⟩
  pipeRead _ := ⟨0, .ok 20⟩

theorem sampleInputs_sized : sampleInputs.Sized where
  count := by decide
  ordered := by decide
  nameLen := by decide
  pagesize := ⟨4, rfl⟩
  total := by decide +kernel

theorem createElfCore_decodes_sample : ∃ final core,
    createElfCore sampleKernel sampleInputs sampleMachine = (.ok (), final) ∧
      decodeCore final.sink.fd.accepted = some core ∧ core.phdrs.length = 2 := by
  have ran : createElfCore sampleKernel sampleInputs sampleMachine =
      (.ok (), (createElfCore sampleKernel sampleInputs sampleMachine).2) :=
    Prod.ext (by decide +kernel) rfl
  obtain ⟨file, _, _, _, core, emitted, _, _, decoded, layout⟩ := createElfCore_decodes
    SimpleWriter.acceptsEveryByte sampleInputs sampleInputs_sized sampleKernel sampleMachine _
    sampleMachine_accepting ran
  have output : (createElfCore sampleKernel sampleInputs sampleMachine).2.sink.fd.accepted = file :=
    emitted
  exact ⟨_, core, ran, output ▸ decoded, layout.count⟩

end Corus.Elf
