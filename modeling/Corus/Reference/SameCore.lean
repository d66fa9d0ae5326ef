import Corus.Elf.Contents
import Corus.Reference.Agreement
import Corus.Reference.Writers

/-!
# One core from two libraries

From the same process the C library and the port write files with their parts in
different places: the notes of the threads are in another order, and only the C library
adds the headers of the vDSO. A debugger sees the same memory in both, and the same notes
but for the fields of the status records that the port leaves empty. Memory that cannot be
read makes a difference: it ends the core of the C library, and the port writes zeros.
-/

namespace Corus.Reference

open Corus.Logical Corus.Platform Corus.Output Corus.Memory Corus.Elf Corus.Proc

variable {arch : Arch}

/-! ## The mappings behind the file table -/

/-- What a limit does not change. -/
def unsized (segment : Segment) : Segment := { segment with writeSize := 0 }

/-- The limit changes sizes only. -/
theorem reduceLargest_unsized (maxLength rest : UInt64) (rounds : Nat) (segments : List Segment) :
    (reduceLargest maxLength rest rounds segments).map unsized = segments.map unsized := by
  have resized : ∀ (segments : List Segment) (index : Nat) (size : UInt64),
      (segments.modify index fun segment => { segment with writeSize := size }).map unsized = segments.map unsized := by
    intro segments index size
    apply List.ext_getElem?
    intro position
    rw [List.getElem?_map, List.getElem?_map, List.getElem?_modify]
    cases segments[position]? with
    | none => rfl
    | some segment =>
        by_cases here : index = position
        · simp [here, unsized]
        · simp [here]
  induction rounds generalizing segments with
  | zero => rfl
  | succ rounds ih =>
      rw [reduceLargest]
      split
      · rfl
      · split
        · dsimp only
          split
          · rw [ih, resized]
          · exact resized _ _ _
        · rfl

/-- So the segments of a limited core are those of the whole one, but for their sizes. -/
theorem reduced_unsized (call : CoreCall arch) (extra : List Phdr) (segments : List Segment) :
    (call.reduced extra segments).map unsized = segments.map unsized := by
  rw [CoreCall.reduced]
  split
  · exact reduceLargest_unsized ..
  · rfl

/-- A loop over converted items can convert them in its rounds. -/
theorem forEach_map {State Error Item Other : Type} (convert : Item → Other) (items : List Item)
    (body : Other → Action State Error Unit) :
    Action.forEach (items.map convert) body = Action.forEach items fun item => body (convert item) := by
  induction items with
  | nil => rfl
  | cons item rest ih => rw [List.map_cons, Action.forEach, Action.forEach, ih]

/-- The note of the mapped files does not look at the sizes. -/
theorem ntFileLengths_unsized (segments : List Segment) :
    ntFileLengths (segments.map unsized) = ntFileLengths segments :=
  List.foldl_map

section Unsized

variable {Sink : Type} [Writer Sink] (call : CoreCall arch) {first second : List Segment}

/-- Sizes are not part of the notes. -/
theorem writeNotes_unsized (same : first.map unsized = second.map unsized) :
    (call.writeNotes first : Action Sink Unit Unit) = call.writeNotes second := by
  have table : ∀ segments : List Segment, (writeNtFile call.pagesize (segments.map unsized) : Action Sink Unit Unit) =
      writeNtFile call.pagesize segments := by
    intro segments
    simp only [writeNtFile, ntFileLengths_unsized, forEach_map]
    rfl
  rw [CoreCall.writeNotes, CoreCall.writeNotes, ← table first, same, table second]

/-- Nor does the length of the notes. -/
theorem notesFilesz_unsized (same : first.map unsized = second.map unsized) :
    call.notesFilesz first = call.notesFilesz second := by
  have lengths : ntFileLengths first = ntFileLengths second := by
    rw [← ntFileLengths_unsized first, same, ntFileLengths_unsized]
  simp only [CoreCall.notesFilesz, lengths]

theorem noteAlign_unsized (extra : List Phdr) (same : first.map unsized = second.map unsized) :
    call.noteAlign first extra = call.noteAlign second extra := by
  have length : first.length = second.length := by
    have lengths := congrArg List.length same
    simpa only [List.length_map] using lengths
  simp only [CoreCall.noteAlign, notesOffset, length, notesFilesz_unsized call same]
  rfl

end Unsized

/-! ## Sizes -/

section Sizes

variable {inputs : CoreInputs arch} {prstatus : Prstatus arch} {maxLength : UInt64}

/-- Both libraries announce the same size of the notes. -/
theorem notesFilesz_eq : (callOf inputs prstatus maxLength).notesFilesz (inputs.mappings.map segmentOf) =
    inputs.noteSectionSize := by
  obtain ⟨info, user, status, registers⟩ := sizes_aligned arch
  have fixed : ∀ {descsz : Nat}, descsz % 4 = 0 → coreNote descsz = nhdrSize + 8 + descsz := by
    intro descsz aligned
    simp only [coreNote, noteSize, coreNamesz, alignNote, Elf.noteAlign]
    omega
  have named : ∀ descLen, coreNote (2 * 8 + descLen) = nhdrSize + 8 + 2 * 8 + descLen + fill descLen := by
    intro descLen
    simp only [coreNote, noteSize, coreNamesz, alignNote, Elf.noteAlign, fill]
    split <;> omega
  have vector : coreNote (inputs.auxv.length * auxvSize) = nhdrSize + 8 + inputs.auxv.length * auxvSize :=
    fixed (by rw [auxvSize]; omega)
  have extra : ∀ (notes : List ExtraNote) filesz, notes.foldl (fun filesz note =>
      filesz + (nhdrSize + (note.name.length + 1) + note.description.length) + fill (note.name.length + 1) +
        fill note.description.length) filesz =
      filesz + (notes.map fun note => noteSize (note.name.length + 1) note.description.length).sum := by
    intro notes filesz
    rw [← extraNotes_foldl]
    congr 1
    funext filesz note
    have name := alignNote_bounds (note.name.length + 1)
    have desc := alignNote_bounds note.description.length
    rw [noteSize, fill_eq, fill_eq]
    omega
  rw [CoreInputs.noteSectionSize, noteSectionSizeFor, ntFileSizes, ntFileSizes_foldl, CoreCall.notesFilesz,
    ntFileLengths_eq]
  simp only [callOf, extra, extraNotes_foldl, Nat.zero_add, fixed info, fixed user, fixed status, fixed registers,
    vector]
  -- Every optional note adds its size on both sides.
  by_cases files : (fileBacked inputs.mappings).length = 0 <;>
  by_cases entries : inputs.auxv.length = 0 <;>
  by_cases present : inputs.user.isSome = true <;>
  simp only [Nat.pos_iff_ne_zero, files, entries, present, ne_eq, not_true_eq_false, not_false_eq_true, if_true,
    if_false, Bool.false_eq_true, named] <;>
  omega

/-- Other status records take the same space. -/
theorem length_notesWith : ((notesWith inputs prstatus).flatMap Note.asBytes).length = inputs.noteSection.length := by
  have threads : ∀ status : Prstatus arch,
      ((inputs.threadOrder.flatMap (notesOn status)).flatMap Note.asBytes).length =
      (inputs.threadOrder.map fun _ => coreNote (Prstatus.size arch) + coreNote arch.fpRegsSize).sum := by
    intro status
    rw [List.flatMap_assoc, List.length_flatMap]
    congr 1
    apply List.map_congr_left
    intro thread _
    rw [notesOn, List.flatMap_cons, List.flatMap_singleton, List.length_append, length_core_asBytes, length_core_asBytes,
      Prstatus.length_asBytes, FpRegs.length_asBytes]
  rw [CoreInputs.noteSection, noteList_eq]
  simp only [notesWith, List.flatMap_append, List.length_append, threads]

/-- The notes of the C library are as long as those of the port. -/
theorem length_referenceNotes (distinct : (inputs.threads.map ThreadState.pid).Nodup)
    (fits : ∀ mapping ∈ inputs.mappings, mapping.nameLen < fnameMax) :
    ((referenceNotes inputs prstatus (callOf inputs prstatus maxLength)).flatMap Note.asBytes).length =
      inputs.noteSectionSize := by
  rw [((referenceNotes_perm distinct).flatMap_right Note.asBytes).length_eq, length_notesWith,
    length_noteSection inputs fits]

end Sizes

/-! ## Files -/

section Files

variable (kernel : Kernel) (inputs : CoreInputs arch) (prstatus : Prstatus arch) (maxLength : UInt64)
  (extra : List Phdr)

/-- The parts of the file of the port. -/
def portParts : Parts where
  pagesize := inputs.pagesize
  notes := inputs.noteList
  mappings := inputs.mappings
  others := []
  gap := inputs.noteAlign
  segments := visibleSegments kernel inputs.mappings
  tail := []

/-- File offset of the first segment in the file of the C library. -/
def referenceStart : Nat :=
  let call := callOf inputs prstatus maxLength
  let segments := inputs.mappings.map segmentOf
  notesOffset segments extra + call.noteAlign segments extra + call.notesFilesz segments

/-- The parts of the file of the C library. -/
def referenceParts : Parts where
  pagesize := inputs.pagesize
  notes := referenceNotes inputs prstatus (callOf inputs prstatus maxLength)
  mappings := inputs.mappings
  others := relocated (advance (UInt64.ofNat (referenceStart inputs prstatus maxLength extra))
    ((inputs.mappings.map segmentOf).map Segment.writeSize)) extra
  gap := (callOf inputs prstatus maxLength).noteAlign (inputs.mappings.map segmentOf) extra
  segments := visibleSegments kernel inputs.mappings
  tail := extra.flatMap fun phdr => kernel.visibleRange phdr.pVaddr.toNat phdr.pFilesz.toNat

end Files

section Writing

variable {kernel : Kernel} {inputs : CoreInputs arch} {prstatus : Prstatus arch} {maxLength : UInt64}
  {segments : List Segment} {extra : List Phdr} {Sink : Type} [Writer Sink] (total : AcceptsEveryByte Sink)

/-- There is a header for the notes, one for each mapping and those of the vDSO. -/
theorem referenceParts_phnum :
    (referenceParts kernel inputs prstatus maxLength extra).phnum = inputs.mappings.length + extra.length + 1 := by
  rw [Parts.phnum, referenceParts, length_relocated]

theorem referenceParts_tableEnd : (referenceParts kernel inputs prstatus maxLength extra).tableEnd =
    notesOffset (inputs.mappings.map segmentOf) extra := by
  rw [Parts.tableEnd, referenceParts_phnum, notesOffset, List.length_map]

section Sized

variable (distinct : (inputs.threads.map ThreadState.pid).Nodup)
  (fits : ∀ mapping ∈ inputs.mappings, mapping.nameLen < fnameMax)

include distinct fits

/-- The notes are as long as the program header for them says. -/
theorem length_noteBytes : (referenceParts kernel inputs prstatus maxLength extra).noteBytes.length =
    (callOf inputs prstatus maxLength).notesFilesz (inputs.mappings.map segmentOf) := by
  rw [notesFilesz_eq, ← length_referenceNotes distinct fits]
  rfl

/-- The first segment stands where the C library puts it. -/
theorem referenceParts_start : (referenceParts kernel inputs prstatus maxLength extra).start =
    referenceStart inputs prstatus maxLength extra := by
  rw [Parts.start, length_noteBytes distinct fits, referenceParts_tableEnd, referenceStart, Nat.add_right_comm]
  rfl

theorem referenceParts_notePhdr : (referenceParts kernel inputs prstatus maxLength extra).notePhdr =
    { Phdr.zeroed with
      pType := ptNote
      pOffset := UInt64.ofNat (notesOffset (inputs.mappings.map segmentOf) extra)
      pFilesz := UInt64.ofNat ((callOf inputs prstatus maxLength).notesFilesz (inputs.mappings.map segmentOf)) } := by
  rw [Parts.notePhdr, length_noteBytes distinct fits, referenceParts_tableEnd]

end Sized

theorem referenceParts_ehdr : (referenceParts kernel inputs prstatus maxLength extra).ehdr arch =
    coreEhdr arch (inputs.mappings.length + extra.length + 1) := by
  rw [Parts.ehdr, referenceParts_phnum]
  rfl

/-- The C library writes its parts. -/
theorem writeCore_emits (distinct : (inputs.threads.map ThreadState.pid).Nodup)
    (fits : ∀ mapping ∈ inputs.mappings, mapping.nameLen < fnameMax)
    (headers : extra = extraPhdrs (ownMemory kernel) (findVdso (ownMemory kernel) inputs.auxv segments))
    (reduced : (callOf inputs prstatus maxLength).reduced extra segments = inputs.mappings.map segmentOf)
    (reachable : Reachable kernel inputs.mappings extra) :
    Emits total.observation ((callOf inputs prstatus maxLength).writeCore kernel segments)
      ((referenceParts kernel inputs prstatus maxLength extra).file arch) := by
  have same : segments.map unsized = (inputs.mappings.map segmentOf).map unsized := by rw [← reduced, reduced_unsized]
  have count : segments.length = inputs.mappings.length := by
    have lengths := congrArg List.length same
    simpa only [List.length_map] using lengths
  have offset : notesOffset segments extra = notesOffset (inputs.mappings.map segmentOf) extra := by
    rw [notesOffset, notesOffset, count, List.length_map]
  have found : extraPhdrs (ownMemory kernel)
      (findVdso (ownMemory kernel) (callOf inputs prstatus maxLength).auxv segments) = extra := headers.symm
  have notes : Emits total.observation ((callOf inputs prstatus maxLength).writeNotes (inputs.mappings.map segmentOf))
      (referenceParts kernel inputs prstatus maxLength extra).noteBytes := writeNotes_emits total fits
  have gap : Emits total.observation
      (Action.onlyIf ((callOf inputs prstatus maxLength).noteAlign (inputs.mappings.map segmentOf) extra ≠ 0)
        (put (List.replicate ((callOf inputs prstatus maxLength).noteAlign (inputs.mappings.map segmentOf) extra) 0)))
      (List.replicate (referenceParts kernel inputs prstatus maxLength extra).gap 0) := by
    change Emits _ _
      (List.replicate ((callOf inputs prstatus maxLength).noteAlign (inputs.mappings.map segmentOf) extra) 0)
    generalize (callOf inputs prstatus maxLength).noteAlign (inputs.mappings.map segmentOf) extra = size
    cases size with
    | zero => exact Emits.pure
    | succ size => exact put_emits total _
  have tail : Emits total.observation
      (Action.forEach extra fun phdr => writeMemory kernel phdr.pVaddr.toNat phdr.pFilesz.toNat)
      (referenceParts kernel inputs prstatus maxLength extra).tail :=
    Emits.forEach fun phdr member => writeMemory_emits total (reachable.extra phdr member)
  have loads : Emits total.observation
      (writeSegmentPhdrs { Phdr.zeroed with pType := ptLoad, pAlign := inputs.pagesize }
        (UInt64.ofNat (referenceStart inputs prstatus maxLength extra)) (inputs.mappings.map segmentOf))
      ((referenceParts kernel inputs prstatus maxLength extra).loads.flatMap Phdr.asBytes) := by
    rw [Parts.loads, referenceParts_start distinct fits]
    exact writeSegmentPhdrs_emits total _ _ _
  have others := writeExtraPhdrs_emits total (advance (UInt64.ofNat (referenceStart inputs prstatus maxLength extra))
    ((inputs.mappings.map segmentOf).map Segment.writeSize)) extra
  have memory := writeReduced_emits total reachable
  rw [CoreCall.writeCore]
  simp only [found, reduced, writeNotes_unsized _ same, notesFilesz_unsized _ same, noteAlign_unsized _ _ same,
    offset, count]
  have emits := (put_emits total (coreEhdr arch (inputs.mappings.length + extra.length + 1)).asBytes).bind
    ((put_emits total (referenceParts kernel inputs prstatus maxLength extra).notePhdr.asBytes).bind
    (loads.bind (others.bind (notes.bind (gap.bind (memory.bind tail))))))
  rw [Parts.file, Parts.phdrs, List.flatMap_cons, List.flatMap_append, referenceParts_ehdr]
  rw [referenceParts_notePhdr distinct fits] at emits ⊢
  simp only [List.append_assoc]
  exact emits

/-- The C library ends only what it can read. -/
theorem writeCore_eq_ok
    (headers : extra = extraPhdrs (ownMemory kernel) (findVdso (ownMemory kernel) inputs.auxv segments))
    (reduced : (callOf inputs prstatus maxLength).reduced extra segments = inputs.mappings.map segmentOf)
    {before after : Machine Sink}
    (ran : (callOf inputs prstatus maxLength).writeCore kernel segments before = (.ok (), after)) :
    Reachable kernel inputs.mappings extra := by
  have found : extraPhdrs (ownMemory kernel)
      (findVdso (ownMemory kernel) (callOf inputs prstatus maxLength).auxv segments) = extra := headers.symm
  rw [CoreCall.writeCore] at ran
  simp only [found, reduced] at ran
  obtain ⟨_, _, _, ran⟩ := Action.bind_eq_ok ran
  obtain ⟨_, _, _, ran⟩ := Action.bind_eq_ok ran
  obtain ⟨_, _, _, ran⟩ := Action.bind_eq_ok ran
  obtain ⟨_, _, _, ran⟩ := Action.bind_eq_ok ran
  obtain ⟨_, _, _, ran⟩ := Action.bind_eq_ok ran
  obtain ⟨_, _, _, ran⟩ := Action.bind_eq_ok ran
  obtain ⟨_, _, memory, tail⟩ := Action.bind_eq_ok ran
  constructor
  · intro mapping listed
    obtain ⟨middle, next, wrote⟩ := forEach_eq_ok memory (segmentOf mapping) (List.mem_map_of_mem listed)
    by_cases empty : mapping.writeSize = 0
    · rw [empty]
      intro index inside
      exact absurd inside (Nat.not_lt_zero index)
    · have present : ((segmentOf mapping).writeSize != 0) = true := by simpa [segmentOf] using empty
      rw [present] at wrote
      exact writeMemory_eq_ok wrote
  · intro phdr listed
    obtain ⟨middle, next, wrote⟩ := forEach_eq_ok tail phdr listed
    exact writeMemory_eq_ok wrote

end Writing

/-! ## Views -/

section Views

variable {kernel : Kernel} {inputs : CoreInputs arch} {prstatus : Prstatus arch} {maxLength : UInt64}
  {segments : List Segment} {extra : List Phdr}

/-- The parts of the port, put together, are its file. -/
theorem portParts_file (fits : ∀ mapping ∈ inputs.mappings, mapping.nameLen < fnameMax) :
    (portParts kernel inputs).file arch = inputs.headerBytes ++ (visibleSegments kernel inputs.mappings).flatten := by
  have notes : (portParts kernel inputs).noteBytes = inputs.noteSection := rfl
  have size := length_noteSection inputs fits
  have phdr : (portParts kernel inputs).notePhdr = inputs.notePhdr := by
    rw [Parts.notePhdr, notes, size]
    rfl
  have loads : (portParts kernel inputs).loads = inputs.loadPhdrs := by
    rw [Parts.loads, Parts.start, notes, size]
    rfl
  have others : (portParts kernel inputs).others = [] := rfl
  have tail : (portParts kernel inputs).tail = [] := rfl
  rw [Parts.file, Parts.phdrs, phdr, loads, notes, others, tail, List.append_nil, List.append_nil]
  simp only [CoreInputs.headerBytes, List.append_assoc]
  rfl

theorem length_visibleSegments (mappings : List Mapping) :
    (visibleSegments kernel mappings).map List.length = segmentSizes mappings := by
  rw [visibleSegments, List.map_map]
  exact List.map_congr_left fun mapping _ => Kernel.length_visibleRange ..

/-- The core fits into its fields. -/
structure Fitting (inputs : CoreInputs arch) (extra : List Phdr) : Prop where
  few : inputs.mappings.length + extra.length + 1 ≤ 65535
  total : notesOffset (inputs.mappings.map segmentOf) extra + inputs.noteSectionSize + inputs.pagesize.toNat +
    (segmentSizes inputs.mappings).sum + (extra.map fun phdr => phdr.pFilesz.toNat).sum < 2 ^ 64
  bounded : ∀ mapping ∈ inputs.mappings, mapping.start.toNat + mapping.writeSize.toNat ≤ 2 ^ 64

/-- The padding in front of the segments is at most a page. -/
theorem CoreCall.noteAlign_le (call : CoreCall arch) (segments : List Segment) (extra : List Phdr) :
    call.noteAlign segments extra ≤ call.pagesize.toNat := by
  simp only [CoreCall.noteAlign]
  split
  · exact Nat.zero_le _
  · exact Nat.sub_le ..

theorem portParts_phnum : (portParts kernel inputs).phnum = inputs.mappings.length + 1 := rfl

theorem portParts_start (fits : ∀ mapping ∈ inputs.mappings, mapping.nameLen < fnameMax) :
    (portParts kernel inputs).start = inputs.segmentsStart := by
  have notes : (portParts kernel inputs).noteBytes = inputs.noteSection := rfl
  rw [Parts.start, Parts.tableEnd, portParts_phnum, notes, length_noteSection inputs fits]
  rfl

/-- No offset of the port overflows. -/
theorem portParts_fits (valid : inputs.Representable) (fitting : Fitting inputs extra) :
    (portParts kernel inputs).Fits where
  notes := valid.notes
  few := by
    have few := fitting.few
    rw [portParts_phnum]
    omega
  others _ member := absurd member List.not_mem_nil
  sizes := length_visibleSegments inputs.mappings
  total := by
    have total := fitting.total
    have gap : inputs.noteAlign ≤ inputs.pagesize.toNat := (Nat.mod_le _ _).trans (Nat.sub_le _ _)
    have offset : inputs.phdrsEnd ≤ notesOffset (inputs.mappings.map segmentOf) extra := by
      simp only [CoreInputs.phdrsEnd, notesOffset, List.length_map, phdrSize]
      omega
    rw [portParts_start valid.nameLen, CoreInputs.segmentsStart]
    change _ + (segmentSizes inputs.mappings).sum < _
    omega

/-- No offset of the C library overflows, with headers of the vDSO that load nothing. -/
theorem referenceParts_fits (valid : inputs.Representable) (distinct : (inputs.threads.map ThreadState.pid).Nodup)
    (fitting : Fitting inputs extra) (other : ∀ phdr ∈ extra, phdr.pType ≠ ptLoad) :
    (referenceParts kernel inputs prstatus maxLength extra).Fits where
  notes := by
    intro note member
    exact notesWith_representable valid note ((referenceNotes_perm distinct).subset member)
  few := by
    rw [referenceParts_phnum]
    exact fitting.few
  others := by
    intro phdr member
    obtain ⟨original, listed, same⟩ := relocated_pType member
    rw [same]
    exact other original listed
  sizes := length_visibleSegments inputs.mappings
  total := by
    have total := fitting.total
    have gap : (callOf inputs prstatus maxLength).noteAlign (inputs.mappings.map segmentOf) extra ≤
        inputs.pagesize.toNat := CoreCall.noteAlign_le ..
    rw [referenceParts_start distinct valid.nameLen, referenceStart]
    simp only [notesFilesz_eq]
    change _ + (segmentSizes inputs.mappings).sum < _
    omega

/-- The headers of the vDSO that are added are not mappings. -/
theorem extraPhdrs_pType {memory : AddressSpace} {vdso : Option UInt64} {phdr : Phdr}
    (member : phdr ∈ extraPhdrs memory vdso) : phdr.pType ≠ ptLoad := by
  cases vdso with
  | none => cases member
  | some vdso => simpa using List.of_mem_filter member

/-- A core has the program headers of the vDSO, and the memory that they are about. -/
def ShowsVdso (kernel : Kernel) (mappings : List Mapping) (extra : List Phdr) (file : Bytes) : Prop :=
  ∃ core, decodeCore file = some core ∧ ∀ (index : Nat) (phdr : Phdr), extra[index]? = some phdr →
    ∃ header, core.phdrs[mappings.length + index + 1]? = some header ∧ header.pType = phdr.pType ∧
      header.pFlags = phdr.pFlags ∧ header.pVaddr = phdr.pVaddr ∧
      header.contents file = kernel.visibleRange phdr.pVaddr.toNat phdr.pFilesz.toNat

/-- The headers of the vDSO lead a debugger to its memory. -/
theorem referenceParts_showsVdso (valid : inputs.Representable) (distinct : (inputs.threads.map ThreadState.pid).Nodup)
    (fitting : Fitting inputs extra) (other : ∀ phdr ∈ extra, phdr.pType ≠ ptLoad) :
    ShowsVdso kernel inputs.mappings extra ((referenceParts kernel inputs prstatus maxLength extra).file arch) := by
  have fits : (referenceParts kernel inputs prstatus maxLength extra).Fits :=
    referenceParts_fits valid distinct fitting other
  refine ⟨_, Parts.decodeCore_file fits, ?_⟩
  intro index phdr listed
  obtain ⟨base, based⟩ : ∃ base, base = advance (UInt64.ofNat (referenceStart inputs prstatus maxLength extra))
      ((inputs.mappings.map segmentOf).map Segment.writeSize) := ⟨_, rfl⟩
  have loads : (referenceParts kernel inputs prstatus maxLength extra).loads.length = inputs.mappings.length :=
    length_loadPhdrsFrom ..
  have place : (referenceParts kernel inputs prstatus maxLength extra).phdrs[inputs.mappings.length + index + 1]? =
      some { phdr with pOffset := advance base ((extra.take index).map Phdr.pFilesz), pPaddr := 0 } := by
    rw [Parts.phdrs, List.getElem?_cons_succ, List.getElem?_append_right (by omega), loads, Nat.add_sub_cancel_left]
    change (relocated _ extra)[index]? = _
    rw [relocated_getElem?, listed, based]
    rfl
  refine ⟨_, place, rfl, rfl, rfl, ?_⟩
  obtain ⟨chunks, chunked⟩ : ∃ chunks, chunks = extra.map fun phdr =>
      kernel.visibleRange phdr.pVaddr.toNat phdr.pFilesz.toNat := ⟨_, rfl⟩
  have written : chunks[index]? = some (kernel.visibleRange phdr.pVaddr.toNat phdr.pFilesz.toNat) := by
    rw [chunked, List.getElem?_map, listed, Option.map_some]
  have tail : (referenceParts kernel inputs prstatus maxLength extra).tail = chunks.flatten := by
    rw [chunked]
    rfl
  have lengths : chunks.map List.length = extra.map fun phdr => phdr.pFilesz.toNat := by
    rw [chunked, List.map_map]
    exact List.map_congr_left fun phdr _ => Kernel.length_visibleRange ..
  refine Parts.contents_tail fits tail written ?_ (Kernel.length_visibleRange ..).symm
  -- No offset wraps, since the whole core fits.
  have total := fitting.total
  have below := chunkOffset_le_sum (extra.map fun phdr => phdr.pFilesz.toNat) index
  have before : (((extra.take index).map Phdr.pFilesz).map UInt64.toNat).sum =
      chunkOffset (extra.map fun phdr => phdr.pFilesz.toNat) index := by
    rw [chunkOffset, ← List.map_take, List.map_map]
    rfl
  have gap := (callOf inputs prstatus maxLength).noteAlign_le (inputs.mappings.map segmentOf) extra
  have start : referenceStart inputs prstatus maxLength extra = notesOffset (inputs.mappings.map segmentOf) extra +
      (callOf inputs prstatus maxLength).noteAlign (inputs.mappings.map segmentOf) extra + inputs.noteSectionSize := by
    rw [referenceStart, notesFilesz_eq]
  have pagesize : (callOf inputs prstatus maxLength).pagesize = inputs.pagesize := rfl
  rw [lengths, referenceParts_start distinct valid.nameLen]
  change (advance base _).toNat = _ + (segmentSizes inputs.mappings).sum + _
  rw [based, advance_toNat, advance_toNat, toNat_writeSizes, before, UInt64.toNat_ofNat']
  rw [pagesize] at gap
  omega

/-- The memory of a mapping, with zeros for what cannot be read. -/
def shownOf (kernel : Kernel) (mapping : Mapping) : Shown :=
  ⟨mapping.start, mapping.end - mapping.start, mapping.pfFlags,
    kernel.visibleRange mapping.start.toNat mapping.writeSize.toNat⟩

/-- What a debugger sees in the cores of the C library and of the port. -/
structure SameView (kernel : Kernel) (inputs : CoreInputs arch) (prstatus : Prstatus arch) (reference port : CoreView) :
    Prop where
  memory : reference.memory = inputs.mappings.map (shownOf kernel)
  portMemory : port.memory = inputs.mappings.map (shownOf kernel)
  notes : reference.notes.Perm (notesWith inputs prstatus)
  portNotes : port.notes = notesWith inputs Prstatus.zeroed
  first : ∀ nType, nType ≠ ntPrstatus → reference.note nType = port.note nType
  main : ∀ thread, inputs.threads[inputs.main]? = some thread →
    reference.note ntPrstatus = some (Note.core ntPrstatus (statusOn prstatus thread).asBytes) ∧
      port.note ntPrstatus = some (Note.core ntPrstatus (statusOn Prstatus.zeroed thread).asBytes)

/-- Of the same process, both libraries show a debugger the same memory, the same threads
with the one that crashed first, and the same notes of every other type. The C library adds
the vDSO. The port always ends its core, and the C library if and only if everything in it
can be read. -/
theorem writeCore_sameView {Sink : Type} [Writer Sink] (total : AcceptsEveryByte Sink) (documented : Documented kernel)
    (valid : inputs.Representable) (distinct : (inputs.threads.map ThreadState.pid).Nodup)
    (headers : extra = extraPhdrs (ownMemory kernel) (findVdso (ownMemory kernel) inputs.auxv segments))
    (reduced : (callOf inputs prstatus maxLength).reduced extra segments = inputs.mappings.map segmentOf)
    (fitting : Fitting inputs extra) {machine : Machine Sink} (accepting : total.accepting machine.sink) :
    ∃ ported file port, createElfCore kernel inputs machine = (.ok (), ported) ∧
      total.emitted ported.sink = total.emitted machine.sink ++ file ∧ coreView file = some port ∧
      ((∃ final, (callOf inputs prstatus maxLength).writeCore kernel segments machine = (.ok (), final)) ↔
        Reachable kernel inputs.mappings extra) ∧
      ∀ final, (callOf inputs prstatus maxLength).writeCore kernel segments machine = (.ok (), final) →
        ∃ other reference, total.emitted final.sink = total.emitted machine.sink ++ other ∧
          coreView other = some reference ∧ SameView kernel inputs prstatus reference port ∧
          ShowsVdso kernel inputs.mappings extra other := by
  have other : ∀ phdr ∈ extra, phdr.pType ≠ ptLoad := fun phdr member => extraPhdrs_pType (headers ▸ member)
  obtain ⟨ported, ran, wrote, _⟩ :=
    createElfCore_documented total documented inputs accepting valid.nameLen fitting.bounded
  rw [← portParts_file valid.nameLen] at wrote
  have writes := fun reachable =>
    writeCore_emits total distinct valid.nameLen headers reduced reachable machine accepting
  refine ⟨ported, _, _, ran, wrote.emitted, Parts.coreView_file (portParts_fits valid fitting), ⟨?_, ?_⟩, ?_⟩
  · rintro ⟨final, ended⟩
    exact writeCore_eq_ok headers reduced ended
  · intro reachable
    obtain ⟨final, ended, _⟩ := writes reachable
    exact ⟨final, ended⟩
  · intro final ended
    obtain ⟨after, wroteAll, emitted, _⟩ := writes (writeCore_eq_ok headers reduced ended)
    cases ended.symm.trans wroteAll
    refine ⟨_, _, emitted, Parts.coreView_file (referenceParts_fits valid distinct fitting other), ?_,
      referenceParts_showsVdso valid distinct fitting other⟩
    have memory : (portParts kernel inputs).shown = inputs.mappings.map (shownOf kernel) := by
      rw [Parts.shown, portParts, visibleSegments, List.zipWith_map_right, List.zipWith_self]
      rfl
    constructor
    case memory => exact memory
    case portMemory => exact memory
    case notes => exact referenceNotes_perm distinct
    case portNotes => exact noteList_eq inputs
    case first =>
      intro nType differs
      exact (firstOf_reference distinct).trans (firstOf_status differs)
    case main =>
      intro thread main
      refine ⟨(firstOf_reference distinct).trans (firstOf_main main), ?_⟩
      have first := @firstOf_main _ inputs Prstatus.zeroed thread main
      rw [← noteList_eq] at first
      exact first

end Views

/-- The C library knows that the registers of a thread are valid. -/
def validStatus : Prstatus .x86_64 := { (Prstatus.zeroed : Prstatus .x86_64) with prFpvalid := 1 }

theorem sampleInputs_fitting : Fitting sampleInputs [] where
  few := by decide
  total := by decide +kernel
  bounded := by decide

theorem writeCore_sameView_sample : ∃ ported final reference port,
    createElfCore promptKernel sampleInputs sampleMachine = (.ok (), ported) ∧
      (callOf sampleInputs validStatus 0).writeCore promptKernel (sampleInputs.mappings.map segmentOf) sampleMachine =
        (.ok (), final) ∧
      coreView final.sink.fd.accepted = some reference ∧ coreView ported.sink.fd.accepted = some port ∧
      SameView promptKernel sampleInputs validStatus reference port := by
  have distinct : (sampleInputs.threads.map ThreadState.pid).Nodup := by decide
  have headers : [] = extraPhdrs (ownMemory promptKernel)
      (findVdso (ownMemory promptKernel) sampleInputs.auxv (sampleInputs.mappings.map segmentOf)) := rfl
  have reduced : (callOf sampleInputs validStatus 0).reduced [] (sampleInputs.mappings.map segmentOf) =
      sampleInputs.mappings.map segmentOf := rfl
  obtain ⟨ported, file, port, ran, emitted, shown, ends, views⟩ := writeCore_sameView SimpleWriter.acceptsEveryByte
    promptKernel_documented sampleInputs_representable distinct headers reduced sampleInputs_fitting
    sampleMachine_accepting
  obtain ⟨final, ended⟩ := ends.mpr ⟨fun _ _ _ _ => rfl, fun _ member => absurd member List.not_mem_nil⟩
  obtain ⟨other, reference, written, seen, same, _⟩ := views final ended
  have portFile : ported.sink.fd.accepted = file := emitted
  have otherFile : final.sink.fd.accepted = other := written
  exact ⟨ported, final, reference, port, ran, ended, otherFile ▸ seen, portFile ▸ shown, same⟩

end Corus.Reference
