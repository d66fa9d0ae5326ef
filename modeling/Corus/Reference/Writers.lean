import Corus.Elf.Segments
import Corus.Reference.Header
import Corus.Reference.NoteOrder

/-!
# What the C library writes

The writers of the C library put the same notes and headers into a file as those of the
port, from its own records of the mappings. Memory goes straight into the file, if all of
it can be read.
-/

namespace Corus.Reference

open Corus.Logical Corus.Platform Corus.Output Corus.Memory Corus.Elf Corus.Proc

variable {arch : Arch}

/-! ## Notes -/

/-- The C library rounds up to words as the port does. -/
theorem fill_eq (size : Nat) : fill size = Elf.alignNote size - size := by
  simp only [fill, alignNote, Elf.noteAlign]
  split <;> omega

/-- What is padded are zeros at the end. -/
theorem padded_eq (bytes : Bytes) : padded bytes = bytes ++ List.replicate (fill bytes.length) 0 := by
  rw [padded, fill_eq]

/-- The records of the fixed notes need no padding. -/
theorem padded_of_aligned {bytes : Bytes} (aligned : bytes.length % 4 = 0) : padded bytes = bytes := by
  rw [padded_eq, fill, if_neg (by omega)]
  exact List.append_nil bytes

theorem padded_coreNameNul : padded coreNameNul = coreName := rfl

section Emission

variable {Sink : Type} [Writer Sink] (total : AcceptsEveryByte Sink)

/-- A write puts out its bytes. -/
theorem put_emits (bytes : Bytes) : Emits total.observation (put bytes) bytes :=
  Emits.mapError (writeFull_emits total bytes)

/-- A note whose descriptor fills whole words goes out as the port writes it. -/
theorem writeNote_emits (nType : UInt32) {desc : Bytes} (aligned : desc.length % 4 = 0) :
    Emits total.observation (writeNote nType desc) (Note.core nType desc).asBytes := by
  rw [Note.asBytes_core, noteBytes, padded_coreNameNul, padded_of_aligned aligned]
  exact (put_emits total _).bind ((put_emits total _).bind (put_emits total desc))

/-- The sizes of the fixed records. -/
theorem sizes_aligned (arch : Arch) : Prpsinfo.size % 4 = 0 ∧ CoreUser.size arch % 4 = 0 ∧
    Prstatus.size arch % 4 = 0 ∧ arch.fpRegsSize % 4 = 0 := by
  cases arch <;> decide

/-- The registers of a thread go out as the notes on it, NT_PRSTATUS first. -/
theorem writeThreadRegs_emits (prstatus : Prstatus arch) (thread : ThreadState arch) :
    Emits total.observation (writeThreadRegs prstatus thread) ((notesOn prstatus thread).flatMap Note.asBytes) := by
  obtain ⟨_, _, status, registers⟩ := sizes_aligned arch
  rw [← Prstatus.length_asBytes (statusOn prstatus thread)] at status
  rw [← FpRegs.length_asBytes thread.fpregs] at registers
  rw [notesOn, List.flatMap_cons, List.flatMap_singleton]
  exact (writeNote_emits total ntPrstatus status).bind (writeNote_emits total ntPrfpreg registers)

/-- The auxiliary vector goes out as one note. -/
theorem writeAuxv_emits (auxv : List AuxvT) :
    Emits total.observation (writeAuxv auxv) (Note.core ntAuxv (AuxvT.sliceAsBytes auxv)).asBytes := by
  have size := AuxvT.length_sliceAsBytes auxv
  have aligned : (AuxvT.sliceAsBytes auxv).length % 4 = 0 := by
    rw [size, auxvSize]
    omega
  rw [Note.asBytes_core, noteBytes, padded_coreNameNul, padded_of_aligned aligned, size]
  exact (put_emits total _).bind ((put_emits total coreName).bind
    (Emits.forEach fun entry _ => put_emits total entry.asBytes))

/-- Notes of the caller are padded behind the name and behind the description. -/
theorem writeExtraNote_emits (note : ExtraNote) :
    Emits total.observation (writeExtraNote note) note.note.asBytes := by
  have length : (note.name ++ [0]).length = note.name.length + 1 := by simp
  have bytes : note.note.asBytes =
      (Nhdr.mk (UInt32.ofNat (note.name.length + 1)) (UInt32.ofNat note.description.length) note.noteType).asBytes ++
        ((note.name ++ [0]) ++ (List.replicate (fill (note.name.length + 1)) 0 ++
          (note.description ++ List.replicate (fill note.description.length) 0))) := by
    rw [ExtraNote.asBytes_note, noteBytes, padded_eq, padded_eq, length]
    simp only [List.append_assoc]
  rw [bytes]
  exact (put_emits total _).bind ((put_emits total _).bind ((put_emits total _).bind
    ((put_emits total _).bind (put_emits total _))))

/-! ## The file table -/

theorem ntFileLengths_eq (mappings : List Mapping) : ntFileLengths (mappings.map segmentOf) =
    ((fileBacked mappings).length, ((fileBacked mappings).map fun mapping => 3 * 8 + mapping.nameLen + 1).sum) := by
  have same : ntFileLengths (mappings.map segmentOf) = mappings.foldl ntFileSizesStep (0, 0) := List.foldl_map
  rw [same, ntFileSizes_foldl, Nat.zero_add, Nat.zero_add]

/-- The note of the mapped files is that of the port, byte by byte. -/
theorem writeNtFile_emits (pagesize : UInt64) {mappings : List Mapping}
    (fits : ∀ mapping ∈ mappings, mapping.nameLen < fnameMax) :
    Emits total.observation (writeNtFile pagesize (mappings.map segmentOf))
      ((if (fileBacked mappings).isEmpty then [] else [Note.core ntFile (ntFileDesc mappings pagesize)]).flatMap
        Note.asBytes) := by
  have size := length_ntFileDesc pagesize fits
  have lengths := ntFileLengths_eq mappings
  obtain ⟨descLen, listed⟩ : ∃ descLen,
      descLen = ((fileBacked mappings).map fun mapping => 3 * 8 + mapping.nameLen + 1).sum := ⟨_, rfl⟩
  rw [← listed] at size lengths
  have filled : fill (ntFileDesc mappings pagesize).length = fill descLen := by
    simp only [fill, size]
    split <;> split <;> omega
  have triples : Emits total.observation
      (Action.forEach (mappings.map segmentOf) fun segment => Action.onlyIf (!segment.isAnon)
        (put (u64Bytes segment.startAddress ++ u64Bytes segment.endAddress ++ u64Bytes (segment.offset / pagesize))))
      ((fileBacked mappings).flatMap (ntFileTriple pagesize)) := by
    have emits := Emits.forEach_onlyIf (mappings.map segmentOf) (fun segment => !segment.isAnon)
      fun segment _ => put_emits total
        (u64Bytes segment.startAddress ++ u64Bytes segment.endAddress ++ u64Bytes (segment.offset / pagesize))
    rw [List.filter_map, List.flatMap_map] at emits
    exact emits
  have names : Emits total.observation
      (Action.forEach (mappings.map segmentOf) fun segment => Action.onlyIf (!segment.isAnon)
        (put (segment.name.toList.take (segment.nameLen + 1))))
      ((fileBacked mappings).flatMap Mapping.nameWithNul) := by
    have emits := Emits.forEach_onlyIf (mappings.map segmentOf) (fun segment => !segment.isAnon)
      fun segment _ => put_emits total (segment.name.toList.take (segment.nameLen + 1))
    rw [List.filter_map, List.flatMap_map] at emits
    exact emits
  have emits := (put_emits total (Nhdr.mk 5 (UInt32.ofNat (descLen + 16)) ntFile).asBytes).bind
    ((put_emits total coreName).bind
      ((put_emits total (u64Bytes (UInt64.ofNat (fileBacked mappings).length) ++ u64Bytes pagesize)).bind
        (triples.bind (names.bind (put_emits total (List.replicate (fill descLen) 0))))))
  have whole := @Emits.onlyIf _ _ _ _ (decide (0 < (fileBacked mappings).length)) _ _ emits
  rw [writeNtFile, lengths]
  convert whole using 1
  cases files : fileBacked mappings with
  | nil => rfl
  | cons head tail =>
      have desc : descLen + 16 = (ntFileDesc mappings pagesize).length := by omega
      rw [← files, if_neg (by simp [files]), if_pos (by simp [files]), List.flatMap_singleton, Note.asBytes_core,
        noteBytes, padded_coreNameNul, padded_eq, filled, desc, ntFileDesc]
      simp only [List.append_assoc]
      rfl

/-- The notes of the C library are those of `referenceNotes`. -/
theorem writeNotes_emits {inputs : CoreInputs arch} {prstatus : Prstatus arch} {maxLength : UInt64}
    (fits : ∀ mapping ∈ inputs.mappings, mapping.nameLen < fnameMax) :
    Emits total.observation ((callOf inputs prstatus maxLength).writeNotes (inputs.mappings.map segmentOf))
      ((referenceNotes inputs prstatus (callOf inputs prstatus maxLength)).flatMap Note.asBytes) := by
  obtain ⟨info, user, _, _⟩ := sizes_aligned arch
  rw [← Prpsinfo.length_asBytes inputs.prpsinfo] at info
  have users : ∀ value : CoreUser arch, Emits total.observation (writeNote ntPrxreg value.asBytes)
      (Note.core ntPrxreg value.asBytes).asBytes := by
    intro value
    rw [← CoreUser.length_asBytes value] at user
    exact writeNote_emits total ntPrxreg user
  have auxv : (auxvNotes inputs).flatMap Note.asBytes =
      if decide (inputs.auxv.length ≠ 0) then (Note.core ntAuxv (AuxvT.sliceAsBytes inputs.auxv)).asBytes else [] := by
    rw [auxvNotes]
    cases inputs.auxv with
    | nil => rfl
    | cons entry rest => exact List.flatMap_singleton ..
  have bytes : (referenceNotes inputs prstatus (callOf inputs prstatus maxLength)).flatMap Note.asBytes =
      (Note.core ntPrpsinfo inputs.prpsinfo.asBytes).asBytes ++
      ((inputs.user.toList.flatMap fun user => (Note.core ntPrxreg user.asBytes).asBytes) ++
      ((if decide (inputs.auxv.length ≠ 0) then (Note.core ntAuxv (AuxvT.sliceAsBytes inputs.auxv)).asBytes else []) ++
      (((inputs.threads.reverse.find? fun thread => thread.pid == (callOf inputs prstatus maxLength).mainPid).toList.flatMap
        fun thread => (notesOn prstatus thread).flatMap Note.asBytes) ++
      (((inputs.threads.reverse.filter fun thread => thread.pid != (callOf inputs prstatus maxLength).mainPid).flatMap
        fun thread => (notesOn prstatus thread).flatMap Note.asBytes) ++
      ((inputs.notes.flatMap fun note => note.note.asBytes) ++ inputs.fileNotes.flatMap Note.asBytes))))) := by
    rw [← auxv]
    simp only [referenceNotes, processNotes, laterNotes, callOrder, List.flatMap_append, List.flatMap_cons,
      List.flatMap_map, List.flatMap_assoc, List.append_assoc]
    rfl
  rw [bytes]
  exact (writeNote_emits total ntPrpsinfo info).bind ((Emits.forSome users).bind
    ((Emits.onlyIf (writeAuxv_emits total inputs.auxv)).bind
    ((Emits.forSome (writeThreadRegs_emits total prstatus)).bind
    ((Emits.forEach_onlyIf inputs.threads.reverse
      (fun thread => thread.pid != (callOf inputs prstatus maxLength).mainPid)
      fun thread _ => writeThreadRegs_emits total prstatus thread).bind
    ((Emits.forEach fun note _ => writeExtraNote_emits total note).bind
    (writeNtFile_emits total inputs.pagesize fits))))))

/-! ## Headers -/

/-- The headers of the vDSO, at their place in the core. -/
def relocated : UInt64 → List Phdr → List Phdr
  | _, [] => []
  | offset, phdr :: rest => { phdr with pOffset := offset, pPaddr := 0 } :: relocated (offset + phdr.pFilesz) rest

/-- Relocation moves headers and drops none. -/
theorem length_relocated (offset : UInt64) (extra : List Phdr) : (relocated offset extra).length = extra.length := by
  induction extra generalizing offset with
  | nil => rfl
  | cons phdr rest ih => rw [relocated, List.length_cons, List.length_cons, ih]

/-- The sum wraps at the end of the address space. -/
theorem advance_toNat (offset : UInt64) (sizes : List UInt64) :
    (advance offset sizes).toNat = (offset.toNat + (sizes.map UInt64.toNat).sum) % 2 ^ 64 := by
  induction sizes generalizing offset with
  | nil => exact (Nat.mod_eq_of_lt offset.toNat_lt).symm
  | cons size rest ih =>
      have next : advance offset (size :: rest) = advance (offset + size) rest := rfl
      rw [next, ih, UInt64.toNat_add, List.map_cons, List.sum_cons, Nat.mod_add_mod, Nat.add_assoc]

/-- The sizes that are written are those of the port. -/
theorem toNat_writeSizes (mappings : List Mapping) :
    ((mappings.map segmentOf).map Segment.writeSize).map UInt64.toNat = segmentSizes mappings := by
  rw [List.map_map, List.map_map]
  rfl

theorem relocated_getElem? (offset : UInt64) (extra : List Phdr) (index : Nat) :
    (relocated offset extra)[index]? = extra[index]?.map fun phdr =>
      { phdr with pOffset := advance offset ((extra.take index).map Phdr.pFilesz), pPaddr := 0 } := by
  induction extra generalizing offset index with
  | nil => rfl
  | cons phdr rest ih =>
      cases index with
      | zero => rfl
      | succ index =>
          rw [relocated, List.getElem?_cons_succ, List.getElem?_cons_succ, ih]
          rfl

/-- Moving a header does not change its type. -/
theorem relocated_pType {offset : UInt64} {extra : List Phdr} {phdr : Phdr} (member : phdr ∈ relocated offset extra) :
    ∃ other ∈ extra, phdr.pType = other.pType := by
  induction extra generalizing offset with
  | nil => cases member
  | cons other rest ih =>
      rcases List.mem_cons.mp member with rfl | later
      · exact ⟨other, List.mem_cons_self, rfl⟩
      · obtain ⟨found, listed, same⟩ := ih later
        exact ⟨found, List.mem_cons_of_mem _ listed, same⟩

theorem writeExtraPhdrs_emits (offset : UInt64) (extra : List Phdr) :
    Emits total.observation (writeExtraPhdrs offset extra) ((relocated offset extra).flatMap Phdr.asBytes) := by
  induction extra generalizing offset with
  | nil => exact Emits.pure
  | cons phdr rest ih => exact (put_emits total _).bind (ih _)

/-- Both libraries describe a mapping with the same header. -/
theorem segmentPhdr_eq (pagesize : UInt64) (offset : Nat) (mapping : Mapping) :
    { ({ Phdr.zeroed with pType := ptLoad, pAlign := pagesize } : Phdr) with
      pOffset := UInt64.ofNat offset
      pVaddr := (segmentOf mapping).startAddress
      pMemsz := (segmentOf mapping).endAddress - (segmentOf mapping).startAddress
      pFilesz := (segmentOf mapping).writeSize
      pFlags := ((segmentOf mapping).flags &&& pfMask).toUInt32 } = loadPhdr pagesize offset mapping := by
  have flags : ((segmentOf mapping).flags &&& pfMask).toUInt32 = mapping.pfFlags := UInt16.toUInt32_and ..
  rw [flags]
  rfl

/-- The headers of the segments follow one another in the file. -/
theorem writeSegmentPhdrs_emits (pagesize : UInt64) (offset : Nat) (mappings : List Mapping) :
    Emits total.observation
      (writeSegmentPhdrs { Phdr.zeroed with pType := ptLoad, pAlign := pagesize } (UInt64.ofNat offset)
        (mappings.map segmentOf))
      ((loadPhdrsFrom pagesize offset mappings).flatMap Phdr.asBytes) := by
  induction mappings generalizing offset with
  | nil => exact Emits.pure
  | cons mapping rest ih =>
      have next : UInt64.ofNat offset + (segmentOf mapping).writeSize =
          UInt64.ofNat (offset + mapping.writeSize.toNat) := by
        rw [UInt64.ofNat_add, UInt64.ofNat_toNat]
        rfl
      rw [List.map_cons, writeSegmentPhdrs, segmentPhdr_eq, next, loadPhdrsFrom, List.flatMap_cons]
      exact (put_emits total _).bind (ih _)

/-! ## Memory -/

/-- Everything that is written can be read. -/
structure Reachable (kernel : Kernel) (mappings : List Mapping) (extra : List Phdr) : Prop where
  segments : ∀ mapping ∈ mappings, ∀ index < mapping.writeSize.toNat, kernel.readable (mapping.start.toNat + index)
  extra : ∀ phdr ∈ extra, ∀ index < phdr.pFilesz.toNat, kernel.readable (phdr.pVaddr.toNat + index)

section Memory

variable {kernel : Kernel} {address size : Nat}

theorem takeWhile_readable (readable : ∀ index < size, kernel.readable (address + index)) :
    ((List.range size).takeWhile fun index => kernel.readable (address + index)) = List.range size := by
  apply List.takeWhile_eq_self_iff.mpr
  intro index member
  exact readable index (List.mem_range.mp member)

/-- Readable memory is written as it is. -/
theorem writeMemory_emits (readable : ∀ index < size, kernel.readable (address + index)) :
    Emits total.observation (writeMemory kernel address size) (kernel.visibleRange address size) := by
  have ends : (fun sink : Machine Sink => ((if (List.range size).length = size then .ok () else .error (), sink) :
      Except Unit Unit × Machine Sink)) = (Pure.pure () : Action (Machine Sink) Unit Unit) := by
    funext sink
    rw [if_pos List.length_range]
    rfl
  have emits := (put_emits total (kernel.memoryRange address size)).bind
    (Emits.pure : Emits total.observation (Pure.pure () : Action (Machine Sink) Unit Unit) [])
  rw [List.append_nil] at emits
  rw [writeMemory, takeWhile_readable readable, Kernel.visibleRange_eq_memoryRange readable, ends]
  exact emits

/-- Memory is written only if all of it can be read. -/
theorem writeMemory_eq_ok {before after : Machine Sink}
    (ran : writeMemory kernel address size before = (.ok (), after)) :
    ∀ index < size, kernel.readable (address + index) := by
  obtain ⟨_, middle, _, ended⟩ := Action.bind_eq_ok ran
  by_cases whole : ((List.range size).takeWhile fun index => kernel.readable (address + index)).length = size
  · have kept := (List.takeWhile_prefix (fun index => kernel.readable (address + index))).eq_of_length
      (whole.trans List.length_range.symm)
    intro index inside
    exact List.takeWhile_eq_self_iff.mp kept index (List.mem_range.mpr inside)
  · simp only [whole, if_false] at ended
    cases ended

end Memory

/-- A loop that ends has run its body on every item. -/
theorem forEach_eq_ok {State Error Item : Type} {items : List Item} {body : Item → Action State Error Unit}
    {before after : State} (ran : Action.forEach items body before = (.ok (), after)) :
    ∀ item ∈ items, ∃ middle next, body item middle = (.ok (), next) := by
  induction items generalizing before with
  | nil => simp
  | cons item rest ih =>
      obtain ⟨_, next, first, others⟩ := Action.bind_eq_ok ran
      intro other member
      rcases List.mem_cons.mp member with rfl | later
      · exact ⟨before, next, first⟩
      · exact ih others other later

section Segments

variable {kernel : Kernel} {mappings : List Mapping} {extra : List Phdr}

/-- The loop over the segments. -/
def writeReduced {Sink : Type} [Writer Sink] (kernel : Kernel) (segments : List Segment) : Action Sink Unit Unit :=
  Action.forEach segments fun segment =>
    Action.onlyIf (segment.writeSize != 0) (writeMemory kernel segment.startAddress.toNat segment.writeSize.toNat)

/-- Of every segment the reduced part is written. -/
theorem writeReduced_emits (reachable : Reachable kernel mappings extra) :
    Emits total.observation (writeReduced kernel (mappings.map segmentOf))
      (visibleSegments kernel mappings).flatten := by
  have each : ∀ segment ∈ mappings.map segmentOf, Emits total.observation
      (Action.onlyIf (segment.writeSize != 0) (writeMemory kernel segment.startAddress.toNat segment.writeSize.toNat))
      (kernel.visibleRange segment.startAddress.toNat segment.writeSize.toNat) := by
    intro segment member
    obtain ⟨mapping, listed, rfl⟩ := List.mem_map.mp member
    by_cases empty : mapping.writeSize = 0
    · have skipped : ((segmentOf mapping).writeSize != 0) = false := by simpa [segmentOf] using empty
      have nothing : (segmentOf mapping).writeSize.toNat = 0 := by rw [segmentOf, empty]; rfl
      rw [skipped, nothing]
      exact Emits.pure
    · have present : ((segmentOf mapping).writeSize != 0) = true := by simpa [segmentOf] using empty
      rw [present]
      exact writeMemory_emits total (reachable.segments mapping listed)
  have emits := Emits.forEach each
  rw [List.flatMap_map] at emits
  exact emits

end Segments

end Emission

end Corus.Reference
