import Corus.Elf.Core
import Corus.Proc.Vdso
import Corus.Reference.Smaps

/-!
# Core assembly of the C library

The part of `CreateElfCore` behind the parsing of the mappings. It writes memory straight
from where it is, so that a page that cannot be read ends the core, and it adds the
program headers of the vDSO that are not mappings.
-/

namespace Corus.Reference

open Corus.Logical Corus.Platform Corus.Output Corus.Elf Corus.Proc

/-- The arguments of `CreateElfCore`, with what it reads from `/proc/self/auxv`. -/
structure CoreCall (arch : Arch) where
  prpsinfo : Prpsinfo
  user : Option (CoreUser arch)
  prstatus : Prstatus arch
  threads : List (ThreadState arch)
  pagesize : UInt64
  prioritizeMaxLength : UInt64
  mainPid : Int32
  extraNotes : List ExtraNote
  auxv : List AuxvT

/-! ## The vDSO -/

/-- `AT_SYSINFO_EHDR`. -/
def atSysinfoEhdr : UInt64 := 33

/-- The address that `CountAUXV` returns. -/
def vdsoEhdr (auxv : List AuxvT) : UInt64 :=
  auxv.foldl (fun vdso entry => if entry.aType == atSysinfoEhdr then entry.aVal else vdso) 0

/-- `SanitizeVDSO`. -/
def sanitizeVDSO (memory : AddressSpace) (ehdrAddress start stop : UInt64) : Bool :=
  let ehdr := memory.ehdrAt ehdrAddress
  let phdr := ehdrAddress + ehdr.ePhoff
  let first := memory.phdrAt phdr
  if ehdrAddress == 0 || ehdrAddress &&& 7 != 0 then false
  else if stop ≤ ehdrAddress + UInt64.ofNat ehdrSize then false
  else if ehdr.ePhoff &&& 7 != 0 then false
  else if phdr ≤ start || stop ≤ phdr + ehdr.ePhnum.toUInt64 * UInt64.ofNat phdrSize then false
  else if first.pType != ptLoad || first.pVaddr != start || stop ≤ first.pVaddr + first.pMemsz then false
  else (memory.phdrsAt phdr ehdr.ePhnum.toNat).tail.all fun phdr =>
    !(phdr.pType == ptLoad || phdr.pVaddr &&& 7 != 0 || phdr.pVaddr ≤ start || stop ≤ phdr.pVaddr + phdr.pFilesz)

/-- The vDSO, if a mapping covers it and it looks like one. -/
def findVdso (memory : AddressSpace) (auxv : List AuxvT) (segments : List Segment) : Option UInt64 :=
  let vdso := vdsoEhdr auxv
  if vdso == 0 then none
  else
    match segments.find? fun segment => segment.flags &&& pfR.toUInt16 != 0 &&
        segment.startAddress ≤ vdso && vdso < segment.endAddress with
    | none => none
    | some segment =>
        if sanitizeVDSO memory vdso segment.startAddress segment.endAddress then some vdso else none

/-- The program headers of the vDSO that are not written as mappings. -/
def extraPhdrs (memory : AddressSpace) : Option UInt64 → List Phdr
  | none => []
  | some vdso =>
      let ehdr := memory.ehdrAt vdso
      (memory.phdrsAt (vdso + ehdr.ePhoff) ehdr.ePhnum.toNat).filter fun phdr => phdr.pType != ptLoad

/-! ## Sizes -/

/-- The loop that computes `nt_file_count` and `nt_file_desc_len`. -/
def ntFileLengths (segments : List Segment) : Nat × Nat :=
  segments.foldl (fun lengths segment =>
    if segment.isAnon then lengths else (lengths.1 + 1, lengths.2 + (3 * 8 + segment.nameLen + 1))) (0, 0)

/-- Up to the next multiple of four. -/
def fill (size : Nat) : Nat := if size % 4 ≠ 0 then 4 - size % 4 else 0

section Sizes

variable {arch : Arch} (call : CoreCall arch) (segments : List Segment)

/-- `filesz` of the PT_NOTE header. -/
def CoreCall.notesFilesz : Nat :=
  let filesz := nhdrSize + 8 + Prpsinfo.size + (if call.user.isSome then nhdrSize + 8 + CoreUser.size arch else 0) +
    call.threads.length * (nhdrSize + 8 + Prstatus.size arch + (nhdrSize + 8 + arch.fpRegsSize))
  let filesz := call.extraNotes.foldl (fun filesz note =>
    filesz + (nhdrSize + (note.name.length + 1) + note.description.length) + fill (note.name.length + 1) +
      fill note.description.length) filesz
  let filesz := if call.auxv.length ≠ 0 then filesz + (8 + nhdrSize + call.auxv.length * auxvSize) else filesz
  let (count, descLen) := ntFileLengths segments
  if 0 < count then filesz + (nhdrSize + 8 + 2 * 8 + descLen) + fill descLen else filesz

/-- File offset of the notes. -/
def notesOffset (extra : List Phdr) : Nat := ehdrSize + (segments.length + extra.length + 1) * phdrSize

/-- `note_align`. -/
def CoreCall.noteAlign (extra : List Phdr) : Nat :=
  let pagesize := call.pagesize.toNat
  let align := pagesize - (notesOffset segments extra + call.notesFilesz segments) % pagesize
  if align = pagesize then 0 else align

end Sizes

/-- `offset += filesz`, for one size after the other. -/
def advance (offset : UInt64) (sizes : List UInt64) : UInt64 := sizes.foldl (fun offset size => offset + size) offset

/-! ## Priorities -/

/-- `if (!largest || largest->write_size < mapp->write_size)`. -/
def larger (largest : Option (Nat × UInt64)) (entry : Segment × Nat) : Option (Nat × UInt64) :=
  match largest with
  | none => some (entry.2, entry.1.writeSize)
  | some (index, size) => if size < entry.1.writeSize then some (entry.2, entry.1.writeSize) else some (index, size)

/-- The first of the largest segments. -/
def largest (segments : List Segment) : Option (Nat × UInt64) := segments.zipIdx.foldl larger none

/-- `while (1)`: every round but the last empties a segment. -/
def reduceLargest (maxLength rest : UInt64) : Nat → List Segment → List Segment
  | 0, segments => segments
  | rounds + 1, segments =>
      let total := advance rest (segments.map Segment.writeSize)
      match largest segments with
      | none => segments
      | some (index, size) =>
          if maxLength < total && 0 < size then
            let needed := total - maxLength
            if size < needed then
              reduceLargest maxLength rest rounds
                (segments.modify index fun segment => { segment with writeSize := 0 })
            else segments.modify index fun segment => { segment with writeSize := size - needed }
          else segments

/-- The segments with the sizes that are written. -/
def CoreCall.reduced {arch : Arch} (call : CoreCall arch) (extra : List Phdr) (segments : List Segment) :
    List Segment :=
  if 0 < call.prioritizeMaxLength then
    let start := notesOffset segments extra + call.noteAlign segments extra + call.notesFilesz segments
    reduceLargest call.prioritizeMaxLength (UInt64.ofNat start + advance 0 (extra.map Phdr.pFilesz))
      (segments.length + 1) segments
  else segments

section Writers

variable {arch : Arch} {Sink : Type} [Writer Sink] (kernel : Kernel)

/-! ## Notes -/

/-- `if (writer(handle, buf, n) != n) goto done`. -/
def put (bytes : Bytes) : Action Sink Unit Unit := (writeFull bytes).mapError fun _ => ()

/-- A note with the name `"CORE\0\0\0\0"`. -/
def writeNote (nType : UInt32) (desc : Bytes) : Action Sink Unit Unit := do
  put (Nhdr.mk 5 (UInt32.ofNat desc.length) nType).asBytes
  put coreName
  put desc

/-- `WriteThreadRegs`. -/
def writeThreadRegs (prstatus : Prstatus arch) (thread : ThreadState arch) : Action Sink Unit Unit := do
  writeNote ntPrstatus { prstatus with prPid := thread.pid, prReg := thread.regs }.asBytes
  writeNote ntPrfpreg (FpRegs.asBytes thread.fpregs)

/-- The NT_AUXV note, one entry after the other. -/
def writeAuxv (auxv : List AuxvT) : Action Sink Unit Unit := do
  put (Nhdr.mk 5 (UInt32.ofNat (auxv.length * auxvSize)) ntAuxv).asBytes
  put coreName
  Action.forEach auxv fun entry => put entry.asBytes

/-- A note of the caller. -/
def writeExtraNote (note : ExtraNote) : Action Sink Unit Unit := do
  let namesz := note.name.length + 1
  put (Nhdr.mk (UInt32.ofNat namesz) (UInt32.ofNat note.description.length) note.noteType).asBytes
  put (note.name ++ [0])
  put (List.replicate (fill namesz) 0)
  put note.description
  put (List.replicate (fill note.description.length) 0)

/-- The NT_FILE note. -/
def writeNtFile (pagesize : UInt64) (segments : List Segment) : Action Sink Unit Unit :=
  let (count, descLen) := ntFileLengths segments
  Action.onlyIf (0 < count) do
    put (Nhdr.mk 5 (UInt32.ofNat (descLen + 16)) ntFile).asBytes
    put coreName
    put (u64Bytes (UInt64.ofNat count) ++ u64Bytes pagesize)
    Action.forEach segments fun segment => Action.onlyIf (!segment.isAnon) do
      put (u64Bytes segment.startAddress ++ u64Bytes segment.endAddress ++ u64Bytes (segment.offset / pagesize))
    Action.forEach segments fun segment => Action.onlyIf (!segment.isAnon) do
      put (segment.name.toList.take (segment.nameLen + 1))
    put (List.replicate (fill descLen) 0)

/-- The note section: the thread that crashed comes before the other ones, which are
written from the last to the first. -/
def CoreCall.writeNotes (call : CoreCall arch) (segments : List Segment) : Action Sink Unit Unit := do
  writeNote ntPrpsinfo call.prpsinfo.asBytes
  Action.forSome call.user fun user => writeNote ntPrxreg user.asBytes
  Action.onlyIf (call.auxv.length ≠ 0) (writeAuxv call.auxv)
  Action.forSome (call.threads.reverse.find? fun thread => thread.pid == call.mainPid) (writeThreadRegs call.prstatus)
  Action.forEach call.threads.reverse fun thread =>
    Action.onlyIf (thread.pid != call.mainPid) (writeThreadRegs call.prstatus thread)
  Action.forEach call.extraNotes writeExtraNote
  writeNtFile call.pagesize segments

/-! ## Headers -/

/-- The file header. -/
def coreEhdr (arch : Arch) (phnum : Nat) : Ehdr where
  eIdent := #v[0x7f, 0x45, 0x4c, 0x46, elfClass64, elfData2Lsb, evCurrent, 0, 0, 0, 0, 0, 0, 0, 0, 0]
  eType := etCore
  eMachine := arch.elfMachine
  eVersion := evCurrent.toUInt32
  eEntry := 0
  ePhoff := UInt64.ofNat ehdrSize
  eShoff := 0
  eFlags := 0
  eEhsize := UInt16.ofNat ehdrSize
  ePhentsize := UInt16.ofNat phdrSize
  ePhnum := UInt16.ofNat phnum
  eShentsize := UInt16.ofNat shdrSize
  eShnum := 0
  eShstrndx := 0

/-- The PT_LOAD headers, which continue with `phdr`. -/
def writeSegmentPhdrs (phdr : Phdr) : UInt64 → List Segment → Action Sink Unit Unit
  | _, [] => pure ()
  | offset, segment :: rest => do
      put { phdr with
        pOffset := offset
        pVaddr := segment.startAddress
        pMemsz := segment.endAddress - segment.startAddress
        pFilesz := segment.writeSize
        pFlags := (segment.flags &&& pfMask).toUInt32 }.asBytes
      writeSegmentPhdrs phdr (offset + segment.writeSize) rest

/-- The headers of the vDSO. -/
def writeExtraPhdrs : UInt64 → List Phdr → Action Sink Unit Unit
  | _, [] => pure ()
  | offset, phdr :: rest => do
      put { phdr with pOffset := offset, pPaddr := 0 }.asBytes
      writeExtraPhdrs (offset + phdr.pFilesz) rest

/-! ## Memory -/

/-- `writer(handle, address, size)` on memory of the process: what comes before a byte that
cannot be read is written. -/
def writeMemory (address size : Nat) : Action Sink Unit Unit := do
  let present := (List.range size).takeWhile fun index => kernel.readable (address + index)
  put (present.map fun index => kernel.memory (address + index))
  fun sink => (if present.length = size then .ok () else .error (), sink)

/-- The memory of the process as its own code sees it. -/
def ownMemory : AddressSpace := fun address => kernel.memory address.toNat

/-- `CreateElfCore` behind the parsing of the mappings. -/
def CoreCall.writeCore (call : CoreCall arch) (segments : List Segment) : Action Sink Unit Unit := do
  let extra := extraPhdrs (ownMemory kernel) (findVdso (ownMemory kernel) call.auxv segments)
  let offset := notesOffset segments extra
  let filesz := call.notesFilesz segments
  let noteAlign := call.noteAlign segments extra
  let reduced := call.reduced extra segments
  put (coreEhdr arch (segments.length + extra.length + 1)).asBytes
  put { Phdr.zeroed with pType := ptNote, pOffset := UInt64.ofNat offset, pFilesz := UInt64.ofNat filesz }.asBytes
  writeSegmentPhdrs { Phdr.zeroed with pType := ptLoad, pAlign := call.pagesize }
    (UInt64.ofNat (offset + noteAlign + filesz)) reduced
  writeExtraPhdrs (advance (UInt64.ofNat (offset + noteAlign + filesz)) (reduced.map Segment.writeSize)) extra
  call.writeNotes segments
  Action.onlyIf (noteAlign ≠ 0) (put (List.replicate noteAlign 0))
  Action.forEach reduced fun segment =>
    Action.onlyIf (segment.writeSize != 0) (writeMemory kernel segment.startAddress.toNat segment.writeSize.toNat)
  Action.forEach extra fun phdr => writeMemory kernel phdr.pVaddr.toNat phdr.pFilesz.toNat

end Writers

end Corus.Reference
