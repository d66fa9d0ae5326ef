import Corus.Elf.Notes
import Corus.Memory.Probe

/-!
# Core file assembly

`create_elf_core` lays out and streams an ELF core file: the file header, a
PT_NOTE program header followed by one PT_LOAD for each mapping, the note
section, padding up to the page size, and the segment contents. All offsets are
computed from size formulas before the first byte they describe is written.
-/

namespace Corus.Elf

open Corus.Logical Corus.Platform Corus.Output Corus.Memory Corus.Proc

/-- The part of the core file that could not be written. -/
inductive CreateElfCoreError where
  | ehdr
  | phdr
  | notes
  | padding
  | segment
deriving DecidableEq, Repr

/-- Per-thread captured state. -/
structure ThreadState (arch : Arch) where
  pid : Int32
  regs : Regs arch
  fpregs : FpRegs arch

/-- Inputs of the assembly, gathered while the threads are suspended. -/
structure CoreInputs (arch : Arch) where
  prpsinfo : Prpsinfo
  threads : List (ThreadState arch)
  mainThread : Nat
  auxv : List AuxvT
  mappings : List Mapping
  pagesize : UInt64
  notes : List ExtraNote
  user : Option (CoreUser arch)

/-- Size of one fixed-payload CORE note. -/
def coreNote (descsz : Nat) : Nat := noteSize coreNamesz descsz

/-- Total size of the note section, from counts alone. -/
def noteSectionSizeFor (arch : Arch) (nThreads nAuxv : Nat) (mappings : List Mapping)
    (notes : List ExtraNote) (hasUser : Bool) : Nat :=
  let sz := coreNote Prpsinfo.size
  let sz := if hasUser then sz + coreNote (CoreUser.size arch) else sz
  let sz := sz + nThreads * (coreNote (Prstatus.size arch) + coreNote arch.fpRegsSize)
  let sz := if 0 < nAuxv then sz + coreNote (nAuxv * auxvSize) else sz
  let (count, descLen) := ntFileSizes mappings
  let sz := if 0 < count then sz + coreNote descLen else sz
  notes.foldl (fun sz note => sz + noteSize (note.name.length + 1) note.description.length) sz

namespace CoreInputs

variable {arch : Arch} (inputs : CoreInputs arch)

def noteSectionSize : Nat :=
  noteSectionSizeFor arch inputs.threads.length inputs.auxv.length inputs.mappings inputs.notes
    inputs.user.isSome

/-- Index of the thread whose notes come first. -/
def main : Nat := min inputs.mainThread (inputs.threads.length - 1)

end CoreInputs

section Writers

variable {arch : Arch} {Sink : Type} [Writer Sink]

/-- The PRSTATUS and PRFPREG notes of one thread; `status` is otherwise zero. -/
def writeThread (thread : ThreadState arch) : Action Sink NoteWriteError Unit := do
  writePrstatus { (Prstatus.zeroed : Prstatus arch) with prPid := thread.pid, prReg := thread.regs }
  writePrfpreg thread.fpregs

/-- `write_notes`: the full PT_NOTE section. -/
def CoreInputs.writeNotes (inputs : CoreInputs arch) : Action Sink CreateElfCoreError Unit :=
  Action.mapError (fun _ : NoteWriteError => .notes) do
    writePrpsinfo inputs.prpsinfo
    Action.forSome inputs.user writePrxreg
    -- The main thread first, then the others; `threads[main]` exists unless there are none.
    Action.forSome inputs.threads[inputs.main]? writeThread
    Action.forEach inputs.threads.zipIdx fun (thread, idx) =>
      Action.onlyIf (idx != inputs.main) (writeThread thread)
    Action.onlyIf (!inputs.auxv.isEmpty) (writeAuxv inputs.auxv)
    Action.forEach inputs.notes fun note => writeExtraNote note.name note.noteType note.description
    writeNtFile inputs.mappings inputs.pagesize

/-- The PT_LOAD program header of a mapping stored at a file offset. -/
def loadPhdr (pagesize : UInt64) (offset : Nat) (mapping : Mapping) : Phdr :=
  { Phdr.zeroed with
    pType := ptLoad
    pAlign := pagesize
    pOffset := UInt64.ofNat offset
    pVaddr := mapping.start
    pMemsz := mapping.end - mapping.start
    pFilesz := mapping.writeSize
    pFlags := mapping.pfFlags }

/-- One PT_LOAD for each mapping; the offset advances by each segment's size. -/
def writeLoadPhdrs (pagesize : UInt64) : Nat → List Mapping → Action Sink CreateElfCoreError Unit
  | _, [] => pure ()
  | offset, mapping :: rest => do
      (writeFull (loadPhdr pagesize offset mapping).asBytes).mapError fun _ => .phdr
      writeLoadPhdrs pagesize (offset + mapping.writeSize.toNat) rest

/-- Alignment padding, written in blocks of at most 4096 zeros. -/
def writePadding (remaining : Nat) : Action Sink CreateElfCoreError Unit :=
  if _more : remaining > 0 then do
    let chunk := min remaining 4096
    (writeFull ((List.replicate 4096 0).take chunk)).mapError fun _ => .padding
    writePadding (remaining - chunk)
  else pure ()
termination_by remaining

end Writers

namespace CoreInputs

variable {arch : Arch} (inputs : CoreInputs arch)

/-- File offset just past the program headers. -/
def phdrsEnd : Nat := ehdrSize + (inputs.mappings.length + 1) * phdrSize

/-- Padding between the notes and the first segment. -/
def noteAlign : Nat :=
  (inputs.pagesize.toNat - (inputs.phdrsEnd + inputs.noteSectionSize) % inputs.pagesize.toNat) %
    inputs.pagesize.toNat

/-- File offset of the first segment. -/
def segmentsStart : Nat := inputs.phdrsEnd + inputs.noteSectionSize + inputs.noteAlign

def ehdr : Ehdr :=
  { Ehdr.newCore arch with
    ePhoff := UInt64.ofNat ehdrSize
    ePhnum := UInt16.ofNat (inputs.mappings.length + 1) }

def notePhdr : Phdr :=
  { Phdr.zeroed with
    pType := ptNote
    pOffset := UInt64.ofNat inputs.phdrsEnd
    pFilesz := UInt64.ofNat inputs.noteSectionSize }

end CoreInputs

/-- Everything before the segment contents. -/
def CoreInputs.writeHeaders {arch : Arch} {Sink : Type} [Writer Sink] (inputs : CoreInputs arch) :
    Action Sink CreateElfCoreError Unit := do
  (writeFull inputs.ehdr.asBytes).mapError fun _ => .ehdr
  (writeFull inputs.notePhdr.asBytes).mapError fun _ => .phdr
  writeLoadPhdrs inputs.pagesize inputs.segmentsStart inputs.mappings
  inputs.writeNotes
  writePadding inputs.noteAlign

/-- What one round of the copy loop of a chunk did. -/
structure Round where
  result : Except CreateElfCoreError Nat
  scratch : Bytes
  world : World

/-- The fallback of the copy loop: retry within the smallest kernel page, and
skip it, leaving zeros, when it cannot be read either. -/
def copyPage (kernel : Kernel) (address chunk copied : Nat) (scratch : Bytes) (world : World) : Round :=
  let pageChunk := min (4096 - address % 4096) (chunk - copied)
  let filled := readMemory kernel address (window scratch copied pageChunk) world
  let scratch := overwrite scratch copied filled.scratch
  match filled.result with
  | .ok 0 => ⟨.ok pageChunk, scratch, filled.world⟩
  | .ok (bytes + 1) => ⟨.ok (bytes + 1), scratch, filled.world⟩
  | .error errno =>
      if errno = .efault then ⟨.ok pageChunk, scratch, filled.world⟩
      else ⟨.error .segment, scratch, filled.world⟩

/-- One round of the copy loop; the result is by how much `copied` advances. -/
def copyRound (kernel : Kernel) (capacity start offset chunk copied : Nat) (scratch : Bytes)
    (world : World) : Round :=
  let probe := min (chunk - copied) capacity
  let address := (start + (offset + copied)) % 2 ^ 64
  let filled := readMemory kernel address (window scratch copied probe) world
  let scratch := overwrite scratch copied filled.scratch
  match filled.result with
  | .ok 0 => copyPage kernel address chunk copied scratch filled.world
  | .ok (bytes + 1) => ⟨.ok (bytes + 1), scratch, filled.world⟩
  | .error errno =>
      if errno = .efault then copyPage kernel address chunk copied scratch filled.world
      else ⟨.error .segment, scratch, filled.world⟩

/-- `while copied < chunk`; every round advances, so `chunk` rounds are enough. -/
def copyChunk (kernel : Kernel) (capacity start offset chunk : Nat) :
    Nat → Nat → Bytes → World → Except CreateElfCoreError Unit × Bytes × World
  | 0, _, scratch, world => (.ok (), scratch, world)
  | fuel + 1, copied, scratch, world =>
      if copied < chunk then
        match copyRound kernel capacity start offset chunk copied scratch world with
        | ⟨.ok bytes, scratch, world⟩ =>
            copyChunk kernel capacity start offset chunk fuel (copied + bytes) scratch world
        | ⟨.error failure, scratch, world⟩ => (.error failure, scratch, world)
      else (.ok (), scratch, world)

/-- Fill one chunk of the scratch buffer from memory. -/
def fillChunk (kernel : Kernel) (capacity start offset chunk : Nat) (scratch : Bytes)
    (world : World) : Except CreateElfCoreError Bytes × World :=
  let scratch := overwrite scratch 0 (List.replicate chunk 0)
  match copyChunk kernel capacity start offset chunk chunk 0 scratch world with
  | (.ok (), scratch, world) => (.ok scratch, world)
  | (.error failure, _, world) => (.error failure, world)

section Segments

variable {Sink : Type} [Writer Sink]

/-- `while offset < mapping.write_size`: the contents of one segment. Returns the
scratch buffer, which the next segment reuses. -/
def writeSegment (kernel : Kernel) (capacity : Nat) (mapping : Mapping) (offset : Nat)
    (scratch : Bytes) : Action (Machine Sink) CreateElfCoreError Bytes :=
  if _more : offset < mapping.writeSize.toNat then do
    let chunk := min (mapping.writeSize.toNat - offset) memoryBufferSize
    let scratch ← onWorld (fillChunk kernel capacity mapping.start.toNat offset chunk scratch)
    (writeFull (scratch.take chunk)).mapError fun _ => .segment
    writeSegment kernel capacity mapping (offset + chunk) scratch
  else pure scratch
termination_by mapping.writeSize.toNat - offset
decreasing_by
  simp only [memoryBufferSize]
  omega

/-- The contents of all segments, in order. -/
def writeSegments (kernel : Kernel) (capacity : Nat) :
    List Mapping → Bytes → Action (Machine Sink) CreateElfCoreError Unit
  | [], _ => pure ()
  | mapping :: rest, scratch => do
      let scratch ← writeSegment kernel capacity mapping 0 scratch
      writeSegments kernel capacity rest scratch

/-- The part of `create_elf_core` before the segment contents: the loopback pipe
and its capacity, then the headers. -/
def prepareCore {arch : Arch} (kernel : Kernel) (inputs : CoreInputs arch) :
    Action (Machine Sink) CreateElfCoreError Nat := do
  (onWorld (pipeNew kernel)).mapError fun _ => .segment
  let capacity ← (onWorld (memoryCapacity kernel)).mapError fun _ => .segment
  inputs.writeHeaders
  pure capacity

/-- `create_elf_core`. -/
def createElfCore {arch : Arch} (kernel : Kernel) (inputs : CoreInputs arch) :
    Action (Machine Sink) CreateElfCoreError Unit := do
  let capacity ← prepareCore kernel inputs
  writeSegments kernel capacity inputs.mappings (List.replicate memoryBufferSize 0)

end Segments

end Corus.Elf
