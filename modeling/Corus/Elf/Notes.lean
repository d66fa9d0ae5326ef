import Corus.Elf.Payload
import Corus.Output.Writer
import Corus.Proc.Mapping

/-!
# Note construction

Each note is a header followed by a name and a descriptor, both padded to four
bytes. The writers stream notes through a `Writer`; `noteSize` and `ntFileSizes`
predict their sizes for the PT_NOTE program header.
-/

namespace Corus.Elf

open Corus.Logical Corus.Output Corus.Proc

/-- The padded `"CORE"` note name. -/
def coreName : Bytes := [0x43, 0x4f, 0x52, 0x45, 0, 0, 0, 0]

/-- Significant length of the `"CORE"` name, including its NUL. -/
def coreNamesz : Nat := 5

/-- Note name and descriptor alignment, `align_of::<Nhdr>()`. -/
def noteAlign : Nat := 4

/-- Round up to the next note alignment boundary; `& !(NOTE_ALIGN - 1)` clears
the bits below the boundary. -/
def alignNote (n : Nat) : Nat := (n + (noteAlign - 1)) / noteAlign * noteAlign

/-- A user-supplied note; the name comes without its NUL. -/
structure ExtraNote where
  name : Bytes
  noteType : UInt32
  description : Bytes

/-- Wrapper around a write error inside the note section. -/
structure NoteWriteError where
  error : WriteError

/-- Bytes a note occupies in the file. -/
def noteSize (namesz descsz : Nat) : Nat := nhdrSize + alignNote namesz + alignNote descsz

section Writers

variable {Sink : Type} [Writer Sink]

/-- `w.write_full(buf)?` inside a note writer. -/
def noteWrite (buf : Bytes) : Action Sink NoteWriteError Unit := (writeFull buf).mapError .mk

/-- Write up to three zero padding bytes. -/
def pad (count : Nat) : Action Sink NoteWriteError Unit :=
  if count = 0 then pure () else noteWrite ((List.replicate 4 0).take count)

/-- Write one fixed-payload CORE note. -/
def writeCoreNote (nType : UInt32) (desc : Bytes) : Action Sink NoteWriteError Unit := do
  let descsz := desc.length
  noteWrite (Nhdr.mk (UInt32.ofNat coreNamesz) (UInt32.ofNat descsz) nType).asBytes
  noteWrite coreName
  noteWrite desc
  pad (alignNote descsz - descsz)

def writePrpsinfo (info : Prpsinfo) : Action Sink NoteWriteError Unit :=
  writeCoreNote ntPrpsinfo info.asBytes

def writePrstatus {arch : Arch} (status : Prstatus arch) : Action Sink NoteWriteError Unit :=
  writeCoreNote ntPrstatus status.asBytes

def writePrfpreg {arch : Arch} (fpregs : FpRegs arch) : Action Sink NoteWriteError Unit :=
  writeCoreNote ntPrfpreg (FpRegs.asBytes fpregs)

def writePrxreg {arch : Arch} (user : CoreUser arch) : Action Sink NoteWriteError Unit :=
  writeCoreNote ntPrxreg user.asBytes

/-- Write a user-supplied note: header, NUL-terminated name, descriptor. -/
def writeExtraNote (name : Bytes) (noteType : UInt32) (desc : Bytes) :
    Action Sink NoteWriteError Unit := do
  let namesz := name.length + 1
  let descsz := desc.length
  noteWrite (Nhdr.mk (UInt32.ofNat namesz) (UInt32.ofNat descsz) noteType).asBytes
  noteWrite name
  noteWrite [0]
  pad (alignNote namesz - namesz)
  noteWrite desc
  pad (alignNote descsz - descsz)

/-- Write the NT_AUXV note. -/
def writeAuxv (auxv : List AuxvT) : Action Sink NoteWriteError Unit := do
  let descsz := auxv.length * auxvSize
  noteWrite (Nhdr.mk (UInt32.ofNat coreNamesz) (UInt32.ofNat descsz) ntAuxv).asBytes
  noteWrite coreName
  noteWrite (AuxvT.sliceAsBytes auxv)
  pad (alignNote descsz - descsz)

end Writers

/-- One round of the loop of `nt_file_sizes`. -/
def ntFileSizesStep (sizes : Nat × Nat) (mapping : Mapping) : Nat × Nat :=
  if mapping.isAnon then sizes else (sizes.1 + 1, sizes.2 + (3 * 8 + mapping.nameLen + 1))

/-- File count and unpadded descriptor length of the NT_FILE note. -/
def ntFileSizes (mappings : List Mapping) : Nat × Nat :=
  match mappings.foldl ntFileSizesStep (0, 0) with
  | (count, triplesAndNames) => if count = 0 then (0, 0) else (count, 2 * 8 + triplesAndNames)

/-- The `i64` words of one file-backed mapping: `start`, `end`, `offset / pagesize`. -/
def ntFileTriple (pagesize : UInt64) (mapping : Mapping) : Bytes :=
  u64Bytes mapping.start ++ u64Bytes mapping.end ++ u64Bytes (mapping.offset / pagesize)

/-- Write the NT_FILE note, if some mapping is file-backed. -/
def writeNtFile {Sink : Type} [Writer Sink] (mappings : List Mapping) (pagesize : UInt64) :
    Action Sink NoteWriteError Unit :=
  match ntFileSizes mappings with
  | (count, descLen) =>
      if count = 0 then pure ()
      else do
        noteWrite (Nhdr.mk (UInt32.ofNat coreNamesz) (UInt32.ofNat descLen) ntFile).asBytes
        noteWrite coreName
        noteWrite (u64Bytes (UInt64.ofNat count) ++ u64Bytes pagesize)
        Action.forEach mappings fun mapping =>
          Action.onlyIf (!mapping.isAnon) (noteWrite (ntFileTriple pagesize mapping))
        Action.forEach mappings fun mapping =>
          Action.onlyIf (!mapping.isAnon) (noteWrite mapping.nameWithNul)
        pad (alignNote descLen - descLen)

/-! ## The bytes of a note -/

/-- Name and descriptor padded with zeros to the next boundary. -/
def padded (bytes : Bytes) : Bytes := bytes ++ List.replicate (alignNote bytes.length - bytes.length) 0

/-- The canonical encoding of a note whose name includes its terminator. -/
def noteBytes (name : Bytes) (nType : UInt32) (desc : Bytes) : Bytes :=
  (Nhdr.mk (UInt32.ofNat name.length) (UInt32.ofNat desc.length) nType).asBytes ++
    (padded name ++ padded desc)

/-- `"CORE\0"`. -/
def coreNameNul : Bytes := [0x43, 0x4f, 0x52, 0x45, 0]

theorem alignNote_bounds (n : Nat) : n ≤ alignNote n ∧ alignNote n < n + 4 := by
  simp only [alignNote, noteAlign]
  omega

theorem length_padded (bytes : Bytes) : (padded bytes).length = alignNote bytes.length := by
  have bounds := alignNote_bounds bytes.length
  simp only [padded, List.length_append, List.length_replicate]
  omega

@[simp] theorem length_noteBytes (name : Bytes) (nType : UInt32) (desc : Bytes) :
    (noteBytes name nType desc).length = noteSize name.length desc.length := by
  simp only [noteBytes, noteSize, List.length_append, Nhdr.length_asBytes, length_padded]
  omega

section Emission

variable {Sink : Type} [Writer Sink] (total : AcceptsEveryByte Sink)

theorem noteWrite_emits (buf : Bytes) : Emits total.observation (noteWrite buf) buf :=
  Emits.mapError (writeFull_emits total buf)

theorem pad_emits {count : Nat} (short : count ≤ 4) :
    Emits total.observation (pad count) (List.replicate count 0) := by
  unfold pad
  split
  · rename_i none
    subst none
    exact Emits.pure
  · have zeros : (List.replicate 4 (0 : Byte)).take count = List.replicate count 0 := by
      rw [List.take_replicate, Nat.min_eq_left short]
    rw [← zeros]
    exact noteWrite_emits total _

/-- Padding after `bytes` completes them to their padded form. -/
theorem pad_align_emits (bytes : Bytes) :
    Emits total.observation (pad (alignNote bytes.length - bytes.length))
      (List.replicate (alignNote bytes.length - bytes.length) 0) := by
  have bounds := alignNote_bounds bytes.length
  exact pad_emits total (by omega)

theorem writeCoreNote_emits (nType : UInt32) (desc : Bytes) :
    Emits total.observation (writeCoreNote nType desc) (noteBytes coreNameNul nType desc) := by
  have emits := (noteWrite_emits total
      (Nhdr.mk (UInt32.ofNat coreNamesz) (UInt32.ofNat desc.length) nType).asBytes).bind
    ((noteWrite_emits total coreName).bind
      ((noteWrite_emits total desc).bind (pad_align_emits total desc)))
  exact emits

theorem writeExtraNote_emits (name : Bytes) (noteType : UInt32) (desc : Bytes) :
    Emits total.observation (writeExtraNote name noteType desc)
      (noteBytes (name ++ [0]) noteType desc) := by
  have emits := (noteWrite_emits total
      (Nhdr.mk (UInt32.ofNat (name ++ [0]).length) (UInt32.ofNat desc.length) noteType).asBytes).bind
    ((noteWrite_emits total name).bind ((noteWrite_emits total [0]).bind
      ((pad_align_emits total (name ++ [0])).bind
        ((noteWrite_emits total desc).bind (pad_align_emits total desc)))))
  simpa [noteBytes, padded, writeExtraNote] using emits

theorem writeAuxv_emits (auxv : List AuxvT) :
    Emits total.observation (writeAuxv auxv)
      (noteBytes coreNameNul ntAuxv (AuxvT.sliceAsBytes auxv)) := by
  have emits := writeCoreNote_emits total ntAuxv (AuxvT.sliceAsBytes auxv)
  unfold writeCoreNote at emits
  rw [AuxvT.length_sliceAsBytes] at emits
  exact emits

/-- The mappings listed by NT_FILE. -/
def fileBacked (mappings : List Mapping) : List Mapping := mappings.filter fun mapping => !mapping.isAnon

/-- The descriptor of the NT_FILE note. -/
def ntFileDesc (mappings : List Mapping) (pagesize : UInt64) : Bytes :=
  u64Bytes (UInt64.ofNat (fileBacked mappings).length) ++ u64Bytes pagesize ++
    (fileBacked mappings).flatMap (ntFileTriple pagesize) ++
    (fileBacked mappings).flatMap Mapping.nameWithNul

theorem ntFileSizes_foldl (mappings : List Mapping) (count size : Nat) :
    mappings.foldl ntFileSizesStep (count, size) =
      (count + (fileBacked mappings).length,
        size + ((fileBacked mappings).map fun mapping => 3 * 8 + mapping.nameLen + 1).sum) := by
  induction mappings generalizing count size with
  | nil => simp [fileBacked]
  | cons mapping rest ih =>
      cases anon : mapping.isAnon with
      | true => simpa [ntFileSizesStep, anon, fileBacked] using ih count size
      | false =>
          have rest := ih (count + 1) (size + (3 * 8 + mapping.nameLen + 1))
          simp only [fileBacked] at rest
          simp only [List.foldl_cons, ntFileSizesStep, anon, Bool.false_eq_true, if_false, rest,
            fileBacked, Bool.not_false, List.filter_cons_of_pos, List.length_cons, List.map_cons,
            List.sum_cons, Prod.mk.injEq]
          omega

/-- A bound on the file table from the number of mappings alone. -/
theorem ntFileSizes_le {mappings : List Mapping} (fits : ∀ mapping ∈ mappings, mapping.nameLen < fnameMax) :
    (ntFileSizes mappings).2 ≤ 2 * 8 + mappings.length * 280 := by
  have sizes : ∀ (rest : List Mapping) (count size : Nat), (∀ mapping ∈ rest, mapping.nameLen < fnameMax) →
      (rest.foldl ntFileSizesStep (count, size)).2 ≤ size + rest.length * 280 := by
    intro rest
    induction rest with
    | nil => simp
    | cons mapping rest ih =>
        intro count size bounded
        have here := bounded mapping List.mem_cons_self
        have tail := ih (ntFileSizesStep (count, size) mapping).1 (ntFileSizesStep (count, size) mapping).2
          fun other member => bounded other (List.mem_cons_of_mem _ member)
        have step : (ntFileSizesStep (count, size) mapping).2 ≤ size + 280 := by
          simp only [fnameMax] at here
          unfold ntFileSizesStep
          split
          · exact Nat.le_add_right ..
          · simp only
            omega
        rw [List.foldl_cons, List.length_cons, Nat.succ_mul]
        exact Nat.le_trans tail (by omega)
  have bound := sizes mappings 0 0 fits
  unfold ntFileSizes
  simp only
  split
  · exact Nat.zero_le _
  · simp only
    omega

/-- The predicted NT_FILE descriptor length is the length of the descriptor. -/
theorem length_ntFileDesc {mappings : List Mapping} (pagesize : UInt64)
    (fits : ∀ mapping ∈ mappings, mapping.nameLen < fnameMax) :
    (ntFileDesc mappings pagesize).length =
      2 * 8 + ((fileBacked mappings).map fun mapping => 3 * 8 + mapping.nameLen + 1).sum := by
  have listed : ∀ mapping ∈ fileBacked mappings, mapping.nameLen < fnameMax := fun mapping member =>
    fits mapping (List.mem_of_mem_filter member)
  have tables : ∀ files : List Mapping, (∀ mapping ∈ files, mapping.nameLen < fnameMax) →
      (files.flatMap (ntFileTriple pagesize)).length + (files.flatMap Mapping.nameWithNul).length =
        (files.map fun mapping => 3 * 8 + mapping.nameLen + 1).sum := by
    intro files
    induction files with
    | nil => simp
    | cons mapping rest ih =>
        intro bounded
        have tail := ih fun other member => bounded other (List.mem_cons_of_mem _ member)
        have head := Mapping.length_nameWithNul (bounded mapping List.mem_cons_self)
        have triple : (ntFileTriple pagesize mapping).length = 24 := by simp [ntFileTriple]
        simp only [List.flatMap_cons, List.length_append, head, triple, List.map_cons, List.sum_cons]
        omega
  simp only [ntFileDesc, List.length_append, length_u64Bytes, ← tables _ listed]
  omega

/-- `write_nt_file` emits one note, or nothing without file-backed mappings. -/
theorem writeNtFile_emits {mappings : List Mapping} (pagesize : UInt64)
    (fits : ∀ mapping ∈ mappings, mapping.nameLen < fnameMax) :
    Emits total.observation (writeNtFile mappings pagesize)
      (if (fileBacked mappings).isEmpty then []
        else noteBytes coreNameNul ntFile (ntFileDesc mappings pagesize)) := by
  have sizes : ntFileSizes mappings =
      if (fileBacked mappings).length = 0 then (0, 0)
      else ((fileBacked mappings).length, (ntFileDesc mappings pagesize).length) := by
    rw [length_ntFileDesc pagesize fits, ntFileSizes, ntFileSizes_foldl]
    simp
  cases files : fileBacked mappings with
  | nil =>
      rw [files] at sizes
      simp only [writeNtFile, sizes, List.length_nil, if_true, List.isEmpty_nil]
      exact Emits.pure
  | cons head tail =>
      have some : (fileBacked mappings).length ≠ 0 := by simp [files]
      have triples := Emits.forEach_onlyIf mappings (fun mapping => !mapping.isAnon)
        fun mapping _ => noteWrite_emits total (ntFileTriple pagesize mapping)
      have names := Emits.forEach_onlyIf mappings (fun mapping => !mapping.isAnon)
        fun mapping _ => noteWrite_emits total mapping.nameWithNul
      have emits := (noteWrite_emits total (Nhdr.mk (UInt32.ofNat coreNamesz)
          (UInt32.ofNat (ntFileDesc mappings pagesize).length) ntFile).asBytes).bind
        ((noteWrite_emits total coreName).bind
          ((noteWrite_emits total (u64Bytes (UInt64.ofNat (fileBacked mappings).length) ++
              u64Bytes pagesize)).bind
            (triples.bind (names.bind (pad_align_emits total (ntFileDesc mappings pagesize))))))
      rw [if_neg some] at sizes
      simp only [writeNtFile, sizes, if_neg some, List.isEmpty_cons, Bool.false_eq_true, if_false]
      have bytes : noteBytes coreNameNul ntFile (ntFileDesc mappings pagesize) =
          (Nhdr.mk (UInt32.ofNat coreNamesz)
            (UInt32.ofNat (ntFileDesc mappings pagesize).length) ntFile).asBytes ++
          (coreName ++ ((u64Bytes (UInt64.ofNat (fileBacked mappings).length) ++ u64Bytes pagesize) ++
            ((fileBacked mappings).flatMap (ntFileTriple pagesize) ++
              ((fileBacked mappings).flatMap Mapping.nameWithNul ++ List.replicate
                (alignNote (ntFileDesc mappings pagesize).length -
                  (ntFileDesc mappings pagesize).length) 0)))) := by
        simp only [noteBytes, padded, ntFileDesc, List.append_assoc]
        rfl
      rw [bytes]
      exact emits

end Emission

end Corus.Elf
