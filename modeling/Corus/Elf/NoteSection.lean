import Mathlib.Data.List.Perm.Basic
import Corus.Elf.Core

/-!
# The note section

`noteList` says which notes a core carries, in order. `writeNotes_emits` shows
that the writers produce exactly their encodings, `length_noteSection` that the
size calculator agrees, and `decodeNotes_noteSection` that a standard ELF note
reader recovers the list.
-/

namespace Corus.Elf

open Corus.Logical Corus.Platform Corus.Output Corus.Proc

/-- One note as a reader sees it; the name comes without its NUL. -/
structure Note where
  name : Bytes
  nType : UInt32
  desc : Bytes
deriving DecidableEq

namespace Note

def asBytes (note : Note) : Bytes := noteBytes (note.name ++ [0]) note.nType note.desc

/-- A note named `"CORE"`. -/
def core (nType : UInt32) (desc : Bytes) : Note := ⟨[0x43, 0x4f, 0x52, 0x45], nType, desc⟩

@[simp] theorem asBytes_core (nType : UInt32) (desc : Bytes) :
    (core nType desc).asBytes = noteBytes coreNameNul nType desc := rfl

/-- A reader of one note: 12-byte header, name and descriptor padded to four
bytes, the name ending at its first NUL. -/
def parser : Parser Note := do
  let nhdr ← Nhdr.parser
  let name ← Parser.take nhdr.nNamesz.toNat
  let _ ← Parser.take (alignNote nhdr.nNamesz.toNat - nhdr.nNamesz.toNat)
  let desc ← Parser.take nhdr.nDescsz.toNat
  let _ ← Parser.take (alignNote nhdr.nDescsz.toNat - nhdr.nDescsz.toNat)
  pure ⟨name.takeWhile (· ≠ 0), nhdr.nType, desc⟩

/-- Names without NUL and sizes that fit their header fields. -/
structure Representable (note : Note) : Prop where
  free : ∀ byte ∈ note.name, byte ≠ 0
  namesz : note.name.length + 1 < 2 ^ 32
  descsz : note.desc.length < 2 ^ 32

theorem parses_asBytes {note : Note} (representable : note.Representable) :
    Parses parser note.asBytes note := by
  intro rest
  have namesz : (UInt32.ofNat (note.name ++ [0]).length).toNat = (note.name ++ [0]).length := by
    have bound := representable.namesz
    simp only [UInt32.toNat_ofNat', List.length_append, List.length_singleton]
    exact Nat.mod_eq_of_lt bound
  have descsz : (UInt32.ofNat note.desc.length).toNat = note.desc.length := by
    rw [UInt32.toNat_ofNat', Nat.mod_eq_of_lt representable.descsz]
  have zeros : ∀ count, Parses (Parser.take count) (List.replicate count 0) (List.replicate count 0) :=
    fun count => Parses.take_of_length (List.length_replicate ..)
  have name : (note.name ++ [0]).takeWhile (· ≠ 0) = note.name := by
    rw [List.takeWhile_append_of_pos fun byte member => by simpa using representable.free byte member]
    simp
  simp only [parser, asBytes, noteBytes, padded, List.append_assoc, Parser.bind_apply,
    Parser.pure_apply, Nhdr.parses_asBytes _ _, namesz, descsz]
  rw [← List.append_assoc note.name]
  simp only [Parses.take (note.name ++ [0]) _, zeros _ _, Parses.take note.desc _, name]

end Note

/-- Read notes until the section is exhausted. -/
def decodeNotes (bytes : Bytes) : Option (List Note) :=
  if bytes = [] then some []
  else
    match Note.parser bytes with
    | some (note, rest) =>
        if _shorter : rest.length < bytes.length then (decodeNotes rest).map (note :: ·) else none
    | none => none
termination_by bytes.length

/-- The reader recovers every list of representable notes. -/
theorem decodeNotes_flatMap {notes : List Note} (representable : ∀ note ∈ notes, note.Representable) :
    decodeNotes (notes.flatMap Note.asBytes) = some notes := by
  induction notes with
  | nil => simp [decodeNotes]
  | cons note rest ih =>
      have head := Note.parses_asBytes (representable note List.mem_cons_self) (rest.flatMap Note.asBytes)
      have tail := ih fun other member => representable other (List.mem_cons_of_mem _ member)
      have size : note.asBytes.length = noteSize (note.name ++ [0]).length note.desc.length :=
        length_noteBytes ..
      have positive : 0 < note.asBytes.length := by
        rw [size, noteSize, nhdrSize]
        omega
      have nonempty : note.asBytes ++ rest.flatMap Note.asBytes ≠ [] := by
        simp [List.ne_nil_of_length_pos positive]
      have shorter : (rest.flatMap Note.asBytes).length <
          (note.asBytes ++ rest.flatMap Note.asBytes).length := by
        rw [List.length_append]
        omega
      rw [List.flatMap_cons, decodeNotes, if_neg nonempty, head]
      simp only [dif_pos shorter, tail, Option.map_some]

/-! ## The notes of a core -/

section Content

variable {arch : Arch}

/-- The status record written for a thread. -/
def ThreadState.status (thread : ThreadState arch) : Prstatus arch :=
  { (Prstatus.zeroed : Prstatus arch) with prPid := thread.pid, prReg := thread.regs }

/-- The PRSTATUS and PRFPREG notes of a thread. -/
def ThreadState.notes (thread : ThreadState arch) : List Note :=
  [Note.core ntPrstatus thread.status.asBytes, Note.core ntPrfpreg (FpRegs.asBytes thread.fpregs)]

def ExtraNote.note (note : ExtraNote) : Note := ⟨note.name, note.noteType, note.description⟩

@[simp] theorem ExtraNote.asBytes_note (note : ExtraNote) :
    note.note.asBytes = noteBytes (note.name ++ [0]) note.noteType note.description := rfl

namespace CoreInputs

variable (inputs : CoreInputs arch)

/-- The threads in the order of their notes: the main one, then the others. -/
def threadOrder : List (ThreadState arch) :=
  inputs.threads[inputs.main]?.toList ++ inputs.threads.eraseIdx inputs.main

/-- The NT_FILE note, if some mapping is file-backed. -/
def fileNotes : List Note :=
  if (fileBacked inputs.mappings).isEmpty then []
  else [Note.core ntFile (ntFileDesc inputs.mappings inputs.pagesize)]

/-- All notes of the core, in order. -/
def noteList : List Note :=
  [Note.core ntPrpsinfo inputs.prpsinfo.asBytes] ++
    (inputs.user.toList.map fun user => Note.core ntPrxreg user.asBytes) ++
    inputs.threadOrder.flatMap ThreadState.notes ++
    (if inputs.auxv.isEmpty then [] else [Note.core ntAuxv (AuxvT.sliceAsBytes inputs.auxv)]) ++
    inputs.notes.map ExtraNote.note ++ inputs.fileNotes

/-- The bytes of the note section. -/
def noteSection : Bytes := inputs.noteList.flatMap Note.asBytes

end CoreInputs

/-- Dropping one position of an enumerated list drops that element. -/
theorem map_filter_zipIdx {Item : Type} (items : List Item) (index base : Nat) :
    ((items.zipIdx base).filter fun item => item.2 != base + index).map Prod.fst =
      items.eraseIdx index := by
  induction items generalizing index base with
  | nil => simp
  | cons item rest ih =>
      have later : ∀ entry ∈ rest.zipIdx (base + 1), base + 1 ≤ entry.2 := fun entry member =>
        List.le_snd_of_mem_zipIdx member
      cases index with
      | zero =>
          have kept : (rest.zipIdx (base + 1)).filter (fun entry => entry.2 != base) =
              rest.zipIdx (base + 1) := by
            apply List.filter_eq_self.mpr
            intro entry member
            have bound := later entry member
            simp
            omega
          simp [List.zipIdx_cons, kept]
      | succ index =>
          have tail := ih index (base + 1)
          rw [Nat.add_right_comm, Nat.add_assoc] at tail
          simp [List.zipIdx_cons, tail]

section Emission

variable {Sink : Type} [Writer Sink] (total : AcceptsEveryByte Sink)

theorem writeThread_emits (thread : ThreadState arch) :
    Emits total.observation (writeThread thread) (thread.notes.flatMap Note.asBytes) := by
  have emits := (writeCoreNote_emits total ntPrstatus thread.status.asBytes).bind
    (writeCoreNote_emits total ntPrfpreg (FpRegs.asBytes thread.fpregs))
  simpa [ThreadState.notes, writeThread, writePrstatus, writePrfpreg, ThreadState.status] using emits

/-- The note writers produce exactly the encodings of the note list. -/
theorem writeNotes_emits (inputs : CoreInputs arch)
    (fits : ∀ mapping ∈ inputs.mappings, mapping.nameLen < fnameMax) :
    Emits total.observation inputs.writeNotes inputs.noteSection := by
  have others : (inputs.threads.zipIdx.filter fun entry => entry.2 != inputs.main).flatMap
      (fun entry => entry.1.notes.flatMap Note.asBytes) =
      (inputs.threads.eraseIdx inputs.main).flatMap fun thread => thread.notes.flatMap Note.asBytes := by
    have order := map_filter_zipIdx inputs.threads inputs.main 0
    rw [Nat.zero_add] at order
    rw [← order, List.flatMap_map]
  have section_eq : inputs.noteSection =
      noteBytes coreNameNul ntPrpsinfo inputs.prpsinfo.asBytes ++
      ((inputs.user.toList.flatMap fun user => noteBytes coreNameNul ntPrxreg user.asBytes) ++
      ((inputs.threads[inputs.main]?.toList.flatMap fun thread => thread.notes.flatMap Note.asBytes) ++
      (((inputs.threads.zipIdx.filter fun entry => entry.2 != inputs.main).flatMap
        fun entry => entry.1.notes.flatMap Note.asBytes) ++
      ((if !inputs.auxv.isEmpty then noteBytes coreNameNul ntAuxv (AuxvT.sliceAsBytes inputs.auxv) else []) ++
      ((inputs.notes.flatMap fun note => noteBytes (note.name ++ [0]) note.noteType note.description) ++
      (if (fileBacked inputs.mappings).isEmpty then []
        else noteBytes coreNameNul ntFile (ntFileDesc inputs.mappings inputs.pagesize))))))) := by
    rw [others]
    simp only [CoreInputs.noteSection, CoreInputs.noteList, CoreInputs.threadOrder, CoreInputs.fileNotes,
      List.flatMap_append, List.append_assoc, List.flatMap_map, List.flatMap_assoc,
      Note.asBytes_core, List.flatMap_singleton]
    cases inputs.auxv.isEmpty <;> cases (fileBacked inputs.mappings).isEmpty <;>
      simp
  rw [section_eq]
  exact Emits.mapError (Emits.bind (writeCoreNote_emits total ntPrpsinfo inputs.prpsinfo.asBytes)
    (Emits.bind (Emits.forSome fun user => writeCoreNote_emits total ntPrxreg user.asBytes)
    (Emits.bind (Emits.forSome (writeThread_emits total))
    (Emits.bind (Emits.forEach_onlyIf inputs.threads.zipIdx (fun entry => entry.2 != inputs.main)
      fun entry _ => writeThread_emits total entry.1)
    (Emits.bind (Emits.onlyIf (writeAuxv_emits total inputs.auxv))
    (Emits.bind (Emits.forEach fun note _ =>
      writeExtraNote_emits total note.name note.noteType note.description)
    (writeNtFile_emits total inputs.pagesize fits)))))))

end Emission

/-! ## Sizes -/

namespace CoreInputs

variable (inputs : CoreInputs arch)

/-- The main index is in range as soon as there is a thread. -/
theorem main_lt (some : inputs.threads ≠ []) : inputs.main < inputs.threads.length := by
  have positive : 0 < inputs.threads.length := List.length_pos_iff.mpr some
  simp only [main]
  omega

/-- Reordering neither drops nor repeats a thread. -/
theorem threadOrder_perm : inputs.threadOrder.Perm inputs.threads := by
  by_cases none : inputs.threads = []
  · simp [threadOrder, none]
  · have inside := inputs.main_lt none
    simp only [threadOrder, List.getElem?_eq_getElem inside, Option.toList_some]
    exact List.getElem_cons_eraseIdx_perm inside

end CoreInputs

theorem length_core_asBytes (nType : UInt32) (desc : Bytes) :
    (Note.core nType desc).asBytes.length = coreNote desc.length := by
  rw [Note.asBytes_core, length_noteBytes]
  rfl

/-- The notes of all threads take the same space for each of them. -/
theorem length_threadNotes (threads : List (ThreadState arch)) :
    ((threads.flatMap ThreadState.notes).flatMap Note.asBytes).length =
      threads.length * (coreNote (Prstatus.size arch) + coreNote arch.fpRegsSize) := by
  induction threads with
  | nil => simp
  | cons thread rest ih =>
      simp only [List.flatMap_cons, List.flatMap_append, List.length_append, ih, ThreadState.notes,
        List.flatMap_nil, length_core_asBytes, Prstatus.length_asBytes, FpRegs.length_asBytes,
        List.length_nil, List.length_cons, Nat.succ_mul]
      omega

theorem length_extraNotes (notes : List ExtraNote) :
    ((notes.map ExtraNote.note).flatMap Note.asBytes).length =
      (notes.map fun note => noteSize (note.name.length + 1) note.description.length).sum := by
  induction notes with
  | nil => simp
  | cons note rest ih =>
      simp only [List.map_cons, List.flatMap_cons, List.length_append, ih, ExtraNote.asBytes_note,
        length_noteBytes, List.length_singleton, List.sum_cons]

/-- The size loop over the extra notes adds up their sizes. -/
theorem extraNotes_foldl (notes : List ExtraNote) (size : Nat) :
    notes.foldl (fun sz note => sz + noteSize (note.name.length + 1) note.description.length) size =
      size + (notes.map fun note => noteSize (note.name.length + 1) note.description.length).sum := by
  induction notes generalizing size with
  | nil => simp
  | cons note rest ih => simp [ih, Nat.add_assoc]

/-- The size announced in the PT_NOTE header is the size of the section. -/
theorem length_noteSection (inputs : CoreInputs arch)
    (fits : ∀ mapping ∈ inputs.mappings, mapping.nameLen < fnameMax) :
    inputs.noteSection.length = inputs.noteSectionSize := by
  have threads := length_threadNotes inputs.threadOrder
  rw [inputs.threadOrder_perm.length_eq] at threads
  have user : ((inputs.user.toList.map fun user => Note.core ntPrxreg user.asBytes).flatMap
      Note.asBytes).length = if inputs.user.isSome then coreNote (CoreUser.size arch) else 0 := by
    cases inputs.user <;> simp [-Note.asBytes_core, length_core_asBytes]
  have auxv : ((if inputs.auxv.isEmpty then [] else
      [Note.core ntAuxv (AuxvT.sliceAsBytes inputs.auxv)]).flatMap Note.asBytes).length =
        if 0 < inputs.auxv.length then coreNote (inputs.auxv.length * auxvSize) else 0 := by
    cases inputs.auxv with
    | nil => simp
    | cons entry rest => simp [-Note.asBytes_core, length_core_asBytes]
  have files : (inputs.fileNotes.flatMap Note.asBytes).length =
      if 0 < (ntFileSizes inputs.mappings).1 then coreNote (ntFileSizes inputs.mappings).2 else 0 := by
    rw [CoreInputs.fileNotes, ntFileSizes, ntFileSizes_foldl]
    cases listed : fileBacked inputs.mappings with
    | nil => simp
    | cons mapping rest =>
        have size := length_ntFileDesc inputs.pagesize fits
        rw [listed] at size
        simp [-Note.asBytes_core, length_core_asBytes, size]
  have extra := length_extraNotes inputs.notes
  simp only [CoreInputs.noteSection, CoreInputs.noteList, List.flatMap_append, List.length_append,
    threads, user, auxv, files, extra, List.flatMap_cons, List.flatMap_nil, List.length_nil,
    length_core_asBytes, Prpsinfo.length_asBytes, CoreInputs.noteSectionSize, noteSectionSizeFor, extraNotes_foldl]
  split <;> split <;> split <;> omega

/-- The file table is the only part of the section that depends on the mappings. -/
theorem noteSectionSizeFor_le (arch : Arch) (nThreads nAuxv : Nat) (mappings : List Mapping)
    (notes : List ExtraNote) (hasUser : Bool) :
    noteSectionSizeFor arch nThreads nAuxv mappings notes hasUser ≤
      noteSectionSizeFor arch nThreads nAuxv [] notes hasUser + coreNote (ntFileSizes mappings).2 := by
  have none : ntFileSizes [] = (0, 0) := rfl
  simp only [noteSectionSizeFor, extraNotes_foldl, none, Nat.lt_irrefl, if_false]
  split <;> split <;> omega

/-! ## What a reader recovers -/

/-- The NT_FILE descriptor as a reader sees it. -/
structure NtFile where
  count : UInt64
  pagesize : UInt64
  entries : List (UInt64 × UInt64 × UInt64)
  names : List Bytes
deriving DecidableEq

/-- One start, end and page-offset triple. -/
def ntFileEntry : Parser (UInt64 × UInt64 × UInt64) := do
  let start ← Parser.u64
  let stop ← Parser.u64
  let pages ← Parser.u64
  pure (start, stop, pages)

/-- Count and page size, then the triples, then the NUL-terminated names. -/
def NtFile.parser : Parser NtFile := do
  let count ← Parser.u64
  let pagesize ← Parser.u64
  let entries ← Parser.times count.toNat ntFileEntry
  let names ← Parser.times count.toNat Parser.untilNul
  pure ⟨count, pagesize, entries, names⟩

theorem ntFileTriple_parses (pagesize : UInt64) (mapping : Mapping) :
    Parses ntFileEntry (ntFileTriple pagesize mapping)
      (mapping.start, mapping.end, mapping.offset / pagesize) := by
  intro rest
  simp only [ntFileEntry, ntFileTriple, List.append_assoc, Parser.bind_apply, Parser.pure_apply,
    Parses.u64 _ _]

/-- The descriptor decodes to the file-backed mappings, in order. -/
theorem ntFileDesc_parses {mappings : List Mapping} {pagesize : UInt64}
    (terminated : ∀ mapping ∈ fileBacked mappings, mapping.NulTerminated)
    (counted : (fileBacked mappings).length < 2 ^ 64) :
    Parses NtFile.parser (ntFileDesc mappings pagesize)
      ⟨UInt64.ofNat (fileBacked mappings).length, pagesize,
        (fileBacked mappings).map fun mapping => (mapping.start, mapping.end, mapping.offset / pagesize),
        (fileBacked mappings).map Mapping.path⟩ := by
  intro rest
  have count : (UInt64.ofNat (fileBacked mappings).length).toNat = (fileBacked mappings).length := by
    rw [UInt64.toNat_ofNat', Nat.mod_eq_of_lt counted]
  have entries := Parses.times fun mapping (_ : mapping ∈ fileBacked mappings) =>
    ntFileTriple_parses pagesize mapping
  have names : Parses (Parser.times (fileBacked mappings).length Parser.untilNul)
      ((fileBacked mappings).flatMap Mapping.nameWithNul) ((fileBacked mappings).map Mapping.path) := by
    apply Parses.times
    intro mapping member
    rw [(terminated mapping member).terminated]
    exact Parses.untilNul (terminated mapping member).free
  simp only [NtFile.parser, ntFileDesc, List.append_assoc, Parser.bind_apply, Parser.pure_apply,
    Parses.u64 _ _, count, entries _, names _]

/-- What is asked of the inputs for their notes to be representable: note names
without NUL, stored paths as documented, and sizes below 2^32. -/
structure CoreInputs.Representable (inputs : CoreInputs arch) : Prop where
  names : ∀ note ∈ inputs.notes, ∀ byte ∈ note.name, byte ≠ 0
  namesz : ∀ note ∈ inputs.notes, note.name.length + 1 < 2 ^ 32
  descsz : ∀ note ∈ inputs.notes, note.description.length < 2 ^ 32
  auxvsz : inputs.auxv.length * auxvSize < 2 ^ 32
  filesz : (ntFileSizes inputs.mappings).2 < 2 ^ 32
  nameLen : ∀ mapping ∈ inputs.mappings, mapping.nameLen < fnameMax
  paths : ∀ mapping ∈ inputs.mappings, mapping.isAnon = false → mapping.NulTerminated

theorem Note.core_representable {nType : UInt32} {desc : Bytes} (descsz : desc.length < 2 ^ 32) :
    (Note.core nType desc).Representable where
  free := by simp [Note.core]
  namesz := by simp [Note.core]
  descsz := descsz

/-- Every note of representable inputs is representable. -/
theorem CoreInputs.Representable.notes {inputs : CoreInputs arch} (valid : inputs.Representable) :
    ∀ note ∈ inputs.noteList, note.Representable := by
  intro note member
  simp only [CoreInputs.noteList, List.mem_append, List.mem_map, List.mem_flatMap, ThreadState.notes,
    List.mem_cons, List.not_mem_nil, or_false, CoreInputs.fileNotes] at member
  have registers : Prstatus.size arch < 2 ^ 32 ∧ arch.fpRegsSize < 2 ^ 32 ∧ CoreUser.size arch < 2 ^ 32 := by
    cases arch <;> decide
  rcases member with ((((rfl | ⟨user, _, rfl⟩) | ⟨thread, _, rfl | rfl⟩) | auxv) | ⟨extra, listed, rfl⟩) | files
  · exact Note.core_representable (by simp [Prpsinfo.size])
  · exact Note.core_representable (by rw [CoreUser.length_asBytes]; exact registers.2.2)
  · exact Note.core_representable (by rw [Prstatus.length_asBytes]; exact registers.1)
  · exact Note.core_representable (by rw [FpRegs.length_asBytes]; exact registers.2.1)
  · split at auxv
    · cases auxv
    · rw [List.mem_singleton.mp auxv]
      exact Note.core_representable (by rw [AuxvT.length_sliceAsBytes]; exact valid.auxvsz)
  · exact ⟨valid.names extra listed, valid.namesz extra listed, valid.descsz extra listed⟩
  · split at files
    · cases files
    · rename_i listed
      rw [List.mem_singleton.mp files]
      apply Note.core_representable
      have size := valid.filesz
      rw [ntFileSizes, ntFileSizes_foldl] at size
      rw [length_ntFileDesc inputs.pagesize valid.nameLen]
      rw [List.isEmpty_iff] at listed
      simpa [listed] using size

/-- Note section round trip. What the note writers stream through a sink that
accepts everything has the predicted size, and a standard reader consumes all of
it and recovers every note in order: process, main thread payload, each thread
once with the main one first, auxiliary vector, extra notes, file table. -/
theorem noteSection_roundTrip {Sink : Type} [Writer Sink] (total : AcceptsEveryByte Sink)
    (inputs : CoreInputs arch) (valid : inputs.Representable)
    (machine : Machine Sink) (accepting : total.accepting machine.sink) :
    ∃ after bytes, inputs.writeNotes machine = (.ok (), after) ∧
      total.emitted after.sink = total.emitted machine.sink ++ bytes ∧
      bytes.length = noteSectionSizeFor arch inputs.threads.length inputs.auxv.length
        inputs.mappings inputs.notes inputs.user.isSome ∧
      decodeNotes bytes = some (
        [Note.core ntPrpsinfo inputs.prpsinfo.asBytes] ++
        (inputs.user.toList.map fun user => Note.core ntPrxreg user.asBytes) ++
        (inputs.threads[min inputs.mainThread (inputs.threads.length - 1)]?.toList ++
          inputs.threads.eraseIdx (min inputs.mainThread (inputs.threads.length - 1))).flatMap
            (fun thread => [Note.core ntPrstatus thread.status.asBytes,
              Note.core ntPrfpreg (FpRegs.asBytes thread.fpregs)]) ++
        (if inputs.auxv.isEmpty then [] else [Note.core ntAuxv (AuxvT.sliceAsBytes inputs.auxv)]) ++
        inputs.notes.map (fun note => ⟨note.name, note.noteType, note.description⟩) ++
        (if (fileBacked inputs.mappings).isEmpty then []
          else [Note.core ntFile (ntFileDesc inputs.mappings inputs.pagesize)])) ∧
      Prpsinfo.parser inputs.prpsinfo.asBytes = some (inputs.prpsinfo, []) ∧
      (∀ thread ∈ inputs.threads, ∃ status, Prstatus.parser thread.status.asBytes = some (status, []) ∧
        status.prPid = thread.pid ∧ status.prReg = thread.regs) ∧
      NtFile.parser (ntFileDesc inputs.mappings inputs.pagesize) = some (
        ⟨UInt64.ofNat (fileBacked inputs.mappings).length, inputs.pagesize,
          (fileBacked inputs.mappings).map fun mapping =>
            (mapping.start, mapping.end, mapping.offset / inputs.pagesize),
          (fileBacked inputs.mappings).map Mapping.path⟩, []) := by
  obtain ⟨after, ran, emitted, _, _⟩ := writeNotes_emits total inputs valid.nameLen machine accepting
  have terminated : ∀ mapping ∈ fileBacked inputs.mappings, mapping.NulTerminated := by
    intro mapping member
    obtain ⟨listed, backed⟩ := List.mem_filter.mp member
    exact valid.paths mapping listed (by simpa using backed)
  -- A file table with 2^64 entries would not have fitted its descriptor size.
  have counted : (fileBacked inputs.mappings).length < 2 ^ 64 := by
    have size := valid.filesz
    have entries : ∀ files : List Mapping,
        files.length ≤ (files.map fun mapping => 3 * 8 + mapping.nameLen + 1).sum := by
      intro files
      induction files with
      | nil => simp
      | cons mapping rest ih => simp only [List.length_cons, List.map_cons, List.sum_cons]; omega
    have bound := entries (fileBacked inputs.mappings)
    rw [ntFileSizes, ntFileSizes_foldl] at size
    by_cases none : (fileBacked inputs.mappings).length = 0
    · omega
    · simp only [Nat.zero_add, none, if_false] at size
      omega
  refine ⟨after, inputs.noteSection, ran, emitted, length_noteSection inputs valid.nameLen,
    decodeNotes_flatMap valid.notes, (Prpsinfo.parses_asBytes inputs.prpsinfo).whole, ?_,
    (ntFileDesc_parses terminated counted).whole⟩
  intro thread _
  exact ⟨thread.status, (Prstatus.parses_asBytes thread.status).whole, rfl, rfl⟩

end Content

/-- A file-backed mapping of 32 bytes. -/
def sampleMapping : Mapping :=
  { Mapping.zeroed with
    start := 0x1000
    «end» := 0x1020
    writeSize := 32
    nameLen := 2
    name := ((Vector.replicate _ 0).setIfInBounds 0 0x2f).setIfInBounds 1 0x61 }

/-- Two threads of which the second comes first, and all optional parts but PRXREG. -/
def sampleInputs : CoreInputs .x86_64 where
  prpsinfo := Prpsinfo.zeroed
  threads := [⟨7, Vector.replicate _ 1, FpRegs.zeroed⟩, ⟨8, Vector.replicate _ 2, FpRegs.zeroed⟩]
  mainThread := 1
  auxv := [⟨atPagesz, 16⟩]
  mappings := [sampleMapping]
  pagesize := 16
  notes := [⟨[0x78], 1, [1, 2, 3]⟩]
  user := none

/-- A machine whose descriptor takes at most 100 bytes at a time. -/
def sampleMachine : Machine SimpleWriter where
  world := ⟨0, ⟨[], 0, false, 0⟩, false, false⟩
  sink := ⟨[], 0, fun _ => ⟨1, .ok 100⟩⟩

theorem sampleMachine_accepting : SimpleWriter.acceptsEveryByte.accepting sampleMachine.sink :=
  fun _ => ⟨100, by decide, rfl⟩

theorem sampleInputs_representable : sampleInputs.Representable where
  names := by simp [sampleInputs]
  namesz := by simp [sampleInputs]
  descsz := by simp [sampleInputs]
  auxvsz := by decide
  filesz := by decide
  nameLen := by simp [sampleInputs, sampleMapping, fnameMax]
  paths := by
    intro mapping member _
    rw [List.mem_singleton.mp member]
    exact ⟨by decide, by decide +kernel, by decide +kernel⟩

theorem noteSection_roundTrip_sample : ∃ after bytes notes,
    sampleInputs.writeNotes sampleMachine = (.ok (), after) ∧ after.sink.fd.accepted = bytes ∧
      bytes.length = sampleInputs.noteSectionSize ∧ decodeNotes bytes = some notes ∧
      notes.length = 8 := by
  obtain ⟨after, bytes, ran, emitted, size, decoded, _⟩ := noteSection_roundTrip
    SimpleWriter.acceptsEveryByte sampleInputs sampleInputs_representable sampleMachine
    sampleMachine_accepting
  exact ⟨after, bytes, _, ran, emitted, size, decoded, rfl⟩

end Corus.Elf
