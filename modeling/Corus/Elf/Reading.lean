import Corus.Elf.Layout

/-!
# Looking notes up

A reader that finds the first note of a type by following the file header to the
note header and the notes from there on. It reads no further than that note, so a
core that was cut behind it shows the same note as the complete one.
-/

namespace Corus.Elf

open Corus.Logical Corus.Platform Corus.Output Corus.Proc

/-- The first note named `"CORE"` with a type. -/
def firstNote (nType : UInt32) (bytes : Bytes) : Option Note :=
  match Note.parser bytes with
  | none => none
  | some (note, rest) =>
      if note = Note.core nType note.desc then some note
      else if _shorter : rest.length < bytes.length then firstNote nType rest else none
termination_by bytes.length

/-- The file from its notes on, if it has a note header. -/
def notesOf (file : Bytes) : Option Bytes :=
  match decodeCore file with
  | none => none
  | some core =>
      (core.phdrs.find? fun phdr => phdr.pType == ptNote).map fun phdr => file.drop phdr.pOffset.toNat

/-- The payload of the first note with a type in a core file. -/
def findNote (file : Bytes) (nType : UInt32) : Option Bytes :=
  (notesOf file).bind fun notes => (firstNote nType notes).map Note.desc

/-- The process information of a core file. -/
def processInfo (file : Bytes) : Option Prpsinfo :=
  (findNote file ntPrpsinfo).bind fun desc => (Prpsinfo.parser desc).map Prod.fst

/-- The payloads that stand for the thread a core starts with: the first PRSTATUS
and PRFPREG notes and the NT_PRXREG note. -/
structure LeadingThread where
  prstatus : Bytes
  prfpreg : Bytes
  prxreg : Bytes
deriving DecidableEq

def leadingThread (file : Bytes) : Option LeadingThread :=
  match findNote file ntPrstatus, findNote file ntPrfpreg, findNote file ntPrxreg with
  | some prstatus, some prfpreg, some prxreg => some ⟨prstatus, prfpreg, prxreg⟩
  | _, _, _ => none

/-- The NT_PRXREG payload that shows the registers of a thread. -/
def ThreadState.user {arch : Arch} (thread : ThreadState arch) : CoreUser arch :=
  { (CoreUser.zeroed : CoreUser arch) with regs := thread.regs, fpregs := thread.fpregs, fpvalid := 1 }

/-- The payloads that stand for a thread when the core starts with it. -/
def ThreadState.leading {arch : Arch} (thread : ThreadState arch) : LeadingThread :=
  ⟨thread.status.asBytes, FpRegs.asBytes thread.fpregs, thread.user.asBytes⟩

/-- The payloads tell which thread they stand for. -/
theorem ThreadState.pid_of_leading {arch : Arch} {thread other : ThreadState arch}
    (same : thread.leading = other.leading) : thread.pid = other.pid := by
  obtain ⟨status, _, _⟩ := LeadingThread.mk.inj same
  have parsed := (Prstatus.parses_asBytes thread.status).whole
  rw [status, (Prstatus.parses_asBytes other.status).whole] at parsed
  have equal : other.status = thread.status := congrArg Prod.fst (Option.some.inj parsed)
  exact (congrArg Prstatus.prPid equal).symm

/-! ## Reading on -/

theorem Note.parser_steady : Parser.Steady Note.parser :=
  .bind Nhdr.parser_steady fun _ => .bind (.take _) fun _ => .bind (.take _) fun _ =>
    .bind (.take _) fun _ => .bind (.take _) fun _ => .pure _

theorem firstNote_append {nType : UInt32} {bytes : Bytes} {note : Note}
    (found : firstNote nType bytes = some note) (more : Bytes) :
    firstNote nType (bytes ++ more) = some note := by
  induction size : bytes.length using Nat.strongRecOn generalizing bytes with
  | _ length ih =>
    rw [firstNote] at found ⊢
    cases read : Note.parser bytes with
    | none => simp [read] at found
    | some pair =>
      simp only [read] at found
      simp only [Note.parser_steady _ _ _ read more]
      split at found
      · rename_i here
        rw [if_pos here]
        exact found
      · rename_i other
        split at found
        · rename_i shorter
          have longer : (pair.2 ++ more).length < (bytes ++ more).length := by
            simp only [List.length_append]
            omega
          rw [if_neg other, dif_pos longer]
          exact ih _ (size ▸ shorter) found rfl
        · cases found

/-- The headers that are read from a beginning of a file are those of the file. -/
theorem decodeCore_append {file : Bytes} {core : CoreFile} (decoded : decodeCore file = some core)
    (more : Bytes) : decodeCore (file ++ more) = some core := by
  unfold decodeCore at decoded ⊢
  cases header : Ehdr.parser file with
  | none => simp [header] at decoded
  | some pair =>
    simp only [header] at decoded
    simp only [Ehdr.parser_steady _ _ _ header more]
    split at decoded
    · rename_i identified
      rw [if_pos identified]
      cases table : Parser.times pair.1.ePhnum.toNat Phdr.parser (file.drop pair.1.ePhoff.toNat) with
      | none => simp [table] at decoded
      | some phdrs =>
        simp only [table] at decoded
        rw [List.drop_append, (Phdr.parser_steady.times _) _ _ _ table]
        exact decoded
    · cases decoded

theorem findNote_append {file : Bytes} {nType : UInt32} {desc : Bytes}
    (found : findNote file nType = some desc) (more : Bytes) :
    findNote (file ++ more) nType = some desc := by
  obtain ⟨notes, located, read⟩ := Option.bind_eq_some_iff.mp found
  obtain ⟨note, first, rfl⟩ := Option.map_eq_some_iff.mp read
  unfold notesOf at located
  cases decoded : decodeCore file with
  | none => simp [decoded] at located
  | some core =>
    simp only [decoded] at located
    obtain ⟨phdr, isNote, rfl⟩ := Option.map_eq_some_iff.mp located
    simp only [findNote, notesOf, decodeCore_append decoded more, isNote, Option.map_some,
      Option.bind_some, List.drop_append, firstNote_append first]

theorem processInfo_append {file : Bytes} {info : Prpsinfo} (found : processInfo file = some info)
    (more : Bytes) : processInfo (file ++ more) = some info := by
  obtain ⟨desc, note, parsed⟩ := Option.bind_eq_some_iff.mp found
  rw [processInfo, findNote_append note more]
  exact parsed

theorem leadingThread_append {file : Bytes} {lead : LeadingThread} (found : leadingThread file = some lead)
    (more : Bytes) : leadingThread (file ++ more) = some lead := by
  unfold leadingThread at found
  split at found
  · rename_i prstatus prfpreg prxreg
    cases found
    simp only [leadingThread, findNote_append prstatus more, findNote_append prfpreg more,
      findNote_append prxreg more]
  · cases found

/-! ## What a core shows -/

section Content

variable {arch : Arch} {inputs : CoreInputs arch}

/-- The reader passes over a note of another type, and stops at one of its own. -/
theorem firstNote_cons {nType : UInt32} {note : Note} (representable : note.Representable) (rest : Bytes) :
    firstNote nType (note.asBytes ++ rest) =
      if note = Note.core nType note.desc then some note else firstNote nType rest := by
  have positive : 0 < note.asBytes.length := by
    rw [Note.asBytes, length_noteBytes, noteSize, nhdrSize]
    omega
  have shorter : rest.length < (note.asBytes ++ rest).length := by
    rw [List.length_append]
    omega
  rw [firstNote, Note.parses_asBytes representable rest]
  simp only [dif_pos shorter]

/-- The notes of a core start at the end of its program headers. -/
theorem notesOf_headerBytes (count : inputs.mappings.length ≤ 65534) (rest : Bytes) :
    notesOf (inputs.headerBytes ++ rest) =
      some (inputs.noteSection ++ (List.replicate inputs.noteAlign 0 ++ rest)) := by
  have offset : inputs.notePhdr.pOffset.toNat = inputs.phdrsEnd := by
    simp only [CoreInputs.notePhdr, CoreInputs.phdrsEnd, ehdrSize, phdrSize, UInt64.toNat_ofNat']
    omega
  have shape : inputs.headerBytes ++ rest = inputs.ehdr.asBytes ++ inputs.phdrs.flatMap Phdr.asBytes ++
      (inputs.noteSection ++ (List.replicate inputs.noteAlign 0 ++ rest)) := by
    simp only [CoreInputs.headerBytes, List.append_assoc]
  have isNote : (inputs.phdrs.find? fun phdr => phdr.pType == ptNote) = some inputs.notePhdr := rfl
  simp only [notesOf, CoreInputs.decodeCore_headerBytes count, isNote, Option.map_some, offset]
  rw [shape, ← CoreInputs.length_beforeNotes, List.drop_left]

/-- Behind notes of other types the first note of a type is found. -/
theorem firstNote_flatMap {nType : UInt32} {desc : Bytes} (fits : desc.length < 2 ^ 32)
    {before : List (UInt32 × Bytes)} (others : ∀ other ∈ before, other.2.length < 2 ^ 32 ∧ other.1 ≠ nType)
    (rest : Bytes) :
    firstNote nType ((before.map fun other => Note.core other.1 other.2).flatMap Note.asBytes ++
      ((Note.core nType desc).asBytes ++ rest)) = some (Note.core nType desc) := by
  induction before with
  | nil => exact (firstNote_cons (Note.core_representable fits) rest).trans (if_pos rfl)
  | cons other before ih =>
      obtain ⟨otherFits, different⟩ := others other List.mem_cons_self
      have skipped : Note.core other.1 other.2 ≠ Note.core nType (Note.core other.1 other.2).desc := by
        simp [Note.core, different]
      rw [List.map_cons, List.flatMap_cons, List.append_assoc,
        firstNote_cons (Note.core_representable otherFits), if_neg skipped]
      exact ih fun later member => others later (List.mem_cons_of_mem _ member)

/-- A note of the list is found if those in front of it have other types. -/
theorem findNote_noteList (count : inputs.mappings.length ≤ 65534) {nType : UInt32} {desc : Bytes}
    (before : List (UInt32 × Bytes)) {after : List Note}
    (listed : inputs.noteList = (before.map fun other => Note.core other.1 other.2) ++
      Note.core nType desc :: after) (fits : desc.length < 2 ^ 32)
    (others : ∀ other ∈ before, other.2.length < 2 ^ 32 ∧ other.1 ≠ nType) (rest : Bytes) :
    findNote (inputs.headerBytes ++ rest) nType = some desc := by
  have first := firstNote_flatMap fits others
    (after.flatMap Note.asBytes ++ (List.replicate inputs.noteAlign 0 ++ rest))
  have shape : inputs.noteSection =
      (before.map fun other => Note.core other.1 other.2).flatMap Note.asBytes ++
        ((Note.core nType desc).asBytes ++ after.flatMap Note.asBytes) := by
    rw [CoreInputs.noteSection, listed, List.flatMap_append, List.flatMap_cons]
  rw [findNote, notesOf_headerBytes count, Option.bind_some, shape, List.append_assoc, List.append_assoc,
    first, Option.map_some]
  rfl

/-- Every core carries the process information it was given. -/
theorem processInfo_headerBytes (count : inputs.mappings.length ≤ 65534) (rest : Bytes) :
    processInfo (inputs.headerBytes ++ rest) = some inputs.prpsinfo := by
  have found : findNote (inputs.headerBytes ++ rest) ntPrpsinfo = some inputs.prpsinfo.asBytes := by
    apply findNote_noteList count [] (show inputs.noteList = _ :: inputs.noteList.tail from rfl)
    · simp [Prpsinfo.size]
    · simp
  simp only [processInfo, found, Option.bind_some, (Prpsinfo.parses_asBytes inputs.prpsinfo).whole,
    Option.map_some]

/-- A core with threads starts with the notes of its main thread. -/
theorem leadingThread_headerBytes (count : inputs.mappings.length ≤ 65534) {user : CoreUser arch}
    {thread : ThreadState arch} (hasUser : inputs.user = some user)
    (main : inputs.threads[inputs.main]? = some thread) (rest : Bytes) :
    leadingThread (inputs.headerBytes ++ rest) =
      some ⟨thread.status.asBytes, FpRegs.asBytes thread.fpregs, user.asBytes⟩ := by
  obtain ⟨after, listed⟩ : ∃ after, inputs.noteList =
      Note.core ntPrpsinfo inputs.prpsinfo.asBytes :: Note.core ntPrxreg user.asBytes ::
        Note.core ntPrstatus thread.status.asBytes ::
        Note.core ntPrfpreg (FpRegs.asBytes thread.fpregs) :: after := by
    simp [CoreInputs.noteList, CoreInputs.threadOrder, hasUser, main, ThreadState.notes]
  obtain ⟨infoUser, infoStatus, infoFpregs, userStatus, userFpregs, statusFpregs⟩ :
      ntPrpsinfo ≠ ntPrxreg ∧ ntPrpsinfo ≠ ntPrstatus ∧ ntPrpsinfo ≠ ntPrfpreg ∧
        ntPrxreg ≠ ntPrstatus ∧ ntPrxreg ≠ ntPrfpreg ∧ ntPrstatus ≠ ntPrfpreg := by decide
  have info : inputs.prpsinfo.asBytes.length < 2 ^ 32 := by simp [Prpsinfo.size]
  have status : thread.status.asBytes.length < 2 ^ 32 := by
    rw [Prstatus.length_asBytes]
    cases arch <;> decide
  have fpregs : (FpRegs.asBytes thread.fpregs).length < 2 ^ 32 := by
    rw [FpRegs.length_asBytes]
    cases arch <;> decide
  have extended : user.asBytes.length < 2 ^ 32 := by
    rw [CoreUser.length_asBytes]
    cases arch <;> decide
  have prxreg : findNote (inputs.headerBytes ++ rest) ntPrxreg = some user.asBytes := by
    apply findNote_noteList count [(ntPrpsinfo, inputs.prpsinfo.asBytes)] listed extended
    rw [List.forall_mem_singleton]
    exact ⟨info, infoUser⟩
  have prstatus : findNote (inputs.headerBytes ++ rest) ntPrstatus = some thread.status.asBytes := by
    apply findNote_noteList count [(ntPrpsinfo, inputs.prpsinfo.asBytes), (ntPrxreg, user.asBytes)] listed status
    rw [List.forall_mem_cons, List.forall_mem_singleton]
    exact ⟨⟨info, infoStatus⟩, extended, userStatus⟩
  have prfpreg : findNote (inputs.headerBytes ++ rest) ntPrfpreg = some (FpRegs.asBytes thread.fpregs) := by
    apply findNote_noteList count [(ntPrpsinfo, inputs.prpsinfo.asBytes), (ntPrxreg, user.asBytes),
      (ntPrstatus, thread.status.asBytes)] listed fpregs
    rw [List.forall_mem_cons, List.forall_mem_cons, List.forall_mem_singleton]
    exact ⟨⟨info, infoFpregs⟩, ⟨extended, userFpregs⟩, status, statusFpregs⟩
  simp only [leadingThread, prstatus, prfpreg, prxreg]

end Content

end Corus.Elf
