import Corus.Elf.Layout

/-!
# What a core shows

A debugger takes two things from a core, wherever they are in the file: the notes, of
which it uses the first one of a type, and the memory behind the PT_LOAD headers. A file
that is put together from parts shows the notes and the segments that it was made of.
-/

namespace Corus.Elf

open Corus.Logical Corus.Platform Corus.Output Corus.Memory Corus.Proc

/-- A range of memory in a core. -/
structure Shown where
  vaddr : UInt64
  memsz : UInt64
  flags : UInt32
  contents : Bytes
deriving DecidableEq

/-- What a debugger takes from a core. -/
structure CoreView where
  notes : List Note
  memory : List Shown
deriving DecidableEq

/-- The range of memory behind a program header. -/
def Phdr.shown (phdr : Phdr) (file : Bytes) : Shown :=
  ⟨phdr.pVaddr, phdr.pMemsz, phdr.pFlags, phdr.contents file⟩

/-- The notes behind the first PT_NOTE header and the memory behind all PT_LOAD headers. -/
def coreView (file : Bytes) : Option CoreView :=
  match decodeCore file with
  | none => none
  | some core =>
      (core.phdrs.find? fun phdr => phdr.pType == ptNote).bind fun phdr =>
        (decodeNotes (phdr.contents file)).map fun notes =>
          ⟨notes, (core.phdrs.filter fun phdr => phdr.pType == ptLoad).map fun phdr => phdr.shown file⟩

/-- The first note with a type. -/
def CoreView.note (view : CoreView) (nType : UInt32) : Option Note :=
  view.notes.find? fun note => note = Note.core nType note.desc

/-- The parts of a core. `others` are program headers of other types, behind those of the
mappings, and `tail` is what they point at. -/
structure Parts where
  pagesize : UInt64
  notes : List Note
  mappings : List Mapping
  others : List Phdr
  gap : Nat
  segments : List Bytes
  tail : Bytes

namespace Parts

variable (parts : Parts)

def phnum : Nat := parts.mappings.length + parts.others.length + 1

/-- File offset of the notes. -/
def tableEnd : Nat := ehdrSize + parts.phnum * phdrSize

def noteBytes : Bytes := parts.notes.flatMap Note.asBytes

/-- File offset of the first segment. -/
def start : Nat := parts.tableEnd + parts.noteBytes.length + parts.gap

def ehdr (arch : Arch) : Ehdr :=
  { Ehdr.newCore arch with
    ePhoff := UInt64.ofNat ehdrSize
    ePhnum := UInt16.ofNat parts.phnum }

def notePhdr : Phdr :=
  { Phdr.zeroed with
    pType := ptNote
    pOffset := UInt64.ofNat parts.tableEnd
    pFilesz := UInt64.ofNat parts.noteBytes.length }

def loads : List Phdr := loadPhdrsFrom parts.pagesize parts.start parts.mappings

def phdrs : List Phdr := parts.notePhdr :: (parts.loads ++ parts.others)

/-- The parts one after the other. -/
def file (arch : Arch) : Bytes :=
  (parts.ehdr arch).asBytes ++ (parts.phdrs.flatMap Phdr.asBytes ++
    (parts.noteBytes ++ (List.replicate parts.gap 0 ++ (parts.segments.flatten ++ parts.tail))))

/-- A mapping with the contents of its segment. -/
def shown : List Shown :=
  List.zipWith (fun mapping segment => ⟨mapping.start, mapping.end - mapping.start, mapping.pfFlags, segment⟩)
    parts.mappings parts.segments

/-- Parts that fit together. -/
structure Fits : Prop where
  notes : ∀ note ∈ parts.notes, note.Representable
  few : parts.phnum ≤ 65535
  others : ∀ phdr ∈ parts.others, phdr.pType ≠ ptLoad
  sizes : parts.segments.map List.length = segmentSizes parts.mappings
  total : parts.start + (segmentSizes parts.mappings).sum < 2 ^ 64

theorem length_phdrs : parts.phdrs.length = parts.phnum := by
  simp only [phdrs, loads, List.length_cons, List.length_append, length_loadPhdrsFrom, phnum]

theorem length_phdrs_asBytes : (parts.phdrs.flatMap Phdr.asBytes).length = parts.phnum * phdrSize := by
  simp [List.length_flatMap, ← parts.length_phdrs]

theorem length_file (arch : Arch) :
    (parts.file arch).length = parts.start + (parts.segments.flatten.length + parts.tail.length) := by
  simp only [Parts.file, List.length_append, Ehdr.length_asBytes, parts.length_phdrs_asBytes, List.length_replicate,
    Parts.start, Parts.tableEnd]
  omega

variable {parts} {arch : Arch}

/-- The headers of the parts are found. -/
theorem decodeCore_file (fits : parts.Fits) :
    decodeCore (parts.file arch) = some ⟨parts.ehdr arch, parts.phdrs⟩ := by
  have few := fits.few
  have phnum : (parts.ehdr arch).ePhnum.toNat = parts.phdrs.length := by
    simp only [ehdr, parts.length_phdrs, UInt16.toNat_ofNat']
    omega
  have table : Parses (Parser.times (parts.ehdr arch).ePhnum.toNat Phdr.parser)
      (parts.phdrs.flatMap Phdr.asBytes) parts.phdrs := by
    have reads := @Parses.times Phdr Phdr.parser Phdr Phdr.asBytes id parts.phdrs fun phdr _ =>
      Phdr.parses_asBytes phdr
    rwa [List.map_id, ← phnum] at reads
  have identified : (parts.ehdr arch).eIdent.toList.take 6 = elfMag ++ [elfClass64, elfData2Lsb] ∧
      (parts.ehdr arch).eType = etCore ∧ (parts.ehdr arch).ePhentsize.toNat = phdrSize := ⟨rfl, rfl, rfl⟩
  have header : Ehdr.parser (parts.file arch) = some (parts.ehdr arch, parts.phdrs.flatMap Phdr.asBytes ++
      (parts.noteBytes ++ (List.replicate parts.gap 0 ++ (parts.segments.flatten ++ parts.tail)))) :=
    Ehdr.parses_asBytes (parts.ehdr arch) _
  have dropped : (parts.file arch).drop (parts.ehdr arch).ePhoff.toNat = parts.phdrs.flatMap Phdr.asBytes ++
      (parts.noteBytes ++ (List.replicate parts.gap 0 ++ (parts.segments.flatten ++ parts.tail))) :=
    List.drop_left' (Ehdr.length_asBytes _)
  simp only [decodeCore, header, identified, and_self, if_true, dropped, table _]

/-- The note header points at the notes. -/
theorem contents_notePhdr (fits : parts.Fits) : parts.notePhdr.contents (parts.file arch) = parts.noteBytes := by
  have total := fits.total
  have start : parts.start = parts.tableEnd + parts.noteBytes.length + parts.gap := rfl
  have offset : parts.notePhdr.pOffset.toNat = parts.tableEnd := by
    simp only [notePhdr, UInt64.toNat_ofNat']
    omega
  have filesz : parts.notePhdr.pFilesz.toNat = parts.noteBytes.length := by
    simp only [notePhdr, UInt64.toNat_ofNat']
    omega
  have before : ((parts.ehdr arch).asBytes ++ parts.phdrs.flatMap Phdr.asBytes).length = parts.tableEnd := by
    rw [List.length_append, Ehdr.length_asBytes, parts.length_phdrs_asBytes]
    rfl
  rw [Phdr.contents, offset, filesz, file, ← List.append_assoc]
  exact window_append before rfl

/-- A load header points at its segment. -/
theorem contents_loads (fits : parts.Fits) {index : Nat} {mapping : Mapping} {segment : Bytes}
    (listed : parts.mappings[index]? = some mapping) (written : parts.segments[index]? = some segment) :
    (loadPhdr parts.pagesize (parts.start + chunkOffset (segmentSizes parts.mappings) index) mapping).contents
      (parts.file arch) = segment := by
  have total := fits.total
  have below := chunkOffset_le_sum (segmentSizes parts.mappings) index
  have size : segment.length = mapping.writeSize.toNat := by
    have same := congrArg (·[index]?) fits.sizes
    simp only [segmentSizes, List.getElem?_map, listed, written, Option.map_some, Option.some.injEq] at same
    exact same
  have offset : (UInt64.ofNat (parts.start + chunkOffset (segmentSizes parts.mappings) index)).toNat =
      parts.start + chunkOffset (segmentSizes parts.mappings) index := by
    rw [UInt64.toNat_ofNat', Nat.mod_eq_of_lt (by omega)]
  obtain ⟨before, headers⟩ : ∃ before, before = (parts.ehdr arch).asBytes ++ (parts.phdrs.flatMap Phdr.asBytes ++
      (parts.noteBytes ++ List.replicate parts.gap 0)) := ⟨_, rfl⟩
  have length : before.length = parts.start := by
    simp only [headers, List.length_append, Ehdr.length_asBytes, parts.length_phdrs_asBytes, List.length_replicate,
      start, tableEnd]
    omega
  have located := @window_flatten parts.segments before parts.tail segment index written
  rw [length, fits.sizes, size] at located
  have shape : parts.file arch = before ++ (parts.segments.flatten ++ parts.tail) := by
    simp only [headers, file, List.append_assoc]
  simp only [Phdr.contents, loadPhdr, offset, shape]
  exact located

/-- What is behind the segments is found by its offset. -/
theorem contents_tail (fits : parts.Fits) {chunks : List Bytes} (tail : parts.tail = chunks.flatten) {index : Nat}
    {chunk : Bytes} (written : chunks[index]? = some chunk) {phdr : Phdr}
    (offset : phdr.pOffset.toNat =
      parts.start + (segmentSizes parts.mappings).sum + chunkOffset (chunks.map List.length) index)
    (size : phdr.pFilesz.toNat = chunk.length) : phdr.contents (parts.file arch) = chunk := by
  obtain ⟨before, front⟩ : ∃ before, before = (parts.ehdr arch).asBytes ++ (parts.phdrs.flatMap Phdr.asBytes ++
      (parts.noteBytes ++ (List.replicate parts.gap 0 ++ parts.segments.flatten))) := ⟨_, rfl⟩
  have length : before.length = parts.start + (segmentSizes parts.mappings).sum := by
    simp only [front, List.length_append, Ehdr.length_asBytes, parts.length_phdrs_asBytes, List.length_replicate,
      List.length_flatten, fits.sizes, start, tableEnd]
    omega
  have located := @window_flatten chunks before [] chunk index written
  rw [length] at located
  have shape : parts.file arch = before ++ (chunks.flatten ++ []) := by
    simp only [front, file, tail, List.append_assoc, List.append_nil]
  rw [Phdr.contents, offset, size, shape]
  exact located

/-- The load headers show the mappings. -/
theorem shown_loads (fits : parts.Fits) :
    (parts.loads.map fun phdr => phdr.shown (parts.file arch)) = parts.shown := by
  apply List.ext_getElem?
  intro index
  simp only [loads, shown, List.getElem?_map, loadPhdrsFrom_getElem?, List.getElem?_zipWith]
  have same : parts.segments.length = parts.mappings.length := by
    have lengths := congrArg List.length fits.sizes
    simpa only [segmentSizes, List.length_map] using lengths
  cases listed : parts.mappings[index]? with
  | none => simp only [Option.map_none]
  | some mapping =>
      have inside := (List.getElem?_eq_some_iff.mp listed).1
      obtain ⟨segment, written⟩ : ∃ segment, parts.segments[index]? = some segment :=
        ⟨_, List.getElem?_eq_getElem (same ▸ inside)⟩
      simp only [written, Option.map_some, Phdr.shown, contents_loads fits listed written]
      rfl

/-- A debugger sees the notes and the segments that went into the file, wherever they are
and whatever else is in it. -/
theorem coreView_file (fits : parts.Fits) : coreView (parts.file arch) = some ⟨parts.notes, parts.shown⟩ := by
  have first : (parts.phdrs.find? fun phdr => phdr.pType == ptNote) = some parts.notePhdr := rfl
  have loaded : (parts.loads.filter fun phdr => phdr.pType == ptLoad) = parts.loads := by
    apply List.filter_eq_self.mpr
    intro phdr member
    obtain ⟨index, found⟩ := List.getElem?_of_mem member
    rw [loads, loadPhdrsFrom_getElem?, Option.map_eq_some_iff] at found
    obtain ⟨mapping, _, rfl⟩ := found
    rfl
  have left : (parts.others.filter fun phdr => phdr.pType == ptLoad) = [] := by
    apply List.filter_eq_nil_iff.mpr
    intro phdr member
    simpa using fits.others phdr member
  have kept : (parts.phdrs.filter fun phdr => phdr.pType == ptLoad) = parts.loads := by
    rw [phdrs, List.filter_cons_of_neg (by exact (by decide : ¬ (ptNote == ptLoad) = true)), List.filter_append,
      loaded, left, List.append_nil]
  have decoded : decodeNotes (parts.notePhdr.contents (parts.file arch)) = some parts.notes := by
    rw [contents_notePhdr fits]
    exact decodeNotes_flatMap fits.notes
  simp only [coreView, decodeCore_file fits, first, Option.bind_some, decoded, Option.map_some, kept,
    shown_loads fits]

end Parts

end Corus.Elf
