import Corus.Dump.Priority

/-!
# Memory fidelity

What a core file written by `serialize_dump` says about the memory of the
process. On the documented kernel the dump returns, never blocks, and shows at
every wanted address the byte a reader of the live process sees there.
-/

namespace Corus.Dump

open Corus.Logical Corus.Platform Corus.Output Corus.Memory Corus.Proc Corus.Elf

/-- The segment of a load header covers the address. -/
def Claims (phdr : Phdr) (address : Nat) : Prop :=
  phdr.pType = ptLoad ∧ phdr.pVaddr.toNat ≤ address ∧
    address < phdr.pVaddr.toNat + phdr.pMemsz.toNat

/-- The address lies in the range of the mapping. -/
def Within (mapping : Mapping) (address : Nat) : Prop :=
  mapping.start.toNat ≤ address ∧ address < mapping.end.toNat

/-- The file shows the byte at an address that a reader of the process sees, in
exactly one load segment. -/
def Shows (kernel : Kernel) (file : Bytes) (core : CoreFile) (address : Nat) : Prop :=
  ∃ (index : Nat) (phdr : Phdr), core.phdrs[index]? = some phdr ∧ Claims phdr address ∧
    (∀ (other : Nat) (candidate : Phdr), core.phdrs[other]? = some candidate → Claims candidate address → other = index) ∧
    file[phdr.pOffset.toNat + (address - phdr.pVaddr.toNat)]? = some (kernel.visible address)

/-- The address lies in the leading pages of the mapping that are not stored, all
of which are zero or unreadable. -/
def Skipped (kernel : Kernel) (mapping : Mapping) (address : Nat) : Prop :=
  ∃ lead, LeadingZeros kernel mapping.start.toNat (mapping.end.toNat - mapping.start.toNat) lead ∧
    address < mapping.start.toNat + lead ∧
    (kernel.readable address = false ∨ kernel.memory address = 0)

/-- The environment a dump relies on: the kernel as documented with the page size
the dump works with, a scratch page of that size, and a regular memory map. -/
structure Served {arch : Arch} (kernel : Kernel) (proc : ProcFs) (cap : CapturedDump arch)
    (parsed : List Mapping) : Prop where
  documented : Documented kernel
  pagesize : cap.pagesize.toNat = kernel.pageSize
  scratch : kernel.pageSize ≤ scratchLen arch
  parses : parseSelfMaps proc.maps maxMappings = .ok parsed
  regular : Regular kernel.pageSize parsed

/-- The core of the mappings that are selected has fewer than 2^64 bytes, so that its
offsets can be announced. -/
def Addressable {arch : Arch} (kernel : Kernel) (proc : ProcFs) (cap : CapturedDump arch) (opts : DumpOptions arch)
    (world : World) : Prop :=
  ∀ kept after, selectMappings kernel proc cap world = (.ok kept, after) →
    (coreInputs cap opts kept).fileSize < 2 ^ 64

section Selection

variable {arch : Arch} {kernel : Kernel} {proc : ProcFs} {cap : CapturedDump arch}
  {opts : DumpOptions arch} {parsed : List Mapping}

/-- The page size of a dump is a power of two. -/
theorem CapturedDump.pagesize_power (cap : CapturedDump arch) :
    ∃ exponent, cap.pagesize.toNat = 2 ^ exponent := by
  have fallback : ∃ exponent, (UInt64.ofNat arch.pageSize).toNat = 2 ^ exponent := by
    cases arch
    · exact ⟨12, rfl⟩
    · exact ⟨16, rfl⟩
  unfold CapturedDump.pagesize
  split
  · split
    · rename_i valid
      obtain ⟨exponent, _, equal⟩ := List.any_eq_true.mp valid
      exact ⟨exponent, beq_iff_eq.mp equal⟩
    · exact fallback
  · exact fallback

/-- The memory map part returns the selected records. -/
theorem selectMappings_documented (served : Served kernel proc cap parsed) (world : World) :
    ∃ kept after, selectMappings kernel proc cap world = (.ok kept, after) ∧
      Selects kernel (enrichFromSmaps proc.smaps parsed) kept ∧ after.stalled = world.stalled ∧
      after.faulted = world.faulted := by
  obtain ⟨capacity, created, large⟩ := served.documented.pipe2 world.clock
  have piped : pipeNew kernel world = (.ok (), { world.tick with pipe := ⟨[], 0, false, capacity⟩ }) := by
    simp only [pipeNew, created]
  have regular := served.regular.enriched proc.smaps
  have scannable : Scannable kernel cap.pagesize (List.replicate (scratchLen arch) 0)
      { world.tick with pipe := ⟨[], 0, false, capacity⟩ } :=
    ⟨served.pagesize, cap.pagesize_power, by rw [List.length_replicate]; exact served.scratch,
      ⟨rfl, rfl⟩, large⟩
  obtain ⟨selects, settled⟩ :=
    finalizeList_selects served.documented scannable regular.ordered regular.aligned
  have compacted := finalizeMappings_eq kernel proc.smaps parsed cap.pagesize
    (List.replicate (scratchLen arch) 0) { world.tick with pipe := ⟨[], 0, false, capacity⟩ }
  rw [← compacted] at selects settled
  refine ⟨_, _, ?_, selects, settled.stalled, settled.faulted⟩
  simp only [selectMappings, served.parses, piped]

/-- Every record has a stored path of the documented size. -/
theorem nameLen_lt (served : Served kernel proc cap parsed) {kept : List Mapping}
    (selects : Selects kernel (enrichFromSmaps proc.smaps parsed) kept) :
    ∀ mapping ∈ kept, mapping.nameLen < fnameMax := by
  intro mapping member
  obtain ⟨source, listed, record⟩ := selects.origin mapping member
  obtain ⟨original, present, equal⟩ := enriched_origin listed
  rw [record.nameLen]
  exact (congrArg Mapping.nameLen equal) ▸ ((parseSelfMaps_fresh served.parses).2 original present).nameLen

/-- The dump returns after writing the headers and what a reader sees of the
selected records, trimmed if priorities ask for it. -/
theorem serializeDump_documented {Sink : Type} [Writer Sink] (total : AcceptsEveryByte Sink)
    (served : Served kernel proc cap parsed) (opts : DumpOptions arch)
    {machine : Machine Sink} (accepting : total.accepting machine.sink) :
    ∃ kept selected final, selectMappings kernel proc cap machine.world = (.ok kept, selected) ∧
      Selects kernel (enrichFromSmaps proc.smaps parsed) kept ∧
      serializeDump kernel proc cap opts machine = (.ok (), final) ∧
      Wrote total machine final ((coreInputs cap opts (prioritized cap opts kept)).headerBytes ++
        (visibleSegments kernel (prioritized cap opts kept)).flatten) ∧
      final.world.stalled = machine.world.stalled ∧ final.world.faulted = machine.world.faulted := by
  obtain ⟨kept, selected, ran, selects, unstalled, unfaulted⟩ := selectMappings_documented served machine.world
  obtain ⟨index, trims⟩ := prioritized_trims cap opts kept
  have bounded : ∀ record ∈ prioritized cap opts kept, record.start.toNat + record.writeSize.toNat ≤ 2 ^ 64 := by
    intro record member
    obtain ⟨source, listed, size, rfl, smaller⟩ := trims.origin member
    obtain ⟨_, _, comes⟩ := selects.origin source listed
    have high := source.end.toNat_lt
    have written := comes.bounded
    have low := comes.nonempty
    have shrunk := UInt64.le_iff_toNat_le.mp smaller
    simp only [resized]
    omega
  have fits : ∀ record ∈ prioritized cap opts kept, record.nameLen < fnameMax := by
    intro record member
    obtain ⟨source, listed, size, rfl, _⟩ := trims.origin member
    exact nameLen_lt served selects source listed
  obtain ⟨final, coreRan, wrote, prompt, safe⟩ := createElfCore_documented total served.documented
    (coreInputs cap opts (prioritized cap opts kept))
    (show total.accepting ({ machine with world := selected } : Machine Sink).sink from accepting) fits bounded
  refine ⟨kept, selected, final, ran, selects, ?_, ⟨wrote.emitted, wrote.accepting⟩, prompt.trans unstalled,
    safe.trans unfaulted⟩
  have mapped : onWorld (selectMappings kernel proc cap) machine =
      (.ok kept, { machine with world := selected }) := by
    simp only [onWorld, ran]
  rw [serializeDump, Action.bind_of_ok mapped]
  exact Action.mapError_of_ok coreRan

/-- Not more records are selected than there is room for. -/
theorem length_kept_le (served : Served kernel proc cap parsed) {kept : List Mapping}
    (selects : Selects kernel (enrichFromSmaps proc.smaps parsed) kept) : kept.length ≤ 4096 := by
  refine Nat.le_trans selects.length_le ?_
  rw [length_enrichFromSmaps]
  exact (parseSelfMaps_fresh served.parses).1

/-- The selected records are inputs of the assembly as it wants them. -/
theorem coreInputs_sized (served : Served kernel proc cap parsed) {kept : List Mapping}
    (selects : Selects kernel (enrichFromSmaps proc.smaps parsed) kept)
    (addressable : (coreInputs cap opts kept).fileSize < 2 ^ 64) : (coreInputs cap opts kept).Sized := by
  have few := length_kept_le served selects
  refine ⟨by simp only [coreInputs]; omega, ?_, nameLen_lt served selects, cap.pagesize_power, addressable⟩
  intro mapping member
  obtain ⟨_, _, record⟩ := selects.origin mapping member
  exact Nat.le_of_lt record.nonempty

/-- The core is not much larger than what is mapped and the notes that do not depend on it. -/
theorem fileSize_le (served : Served kernel proc cap parsed) {kept : List Mapping}
    (selects : Selects kernel (enrichFromSmaps proc.smaps parsed) kept) :
    (coreInputs cap opts kept).fileSize ≤
      (parsed.map fun mapping => mapping.end.toNat - mapping.start.toNat).sum +
        noteSectionSizeFor arch cap.threads.length cap.auxv.length [] opts.notes cap.user.isSome + 2 ^ 23 := by
  have few := length_kept_le served selects
  have ranges : (enrichFromSmaps proc.smaps parsed).map Mapping.range = parsed.map Mapping.range := by
    have mapped := congrArg (List.map Mapping.range) (enrichFromSmaps_plain proc.smaps parsed)
    rwa [List.map_map, List.map_map] at mapped
  have mapped := congrArg (fun ranges => (ranges.map fun range : Nat × Nat => range.2 - range.1).sum) ranges
  simp only [List.map_map, Function.comp_def, Mapping.range] at mapped
  have written := mapped ▸ selects.sum_writeSize_le
  have predicted := noteSectionSizeFor_le arch cap.threads.length cap.auxv.length kept opts.notes
    cap.user.isSome
  have table := ntFileSizes_le (nameLen_lt served selects)
  have page : cap.pagesize.toNat ≤ 65536 := by
    rw [served.pagesize]
    exact Nat.le_trans served.scratch (by cases arch <;> decide)
  have positive : 0 < cap.pagesize.toNat := by
    obtain ⟨exponent, equal⟩ := cap.pagesize_power
    rw [equal]
    exact Nat.two_pow_pos exponent
  have padding := Nat.mod_lt (cap.pagesize.toNat -
    ((coreInputs cap opts kept).phdrsEnd + (coreInputs cap opts kept).noteSectionSize) %
      cap.pagesize.toNat) positive
  have table : coreNote (ntFileSizes kept).2 ≤ 2 ^ 22 := by
    have aligned := alignNote_bounds (ntFileSizes kept).2
    have named : alignNote coreNamesz ≤ 8 := by decide
    simp only [coreNote, noteSize, nhdrSize]
    omega
  simp only [CoreInputs.fileSize, CoreInputs.segmentsStart, CoreInputs.noteAlign, CoreInputs.phdrsEnd, coreInputs,
    CoreInputs.noteSectionSize, ehdrSize, phdrSize, segmentSizes] at padding ⊢
  omega

/-- So it is addressable where, as in every process, less than half of the addresses are mapped. -/
theorem Served.addressable (served : Served kernel proc cap parsed)
    (mapped : (parsed.map fun mapping => mapping.end.toNat - mapping.start.toNat).sum ≤ 2 ^ 63)
    (notes : noteSectionSizeFor arch cap.threads.length cap.auxv.length [] opts.notes cap.user.isSome ≤ 2 ^ 62)
    (world : World) : Addressable kernel proc cap opts world := by
  intro kept after ran
  obtain ⟨others, _, selected, selects, _⟩ := selectMappings_documented served world
  cases ran.symm.trans selected
  have size := @fileSize_le _ _ _ _ opts _ served _ selects
  omega

/-- The load header of a finalized record, and what the file holds for it. -/
theorem layout_record {file notes : Bytes} {kept : List Mapping} {core : CoreFile}
    (layout : Layout (coreInputs cap opts kept) file notes (visibleSegments kernel kept) core)
    {index : Nat} {record : Mapping} (listed : kept[index]? = some record)
    (nonempty : record.start.toNat < record.end.toNat) :
    ∃ phdr, core.phdrs[index + 1]? = some phdr ∧
      (∀ address, Claims phdr address ↔ Within record address) ∧
      (∀ address, record.start.toNat ≤ address → address < record.start.toNat + record.writeSize.toNat →
        file[phdr.pOffset.toNat + (address - phdr.pVaddr.toNat)]? = some (kernel.visible address)) := by
  obtain ⟨phdr, segment, found, shown, isLoad, vaddr, memsz, _, filesz, _, contents⟩ :=
    layout.load index record listed
  refine ⟨phdr, found, ?_, ?_⟩
  · intro address
    simp only [Claims, Within, isLoad, true_and, vaddr, memsz]
    omega
  · intro address low high
    have segmentEq : kernel.visibleRange record.start.toNat record.writeSize.toNat = segment := by
      simpa [visibleSegments, listed] using shown
    have inside : address - record.start.toNat < record.writeSize.toNat := by omega
    have byte := @window_getElem? file phdr.pOffset.toNat record.writeSize.toNat _ inside
    have visible := @Kernel.visibleRange_getElem? kernel record.start.toNat record.writeSize.toNat _ inside
    rw [Phdr.contents, filesz, ← segmentEq] at contents
    rw [contents, visible, Nat.add_sub_cancel' low] at byte
    rw [vaddr]
    exact byte.symm

/-- A header that covers an address is the load header of a record around it. -/
theorem layout_claimed {file notes : Bytes} {kept : List Mapping} {core : CoreFile}
    (layout : Layout (coreInputs cap opts kept) file notes (visibleSegments kernel kept) core)
    (nonempty : ∀ record ∈ kept, record.start.toNat < record.end.toNat)
    {position : Nat} {phdr : Phdr} {address : Nat}
    (found : core.phdrs[position]? = some phdr) (claims : Claims phdr address) :
    ∃ index record, position = index + 1 ∧ kept[index]? = some record ∧ Within record address := by
  cases position with
  | zero =>
      -- The first header is the note header, which claims nothing.
      have noteType := (layout.note phdr found).1
      rw [claims.1] at noteType
      exact absurd noteType (by decide)
  | succ index =>
      have inside : index < kept.length := by
        have bound := (List.getElem?_eq_some_iff.mp found).1
        rw [layout.count] at bound
        exact Nat.lt_of_succ_lt_succ bound
      have listed : kept[index]? = some kept[index] := List.getElem?_eq_getElem inside
      obtain ⟨other, foundOther, covers, _⟩ :=
        layout_record layout listed (nonempty _ (List.getElem_mem inside))
      cases found.symm.trans foundOther
      exact ⟨index, _, rfl, listed, (covers address).mp claims⟩

/-- Records around one address are the same record. -/
theorem record_unique {kept : List Mapping} (apart : (kept.map Mapping.range).Pairwise Apart)
    {index other : Nat} {record candidate : Mapping} {address : Nat}
    (listed : kept[index]? = some record) (within : Within record address)
    (otherListed : kept[other]? = some candidate) (otherWithin : Within candidate address) :
    other = index := by
  obtain ⟨inside, rfl⟩ := List.getElem?_eq_some_iff.mp listed
  obtain ⟨otherInside, rfl⟩ := List.getElem?_eq_some_iff.mp otherListed
  have ordered := List.pairwise_iff_getElem.mp apart
  simp only [List.length_map, List.getElem_map, Apart, Mapping.range] at ordered
  obtain ⟨low, high⟩ := within
  obtain ⟨otherLow, otherHigh⟩ := otherWithin
  rcases Nat.lt_trichotomy other index with before | same | after
  · have separate := ordered other index otherInside inside before
    omega
  · exact same
  · have separate := ordered index other inside otherInside after
    omega

/-- A byte that reads as zero is zero or lies on an unreadable page. -/
theorem hidden_or_zero {address : Nat} (hidden : kernel.visible address = 0) :
    kernel.readable address = false ∨ kernel.memory address = 0 := by
  by_cases readable : kernel.readable address
  · exact .inr (by simpa [Kernel.visible, readable] using hidden)
  · exact .inl (by simpa using readable)

/-- An address below the leading zeros of its mapping was skipped. -/
theorem skipped_of_lead {mapping : Mapping} {lead address : Nat} (within : Within mapping address)
    (zeros : LeadingZeros kernel mapping.start.toNat (mapping.end.toNat - mapping.start.toNat) lead)
    (below : address < mapping.start.toNat + lead) : Skipped kernel mapping address := by
  refine ⟨lead, zeros, below, hidden_or_zero ?_⟩
  have byte := zeros.zeros (address - mapping.start.toNat) (by have low := within.1; omega)
  rwa [Nat.add_sub_cancel' within.1] at byte

/-- Every wanted address is skipped as zero or shown in exactly one segment. -/
theorem skipped_or_shown {file notes : Bytes} {maps kept : List Mapping} {core : CoreFile}
    (layout : Layout (coreInputs cap opts kept) file notes (visibleSegments kernel kept) core)
    (selects : Selects kernel maps kept) (apart : (maps.map Mapping.range).Pairwise Apart)
    {mapping : Mapping} (member : mapping ∈ maps) (selected : mapping.Selected) (wanted : mapping.Wanted)
    {address : Nat} (within : Within mapping address) :
    Skipped kernel mapping address ∨ Shows kernel file core address := by
  rcases selects.outcome mapping member with ⟨record, listed, comes⟩ | dropped
  · have ends := congrArg UInt64.toNat comes.end
    have starts := comes.start
    by_cases skipped : address < record.start.toNat
    · exact .inl (skipped_of_lead within comes.lead (by omega))
    · obtain ⟨index, position⟩ := List.getElem?_of_mem listed
      obtain ⟨phdr, found, covers, shows⟩ := layout_record layout position comes.nonempty
      have inRecord : Within record address := ⟨by omega, by rw [ends]; exact within.2⟩
      refine .inr ⟨index + 1, phdr, found, (covers address).mpr inRecord, ?_, ?_⟩
      · intro other candidate foundOther claims
        obtain ⟨otherIndex, otherRecord, rfl, otherListed, otherWithin⟩ :=
          layout_claimed layout selects.nonempty foundOther claims
        rw [record_unique (selects.apart apart) position inRecord otherListed otherWithin]
      · apply shows address inRecord.1
        have size := comes.wanted wanted
        have high := inRecord.2
        omega
  · have low := within.1
    have high := within.2
    exact .inl (skipped_of_lead within (dropped selected) (by omega))

/-- A load segment covers only addresses of parsed mappings. -/
theorem claimed_parsed {file notes : Bytes} {kept : List Mapping} {core : CoreFile}
    (layout : Layout (coreInputs cap opts kept) file notes (visibleSegments kernel kept) core)
    (selects : Selects kernel (enrichFromSmaps proc.smaps parsed) kept) {phdr : Phdr}
    (member : phdr ∈ core.phdrs) {address : Nat} (claims : Claims phdr address) :
    ∃ mapping ∈ parsed, Within mapping address := by
  obtain ⟨position, found⟩ := List.getElem?_of_mem member
  obtain ⟨index, record, _, listed, inRecord⟩ := layout_claimed layout selects.nonempty found claims
  obtain ⟨source, original, comes⟩ := selects.origin record (List.mem_of_getElem? listed)
  obtain ⟨mapping, present, equal⟩ := enriched_origin original
  obtain ⟨start, stop⟩ := range_of_plain equal
  have starts : mapping.start.toNat ≤ record.start.toNat := Nat.le_trans (Nat.le_of_eq start) comes.start
  have ends : record.end.toNat = mapping.end.toNat := (congrArg UInt64.toNat comes.end).trans stop.symm
  exact ⟨mapping, present, Nat.le_trans starts inRecord.1, ends ▸ inRecord.2⟩

theorem prioritized_of_unlimited (unlimited : opts.maxLength = none) (mappings : List Mapping) :
    prioritized cap opts mappings = mappings := by
  unfold prioritized
  rw [unlimited]
  cases opts.prioritize <;> rfl

end Selection

/-- Memory fidelity from end to end. An unlimited dump on the documented kernel
returns without ever blocking or faulting, and for every address of a parsed mapping
whose contents are wanted, the address was skipped in front of the mapping and reads
as zero, or the file shows its byte in exactly one load segment. No load segment
covers an address outside the parsed mappings. -/
theorem serializeDump_fidelity {arch : Arch} {Sink : Type} [Writer Sink] (total : AcceptsEveryByte Sink)
    (kernel : Kernel) (proc : ProcFs) (cap : CapturedDump arch) (opts : DumpOptions arch)
    (parsed : List Mapping) (served : Served kernel proc cap parsed) (unlimited : opts.maxLength = none)
    (machine : Machine Sink) (addressable : Addressable kernel proc cap opts machine.world)
    (accepting : total.accepting machine.sink) :
    ∃ final file core, serializeDump kernel proc cap opts machine = (.ok (), final) ∧
      total.emitted final.sink = total.emitted machine.sink ++ file ∧
      final.world.stalled = machine.world.stalled ∧ final.world.faulted = machine.world.faulted ∧
      decodeCore file = some core ∧
      (∀ mapping ∈ enrichFromSmaps proc.smaps parsed, mapping.Selected → mapping.Wanted →
        ∀ address, Within mapping address →
          Skipped kernel mapping address ∨ Shows kernel file core address) ∧
      (∀ phdr ∈ core.phdrs, ∀ address, Claims phdr address →
        ∃ mapping ∈ parsed, Within mapping address) := by
  obtain ⟨kept, _, final, selected, selects, ran, wrote, unstalled, unfaulted⟩ :=
    serializeDump_documented total served opts accepting
  rw [prioritized_of_unlimited unlimited kept] at wrote
  have sized := coreInputs_sized served selects (addressable kept _ selected)
  have apart := (served.regular.enriched proc.smaps).apart
  have layout : Layout _ _ _ (visibleSegments kernel kept) _ := CoreInputs.layout_of_segments sized
    (by simp [visibleSegments, segmentSizes, coreInputs])
  refine ⟨final, _, _, ran, wrote.emitted, unstalled, unfaulted, CoreInputs.decodeCore_headerBytes sized.count _,
    ?_, ?_⟩
  · intro mapping member selected wanted address within
    exact skipped_or_shown layout selects apart member selected wanted within
  · intro phdr member address claims
    exact claimed_parsed layout selects member claims

/-- Three anonymous pages of which the last cannot be read. -/
def sampleMaps : ProcFile where
  opening := ⟨2, .ok ()⟩
  text := [0x31, 0x30, 0x30, 0x30, 0x2d, 0x34, 0x30, 0x30, 0x30, 0x20, 0x72, 0x77, 0x2d, 0x70, 0x20,
    0x30, 0x20, 0x30, 0x30, 0x3a, 0x30, 0x30, 0x20, 0x30, 0x0a]
  read _ := ⟨1, .ok 7⟩

def sampleProc : ProcFs := ⟨sampleMaps, { sampleMaps with opening := ⟨0, .error .eperm⟩ }⟩

def sampleParsed : List Mapping := (parseSelfMaps sampleProc.maps maxMappings).toOption.getD []

/-- The first page is zero, the third one cannot be read. -/
def faultyKernel : Kernel where
  pageSize := 4096
  memory address := if address < 0x2000 then 0 else 7
  readablePage page := page != 3
  pipe2 _ := .ok 4096
  getPipeSize _ := none
  setPipeSize _ _ := .error .eperm
  statusFlags _ := none
  probe _ address count := ⟨1, if (List.range count).all fun index => (address + index) / 4096 != 3 then
    ⟨.ok count, 0⟩ else ⟨.error .efault, 1⟩⟩
  pipeRead _ := ⟨0, .ok 1000⟩

def sampleCapture : CapturedDump .x86_64 := ⟨[], 0, [], Prpsinfo.zeroed, 0⟩
def sampleOptions : DumpOptions .x86_64 := ⟨.forkSnapshot, none, false, [], false, none⟩

theorem faultyKernel_documented : Documented faultyKernel where
  pages := by decide
  pipe2 _ := ⟨4096, rfl, by decide⟩
  getPipeSize _ := rfl
  setPipeSize _ _ _ grown := by cases grown
  statusFlags _ := rfl
  probeReadable call address count readable := by
    have all : ((List.range count).all fun index => (address + index) / 4096 != 3) = true := by
      simpa [Kernel.readable, faultyKernel] using readable
    simp only [faultyKernel, all, if_true]
  probeFaulted call address count faulted := by
    have some : ¬ ((List.range count).all fun index => (address + index) / 4096 != 3) = true := by
      simpa [Kernel.readable, faultyKernel] using faulted
    exact .inl (by simp only [faultyKernel, some]; rfl)
  pipeRead _ := ⟨1000, rfl⟩

theorem sampleCapture_served : Served faultyKernel sampleProc sampleCapture sampleParsed where
  documented := faultyKernel_documented
  pagesize := rfl
  scratch := by decide
  parses := by
    have parsed : (parseSelfMaps sampleProc.maps maxMappings).toOption.isSome = true := by decide +kernel
    unfold sampleParsed
    cases parse : parseSelfMaps sampleProc.maps maxMappings with
    | error failure =>
        rw [parse] at parsed
        cases parsed
    | ok mappings => rfl
  regular := ⟨by decide +kernel, by decide +kernel, by
    have single : (sampleParsed.map Mapping.range) = [(0x1000, 0x4000)] := by decide +kernel
    rw [single]
    exact List.pairwise_singleton ..⟩

/-- The same process with the page of the kernel at the top of all addresses:
`ffffffffff600000-ffffffffff601000 --xp 0 00:00 0`. -/
def vsyscallMaps : ProcFile :=
  { sampleMaps with
    text := sampleMaps.text ++ List.replicate 10 0x66 ++ [0x36, 0x30, 0x30, 0x30, 0x30, 0x30, 0x2d] ++
      List.replicate 10 0x66 ++ [0x36, 0x30, 0x31, 0x30, 0x30, 0x30, 0x20, 0x2d, 0x2d, 0x78, 0x70, 0x20,
        0x30, 0x20, 0x30, 0x30, 0x3a, 0x30, 0x30, 0x20, 0x30, 0x0a] }

def vsyscallProc : ProcFs := ⟨vsyscallMaps, sampleProc.smaps⟩

def vsyscallParsed : List Mapping := (parseSelfMaps vsyscallProc.maps maxMappings).toOption.getD []

theorem vsyscallParsed_ranges :
    vsyscallParsed.map Mapping.range = [(0x1000, 0x4000), (0xffffffffff600000, 0xffffffffff601000)] := by
  decide +kernel

theorem vsyscallProc_served : Served faultyKernel vsyscallProc sampleCapture vsyscallParsed where
  documented := faultyKernel_documented
  pagesize := rfl
  scratch := by decide
  parses := by
    have parsed : (parseSelfMaps vsyscallProc.maps maxMappings).toOption.isSome = true := by decide +kernel
    unfold vsyscallParsed
    cases parse : parseSelfMaps vsyscallProc.maps maxMappings with
    | error failure =>
        rw [parse] at parsed
        cases parsed
    | ok mappings => rfl
  regular := ⟨by decide +kernel, by decide +kernel, by
    rw [vsyscallParsed_ranges]
    exact List.pairwise_pair.mpr (by unfold Apart; decide)⟩

theorem serializeDump_fidelity_sample : ∃ final file core,
    serializeDump faultyKernel vsyscallProc sampleCapture sampleOptions sampleMachine = (.ok (), final) ∧
      final.sink.fd.accepted = file ∧ decodeCore file = some core ∧
      Shows faultyKernel file core 0x2005 := by
  obtain ⟨final, file, core, ran, emitted, _, _, decoded, shown, _⟩ := serializeDump_fidelity
    SimpleWriter.acceptsEveryByte faultyKernel vsyscallProc sampleCapture sampleOptions vsyscallParsed
    vsyscallProc_served rfl sampleMachine
    (vsyscallProc_served.addressable (by decide +kernel) (by decide) sampleMachine.world) sampleMachine_accepting
  have dumped : ∃ mapping ∈ vsyscallParsed, (mapping.flags.readable = true ∧ mapping.isDevice = false ∧
      mapping.dontdump = false) ∧ mapping.isAnon = true ∧ mapping.start.toNat ≤ 0x2005 ∧
      0x2005 < mapping.end.toNat := by
    decide +kernel
  have enriched : enrichFromSmaps vsyscallProc.smaps vsyscallParsed = vsyscallParsed := rfl
  rw [enriched] at shown
  obtain ⟨mapping, listed, selected, anonymous, low, high⟩ := dumped
  rcases shown mapping listed selected (.inl anonymous) 0x2005 ⟨low, high⟩ with
    ⟨_, _, _, hidden | zero⟩ | shows
  · exact absurd hidden (by decide)
  · exact absurd zero (by decide)
  · exact ⟨final, file, core, ran, emitted, decoded, shows⟩

end Corus.Dump
