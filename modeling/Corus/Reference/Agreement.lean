import Corus.Reference.Details
import Corus.Reference.Segments

/-!
# The port and the C library

Both libraries read the two files that the kernel prints for the same areas. They keep the
same segments, except that the C library gives up behind a device that is not the last
area.
-/

namespace Corus.Reference

open Corus.Logical Corus.Platform Corus.Elf Corus.Memory Corus.Proc

/-! ## Areas as the port reads them -/

theorem newline_notMem_line (vma : Vma) : newline ∉ vma.line := by
  have notSpace : newline ≠ space := by decide
  have notDash : newline ≠ dash := by decide
  have number : ∀ {base width value : Nat}, 1 < base → base ≤ 16 → newline ∉ numeralText base width value :=
    fun valid small member => (numeralText_solid valid small newline member).2 rfl
  have perms : newline ∉ vma.perms := by
    have checked : ∀ read write execute shared : Bool, newline ∉
        ([if read then 0x72 else dash, if write then 0x77 else dash, if execute then 0x78 else dash,
          if shared then 0x73 else 0x70] : Bytes) := by decide
    exact checked vma.read vma.write vma.execute vma.shared
  have device : newline ∉ vma.device := fun member => (device_solid vma newline member).2 rfl
  have blanks : newline ∉ List.replicate vma.blanks space := fun member => nomatch List.eq_of_mem_replicate member
  have tail : newline ∉ vma.tail := by
    unfold Vma.tail
    cases vma.name with
    | none => exact blanks
    | some name => simp [blanks, name.oneLine, notSpace]
  simp [Vma.line, Vma.lead, Vma.fields, number, perms, device, tail, notSpace, notDash]

namespace Area

variable (area : Area)

/-- The header line behind the start address. -/
def header : Bytes :=
  (numeralText 16 8 area.vma.stop.toNat ++ space ::
    (area.vma.perms ++ space :: numeralText 16 8 area.vma.offset.toNat)) ++ space :: area.vma.fields

theorem line_eq : area.vma.line = numeralText 16 8 area.vma.start.toNat ++ dash :: area.header := by
  simp [Vma.line, Vma.lead, header]

/-- The section of an area. -/
def part : SmapsSection where
  start := area.vma.start
  header := area.header
  oneLine := by
    have oneLine := newline_notMem_line area.vma
    rw [line_eq] at oneLine
    exact fun member => oneLine (List.mem_append_right _ (List.mem_cons_of_mem _ member))
  details := area.details

/-- What the kernel prints for an area. -/
def text : Bytes := area.vma.line ++ newline :: area.detailsText

end Area

/-- The text of `/proc/self/smaps`. -/
def areasText (areas : List Area) : Bytes := areas.flatMap Area.text

theorem areasText_cons (area : Area) (areas : List Area) :
    areasText (area :: areas) = area.vma.line ++ newline :: (area.detailsText ++ areasText areas) := by
  simp [areasText, Area.text]

theorem areasText_eq (areas : List Area) : areasText areas = smapsText (areas.map Area.part) := by
  induction areas with
  | nil => rfl
  | cons area areas ih =>
      rw [areasText_cons, ih, Area.line_eq]
      simp [smapsText, SmapsSection.lines, SmapsSection.headerLine, Area.part, Area.detailsText, linesText,
        List.flatMap_map]

/-! ## Details as the port reads them -/

section Gain

variable (area : Area)

theorem anonymousValue_counts : anonymousValue area.counts.bytes = some area.anonymous := by
  have blanks : ∀ ch ∈ List.replicate area.blanks space, isBlank ch = true := by
    intro ch member
    rw [List.eq_of_mem_replicate member]
    rfl
  obtain ⟨digit, more, digits, small, -⟩ := numeral_head (show 1 < 10 by decide) area.anonymous
  have texts : ∀ ch ∈ numeralText 10 1 area.anonymous, isDecimal ch = true := by
    intro ch member
    obtain ⟨digit, small, rfl⟩ := mem_numeralText (by decide) member
    simpa [isDecimal] using (digitByte_decimal small).1
  have stops : area.unit.takeWhile isDecimal = [] := by
    cases unit : area.unit with
    | nil => rfl
    | cons ch rest => exact List.takeWhile_cons_of_neg (by simp [area.unitEnds ch (by rw [unit]; rfl)])
  have lead : (numeralText 10 1 area.anonymous ++ area.unit).dropWhile isBlank =
      numeralText 10 1 area.anonymous ++ area.unit := by
    have first : ∀ value ∈ List.range 10, isBlank (digitByte value) = false := by decide
    rw [numeralText, digits, List.map_cons, List.cons_append]
    exact List.dropWhile_cons_of_neg (by simp [first digit (List.mem_range.mpr small)])
  have values : (numeralText 10 1 area.anonymous).map (fun ch => ch.toNat - 0x30) = numeral 10 1 area.anonymous := by
    rw [numeralText, List.map_map]
    refine (List.map_congr_left ?_).trans (List.map_id' _)
    intro digit member
    exact (digitByte_decimal (numeral_lt (by decide) member)).2.2.2
  rw [anonymousValue, if_pos (List.isPrefixOf_iff_prefix.mpr ⟨_, area.countsBytes.symm⟩), area.countsBytes,
    List.drop_left, List.dropWhile_append_of_pos blanks, lead, List.takeWhile_append_of_pos texts, stops,
    List.append_nil, values, numeralValue_numeral]

/-- A line without the word counts nothing. -/
theorem anonymousValue_plain {line : Bytes} (uncounted : ¬ anonymousField <+: line) : anonymousValue line = none :=
  if_neg (mt List.isPrefixOf_iff_prefix.mp uncounted)

theorem flags_uncounted : ¬ anonymousField <+: area.flags.bytes := fun counted =>
  not_vmFlags_of_anonymous counted ⟨_, area.flagsBytes.symm⟩

theorem counts_unflagged : ¬ vmFlagsField <+: area.counts.bytes :=
  not_vmFlags_of_anonymous ⟨_, area.countsBytes.symm⟩

/-- A line of an area is the one with the count, the one with the flags, or neither. -/
theorem Area.details_cases {line : DetailLine} (member : line ∈ area.details) :
    line = area.counts ∨ line = area.flags ∨ ¬ anonymousField <+: line.bytes ∧ ¬ vmFlagsField <+: line.bytes := by
  simp only [Area.details, List.mem_cons, List.mem_append, List.not_mem_nil, or_false] at member
  rcases member with rfl | front | rfl | middle | rfl
  · exact .inr (.inr area.size_plain)
  · exact .inr (.inr (area.plain line (List.mem_append_left _ front)))
  · exact .inl rfl
  · exact .inr (.inr (area.plain line (List.mem_append_right _ middle)))
  · exact .inr (.inl rfl)

theorem Area.counts_mem : area.counts ∈ area.details := by simp [Area.details]

theorem Area.flags_mem : area.flags ∈ area.details := by simp [Area.details]

/-- The section counts anonymous pages if the area has some. -/
theorem part_anonymous : area.part.Anonymous ↔ 0 < area.anonymous := by
  constructor
  · rintro ⟨line, member, value, found, positive⟩
    rcases area.details_cases member with rfl | rfl | ⟨uncounted, -⟩
    · rw [anonymousValue_counts] at found
      cases found
      exact positive
    · rw [anonymousValue_plain (flags_uncounted area)] at found
      cases found
    · rw [anonymousValue_plain uncounted] at found
      cases found
  · intro positive
    exact ⟨area.counts, area.counts_mem, area.anonymous, anonymousValue_counts area, positive⟩

theorem splitOnP_flagsText {flags : List (Byte × Byte)}
    (lowercase : ∀ flag ∈ flags, isLower flag.1 = true ∧ isLower flag.2 = true) :
    (flagsText flags).splitOnP isBlank = flags.map (fun flag => [flag.1, flag.2]) ++ [[]] := by
  have solid : ∀ ch, isLower ch = true → isBlank ch = false := by
    intro ch lower
    rw [isBlank, Bool.or_eq_false_iff, beq_eq_false_iff_ne, beq_eq_false_iff_ne]
    constructor
    · rintro rfl
      cases lower
    · rintro rfl
      cases lower
  induction flags with
  | nil => rfl
  | cons flag flags ih =>
      obtain ⟨first, second⟩ := lowercase flag List.mem_cons_self
      have field : ∀ ch ∈ [flag.1, flag.2], isBlank ch = false := by
        simp [solid _ first, solid _ second]
      have text : flagsText (flag :: flags) = [flag.1, flag.2] ++ space :: flagsText flags := by
        simp [flagsText]
      rw [text, List.splitOnP_append_cons_of_forall_mem field space rfl,
        ih fun other member => lowercase other (List.mem_cons_of_mem _ member)]
      rfl

/-- The section excludes the area if its flags do. -/
theorem part_dontdump : area.part.Dontdump ↔ (0x64, 0x64) ∈ area.vmFlags := by
  have fields : HasFlag area.flags.bytes dontdumpFlag ↔ (0x64, 0x64) ∈ area.vmFlags := by
    have word : ∀ ch ∈ vmFlagsField, isBlank ch = false := by simp [vmFlagsField, isBlank]
    rw [HasFlag, and_iff_right ⟨_, area.flagsBytes.symm⟩, area.flagsBytes,
      List.splitOnP_append_cons_of_forall_mem word space rfl, splitOnP_flagsText area.lowercase]
    simp [dontdumpFlag, vmFlagsField]
  rw [← fields]
  constructor
  · rintro ⟨line, member, flagged⟩
    rcases area.details_cases member with rfl | rfl | ⟨-, unflagged⟩
    · exact absurd flagged.1 (counts_unflagged area)
    · exact flagged
    · exact absurd flagged.1 unflagged
  · intro flagged
    exact ⟨area.flags, area.flags_mem, flagged⟩

/-- The record of an area with its details. -/
def Area.mapping : Mapping :=
  { area.vma.record with
    hasAnonPages := decide (0 < area.anonymous)
    dontdump := area.vmFlags.contains (0x64, 0x64) }

end Gain

/-- A mapping is what smaps cannot change and its two details. -/
theorem mapping_ext {mapping other : Mapping} (plain : mapping.plain = other.plain)
    (anonymous : mapping.hasAnonPages = other.hasAnonPages) (dontdump : mapping.dontdump = other.dontdump) :
    mapping = other := by
  have restored : ∀ mapping : Mapping, mapping =
      { mapping.plain with dontdump := mapping.dontdump, hasAnonPages := mapping.hasAnonPages } := fun _ => rfl
  rw [restored mapping, restored other, plain, anonymous, dontdump]

/-- The port enriches the record of every area with the details of this area. -/
theorem enrichFromSmaps_areas {areas : List Area} (distinct : (areas.map fun area => area.vma.start).Nodup)
    {file : ProcFile} (printed : file.text = areasText areas) (opens : file.opening.result = .ok ())
    (reliable : file.Reliable) :
    enrichFromSmaps file (areas.map fun area => area.vma.record) = areas.map Area.mapping := by
  have starts : (areas.map fun area => area.vma.record).map Mapping.start = areas.map fun area => area.vma.start := by
    rw [List.map_map]
    rfl
  have lines : ∀ line ∈ (areas.map Area.part).flatMap SmapsSection.lines, newline ∉ line := by
    intro line member
    obtain ⟨part, _, inside⟩ := List.mem_flatMap.mp member
    exact part.newline_notMem_lines inside
  simp only [enrichFromSmaps, openRo, Response.retry_eq, opens]
  rw [enrichLines_lines _ lines _ (Io.new file) reliable (printed.trans (areasText_eq areas)),
    foldl_sections _ _ (by rw [starts]; exact distinct), List.map_map]
  refine List.map_congr_left ?_
  intro area member
  have gains := Gains.foldl (areas.map Area.part) SmapsSection.gain
    (fun part => part.start = area.vma.start ∧ part.Anonymous)
    (fun part => part.start = area.vma.start ∧ part.Dontdump) area.vma.start
    (fun part _ other there => there ▸ gain_gains part other) area.vma.record rfl
  -- No other section has the start address of this one.
  have own : ∀ holds : SmapsSection → Prop,
      (∃ part ∈ areas.map Area.part, part.start = area.vma.start ∧ holds part) ↔ holds area.part := by
    intro holds
    constructor
    · rintro ⟨part, among, same, holding⟩
      obtain ⟨other, listed, rfl⟩ := List.mem_map.mp among
      rw [← List.inj_on_of_nodup_map distinct listed member same]
      exact holding
    · intro holding
      exact ⟨area.part, List.mem_map_of_mem member, rfl, holding⟩
  rw [own, own] at gains
  simp only [Function.comp_apply]
  apply mapping_ext
  · exact gains.rest
  · rw [Bool.eq_iff_iff, gains.hasAnonPages, part_anonymous, Area.mapping, decide_eq_true_iff]
    exact or_iff_right Bool.false_ne_true
  · rw [Bool.eq_iff_iff, gains.dontdump, part_dontdump, Area.mapping, List.contains_iff_mem]
    exact or_iff_right Bool.false_ne_true

/-! ## Lists of areas -/

/-- An area as the kernel has it: ordered and of whole pages; on aarch64 what has no page
structs cannot be read through a pipe. -/
structure Area.Paged (kernel : Kernel) (arch : Arch) (area : Area) : Prop where
  ordered : area.vma.start.toNat ≤ area.vma.stop.toNat
  aligned : kernel.pageSize ∣ area.vma.start.toNat ∧ kernel.pageSize ∣ area.vma.stop.toNat
  pfnmap : arch = .aarch64 → pfnmapFlag ∈ area.vmFlags →
    ∀ address, area.vma.start.toNat ≤ address → address < area.vma.stop.toNat → kernel.readable address = false

section Agree

variable {arch : Arch} {kernel : Kernel} {pagesize : UInt64}

/-- The details of the two libraries for an area. -/
theorem Area.Paged.detailed {area : Area} (paged : area.Paged kernel arch) :
    Detailed kernel ⟨decide (0 < area.anonymous), area.excluded arch⟩ area.mapping := by
  refine ⟨rfl, ?_, ?_⟩
  · intro dontdump
    exact List.any_eq_true.mpr ⟨_, List.contains_iff_mem.mp dontdump, rfl⟩
  · intro excluded dumped index inside
    obtain ⟨flag, member, excludes⟩ := List.any_eq_true.mp excluded
    rw [Reference.excludes, Bool.or_eq_true, Bool.and_eq_true, beq_iff_eq, beq_iff_eq, beq_iff_eq] at excludes
    rcases excludes with rfl | ⟨aarch64, rfl⟩
    · rw [show area.mapping.dontdump = true from List.contains_iff_mem.mpr member] at dumped
      cases dumped
    · have length : (area.vma.stop - area.vma.start).toNat = area.vma.stop.toNat - area.vma.start.toNat :=
        UInt64.toNat_sub_of_le _ _ (UInt64.le_iff_toNat_le.mpr paged.ordered)
      have below : index < area.vma.stop.toNat - area.vma.start.toNat := length ▸ inside
      exact paged.pfnmap aarch64 member _ (Nat.le_add_right _ _) (by
        show area.vma.start.toNat + index < area.vma.stop.toNat
        omega)

/-- A header line ends the details in front of it. -/
theorem areasText_head (areas : List Area) : ∀ ch ∈ (areasText areas).head?, endsDetails ch = true := by
  intro ch first
  cases areas with
  | nil => cases first
  | cons area areas =>
      rw [areasText_cons, Area.line_eq] at first
      cases digits : numeralText 16 8 area.vma.start.toNat with
      | nil => exact absurd digits (numeralText_ne_nil (by decide))
      | cons _ more =>
          rw [digits] at first
          cases first
          have member : ch ∈ numeralText 16 8 area.vma.start.toNat := digits ▸ List.mem_cons_self
          obtain ⟨value, small, rfl⟩ := mem_numeralText (by decide) member
          have checked : ∀ value ∈ List.range 16, endsDetails (digitByte value) = true := by decide
          exact checked value (List.mem_range.mpr small)

/-- A device leaves no segment in either library. -/
theorem keepSegment_device {area : Area} (device : area.vma.record.isDevice = true) (details : Details)
    (scratch : Bytes) (world : World) :
    keepSegment kernel.memory (loopbackPage kernel) pagesize details (segmentOf area.vma.record) = none ∧
      (finalizeMapping kernel pagesize area.mapping scratch world).1 = none := by
  constructor
  · exact if_pos (by rw [isDevice_record, device]; rfl)
  · cases kept : (finalizeMapping kernel pagesize area.mapping scratch world).1 with
    | none => rfl
    | some record =>
        obtain ⟨⟨-, other, -⟩, -⟩ := finalizeMapping_some kept
        exact absurd (device.symm.trans other) (by decide)

/-- The loop over the areas. -/
theorem readSegments_areas (documented : Documented kernel) {areas : List Area}
    (paged : ∀ area ∈ areas, area.Paged kernel arch) {scratch : Bytes} {world : World}
    (scannable : Scannable kernel pagesize scratch world) :
    readSegments arch kernel.memory (loopbackPage kernel) pagesize areas.length (areasText areas) =
      if areas.dropLast.any fun area => area.vma.record.isDevice then none
      else some ((finalizeList kernel pagesize (areas.map Area.mapping) scratch world).1.map segmentOf) := by
  induction areas generalizing scratch world with
  | nil => rfl
  | cons area areas ih =>
      have here := paged area List.mem_cons_self
      obtain ⟨-, -, size, settled⟩ := finalizeMapping_documented documented scannable
        (show area.mapping.start.toNat ≤ area.mapping.end.toNat from here.ordered) here.aligned
      have later := ih (fun other member => paged other (List.mem_cons_of_mem _ member))
        (scannable.settled size settled)
      have kept := keepSegment_eq documented scannable (show isDevice (segmentOf area.mapping) = area.mapping.isDevice
        from isDevice_record area.vma) here.detailed here.ordered here.aligned
      rw [List.length_cons, readSegments, areasText_cons, readHeader_line]
      simp only [Option.bind_eq_bind, Option.bind_some, List.tail_cons, isDevice_record, List.map_cons, finalizeList]
      cases device : area.vma.record.isDevice with
      | true =>
          obtain ⟨behind, stops⟩ := readDetails_device arch area (areasText areas)
          obtain ⟨dropped, skipped⟩ := @keepSegment_device kernel pagesize area device ⟨false, false⟩ scratch world
          simp only [stops, Option.bind_some, dropped, skipped]
          cases areas with
          | nil => rfl
          | cons next areas =>
              rw [List.length_cons, readSegments, readHeader_size, List.dropLast_cons_cons, List.any_cons, device]
              rfl
      | false =>
          have others : (area :: areas).dropLast.any (fun area => area.vma.record.isDevice) =
              areas.dropLast.any fun area => area.vma.record.isDevice := by
            cases areas with
            | nil => rfl
            | cons next areas => rw [List.dropLast_cons_cons, List.any_cons, device, Bool.false_or]
          rw [readDetails_area arch area (areasText_head areas), others]
          simp only [Option.bind_some, later]
          split
          · rfl
          · rw [List.map_append, ← Option.toList_map, ← kept]
            rfl

theorem count_newline_mapsText (vmas : List Vma) : (mapsText vmas).count newline = vmas.length := by
  induction vmas with
  | nil => rfl
  | cons vma vmas ih =>
      rw [mapsText_cons, List.count_append, List.count_eq_zero_of_not_mem (newline_notMem_line vma), Nat.zero_add,
        List.count_cons_self, ih, List.length_cons]

/-- The port agrees with the C library on the segments: for every list of areas, as many
as the port has room for, that the kernel prints into the two files, both keep the same
ones with the same contents, unless one of the areas in front of the last one is a device.
Behind its header the C library looks for the next area in the middle of a line, and gives
up. -/
theorem createSegments_agrees (documented : Documented kernel) {scratch : Bytes} {world : World}
    (scannable : Scannable kernel pagesize scratch world) {areas : List Area} (nonempty : areas ≠ [])
    (few : areas.length ≤ maxMappings) (distinct : (areas.map fun area => area.vma.start).Nodup)
    (paged : ∀ area ∈ areas, area.Paged kernel arch) {maps smaps : ProcFile}
    (mapsPrinted : maps.text = mapsText (areas.map Area.vma)) (smapsPrinted : smaps.text = areasText areas)
    (opens : maps.opening.result = .ok () ∧ smaps.opening.result = .ok ()) (reliable : maps.Reliable ∧ smaps.Reliable) :
    ∃ mappings, parseSelfMaps maps maxMappings = .ok mappings ∧
      createSegments arch kernel.memory (loopbackPage kernel) pagesize maps.text smaps.text =
        if areas.dropLast.any fun area => area.vma.record.isDevice then none
        else
          let final := finalizeMappings kernel smaps mappings pagesize scratch world
          some ((final.maps.take final.kept).map segmentOf) := by
  have records : (areas.map Area.vma).map Vma.record = areas.map fun area => area.vma.record := by
    rw [List.map_map]
    rfl
  have parsed := parseSelfMaps_mapsText mapsPrinted opens.1 reliable.1 maxMappings
  rw [records, List.take_of_length_le (by rw [List.length_map]; exact few)] at parsed
  refine ⟨_, parsed, ?_⟩
  have enriched := enrichFromSmaps_areas distinct smapsPrinted opens.2 reliable.2
  have finalized := finalizeMappings_eq kernel smaps (areas.map fun area => area.vma.record) pagesize scratch world
  rw [enriched] at finalized
  have kept := congrArg Prod.fst finalized
  have some : smaps.text ≠ [] := by
    rw [smapsPrinted]
    cases areas with
    | nil => exact absurd rfl nonempty
    | cons area areas => simp [areasText_cons]
  rw [createSegments, if_neg some, mapsPrinted, smapsPrinted, count_newline_mapsText, List.length_map,
    readSegments_areas documented paged scannable]
  simp only [← kept]

end Agree

/-- A kernel that delivers every page at once. -/
def promptKernel : Kernel where
  pageSize := 4096
  memory _ := 7
  readablePage _ := true
  pipe2 _ := .ok 4096
  getPipeSize _ := none
  setPipeSize _ _ := .error .eperm
  statusFlags _ := none
  probe _ _ count := ⟨0, ⟨.ok count, 0⟩⟩
  pipeRead _ := ⟨0, .ok 4096⟩

theorem promptKernel_documented : Documented promptKernel where
  pages := by decide
  pipe2 _ := ⟨4096, rfl, by decide⟩
  getPipeSize _ := rfl
  setPipeSize _ _ _ grown := by cases grown
  statusFlags _ := rfl
  probeReadable _ _ _ _ := rfl
  probeFaulted _ _ _ faulted := absurd (fun _ _ => rfl) faulted
  pipeRead _ := ⟨4096, rfl⟩

theorem promptKernel_scannable : Scannable promptKernel 4096 (List.replicate 4096 0) pipedWorld where
  runtime := rfl
  power := ⟨12, rfl⟩
  buffer := by rw [List.length_replicate]; exact Nat.le_refl _
  ready := ⟨⟨rfl, rfl⟩, by decide⟩

/-- `Size: 8 kB`. -/
def sizeLine : DetailLine where
  bytes := sizeField ++ [0x20, 0x38, 0x20, 0x6b, 0x42]
  uppercase := ⟨0x53, rfl, by decide, by decide⟩
  short := by decide
  oneLine := by decide
  bounded value found := by
    rw [show anonymousValue (sizeField ++ [0x20, 0x38, 0x20, 0x6b, 0x42]) = none by decide] at found
    cases found

/-- `VmFlags: rd wr `. -/
def readWriteLine : DetailLine where
  bytes := vmFlagsField ++ [0x20, 0x72, 0x64, 0x20, 0x77, 0x72, 0x20]
  uppercase := ⟨0x56, rfl, by decide, by decide⟩
  short := by decide
  oneLine := by decide
  bounded value found := by
    rw [show anonymousValue (vmFlagsField ++ [0x20, 0x72, 0x64, 0x20, 0x77, 0x72, 0x20]) = none by decide] at found
    cases found

/-- Two pages at an address, with one of them written to. -/
def sampleArea (start stop : UInt64) (name : Option VmaName) : Area where
  vma := { sampleVma with start := start, stop := stop, write := true, name := name }
  size := sizeLine
  front := []
  counts := anonymousLine
  middle := []
  flags := readWriteLine
  sizeBytes := ⟨_, rfl⟩
  plain _ member := by cases member
  blanks := 2
  anonymous := 4
  unit := [0x20, 0x6b, 0x42]
  countsBytes := by
    have four : numeralText 10 1 4 = [0x34] := by simp [numeralText, numeral, digitByte]
    rw [four]
    rfl
  unitEnds ch first := by
    cases first
    rfl
  vmFlags := [(0x72, 0x64), (0x77, 0x72)]
  lowercase := by simp [isLower]
  flagsBytes := rfl

/-- Memory without a name, and `/dev/fb0`. -/
def heapArea : Area := sampleArea 0x4000 0x6000 none
def deviceArea : Area :=
  sampleArea 0x8000 0xa000 (some ⟨devDirectory ++ [0x66, 0x62, 0x30], by decide, by decide, by decide⟩)

theorem sampleAreas_paged : heapArea.Paged promptKernel .x86_64 ∧ deviceArea.Paged promptKernel .x86_64 :=
  ⟨⟨by decide, by decide, nofun⟩, ⟨by decide, by decide, nofun⟩⟩

/-- The device is left out as the last area, and ends the C library as the first one. -/
theorem createSegments_agrees_sample :
    (∃ mappings, parseSelfMaps (procFile (mapsText [heapArea.vma, deviceArea.vma]) 7) maxMappings = .ok mappings ∧
      createSegments .x86_64 promptKernel.memory (loopbackPage promptKernel) 4096
          (mapsText [heapArea.vma, deviceArea.vma]) (areasText [heapArea, deviceArea]) =
        let final := finalizeMappings promptKernel (procFile (areasText [heapArea, deviceArea]) 7) mappings 4096
          (List.replicate 4096 0) pipedWorld
        some ((final.maps.take final.kept).map segmentOf)) ∧
      createSegments .x86_64 promptKernel.memory (loopbackPage promptKernel) 4096
        (mapsText [deviceArea.vma, heapArea.vma]) (areasText [deviceArea, heapArea]) = none := by
  obtain ⟨heap, device⟩ := sampleAreas_paged
  constructor
  · obtain ⟨mappings, parsed, same⟩ := @createSegments_agrees .x86_64 _ _ promptKernel_documented _ _
      promptKernel_scannable [heapArea, deviceArea] (by decide) (by decide) (by decide)
      (by simp [heap, device]) (procFile (mapsText [heapArea.vma, deviceArea.vma]) 7)
      (procFile (areasText [heapArea, deviceArea]) 7) rfl rfl ⟨rfl, rfl⟩ ⟨fun _ => ⟨7, rfl⟩, fun _ => ⟨7, rfl⟩⟩
    refine ⟨mappings, parsed, same.trans (if_neg ?_)⟩
    decide +kernel
  · obtain ⟨mappings, -, same⟩ := @createSegments_agrees .x86_64 _ _ promptKernel_documented _ _
      promptKernel_scannable [deviceArea, heapArea] (by decide) (by decide) (by decide)
      (by simp [heap, device]) (procFile (mapsText [deviceArea.vma, heapArea.vma]) 7)
      (procFile (areasText [deviceArea, heapArea]) 7) rfl rfl ⟨rfl, rfl⟩ ⟨fun _ => ⟨7, rfl⟩, fun _ => ⟨7, rfl⟩⟩
    exact same.trans (if_pos (by decide +kernel))

end Corus.Reference
