import Corus.Dump.Fidelity
import Corus.Proc.Kept

/-!
# The file table of a core

NT_FILE says which byte of which file an address shows. An entry takes its start from
the finalized mapping, behind the leading zero pages, but its file offset from the
parsed one, so the two belong together only if nothing was skipped.
-/

namespace Corus.Dump

open Corus.Logical Corus.Platform Corus.Output Corus.Memory Corus.Proc Corus.Elf

/-- Count and page size, then the triples of an NT_FILE descriptor. -/
def fileTriples : Parser (List (UInt64 × UInt64 × UInt64)) := do
  let count ← Parser.u64
  let _ ← Parser.u64
  Parser.times count.toNat ntFileEntry

/-- The start, end and page-offset triples that a reader finds in what `write_nt_file`
wrote; without a note there are none. -/
def fileTable (bytes : Bytes) : Option (List (UInt64 × UInt64 × UInt64)) :=
  match decodeNotes bytes with
  | some [] => some []
  | some [note] => if note.nType = ntFile then (fileTriples note.desc).map Prod.fst else none
  | _ => none

/-- Every address of the entry is attributed to the file byte that it shows in the
process: page offset and start are apart as offset and start of the mapping are. -/
def Attributes (pagesize : Nat) (entry : UInt64 × UInt64 × UInt64) (mapping : Mapping) : Prop :=
  (entry.2.2.toNat * pagesize : Int) - entry.1.toNat = mapping.offset.toNat - mapping.start.toNat

/-- Some byte of the range can be read and is not zero. -/
def HasData (kernel : Kernel) (address count : Nat) : Prop :=
  ∃ index < count, kernel.readable (address + index) ∧ kernel.memory (address + index) ≠ 0

/-- The entry for the mapping at an index, if it is kept and file-backed. -/
def entryAt (kernel : Kernel) (pagesize : UInt64) (maps : List Mapping) (scratch : Bytes) (world : World)
    (index : Nat) : Option (UInt64 × UInt64 × UInt64) :=
  match recordAt kernel pagesize maps scratch world index with
  | none => none
  | some record => if record.isAnon then none else some (record.start, record.end, record.offset / pagesize)

/-- The reader finds the file-backed mappings. -/
theorem fileTriples_parses {mappings : List Mapping} {pagesize : UInt64}
    (counted : (fileBacked mappings).length < 2 ^ 64) :
    fileTriples (ntFileDesc mappings pagesize) = some (
      (fileBacked mappings).map fun mapping => (mapping.start, mapping.end, mapping.offset / pagesize),
      (fileBacked mappings).flatMap Mapping.nameWithNul) := by
  have count : (UInt64.ofNat (fileBacked mappings).length).toNat = (fileBacked mappings).length := by
    rw [UInt64.toNat_ofNat', Nat.mod_eq_of_lt counted]
  have entries := Parses.times fun mapping (_ : mapping ∈ fileBacked mappings) =>
    ntFileTriple_parses pagesize mapping
  simp only [fileTriples, ntFileDesc, List.append_assoc, Parser.bind_apply, Parses.u64 _ _, count, entries _]

/-- What `write_nt_file` leaves a reader. -/
theorem writeNtFile_fileTable {Sink : Type} [Writer Sink] (total : AcceptsEveryByte Sink) {mappings : List Mapping}
    (pagesize : UInt64) (fits : ∀ mapping ∈ mappings, mapping.nameLen < fnameMax)
    (few : mappings.length ≤ maxMappings) {machine : Machine Sink} (accepting : total.accepting machine.sink) :
    ∃ after bytes, writeNtFile mappings pagesize machine = (.ok (), after) ∧
      total.emitted after.sink = total.emitted machine.sink ++ bytes ∧
      fileTable bytes = some
        ((fileBacked mappings).map fun mapping => (mapping.start, mapping.end, mapping.offset / pagesize)) := by
  obtain ⟨after, ran, emitted, _⟩ := writeNtFile_emits total pagesize fits machine accepting
  refine ⟨after, _, ran, emitted, ?_⟩
  have filtered : (fileBacked mappings).length ≤ mappings.length := List.length_filter_le ..
  simp only [maxMappings] at few
  cases files : fileBacked mappings with
  | nil => simp [fileTable, decodeNotes]
  | cons file rest =>
      have sizes := ntFileSizes_le fits
      rw [ntFileSizes, ntFileSizes_foldl, files] at sizes
      have length := length_ntFileDesc pagesize fits
      rw [files] at length
      have small : (ntFileDesc mappings pagesize).length < 2 ^ 32 := by
        rw [length]
        simp only [Nat.zero_add, List.length_cons, Nat.succ_ne_zero, if_false] at sizes
        omega
      have decoded := @decodeNotes_flatMap [Note.core ntFile (ntFileDesc mappings pagesize)] (by
        intro note member
        rw [List.mem_singleton.mp member]
        exact Note.core_representable small)
      rw [List.flatMap_cons, List.flatMap_nil, List.append_nil] at decoded
      rw [← files]
      have nonempty : (fileBacked mappings).isEmpty = false := by rw [files]; rfl
      simp only [nonempty, Bool.false_eq_true, if_false, fileTable]
      rw [show noteBytes coreNameNul ntFile (ntFileDesc mappings pagesize) =
        (Note.core ntFile (ntFileDesc mappings pagesize)).asBytes from rfl, decoded]
      simp only [Note.core, if_true, fileTriples_parses (show (fileBacked mappings).length < 2 ^ 64 by omega),
        Option.map_some]

section Attribution

variable {kernel : Kernel} {pagesize : UInt64} {maps : List Mapping} {scratch : Bytes} {world : World}

/-- The entries of the kept mappings, index by index. -/
theorem fileBacked_records (maps : List Mapping) :
    (fileBacked ((List.range maps.length).filterMap (recordAt kernel pagesize maps scratch world))).map
        (fun record => (record.start, record.end, record.offset / pagesize)) =
      (List.range maps.length).filterMap (entryAt kernel pagesize maps scratch world) := by
  rw [fileBacked, List.filter_filterMap, List.map_filterMap]
  apply List.filterMap_congr
  intro index _
  unfold entryAt
  cases recordAt kernel pagesize maps scratch world index with
  | none => rfl
  | some record => cases anon : record.isAnon <;> simp [anon]

/-- Behind skipped pages the offset does not fit the start any more. -/
theorem attributes_iff {mapping record : Mapping} {skip : Nat} (kept : Kept pagesize.toNat mapping skip record)
    (offset : pagesize.toNat ∣ mapping.offset.toNat) :
    Attributes pagesize.toNat (record.start, record.end, record.offset / pagesize) mapping ↔ skip = 0 := by
  have same : record.offset = mapping.offset := by rw [kept.rest]
  have whole : (record.offset / pagesize).toNat * pagesize.toNat = mapping.offset.toNat := by
    rw [UInt64.toNat_div, same, Nat.div_mul_cancel offset]
  simp only [Attributes]
  rw [← Int.natCast_mul, whole, kept.start]
  omega

variable (documented : Documented kernel) (scannable : Scannable kernel pagesize scratch world)
  (ordered : ∀ mapping ∈ maps, mapping.start.toNat ≤ mapping.end.toNat)
  (aligned : ∀ mapping ∈ maps, kernel.pageSize ∣ mapping.start.toNat ∧ kernel.pageSize ∣ mapping.end.toNat)

include documented scannable ordered aligned

/-- A mapping with data is skipped up to its first page with data. -/
theorem skippedAt_eq_zero_iff {index : Nat} {mapping : Mapping} (listed : maps[index]? = some mapping)
    (data : HasData kernel mapping.start.toNat (mapping.end.toNat - mapping.start.toNat)) :
    mapping.start.toNat + skippedAt kernel pagesize maps scratch world index < mapping.end.toNat ∧
      (skippedAt kernel pagesize maps scratch world index = 0 ↔
        HasData kernel mapping.start.toNat kernel.pageSize) := by
  have lead := skippedAt_documented documented scannable ordered aligned listed
  generalize skippedAt kernel pagesize maps scratch world index = skip at lead
  have order := ordered mapping (List.mem_of_getElem? listed)
  have within := lead.within
  obtain ⟨index, inside, readable, nonzero⟩ := data
  have behind : skip ≤ index := by
    by_contra before
    have zero := lead.zeros index (by omega)
    simp only [Kernel.visible, readable, if_true] at zero
    exact nonzero zero
  have less : mapping.start.toNat + skip < mapping.end.toNat := by omega
  refine ⟨less, ?_, ?_⟩
  · rintro rfl
    obtain ⟨position, onPage, shown⟩ := lead.data (by omega)
    rw [Nat.add_zero] at shown
    exact ⟨position, onPage, shown⟩
  · rintro ⟨position, onPage, visible, different⟩
    by_contra positive
    have page := Nat.le_of_dvd (Nat.pos_of_ne_zero positive) lead.pages
    have zero := lead.zeros position (by omega)
    simp only [Kernel.visible, visible, if_true] at zero
    exact different zero

/-- A mapping that leaves a record has data. -/
theorem hasData_of_recordAt {index : Nat} {mapping record : Mapping} (listed : maps[index]? = some mapping)
    (left : recordAt kernel pagesize maps scratch world index = some record) :
    mapping.Selected ∧ HasData kernel mapping.start.toNat (mapping.end.toNat - mapping.start.toNat) ∧
      Kept pagesize.toNat mapping (skippedAt kernel pagesize maps scratch world index) record := by
  obtain ⟨exponent, power⟩ := scannable.power
  obtain ⟨_, reached, kept⟩ := recordAt_kept power ordered
    (by rw [scannable.runtime]; exact aligned) scratch world listed
  have passes := passes_documented documented scannable ordered aligned listed
  obtain ⟨selected, less⟩ := (reached passes).mp (by rw [left]; rfl)
  have lead := skippedAt_documented documented scannable ordered aligned listed
  generalize skippedAt kernel pagesize maps scratch world index = skip at lead less kept
  obtain ⟨position, onPage, readable, nonzero⟩ := lead.data (by omega)
  -- The page with data lies in the mapping, which consists of whole pages.
  have member := List.mem_of_getElem? listed
  have room : skip + kernel.pageSize ≤ mapping.end.toNat - mapping.start.toNat :=
    page_fits (Nat.dvd_sub (aligned mapping member).2 (aligned mapping member).1)
      (Nat.mod_eq_zero_of_dvd lead.pages) (by omega)
  refine ⟨selected, ⟨skip + position, by omega, ?_⟩, kept record left⟩
  rw [← Nat.add_assoc]
  exact ⟨readable, nonzero⟩

/-- The entry of a mapping with data that starts with a page without points elsewhere. -/
theorem entryAt_misattributes {index : Nat} {mapping : Mapping} (listed : maps[index]? = some mapping)
    (offset : pagesize.toNat ∣ mapping.offset.toNat) (selected : mapping.Selected) (backed : mapping.isAnon = false)
    (data : HasData kernel mapping.start.toNat (mapping.end.toNat - mapping.start.toNat))
    (zeros : ¬ HasData kernel mapping.start.toNat kernel.pageSize) :
    ∃ triple, entryAt kernel pagesize maps scratch world index = some triple ∧
      ¬ Attributes pagesize.toNat triple mapping := by
  obtain ⟨less, first⟩ := skippedAt_eq_zero_iff documented scannable ordered aligned listed data
  obtain ⟨exponent, power⟩ := scannable.power
  obtain ⟨_, reached, kept⟩ := recordAt_kept power ordered
    (by rw [scannable.runtime]; exact aligned) scratch world listed
  have passes := passes_documented documented scannable ordered aligned listed
  obtain ⟨record, left⟩ := Option.isSome_iff_exists.mp ((reached passes).mpr ⟨selected, less⟩)
  have comes := kept record left
  have anon : record.isAnon = false := by
    rw [comes.rest]
    exact backed
  refine ⟨(record.start, record.end, record.offset / pagesize), ?_, ?_⟩
  · simp only [entryAt, left, anon, Bool.false_eq_true, if_false]
  · rw [attributes_iff comes offset, first]
    exact zeros

/-- All entries attribute their addresses right exactly if no file-backed mapping with
data starts with a page without. -/
theorem entryAt_attributes_iff (offsets : ∀ mapping ∈ maps, pagesize.toNat ∣ mapping.offset.toNat) :
    (∀ (index : Nat) (mapping : Mapping) (entry : UInt64 × UInt64 × UInt64), maps[index]? = some mapping →
        entryAt kernel pagesize maps scratch world index = some entry →
        Attributes pagesize.toNat entry mapping) ↔
      ∀ mapping ∈ maps, mapping.Selected → mapping.isAnon = false →
        HasData kernel mapping.start.toNat (mapping.end.toNat - mapping.start.toNat) →
        HasData kernel mapping.start.toNat kernel.pageSize := by
  constructor
  · intro right mapping member selected backed data
    by_contra zeros
    obtain ⟨index, inside, rfl⟩ := List.mem_iff_getElem.mp member
    have listed := List.getElem?_eq_getElem inside
    obtain ⟨triple, found, wrong⟩ := entryAt_misattributes documented scannable ordered aligned listed
      (offsets _ member) selected backed data zeros
    exact wrong (right index _ triple listed found)
  · intro first index mapping entry listed found
    unfold entryAt at found
    split at found
    · cases found
    rename_i record left
    split at found
    · cases found
    rename_i backed
    cases found
    obtain ⟨selected, data, kept⟩ := hasData_of_recordAt documented scannable ordered aligned listed left
    have member := List.mem_of_getElem? listed
    have anon : mapping.isAnon = false := by
      have same : record.isAnon = mapping.isAnon := by rw [kept.rest]
      rw [← same]
      exact Bool.eq_false_iff.mpr backed
    rw [attributes_iff kept (offsets mapping member)]
    exact (skippedAt_eq_zero_iff documented scannable ordered aligned listed data).2.mpr
      (first mapping member selected anon data)

end Attribution

/-- A reader of what `write_nt_file` emits for the kept mappings finds their entries. -/
theorem finalized_fileTable {Sink : Type} [Writer Sink] (total : AcceptsEveryByte Sink) (kernel : Kernel)
    (smaps : ProcFile) {maps : List Mapping} (pagesize : UInt64) (scratch : Bytes) (world : World)
    (fits : ∀ mapping ∈ maps, mapping.nameLen < fnameMax) (few : maps.length ≤ maxMappings)
    {machine : Machine Sink} (accepting : total.accepting machine.sink) :
    let final := finalizeMappings kernel smaps maps pagesize scratch world
    ∃ after bytes, writeNtFile (final.maps.take final.kept) pagesize machine = (.ok (), after) ∧
      total.emitted after.sink = total.emitted machine.sink ++ bytes ∧
      fileTable bytes = some ((List.range maps.length).filterMap
        (entryAt kernel pagesize (enrichFromSmaps smaps maps) scratch world)) := by
  intro final
  have front : final.maps.take final.kept =
      (finalizeList kernel pagesize (enrichFromSmaps smaps maps) scratch world).1 :=
    congrArg Prod.fst (finalizeMappings_eq kernel smaps maps pagesize scratch world)
  obtain ⟨count, origin⟩ := finalizeList_origin kernel pagesize (enrichFromSmaps smaps maps) scratch world
  have length := length_enrichFromSmaps smaps maps
  have names : ∀ record ∈ final.maps.take final.kept, record.nameLen < fnameMax := by
    intro record member
    rw [front] at member
    obtain ⟨mapping, listed, _, _, finalized⟩ := origin record member
    obtain ⟨source, present, same⟩ := enriched_origin listed
    have nameLen := congrArg Mapping.nameLen same
    rw [finalizeMapping_nameLen finalized]
    exact nameLen ▸ fits source present
  obtain ⟨after, bytes, ran, emitted, table⟩ := writeNtFile_fileTable total pagesize names
    (by rw [front]; exact Nat.le_trans count (Nat.le_trans (Nat.le_of_eq length) few)) accepting
  refine ⟨after, bytes, ran, emitted, ?_⟩
  rw [table, front, finalizeList_eq, fileBacked_records, length]

/-- The file table against the memory map. On the documented kernel, for all mappings of
whole pages at offsets of whole pages, a reader of what `write_nt_file` emits finds the
entries of the kept file-backed mappings in order, and every entry attributes its
addresses to the file bytes of `/proc/self/maps` exactly if no file-backed mapping that is
dumped starts with a page that is zero or cannot be read. -/
theorem writeNtFile_attributes_iff {Sink : Type} [Writer Sink] (total : AcceptsEveryByte Sink) (kernel : Kernel)
    (documented : Documented kernel) (smaps : ProcFile) (maps : List Mapping) (pagesize : UInt64)
    (scratch : Bytes) (world : World) (scannable : Scannable kernel pagesize scratch world)
    (ordered : ∀ mapping ∈ maps, mapping.start.toNat ≤ mapping.end.toNat)
    (aligned : ∀ mapping ∈ maps, kernel.pageSize ∣ mapping.start.toNat ∧ kernel.pageSize ∣ mapping.end.toNat)
    (offsets : ∀ mapping ∈ maps, kernel.pageSize ∣ mapping.offset.toNat)
    (fits : ∀ mapping ∈ maps, mapping.nameLen < fnameMax) (few : maps.length ≤ maxMappings)
    (machine : Machine Sink) (accepting : total.accepting machine.sink) :
    let enriched := enrichFromSmaps smaps maps
    let final := finalizeMappings kernel smaps maps pagesize scratch world
    let entry := entryAt kernel pagesize enriched scratch world
    ∃ after bytes, writeNtFile (final.maps.take final.kept) pagesize machine = (.ok (), after) ∧
      total.emitted after.sink = total.emitted machine.sink ++ bytes ∧
      fileTable bytes = some ((List.range maps.length).filterMap entry) ∧
      ((∀ (index : Nat) (mapping : Mapping) (triple : UInt64 × UInt64 × UInt64),
          maps[index]? = some mapping → entry index = some triple → Attributes pagesize.toNat triple mapping) ↔
        ∀ mapping ∈ enriched, mapping.Selected → mapping.isAnon = false →
          HasData kernel mapping.start.toNat (mapping.end.toNat - mapping.start.toNat) →
          HasData kernel mapping.start.toNat kernel.pageSize) := by
  intro enriched final entry
  have orderedHere : ∀ mapping ∈ enriched, mapping.start.toNat ≤ mapping.end.toNat :=
    enriched_ranges ordered smaps
  have alignedHere : ∀ mapping ∈ enriched,
      kernel.pageSize ∣ mapping.start.toNat ∧ kernel.pageSize ∣ mapping.end.toNat :=
    @enriched_ranges _ (fun start stop => kernel.pageSize ∣ start ∧ kernel.pageSize ∣ stop) aligned smaps
  have offsetsHere : ∀ mapping ∈ enriched, pagesize.toNat ∣ mapping.offset.toNat := by
    intro mapping member
    obtain ⟨source, listed, same⟩ := enriched_origin member
    have offset := congrArg Mapping.offset same
    rw [scannable.runtime]
    exact offset ▸ offsets source listed
  have length := length_enrichFromSmaps smaps maps
  obtain ⟨after, bytes, ran, emitted, table⟩ :=
    finalized_fileTable total kernel smaps pagesize scratch world fits few accepting
  refine ⟨after, bytes, ran, emitted, table, ?_⟩
  refine Iff.trans ?_ (entryAt_attributes_iff documented scannable orderedHere alignedHere offsetsHere)
  -- Smaps changes neither start nor offset.
  have plainly : ∀ {source mapping : Mapping} {triple : UInt64 × UInt64 × UInt64},
      source.plain = mapping.plain →
        (Attributes pagesize.toNat triple source ↔ Attributes pagesize.toNat triple mapping) := by
    intro source mapping triple same
    have offset := congrArg Mapping.offset same
    have start := congrArg Mapping.start same
    simp only [Mapping.plain] at offset start
    rw [Attributes, Attributes, offset, start]
  constructor
  · intro right index mapping triple listed found
    obtain ⟨source, present, same⟩ := enriched_getElem? listed
    exact (plainly same).mp (right index source triple present found)
  · intro right index source triple present found
    have inside := (List.getElem?_eq_some_iff.mp present).1
    have listed := List.getElem?_eq_getElem (length.symm ▸ inside)
    obtain ⟨other, again, same⟩ := enriched_getElem? listed
    cases present.symm.trans again
    exact (plainly same).mpr (right index _ triple listed found)

theorem pipedWorld_scannable : Scannable faultyKernel 4096 (List.replicate 4096 0) pipedWorld where
  runtime := rfl
  power := ⟨12, rfl⟩
  buffer := by rw [List.length_replicate]; decide
  ready := ⟨⟨rfl, rfl⟩, by decide⟩

/-- A read-only page of a file that holds data. -/
def dataMapping : Mapping :=
  { Mapping.zeroed with start := 0x2000, «end» := 0x3000, offset := 0x5000, flags := ⟨9⟩, nameLen := 1 }

theorem writeNtFile_attributes_iff_sample :
    HasData faultyKernel 0x2000 4096 ∧
      ∀ (index : Nat) (mapping : Mapping) (triple : UInt64 × UInt64 × UInt64),
        [dataMapping][index]? = some mapping →
        entryAt faultyKernel 4096 [dataMapping] (List.replicate 4096 0) pipedWorld index = some triple →
        Attributes 4096 triple mapping := by
  have filled : HasData faultyKernel 0x2000 4096 := ⟨0, by decide, by decide, by decide⟩
  obtain ⟨_, _, _, _, _, attributes⟩ := writeNtFile_attributes_iff SimpleWriter.acceptsEveryByte faultyKernel
    faultyKernel_documented noSmaps [dataMapping] 4096 (List.replicate 4096 0) pipedWorld pipedWorld_scannable
    (by decide) (by decide) (by decide) (by decide) (by decide) sampleMachine sampleMachine_accepting
  refine ⟨filled, attributes.mpr ?_⟩
  intro mapping member _ _ _
  rw [List.mem_singleton.mp member]
  exact filled

/-- The mapping of the file with a zero page in front. -/
def zeroLedMapping : Mapping := { dataMapping with start := 0x1000, offset := 0x4000 }

/-- The entry that a reader finds for a mapping that starts with a zero page points to the
wrong file byte. -/
theorem writeNtFile_misattributes :
    let final := finalizeMappings faultyKernel noSmaps [zeroLedMapping] 4096 (List.replicate 4096 0) pipedWorld
    ∃ after bytes triple,
      writeNtFile (final.maps.take final.kept) 4096 sampleMachine = (.ok (), after) ∧
      after.sink.fd.accepted = bytes ∧ fileTable bytes = some [triple] ∧
      ¬ Attributes 4096 triple zeroLedMapping := by
  obtain ⟨triple, found, wrong⟩ := @entryAt_misattributes faultyKernel 4096 [zeroLedMapping]
    (List.replicate 4096 0) pipedWorld faultyKernel_documented pipedWorld_scannable (by decide) (by decide)
    0 zeroLedMapping rfl (by decide) ⟨rfl, rfl, rfl⟩ rfl ⟨0x1000, by decide, by decide, by decide⟩ (by
      rintro ⟨index, inside, _, nonzero⟩
      apply nonzero
      have below : 0x1000 + index < 0x2000 := by
        have page : index < 0x1000 := inside
        omega
      exact if_pos below)
  obtain ⟨after, bytes, ran, emitted, table⟩ := @finalized_fileTable _ _ SimpleWriter.acceptsEveryByte
    faultyKernel noSmaps [zeroLedMapping] 4096 (List.replicate 4096 0) pipedWorld (by decide) (by decide)
    sampleMachine sampleMachine_accepting
  have single : (List.range [zeroLedMapping].length).filterMap (entryAt faultyKernel 4096
      (enrichFromSmaps noSmaps [zeroLedMapping]) (List.replicate 4096 0) pipedWorld) = [triple] :=
    List.filterMap_cons_some found
  rw [single] at table
  exact ⟨after, bytes, triple, ran, emitted, table, wrong⟩

end Corus.Dump
