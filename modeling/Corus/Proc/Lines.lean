import Corus.Proc.Kept
import Corus.Proc.MapsFormat

/-!
# From lines to kept entries

What `parse_self_maps` and `finalize_mappings` together make of a line of the maps,
whatever the memory and the smaps file hold.
-/

namespace Corus.Proc

open Corus.Logical Corus.Platform Corus.Elf

/-- The entry that a mapping leaves is no device and has its access bits. -/
theorem recordAt_some {kernel : Kernel} {smaps : ProcFile} {maps : List Mapping} {pagesize : UInt64}
    {scratch : Bytes} {world : World} {index : Nat} {record : Mapping}
    (kept : recordAt kernel pagesize (enrichFromSmaps smaps maps) scratch world index = some record) :
    ∃ mapping, maps[index]? = some mapping ∧ mapping.isDevice = false ∧
      record.flags = mapping.flags.elfAccessBits := by
  unfold recordAt at kept
  split at kept
  · cases kept
  · rename_i enriched listed
    obtain ⟨mapping, here, same⟩ := enriched_getElem? listed
    obtain ⟨selected, _, _, rest⟩ := finalizeMapping_some kept
    have flags := congrArg Mapping.flags same
    have isDevice := congrArg Mapping.isDevice same
    simp only [Mapping.plain] at flags isDevice
    refine ⟨mapping, here, isDevice.trans selected.2.1, ?_⟩
    rw [rest, flags]
    rfl

/-! ## Permissions -/

/-- The `PF_*` bits of the letters of a line. -/
def Vma.pfBits (vma : Vma) : UInt32 :=
  (if vma.read then pfR else 0) ||| (if vma.write then pfW else 0) ||| (if vma.execute then pfX else 0)

/-- The permissions of a line are decoded faithfully: the stored ones say what its letters
say, and so do those of the entry that is kept of it. -/
structure Decoded (vma : Vma) (perms : Perms) (kept : Option Mapping) : Prop where
  readable : perms.readable = true ↔ vma.perms[0]? = some 0x72
  writable : perms.writable = true ↔ vma.perms[1]? = some 0x77
  executable : perms.executable = true ↔ vma.perms[2]? = some 0x78
  isPrivate : perms.isPrivate = true ↔ vma.perms[3]? = some 0x70
  finalized : ∀ record ∈ kept, record.pfFlags = vma.pfBits

/-- The letters of the permission field. -/
theorem perms_letters (vma : Vma) :
    (vma.perms[0]? = some 0x72 ↔ vma.read = true) ∧ (vma.perms[1]? = some 0x77 ↔ vma.write = true) ∧
      (vma.perms[2]? = some 0x78 ↔ vma.execute = true) ∧ (vma.perms[3]? = some 0x70 ↔ vma.shared = false) := by
  unfold Vma.perms
  cases vma.read <;> cases vma.write <;> cases vma.execute <;> cases vma.shared <;> decide

theorem pfFlags_rawPerms (vma : Vma) {record : Mapping} (access : record.flags = vma.rawPerms.elfAccessBits) :
    record.pfFlags = vma.pfBits := by
  unfold Mapping.pfFlags
  rw [access]
  unfold Vma.rawPerms Vma.perms Vma.pfBits
  cases vma.read <;> cases vma.write <;> cases vma.execute <;> cases vma.shared <;> decide

/-- The stored permissions of a line are faithful exactly if it is not shared. -/
theorem decoded_iff (vma : Vma) {kept : Option Mapping}
    (finalized : ∀ record ∈ kept, record.flags = vma.rawPerms.elfAccessBits) :
    Decoded vma vma.rawPerms kept ↔ vma.shared = false := by
  obtain ⟨read, write, execute, set⟩ := rawPerms_bits vma
  obtain ⟨first, second, third, fourth⟩ := perms_letters vma
  constructor
  · intro decoded
    exact fourth.mp (decoded.isPrivate.mp set)
  · intro notShared
    refine ⟨by rw [read, first], by rw [write, second], by rw [execute, third], ?_, ?_⟩
    · exact ⟨fun _ => fourth.mpr notShared, fun _ => set⟩
    · intro record member
      exact pfFlags_rawPerms vma (finalized record member)

/-- The permission letters of every line are decoded faithfully, in the stored record and
in the entry that is kept of it, exactly if the line is not one of shared memory. -/
theorem parseSelfMaps_decodes_iff (vmas : List Vma) {file : ProcFile} (text : file.text = mapsText vmas)
    (opens : file.opening.result = .ok ()) (reliable : file.Reliable)
    (slots : Nat) (kernel : Kernel) (smaps : ProcFile) (pagesize : UInt64) (scratch : Bytes) (world : World) :
    ∃ mappings, parseSelfMaps file slots = .ok mappings ∧ mappings.length = min vmas.length slots ∧
      let final := finalizeMappings kernel smaps mappings pagesize scratch world
      let kept := recordAt kernel pagesize (enrichFromSmaps smaps mappings) scratch world
      final.maps.take final.kept = (List.range mappings.length).filterMap kept ∧
      ∀ (index : Nat) vma mapping, vmas[index]? = some vma → mappings[index]? = some mapping →
        (Decoded vma mapping.flags (kept index) ↔ vma.shared = false) := by
  refine ⟨_, parseSelfMaps_mapsText text opens reliable slots,
    by rw [List.length_take, List.length_map, Nat.min_comm],
    finalizeMappings_records kernel smaps _ pagesize scratch world, ?_⟩
  intro index vma mapping here stored
  obtain ⟨other, there, rfl⟩ := record_getElem? stored
  obtain rfl : vma = other := Option.some.inj (here.symm.trans there)
  refine decoded_iff vma ?_
  intro record member
  obtain ⟨source, listed, _, access⟩ := recordAt_some member
  obtain rfl : vma.record = source := Option.some.inj (stored.symm.trans listed)
  exact access

/-- Memory without zeros, which can all be read. -/
def filledKernel : Kernel where
  pageSize := 4096
  memory _ := 7
  readablePage _ := true
  pipe2 _ := .ok 4096
  getPipeSize _ := none
  setPipeSize _ _ := .error .eperm
  statusFlags _ := none
  probe _ _ count := ⟨0, ⟨.ok count, 0⟩⟩
  pipeRead _ := ⟨0, .ok 4096⟩

theorem parseSelfMaps_decodes_iff_sample :
    ∃ mapping, parseSelfMaps (procFile (mapsText [sampleVma]) 7) 1 = .ok [mapping] ∧
      Decoded sampleVma mapping.flags (recordAt filledKernel 4096 (enrichFromSmaps (procFile [] 1) [mapping])
        (List.replicate 4096 0) pipedWorld 0) := by
  obtain ⟨mappings, parsed, count, _, decodes⟩ := @parseSelfMaps_decodes_iff [sampleVma]
    (procFile (mapsText [sampleVma]) 7) rfl rfl (fun _ => ⟨7, rfl⟩) 1 filledKernel (procFile [] 1) 4096
    (List.replicate 4096 0) pipedWorld
  obtain ⟨mapping, rfl⟩ := List.length_eq_one_iff.mp count
  exact ⟨mapping, parsed, (decodes 0 sampleVma mapping rfl rfl).mpr rfl⟩

/-- An area that is shared with other processes. -/
def sharedVma : Vma := { sampleVma with shared := true }

/-- A shared area is stored as a private one. -/
theorem parseSelfMaps_misdecodes :
    ∃ mapping, parseSelfMaps (procFile (mapsText [sharedVma]) 7) 1 = .ok [mapping] ∧
      sharedVma.perms[3]? = some 0x73 ∧
      ¬ (mapping.flags.isPrivate = true ↔ sharedVma.perms[3]? = some 0x70) := by
  obtain ⟨_, _, _, set⟩ := rawPerms_bits sharedVma
  refine ⟨sharedVma.record, parseSelfMaps_procFile [sharedVma] 7 1, rfl, ?_⟩
  intro faithful
  exact absurd (faithful.mp set) (by decide)

/-! ## Shared anonymous memory -/

/-- `/dev/zero (deleted)`, the name that the kernel prints for shared anonymous memory. -/
def devZeroDeleted : Bytes := devZero ++ [0x20, 0x28, 0x64, 0x65, 0x6c, 0x65, 0x74, 0x65, 0x64, 0x29]

/-- What is wanted of a readable line: an entry, and all of it written if it is writable. -/
def Dumped (vma : Vma) (kept : Option Mapping) : Prop :=
  ∃ record, kept = some record ∧
    (vma.write = true → record.writeSize.toNat = record.end.toNat - record.start.toNat)

theorem isDevice_devZeroDeleted {vma : Vma} (name : vma.nameBytes = devZeroDeleted) :
    vma.record.isDevice = true := by
  have path : vma.path = devZeroDeleted := by
    unfold Vma.path
    rw [name]
    decide
  rw [(record_reflects vma).device, path]
  exact ⟨List.prefix_append_of_prefix (List.prefix_append ..), by decide⟩

/-- The line of shared anonymous memory leaves no entry. -/
theorem recordAt_devZeroDeleted {vmas : List Vma} {index : Nat} {vma : Vma} (here : vmas[index]? = some vma)
    (name : vma.nameBytes = devZeroDeleted) (slots : Nat) (kernel : Kernel) (smaps : ProcFile) (pagesize : UInt64)
    (scratch : Bytes) (world : World) :
    recordAt kernel pagesize (enrichFromSmaps smaps ((vmas.map Vma.record).take slots)) scratch world index = none := by
  cases kept : recordAt kernel pagesize (enrichFromSmaps smaps ((vmas.map Vma.record).take slots)) scratch world
    index with
  | none => rfl
  | some record =>
      obtain ⟨source, listed, device, _⟩ := recordAt_some kept
      obtain ⟨other, there, rfl⟩ := record_getElem? listed
      obtain rfl : vma = other := Option.some.inj (here.symm.trans there)
      rw [isDevice_devZeroDeleted name] at device
      cases device

/-- Shared anonymous memory is never dumped: whatever its range, permissions, offset and
inode, whatever the smaps file says about it and whatever it holds, its line leaves no
entry. -/
theorem sharedAnonymous_lost (vmas : List Vma) {file : ProcFile} (text : file.text = mapsText vmas)
    (opens : file.opening.result = .ok ()) (reliable : file.Reliable)
    (slots : Nat) (kernel : Kernel) (smaps : ProcFile) (pagesize : UInt64) (scratch : Bytes) (world : World)
    (index : Nat) {vma : Vma} (here : vmas[index]? = some vma) (name : vma.nameBytes = devZeroDeleted) :
    ∃ mappings, parseSelfMaps file slots = .ok mappings ∧
      let final := finalizeMappings kernel smaps mappings pagesize scratch world
      let kept := recordAt kernel pagesize (enrichFromSmaps smaps mappings) scratch world
      final.maps.take final.kept = (List.range mappings.length).filterMap kept ∧
      kept index = none ∧ ¬ Dumped vma (kept index) := by
  have lost := recordAt_devZeroDeleted here name slots kernel smaps pagesize scratch world
  refine ⟨_, parseSelfMaps_mapsText text opens reliable slots,
    finalizeMappings_records kernel smaps _ pagesize scratch world, lost, ?_⟩
  rintro ⟨record, kept, _⟩
  cases lost.symm.trans kept

/-- Two pages of shared anonymous memory. -/
def sharedMemoryVma : Vma where
  start := 0x7f0000001000
  stop := 0x7f0000003000
  offset := 0
  read := true
  write := true
  execute := false
  shared := true
  major := 0
  minor := 1
  inode := 1027
  blanks := 20
  name := some ⟨devZeroDeleted, by decide, by decide, by decide⟩

/-- Its section in the smaps, with `VmFlags: rd wr sh`. -/
def sharedMemorySmaps : Bytes :=
  sharedMemoryVma.line ++ newline :: (vmFlagsField ++
    [0x20, 0x72, 0x64, 0x20, 0x77, 0x72, 0x20, 0x73, 0x68, newline])

theorem sharedAnonymous_lost_sample :
    ∃ mappings, parseSelfMaps (procFile (mapsText [sharedMemoryVma]) 7) 1 = .ok mappings ∧
      ¬ Dumped sharedMemoryVma (recordAt filledKernel 4096 (enrichFromSmaps (procFile sharedMemorySmaps 7) mappings)
        (List.replicate 4096 0) pipedWorld 0) := by
  obtain ⟨mappings, parsed, _, _, lost⟩ := @sharedAnonymous_lost [sharedMemoryVma]
    (procFile (mapsText [sharedMemoryVma]) 7) rfl rfl (fun _ => ⟨7, rfl⟩) 1 filledKernel
    (procFile sharedMemorySmaps 7) 4096 (List.replicate 4096 0) pipedWorld 0
    sharedMemoryVma rfl rfl
  exact ⟨mappings, parsed, lost⟩

/-- Memory that is shared, writable and filled, in a file with no other line, leaves no entry
at all. -/
theorem sharedAnonymous_not_kept :
    sharedMemoryVma.read = true ∧ sharedMemoryVma.write = true ∧ (∀ address, filledKernel.memory address ≠ 0) ∧
      ∃ mappings, parseSelfMaps (procFile (mapsText [sharedMemoryVma]) 7) 1 = .ok mappings ∧
        let final := finalizeMappings filledKernel (procFile sharedMemorySmaps 7) mappings 4096
          (List.replicate 4096 0) pipedWorld
        final.maps.take final.kept = [] := by
  refine ⟨rfl, rfl, fun _ => (by decide : (7 : Byte) ≠ 0), _, parseSelfMaps_procFile [sharedMemoryVma] 7 1, ?_⟩
  have lost := @recordAt_devZeroDeleted [sharedMemoryVma] 0 sharedMemoryVma rfl rfl 1 filledKernel
    (procFile sharedMemorySmaps 7) 4096 (List.replicate 4096 0) pipedWorld
  simp only [finalizeMappings_records]
  exact List.filterMap_cons_none lost

end Corus.Proc
