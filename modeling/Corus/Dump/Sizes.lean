import Corus.Dump.Written
import Corus.Output.Budget

/-!
# How many bytes a dump writes

A successful dump writes the whole core or exactly as many bytes as its limit. With
priorities the segments are trimmed from an estimate of the headers that leaves out
their padding: that never makes the file too short, but the segments that are
announced may reach past its end.
-/

namespace Corus.Dump

open Corus.Logical Corus.Platform Corus.Output Corus.Memory Corus.Proc Corus.Elf

section Written

variable {arch : Arch} {kernel : Kernel} {proc : ProcFs} {cap : CapturedDump arch} {opts : DumpOptions arch}
  {fd : OutFd} {world after : World} {mappings : List Mapping}

/-- The core that is written for the mappings selected in a world, up to what the
kernel shows of the segments. -/
def CoreOf (cap : CapturedDump arch) (opts : DumpOptions arch) (mappings : List Mapping) (core : Bytes) : Prop :=
  ∃ more, core = (coreInputs cap opts (prioritized cap opts mappings)).headerBytes ++ more ∧
    more.length = (segmentSizes (prioritized cap opts mappings)).sum

theorem CoreOf.length {core : Bytes} (isCore : CoreOf cap opts mappings core)
    (storable : Storable mappings) :
    core.length = (coreInputs cap opts (prioritized cap opts mappings)).fileSize := by
  obtain ⟨more, rfl, size⟩ := isCore
  rw [List.length_append, CoreInputs.length_headerBytes _ (storable.limited cap opts).nameLen, size]
  rfl

/-- What a run on an empty descriptor that takes everything leaves is a beginning
of a core, and all of it if it returns. -/
theorem serializeDump_core (selected : selectMappings kernel proc cap world = (.ok mappings, after)) :
    let run := serializeDump kernel proc cap opts (⟨world, ⟨freshFd⟩⟩ : Machine SimpleWriter)
    ∃ core, CoreOf cap opts mappings core ∧ run.2.sink.fd.accepted <+: core ∧
      (run.1 = .ok () → run.2.sink.fd.accepted = core) := by
  intro run
  have runs := serializeDump_selected kernel proc cap opts
    (show (⟨world, ⟨freshFd⟩⟩ : Machine SimpleWriter).sink.fd.Willing from freshFd_willing) rfl selected
  -- Where the run stopped early, the rest of the core is anything of the right size.
  let pad := List.replicate (segmentSizes (prioritized cap opts mappings)).sum (0 : Byte)
  rcases runs with ⟨empty, failed⟩ | ⟨more, headers, within, whole⟩
  · refine ⟨(coreInputs cap opts (prioritized cap opts mappings)).headerBytes ++ pad,
      ⟨pad, rfl, List.length_replicate ..⟩, ?_, fun ok => absurd ok failed⟩
    rw [show run.2.sink.fd.accepted = [] from empty]
    exact List.nil_prefix
  · refine ⟨(coreInputs cap opts (prioritized cap opts mappings)).headerBytes ++ (more ++ pad.drop more.length),
      ⟨_, rfl, ?_⟩, ?_, ?_⟩
    · rw [List.length_append, List.length_drop, List.length_replicate]
      exact Nat.add_sub_cancel' within
    · rw [show run.2.sink.fd.accepted = _ from headers, ← List.append_assoc]
      exact List.prefix_append ..
    · intro ok
      have all : pad.drop more.length = [] := by
        apply List.drop_eq_nil_of_le
        rw [List.length_replicate]
        exact Nat.le_of_eq (whole ok).symm
      rw [all, List.append_nil]
      exact headers

/-- A dump that succeeds without a limit has written a core. -/
theorem runSerialize_unlimited_core (unlimited : opts.maxLength = none)
    (success : (runSerialize kernel proc cap opts fd world).success = true) :
    ∃ mappings after core, selectMappings kernel proc cap world = (.ok mappings, after) ∧
      CoreOf cap opts mappings core ∧
      (runSerialize kernel proc cap opts fd world).fd.accepted = fd.accepted ++ core := by
  obtain ⟨left, succeeds⟩ := runSerialize_none kernel proc cap opts fd world unlimited
  have returned := succeeds.mp success
  have follows := serializeDump_follows (interruption_carries SimpleWriter.passesPrefixes fd.accepted)
    kernel proc cap opts opts fun _ => rfl
  rcases follows.tracks ⟨world, ⟨freshFd⟩⟩ ⟨world, ⟨fd⟩⟩ ⟨freshFd_willing, rfl, (List.append_nil _).symm⟩ with
    ⟨same, _, _, emitted⟩ | ⟨⟨failure, failed⟩, _⟩
  · rw [returned] at same
    rcases selected : selectMappings kernel proc cap world with ⟨error | mappings, after⟩
    · have failed : serializeDump kernel proc cap opts (⟨world, ⟨freshFd⟩⟩ : Machine SimpleWriter) =
          (.error error, _) := Action.bind_of_error (onWorld_of_eq selected)
      rw [failed] at same
      cases same
    · obtain ⟨core, isCore, _, whole⟩ := @serializeDump_core _ _ _ _ opts _ _ _ selected
      refine ⟨mappings, after, core, rfl, isCore, ?_⟩
      rw [left, ← whole same.symm]
      exact emitted
  · rw [returned] at failed
    cases failed

/-- A dump that succeeds with a limit has written a core or as many bytes of it as
the limit. -/
theorem runSerialize_limited_core {limit : Nat} (limited : opts.maxLength = some limit)
    (selected : selectMappings kernel proc cap world = (.ok mappings, after))
    (success : (runSerialize kernel proc cap opts fd world).success = true) :
    ∃ core, CoreOf cap opts mappings core ∧
      (runSerialize kernel proc cap opts fd world).fd.accepted = fd.accepted ++ core.take limit := by
  obtain ⟨left, succeeds⟩ := runSerialize_some kernel proc cap opts fd world limited
  obtain ⟨core, isCore, begins, whole⟩ := @serializeDump_core _ _ _ _ opts _ _ _ selected
  have follows := serializeDump_follows (@budget_carries fd.accepted limit) kernel proc cap opts opts fun _ => rfl
  refine ⟨core, isCore, ?_⟩
  rw [left]
  have cutAt : ∀ {part : Bytes}, part <+: core → part.length = limit → part = core.take limit := by
    rintro part ⟨rest, rfl⟩ length
    rw [List.take_append_of_le_length (Nat.le_of_eq length.symm), ← length, List.take_length]
  rcases follows.tracks ⟨world, ⟨freshFd⟩⟩ ⟨world, ⟨fd, limit⟩⟩
      ⟨freshFd_willing, rfl, (List.append_nil _).symm, Nat.zero_add _⟩ with
    ⟨same, _, _, emitted, budget⟩ | ⟨⟨failure, failed⟩, gaveUp⟩
  · rw [emitted]
    congr 1
    rcases succeeds.mp success with returned | ⟨_, spent⟩
    · rw [whole (same.symm.trans returned)] at budget ⊢
      rw [List.take_of_length_le (by omega)]
    · exact cutAt begins (by rw [spent] at budget; exact budget)
  · rcases succeeds.mp success with returned | ⟨_, spent⟩
    · rw [returned] at failed
      cases failed
    · obtain ⟨part, leads, accepted, length⟩ := gaveUp spent
      rw [accepted, cutAt (leads.trans begins) length]

end Written

/-- Exact size. What a dump with priorities that succeeds has written, on whatever
descriptor, is as long as the limit or as the core without a limit, whichever is
less. The estimate never exceeds the true size of the headers, and trimming never
makes the core shorter than the limit unless it was shorter before. -/
theorem runSerialize_prioritized_size {arch : Arch} (kernel : Kernel) (proc : ProcFs) (cap : CapturedDump arch)
    (opts : DumpOptions arch) (limit : Nat) (fd : OutFd) (world : World)
    (priorities : opts.prioritize = true) (limited : opts.maxLength = some limit)
    (success : (runSerialize kernel proc cap opts fd world).success = true) :
    ∃ written, (runSerialize kernel proc cap opts fd world).fd.accepted = fd.accepted ++ written ∧
      (∀ fullFd : OutFd,
        (runSerialize kernel proc cap { opts with maxLength := none } fullFd world).success = true →
        ∃ full, (runSerialize kernel proc cap { opts with maxLength := none } fullFd world).fd.accepted =
            fullFd.accepted ++ full ∧ written.length = min limit full.length) ∧
      ∀ mappings after, selectMappings kernel proc cap world = (.ok mappings, after) →
        written.length = min limit (coreInputs cap opts mappings).fileSize ∧
        estimateHeaderSize arch cap.threads.length cap.auxv.length mappings opts.notes ≤
          (coreInputs cap opts mappings).segmentsStart ∧
        (limit ≤ (coreInputs cap opts mappings).fileSize →
          limit ≤ (coreInputs cap opts (prioritized cap opts mappings)).fileSize) := by
  obtain ⟨written, accepted⟩ : ∃ written,
      (runSerialize kernel proc cap opts fd world).fd.accepted = fd.accepted ++ written := by
    obtain ⟨file, accepted, _⟩ := runSerialize_begins kernel proc cap opts fd world
    exact ⟨file, accepted⟩
  have selection : ∀ mappings after, selectMappings kernel proc cap world = (.ok mappings, after) →
      written.length = min limit (coreInputs cap opts mappings).fileSize ∧
      estimateHeaderSize arch cap.threads.length cap.auxv.length mappings opts.notes ≤
        (coreInputs cap opts mappings).segmentsStart ∧
      (limit ≤ (coreInputs cap opts mappings).fileSize →
        limit ≤ (coreInputs cap opts (prioritized cap opts mappings)).fileSize) := by
    intro mappings after selected
    obtain ⟨core, isCore, output⟩ := runSerialize_limited_core limited selected success
    have size := isCore.length (selectMappings_storable selected)
    have trimmed := fileSize_prioritized cap opts mappings priorities limited
    have estimate := estimateHeaderSize_eq cap opts mappings
    have length : written.length = min limit core.length := by
      rw [List.append_cancel_left (accepted.symm.trans output), List.length_take]
    have full : (coreInputs cap opts mappings).fileSize =
        (coreInputs cap opts mappings).segmentsStart + (segmentSizes mappings).sum := rfl
    exact ⟨by omega, by omega, by omega⟩
  refine ⟨written, accepted, ?_, selection⟩
  intro fullFd fullSuccess
  obtain ⟨mappings, after, core, selected, isCore, output⟩ := runSerialize_unlimited_core rfl fullSuccess
  refine ⟨core, output, ?_⟩
  have size := isCore.length (selectMappings_storable selected)
  rw [prioritized_of_unlimited rfl] at size
  rw [size]
  exact (selection mappings after selected).1

/-! ## Segments inside the file -/

/-- All bytes that a program header announces are in the file. -/
def Inside (phdr : Phdr) (file : Bytes) : Prop :=
  ∀ position, phdr.pOffset.toNat ≤ position → position < phdr.fileEnd → position < file.length

/-- Of a file that holds the headers of a core and is cut at a limit, all load
segments lie inside exactly if the core fits the limit. -/
theorem inside_iff_fileSize_le {arch : Arch} {inputs : CoreInputs arch} {file : Bytes} {limit : Nat}
    (bounded : limit < 2 ^ 64) (headers : inputs.segmentsStart ≤ limit)
    (length : file.length = min limit inputs.fileSize) :
    (∀ phdr ∈ inputs.phdrs, phdr.pType = ptLoad → Inside phdr file) ↔ inputs.fileSize ≤ limit := by
  have header : ∀ index mapping, inputs.mappings[index]? = some mapping →
      loadPhdr inputs.pagesize (inputs.segmentsStart + chunkOffset (segmentSizes inputs.mappings) index) mapping ∈
        inputs.phdrs := by
    intro index mapping listed
    apply List.mem_cons_of_mem
    apply List.mem_of_getElem? (i := index)
    rw [CoreInputs.loadPhdrs, loadPhdrsFrom_getElem?, listed, Option.map_some]
  constructor
  · intro inside
    by_contra exceeds
    -- The segment around the limit starts in the file and ends behind it.
    obtain ⟨index, size, found, low, high⟩ := exists_chunk_around headers
      (show limit < inputs.segmentsStart + (segmentSizes inputs.mappings).sum from Nat.lt_of_not_le exceeds)
    rw [segmentSizes, List.getElem?_map, Option.map_eq_some_iff] at found
    obtain ⟨mapping, listed, rfl⟩ := found
    have offset : (UInt64.ofNat (inputs.segmentsStart +
        chunkOffset (segmentSizes inputs.mappings) index)).toNat =
          inputs.segmentsStart + chunkOffset (segmentSizes inputs.mappings) index := by
      rw [UInt64.toNat_ofNat']
      exact Nat.mod_eq_of_lt (by omega)
    have within := inside _ (header index mapping listed) rfl limit
      (by simp only [loadPhdr]; rw [offset]; exact low)
      (by simp only [Phdr.fileEnd, loadPhdr]; rw [offset]; exact high)
    omega
  · intro fits phdr member isLoad position _ below
    have notNote : phdr ∈ inputs.loadPhdrs := by
      rcases List.mem_cons.mp member with rfl | load
      · exact absurd isLoad (show ptNote ≠ ptLoad by decide)
      · exact load
    obtain ⟨index, found⟩ := List.getElem?_of_mem notNote
    rw [CoreInputs.loadPhdrs, loadPhdrsFrom_getElem?, Option.map_eq_some_iff] at found
    obtain ⟨mapping, listed, rfl⟩ := found
    have size : (segmentSizes inputs.mappings)[index]? = some mapping.writeSize.toNat := by
      simp [segmentSizes, listed]
    have ends := chunkOffset_le_sum (segmentSizes inputs.mappings) (index + 1)
    rw [chunkOffset_succ size] at ends
    have wraps := Nat.mod_le (inputs.segmentsStart + chunkOffset (segmentSizes inputs.mappings) index) (2 ^ 64)
    simp only [Phdr.fileEnd, loadPhdr, UInt64.toNat_ofNat'] at below
    have total : inputs.fileSize = inputs.segmentsStart + (segmentSizes inputs.mappings).sum := rfl
    omega

/-- What a dump leaves when its limit has room for the headers: a file that a
reader can decode, cut at the limit. -/
theorem runSerialize_limited_decodes {arch : Arch} {kernel : Kernel} {proc : ProcFs} {cap : CapturedDump arch}
    {opts : DumpOptions arch} {limit : Nat} {fd : OutFd} {world after : World} {mappings : List Mapping}
    (limited : opts.maxLength = some limit) (empty : fd.accepted = [])
    (selected : selectMappings kernel proc cap world = (.ok mappings, after))
    (headers : (coreInputs cap opts mappings).segmentsStart ≤ limit)
    (success : (runSerialize kernel proc cap opts fd world).success = true) :
    let inputs := coreInputs cap opts (prioritized cap opts mappings)
    let file := (runSerialize kernel proc cap opts fd world).fd.accepted
    decodeCore file = some ⟨inputs.ehdr, inputs.phdrs⟩ ∧ file.length = min limit inputs.fileSize := by
  intro inputs file
  obtain ⟨core, isCore, output⟩ := runSerialize_limited_core limited selected success
  have storable := selectMappings_storable selected
  have size := isCore.length storable
  rw [empty, List.nil_append] at output
  obtain ⟨more, rfl, _⟩ := isCore
  have complete : inputs.headerBytes.length ≤ limit := by
    rw [CoreInputs.length_headerBytes _ (storable.limited cap opts).nameLen,
      (segmentsStart_prioritized cap opts mappings).1]
    exact headers
  constructor
  · rw [show file = _ from output, List.take_append, List.take_of_length_le complete]
    exact CoreInputs.decodeCore_headerBytes (Nat.le_trans (storable.limited cap opts).count (by decide)) _
  · rw [show file = _ from output, List.length_take, size]

/-- Self-consistency under priorities. In a file that a dump with priorities wrote,
with a limit that has room for the headers and their padding, every load segment
lies inside the file exactly if there is no padding, or nothing had to be trimmed
because the whole core fits the limit. -/
theorem prioritized_inside_iff {arch : Arch} (kernel : Kernel) (proc : ProcFs) (cap : CapturedDump arch)
    (opts : DumpOptions arch) (limit : Nat) (fd : OutFd) (world after : World) (mappings : List Mapping)
    (priorities : opts.prioritize = true) (limited : opts.maxLength = some limit) (bounded : limit < 2 ^ 64)
    (empty : fd.accepted = []) (selected : selectMappings kernel proc cap world = (.ok mappings, after))
    (headers : (coreInputs cap opts mappings).segmentsStart ≤ limit)
    (success : (runSerialize kernel proc cap opts fd world).success = true) :
    ∃ core, decodeCore (runSerialize kernel proc cap opts fd world).fd.accepted = some core ∧
      (runSerialize kernel proc cap opts fd world).fd.accepted.length ≤ limit ∧
      ((∀ phdr ∈ core.phdrs, phdr.pType = ptLoad →
          Inside phdr (runSerialize kernel proc cap opts fd world).fd.accepted) ↔
        (coreInputs cap opts mappings).noteAlign = 0 ∨ (coreInputs cap opts mappings).fileSize ≤ limit) := by
  obtain ⟨decoded, length⟩ := runSerialize_limited_decodes limited empty selected headers success
  have start := (segmentsStart_prioritized cap opts mappings).1
  refine ⟨_, decoded, by omega, (inside_iff_fileSize_le bounded (by rw [start]; exact headers) length).trans ?_⟩
  have trimmed := fileSize_prioritized cap opts mappings priorities limited
  have estimate := estimateHeaderSize_eq cap opts mappings
  have full : (coreInputs cap opts mappings).fileSize =
      (coreInputs cap opts mappings).segmentsStart + (segmentSizes mappings).sum := rfl
  omega

/-- A heap of eight pages and a stack of one, all of them written to. -/
def heapMaps : ProcFile where
  opening := ⟨0, .ok ()⟩
  text := [0x34, 0x30, 0x30, 0x30, 0x2d, 0x63, 0x30, 0x30, 0x30, 0x20, 0x72, 0x77, 0x2d, 0x70, 0x20,
    0x30, 0x20, 0x30, 0x30, 0x3a, 0x30, 0x30, 0x20, 0x30, 0x0a,
    0x64, 0x30, 0x30, 0x30, 0x2d, 0x65, 0x30, 0x30, 0x30, 0x20, 0x72, 0x77, 0x2d, 0x70, 0x20,
    0x30, 0x20, 0x30, 0x30, 0x3a, 0x30, 0x30, 0x20, 0x30, 0x0a]
  read _ := ⟨0, .ok 64⟩

def heapProc : ProcFs := ⟨heapMaps, { heapMaps with opening := ⟨0, .error .eperm⟩ }⟩
def heapParsed : List Mapping := (parseSelfMaps heapProc.maps maxMappings).toOption.getD []

/-- A kernel that delivers every page at once. -/
def heapKernel : Kernel :=
  { faultyKernel with
    memory := fun _ => 7
    readablePage := fun _ => true
    probe := fun _ _ count => ⟨0, ⟨.ok count, 0⟩⟩
    pipeRead := fun _ => ⟨0, .ok 4096⟩ }

/-- One thread. -/
def heapCapture : CapturedDump .x86_64 := ⟨[⟨7, Regs.zeroed, FpRegs.zeroed⟩], 0, [], Prpsinfo.zeroed, 7⟩

/-- A limit of 20000 bytes, of which the headers and their padding take 4096. -/
def heapOptions : DumpOptions .x86_64 := { sampleOptions with maxLength := some 20000, prioritize := true }

def heapKept : List Mapping :=
  (selectMappings heapKernel heapProc heapCapture sampleMachine.world).1.toOption.getD []

/-- What the dump leaves. -/
def heapDump : Serialized :=
  runSerialize heapKernel heapProc heapCapture heapOptions freshFd sampleMachine.world

theorem heapKernel_documented : Documented heapKernel where
  pages := by decide
  pipe2 _ := ⟨4096, rfl, by decide⟩
  getPipeSize _ := rfl
  setPipeSize _ _ _ grown := by cases grown
  statusFlags _ := rfl
  probeReadable _ _ _ _ := rfl
  probeFaulted _ _ _ faulted := absurd (fun _ _ => rfl) faulted
  pipeRead _ := ⟨4096, rfl⟩

theorem heapCapture_served : Served heapKernel heapProc heapCapture heapParsed where
  documented := heapKernel_documented
  pagesize := rfl
  scratch := by decide
  parses := by
    have parsed : (parseSelfMaps heapProc.maps maxMappings).toOption.isSome = true := by decide +kernel
    unfold heapParsed
    cases parse : parseSelfMaps heapProc.maps maxMappings with
    | error failure =>
        rw [parse] at parsed
        cases parsed
    | ok mappings => rfl
  regular := ⟨by decide +kernel, by decide +kernel, by
    have pair : (heapParsed.map Mapping.range) = [(0x4000, 0xc000), (0xd000, 0xe000)] := by decide +kernel
    rw [pair]
    exact List.pairwise_pair.mpr (by unfold Apart; decide)⟩

theorem heapKept_selected : ∃ after,
    selectMappings heapKernel heapProc heapCapture sampleMachine.world = (.ok heapKept, after) := by
  obtain ⟨kept, after, selected, _⟩ := selectMappings_documented heapCapture_served sampleMachine.world
  have same : heapKept = kept := by
    rw [heapKept, selected]
    rfl
  exact ⟨after, same ▸ selected⟩

theorem heapDump_succeeds : heapDump.success = true :=
  runSerialize_served heapCapture_served heapOptions freshFd_willing _

/-- The sizes of the unlimited core, and where the trimmed one announces the stack. -/
theorem heapKept_sizes : (coreInputs heapCapture heapOptions heapKept).segmentsStart = 4096 ∧
    (coreInputs heapCapture heapOptions heapKept).noteAlign = 1872 ∧
    (coreInputs heapCapture heapOptions heapKept).fileSize = 40960 ∧
    ∃ phdr ∈ (coreInputs heapCapture heapOptions (prioritized heapCapture heapOptions heapKept)).phdrs,
      phdr.pType = ptLoad ∧ phdr.pVaddr = 0xd000 ∧ phdr.pFilesz = 0x1000 ∧ phdr.pOffset = 17776 ∧
        phdr.pAlign = 4096 := by
  decide +kernel

theorem runSerialize_prioritized_size_heap : ∃ written, heapDump.fd.accepted = written ∧
    written.length = min 20000 40960 := by
  obtain ⟨after, selected⟩ := heapKept_selected
  obtain ⟨written, accepted, _, size⟩ := runSerialize_prioritized_size heapKernel heapProc heapCapture heapOptions
    20000 freshFd sampleMachine.world rfl rfl heapDump_succeeds
  exact ⟨written, accepted, heapKept_sizes.2.2.1 ▸ (size heapKept after selected).1⟩

theorem prioritized_inside_iff_heap : ∃ core, decodeCore heapDump.fd.accepted = some core ∧
    ¬ ∀ phdr ∈ core.phdrs, phdr.pType = ptLoad → Inside phdr heapDump.fd.accepted := by
  obtain ⟨after, selected⟩ := heapKept_selected
  obtain ⟨start, padding, size, _⟩ := heapKept_sizes
  obtain ⟨core, decoded, _, inside⟩ := prioritized_inside_iff heapKernel heapProc heapCapture heapOptions 20000
    freshFd sampleMachine.world after heapKept rfl rfl (by decide) rfl selected (by rw [start]; decide)
    heapDump_succeeds
  refine ⟨core, decoded, ?_⟩
  rw [heapDump, inside, padding, size]
  decide

/-- The stack, which is not trimmed, is announced in full and cut by the limit. -/
theorem prioritized_stack_cut : ∃ core phdr, decodeCore heapDump.fd.accepted = some core ∧
    (coreInputs heapCapture heapOptions heapKept).segmentsStart ≤ 20000 ∧ phdr ∈ core.phdrs ∧
    phdr.pType = ptLoad ∧ phdr.pVaddr = 0xd000 ∧ phdr.pFilesz = 0x1000 ∧
    ¬ Inside phdr heapDump.fd.accepted := by
  obtain ⟨after, selected⟩ := heapKept_selected
  obtain ⟨start, _, _, phdr, listed, isLoad, vaddr, filesz, offset, _⟩ := heapKept_sizes
  have room : (coreInputs heapCapture heapOptions heapKept).segmentsStart ≤ 20000 := by
    rw [start]
    decide
  obtain ⟨decoded, length⟩ := runSerialize_limited_decodes rfl rfl selected room heapDump_succeeds
  refine ⟨_, phdr, decoded, room, listed, isLoad, vaddr, filesz, fun inside => ?_⟩
  have byte := inside 20000 (by rw [offset]; decide) (by rw [Phdr.fileEnd, offset, filesz]; decide)
  rw [heapDump] at byte
  omega

end Corus.Dump
