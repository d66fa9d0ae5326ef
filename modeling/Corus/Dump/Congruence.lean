import Corus.Dump.Sizes

/-!
# Offsets and addresses modulo the page size

A loader maps a segment in place only if its file offset and its address agree
modulo the alignment. Without priorities whole pages are written, so they do. A
segment that was trimmed in part displaces the ones behind it.
-/

namespace Corus.Dump

open Corus.Logical Corus.Platform Corus.Output Corus.Memory Corus.Proc Corus.Elf

/-- `p_offset` and `p_vaddr` agree modulo `p_align`. -/
def Congruent (phdr : Phdr) : Prop :=
  phdr.pOffset.toNat % phdr.pAlign.toNat = phdr.pVaddr.toNat % phdr.pAlign.toNat

/-- The mapping covers whole pages. -/
def Paged (pagesize : Nat) (mapping : Mapping) : Prop :=
  pagesize ∣ mapping.start.toNat ∧ pagesize ∣ mapping.end.toNat

/-- The record starts on a page and whole pages of it are written. -/
def WholePages (pagesize : Nat) (mapping : Mapping) : Prop :=
  pagesize ∣ mapping.start.toNat ∧ pagesize ∣ mapping.writeSize.toNat

section Selected

variable {arch : Arch} {kernel : Kernel} {proc : ProcFs} {cap : CapturedDump arch} {opts : DumpOptions arch}
  {world after : World} {mappings : List Mapping}

/-- Of page-aligned mappings, whole pages are selected. -/
theorem selectMappings_wholePages (selected : selectMappings kernel proc cap world = (.ok mappings, after))
    (aligned : ∀ parsed, parseSelfMaps proc.maps maxMappings = .ok parsed →
      ∀ mapping ∈ parsed, Paged cap.pagesize.toNat mapping) :
    ∀ record ∈ mappings, WholePages cap.pagesize.toNat record := by
  obtain ⟨parsed, parses, _, origin⟩ := selectMappings_origin selected
  obtain ⟨exponent, power⟩ := cap.pagesize_power
  intro record member
  obtain ⟨mapping, listed, _, _, finalized⟩ := origin record member
  obtain ⟨source, present, equal⟩ := enriched_origin listed
  obtain ⟨start, stop⟩ := range_of_plain equal
  have paged := aligned parsed parses source present
  rw [Paged, start, stop] at paged
  exact finalizeMapping_paged power paged finalized

/-- Where the load header at a position points, modulo the page size. -/
theorem loadPhdrs_offset {inputs : CoreInputs arch} {exponent : Nat} (power : inputs.pagesize.toNat = 2 ^ exponent)
    {position : Nat} {phdr : Phdr} (found : inputs.loadPhdrs[position]? = some phdr) :
    phdr.pAlign = inputs.pagesize ∧
      (∃ mapping, inputs.mappings[position]? = some mapping ∧ phdr.pVaddr = mapping.start) ∧
      phdr.pOffset.toNat % inputs.pagesize.toNat =
        chunkOffset (segmentSizes inputs.mappings) position % inputs.pagesize.toNat := by
  rw [CoreInputs.loadPhdrs, loadPhdrsFrom_getElem?, Option.map_eq_some_iff] at found
  obtain ⟨mapping, listed, rfl⟩ := found
  refine ⟨rfl, ⟨mapping, listed, rfl⟩, ?_⟩
  have word : inputs.pagesize.toNat ∣ 2 ^ 64 := by
    have small := inputs.pagesize.toNat_lt
    rw [power] at small ⊢
    exact Nat.pow_dvd_pow 2 (Nat.le_of_lt ((Nat.pow_lt_pow_iff_right (by decide)).mp small))
  obtain ⟨pages, whole⟩ := inputs.pagesize_dvd_segmentsStart (by rw [power]; exact Nat.two_pow_pos exponent)
  simp only [loadPhdr, UInt64.toNat_ofNat']
  rw [Nat.mod_mod_of_dvd _ word, whole, Nat.add_comm, Nat.add_mul_mod_self_left]

/-- Trimming keeps whole pages except at one index. -/
theorem Trims.wholePages {trimmed : List Mapping} {index pagesize : Nat} (trims : Trims mappings trimmed index)
    (whole : ∀ record ∈ mappings, WholePages pagesize record) {position : Nat} {record : Mapping}
    (found : trimmed[position]? = some record) :
    pagesize ∣ record.start.toNat ∧ (position ≠ index → pagesize ∣ record.writeSize.toNat) := by
  have inside : position < mappings.length := trims.length ▸ (List.getElem?_eq_some_iff.mp found).1
  obtain ⟨start, size⟩ := whole _ (List.getElem_mem inside)
  obtain ⟨left, shown, _, away⟩ := trims.record position _ (List.getElem?_eq_getElem inside)
  cases found.symm.trans shown
  refine ⟨start, fun elsewhere => ?_⟩
  rcases away elsewhere with kept | emptied
  · exact kept ▸ size
  · simp only [resized, emptied]
    exact Nat.dvd_zero _

/-- The load headers of a trimmed core: up to the segment that was trimmed in part
they are congruent, and behind it they are off by all bytes of the segments. -/
theorem prioritized_offsets {index : Nat} (trims : Trims mappings (prioritized cap opts mappings) index)
    (whole : ∀ record ∈ mappings, WholePages cap.pagesize.toNat record) {position : Nat} {phdr : Phdr}
    (found : (coreInputs cap opts (prioritized cap opts mappings)).loadPhdrs[position]? = some phdr) :
    phdr.pAlign = cap.pagesize ∧ phdr.pVaddr.toNat % phdr.pAlign.toNat = 0 ∧
      phdr.pOffset.toNat % phdr.pAlign.toNat = if position ≤ index then 0
        else (segmentSizes (prioritized cap opts mappings)).sum % phdr.pAlign.toNat := by
  obtain ⟨exponent, power⟩ := cap.pagesize_power
  obtain ⟨align, ⟨record, listed, vaddr⟩, offset⟩ :=
    @loadPhdrs_offset _ (coreInputs cap opts (prioritized cap opts mappings)) _ power _ _ found
  have pages : (coreInputs cap opts (prioritized cap opts mappings)).pagesize.toNat = cap.pagesize.toNat := rfl
  have align : phdr.pAlign = cap.pagesize := align
  have sizes : ∀ other size, other ≠ index →
      (segmentSizes (prioritized cap opts mappings))[other]? = some size → cap.pagesize.toNat ∣ size := by
    intro other size away shown
    rw [segmentSizes, List.getElem?_map, Option.map_eq_some_iff] at shown
    obtain ⟨source, present, rfl⟩ := shown
    exact (trims.wholePages whole present).2 away
  refine ⟨align, ?_, ?_⟩
  · rw [align, vaddr]
    exact Nat.mod_eq_zero_of_dvd (trims.wholePages whole listed).1
  · rw [align, ← pages, offset]
    split
    · rename_i before
      apply Nat.mod_eq_zero_of_dvd
      exact dvd_chunkOffset fun other size earlier => sizes other size (by omega)
    · rename_i behind
      exact chunkOffset_mod fun other size later => sizes other size (by omega)

/-- With priorities, the bytes of all segments. -/
theorem segmentSizes_prioritized {limit : Nat} (priorities : opts.prioritize = true)
    (limited : opts.maxLength = some limit) :
    (segmentSizes (prioritized cap opts mappings)).sum = min (segmentSizes mappings).sum
      (limit - estimateHeaderSize arch cap.threads.length cap.auxv.length mappings opts.notes) := by
  have shrinks : prioritized cap opts mappings = applyPriorityLimit mappings limit
      (estimateHeaderSize arch cap.threads.length cap.auxv.length mappings opts.notes) := by
    simp only [prioritized, priorities, limited]
  rw [shrinks]
  exact (applyPriorityLimit_trims ..).1

/-- Without priorities, whole pages precede every segment. -/
theorem dvd_segmentSizes_of_unprioritized (unprioritized : prioritized cap opts mappings = mappings)
    (whole : ∀ record ∈ mappings, WholePages cap.pagesize.toNat record) :
    cap.pagesize.toNat ∣ (segmentSizes (prioritized cap opts mappings)).sum := by
  apply List.dvd_sum
  intro size member
  rw [unprioritized] at member
  obtain ⟨record, listed, rfl⟩ := List.mem_map.mp member
  exact (whole record listed).2

/-- Whatever a reader can decode of the output comes from the selected mappings. -/
theorem runSerialize_decoded {fd : OutFd} {file : Bytes} {core : CoreFile}
    (output : (runSerialize kernel proc cap opts fd world).fd.accepted = fd.accepted ++ file)
    (decoded : decodeCore file = some core) :
    ∃ mappings after, selectMappings kernel proc cap world = (.ok mappings, after) ∧
      core.phdrs = (coreInputs cap opts (prioritized cap opts mappings)).phdrs := by
  obtain ⟨part, accepted, ⟨more, full⟩⟩ := runSerialize_leads kernel proc cap opts fd world
  cases List.append_cancel_left (output.symm.trans accepted)
  have whole := decodeCore_append decoded more
  rw [full] at whole
  rcases selected : selectMappings kernel proc cap world with ⟨error | mappings, after⟩
  · have failed : serializeDump kernel proc cap opts (⟨world, ⟨freshFd⟩⟩ : Machine SimpleWriter) =
        (.error error, _) := Action.bind_of_error (onWorld_of_eq selected)
    rw [failed] at whole
    cases whole
  · rcases serializeDump_selected kernel proc cap opts
      (show (⟨world, ⟨freshFd⟩⟩ : Machine SimpleWriter).sink.fd.Willing from freshFd_willing) rfl selected with
      ⟨empty, _⟩ | ⟨rest, headers, _⟩
    · rw [empty] at whole
      cases whole
    · have storable := (selectMappings_storable selected).limited cap opts
      rw [headers, CoreInputs.decodeCore_headerBytes (Nat.le_trans storable.count (by decide))] at whole
      cases whole
      exact ⟨mappings, after, rfl, rfl⟩

end Selected

/-- Congruence. Of page-aligned mappings, whatever the options, the kernel and the
descriptor, the load headers in the output are congruent up to the segment that the
limiter shrunk in part, and all of them if it was not asked for. Behind that segment
a header is off by the bytes that the limiter left for all segments. -/
theorem runSerialize_congruence {arch : Arch} (kernel : Kernel) (proc : ProcFs) (cap : CapturedDump arch)
    (opts : DumpOptions arch) (fd : OutFd) (world : World) (file : Bytes) (core : CoreFile)
    (aligned : ∀ parsed, parseSelfMaps proc.maps maxMappings = .ok parsed →
      ∀ mapping ∈ parsed, Paged cap.pagesize.toNat mapping)
    (output : (runSerialize kernel proc cap opts fd world).fd.accepted = fd.accepted ++ file)
    (decoded : decodeCore file = some core) :
    ∃ mappings after index note loads, selectMappings kernel proc cap world = (.ok mappings, after) ∧
      Trims mappings (prioritized cap opts mappings) index ∧
      core.phdrs = note :: loads ∧ note.pType ≠ ptLoad ∧ loads.length = mappings.length ∧
      ∀ position phdr, loads[position]? = some phdr →
        phdr.pType = ptLoad ∧ phdr.pAlign = cap.pagesize ∧
        (opts.prioritize = false ∨ opts.maxLength = none ∨ position ≤ index → Congruent phdr) ∧
        ∀ limit, opts.prioritize = true → opts.maxLength = some limit → index < position →
          phdr.pOffset.toNat % phdr.pAlign.toNat =
            (phdr.pVaddr.toNat + min (segmentSizes mappings).sum (limit -
              estimateHeaderSize arch cap.threads.length cap.auxv.length mappings opts.notes)) %
                phdr.pAlign.toNat := by
  obtain ⟨mappings, after, selected, phdrs⟩ := runSerialize_decoded output decoded
  obtain ⟨index, trims⟩ := prioritized_trims cap opts mappings
  have whole := selectMappings_wholePages selected aligned
  refine ⟨mappings, after, index, _, _, selected, trims, phdrs, (show ptNote ≠ ptLoad by decide), ?_, ?_⟩
  · rw [← trims.length]
    exact length_loadPhdrsFrom ..
  intro position phdr found
  obtain ⟨align, vaddr, offset⟩ := prioritized_offsets trims whole found
  refine ⟨?_, align, ?_, ?_⟩
  · obtain ⟨_, _, rfl⟩ := Option.map_eq_some_iff.mp (loadPhdrsFrom_getElem? .. ▸ found)
    rfl
  · intro unaffected
    rw [Congruent, vaddr, offset]
    split
    · rfl
    · rename_i behind
      rw [align]
      apply Nat.mod_eq_zero_of_dvd
      apply dvd_segmentSizes_of_unprioritized _ whole
      rcases unaffected with unprioritized | unlimited | before
      · simp only [prioritized, unprioritized]
      · exact prioritized_of_unlimited unlimited mappings
      · exact absurd before behind
  · intro limit priorities limited behind
    rw [offset, if_neg (Nat.not_le.mpr behind), segmentSizes_prioritized priorities limited, Nat.add_mod,
      vaddr, Nat.zero_add, Nat.mod_mod]

/-- The heap and the stack cover whole pages. -/
theorem heapParsed_paged : ∀ parsed, parseSelfMaps heapProc.maps maxMappings = .ok parsed →
    ∀ mapping ∈ parsed, Paged heapCapture.pagesize.toNat mapping := by
  intro parsed parses mapping member
  have same : heapParsed = parsed := by
    rw [heapParsed, parses]
    rfl
  have ranges : heapParsed.map Mapping.range = [(0x4000, 0xc000), (0xd000, 0xe000)] := by decide +kernel
  have range : mapping.range ∈ heapParsed.map Mapping.range := List.mem_map_of_mem (same ▸ member)
  have page : heapCapture.pagesize = 4096 := rfl
  rw [ranges] at range
  simp only [List.mem_cons, List.not_mem_nil, or_false, Mapping.range, Prod.mk.injEq] at range
  rw [Paged, page]
  rcases range with ⟨start, stop⟩ | ⟨start, stop⟩
  · rw [start, stop]
    decide
  · rw [start, stop]
    decide

theorem heapDump_decodes : ∃ after,
    selectMappings heapKernel heapProc heapCapture sampleMachine.world = (.ok heapKept, after) ∧
      decodeCore heapDump.fd.accepted = some
        ⟨(coreInputs heapCapture heapOptions (prioritized heapCapture heapOptions heapKept)).ehdr,
          (coreInputs heapCapture heapOptions (prioritized heapCapture heapOptions heapKept)).phdrs⟩ := by
  obtain ⟨after, selected⟩ := heapKept_selected
  have room : (coreInputs heapCapture heapOptions heapKept).segmentsStart ≤ 20000 := by
    rw [heapKept_sizes.1]
    decide
  exact ⟨after, selected, (runSerialize_limited_decodes rfl rfl selected room heapDump_succeeds).1⟩

theorem runSerialize_congruence_heap : ∃ core note loads, decodeCore heapDump.fd.accepted = some core ∧
    core.phdrs = note :: loads ∧ ∃ index, ∀ (position : Nat) (phdr : Phdr), loads[position]? = some phdr →
      phdr.pAlign = 4096 ∧ (position ≤ index → Congruent phdr) := by
  obtain ⟨after, _, decoded⟩ := heapDump_decodes
  have output : heapDump.fd.accepted = freshFd.accepted ++ heapDump.fd.accepted := (List.nil_append _).symm
  obtain ⟨_, _, index, note, loads, _, _, phdrs, _, _, headers⟩ := runSerialize_congruence heapKernel heapProc
    heapCapture heapOptions freshFd sampleMachine.world heapDump.fd.accepted _ heapParsed_paged output decoded
  refine ⟨_, note, loads, decoded, phdrs, index, ?_⟩
  intro position phdr found
  obtain ⟨_, align, congruent, _⟩ := headers position phdr found
  exact ⟨align, fun before => congruent (.inr (.inr before))⟩

/-- Behind the trimmed heap, the stack is not congruent. -/
theorem runSerialize_incongruent : (∀ parsed, parseSelfMaps heapProc.maps maxMappings = .ok parsed →
      ∀ mapping ∈ parsed, Paged heapCapture.pagesize.toNat mapping) ∧
    ∃ core phdr, decodeCore heapDump.fd.accepted = some core ∧ phdr ∈ core.phdrs ∧ phdr.pType = ptLoad ∧
      phdr.pAlign = heapCapture.pagesize ∧ ¬ Congruent phdr := by
  refine ⟨heapParsed_paged, ?_⟩
  obtain ⟨_, _, decoded⟩ := heapDump_decodes
  obtain ⟨_, _, _, phdr, listed, isLoad, vaddr, _, offset, align⟩ := heapKept_sizes
  refine ⟨_, phdr, decoded, listed, isLoad, align, ?_⟩
  rw [Congruent, offset, vaddr, align]
  decide

end Corus.Dump
