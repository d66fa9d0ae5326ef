import Corus.Dump.Priority
import Corus.Reference.SameCore

/-!
# Limits of the two libraries

Both libraries take what does not fit from the largest segments, by the same rounds. The
estimate of the port ends with the notes. The C library also counts the padding behind them
and the headers of the vDSO, so that its core keeps the limit that the port may miss.
-/

namespace Corus.Reference

open Corus.Logical Corus.Platform Corus.Output Corus.Elf Corus.Proc Corus.Dump

/-! ## One round -/

/-- Both libraries find the same largest segment. -/
theorem largest_eq (mappings : List Mapping) : largest (mappings.map segmentOf) = largestFrom 0 none mappings := by
  have folded : ∀ (rest : List Mapping) (index : Nat) (best : Option (Nat × UInt64)),
      ((rest.map segmentOf).zipIdx index).foldl larger best = largestFrom index best rest := by
    intro rest
    induction rest with
    | nil => intro index best; rfl
    | cons mapping rest ih =>
        intro index best
        rw [List.map_cons, List.zipIdx_cons, List.foldl_cons, ih]
        cases best with
        | none => rfl
        | some found =>
            by_cases grows : found.2 < mapping.writeSize
            · simp [largestFrom, larger, grows, segmentOf]
            · simp [largestFrom, larger, grows, segmentOf]
  exact folded mappings 0 none

theorem modify_segmentOf (mappings : List Mapping) (index : Nat) (size : UInt64) :
    ((mappings.map segmentOf).modify index fun segment => { segment with writeSize := size }) =
      (mappings.modify index fun mapping => { mapping with writeSize := size }).map segmentOf := by
  apply List.ext_getElem?
  intro position
  rw [List.getElem?_modify, List.getElem?_map, List.getElem?_map, List.getElem?_modify]
  cases mappings[position]? with
  | none => rfl
  | some mapping =>
      by_cases here : index = position
      · simp [here, segmentOf]
      · simp [here]

/-! ## The loop -/

/-- Where nothing overflows, the loop of the C library is that of the port. -/
theorem reduceLargest_eq (maxLength rest : UInt64) (rounds : Nat) {mappings : List Mapping}
    (small : rest.toNat + (segmentSizes mappings).sum < 2 ^ 64) :
    reduceLargest maxLength rest rounds (mappings.map segmentOf) =
      (priorityLoop maxLength.toNat rest.toNat rounds mappings).map segmentOf := by
  induction rounds generalizing mappings with
  | zero => rfl
  | succ rounds ih =>
      have total : (advance rest ((mappings.map segmentOf).map Segment.writeSize)).toNat =
          rest.toNat + (segmentSizes mappings).sum := by
        rw [advance_toNat, toNat_writeSizes, Nat.mod_eq_of_lt small]
      have largestKnown := largestFrom_largest [] mappings none rfl
      rw [List.nil_append, List.length_nil] at largestKnown
      rw [reduceLargest, priorityLoop, largest_eq]
      cases found : largestFrom 0 none mappings with
      | none => rfl
      | some entry =>
          obtain ⟨index, size⟩ := entry
          rw [found] at largestKnown
          obtain ⟨⟨mapping, listed, rfl⟩, _⟩ := largestKnown
          have here : (segmentSizes mappings)[index]? = some mapping.writeSize.toNat := by simp [segmentSizes, listed]
          have shrunk : ∀ size : UInt64, segmentSizes (mappings.modify index fun mapping =>
              { mapping with writeSize := size }) = (segmentSizes mappings).set index size.toNat := by
            intro size
            rw [modify_eq_set_of_getElem? listed, segmentSizes_set]
          obtain ⟨sum, sumEq⟩ : ∃ sum, sum = advance rest ((mappings.map segmentOf).map Segment.writeSize) :=
            ⟨_, rfl⟩
          rw [← sumEq] at total
          simp only [← sumEq, ← total, Bool.and_eq_true, decide_eq_true_eq, gt_iff_lt, UInt64.lt_iff_toNat_lt,
            UInt64.toNat_zero]
          by_cases exceeds : maxLength.toNat < sum.toNat ∧ 0 < mapping.writeSize.toNat
          swap
          · rw [if_neg exceeds, if_neg exceeds]
          rw [if_pos exceeds, if_pos exceeds]
          have needed : (sum - maxLength).toNat = sum.toNat - maxLength.toNat :=
            UInt64.toNat_sub_of_le _ _ (UInt64.le_iff_toNat_le.mpr (Nat.le_of_lt exceeds.1))
          have emptied := sum_set here 0
          rw [needed]
          by_cases all : mapping.writeSize.toNat < sum.toNat - maxLength.toNat
          · rw [if_pos all, if_pos all, modify_segmentOf]
            apply ih
            rw [shrunk]
            simp only [UInt64.toNat_zero]
            omega
          · rw [if_neg all, if_neg all, modify_segmentOf]
            -- The last round: from here on everything fits.
            have same : UInt64.ofNat (sum.toNat - maxLength.toNat) = sum - maxLength := by
              rw [← needed, UInt64.ofNat_toNat]
            have left : (mapping.writeSize - (sum - maxLength)).toNat =
                mapping.writeSize.toNat - (sum.toNat - maxLength.toNat) := by
              rw [← needed]
              exact UInt64.toNat_sub_of_le _ _ (UInt64.le_iff_toNat_le.mpr (by omega))
            have kept := sum_set here (mapping.writeSize - (sum - maxLength)).toNat
            rw [same, priorityLoop_of_fits]
            rw [shrunk]
            omega

/-! ## The size of a core -/

section Limited

variable {arch : Arch} (cap : CapturedDump arch) (opts : DumpOptions arch) (mappings : List Mapping)
  (prstatus : Prstatus arch) (maxLength : UInt64) (extra : List Phdr)

/-- What the estimate of the port leaves out. -/
def unseen : Nat :=
  (callOf (coreInputs cap opts mappings) prstatus maxLength).noteAlign (mappings.map segmentOf) extra +
    extra.length * phdrSize + (extra.map fun phdr => phdr.pFilesz.toNat).sum

/-- Everything in a core of the C library but the mappings. -/
def overhead : Nat :=
  estimateHeaderSize arch cap.threads.length cap.auxv.length mappings opts.notes +
    unseen cap opts mappings prstatus maxLength extra

theorem overhead_eq : overhead cap opts mappings prstatus maxLength extra =
    referenceStart (coreInputs cap opts mappings) prstatus maxLength extra +
      (extra.map fun phdr => phdr.pFilesz.toNat).sum := by
  have estimate := estimateHeaderSize_eq cap opts mappings
  have start : (coreInputs cap opts mappings).segmentsStart = ehdrSize + (mappings.length + 1) * phdrSize +
      (coreInputs cap opts mappings).noteSectionSize + (coreInputs cap opts mappings).noteAlign := rfl
  have filesz := @notesFilesz_eq _ (coreInputs cap opts mappings) prstatus maxLength
  change CoreCall.notesFilesz _ (mappings.map segmentOf) = _ at filesz
  rw [overhead, unseen, referenceStart]
  change _ = notesOffset (mappings.map segmentOf) extra + CoreCall.noteAlign _ (mappings.map segmentOf) extra +
    CoreCall.notesFilesz _ (mappings.map segmentOf) + _
  rw [filesz, notesOffset, List.length_map]
  simp only [phdrSize] at start ⊢
  omega

variable {cap opts mappings prstatus maxLength extra}

/-- Both libraries limit the same way, but for what they count. -/
theorem reduced_eq (limited : 0 < maxLength)
    (small : overhead cap opts mappings prstatus maxLength extra + (segmentSizes mappings).sum < 2 ^ 64) :
    (callOf (coreInputs cap opts mappings) prstatus maxLength).reduced extra (mappings.map segmentOf) =
      (applyPriorityLimit mappings maxLength.toNat
        (overhead cap opts mappings prstatus maxLength extra)).map segmentOf := by
  have sizes : (extra.map Phdr.pFilesz).map UInt64.toNat = extra.map fun phdr => phdr.pFilesz.toNat := List.map_map
  have known := overhead_eq cap opts mappings prstatus maxLength extra
  have rest : (UInt64.ofNat (referenceStart (coreInputs cap opts mappings) prstatus maxLength extra) +
      advance 0 (extra.map Phdr.pFilesz)).toNat = overhead cap opts mappings prstatus maxLength extra := by
    rw [UInt64.toNat_add, advance_toNat, sizes, UInt64.toNat_ofNat', UInt64.toNat_zero]
    omega
  have given : 0 < (callOf (coreInputs cap opts mappings) prstatus maxLength).prioritizeMaxLength := limited
  rw [← rest] at small ⊢
  rw [CoreCall.reduced, if_pos given, List.length_map, applyPriorityLimit]
  exact reduceLargest_eq _ _ _ small

theorem unsized_resized (index : Nat) {kept : List Mapping} (trims : Trims mappings kept index) :
    (kept.map segmentOf).map unsized = (mappings.map segmentOf).map unsized := by
  rw [List.map_map, List.map_map]
  exact trims.map fun _ _ => rfl

/-- Both libraries reduce the same segments to the same sizes for the same overhead. The C
library knows all of it, so that its core is as long as the limit, unless everything fits
below the limit or the overhead does not. -/
theorem writeCore_limited {Sink : Type} [Writer Sink] (total : AcceptsEveryByte Sink) {kernel : Kernel}
    (limited : 0 < maxLength) (distinct : (cap.threads.map ThreadState.pid).Nodup)
    (fits : ∀ mapping ∈ mappings, mapping.nameLen < fnameMax)
    (headers : extra = extraPhdrs (ownMemory kernel) (findVdso (ownMemory kernel) cap.auxv (mappings.map segmentOf)))
    (small : overhead cap opts mappings prstatus maxLength extra + (segmentSizes mappings).sum < 2 ^ 64) :
    (callOf (coreInputs cap opts mappings) prstatus maxLength).reduced extra (mappings.map segmentOf) =
        (applyPriorityLimit mappings maxLength.toNat
          (overhead cap opts mappings prstatus maxLength extra)).map segmentOf ∧
      ∀ machine final : Machine Sink, total.accepting machine.sink →
        (callOf (coreInputs cap opts mappings) prstatus maxLength).writeCore kernel (mappings.map segmentOf) machine =
          (.ok (), final) →
        ∃ file, total.emitted final.sink = total.emitted machine.sink ++ file ∧
          file.length = overhead cap opts mappings prstatus maxLength extra +
            min (segmentSizes mappings).sum (maxLength.toNat - overhead cap opts mappings prstatus maxLength extra) := by
  have reduced := reduced_eq limited small
  refine ⟨reduced, ?_⟩
  intro machine final accepting ran
  obtain ⟨sum, index, trims⟩ := applyPriorityLimit_trims mappings maxLength.toNat
    (overhead cap opts mappings prstatus maxLength extra)
  have known := overhead_eq cap opts mappings prstatus maxLength extra
  generalize applyPriorityLimit mappings maxLength.toNat (overhead cap opts mappings prstatus maxLength extra) = kept
    at reduced sum trims
  -- The arguments of the call do not depend on the mappings.
  have keptReduced : (callOf (coreInputs cap opts kept) prstatus maxLength).reduced extra (mappings.map segmentOf) =
      (coreInputs cap opts kept).mappings.map segmentOf := reduced
  have keptFits : ∀ mapping ∈ (coreInputs cap opts kept).mappings, mapping.nameLen < fnameMax := by
    intro mapping member
    obtain ⟨original, listed, size, rfl, _⟩ := trims.origin member
    exact fits original listed
  have reachable : Reachable kernel (coreInputs cap opts kept).mappings extra := writeCore_eq_ok headers keptReduced ran
  obtain ⟨after, wrote, emitted, _⟩ :=
    writeCore_emits total (distinct : ((coreInputs cap opts kept).threads.map ThreadState.pid).Nodup) keptFits headers
      keptReduced reachable machine accepting
  cases ran.symm.trans wrote
  refine ⟨_, emitted, ?_⟩
  have same := unsized_resized index trims
  have start : referenceStart (coreInputs cap opts kept) prstatus maxLength extra =
      referenceStart (coreInputs cap opts mappings) prstatus maxLength extra := by
    have filesz := notesFilesz_unsized (callOf (coreInputs cap opts mappings) prstatus maxLength) same
    have align := noteAlign_unsized (callOf (coreInputs cap opts mappings) prstatus maxLength) extra same
    have offset : notesOffset (kept.map segmentOf) extra = notesOffset (mappings.map segmentOf) extra := by
      rw [notesOffset, notesOffset, List.length_map, List.length_map, trims.length]
    change notesOffset (kept.map segmentOf) extra + CoreCall.noteAlign _ (kept.map segmentOf) extra +
      CoreCall.notesFilesz _ (kept.map segmentOf) = _
    rw [offset]
    exact congrArg₂ (· + ·) (congrArg (_ + ·) align) filesz
  have tail : (referenceParts kernel (coreInputs cap opts kept) prstatus maxLength extra).tail.length =
      (extra.map fun phdr => phdr.pFilesz.toNat).sum := by
    change (extra.flatMap fun phdr => kernel.visibleRange phdr.pVaddr.toNat phdr.pFilesz.toNat).length = _
    rw [List.length_flatMap]
    congr 1
    exact List.map_congr_left fun phdr _ => Kernel.length_visibleRange ..
  have contents : (referenceParts kernel (coreInputs cap opts kept) prstatus maxLength extra).segments.flatten.length =
      (segmentSizes kept).sum := by
    rw [List.length_flatten]
    exact congrArg List.sum (length_visibleSegments kept)
  rw [Parts.length_file, referenceParts_start distinct keptFits, start, tail, contents, sum, known]
  omega

end Limited

/-- A process with one thread. -/
def limitedCapture : CapturedDump .x86_64 :=
  ⟨[⟨7, Vector.replicate _ 1, FpRegs.zeroed⟩], 0, [⟨atPagesz, 64⟩], Prpsinfo.zeroed, 7⟩

def limitedOptions : DumpOptions .x86_64 := ⟨.forkSnapshot, none, false, [], false, none⟩

theorem limitedCapture_overhead :
    overhead limitedCapture limitedOptions [sampleMapping] Prstatus.zeroed 2320 [] = 2304 := by
  decide +kernel

/-- Half of the 32 bytes of the mapping fit. -/
theorem writeCore_limited_sample : ∃ final,
    (callOf (coreInputs limitedCapture limitedOptions [sampleMapping]) Prstatus.zeroed 2320).writeCore promptKernel
        ([sampleMapping].map segmentOf) sampleMachine = (.ok (), final) ∧
      final.sink.fd.accepted.length = 2320 := by
  have fits : ∀ mapping ∈ [sampleMapping], mapping.nameLen < fnameMax := by decide
  have distinct : (limitedCapture.threads.map ThreadState.pid).Nodup := by decide
  have small : overhead limitedCapture limitedOptions [sampleMapping] Prstatus.zeroed 2320 [] +
      (segmentSizes [sampleMapping]).sum < 2 ^ 64 := by
    have known := limitedCapture_overhead
    have sum : (segmentSizes [sampleMapping]).sum = 32 := rfl
    omega
  have limited : (0 : UInt64) < 2320 := by decide
  have headers : [] = extraPhdrs (ownMemory promptKernel)
      (findVdso (ownMemory promptKernel) limitedCapture.auxv ([sampleMapping].map segmentOf)) := rfl
  obtain ⟨reduced, sizes⟩ :=
    writeCore_limited SimpleWriter.acceptsEveryByte limited distinct fits headers small
  obtain ⟨_, _, trims⟩ := applyPriorityLimit_trims [sampleMapping] (2320 : UInt64).toNat
    (overhead limitedCapture limitedOptions [sampleMapping] Prstatus.zeroed 2320 [])
  generalize applyPriorityLimit [sampleMapping] (2320 : UInt64).toNat
    (overhead limitedCapture limitedOptions [sampleMapping] Prstatus.zeroed 2320 []) = kept at reduced trims
  have keptFits : ∀ mapping ∈ kept, mapping.nameLen < fnameMax := by
    intro mapping member
    obtain ⟨original, listed, size, rfl, _⟩ := trims.origin member
    exact fits original listed
  obtain ⟨final, ran, _⟩ := @writeCore_emits _ promptKernel (coreInputs limitedCapture limitedOptions kept)
    Prstatus.zeroed 2320 ([sampleMapping].map segmentOf) [] _ _ SimpleWriter.acceptsEveryByte distinct keptFits headers reduced
    ⟨fun _ _ _ _ => rfl, fun _ member => absurd member List.not_mem_nil⟩ sampleMachine sampleMachine_accepting
  obtain ⟨file, emitted, length⟩ := sizes sampleMachine final sampleMachine_accepting ran
  have written : final.sink.fd.accepted = file := emitted
  rw [limitedCapture_overhead] at length
  exact ⟨final, ran, written ▸ length⟩

end Corus.Reference
