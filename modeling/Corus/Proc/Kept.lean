import Corus.Proc.Finalize

/-!
# What finalization keeps

`finalize_mappings` on every kernel: whatever the memory holds and however the probes
of the leading pages end, the entries it keeps satisfy what `create_elf_core` asks of
its segments. It does not come to keep them if it looks at the first bytes of a page
that cannot be read, which happens where a probe ended with another error than a fault.
-/

namespace Corus.Proc

open Corus.Logical Corus.Platform Corus.Elf Corus.Memory

/-- Mappings in the order of their addresses, none reaching into the next. -/
def Ascending (maps : List Mapping) : Prop :=
  maps.Pairwise fun first second => first.end.toNat ≤ second.start.toNat

/-- The bytes that `leading_zeros` skips at the front of a mapping. -/
def skippedBytes (kernel : Kernel) (pagesize : UInt64) (mapping : Mapping) (scratch : Bytes) (world : World) : Nat :=
  (leadingZeros kernel mapping.start.toNat (mapping.end - mapping.start).toNat pagesize scratch world).1.toNat

/-- The record of a kept mapping: what is left behind the skipped bytes, with ELF access
bits and a write size that fits. -/
structure Kept (pagesize : Nat) (mapping : Mapping) (skip : Nat) (record : Mapping) : Prop where
  start : record.start.toNat = mapping.start.toNat + skip
  aligned : pagesize ∣ record.start.toNat
  nonempty : record.start.toNat < record.end.toNat
  bounded : record.writeSize.toNat ≤ record.end.toNat - record.start.toNat
  rest : record = { mapping with
    start := record.start, flags := mapping.flags.elfAccessBits, writeSize := record.writeSize }

/-- The task comes past a mapping of which some bytes are skipped: where it looks at the first
bytes behind them, its loads do not fault. -/
def Passes (kernel : Kernel) (mapping : Mapping) (skip : Nat) : Prop :=
  mapping.Selected → ¬ mapping.Wanted → mapping.offset = 0 → mapping.start.toNat + skip < mapping.end.toNat →
    firstBytesAreElf kernel (mapping.start.toNat + skip) ≠ none

section Outcome

variable {kernel : Kernel} {pagesize : UInt64} {exponent : Nat}

/-- One mapping, whatever the kernel answers: the skipped bytes lie in it, the task faults
unless it comes past it, and if it does the mapping is kept exactly if it is selected and not
skipped as a whole. -/
theorem finalizeMapping_kept (power : pagesize.toNat = 2 ^ exponent) {mapping : Mapping}
    (ordered : mapping.start.toNat ≤ mapping.end.toNat)
    (aligned : pagesize.toNat ∣ mapping.start.toNat ∧ pagesize.toNat ∣ mapping.end.toNat) (scratch : Bytes)
    (world : World) :
    mapping.start.toNat + skippedBytes kernel pagesize mapping scratch world ≤ mapping.end.toNat ∧
      ((finalizeMapping kernel pagesize mapping scratch world).2.2.faulted = true ↔
        world.faulted = true ∨ ¬ Passes kernel mapping (skippedBytes kernel pagesize mapping scratch world)) ∧
      (Passes kernel mapping (skippedBytes kernel pagesize mapping scratch world) →
        ((finalizeMapping kernel pagesize mapping scratch world).1.isSome = true ↔
          mapping.Selected ∧ mapping.start.toNat + skippedBytes kernel pagesize mapping scratch world <
            mapping.end.toNat)) ∧
      ∀ record ∈ (finalizeMapping kernel pagesize mapping scratch world).1,
        Kept pagesize.toNat mapping (skippedBytes kernel pagesize mapping scratch world) record := by
  have length : (mapping.end - mapping.start).toNat = mapping.end.toNat - mapping.start.toNat :=
    UInt64.toNat_sub_of_le _ _ (UInt64.le_iff_toNat_le.mpr ordered)
  have high := mapping.end.toNat_lt
  obtain ⟨pages, within⟩ := leadingZeros_within kernel mapping.start.toNat power
    (by rw [length]; exact Nat.dvd_sub aligned.2 aligned.1) (UInt64.toNat_lt _) scratch world
  have unfaulted := faulted_leadingZeros kernel mapping.start.toNat (mapping.end - mapping.start).toNat pagesize
    scratch world
  unfold skippedBytes Passes
  rcases scanned : leadingZeros kernel mapping.start.toNat (mapping.end - mapping.start).toNat pagesize scratch
    world with ⟨lead, after⟩
  simp only [scanned] at pages within unfaulted ⊢
  rw [length] at within
  have start : (mapping.start + lead).toNat = mapping.start.toNat + lead.toNat :=
    (UInt64.toNat_add ..).trans (Nat.mod_eq_of_lt (by omega))
  have below : mapping.end ≠ mapping.start + lead → mapping.start.toNat + lead.toNat < mapping.end.toNat := by
    intro less
    have differs := mt UInt64.toNat_inj.mp less
    omega
  refine ⟨by omega, ?_⟩
  have outcome := finalizeMapping_outcome scanned
  generalize finalizeMapping kernel pagesize mapping scratch world = result at outcome ⊢
  cases outcome with
  | unselected unselected =>
      refine ⟨?_, fun _ => ⟨fun kept => (by cases kept), ?_⟩, fun _ absent => (by cases absent)⟩
      · simp [unselected]
      · rintro ⟨selected, _⟩
        exact absurd selected unselected
  | skipped _ whole =>
      have none : ¬ mapping.start.toNat + lead.toNat < mapping.end.toNat := by
        rw [whole, start]
        exact Nat.lt_irrefl _
      refine ⟨?_, fun _ => ⟨fun kept => (by cases kept), ?_⟩, fun _ absent => (by cases absent)⟩
      · simp [none, unfaulted]
      · rintro ⟨_, less⟩
        exact absurd less none
  | kept selected less writeSize size =>
      have nonempty := below less
      have behind : pagesize.toNat ∣ (mapping.start + lead).toNat := by
        rw [start]
        exact Nat.dvd_add aligned.1 pages
      refine ⟨?_, fun _ => ⟨fun _ => ⟨selected, nonempty⟩, fun _ => rfl⟩, ?_⟩
      · have passes : ¬ mapping.Wanted → mapping.offset = 0 →
            firstBytesAreElf kernel (mapping.start.toNat + lead.toNat) ≠ none := by
          intro unwanted first fault
          rw [(writeSizeOf_eq_none selected lead).mpr ⟨unwanted, first, start ▸ fault⟩] at size
          cases size
        simp only [unfaulted]
        exact ⟨.inl, fun either => either.resolve_right fun fails => fails fun _ unwanted first _ =>
          passes unwanted first⟩
      · rintro record ⟨rfl⟩
        refine ⟨start, behind, start ▸ nonempty, ?_, rfl⟩
        exact writeSizeOf_le size (start ▸ nonempty) ⟨behind, aligned.2⟩
  | faulted selected less fault =>
      obtain ⟨unwanted, first, loads⟩ := (writeSizeOf_eq_none selected lead).mp fault
      rw [start] at loads
      have fails : ¬ (mapping.Selected → ¬ mapping.Wanted → mapping.offset = 0 →
          mapping.start.toNat + lead.toNat < mapping.end.toNat →
          firstBytesAreElf kernel (mapping.start.toNat + lead.toNat) ≠ none) :=
        fun passes => passes selected unwanted first (below less) loads
      exact ⟨⟨fun _ => .inr fails, fun _ => rfl⟩, fun passes => absurd passes fails,
        fun _ absent => (by cases absent)⟩

end Outcome

/-! ## The run over all mappings -/

/-- The scratch buffer and the task when the loop comes to a mapping. -/
def stateAt (kernel : Kernel) (pagesize : UInt64) (maps : List Mapping) (scratch : Bytes) (world : World)
    (index : Nat) : Bytes × World :=
  (finalizeList kernel pagesize (maps.take index) scratch world).2

/-- The bytes skipped at the front of the mapping at an index, in the run of the loop. -/
def skippedAt (kernel : Kernel) (pagesize : UInt64) (maps : List Mapping) (scratch : Bytes) (world : World)
    (index : Nat) : Nat :=
  match maps[index]? with
  | none => 0
  | some mapping =>
      skippedBytes kernel pagesize mapping (stateAt kernel pagesize maps scratch world index).1
        (stateAt kernel pagesize maps scratch world index).2

/-- The record that the mapping at an index leaves, if it is kept. -/
def recordAt (kernel : Kernel) (pagesize : UInt64) (maps : List Mapping) (scratch : Bytes) (world : World)
    (index : Nat) : Option Mapping :=
  match maps[index]? with
  | none => none
  | some mapping =>
      (finalizeMapping kernel pagesize mapping (stateAt kernel pagesize maps scratch world index).1
        (stateAt kernel pagesize maps scratch world index).2).1

section Run

variable (kernel : Kernel) (pagesize : UInt64)

theorem finalizeList_append (front back : List Mapping) (scratch : Bytes) (world : World) :
    finalizeList kernel pagesize (front ++ back) scratch world =
      ((finalizeList kernel pagesize front scratch world).1 ++
          (finalizeList kernel pagesize back (finalizeList kernel pagesize front scratch world).2.1
            (finalizeList kernel pagesize front scratch world).2.2).1,
        (finalizeList kernel pagesize back (finalizeList kernel pagesize front scratch world).2.1
          (finalizeList kernel pagesize front scratch world).2.2).2) := by
  induction front generalizing scratch world with
  | nil => rfl
  | cons mapping rest ih =>
      simp only [List.cons_append, finalizeList]
      rw [ih, List.append_assoc]

/-- The records are those of the single mappings, in order. -/
theorem finalizeList_eq (maps : List Mapping) (scratch : Bytes) (world : World) :
    (finalizeList kernel pagesize maps scratch world).1 =
      (List.range maps.length).filterMap (recordAt kernel pagesize maps scratch world) := by
  induction maps using List.reverseRecOn with
  | nil => rfl
  | append_singleton maps mapping ih =>
      have earlier : ∀ index ∈ List.range maps.length,
          recordAt kernel pagesize (maps ++ [mapping]) scratch world index =
            recordAt kernel pagesize maps scratch world index := by
        intro index member
        have inside := List.mem_range.mp member
        simp only [recordAt, stateAt, List.getElem?_append_left inside,
          List.take_append_of_le_length (Nat.le_of_lt inside)]
      have last : recordAt kernel pagesize (maps ++ [mapping]) scratch world maps.length =
          (finalizeMapping kernel pagesize mapping (finalizeList kernel pagesize maps scratch world).2.1
            (finalizeList kernel pagesize maps scratch world).2.2).1 := by
        simp only [recordAt, stateAt, List.getElem?_concat_length, List.take_left]
      rw [finalizeList_append, List.length_append, List.length_singleton, List.range_succ, List.filterMap_append,
        List.filterMap_congr earlier, ← ih]
      simp only [finalizeList, List.append_nil]
      congr 1
      cases outcome : recordAt kernel pagesize (maps ++ [mapping]) scratch world maps.length with
      | none => rw [← last, outcome, List.filterMap_cons_none outcome]; rfl
      | some record => rw [← last, outcome, List.filterMap_cons_some outcome]; rfl

end Run

/-- The loop keeps the length of the array and no more entries than there are. -/
theorem compaction_bounds (kernel : Kernel) (pagesize : UInt64) (indices : List Nat) (state : Compaction) :
    (indices.foldl (Compaction.step kernel pagesize) state).kept ≤ state.kept + indices.length ∧
      (indices.foldl (Compaction.step kernel pagesize) state).maps.length = state.maps.length := by
  induction indices generalizing state with
  | nil => exact ⟨Nat.le_refl _, rfl⟩
  | cons index rest ih =>
      have step : (state.step kernel pagesize index).kept ≤ state.kept + 1 ∧
          (state.step kernel pagesize index).maps.length = state.maps.length := by
        unfold Compaction.step
        split
        · exact ⟨Nat.le_succ _, rfl⟩
        · split
          · exact ⟨Nat.le_succ _, rfl⟩
          · exact ⟨Nat.le_refl _, List.length_set⟩
      obtain ⟨kept, length⟩ := ih (state.step kernel pagesize index)
      rw [List.foldl_cons, List.length_cons]
      exact ⟨by omega, length.trans step.2⟩

/-- The kept entries are the records of the single mappings, in order. -/
theorem finalizeMappings_records (kernel : Kernel) (smaps : ProcFile) (maps : List Mapping) (pagesize : UInt64)
    (scratch : Bytes) (world : World) :
    let final := finalizeMappings kernel smaps maps pagesize scratch world
    final.maps.take final.kept =
      (List.range maps.length).filterMap (recordAt kernel pagesize (enrichFromSmaps smaps maps) scratch world) := by
  intro final
  have front := congrArg Prod.fst (finalizeMappings_eq kernel smaps maps pagesize scratch world)
  rw [finalizeList_eq, length_enrichFromSmaps] at front
  exact front

theorem Ascending.enriched {maps : List Mapping} (ascending : Ascending maps) (file : ProcFile) :
    Ascending (enrichFromSmaps file maps) := by
  have plainly : ∀ list : List Mapping, Ascending (list.map Mapping.plain) ↔ Ascending list := by
    intro list
    simp only [Ascending, List.pairwise_map]
    rfl
  rw [← plainly, enrichFromSmaps_plain, plainly]
  exact ascending

section Run

variable {kernel : Kernel} {pagesize : UInt64} {exponent : Nat} {maps : List Mapping}

/-- What the mapping at an index leaves. -/
theorem recordAt_kept (power : pagesize.toNat = 2 ^ exponent)
    (ordered : ∀ mapping ∈ maps, mapping.start.toNat ≤ mapping.end.toNat)
    (aligned : ∀ mapping ∈ maps, pagesize.toNat ∣ mapping.start.toNat ∧ pagesize.toNat ∣ mapping.end.toNat)
    (scratch : Bytes) (world : World) {index : Nat} {mapping : Mapping} (listed : maps[index]? = some mapping) :
    mapping.start.toNat + skippedAt kernel pagesize maps scratch world index ≤ mapping.end.toNat ∧
      (Passes kernel mapping (skippedAt kernel pagesize maps scratch world index) →
        ((recordAt kernel pagesize maps scratch world index).isSome = true ↔ mapping.Selected ∧
          mapping.start.toNat + skippedAt kernel pagesize maps scratch world index < mapping.end.toNat)) ∧
      ∀ record ∈ recordAt kernel pagesize maps scratch world index,
        Kept pagesize.toNat mapping (skippedAt kernel pagesize maps scratch world index) record := by
  have member := List.mem_of_getElem? listed
  simp only [skippedAt, recordAt, listed]
  obtain ⟨within, _, kept⟩ := @finalizeMapping_kept kernel pagesize exponent power mapping (ordered mapping member)
    (aligned mapping member) (stateAt kernel pagesize maps scratch world index).1
    (stateAt kernel pagesize maps scratch world index).2
  exact ⟨within, kept⟩

/-- The loop faults exactly if there is a mapping that it does not come past. -/
theorem finalizeList_faulted (power : pagesize.toNat = 2 ^ exponent)
    (ordered : ∀ mapping ∈ maps, mapping.start.toNat ≤ mapping.end.toNat)
    (aligned : ∀ mapping ∈ maps, pagesize.toNat ∣ mapping.start.toNat ∧ pagesize.toNat ∣ mapping.end.toNat)
    (scratch : Bytes) (world : World) :
    (finalizeList kernel pagesize maps scratch world).2.2.faulted = true ↔ world.faulted = true ∨
      ∃ (index : Nat) (mapping : Mapping), maps[index]? = some mapping ∧
        ¬ Passes kernel mapping (skippedAt kernel pagesize maps scratch world index) := by
  induction maps using List.reverseRecOn with
  | nil => simp [finalizeList]
  | append_singleton maps mapping ih =>
      have before := ih (fun other member => ordered other (List.mem_append_left _ member))
        (fun other member => aligned other (List.mem_append_left _ member))
      have member : mapping ∈ maps ++ [mapping] := List.mem_append_right _ (List.mem_singleton_self _)
      obtain ⟨_, last, _⟩ := @finalizeMapping_kept kernel pagesize exponent power mapping (ordered mapping member)
        (aligned mapping member) (finalizeList kernel pagesize maps scratch world).2.1
        (finalizeList kernel pagesize maps scratch world).2.2
      have earlier : ∀ index < maps.length, skippedAt kernel pagesize (maps ++ [mapping]) scratch world index =
          skippedAt kernel pagesize maps scratch world index := by
        intro index inside
        simp only [skippedAt, stateAt, List.getElem?_append_left inside,
          List.take_append_of_le_length (Nat.le_of_lt inside)]
      have here : skippedAt kernel pagesize (maps ++ [mapping]) scratch world maps.length =
          skippedBytes kernel pagesize mapping (finalizeList kernel pagesize maps scratch world).2.1
            (finalizeList kernel pagesize maps scratch world).2.2 := by
        simp only [skippedAt, stateAt, List.getElem?_concat_length, List.take_left]
      rw [finalizeList_append]
      simp only [finalizeList]
      rw [last, before, or_assoc, ← here]
      refine or_congr_right ⟨?_, ?_⟩
      · rintro (⟨index, other, listed, fails⟩ | fails)
        · have inside := (List.getElem?_eq_some_iff.mp listed).1
          exact ⟨index, other, by rw [List.getElem?_append_left inside, listed], by rw [earlier index inside]; exact fails⟩
        · exact ⟨maps.length, mapping, List.getElem?_concat_length, fails⟩
      · rintro ⟨index, other, listed, fails⟩
        by_cases inside : index < maps.length
        · rw [List.getElem?_append_left inside] at listed
          exact .inl ⟨index, other, listed, by rw [← earlier index inside]; exact fails⟩
        · have bound := (List.getElem?_eq_some_iff.mp listed).1
          rw [List.length_append, List.length_singleton] at bound
          obtain rfl : index = maps.length := by omega
          rw [List.getElem?_concat_length] at listed
          cases listed
          exact .inr fails

end Run

/-- What smaps leaves alone is that of the parsed mapping at the same index. -/
theorem enriched_getElem? {file : ProcFile} {maps : List Mapping} {index : Nat} {mapping : Mapping}
    (listed : (enrichFromSmaps file maps)[index]? = some mapping) :
    ∃ source, maps[index]? = some source ∧ source.plain = mapping.plain := by
  have same : (maps.map Mapping.plain)[index]? = some mapping.plain := by
    rw [← enrichFromSmaps_plain file maps, List.getElem?_map, listed, Option.map_some]
  rw [List.getElem?_map, Option.map_eq_some_iff] at same
  exact same

section Documented

variable {kernel : Kernel} {pagesize : UInt64} {maps : List Mapping} {scratch : Bytes} {world : World}

/-- The loop leaves the scan as able as it found it. -/
theorem finalizeList_scannable (documented : Documented kernel) (scannable : Scannable kernel pagesize scratch world)
    (ordered : ∀ mapping ∈ maps, mapping.start.toNat ≤ mapping.end.toNat)
    (aligned : ∀ mapping ∈ maps,
      kernel.pageSize ∣ mapping.start.toNat ∧ kernel.pageSize ∣ mapping.end.toNat) :
    Scannable kernel pagesize (finalizeList kernel pagesize maps scratch world).2.1
      (finalizeList kernel pagesize maps scratch world).2.2 := by
  induction maps generalizing scratch world with
  | nil => exact scannable
  | cons mapping rest ih =>
      obtain ⟨_, _, size, settled⟩ := finalizeMapping_documented documented scannable
        (ordered mapping List.mem_cons_self) (aligned mapping List.mem_cons_self)
      exact ih (scannable.settled size settled)
        (fun other member => ordered other (List.mem_cons_of_mem _ member))
        (fun other member => aligned other (List.mem_cons_of_mem _ member))

/-- On the documented kernel the skipped bytes are the leading zero pages. -/
theorem skippedAt_documented (documented : Documented kernel) (scannable : Scannable kernel pagesize scratch world)
    (ordered : ∀ mapping ∈ maps, mapping.start.toNat ≤ mapping.end.toNat)
    (aligned : ∀ mapping ∈ maps,
      kernel.pageSize ∣ mapping.start.toNat ∧ kernel.pageSize ∣ mapping.end.toNat)
    {index : Nat} {mapping : Mapping} (listed : maps[index]? = some mapping) :
    LeadingZeros kernel mapping.start.toNat (mapping.end.toNat - mapping.start.toNat)
      (skippedAt kernel pagesize maps scratch world index) := by
  have member := List.mem_of_getElem? listed
  have reached := @finalizeList_scannable kernel pagesize (maps.take index) scratch world documented scannable
    (fun other earlier => ordered other (List.mem_of_mem_take earlier))
    (fun other earlier => aligned other (List.mem_of_mem_take earlier))
  have length : (mapping.end - mapping.start).toNat = mapping.end.toNat - mapping.start.toNat :=
    UInt64.toNat_sub_of_le _ _ (UInt64.le_iff_toNat_le.mpr (ordered mapping member))
  have high := mapping.end.toNat_lt
  have low := ordered mapping member
  obtain ⟨exponent, power⟩ := reached.power
  obtain ⟨lead, _⟩ := leadingZeros_documented documented reached.runtime power (UInt64.toNat_lt _)
    ⟨(aligned mapping member).1,
      by rw [length]; exact Nat.dvd_sub (aligned mapping member).2 (aligned mapping member).1,
      by omega, reached.buffer, reached.ready⟩
  simp only [skippedAt, listed, skippedBytes, stateAt]
  rwa [length] at lead ⊢

/-- On the documented kernel the task comes past every mapping. -/
theorem passes_documented (documented : Documented kernel) (scannable : Scannable kernel pagesize scratch world)
    (ordered : ∀ mapping ∈ maps, mapping.start.toNat ≤ mapping.end.toNat)
    (aligned : ∀ mapping ∈ maps,
      kernel.pageSize ∣ mapping.start.toNat ∧ kernel.pageSize ∣ mapping.end.toNat)
    {index : Nat} {mapping : Mapping} (listed : maps[index]? = some mapping) :
    Passes kernel mapping (skippedAt kernel pagesize maps scratch world index) := by
  intro _ _ _ inside
  have zeros := skippedAt_documented documented scannable ordered aligned listed
  have member := List.mem_of_getElem? listed
  rw [firstBytesAreElf, firstBytesAre_readable (readable_behind documented zeros (aligned mapping member).1 (by omega))]
  exact Option.some_ne_none _

end Documented

/-- What `create_elf_core` relies on about the entries that are kept of an array of mappings, of
each of which some bytes are skipped: they are, in order, those of the selected mappings that
are not skipped as a whole, each with its original end, what is skipped of it in whole pages,
and a write size that fits; they are ordered and do not overlap. No mapping is skipped beyond
its end, so that no difference of addresses falls below zero. -/
structure Preconditions (pagesize : Nat) (maps : List Mapping) (skip : Nat → Nat) (kept : Nat)
    (front : List Mapping) : Prop where
  count : kept ≤ maps.length
  filled : front.length = kept
  within : ∀ (index : Nat) (mapping : Mapping), maps[index]? = some mapping →
    mapping.start.toNat + skip index ≤ mapping.end.toNat
  chosen : ∃ indices : List Nat, indices.Pairwise (· < ·) ∧
    (∀ index, index ∈ indices ↔ ∃ mapping, maps[index]? = some mapping ∧ mapping.Selected ∧
      mapping.start.toNat + skip index < mapping.end.toNat) ∧
    List.Forall₂ (fun index record => ∃ mapping, maps[index]? = some mapping ∧
      Kept pagesize mapping (skip index) record) indices front
  ascending : Ascending front

section Outcomes

variable {kernel : Kernel} {pagesize : UInt64} {exponent : Nat} {maps : List Mapping} {scratch : Bytes} {world : World}

/-- What the loop keeps if it comes past every mapping. -/
theorem finalizeMappings_prepared (smaps : ProcFile) (power : pagesize.toNat = 2 ^ exponent)
    (ordered : ∀ mapping ∈ enrichFromSmaps smaps maps, mapping.start.toNat ≤ mapping.end.toNat)
    (aligned : ∀ mapping ∈ enrichFromSmaps smaps maps,
      pagesize.toNat ∣ mapping.start.toNat ∧ pagesize.toNat ∣ mapping.end.toNat)
    (ascending : Ascending (enrichFromSmaps smaps maps))
    (passes : ∀ (index : Nat) (mapping : Mapping), (enrichFromSmaps smaps maps)[index]? = some mapping →
      Passes kernel mapping (skippedAt kernel pagesize (enrichFromSmaps smaps maps) scratch world index)) :
    let enriched := enrichFromSmaps smaps maps
    let final := finalizeMappings kernel smaps maps pagesize scratch world
    Preconditions pagesize.toNat enriched (skippedAt kernel pagesize enriched scratch world) final.kept
      (final.maps.take final.kept) := by
  intro enriched final
  obtain ⟨count, size⟩ := compaction_bounds kernel pagesize (List.range maps.length)
    ⟨enriched, 0, scratch, world⟩
  have bound : final.kept ≤ enriched.length := by
    rw [List.length_range, Nat.zero_add] at count
    rw [length_enrichFromSmaps]
    exact count
  have length : final.maps.length = enriched.length := size
  have front : final.maps.take final.kept =
      (List.range enriched.length).filterMap (recordAt kernel pagesize enriched scratch world) := by
    rw [length_enrichFromSmaps]
    exact finalizeMappings_records kernel smaps maps pagesize scratch world
  have present : ∀ {index : Nat}, (recordAt kernel pagesize enriched scratch world index).isSome = true →
      ∃ mapping, enriched[index]? = some mapping := by
    intro index some
    cases listed : enriched[index]? with
    | none => simp [recordAt, listed] at some
    | some mapping => exact ⟨mapping, rfl⟩
  have kept := @recordAt_kept kernel pagesize exponent enriched power ordered aligned scratch world
  refine ⟨bound, by rw [List.length_take, length]; omega, fun index mapping listed => (kept listed).1, ?_, ?_⟩
  · refine ⟨(List.range enriched.length).filter fun index =>
      (recordAt kernel pagesize enriched scratch world index).isSome, ?_, ?_, ?_⟩
    · exact List.Pairwise.filter _ List.pairwise_lt_range
    · intro index
      rw [List.mem_filter, List.mem_range]
      constructor
      · rintro ⟨_, some⟩
        obtain ⟨mapping, listed⟩ := present some
        exact ⟨mapping, listed, ((kept listed).2.1 (passes index mapping listed)).mp some⟩
      · rintro ⟨mapping, listed, reached⟩
        exact ⟨(List.getElem?_eq_some_iff.mp listed).1,
          ((kept listed).2.1 (passes index mapping listed)).mpr reached⟩
    · rw [front]
      refine (forall₂_filterMap _ _).imp ?_
      intro index record left
      obtain ⟨mapping, listed⟩ := present (by rw [left]; rfl)
      exact ⟨mapping, listed, (kept listed).2.2 record left⟩
  · rw [front]
    refine List.Pairwise.filterMap _ ?_ List.pairwise_lt_range
    intro first second before record left other right
    obtain ⟨mapping, listed⟩ := present (by rw [left]; rfl)
    obtain ⟨source, following⟩ := present (by rw [right]; rfl)
    have here := (kept listed).2.2 record left
    have later := (kept following).2.2 other right
    have stop : record.end = mapping.end := by rw [here.rest]
    have apart := List.pairwise_iff_getElem.mp ascending first second
      (List.getElem?_eq_some_iff.mp listed).1 (List.getElem?_eq_some_iff.mp following).1 before
    rw [(List.getElem?_eq_some_iff.mp listed).2, (List.getElem?_eq_some_iff.mp following).2] at apart
    rw [stop, later.start]
    omega

/-- The steps of the scan of the mapping at an index, in the run of the loop. -/
def scanStepsAt (kernel : Kernel) (pagesize : UInt64) (maps : List Mapping) (scratch : Bytes) (world : World)
    (index : Nat) : List ScanStep :=
  match maps[index]? with
  | none => []
  | some mapping =>
      Scan.runSteps kernel mapping.start.toNat (mapping.end - mapping.start).toNat pagesize.toNat
        (mapping.end - mapping.start).toNat
        ⟨0, 0, (stateAt kernel pagesize maps scratch world index).1,
          (stateAt kernel pagesize maps scratch world index).2⟩

/-- The scan of a mapping was broken off at a page that cannot be read: reading it failed for
another reason than a fault. Its first bytes are what decides how much of the mapping is
written. -/
structure BrokenOff (kernel : Kernel) (mapping : Mapping) (skip : Nat) (steps : List ScanStep) : Prop where
  selected : mapping.Selected
  unwanted : ¬ mapping.Wanted
  first : mapping.offset = 0
  inside : mapping.start.toNat + skip < mapping.end.toNat
  failed : ∃ step ∈ steps, step.Failed
  unreadable : kernel.readable (mapping.start.toNat + skip) = false

/-- On a kernel that never copies what cannot be read, with its own page size, the task comes
past every mapping whose scan is not broken off at an unreadable page. -/
theorem not_passes_iff (truthful : Truthful kernel) (power : pagesize.toNat = 2 ^ exponent)
    (runtime : pagesize.toNat = kernel.pageSize) (large : 4 ≤ kernel.pageSize)
    (ordered : ∀ mapping ∈ maps, mapping.start.toNat ≤ mapping.end.toNat)
    (aligned : ∀ mapping ∈ maps, pagesize.toNat ∣ mapping.start.toNat ∧ pagesize.toNat ∣ mapping.end.toNat)
    {index : Nat} {mapping : Mapping} (listed : maps[index]? = some mapping) :
    ¬ Passes kernel mapping (skippedAt kernel pagesize maps scratch world index) ↔
      BrokenOff kernel mapping (skippedAt kernel pagesize maps scratch world index)
        (scanStepsAt kernel pagesize maps scratch world index) := by
  have member := List.mem_of_getElem? listed
  have length : (mapping.end - mapping.start).toNat = mapping.end.toNat - mapping.start.toNat :=
    UInt64.toNat_sub_of_le _ _ (UInt64.le_iff_toNat_le.mpr (ordered mapping member))
  have high := mapping.end.toNat_lt
  have whole : pagesize.toNat ∣ (mapping.end - mapping.start).toNat := by
    rw [length]
    exact Nat.dvd_sub (aligned mapping member).2 (aligned mapping member).1
  simp only [skippedAt, scanStepsAt, listed, skippedBytes]
  generalize stateAt kernel pagesize maps scratch world index = state
  obtain ⟨pages, _⟩ := leadingZeros_within kernel mapping.start.toNat power whole (UInt64.toNat_lt _) state.1 state.2
  have stops := @leadingZeros_stops kernel mapping.start.toNat (mapping.end - mapping.start).toNat truthful pagesize
    exponent power whole (UInt64.toNat_lt _) state.1 state.2
  generalize (leadingZeros kernel mapping.start.toNat (mapping.end - mapping.start).toNat pagesize state.1
    state.2).1.toNat = lead at pages stops ⊢
  have page : kernel.pageSize ∣ mapping.start.toNat + lead := by
    rw [← runtime]
    exact Nat.dvd_add (aligned mapping member).1 pages
  constructor
  · intro fails
    simp only [Passes, Classical.not_imp, ne_eq, Decidable.not_not] at fails
    obtain ⟨selected, unwanted, first, inside, loads⟩ := fails
    have unreadable := (firstBytesAreElf_page large page).mp loads
    refine ⟨selected, unwanted, first, inside, ?_, unreadable⟩
    refine (stops (by rw [length]; omega)).resolve_left fun readable => ?_
    have address : pageAddress mapping.start.toNat pagesize.toNat (lead / pagesize.toNat) + 0 =
        mapping.start.toNat + lead := by
      rw [pageAddress, Nat.div_mul_cancel pages, Nat.add_zero]
      exact Nat.mod_eq_of_lt (by omega)
    have here := readable 0 (by omega)
    rw [address, unreadable] at here
    cases here
  · rintro broken passes
    exact passes broken.selected broken.unwanted broken.first broken.inside
      ((firstBytesAreElf_page large page).mpr broken.unreadable)

end Outcomes

/-- `finalize_mappings` comes back with the preconditions of `create_elf_core` exactly if it
comes past every mapping: for every array of ordered mappings of whole pages that do not
overlap, every memory and every outcome of the probes. On a kernel that never copies what
cannot be read, what it does not come past is a mapping whose scan was broken off, by
another error than `EFAULT`, at a page that cannot be read. -/
theorem finalizeMappings_preconditions_iff (kernel : Kernel) (smaps : ProcFile) (maps : List Mapping)
    (pagesize : UInt64) (exponent : Nat) (power : pagesize.toNat = 2 ^ exponent)
    (ordered : ∀ mapping ∈ maps, mapping.start.toNat ≤ mapping.end.toNat)
    (aligned : ∀ mapping ∈ maps, pagesize.toNat ∣ mapping.start.toNat ∧ pagesize.toNat ∣ mapping.end.toNat)
    (ascending : Ascending maps) (scratch : Bytes) (world : World) (running : world.faulted = false) :
    let enriched := enrichFromSmaps smaps maps
    let skip := skippedAt kernel pagesize enriched scratch world
    let final := finalizeMappings kernel smaps maps pagesize scratch world
    (final.world.faulted = false ∧
        Preconditions pagesize.toNat enriched skip final.kept (final.maps.take final.kept) ↔
      ∀ (index : Nat) (mapping : Mapping), enriched[index]? = some mapping → Passes kernel mapping (skip index)) ∧
    (Truthful kernel → pagesize.toNat = kernel.pageSize → 4 ≤ kernel.pageSize →
      ∀ (index : Nat) (mapping : Mapping), enriched[index]? = some mapping →
        (¬ Passes kernel mapping (skip index) ↔
          BrokenOff kernel mapping (skip index) (scanStepsAt kernel pagesize enriched scratch world index))) := by
  intro enriched skip final
  have orderedHere : ∀ mapping ∈ enriched, mapping.start.toNat ≤ mapping.end.toNat :=
    enriched_ranges ordered smaps
  have alignedHere : ∀ mapping ∈ enriched,
      pagesize.toNat ∣ mapping.start.toNat ∧ pagesize.toNat ∣ mapping.end.toNat :=
    @enriched_ranges _ (fun start stop => pagesize.toNat ∣ start ∧ pagesize.toNat ∣ stop) aligned smaps
  have faults : final.world.faulted = true ↔ ∃ (index : Nat) (mapping : Mapping), enriched[index]? = some mapping ∧
      ¬ Passes kernel mapping (skip index) := by
    have loop := congrArg (fun result => result.2.2.faulted)
      (finalizeMappings_eq kernel smaps maps pagesize scratch world)
    simp only at loop
    rw [show final.world.faulted = _ from loop, finalizeList_faulted power orderedHere alignedHere scratch world,
      running]
    simp only [Bool.false_eq_true, false_or]
    rfl
  refine ⟨⟨?_, fun passes => ⟨?_, ?_⟩⟩, ?_⟩
  · rintro ⟨returned, _⟩ index mapping listed
    by_contra fails
    rw [faults.mpr ⟨index, mapping, listed, fails⟩] at returned
    cases returned
  · rw [← Bool.not_eq_true, faults]
    rintro ⟨index, mapping, listed, fails⟩
    exact fails (passes index mapping listed)
  · exact finalizeMappings_prepared smaps power orderedHere alignedHere (ascending.enriched smaps) passes
  · intro truthful runtime large index mapping listed
    exact not_passes_iff truthful power runtime large orderedHere alignedHere listed

/-- A task with an unused loopback pipe. -/
def pipedWorld : World := ⟨0, ⟨[], 0, false, 4096⟩, false, false⟩

/-- Pages of 16 bytes, of which the one at 0x20 is zero; every third probe fails. -/
def narrowKernel : Kernel where
  pageSize := 16
  memory address := if address < 0x30 then 0 else 7
  readablePage _ := true
  pipe2 _ := .ok 4096
  getPipeSize _ := none
  setPipeSize _ _ := .error .eperm
  statusFlags _ := none
  probe call _ count := ⟨0, if call % 3 = 2 then ⟨.error .enomem, 0⟩ else ⟨.ok count, 0⟩⟩
  pipeRead _ := ⟨0, .ok 16⟩

/-- A writable range at 0x20, and the first page of a file behind it. -/
def narrowMaps : List Mapping :=
  [{ Mapping.zeroed with start := 0x20, «end» := 0x40, flags := ⟨13⟩ },
    { Mapping.zeroed with start := 0x40, «end» := 0x50, flags := ⟨9⟩ }]

def noSmaps : ProcFile := ⟨⟨0, .error .eperm⟩, [], fun _ => ⟨0, .ok 1⟩⟩

theorem narrowMaps_ascending : Ascending narrowMaps := by
  simp only [Ascending, narrowMaps]
  decide

/-- A page that cannot be read, of a file that was truncated behind it; the pipe has no memory
left for a probe. -/
def starvedKernel : Kernel :=
  { narrowKernel with
    pageSize := 4096
    memory := fun _ => 7
    readablePage := fun page => page != 1
    probe := fun _ _ _ => ⟨0, ⟨.error .enomem, 0⟩⟩ }

/-- The first page of a file, mapped to be read. -/
def truncatedMaps : List Mapping :=
  [{ Mapping.zeroed with start := 0x1000, «end» := 0x2000, flags := ⟨9⟩ }]

theorem starvedKernel_truthful : Truthful starvedKernel := fun _ _ _ _ queued => (by cases queued)

theorem starvedKernel_faults :
    (finalizeMappings starvedKernel noSmaps truncatedMaps 4096 (List.replicate 4096 0) pipedWorld).world.faulted =
      true := by
  decide +kernel

/-- Where all pages can be read, a file is looked at although its probe failed; the truncated
one is broken off. -/
theorem finalizeMappings_preconditions_sample :
    (let enriched := enrichFromSmaps noSmaps narrowMaps
      let final := finalizeMappings narrowKernel noSmaps narrowMaps 16 (List.replicate 16 0) pipedWorld
      final.world.faulted = false ∧ Preconditions 16 enriched
        (skippedAt narrowKernel 16 enriched (List.replicate 16 0) pipedWorld) final.kept
        (final.maps.take final.kept)) ∧
    ∃ index mapping, BrokenOff starvedKernel mapping
      (skippedAt starvedKernel 4096 (enrichFromSmaps noSmaps truncatedMaps) (List.replicate 4096 0) pipedWorld index)
      (scanStepsAt starvedKernel 4096 (enrichFromSmaps noSmaps truncatedMaps) (List.replicate 4096 0) pipedWorld
        index) := by
  constructor
  · apply (finalizeMappings_preconditions_iff narrowKernel noSmaps narrowMaps 16 4 rfl (by decide) (by decide)
      narrowMaps_ascending (List.replicate 16 0) pipedWorld rfl).1.mpr
    intro index mapping _ _ _ _ _ fault
    rw [firstBytesAreElf, firstBytesAre_readable (fun _ _ => rfl)] at fault
    cases fault
  · obtain ⟨returns, broken⟩ := finalizeMappings_preconditions_iff starvedKernel noSmaps truncatedMaps 4096 12 rfl
      (by decide) (by decide) (List.pairwise_singleton ..) (List.replicate 4096 0) pipedWorld rfl
    by_contra none
    have passes := returns.mpr fun index mapping listed => by
      by_contra fails
      exact none ⟨index, mapping, (broken starvedKernel_truthful rfl (by decide) index mapping listed).mp fails⟩
    rw [starvedKernel_faults] at passes
    cases passes.1

/-- The task faults on the first byte of the truncated file. -/
theorem finalizeMappings_faults :
    Ascending truncatedMaps ∧ (∀ mapping ∈ truncatedMaps, mapping.start.toNat ≤ mapping.end.toNat ∧
        4096 ∣ mapping.start.toNat ∧ 4096 ∣ mapping.end.toNat) ∧
      Truthful starvedKernel ∧ pipedWorld.faulted = false ∧
      (finalizeMappings starvedKernel noSmaps truncatedMaps 4096 (List.replicate 4096 0) pipedWorld).world.faulted =
        true :=
  ⟨List.pairwise_singleton .., by decide, starvedKernel_truthful, rfl, starvedKernel_faults⟩

end Corus.Proc
