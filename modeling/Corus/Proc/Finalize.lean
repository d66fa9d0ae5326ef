import Mathlib.Algebra.Order.Ring.Nat
import Mathlib.Algebra.Order.BigOperators.Group.List
import Corus.Memory.LeadingZeros
import Corus.Proc.Smaps

/-!
# Selecting what is dumped

`finalize_mappings` applies the keep and skip rules to the parsed mappings,
computes how much of each is written, and compacts the kept ones to the front of
the array in place. `finalizeMappings_eq` replaces the in-place loop by a plain
list; the rest says what is kept on the documented kernel.
-/

namespace Corus.Proc

open Corus.Logical Corus.Platform Corus.Elf Corus.Memory

/-- The loads of `first_bytes_are_elf`, by the task itself, one after the other up to the
first byte that differs. There is no result if one of them faults. -/
def firstBytesAre (kernel : Kernel) : Nat → Bytes → Option Bool
  | _, [] => some true
  | addr, byte :: rest =>
      match kernel.load addr with
      | none => none
      | some loaded => if loaded = byte then firstBytesAre kernel (addr + 1) rest else some false

/-- `first_bytes_are_elf`. -/
def firstBytesAreElf (kernel : Kernel) (addr : Nat) : Option Bool := firstBytesAre kernel addr elfMag

/-- The bytes of a mapping that are written, once its leading zeros are skipped. -/
def writeSizeOf (kernel : Kernel) (pagesize : UInt64) (mapping : Mapping) : Option UInt64 :=
  if mapping.isAnon || mapping.hasAnonPages || mapping.flags.elfWritable then some (mapping.end - mapping.start)
  else if !mapping.isAnon && mapping.offset == 0 && mapping.flags.elfReadable then
    (firstBytesAreElf kernel mapping.start.toNat).map fun isElf => if isElf then pagesize else 0
  else some 0

/-- The loop body for one mapping: the finalized record, unless it is skipped. A load
that faults ends the task. -/
def finalizeMapping (kernel : Kernel) (pagesize : UInt64) (mapping : Mapping) (scratch : Bytes)
    (world : World) : Option Mapping × Bytes × World :=
  let mapping := { mapping with flags := mapping.flags.elfAccessBits }
  if mapping.isDevice || mapping.dontdump || !mapping.flags.elfReadable then (none, scratch, world)
  else
    let len := mapping.end - mapping.start
    match leadingZeros kernel mapping.start.toNat len.toNat pagesize scratch world with
    | (lead, scratch, world) =>
        let mapping := { mapping with start := mapping.start + lead }
        if mapping.end == mapping.start then (none, scratch, world)
        else
          match writeSizeOf kernel pagesize mapping with
          | none => (none, scratch, { world with faulted := true })
          | some writeSize => (some { mapping with writeSize := writeSize }, scratch, world)

/-- The variables of the compaction loop. -/
structure Compaction where
  maps : List Mapping
  kept : Nat
  scratch : Bytes
  world : World

/-- One index: the record is read from the array and, if kept, written to its front. -/
def Compaction.step (kernel : Kernel) (pagesize : UInt64) (state : Compaction) (idx : Nat) : Compaction :=
  match state.maps[idx]? with
  | none => state
  | some mapping =>
      match finalizeMapping kernel pagesize mapping state.scratch state.world with
      | (none, scratch, world) => { state with scratch := scratch, world := world }
      | (some mapping, scratch, world) =>
          ⟨state.maps.set state.kept mapping, state.kept + 1, scratch, world⟩

/-- `finalize_mappings`. -/
def finalizeMappings (kernel : Kernel) (smaps : ProcFile) (maps : List Mapping) (pagesize : UInt64)
    (scratch : Bytes) (world : World) : Compaction :=
  (List.range maps.length).foldl (Compaction.step kernel pagesize)
    ⟨enrichFromSmaps smaps maps, 0, scratch, world⟩

/-! ## The loop as a list -/

/-- The finalized records in order, without the array. -/
def finalizeList (kernel : Kernel) (pagesize : UInt64) :
    List Mapping → Bytes → World → List Mapping × Bytes × World
  | [], scratch, world => ([], scratch, world)
  | mapping :: rest, scratch, world =>
      match finalizeMapping kernel pagesize mapping scratch world with
      | (result, scratch, world) =>
          match finalizeList kernel pagesize rest scratch world with
          | (kept, scratch, world) => (result.toList ++ kept, scratch, world)

/-- The loop over the indices that are left. Entries from `index` on are still
the original ones, because the front never overtakes the index. -/
theorem compaction_foldl (kernel : Kernel) (pagesize : UInt64) (rest : List Mapping) (index : Nat)
    (state : Compaction) (unread : state.maps.drop index = rest) (behind : state.kept ≤ index)
    (inside : index ≤ state.maps.length) :
    let final := (List.range' index rest.length).foldl (Compaction.step kernel pagesize) state
    final.maps.take final.kept =
        state.maps.take state.kept ++ (finalizeList kernel pagesize rest state.scratch state.world).1 ∧
      (final.scratch, final.world) = (finalizeList kernel pagesize rest state.scratch state.world).2 := by
  induction rest generalizing index state with
  | nil => simp [finalizeList]
  | cons mapping rest ih =>
      have present : index < state.maps.length := by
        have length := congrArg List.length unread
        simp only [List.length_drop, List.length_cons] at length
        omega
      have here : state.maps[index]? = some mapping := by
        have head := congrArg List.head? unread
        rwa [List.head?_drop] at head
      have later : state.maps.drop (index + 1) = rest := by
        rw [← List.drop_drop, unread]
        rfl
      simp only [List.length_cons, List.range'_succ, List.foldl_cons, finalizeList]
      cases outcome : finalizeMapping kernel pagesize mapping state.scratch state.world with
      | mk result after =>
        cases result with
        | none =>
            have stepped : state.step kernel pagesize index =
                { state with scratch := after.1, world := after.2 } := by
              simp only [Compaction.step, here, outcome]
            rw [stepped]
            exact ih (index + 1) { state with scratch := after.1, world := after.2 } later
              (Nat.le_succ_of_le behind) present
        | some finalized =>
            have stepped : state.step kernel pagesize index =
                ⟨state.maps.set state.kept finalized, state.kept + 1, after.1, after.2⟩ := by
              simp only [Compaction.step, here, outcome]
            rw [stepped]
            have rest_eq := ih (index + 1)
              ⟨state.maps.set state.kept finalized, state.kept + 1, after.1, after.2⟩
              (by rw [List.drop_set_of_lt (Nat.lt_succ_of_le behind), later])
              (Nat.succ_le_succ behind) (by rw [List.length_set]; exact present)
            have front : (state.maps.set state.kept finalized).take (state.kept + 1) =
                state.maps.take state.kept ++ [finalized] := by
              rw [List.take_add_one, List.take_set_of_le (Nat.le_refl _),
                List.getElem?_set_self (by omega), Option.toList_some]
            simp only [front] at rest_eq
            rw [Option.toList_some, ← List.append_assoc]
            exact rest_eq

theorem length_enrichFromSmaps (file : ProcFile) (maps : List Mapping) :
    (enrichFromSmaps file maps).length = maps.length := by
  have plain := congrArg List.length (enrichFromSmaps_plain file maps)
  simpa using plain

/-- The compacted front of the array is the list of finalized records. -/
theorem finalizeMappings_eq (kernel : Kernel) (smaps : ProcFile) (maps : List Mapping)
    (pagesize : UInt64) (scratch : Bytes) (world : World) :
    let final := finalizeMappings kernel smaps maps pagesize scratch world
    (final.maps.take final.kept, final.scratch, final.world) =
      finalizeList kernel pagesize (enrichFromSmaps smaps maps) scratch world := by
  have loop := compaction_foldl kernel pagesize (enrichFromSmaps smaps maps) 0
    ⟨enrichFromSmaps smaps maps, 0, scratch, world⟩ rfl (Nat.le_refl _) (Nat.zero_le _)
  rw [length_enrichFromSmaps, ← List.range_eq_range'] at loop
  obtain ⟨front, rest⟩ := loop
  rw [List.take_zero, List.nil_append] at front
  exact Prod.ext front rest

/-- The dump policy considers the mapping at all. -/
def Mapping.Selected (mapping : Mapping) : Prop :=
  mapping.flags.readable = true ∧ mapping.isDevice = false ∧ mapping.dontdump = false

/-- All contents of the mapping are wanted. -/
def Mapping.Wanted (mapping : Mapping) : Prop :=
  mapping.isAnon = true ∨ mapping.hasAnonPages = true ∨ mapping.flags.writable = true

/-- A mapping behind what is skipped at its front, with ELF access bits. -/
def Mapping.behind (mapping : Mapping) (lead : UInt64) : Mapping :=
  { mapping with flags := mapping.flags.elfAccessBits, start := mapping.start + lead }

/-- The record of a mapping with a write size. -/
def Mapping.sized (mapping : Mapping) (lead writeSize : UInt64) : Mapping :=
  { mapping.behind lead with writeSize := writeSize }

/-- What becomes of a mapping: it is not considered, it is skipped as a whole, it is kept
behind what is skipped, or the task faults when it looks at its first bytes. -/
inductive FinalizeOutcome (kernel : Kernel) (pagesize : UInt64) (mapping : Mapping) (scratch : Bytes) (world : World)
    (lead : UInt64) (after : Bytes × World) : Option Mapping × Bytes × World → Prop where
  | unselected (unselected : ¬ mapping.Selected) :
      FinalizeOutcome kernel pagesize mapping scratch world lead after (none, scratch, world)
  | skipped (selected : mapping.Selected) (whole : mapping.end = mapping.start + lead) :
      FinalizeOutcome kernel pagesize mapping scratch world lead after (none, after)
  | kept (selected : mapping.Selected) (less : mapping.end ≠ mapping.start + lead) (writeSize : UInt64)
      (size : writeSizeOf kernel pagesize (mapping.behind lead) = some writeSize) :
      FinalizeOutcome kernel pagesize mapping scratch world lead after (some (mapping.sized lead writeSize), after)
  | faulted (selected : mapping.Selected) (less : mapping.end ≠ mapping.start + lead)
      (fault : writeSizeOf kernel pagesize (mapping.behind lead) = none) :
      FinalizeOutcome kernel pagesize mapping scratch world lead after
        (none, after.1, { after.2 with faulted := true })

theorem finalizeMapping_outcome {kernel : Kernel} {pagesize : UInt64} {mapping : Mapping} {scratch : Bytes}
    {world : World} {lead : UInt64} {after : Bytes × World}
    (scanned : leadingZeros kernel mapping.start.toNat (mapping.end - mapping.start).toNat pagesize scratch world =
      (lead, after)) :
    FinalizeOutcome kernel pagesize mapping scratch world lead after
      (finalizeMapping kernel pagesize mapping scratch world) := by
  unfold finalizeMapping
  simp only [Perms.elfReadable_elfAccessBits, scanned]
  by_cases selected : mapping.Selected
  · have considered : ¬ (mapping.isDevice || mapping.dontdump || !mapping.flags.readable) = true := by
      simp [selected.1, selected.2.1, selected.2.2]
    rw [if_neg considered]
    by_cases whole : mapping.end = mapping.start + lead
    · rw [if_pos (beq_iff_eq.mpr whole)]
      exact .skipped selected whole
    · rw [if_neg (mt beq_iff_eq.mp whole)]
      split
      · rename_i fault
        exact .faulted selected whole fault
      · rename_i writeSize size
        exact .kept selected whole writeSize size
  · have skipped : (mapping.isDevice || mapping.dontdump || !mapping.flags.readable) = true := by
      by_contra considered
      apply selected
      simpa [Mapping.Selected, and_comm, and_assoc, and_left_comm] using considered
    rw [if_pos skipped]
    exact .unselected selected

/-- A kept mapping is selected, and its record comes from what the scan skipped. -/
theorem finalizeMapping_some {kernel : Kernel} {pagesize : UInt64} {mapping record : Mapping} {scratch : Bytes}
    {world : World} (kept : (finalizeMapping kernel pagesize mapping scratch world).1 = some record) :
    mapping.Selected ∧ ∃ writeSize,
      writeSizeOf kernel pagesize (mapping.behind (leadingZeros kernel mapping.start.toNat
        (mapping.end - mapping.start).toNat pagesize scratch world).1) = some writeSize ∧
      record = mapping.sized (leadingZeros kernel mapping.start.toNat (mapping.end - mapping.start).toNat pagesize
        scratch world).1 writeSize := by
  have outcome := @finalizeMapping_outcome kernel pagesize mapping scratch world _ _ rfl
  generalize finalizeMapping kernel pagesize mapping scratch world = result at kept outcome
  cases outcome with
  | unselected | skipped | faulted => cases kept
  | kept selected _ writeSize size =>
      cases kept
      exact ⟨selected, writeSize, size, rfl⟩

/-- A finalized record keeps the stored path of the parsed one. -/
theorem finalizeMapping_nameLen {kernel : Kernel} {pagesize : UInt64} {mapping record : Mapping} {scratch : Bytes}
    {world : World} (kept : (finalizeMapping kernel pagesize mapping scratch world).1 = some record) :
    record.nameLen = mapping.nameLen := by
  obtain ⟨_, _, _, rfl⟩ := finalizeMapping_some kept
  rfl

/-- All that is left of a mapping is written, or one page, or nothing. -/
theorem writeSizeOf_some {kernel : Kernel} {pagesize writeSize : UInt64} {mapping : Mapping}
    (size : writeSizeOf kernel pagesize mapping = some writeSize) :
    writeSize = mapping.end - mapping.start ∨ writeSize = pagesize ∨ writeSize = 0 := by
  unfold writeSizeOf at size
  split at size
  · exact .inl (Option.some.inj size).symm
  split at size
  · obtain ⟨isElf, _, rfl⟩ := Option.map_eq_some_iff.mp size
    cases isElf
    · exact .inr (.inr rfl)
    · exact .inr (.inl rfl)
  · exact .inr (.inr (Option.some.inj size).symm)

/-- For a power of two as page size, ranges of whole pages stay ranges of whole
pages, and whole pages of them are written. -/
theorem finalizeMapping_paged {kernel : Kernel} {pagesize : UInt64} {exponent : Nat} {mapping record : Mapping}
    {scratch : Bytes} {world : World} (power : pagesize.toNat = 2 ^ exponent)
    (aligned : pagesize.toNat ∣ mapping.start.toNat ∧ pagesize.toNat ∣ mapping.end.toNat)
    (kept : (finalizeMapping kernel pagesize mapping scratch world).1 = some record) :
    pagesize.toNat ∣ record.start.toNat ∧ pagesize.toNat ∣ record.writeSize.toNat := by
  have word : pagesize.toNat ∣ 2 ^ 64 := by
    have small := pagesize.toNat_lt
    rw [power] at small ⊢
    exact Nat.pow_dvd_pow 2 (Nat.le_of_lt ((Nat.pow_lt_pow_iff_right (by decide)).mp small))
  have skipped : pagesize.toNat ∣
      (leadingZeros kernel mapping.start.toNat (mapping.end - mapping.start).toNat pagesize scratch world).1.toNat := by
    simp only [leadingZeros]
    rw [toNat_alignDown power]
    exact Nat.dvd_mul_left _ _
  obtain ⟨_, writeSize, size, rfl⟩ := finalizeMapping_some kept
  generalize (leadingZeros kernel mapping.start.toNat (mapping.end - mapping.start).toNat pagesize scratch world).1 =
    lead at skipped size
  have start : pagesize.toNat ∣ (mapping.start + lead).toNat := by
    rw [UInt64.toNat_add]
    exact (Nat.dvd_mod_iff word).mpr (Nat.dvd_add aligned.1 skipped)
  refine ⟨start, ?_⟩
  show pagesize.toNat ∣ writeSize.toNat
  rcases writeSizeOf_some size with rest | rfl | rfl
  · rw [rest, Mapping.behind, UInt64.toNat_sub]
    refine (Nat.dvd_mod_iff word).mpr (Nat.dvd_add (Nat.dvd_sub word start) aligned.2)
  · exact Nat.dvd_refl _
  · exact Nat.dvd_zero _

/-- What is written of a range of whole pages lies in it. -/
theorem writeSizeOf_le {kernel : Kernel} {pagesize writeSize : UInt64} {mapping : Mapping}
    (size : writeSizeOf kernel pagesize mapping = some writeSize)
    (nonempty : mapping.start.toNat < mapping.end.toNat)
    (aligned : pagesize.toNat ∣ mapping.start.toNat ∧ pagesize.toNat ∣ mapping.end.toNat) :
    writeSize.toNat ≤ mapping.end.toNat - mapping.start.toNat := by
  rcases writeSizeOf_some size with rfl | rfl | rfl
  · exact Nat.le_of_eq (UInt64.toNat_sub_of_le _ _ (UInt64.le_iff_toNat_le.mpr (Nat.le_of_lt nonempty)))
  · -- A non-empty range of whole pages has room for one.
    exact Nat.le_of_dvd (by omega) (Nat.dvd_sub aligned.2 aligned.1)
  · exact Nat.zero_le _

/-- Whatever the kernel answers, there are not more records than mappings, and
every record is a finalized mapping. -/
theorem finalizeList_origin (kernel : Kernel) (pagesize : UInt64) (maps : List Mapping) (scratch : Bytes)
    (world : World) :
    (finalizeList kernel pagesize maps scratch world).1.length ≤ maps.length ∧
      ∀ record ∈ (finalizeList kernel pagesize maps scratch world).1, ∃ mapping ∈ maps,
        ∃ scratch world, (finalizeMapping kernel pagesize mapping scratch world).1 = some record := by
  induction maps generalizing scratch world with
  | nil => simp [finalizeList]
  | cons mapping rest ih =>
      simp only [finalizeList]
      cases outcome : finalizeMapping kernel pagesize mapping scratch world with
      | mk result after =>
        obtain ⟨count, origin⟩ := ih after.1 after.2
        refine ⟨?_, ?_⟩
        · simp only [List.length_append, List.length_cons]
          have single : result.toList.length ≤ 1 := by cases result <;> simp
          omega
        · intro record member
          rcases List.mem_append.mp member with here | later
          · exact ⟨mapping, List.mem_cons_self, scratch, world, outcome ▸ Option.mem_toList.mp here⟩
          · obtain ⟨source, listed, finalized⟩ := origin record later
            exact ⟨source, List.mem_cons_of_mem _ listed, finalized⟩

/-! ## The first bytes -/

section Loads

variable {kernel : Kernel}

/-- Loads that can all be made compare the bytes. -/
theorem firstBytesAre_readable {addr : Nat} {bytes : Bytes}
    (readable : ∀ index < bytes.length, kernel.readable (addr + index)) :
    firstBytesAre kernel addr bytes = some (kernel.memoryRange addr bytes.length == bytes) := by
  induction bytes generalizing addr with
  | nil => rfl
  | cons byte rest ih =>
      have here : kernel.readable addr := readable 0 (Nat.succ_pos _)
      have later := @ih (addr + 1) (by
        intro index inside
        rw [Nat.add_assoc, Nat.add_comm 1]
        exact readable (index + 1) (Nat.succ_lt_succ inside))
      rw [firstBytesAre, Kernel.load, if_pos here, List.length_cons, Kernel.memoryRange_succ, List.cons_beq_cons]
      simp only [later]
      by_cases same : kernel.memory addr = byte
      · simp [same]
      · simp [same]

/-- The first load is made in any case. -/
theorem firstBytesAre_unreadable {addr : Nat} {byte : Byte} {rest : Bytes} (unreadable : kernel.readable addr = false) :
    firstBytesAre kernel addr (byte :: rest) = none := by
  simp [firstBytesAre, Kernel.load, unreadable]

/-- The write size where the first bytes can be loaded. -/
theorem writeSizeOf_readable {pagesize : UInt64} {mapping : Mapping}
    (readable : ∀ index < elfMag.length, kernel.readable (mapping.start.toNat + index)) :
    writeSizeOf kernel pagesize mapping = some
      (if mapping.isAnon || mapping.hasAnonPages || mapping.flags.elfWritable then mapping.end - mapping.start
        else if !mapping.isAnon && mapping.offset == 0 && mapping.flags.elfReadable &&
          kernel.memoryRange mapping.start.toNat elfMag.length == elfMag then pagesize
        else 0) := by
  unfold writeSizeOf
  split
  · rfl
  split
  · rename_i checked
    rw [firstBytesAreElf, firstBytesAre_readable readable, Option.map_some, checked, Bool.true_and]
  · rename_i unchecked
    rw [if_neg fun both => unchecked (Bool.and_eq_true_iff.mp both).1]

/-- At the start of a page the loads fault exactly if the page cannot be read. -/
theorem firstBytesAreElf_page {page : Nat} (large : 4 ≤ kernel.pageSize) (aligned : kernel.pageSize ∣ page) :
    firstBytesAreElf kernel page = none ↔ kernel.readable page = false := by
  constructor
  · intro fault
    by_contra readable
    rw [Bool.not_eq_false] at readable
    have loads : ∀ index < elfMag.length, kernel.readable (page + index) := by
      intro index inside
      have below : index < kernel.pageSize := Nat.lt_of_lt_of_le inside large
      exact @readable_of_samePage _ _ _ 0 index (fun _ => samePage_of_aligned (by omega) aligned) (by omega) below
        readable
    rw [firstBytesAreElf, firstBytesAre_readable loads] at fault
    cases fault
  · exact firstBytesAre_unreadable

/-- The loads that decide on a write size are the only ones, and are made of a mapping that
is not wanted as a whole and starts where its file does. -/
theorem writeSizeOf_eq_none {pagesize : UInt64} {mapping : Mapping} (selected : mapping.Selected) (lead : UInt64) :
    writeSizeOf kernel pagesize (mapping.behind lead) = none ↔
      ¬ mapping.Wanted ∧ mapping.offset = 0 ∧ firstBytesAreElf kernel (mapping.start + lead).toNat = none := by
  unfold writeSizeOf Mapping.Wanted
  simp only [Mapping.behind, Perms.elfWritable_elfAccessBits, Perms.elfReadable_elfAccessBits, selected.1, Bool.and_true]
  by_cases wanted : (mapping.isAnon || mapping.hasAnonPages || mapping.flags.writable) = true
  · rw [if_pos wanted]
    simp only [Bool.or_eq_true, or_assoc] at wanted
    simp [wanted]
  · rw [if_neg wanted]
    simp only [Bool.or_eq_true, or_assoc] at wanted
    simp only [wanted, not_false_eq_true, true_and]
    simp only [not_or, Bool.not_eq_true] at wanted
    by_cases start : mapping.offset = 0
    · simp [wanted.1, start]
    · simp [start]

end Loads

/-! ## On the documented kernel -/

/-- The address range of a mapping. -/
def Mapping.range (mapping : Mapping) : Nat × Nat := (mapping.start.toNat, mapping.end.toNat)

/-- A mapping list as the kernel presents it: ordered, page-aligned ranges that
do not overlap. -/
structure Regular (pagesize : Nat) (maps : List Mapping) : Prop where
  ordered : ∀ mapping ∈ maps, mapping.start.toNat ≤ mapping.end.toNat
  aligned : ∀ mapping ∈ maps, pagesize ∣ mapping.start.toNat ∧ pagesize ∣ mapping.end.toNat
  apart : (maps.map Mapping.range).Pairwise Apart

theorem range_of_plain {mapping other : Mapping} (same : mapping.plain = other.plain) :
    mapping.start.toNat = other.start.toNat ∧ mapping.end.toNat = other.end.toNat := by
  have ranges : mapping.plain.range = other.plain.range := congrArg Mapping.range same
  exact Prod.mk.inj ranges

/-- What holds of the ranges of all mappings does not depend on the smaps details. -/
theorem enriched_ranges {maps : List Mapping} {holds : Nat → Nat → Prop}
    (ranges : ∀ mapping ∈ maps, holds mapping.start.toNat mapping.end.toNat) (file : ProcFile) :
    ∀ mapping ∈ enrichFromSmaps file maps, holds mapping.start.toNat mapping.end.toNat := by
  intro mapping member
  obtain ⟨source, listed, same⟩ := enriched_origin member
  obtain ⟨start, stop⟩ := range_of_plain same
  rw [← start, ← stop]
  exact ranges source listed

/-- Regularity does not depend on the smaps details. -/
theorem Regular.enriched {pagesize : Nat} {maps : List Mapping} (regular : Regular pagesize maps)
    (file : ProcFile) : Regular pagesize (enrichFromSmaps file maps) := by
  have ranges : (enrichFromSmaps file maps).map Mapping.range = maps.map Mapping.range := by
    have mapped := congrArg (List.map Mapping.range) (enrichFromSmaps_plain file maps)
    rwa [List.map_map, List.map_map] at mapped
  refine ⟨enriched_ranges regular.ordered file, ?_, by rw [ranges]; exact regular.apart⟩
  exact @enriched_ranges _ (fun start stop => pagesize ∣ start ∧ pagesize ∣ stop) regular.aligned file

/-- How a finalized record comes from the parsed one: its leading zero pages are
skipped, and what is written lies in the rest of the mapping, all of it if wanted. -/
structure Finalized (kernel : Kernel) (mapping finalized : Mapping) : Prop where
  selected : mapping.Selected
  «end» : finalized.end = mapping.end
  start : mapping.start.toNat ≤ finalized.start.toNat
  nonempty : finalized.start.toNat < finalized.end.toNat
  lead : LeadingZeros kernel mapping.start.toNat (mapping.end.toNat - mapping.start.toNat)
    (finalized.start.toNat - mapping.start.toNat)
  wanted : mapping.Wanted → finalized.writeSize.toNat = finalized.end.toNat - finalized.start.toNat
  bounded : finalized.writeSize.toNat ≤ finalized.end.toNat - finalized.start.toNat
  nameLen : finalized.nameLen = mapping.nameLen

/-- Why a mapping leaves no record. -/
def Dropped (kernel : Kernel) (mapping : Mapping) : Prop :=
  mapping.Selected → LeadingZeros kernel mapping.start.toNat (mapping.end.toNat - mapping.start.toNat)
    (mapping.end.toNat - mapping.start.toNat)

/-- The state the scan of one mapping needs and keeps. -/
structure Scannable (kernel : Kernel) (pagesize : UInt64) (scratch : Bytes) (world : World) : Prop where
  runtime : pagesize.toNat = kernel.pageSize
  power : ∃ exponent, pagesize.toNat = 2 ^ exponent
  buffer : kernel.pageSize ≤ scratch.length
  ready : Ready world kernel.pageSize

/-- After a settled call the scan is as able as it was. -/
theorem Scannable.settled {kernel : Kernel} {pagesize : UInt64} {scratch scratchAfter : Bytes} {world after : World}
    (scannable : Scannable kernel pagesize scratch world) (size : scratchAfter.length = scratch.length)
    (settled : Settles world after) : Scannable kernel pagesize scratchAfter after :=
  ⟨scannable.runtime, scannable.power, by rw [size]; exact scannable.buffer, scannable.ready.settled settled⟩

section Documented

variable {kernel : Kernel} {pagesize : UInt64}

/-- The page behind the skipped ones holds data, so its bytes can be loaded. -/
theorem readable_behind (documented : Documented kernel) {mem len lead : Nat}
    (zeros : LeadingZeros kernel mem len lead) (aligned : kernel.pageSize ∣ mem) (less : lead < len) :
    ∀ index < elfMag.length, kernel.readable (mem + lead + index) := by
  intro place within
  obtain ⟨positive, pages⟩ := documented.pages
  obtain ⟨index, inside, readable, _⟩ := zeros.data less
  have large : 4096 ≤ kernel.pageSize := Nat.le_of_dvd positive pages
  have below : place < kernel.pageSize := Nat.lt_of_lt_of_le within (Nat.le_trans (by decide) large)
  exact readable_of_samePage (fun _ => samePage_of_aligned positive (Nat.dvd_add aligned zeros.pages)) inside below
    readable

/-- All of a wanted mapping is written. -/
theorem writeSizeOf_wanted {mapping : Mapping} {lead writeSize : UInt64} (wanted : mapping.Wanted)
    (size : writeSizeOf kernel pagesize (mapping.behind lead) = some writeSize) :
    writeSize = mapping.end - (mapping.start + lead) := by
  unfold writeSizeOf at size
  simp only [Mapping.behind, Perms.elfWritable_elfAccessBits] at size
  rw [if_pos (by simpa [Mapping.Wanted, or_assoc] using wanted)] at size
  exact (Option.some.inj size).symm

theorem finalizeMapping_documented (documented : Documented kernel) {mapping : Mapping}
    {scratch : Bytes} {world : World} (scannable : Scannable kernel pagesize scratch world)
    (ordered : mapping.start.toNat ≤ mapping.end.toNat)
    (aligned : kernel.pageSize ∣ mapping.start.toNat ∧ kernel.pageSize ∣ mapping.end.toNat) :
    (∀ finalized ∈ (finalizeMapping kernel pagesize mapping scratch world).1,
        Finalized kernel mapping finalized) ∧
      ((finalizeMapping kernel pagesize mapping scratch world).1 = none → Dropped kernel mapping) ∧
      (finalizeMapping kernel pagesize mapping scratch world).2.1.length = scratch.length ∧
      Settles world (finalizeMapping kernel pagesize mapping scratch world).2.2 := by
  have length : (mapping.end - mapping.start).toNat = mapping.end.toNat - mapping.start.toNat :=
    UInt64.toNat_sub_of_le _ _ (UInt64.le_iff_toNat_le.mpr ordered)
  have high := mapping.end.toNat_lt
  have range : PageRange kernel mapping.start.toNat (mapping.end - mapping.start).toNat scratch.length
      world := ⟨aligned.1, by rw [length]; exact Nat.dvd_sub aligned.2 aligned.1, by omega,
        scannable.buffer, scannable.ready⟩
  obtain ⟨exponent, power⟩ := scannable.power
  obtain ⟨lead, scratchKept, settled⟩ :=
    leadingZeros_documented documented scannable.runtime power (UInt64.toNat_lt _) range
  rcases scanned : leadingZeros kernel mapping.start.toNat (mapping.end - mapping.start).toNat pagesize
    scratch world with ⟨skip, scratchAfter, worldAfter⟩
  simp only [scanned] at lead scratchKept settled
  rw [length] at lead
  have within := lead.within
  have start : (mapping.start + skip).toNat = mapping.start.toNat + skip.toNat :=
    (UInt64.toNat_add ..).trans (Nat.mod_eq_of_lt (by omega))
  have below : mapping.end ≠ mapping.start + skip → (mapping.start + skip).toNat < mapping.end.toNat := by
    intro less
    have differs := mt UInt64.toNat_inj.mp less
    omega
  have pages : kernel.pageSize ∣ (mapping.start + skip).toNat := by
    rw [start]
    exact Nat.dvd_add aligned.1 lead.pages
  have outcome := finalizeMapping_outcome scanned
  generalize finalizeMapping kernel pagesize mapping scratch world = result at outcome ⊢
  cases outcome with
  | unselected unselected =>
      exact ⟨fun _ absent => (by cases absent), fun _ selected => absurd selected unselected, rfl, Settles.refl _⟩
  | skipped _ whole =>
      refine ⟨fun _ absent => (by cases absent), fun _ _ => ?_, scratchKept, settled⟩
      have skipped : skip.toNat = mapping.end.toNat - mapping.start.toNat := by
        rw [whole, start]
        omega
      rwa [skipped] at lead
  | kept selected less writeSize size =>
      refine ⟨?_, fun absent => (by cases absent), scratchKept, settled⟩
      have before := below less
      have bounded := writeSizeOf_le size before ⟨by rw [scannable.runtime]; exact pages,
        by rw [scannable.runtime]; exact aligned.2⟩
      rintro finalized ⟨rfl⟩
      refine ⟨selected, rfl, ?_, before, ?_, ?_, bounded, rfl⟩
      · rw [Mapping.sized, Mapping.behind, start]
        omega
      · rw [Mapping.sized, Mapping.behind, start, Nat.add_sub_cancel_left]
        exact lead
      · intro wanted
        rw [Mapping.sized, writeSizeOf_wanted wanted size]
        exact UInt64.toNat_sub_of_le _ _ (UInt64.le_iff_toNat_le.mpr (Nat.le_of_lt before))
  | faulted selected less fault =>
      have before := below less
      rw [writeSizeOf_readable (start ▸ readable_behind documented lead aligned.1 (by omega))] at fault
      cases fault

/-- The finalized records in order, each mapping leaving one or none. -/
inductive Selects (kernel : Kernel) : List Mapping → List Mapping → Prop where
  | nil : Selects kernel [] []
  | keep {mapping finalized : Mapping} {rest kept : List Mapping} :
      Finalized kernel mapping finalized → Selects kernel rest kept →
      Selects kernel (mapping :: rest) (finalized :: kept)
  | drop {mapping : Mapping} {rest kept : List Mapping} :
      Dropped kernel mapping → Selects kernel rest kept → Selects kernel (mapping :: rest) kept

theorem finalizeList_selects (documented : Documented kernel) {maps : List Mapping} {scratch : Bytes}
    {world : World} (scannable : Scannable kernel pagesize scratch world)
    (ordered : ∀ mapping ∈ maps, mapping.start.toNat ≤ mapping.end.toNat)
    (aligned : ∀ mapping ∈ maps,
      kernel.pageSize ∣ mapping.start.toNat ∧ kernel.pageSize ∣ mapping.end.toNat) :
    Selects kernel maps (finalizeList kernel pagesize maps scratch world).1 ∧
      Settles world (finalizeList kernel pagesize maps scratch world).2.2 := by
  induction maps generalizing scratch world with
  | nil => exact ⟨.nil, Settles.refl _⟩
  | cons mapping rest ih =>
      obtain ⟨finalized, dropped, size, settled⟩ := finalizeMapping_documented documented scannable
        (ordered mapping List.mem_cons_self) (aligned mapping List.mem_cons_self)
      simp only [finalizeList]
      generalize finalizeMapping kernel pagesize mapping scratch world = outcome at *
      obtain ⟨result, scratchAfter, worldAfter⟩ := outcome
      obtain ⟨selects, settledRest⟩ := ih (scannable.settled size settled)
        (fun other member => ordered other (List.mem_cons_of_mem _ member))
        (fun other member => aligned other (List.mem_cons_of_mem _ member))
      refine ⟨?_, settled.trans settledRest⟩
      cases result with
      | none => exact .drop (dropped rfl) selects
      | some record => exact .keep (finalized record rfl) selects

end Documented

namespace Selects

variable {kernel : Kernel} {maps kept : List Mapping}

/-- Every record comes from a mapping. -/
theorem origin (selects : Selects kernel maps kept) :
    ∀ finalized ∈ kept, ∃ mapping ∈ maps, Finalized kernel mapping finalized := by
  induction selects with
  | nil => intro finalized member; cases member
  | @keep mapping _ _ _ record _ ih =>
      intro finalized member
      rcases List.mem_cons.mp member with rfl | later
      · exact ⟨mapping, List.mem_cons_self, record⟩
      · obtain ⟨other, listed, comes⟩ := ih finalized later
        exact ⟨other, List.mem_cons_of_mem _ listed, comes⟩
  | drop _ _ ih =>
      intro finalized member
      obtain ⟨other, listed, comes⟩ := ih finalized member
      exact ⟨other, List.mem_cons_of_mem _ listed, comes⟩

/-- Every mapping left a record or was dropped. -/
theorem outcome (selects : Selects kernel maps kept) :
    ∀ mapping ∈ maps, (∃ finalized ∈ kept, Finalized kernel mapping finalized) ∨ Dropped kernel mapping := by
  induction selects with
  | nil => intro mapping member; cases member
  | @keep _ finalized _ _ record _ ih =>
      intro mapping member
      rcases List.mem_cons.mp member with rfl | later
      · exact .inl ⟨finalized, List.mem_cons_self, record⟩
      · refine (ih mapping later).imp_left ?_
        rintro ⟨other, listed, comes⟩
        exact ⟨other, List.mem_cons_of_mem _ listed, comes⟩
  | drop dropped _ ih =>
      intro mapping member
      rcases List.mem_cons.mp member with rfl | later
      · exact .inr dropped
      · exact ih mapping later

theorem nonempty (selects : Selects kernel maps kept) :
    ∀ record ∈ kept, record.start.toNat < record.end.toNat := by
  intro record member
  obtain ⟨_, _, comes⟩ := selects.origin record member
  exact comes.nonempty

theorem length_le (selects : Selects kernel maps kept) : kept.length ≤ maps.length := by
  induction selects with
  | nil => exact Nat.le_refl _
  | keep _ _ ih => exact Nat.succ_le_succ ih
  | drop _ _ ih => exact Nat.le_succ_of_le ih

/-- Records of mappings that do not overlap do not overlap. -/
theorem apart (selects : Selects kernel maps kept) (disjoint : (maps.map Mapping.range).Pairwise Apart) :
    (kept.map Mapping.range).Pairwise Apart := by
  induction selects with
  | nil => exact List.Pairwise.nil
  | keep record selects ih =>
      obtain ⟨here, later⟩ := List.pairwise_cons.mp disjoint
      refine List.pairwise_cons.mpr ⟨?_, ih later⟩
      intro range member
      obtain ⟨other, listed, rfl⟩ := List.mem_map.mp member
      obtain ⟨source, original, comes⟩ := selects.origin other listed
      have separate := here source.range (List.mem_map_of_mem original)
      have ends := congrArg UInt64.toNat record.end
      have otherEnds := congrArg UInt64.toNat comes.end
      have starts := record.start
      have otherStarts := comes.start
      simp only [Apart, Mapping.range] at separate ⊢
      omega
  | drop _ _ ih => exact ih (List.pairwise_cons.mp disjoint).2

/-- The records together write no more than is mapped. -/
theorem sum_writeSize_le (selects : Selects kernel maps kept) :
    (kept.map fun mapping => mapping.writeSize.toNat).sum ≤
      (maps.map fun mapping => mapping.end.toNat - mapping.start.toNat).sum := by
  induction selects with
  | nil => exact Nat.le_refl _
  | keep record _ ih =>
      have ends := congrArg UInt64.toNat record.end
      have start := record.start
      have bounded := record.bounded
      simp only [List.map_cons, List.sum_cons]
      omega
  | drop _ _ ih =>
      simp only [List.map_cons, List.sum_cons]
      omega

end Selects

end Corus.Proc
