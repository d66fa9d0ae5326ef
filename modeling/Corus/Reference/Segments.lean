import Corus.Reference.Header

/-!
# What the C library keeps of a mapping

Both libraries skip the same leading pages of a mapping: whole pages of zeros or without
access are a number that only one value has, so that it does not matter how they are
counted. Then one mapping leaves the same segment.
-/

namespace Corus.Reference

open Corus.Logical Corus.Platform Corus.Elf Corus.Memory Corus.Proc

/-! ## Leading zeros -/

/-- A page that goes through the pipe of the C library: written and read in full if all of
it can be read. -/
def loopbackPage (kernel : Kernel) (address : Nat) : Option Bytes :=
  if (List.range kernel.pageSize).all fun index => kernel.readable (address + index) then
    some (kernel.memoryRange address kernel.pageSize)
  else none

section Zeros

variable {kernel : Kernel} {mem len : Nat}

/-- There is one number of leading pages. -/
theorem leadingZeros_unique {first second : Nat} (one : LeadingZeros kernel mem len first)
    (other : LeadingZeros kernel mem len second) : first = second := by
  have least : ∀ {less more : Nat}, LeadingZeros kernel mem len less → LeadingZeros kernel mem len more → more ≤ less := by
    intro less more short long
    by_contra beyond
    have before : less < more := Nat.lt_of_not_le beyond
    obtain ⟨index, inside, readable, data⟩ := short.data (Nat.lt_of_lt_of_le before long.within)
    have page : less + kernel.pageSize ≤ more := by
      obtain ⟨pages, rfl⟩ := short.pages
      obtain ⟨morePages, rfl⟩ := long.pages
      rw [← Nat.mul_succ]
      exact Nat.mul_le_mul_left _ (Nat.lt_of_mul_lt_mul_left before)
    have blank := long.zeros (less + index) (by omega)
    rw [← Nat.add_assoc, Kernel.visible, if_pos readable] at blank
    exact data blank
  exact Nat.le_antisymm (least other one) (least one other)

/-- The pages of an aligned range are readable as a whole or not at all. -/
theorem readable_page (positive : 0 < kernel.pageSize) {address index : Nat} (aligned : kernel.pageSize ∣ address)
    (inside : index < kernel.pageSize) : kernel.readable (address + index) = kernel.readable address := by
  rw [Kernel.readable, Kernel.readable, samePage_of_aligned positive aligned inside]

theorem loopbackPage_eq (positive : 0 < kernel.pageSize) {address : Nat} (aligned : kernel.pageSize ∣ address) :
    loopbackPage kernel address =
      if kernel.readable address then some (kernel.memoryRange address kernel.pageSize) else none := by
  have whole : ((List.range kernel.pageSize).all fun index => kernel.readable (address + index)) =
      kernel.readable address := by
    rw [Bool.eq_iff_iff, List.all_eq_true]
    constructor
    · intro all
      exact all 0 (List.mem_range.mpr positive)
    · intro readable index member
      rw [readable_page positive aligned (List.mem_range.mp member)]
      exact readable
  rw [loopbackPage, whole]

/-- What is ahead in the buffer at a byte of a page. -/
structure Ahead (kernel : Kernel) (mem count : Nat) (ahead : Bytes) : Prop where
  bytes : ahead = kernel.memoryRange (mem + count) (kernel.pageSize - count % kernel.pageSize)
  readable : kernel.readable (mem + count) = true

/-- The byte at the count comes first, and the rest of its page behind it. -/
theorem Ahead.next (positive : 0 < kernel.pageSize) (start : kernel.pageSize ∣ mem) {count : Nat} {ahead : Bytes}
    (inPage : Ahead kernel mem count ahead) :
    ∃ rest, ahead = kernel.memory (mem + count) :: rest ∧
      ((count + 1) % kernel.pageSize ≠ 0 → Ahead kernel mem (count + 1) rest) := by
  have below := Nat.mod_lt count positive
  obtain ⟨left, size⟩ : ∃ left, kernel.pageSize - count % kernel.pageSize = left + 1 :=
    ⟨kernel.pageSize - count % kernel.pageSize - 1, by omega⟩
  refine ⟨kernel.memoryRange (mem + count + 1) left, ?_, ?_⟩
  · rw [inPage.bytes, size, Kernel.memoryRange_succ]
  · intro inside
    rcases succ_page positive count with ⟨_, boundary, _⟩ | ⟨next, same⟩
    · exact absurd boundary inside
    · constructor
      · rw [next, Nat.add_assoc]
        congr 1
        omega
      · have page : (mem + (count + 1)) / kernel.pageSize = (mem + count) / kernel.pageSize := by
          obtain ⟨pages, rfl⟩ := start
          rw [Nat.mul_add_div positive, Nat.mul_add_div positive, same]
        have readable := inPage.readable
        rw [Kernel.readable] at readable ⊢
        rw [page]
        exact readable

section Rounds

variable {loopback : Nat → Option Bytes} {pagesize rounds count : Nat} {ahead : Bytes}

/-- A round inside of a page. -/
theorem countZeros_inside {byte : Byte} (more : count < len) (inside : count % pagesize ≠ 0) :
    countZeros loopback mem len pagesize (rounds + 1) count (byte :: ahead) =
      if byte = 0 then countZeros loopback mem len pagesize rounds (count + 1) ahead else count := by
  simp only [countZeros, more, inside, if_true, if_false]
  by_cases blank : byte = 0
  · rw [blank, if_pos rfl]
    rfl
  · rw [if_neg blank]
    split
    · rename_i same
      cases same
      exact absurd rfl blank
    · rfl

/-- A round at the begin of a page that comes through the pipe. -/
theorem countZeros_fetched {byte : Byte} {page : Bytes} (more : count < len) (boundary : count % pagesize = 0)
    (fetched : loopback (mem + count) = some (byte :: page)) :
    countZeros loopback mem len pagesize (rounds + 1) count ahead =
      if byte = 0 then countZeros loopback mem len pagesize rounds (count + 1) page else count := by
  simp only [countZeros, more, boundary, fetched, if_true]
  by_cases blank : byte = 0
  · rw [blank, if_pos rfl]
    rfl
  · rw [if_neg blank]
    split
    · rename_i failed
      cases failed
    · rename_i same
      cases same
      exact absurd rfl blank
    · rfl

/-- A round at the begin of a page that does not. -/
theorem countZeros_skipped (more : count < len) (boundary : count % pagesize = 0)
    (failed : loopback (mem + count) = none) :
    countZeros loopback mem len pagesize (rounds + 1) count ahead =
      countZeros loopback mem len pagesize rounds (count + pagesize) ahead := by
  simp only [countZeros, more, boundary, failed, if_true]

end Rounds

/-- What the counter of the C library ends with. -/
structure CountedZeros (kernel : Kernel) (mem len count : Nat) : Prop where
  within : count ≤ len
  zeros : ∀ index < count, kernel.visible (mem + index) = 0
  data : count < len → kernel.readable (mem + count) ∧ kernel.memory (mem + count) ≠ 0

/-- The loop of the C library, with the rest of a page in the buffer between two pages. -/
theorem countZeros_counted (positive : 0 < kernel.pageSize) (start : kernel.pageSize ∣ mem)
    (whole : kernel.pageSize ∣ len) {rounds count : Nat} {ahead : Bytes} (within : count ≤ len)
    (enough : len ≤ rounds + count) (zeros : ∀ index < count, kernel.visible (mem + index) = 0)
    (loaded : count % kernel.pageSize ≠ 0 → Ahead kernel mem count ahead) :
    CountedZeros kernel mem len (countZeros (loopbackPage kernel) mem len kernel.pageSize rounds count ahead) := by
  induction rounds generalizing count ahead with
  | zero =>
      simp only [countZeros]
      exact ⟨within, zeros, fun less => absurd less (by omega)⟩
  | succ rounds ih =>
      by_cases more : count < len
      swap
      · simp only [countZeros, more, if_false]
        exact ⟨within, zeros, fun less => absurd less more⟩
      -- What a round does with a byte that could be read.
      have inspect : ∀ bytes, Ahead kernel mem count bytes → ∃ rest, bytes = kernel.memory (mem + count) :: rest ∧
          CountedZeros kernel mem len (if kernel.memory (mem + count) = 0 then
            countZeros (loopbackPage kernel) mem len kernel.pageSize rounds (count + 1) rest else count) := by
        intro bytes inPage
        obtain ⟨rest, split, next⟩ := inPage.next positive start
        refine ⟨rest, split, ?_⟩
        by_cases blank : kernel.memory (mem + count) = 0
        · rw [if_pos blank]
          refine ih more (by omega) ?_ next
          intro index before
          rcases Nat.lt_succ_iff_lt_or_eq.mp before with less | rfl
          · exact zeros index less
          · rw [Kernel.visible, if_pos inPage.readable, blank]
        · rw [if_neg blank]
          exact ⟨within, zeros, fun _ => ⟨inPage.readable, blank⟩⟩
      by_cases boundary : count % kernel.pageSize = 0
      · have aligned : kernel.pageSize ∣ mem + count := Nat.dvd_add start (Nat.dvd_of_mod_eq_zero boundary)
        have page := loopbackPage_eq positive aligned
        by_cases readable : kernel.readable (mem + count) = true
        · rw [if_pos readable] at page
          obtain ⟨rest, bytes, counted⟩ := inspect (kernel.memoryRange (mem + count) kernel.pageSize)
            ⟨by rw [boundary, Nat.sub_zero], readable⟩
          rw [countZeros_fetched more boundary (page.trans (congrArg some bytes))]
          exact counted
        · rw [if_neg readable] at page
          rw [countZeros_skipped more boundary page]
          refine ih (page_fits whole boundary more) (by omega) ?_ ?_
          · intro index before
            by_cases less : index < count
            · exact zeros index less
            · have hidden := readable_page positive aligned (show index - count < kernel.pageSize by omega)
              rw [show mem + count + (index - count) = mem + index by omega] at hidden
              rw [Kernel.visible, hidden, if_neg readable]
          · intro inside
            rw [Nat.add_mod_right] at inside
            exact absurd boundary inside
      · obtain ⟨rest, bytes, counted⟩ := inspect ahead (loaded boundary)
        rw [bytes, countZeros_inside more boundary]
        exact counted

/-- The count in whole pages. -/
theorem CountedZeros.leadingZeros {count : Nat} (counted : CountedZeros kernel mem len count)
    (positive : 0 < kernel.pageSize) (whole : kernel.pageSize ∣ len) :
    LeadingZeros kernel mem len (count / kernel.pageSize * kernel.pageSize) := by
  have down : count / kernel.pageSize * kernel.pageSize ≤ count := Nat.div_mul_le_self ..
  refine ⟨Nat.dvd_mul_left .., Nat.le_trans down counted.within, ?_, ?_⟩
  · intro index before
    exact counted.zeros index (Nat.lt_of_lt_of_le before down)
  · intro less
    have unfinished : count < len := by
      refine Nat.lt_of_le_of_ne counted.within ?_
      rintro rfl
      rw [Nat.div_mul_cancel whole] at less
      exact Nat.lt_irrefl _ less
    obtain ⟨readable, nonzero⟩ := counted.data unfinished
    have place : mem + count / kernel.pageSize * kernel.pageSize + count % kernel.pageSize = mem + count := by
      rw [Nat.add_assoc, Nat.mul_comm, Nat.div_add_mod]
    refine ⟨count % kernel.pageSize, Nat.mod_lt _ positive, ?_, ?_⟩
    · rw [place]
      exact readable
    · rw [place]
      exact nonzero

/-- All of a range without access is skipped. -/
theorem leadingZeros_hidden (whole : kernel.pageSize ∣ len)
    (hidden : ∀ index < len, kernel.readable (mem + index) = false) : LeadingZeros kernel mem len len := by
  refine ⟨whole, Nat.le_refl _, ?_, fun less => absurd less (Nat.lt_irrefl _)⟩
  intro index inside
  rw [Kernel.visible, hidden index inside]
  rfl

/-- Both libraries skip the same pages. -/
theorem leadingZeros_eq (documented : Documented kernel) {pagesize : UInt64} {scratch : Bytes} {world : World}
    (runtime : pagesize.toNat = kernel.pageSize) {exponent : Nat} (power : pagesize.toNat = 2 ^ exponent)
    (small : len < 2 ^ 64) (range : PageRange kernel mem len scratch.length world) :
    leadingZeros (loopbackPage kernel) mem len pagesize = (Memory.leadingZeros kernel mem len pagesize scratch world).1 := by
  have positive := documented.pages.1
  obtain ⟨port, -, -⟩ := leadingZeros_documented documented runtime power small range
  have counted : CountedZeros kernel mem len (countZeros (loopbackPage kernel) mem len kernel.pageSize len 0 []) :=
    countZeros_counted positive range.start range.whole (Nat.zero_le _) (Nat.le_refl _) (by simp) (by simp)
  have within := counted.within
  apply UInt64.toNat_inj.mp
  refine Eq.trans ?_ (leadingZeros_unique (counted.leadingZeros positive range.whole) port)
  rw [leadingZeros, toNat_alignDown power, runtime, UInt64.toNat_ofNat', Nat.mod_eq_of_lt (by omega)]

end Zeros

/-! ## One mapping -/

/-- What the C library makes of the lines behind a header, compared with what the port does:
an excluded mapping without `dd` cannot be read. -/
structure Detailed (kernel : Kernel) (details : Details) (mapping : Mapping) : Prop where
  anonymous : details.anonymous = mapping.hasAnonPages
  dontdump : mapping.dontdump = true → details.dontdump = true
  hidden : details.dontdump = true → mapping.dontdump = false →
    ∀ index < (mapping.end - mapping.start).toNat, kernel.readable (mapping.start.toNat + index) = false

/-- A mapping leaves the same segment in both libraries. -/
theorem keepSegment_eq {kernel : Kernel} (documented : Documented kernel) {pagesize : UInt64} {scratch : Bytes}
    {world : World} (scannable : Scannable kernel pagesize scratch world) {mapping : Mapping} {details : Details}
    (device : isDevice (segmentOf mapping) = mapping.isDevice) (detailed : Detailed kernel details mapping)
    (ordered : mapping.start.toNat ≤ mapping.end.toNat)
    (aligned : kernel.pageSize ∣ mapping.start.toNat ∧ kernel.pageSize ∣ mapping.end.toNat) :
    keepSegment kernel.memory (loopbackPage kernel) pagesize details (segmentOf mapping) =
      (finalizeMapping kernel pagesize mapping scratch world).1.map segmentOf := by
  have length : (mapping.end - mapping.start).toNat = mapping.end.toNat - mapping.start.toNat :=
    UInt64.toNat_sub_of_le _ _ (UInt64.le_iff_toNat_le.mpr ordered)
  have high := mapping.end.toNat_lt
  have range : PageRange kernel mapping.start.toNat (mapping.end - mapping.start).toNat scratch.length world :=
    ⟨aligned.1, by rw [length]; exact Nat.dvd_sub aligned.2 aligned.1, by omega, scannable.buffer, scannable.ready⟩
  obtain ⟨exponent, power⟩ := scannable.power
  have small : (mapping.end - mapping.start).toNat < 2 ^ 64 := UInt64.toNat_lt _
  have lead : leadingZeros (loopbackPage kernel) (segmentOf mapping).startAddress.toNat
      ((segmentOf mapping).endAddress - (segmentOf mapping).startAddress).toNat pagesize =
      (Memory.leadingZeros kernel mapping.start.toNat (mapping.end - mapping.start).toNat pagesize scratch world).1 :=
    leadingZeros_eq documented scannable.runtime power small range
  have unreadable : (mapping.flags.elfAccessBits.bits &&& pfR.toUInt16 == 0) = !mapping.flags.readable := by
    rw [← Perms.elfReadable_elfAccessBits, Perms.elfReadable, bne, Bool.not_not]
    rfl
  have skipped : (isDevice (segmentOf mapping) || details.dontdump || !mapping.flags.readable) = true →
      keepSegment kernel.memory (loopbackPage kernel) pagesize details (segmentOf mapping) = none := by
    intro skip
    rw [← unreadable] at skip
    exact if_pos skip
  obtain ⟨port, -, -⟩ := leadingZeros_documented documented scannable.runtime power small range
  rcases scanned : Memory.leadingZeros kernel mapping.start.toNat (mapping.end - mapping.start).toNat pagesize scratch
    world with ⟨skip, after⟩
  rw [scanned] at lead port
  simp only at lead port
  have loads : mapping.end ≠ mapping.start + skip →
      ∀ index < elfMag.length, kernel.readable ((mapping.behind skip).start.toNat + index) := by
    intro less
    have within := port.within
    have start : (mapping.start + skip).toNat = mapping.start.toNat + skip.toNat :=
      (UInt64.toNat_add ..).trans (Nat.mod_eq_of_lt (by omega))
    have differs := mt UInt64.toNat_inj.mp less
    rw [show (mapping.behind skip).start.toNat = _ from start]
    exact readable_behind documented port aligned.1 (by omega)
  have outcome := finalizeMapping_outcome scanned
  generalize finalizeMapping kernel pagesize mapping scratch world = result at outcome ⊢
  cases outcome with
  | unselected unselected =>
      rw [Option.map_none]
      apply skipped
      by_contra considered
      simp only [Bool.or_eq_true, not_or, Bool.not_eq_true, Bool.not_eq_false'] at considered
      refine unselected ⟨considered.2, device ▸ considered.1.1, ?_⟩
      by_contra dontdump
      rw [detailed.dontdump (Bool.not_eq_false _ ▸ dontdump)] at considered
      exact absurd considered.1.2 (by decide)
  | skipped selected whole =>
      rw [Option.map_none]
      by_cases excluded : details.dontdump = true
      · exact skipped (by simp [excluded])
      · unfold keepSegment
        simp only [lead]
        split
        · rfl
        · exact if_pos (beq_iff_eq.mpr whole)
  | kept selected less writeSize size =>
      have included : details.dontdump = false := by
        by_contra excluded
        apply less
        have hidden := leadingZeros_hidden range.whole
          (detailed.hidden (Bool.not_eq_false _ ▸ excluded) selected.2.2)
        have all := UInt64.toNat_inj.mp (leadingZeros_unique hidden port)
        rw [← all, UInt64.add_comm, UInt64.sub_add_cancel]
      have considered : ¬ (isDevice (segmentOf mapping) || details.dontdump ||
          mapping.flags.elfAccessBits.bits &&& pfR.toUInt16 == 0) = true := by
        rw [unreadable, device, included, selected.1, selected.2.1]
        decide
      rw [writeSizeOf_readable (loads less)] at size
      unfold keepSegment
      simp only [lead]
      refine (if_neg considered).trans ((if_neg (mt beq_iff_eq.mp less)).trans ?_)
      rw [← Option.some.inj size]
      simp only [detailed.anonymous]
      rfl
  | faulted selected less fault =>
      rw [writeSizeOf_readable (loads less)] at fault
      cases fault

end Corus.Reference
