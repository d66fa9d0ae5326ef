import Corus.Elf.Structs

/-!
# The vDSO image

`sanitize_vdso` decides from the bytes at an alleged ELF header whether they are an image
that lies inside a given mapping. It checks the end of everything it reads, but its sums
wrap at the end of the address space and nothing compares the header with the start of the
mapping; `contained_iff` says for which inputs this does no harm.
-/

namespace Corus.Proc

open Corus.Logical Corus.Elf

/-- The memory of the process, byte by byte. -/
abbrev AddressSpace := UInt64 → Byte

namespace AddressSpace

variable (memory : AddressSpace) (address : UInt64)

/-- The little-endian number in `width` bytes of memory. -/
def word (width : Nat) : Nat :=
  leValue ((List.range width).map fun index => memory (address + UInt64.ofNat index))

def u16At : UInt16 := UInt16.ofNat (memory.word address 2)

def u32At : UInt32 := UInt32.ofNat (memory.word address 4)

def u64At : UInt64 := UInt64.ofNat (memory.word address 8)

/-- The record behind a `*const Ehdr`. -/
def ehdrAt : Ehdr where
  eIdent := Vector.ofFn fun index => memory (address + UInt64.ofNat index)
  eType := memory.u16At (address + 16)
  eMachine := memory.u16At (address + 18)
  eVersion := memory.u32At (address + 20)
  eEntry := memory.u64At (address + 24)
  ePhoff := memory.u64At (address + 32)
  eShoff := memory.u64At (address + 40)
  eFlags := memory.u32At (address + 48)
  eEhsize := memory.u16At (address + 52)
  ePhentsize := memory.u16At (address + 54)
  ePhnum := memory.u16At (address + 56)
  eShentsize := memory.u16At (address + 58)
  eShnum := memory.u16At (address + 60)
  eShstrndx := memory.u16At (address + 62)

/-- The record behind a `*const Phdr`. -/
def phdrAt : Phdr where
  pType := memory.u32At address
  pFlags := memory.u32At (address + 4)
  pOffset := memory.u64At (address + 8)
  pVaddr := memory.u64At (address + 16)
  pPaddr := memory.u64At (address + 24)
  pFilesz := memory.u64At (address + 32)
  pMemsz := memory.u64At (address + 40)
  pAlign := memory.u64At (address + 48)

/-- `slice::from_raw_parts` of program headers. -/
def phdrsAt (count : Nat) : List Phdr :=
  (List.range count).map fun index => memory.phdrAt (address + UInt64.ofNat (index * phdrSize))

end AddressSpace

/-- `is_aligned_to`. -/
def isAlignedTo (value align : UInt64) : Bool := value &&& (align - 1) == 0

/-- `size_of::<usize>()`. -/
def wordAlign : UInt64 := 8

/-- The bytes a reference covers. The compiler may read all of them once it is made. -/
structure Access where
  address : UInt64
  size : Nat
deriving DecidableEq

/-- What `sanitize_vdso` reads and what it returns. -/
structure Inspection where
  accesses : List Access
  vouched : Option UInt64

/-- The checks before the header is read. -/
def headerRefused (ehdrAddr stop : UInt64) : Bool :=
  ehdrAddr == 0 || !isAlignedTo ehdrAddr wordAlign || decide (stop ≤ ehdrAddr + UInt64.ofNat ehdrSize)

/-- `phdr_addr`. -/
def phdrAddr (ehdr : Ehdr) (ehdrAddr : UInt64) : UInt64 := ehdrAddr + ehdr.ePhoff

/-- The checks between reading the header and reading the table. -/
def tableRefused (ehdr : Ehdr) (ehdrAddr start stop : UInt64) : Bool :=
  let phdrEnd := phdrAddr ehdr ehdrAddr + ehdr.ePhnum.toUInt64 * UInt64.ofNat phdrSize
  !isAlignedTo ehdr.ePhoff wordAlign || decide (phdrAddr ehdr ehdrAddr ≤ start) || decide (stop ≤ phdrEnd)

/-- The check of `phdrs[0]`. -/
def firstRefused (start stop : UInt64) (phdr : Phdr) : Bool :=
  phdr.pType != ptLoad || phdr.pVaddr != start || decide (stop ≤ phdr.pVaddr + phdr.pMemsz)

/-- The check of every other program header. -/
def otherRefused (start stop : UInt64) (phdr : Phdr) : Bool :=
  phdr.pType == ptLoad || !isAlignedTo phdr.pVaddr wordAlign || decide (phdr.pVaddr ≤ start) ||
    decide (stop ≤ phdr.pVaddr + phdr.pFilesz)

/-- The checks of the program headers. -/
def phdrsRefused (start stop : UInt64) : List Phdr → Bool
  | [] => true
  | first :: others => firstRefused start stop first || others.any (otherRefused start stop)

/-- `sanitize_vdso`. -/
def sanitizeVdso (memory : AddressSpace) (ehdrAddr start stop : UInt64) : Inspection :=
  if headerRefused ehdrAddr stop then
    ⟨[], none⟩
  else
    let ehdr := memory.ehdrAt ehdrAddr
    let header : Access := ⟨ehdrAddr, ehdrSize⟩
    if tableRefused ehdr ehdrAddr start stop then
      ⟨[header], none⟩
    else
      let phnum := ehdr.ePhnum.toNat
      let phdrs := memory.phdrsAt (phdrAddr ehdr ehdrAddr) phnum
      let table : Access := ⟨phdrAddr ehdr ehdrAddr, phnum * phdrSize⟩
      if phdrsRefused start stop phdrs then
        ⟨[header, table], none⟩
      else
        ⟨[header, table], some ehdrAddr⟩

/-- A range of addresses, added up without wrap-around, lies in the mapping. -/
def Inside (start stop : UInt64) (address size : Nat) : Prop :=
  start.toNat ≤ address ∧ address + size ≤ stop.toNat

/-- Every byte that is accessed lies in the mapping. -/
def Access.Covered (start stop : UInt64) (access : Access) : Prop :=
  ∀ index < access.size,
    start ≤ access.address + UInt64.ofNat index ∧ access.address + UInt64.ofNat index < stop

/-- The size that counts for a program header: `p_memsz` for the one `PT_LOAD` at index 0,
`p_filesz` for the others. -/
def rangeSize (index : Nat) (phdr : Phdr) : UInt64 :=
  if index = 0 then phdr.pMemsz else phdr.pFilesz

section Containment

variable (memory : AddressSpace) (ehdrAddr start stop : UInt64)

/-- The program headers of an image, as the code finds them. -/
def phdrsOf : List Phdr :=
  memory.phdrsAt (phdrAddr (memory.ehdrAt ehdrAddr) ehdrAddr) (memory.ehdrAt ehdrAddr).ePhnum.toNat

/-- The header, the table and the range of every program header lie in the mapping. -/
structure ImageInside : Prop where
  header : Inside start stop ehdrAddr.toNat ehdrSize
  table : Inside start stop (ehdrAddr.toNat + (memory.ehdrAt ehdrAddr).ePhoff.toNat)
    ((memory.ehdrAt ehdrAddr).ePhnum.toNat * phdrSize)
  ranges : ∀ index phdr, (phdrsOf memory ehdrAddr)[index]? = some phdr →
    Inside start stop phdr.pVaddr.toNat (rangeSize index phdr).toNat

/-- `sanitize_vdso` stays inside the mapping, and vouches only for an image inside of it. -/
def VouchesForContained : Prop :=
  (∀ access ∈ (sanitizeVdso memory ehdrAddr start stop).accesses, access.Covered start stop) ∧
    ((sanitizeVdso memory ehdrAddr start stop).vouched = some ehdrAddr →
      ImageInside memory ehdrAddr start stop)

/-- None of the sums about an image wraps. -/
structure ImageUnwrapped : Prop where
  table : ehdrAddr.toNat + (memory.ehdrAt ehdrAddr).ePhoff.toNat < 2 ^ 64
  ranges : ∀ index phdr, (phdrsOf memory ehdrAddr)[index]? = some phdr →
    phdr.pVaddr.toNat + (rangeSize index phdr).toNat < 2 ^ 64

/-- As far as the code gets, the header does not start below the mapping and no sum wraps. -/
def Unwrapped : Prop :=
  headerRefused ehdrAddr stop = true ∨
    start ≤ ehdrAddr ∧ ehdrAddr.toNat + ehdrSize < 2 ^ 64 ∧
      (tableRefused (memory.ehdrAt ehdrAddr) ehdrAddr start stop = true ∨
        (phdrAddr (memory.ehdrAt ehdrAddr) ehdrAddr).toNat +
            (memory.ehdrAt ehdrAddr).ePhnum.toNat * phdrSize < 2 ^ 64 ∧
          (phdrsRefused start stop (phdrsOf memory ehdrAddr) = true ∨
            ImageUnwrapped memory ehdrAddr))

end Containment

section Sums

variable {start stop : UInt64}

/-- A sum that the code found below the end of the mapping, and that did not wrap, is below it. -/
theorem sum_le_iff {address size : UInt64} (below : ¬ stop ≤ address + size) :
    address.toNat + size.toNat ≤ stop.toNat ↔ address.toNat + size.toNat < 2 ^ 64 := by
  rw [UInt64.le_iff_toNat_le, UInt64.toNat_add] at below
  have small := stop.toNat_lt
  omega

/-- The last address of the address space belongs to no mapping, so an access inside one
does not wrap. -/
theorem covered_iff {access : Access} (nonempty : 0 < access.size) (small : access.size < 2 ^ 64) :
    access.Covered start stop ↔ Inside start stop access.address.toNat access.size := by
  have addressSmall := access.address.toNat_lt
  have stopSmall := stop.toNat_lt
  have indexed : ∀ index < access.size, (access.address + UInt64.ofNat index).toNat =
      (access.address.toNat + index) % 2 ^ 64 := by
    intro index inside
    rw [UInt64.toNat_add, UInt64.toNat_ofNat_of_lt' (Nat.lt_trans inside small)]
  constructor
  · intro covered
    have first := (covered 0 nonempty).1
    rw [UInt64.le_iff_toNat_le, indexed 0 nonempty] at first
    refine ⟨by omega, ?_⟩
    by_contra beyond
    by_cases wraps : access.address.toNat + access.size ≤ 2 ^ 64
    · have last := (covered (access.size - 1) (by omega)).2
      rw [UInt64.lt_iff_toNat_lt, indexed _ (by omega)] at last
      omega
    · have last := (covered (2 ^ 64 - 1 - access.address.toNat) (by omega)).2
      rw [UInt64.lt_iff_toNat_lt, indexed _ (by omega)] at last
      omega
  · rintro ⟨above, below⟩ index inside
    rw [UInt64.le_iff_toNat_le, UInt64.lt_iff_toNat_lt, indexed index inside]
    omega

end Sums

section Stages

variable {memory : AddressSpace} {ehdrAddr start stop : UInt64}

theorem ehdr_covered_iff_inside :
    (Access.mk ehdrAddr ehdrSize).Covered start stop ↔ Inside start stop ehdrAddr.toNat ehdrSize := by
  have nonempty : 0 < ehdrSize := by decide
  have small : ehdrSize < 2 ^ 64 := by decide
  exact covered_iff nonempty small

/-- A header that passed its check lies in the mapping unless it starts below or wraps. -/
theorem header_covered_iff (passed : headerRefused ehdrAddr stop = false) :
    (Access.mk ehdrAddr ehdrSize).Covered start stop ↔
      start ≤ ehdrAddr ∧ ehdrAddr.toNat + ehdrSize < 2 ^ 64 := by
  obtain ⟨-, below⟩ : (ehdrAddr ≠ 0 ∧ isAlignedTo ehdrAddr wordAlign = true) ∧
      ¬ stop ≤ ehdrAddr + UInt64.ofNat ehdrSize := by
    simpa [headerRefused] using passed
  rw [ehdr_covered_iff_inside, Inside, UInt64.le_iff_toNat_le]
  exact and_congr_right fun _ => sum_le_iff below

/-- What a table that passed its check comes to. -/
theorem table_checked {ehdr : Ehdr} (passed : tableRefused ehdr ehdrAddr start stop = false) :
    start < phdrAddr ehdr ehdrAddr ∧
      ((phdrAddr ehdr ehdrAddr).toNat + ehdr.ePhnum.toNat * phdrSize ≤ stop.toNat ↔
        (phdrAddr ehdr ehdrAddr).toNat + ehdr.ePhnum.toNat * phdrSize < 2 ^ 64) := by
  obtain ⟨⟨-, above⟩, below⟩ : (isAlignedTo ehdr.ePhoff wordAlign = true ∧
      ¬ phdrAddr ehdr ehdrAddr ≤ start) ∧
      ¬ stop ≤ phdrAddr ehdr ehdrAddr + ehdr.ePhnum.toUInt64 * UInt64.ofNat phdrSize := by
    simpa [tableRefused] using passed
  have size : (ehdr.ePhnum.toUInt64 * UInt64.ofNat phdrSize).toNat = ehdr.ePhnum.toNat * phdrSize := by
    have small := ehdr.ePhnum.toNat_lt
    have factor : (UInt64.ofNat phdrSize).toNat = phdrSize := rfl
    rw [UInt64.toNat_mul, UInt16.toNat_toUInt64, factor]
    simp only [phdrSize]
    omega
  refine ⟨UInt64.not_le.mp above, ?_⟩
  rw [← size]
  exact sum_le_iff below

/-- A table that passed its check lies in the mapping unless it wraps. -/
theorem table_covered_iff {ehdr : Ehdr} (passed : tableRefused ehdr ehdrAddr start stop = false) :
    (Access.mk (phdrAddr ehdr ehdrAddr) (ehdr.ePhnum.toNat * phdrSize)).Covered start stop ↔
      (phdrAddr ehdr ehdrAddr).toNat + ehdr.ePhnum.toNat * phdrSize < 2 ^ 64 := by
  obtain ⟨above, below⟩ := table_checked passed
  have small := ehdr.ePhnum.toNat_lt
  by_cases empty : ehdr.ePhnum.toNat = 0
  · -- An empty table has no bytes and nothing to add up.
    have addressSmall := (phdrAddr ehdr ehdrAddr).toNat_lt
    simp [Access.Covered, empty]
    omega
  · rw [covered_iff (Nat.mul_pos (Nat.pos_of_ne_zero empty) (by decide))
      (by simp only [phdrSize]; omega), Inside, ← below]
    exact and_iff_right (Nat.le_of_lt (UInt64.lt_iff_toNat_lt.mp above))

/-- What the checks of the program headers say about each of them. -/
theorem range_checked {phdrs : List Phdr} {index : Nat} {phdr : Phdr}
    (passed : phdrsRefused start stop phdrs = false) (found : phdrs[index]? = some phdr) :
    start ≤ phdr.pVaddr ∧ ¬ stop ≤ phdr.pVaddr + rangeSize index phdr := by
  cases phdrs with
  | nil => simp at found
  | cons first others =>
      obtain ⟨firstPassed, othersPassed⟩ : firstRefused start stop first = false ∧
          ∀ other ∈ others, otherRefused start stop other = false := by
        simpa [phdrsRefused] using passed
      cases index with
      | zero =>
          obtain rfl : first = phdr := by simpa using found
          obtain ⟨⟨-, placed⟩, below⟩ : (first.pType = ptLoad ∧ first.pVaddr = start) ∧
              ¬ stop ≤ first.pVaddr + first.pMemsz := by
            simpa [firstRefused] using firstPassed
          exact ⟨placed ▸ UInt64.le_refl _, below⟩
      | succ index =>
          have member : phdr ∈ others := List.mem_of_getElem? (by simpa using found)
          obtain ⟨⟨-, above⟩, below⟩ : ((phdr.pType ≠ ptLoad ∧ isAlignedTo phdr.pVaddr wordAlign = true) ∧
              ¬ phdr.pVaddr ≤ start) ∧ ¬ stop ≤ phdr.pVaddr + phdr.pFilesz := by
            simpa [otherRefused] using othersPassed phdr member
          exact ⟨UInt64.le_of_lt (UInt64.not_le.mp above), below⟩

/-- An image that passed all checks lies in the mapping unless one of its sums wraps. -/
theorem imageInside_iff (header : Inside start stop ehdrAddr.toNat ehdrSize)
    (tablePassed : tableRefused (memory.ehdrAt ehdrAddr) ehdrAddr start stop = false)
    (tableFits : (phdrAddr (memory.ehdrAt ehdrAddr) ehdrAddr).toNat +
      (memory.ehdrAt ehdrAddr).ePhnum.toNat * phdrSize < 2 ^ 64)
    (passed : phdrsRefused start stop (phdrsOf memory ehdrAddr) = false) :
    ImageInside memory ehdrAddr start stop ↔ ImageUnwrapped memory ehdrAddr := by
  have stopSmall := stop.toNat_lt
  constructor
  · intro inside
    refine ⟨?_, ?_⟩
    · have below := inside.table.2
      omega
    · intro index phdr found
      have below := (inside.ranges index phdr found).2
      omega
  · intro unwrapped
    refine ⟨header, ?_, ?_⟩
    · obtain ⟨above, below⟩ := table_checked tablePassed
      have placed : (phdrAddr (memory.ehdrAt ehdrAddr) ehdrAddr).toNat =
          ehdrAddr.toNat + (memory.ehdrAt ehdrAddr).ePhoff.toNat := by
        rw [phdrAddr, UInt64.toNat_add, Nat.mod_eq_of_lt unwrapped.table]
      rw [← placed]
      exact ⟨Nat.le_of_lt (UInt64.lt_iff_toNat_lt.mp above), below.mpr tableFits⟩
    · intro index phdr found
      obtain ⟨above, below⟩ := range_checked passed found
      exact ⟨UInt64.le_iff_toNat_le.mp above, (sum_le_iff below).mpr (unwrapped.ranges index phdr found)⟩

end Stages

/-- A run of `sanitize_vdso` that gets to the program headers. -/
theorem sanitizeVdso_of_passed {memory : AddressSpace} {ehdrAddr start stop : UInt64}
    (headerPassed : headerRefused ehdrAddr stop = false)
    (tablePassed : tableRefused (memory.ehdrAt ehdrAddr) ehdrAddr start stop = false) :
    sanitizeVdso memory ehdrAddr start stop =
      ⟨[⟨ehdrAddr, ehdrSize⟩, ⟨phdrAddr (memory.ehdrAt ehdrAddr) ehdrAddr,
          (memory.ehdrAt ehdrAddr).ePhnum.toNat * phdrSize⟩],
        if phdrsRefused start stop (phdrsOf memory ehdrAddr) then none else some ehdrAddr⟩ := by
  simp only [sanitizeVdso, headerPassed, tablePassed, Bool.false_eq_true, if_false]
  rw [← phdrsOf]
  cases phdrsRefused start stop (phdrsOf memory ehdrAddr) <;> rfl

/-- `sanitize_vdso` reads and vouches for nothing outside of the mapping exactly when, as
far as it gets, the header does not start below the mapping and none of its sums wraps. -/
theorem contained_iff (memory : AddressSpace) (ehdrAddr start stop : UInt64) :
    VouchesForContained memory ehdrAddr start stop ↔ Unwrapped memory ehdrAddr start stop := by
  unfold VouchesForContained Unwrapped
  cases headerPassed : headerRefused ehdrAddr stop with
  | true => simp [sanitizeVdso, headerPassed]
  | false =>
      have header := @header_covered_iff ehdrAddr start stop headerPassed
      cases tablePassed : tableRefused (memory.ehdrAt ehdrAddr) ehdrAddr start stop with
      | true => simpa [sanitizeVdso, headerPassed, tablePassed] using header
      | false =>
          have table := table_covered_iff tablePassed
          rw [sanitizeVdso_of_passed headerPassed tablePassed]
          simp only [List.forall_mem_cons, List.not_mem_nil, false_implies, implies_true, and_true,
            Bool.false_eq_true, false_or, header, table]
          cases passed : phdrsRefused start stop (phdrsOf memory ehdrAddr) with
          | true => simp [and_assoc]
          | false =>
              simp only [Bool.false_eq_true, if_false, true_implies, false_or, and_assoc]
              refine and_congr_right fun above => and_congr_right fun fits => and_congr_right fun tableFits => ?_
              have inside := ehdr_covered_iff_inside.mp (header.mpr ⟨above, fits⟩)
              exact imageInside_iff inside tablePassed tableFits passed

/-- A header at 64 whose table and load segment lie in the mapping of the page at 4096. -/
def strayImage : AddressSpace := fun address =>
  if address = 97 ∨ address = 4177 then 0x10
  else if address = 120 ∨ address = 4160 then 1
  else 0

/-- The header of this image lies below the mapping, and `sanitize_vdso` reads it and vouches for it. -/
theorem vouches_for_stray_image :
    (sanitizeVdso strayImage 64 4096 8192).vouched = some 64 ∧
      ¬ Inside 4096 8192 64 ehdrSize ∧ ¬ VouchesForContained strayImage 64 4096 8192 := by
  have vouched : (sanitizeVdso strayImage 64 4096 8192).vouched = some 64 := by decide
  have outside : ¬ Inside 4096 8192 64 ehdrSize := by
    unfold Inside
    decide
  exact ⟨vouched, outside, fun contained => outside (contained.2 vouched).header⟩

end Corus.Proc
