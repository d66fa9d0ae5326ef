import Corus.Reference.Assembly

/-!
# The vDSO image in both libraries

The checks of `SanitizeVDSO` are those of its port but for a table without entries. There
the C library looks at the memory where the first entry would be, and the port refuses.
Nothing of such an image would be written.
-/

namespace Corus.Reference

open Corus.Logical Corus.Elf Corus.Proc

variable (memory : AddressSpace) (ehdrAddress start stop : UInt64)

/-- The table of the image. -/
def tableAt : UInt64 := ehdrAddress + (memory.ehdrAt ehdrAddress).ePhoff

/-- The checks of the C library in the words of the port. -/
theorem sanitizeVDSO_checks : sanitizeVDSO memory ehdrAddress start stop =
    (!headerRefused ehdrAddress stop && (!tableRefused (memory.ehdrAt ehdrAddress) ehdrAddress start stop &&
      (!firstRefused start stop (memory.phdrAt (tableAt memory ehdrAddress)) &&
        !(memory.phdrsAt (tableAt memory ehdrAddress) (memory.ehdrAt ehdrAddress).ePhnum.toNat).tail.any
          (otherRefused start stop)))) := by
  have others : ∀ phdrs : List Phdr, (phdrs.all fun phdr =>
      !(phdr.pType == ptLoad || phdr.pVaddr &&& 7 != 0 || phdr.pVaddr ≤ start || stop ≤ phdr.pVaddr + phdr.pFilesz)) =
      !phdrs.any (otherRefused start stop) := by
    intro phdrs
    rw [List.not_any_eq_all_not]
    rfl
  have header : headerRefused ehdrAddress stop = ((ehdrAddress == 0 || ehdrAddress &&& 7 != 0) ||
      decide (stop ≤ ehdrAddress + UInt64.ofNat ehdrSize)) := rfl
  have table : tableRefused (memory.ehdrAt ehdrAddress) ehdrAddress start stop =
      ((memory.ehdrAt ehdrAddress).ePhoff &&& 7 != 0 || decide (tableAt memory ehdrAddress ≤ start) ||
        decide (stop ≤ tableAt memory ehdrAddress +
          (memory.ehdrAt ehdrAddress).ePhnum.toUInt64 * UInt64.ofNat phdrSize)) := rfl
  rw [header, table]
  simp only [sanitizeVDSO, others]
  simp only [firstRefused, tableAt, Bool.if_false_left, Bool.decide_eq_true, Bool.not_or, Bool.and_assoc]
  congr

theorem phdrsAt_succ (address : UInt64) (count : Nat) :
    memory.phdrsAt address (count + 1) = memory.phdrAt address :: (memory.phdrsAt address (count + 1)).tail := by
  have first : address + UInt64.ofNat (0 * phdrSize) = address := by
    rw [Nat.zero_mul]
    exact UInt64.add_zero address
  rw [AddressSpace.phdrsAt, List.range_succ_eq_map, List.map_cons, first]
  rfl

/-- What the port vouches for is what the C library accepts, with a program header in it.
Without one, there is nothing to write. -/
theorem sanitizeVdso_agrees : (sanitizeVdso memory ehdrAddress start stop).vouched =
      (if sanitizeVDSO memory ehdrAddress start stop && (memory.ehdrAt ehdrAddress).ePhnum != 0 then some ehdrAddress
        else none) ∧
    ((memory.ehdrAt ehdrAddress).ePhnum ≠ 0 ∨ extraPhdrs memory (some ehdrAddress) = []) := by
  refine ⟨?_, ?_⟩
  · rw [sanitizeVDSO_checks, sanitizeVdso]
    by_cases header : headerRefused ehdrAddress stop = true
    · simp [header]
    by_cases table : tableRefused (memory.ehdrAt ehdrAddress) ehdrAddress start stop = true
    · simp [header, table]
    have same : phdrAddr (memory.ehdrAt ehdrAddress) ehdrAddress = tableAt memory ehdrAddress := rfl
    simp only [header, table, same, Bool.not_false, Bool.true_and, Bool.false_eq_true, if_false]
    have phnum : (memory.ehdrAt ehdrAddress).ePhnum = 0 ↔ (memory.ehdrAt ehdrAddress).ePhnum.toNat = 0 :=
      UInt16.toNat_inj.symm
    cases count : (memory.ehdrAt ehdrAddress).ePhnum.toNat with
    | zero =>
        have none := phnum.mpr count
        simp [AddressSpace.phdrsAt, phdrsRefused, none]
    | succ less =>
        have some : (memory.ehdrAt ehdrAddress).ePhnum ≠ 0 := by
          intro none
          rw [phnum.mp none] at count
          cases count
        have listed : phdrsRefused start stop (memory.phdrsAt (tableAt memory ehdrAddress) (less + 1)) =
            (firstRefused start stop (memory.phdrAt (tableAt memory ehdrAddress)) ||
              (memory.phdrsAt (tableAt memory ehdrAddress) (less + 1)).tail.any (otherRefused start stop)) := by
          rw [phdrsAt_succ]
          rfl
        rw [listed]
        generalize firstRefused start stop (memory.phdrAt (tableAt memory ehdrAddress)) = first
        generalize (memory.phdrsAt (tableAt memory ehdrAddress) (less + 1)).tail.any (otherRefused start stop) = others
        cases first <;> cases others <;> simp [some]
  · refine or_iff_not_imp_left.mpr fun present => ?_
    have none : (memory.ehdrAt ehdrAddress).ePhnum = 0 := not_not.mp present
    have count : (memory.ehdrAt ehdrAddress).ePhnum.toNat = 0 := by rw [none]; rfl
    simp only [extraPhdrs, AddressSpace.phdrsAt, count, List.range_zero, List.map_nil, List.filter_nil]

end Corus.Reference
