import Corus.Elf.Structs

/-!
# Memory mappings

One line of `/proc/self/maps` as the engine records it. `flags` holds the raw
`rwxp` bits after parsing and the ELF `PF_*` bits after finalization.
-/

namespace Corus.Proc

open Corus.Logical Corus.Elf

/-- Maximum number of mappings recorded in one dump. -/
def maxMappings : Nat := 4096

/-- Size of the stored path, including its NUL. -/
def fnameMax : Nat := 256

def mapsPrivate : UInt16 := 1
def mapsExecute : UInt16 := mapsPrivate <<< 1
def mapsWrite : UInt16 := mapsPrivate <<< 2
def mapsRead : UInt16 := mapsPrivate <<< 3
def mapsPrivateSharedBits : UInt16 := 1
def elfAccessMask : UInt16 := (pfR ||| pfW ||| pfX).toUInt16
def elfRead : UInt16 := pfR.toUInt16
def elfWrite : UInt16 := pfW.toUInt16

/-- Mapping permission flags. -/
structure Perms where
  bits : UInt16
deriving DecidableEq, Repr

namespace Perms

def readable (perms : Perms) : Bool := perms.bits &&& mapsRead != 0
def writable (perms : Perms) : Bool := perms.bits &&& mapsWrite != 0
def executable (perms : Perms) : Bool := perms.bits &&& mapsExecute != 0
def isPrivate (perms : Perms) : Bool := perms.bits &&& mapsPrivate != 0

/-- Raw `rwxp` bits to ELF `PF_*` access bits. -/
def elfAccessBits (perms : Perms) : Perms :=
  ⟨(perms.bits >>> mapsPrivateSharedBits) &&& elfAccessMask⟩

def elfReadable (perms : Perms) : Bool := perms.bits &&& elfRead != 0
def elfWritable (perms : Perms) : Bool := perms.bits &&& elfWrite != 0

end Perms

/-- Masking with a single bit tests that bit. -/
theorem and_bit_ne_zero (bits : UInt16) {bit : Nat} (small : bit < 16) :
    (bits &&& UInt16.ofBitVec (BitVec.twoPow 16 bit) != 0) = bits.toBitVec.getLsbD bit := by
  have masked : (bits &&& UInt16.ofBitVec (BitVec.twoPow 16 bit)).toBitVec =
      if bits.toBitVec.getLsbD bit then BitVec.twoPow 16 bit else 0#16 := by
    rw [UInt16.toBitVec_and, UInt16.toBitVec_ofBitVec, BitVec.and_twoPow]
  have nonzero : BitVec.twoPow 16 bit ≠ 0#16 := by
    intro zero
    have tested := congrArg (BitVec.getLsbD · bit) zero
    simp [small] at tested
  rw [Bool.eq_iff_iff, bne_iff_ne, ne_eq, ← UInt16.toBitVec_inj, masked]
  split <;> simp_all

namespace Perms

/-- The three access bits are the raw ones, one position lower. -/
theorem getLsbD_elfAccessBits (perms : Perms) {bit : Nat} (access : bit < 3) :
    perms.elfAccessBits.bits.toBitVec.getLsbD bit = perms.bits.toBitVec.getLsbD (bit + 1) := by
  have mask : elfAccessMask.toBitVec.getLsbD bit = true := by
    match bit, access with
    | 0, _ => rfl
    | 1, _ => rfl
    | 2, _ => rfl
  have dropped : mapsPrivateSharedBits.toNat % 16 = 1 := rfl
  simp [elfAccessBits, mask, dropped, Nat.add_comm]

/-- Finalized read permission is the raw one. -/
theorem elfReadable_elfAccessBits (perms : Perms) : perms.elfAccessBits.elfReadable = perms.readable := by
  have finalized := and_bit_ne_zero perms.elfAccessBits.bits (show 2 < 16 by decide)
  rw [getLsbD_elfAccessBits perms (by decide), ← and_bit_ne_zero perms.bits (by decide)] at finalized
  exact finalized

/-- Finalized write permission is the raw one. -/
theorem elfWritable_elfAccessBits (perms : Perms) : perms.elfAccessBits.elfWritable = perms.writable := by
  have finalized := and_bit_ne_zero perms.elfAccessBits.bits (show 1 < 16 by decide)
  rw [getLsbD_elfAccessBits perms (by decide), ← and_bit_ne_zero perms.bits (by decide)] at finalized
  exact finalized

end Perms

/-- One parsed memory mapping. -/
structure Mapping where
  start : UInt64
  «end» : UInt64
  offset : UInt64
  flags : Perms
  isAnon : Bool
  writeSize : UInt64
  dontdump : Bool
  hasAnonPages : Bool
  isDevice : Bool
  nameLen : Nat
  name : Vector Byte fnameMax
deriving DecidableEq

namespace Mapping

def zeroed : Mapping where
  start := 0
  «end» := 0
  offset := 0
  flags := ⟨0⟩
  isAnon := false
  writeSize := 0
  dontdump := false
  hasAnonPages := false
  isDevice := false
  nameLen := 0
  name := Vector.replicate _ 0

/-- The file path of the mapping, empty when anonymous. -/
def path (mapping : Mapping) : Bytes := mapping.name.toList.take mapping.nameLen

/-- `&m.name[..m.name_len as usize + 1]`. -/
def nameWithNul (mapping : Mapping) : Bytes := mapping.name.toList.take (mapping.nameLen + 1)

/-- ELF `PF_*` access bits, valid after finalization. -/
def pfFlags (mapping : Mapping) : UInt32 := mapping.flags.bits.toUInt32 &&& elfAccessMask.toUInt32

/-- The stored path is as documented: it ends at its first NUL. -/
structure NulTerminated (mapping : Mapping) : Prop where
  fits : mapping.nameLen < fnameMax
  free : ∀ byte ∈ mapping.path, byte ≠ 0
  terminated : mapping.nameWithNul = mapping.path ++ [0]

theorem length_nameWithNul {mapping : Mapping} (fits : mapping.nameLen < fnameMax) :
    mapping.nameWithNul.length = mapping.nameLen + 1 := by
  simp only [nameWithNul, List.length_take, Vector.length_toList]
  omega

end Mapping

end Corus.Proc
