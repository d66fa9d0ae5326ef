import Corus.Logical.Parser

/-!
# ELF file structures

The `Elf64_*` records of a core file and their byte images, field by field in
the order of the C layout. Each record comes with the parser a reader of the
file would use; `parses_asBytes` says that it reads the record back.
-/

namespace Corus.Elf

open Corus.Logical

/-- The target architectures of the engine. -/
inductive Arch where
  | x86_64
  | aarch64
deriving DecidableEq, Repr

/-- `e_machine` of the architecture. -/
def Arch.elfMachine : Arch → UInt16
  | .x86_64 => 62
  | .aarch64 => 183

/-- The compile-time `PAGE_SIZE` of the architecture. -/
def Arch.pageSize : Arch → Nat
  | .x86_64 => 4096
  | .aarch64 => 65536

def elfMag : Bytes := [0x7f, 0x45, 0x4c, 0x46]
def elfClass64 : Byte := 2
def elfData2Lsb : Byte := 1
def evCurrent : Byte := 1
def elfOsAbiSysV : Byte := 0
def etCore : UInt16 := 4
def ptLoad : UInt32 := 1
def ptNote : UInt32 := 4
def pfX : UInt32 := 1
def pfW : UInt32 := 2
def pfR : UInt32 := 4
def ntPrstatus : UInt32 := 1
def ntPrfpreg : UInt32 := 2
def ntPrpsinfo : UInt32 := 3
def ntPrxreg : UInt32 := 4
def ntAuxv : UInt32 := 6
def ntFile : UInt32 := 0x46494c45
def atPagesz : UInt64 := 6

/-- `size_of::<Ehdr>()`. -/
def ehdrSize : Nat := 64
/-- `size_of::<Phdr>()`. -/
def phdrSize : Nat := 56
/-- `size_of::<Shdr>()`. -/
def shdrSize : Nat := 64
/-- `size_of::<Nhdr>()`. -/
def nhdrSize : Nat := 12
/-- `size_of::<AuxvT>()`. -/
def auxvSize : Nat := 16

/-- `Elf64_Ehdr`. -/
structure Ehdr where
  eIdent : Vector Byte 16
  eType : UInt16
  eMachine : UInt16
  eVersion : UInt32
  eEntry : UInt64
  ePhoff : UInt64
  eShoff : UInt64
  eFlags : UInt32
  eEhsize : UInt16
  ePhentsize : UInt16
  ePhnum : UInt16
  eShentsize : UInt16
  eShnum : UInt16
  eShstrndx : UInt16
deriving DecidableEq

/-- `Elf64_Phdr`. -/
structure Phdr where
  pType : UInt32
  pFlags : UInt32
  pOffset : UInt64
  pVaddr : UInt64
  pPaddr : UInt64
  pFilesz : UInt64
  pMemsz : UInt64
  pAlign : UInt64
deriving DecidableEq

/-- `Elf64_Nhdr`. -/
structure Nhdr where
  nNamesz : UInt32
  nDescsz : UInt32
  nType : UInt32
deriving DecidableEq

/-- `Elf64_auxv_t`. -/
structure AuxvT where
  aType : UInt64
  aVal : UInt64
deriving DecidableEq

namespace Ehdr

/-- `Ehdr::new_core`: identification and fixed sizes, everything else zero. -/
def newCore (arch : Arch) : Ehdr where
  eIdent := #v[0x7f, 0x45, 0x4c, 0x46, elfClass64, elfData2Lsb, evCurrent, elfOsAbiSysV,
    0, 0, 0, 0, 0, 0, 0, 0]
  eType := etCore
  eMachine := arch.elfMachine
  eVersion := evCurrent.toUInt32
  eEntry := 0
  ePhoff := 0
  eShoff := 0
  eFlags := 0
  eEhsize := UInt16.ofNat ehdrSize
  ePhentsize := UInt16.ofNat phdrSize
  ePhnum := 0
  eShentsize := UInt16.ofNat shdrSize
  eShnum := 0
  eShstrndx := 0

def asBytes (ehdr : Ehdr) : Bytes :=
  ehdr.eIdent.toList ++ u16Bytes ehdr.eType ++ u16Bytes ehdr.eMachine ++ u32Bytes ehdr.eVersion ++
    u64Bytes ehdr.eEntry ++ u64Bytes ehdr.ePhoff ++ u64Bytes ehdr.eShoff ++ u32Bytes ehdr.eFlags ++
    u16Bytes ehdr.eEhsize ++ u16Bytes ehdr.ePhentsize ++ u16Bytes ehdr.ePhnum ++
    u16Bytes ehdr.eShentsize ++ u16Bytes ehdr.eShnum ++ u16Bytes ehdr.eShstrndx

/-- The header has the size that it states in `e_ehsize`. -/
@[simp] theorem length_asBytes (ehdr : Ehdr) : ehdr.asBytes.length = ehdrSize := by
  simp [asBytes, ehdrSize]

def parser : Parser Ehdr := do
  let eIdent ← Parser.array 16
  let eType ← Parser.u16
  let eMachine ← Parser.u16
  let eVersion ← Parser.u32
  let eEntry ← Parser.u64
  let ePhoff ← Parser.u64
  let eShoff ← Parser.u64
  let eFlags ← Parser.u32
  let eEhsize ← Parser.u16
  let ePhentsize ← Parser.u16
  let ePhnum ← Parser.u16
  let eShentsize ← Parser.u16
  let eShnum ← Parser.u16
  let eShstrndx ← Parser.u16
  pure ⟨eIdent, eType, eMachine, eVersion, eEntry, ePhoff, eShoff, eFlags, eEhsize, ePhentsize,
    ePhnum, eShentsize, eShnum, eShstrndx⟩

/-- The header is read back field by field. -/
theorem parses_asBytes (ehdr : Ehdr) : Parses parser ehdr.asBytes ehdr := by
  intro rest
  simp only [parser, asBytes, List.append_assoc, Parser.bind_apply, Parser.pure_apply,
    Parses.array ehdr.eIdent _, Parses.u16 _ _, Parses.u32 _ _, Parses.u64 _ _]

theorem parser_steady : Parser.Steady parser :=
  .bind (.array 16) fun _ => .bind .u16 fun _ => .bind .u16 fun _ => .bind .u32 fun _ =>
    .bind .u64 fun _ => .bind .u64 fun _ => .bind .u64 fun _ => .bind .u32 fun _ =>
    .bind .u16 fun _ => .bind .u16 fun _ => .bind .u16 fun _ => .bind .u16 fun _ =>
    .bind .u16 fun _ => .bind .u16 fun _ => .pure _

end Ehdr

namespace Phdr

/-- An all-zero program header. -/
def zeroed : Phdr := ⟨0, 0, 0, 0, 0, 0, 0, 0⟩

def asBytes (phdr : Phdr) : Bytes :=
  u32Bytes phdr.pType ++ u32Bytes phdr.pFlags ++ u64Bytes phdr.pOffset ++ u64Bytes phdr.pVaddr ++
    u64Bytes phdr.pPaddr ++ u64Bytes phdr.pFilesz ++ u64Bytes phdr.pMemsz ++ u64Bytes phdr.pAlign

/-- Every entry of the program header table has the same size. -/
@[simp] theorem length_asBytes (phdr : Phdr) : phdr.asBytes.length = phdrSize := by
  simp [asBytes, phdrSize]

def parser : Parser Phdr := do
  let pType ← Parser.u32
  let pFlags ← Parser.u32
  let pOffset ← Parser.u64
  let pVaddr ← Parser.u64
  let pPaddr ← Parser.u64
  let pFilesz ← Parser.u64
  let pMemsz ← Parser.u64
  let pAlign ← Parser.u64
  pure ⟨pType, pFlags, pOffset, pVaddr, pPaddr, pFilesz, pMemsz, pAlign⟩

/-- A program header is read back field by field. -/
theorem parses_asBytes (phdr : Phdr) : Parses parser phdr.asBytes phdr := by
  intro rest
  simp only [parser, asBytes, List.append_assoc, Parser.bind_apply, Parser.pure_apply,
    Parses.u32 _ _, Parses.u64 _ _]

theorem parser_steady : Parser.Steady parser :=
  .bind .u32 fun _ => .bind .u32 fun _ => .bind .u64 fun _ => .bind .u64 fun _ =>
    .bind .u64 fun _ => .bind .u64 fun _ => .bind .u64 fun _ => .bind .u64 fun _ => .pure _

end Phdr

namespace Nhdr

def asBytes (nhdr : Nhdr) : Bytes :=
  u32Bytes nhdr.nNamesz ++ u32Bytes nhdr.nDescsz ++ u32Bytes nhdr.nType

/-- A note begins with three words. -/
@[simp] theorem length_asBytes (nhdr : Nhdr) : nhdr.asBytes.length = nhdrSize := by
  simp [asBytes, nhdrSize]

def parser : Parser Nhdr := do
  let nNamesz ← Parser.u32
  let nDescsz ← Parser.u32
  let nType ← Parser.u32
  pure ⟨nNamesz, nDescsz, nType⟩

/-- The words in front of a note are read back. -/
theorem parses_asBytes (nhdr : Nhdr) : Parses parser nhdr.asBytes nhdr := by
  intro rest
  simp only [parser, asBytes, List.append_assoc, Parser.bind_apply, Parser.pure_apply,
    Parses.u32 _ _]

theorem parser_steady : Parser.Steady parser :=
  .bind .u32 fun _ => .bind .u32 fun _ => .bind .u32 fun _ => .pure _

end Nhdr

namespace AuxvT

def asBytes (entry : AuxvT) : Bytes := u64Bytes entry.aType ++ u64Bytes entry.aVal

@[simp] theorem length_asBytes (entry : AuxvT) : entry.asBytes.length = auxvSize := by
  simp [asBytes, auxvSize]

/-- `AuxvT::slice_as_bytes`. -/
def sliceAsBytes (auxv : List AuxvT) : Bytes := auxv.flatMap asBytes

/-- The entries of the auxiliary vector stand side by side. -/
@[simp] theorem length_sliceAsBytes (auxv : List AuxvT) :
    (sliceAsBytes auxv).length = auxv.length * auxvSize := by
  induction auxv with
  | nil => simp [sliceAsBytes]
  | cons entry rest ih =>
      simp only [sliceAsBytes, List.flatMap_cons, List.length_append, length_asBytes,
        List.length_cons] at ih ⊢
      rw [ih, Nat.succ_mul, Nat.add_comm]

end AuxvT

end Corus.Elf
