import Corus.Elf.Structs

/-!
# Note payloads

Registers and the records carried by the PRSTATUS, PRFPREG, PRPSINFO and PRXREG
notes. Register files depend on the architecture; the engine copies them as a
block, apart from the two segment bases of x86_64. Interior padding of the C
records is written as zeros.
-/

namespace Corus.Elf

open Corus.Logical

/-- Number of 64-bit words in `Regs`. -/
def Arch.regWords : Arch → Nat
  | .x86_64 => 27
  | .aarch64 => 34

/-- `size_of::<FpRegs>()`. -/
def Arch.fpRegsSize : Arch → Nat
  | .x86_64 => 512
  | .aarch64 => 528

/-- General-purpose registers in `user_regs_struct` order. -/
abbrev Regs (arch : Arch) := Vector UInt64 arch.regWords

/-- Floating-point register block. -/
abbrev FpRegs (arch : Arch) := Vector Byte arch.fpRegsSize

theorem length_words (words : List UInt64) : (words.flatMap u64Bytes).length = words.length * 8 := by
  induction words with
  | nil => rfl
  | cons word rest ih =>
      rw [List.flatMap_cons, List.length_append, ih, length_u64Bytes, List.length_cons]
      omega

namespace Regs

variable {arch : Arch}

def zeroed : Regs arch := Vector.replicate _ 0

def asBytes (regs : Regs arch) : Bytes := regs.toList.flatMap u64Bytes

@[simp] theorem length_asBytes (regs : Regs arch) : (asBytes regs).length = arch.regWords * 8 := by
  rw [asBytes, length_words, Vector.length_toList]

def parser : Parser (Regs arch) := Parser.vector arch.regWords Parser.u64

/-- The registers are read back from their words. -/
theorem parses_asBytes (regs : Regs arch) : Parses parser (asBytes regs) regs :=
  Parses.vector Parses.u64 regs

/-- `fs_base` is word 21 and `gs_base` word 22 of the x86_64 register file. -/
def withSegmentBases (frame ptraced : Regs .x86_64) : Regs .x86_64 :=
  let frame := frame.set 21 ptraced[21]
  frame.set 22 ptraced[22]

end Regs

namespace FpRegs

variable {arch : Arch}

def zeroed : FpRegs arch := Vector.replicate _ 0

def asBytes (fpregs : FpRegs arch) : Bytes := fpregs.toList

/-- The floating-point state has the size that the kernel gives it. -/
@[simp] theorem length_asBytes (fpregs : FpRegs arch) : (asBytes fpregs).length = arch.fpRegsSize := by
  simp [asBytes]

end FpRegs

/-- `elf_timeval`. -/
structure ElfTimeval where
  tvSec : Int64
  tvUsec : Int64
deriving DecidableEq

def ElfTimeval.zeroed : ElfTimeval := ⟨0, 0⟩

def ElfTimeval.asBytes (time : ElfTimeval) : Bytes := i64Bytes time.tvSec ++ i64Bytes time.tvUsec

@[simp] theorem ElfTimeval.length_asBytes (time : ElfTimeval) : time.asBytes.length = 16 := by
  simp [ElfTimeval.asBytes]

def ElfTimeval.parser : Parser ElfTimeval := do
  let tvSec ← Parser.i64
  let tvUsec ← Parser.i64
  pure ⟨tvSec, tvUsec⟩

/-- A time is read back from its two words. -/
theorem ElfTimeval.parses_asBytes (time : ElfTimeval) : Parses parser time.asBytes time := by
  intro rest
  simp only [parser, asBytes, List.append_assoc, Parser.bind_apply, Parser.pure_apply,
    Parses.i64 _ _]

/-- `elf_siginfo`. -/
structure ElfSiginfo where
  siSigno : Int32
  siCode : Int32
  siErrno : Int32
deriving DecidableEq

/-- `prstatus`, the NT_PRSTATUS payload. -/
structure Prstatus (arch : Arch) where
  prInfo : ElfSiginfo
  prCursig : UInt16
  prSigpend : UInt64
  prSighold : UInt64
  prPid : Int32
  prPpid : Int32
  prPgrp : Int32
  prSid : Int32
  prUtime : ElfTimeval
  prStime : ElfTimeval
  prCutime : ElfTimeval
  prCstime : ElfTimeval
  prReg : Regs arch
  prFpvalid : UInt32

namespace Prstatus

variable {arch : Arch}

def zeroed : Prstatus arch where
  prInfo := ⟨0, 0, 0⟩
  prCursig := 0
  prSigpend := 0
  prSighold := 0
  prPid := 0
  prPpid := 0
  prPgrp := 0
  prSid := 0
  prUtime := .zeroed
  prStime := .zeroed
  prCutime := .zeroed
  prCstime := .zeroed
  prReg := Regs.zeroed
  prFpvalid := 0

/-- `size_of::<Prstatus>()`. -/
def size (arch : Arch) : Nat := 112 + arch.regWords * 8 + 8

def asBytes (status : Prstatus arch) : Bytes :=
  i32Bytes status.prInfo.siSigno ++ i32Bytes status.prInfo.siCode ++ i32Bytes status.prInfo.siErrno ++
    u16Bytes status.prCursig ++ [0, 0] ++ u64Bytes status.prSigpend ++ u64Bytes status.prSighold ++
    i32Bytes status.prPid ++ i32Bytes status.prPpid ++ i32Bytes status.prPgrp ++ i32Bytes status.prSid ++
    status.prUtime.asBytes ++ status.prStime.asBytes ++ status.prCutime.asBytes ++
    status.prCstime.asBytes ++ Regs.asBytes status.prReg ++ u32Bytes status.prFpvalid ++ [0, 0, 0, 0]

/-- The fields and the paddings between them make up the size of the C structure. -/
@[simp] theorem length_asBytes (status : Prstatus arch) : status.asBytes.length = size arch := by
  unfold asBytes
  simp only [size, List.length_append, length_i32Bytes, length_u16Bytes, length_u64Bytes, length_u32Bytes,
    ElfTimeval.length_asBytes, Regs.length_asBytes, List.length_cons, List.length_nil]

def parser : Parser (Prstatus arch) := do
  let siSigno ← Parser.i32
  let siCode ← Parser.i32
  let siErrno ← Parser.i32
  let prCursig ← Parser.u16
  let _ ← Parser.take 2
  let prSigpend ← Parser.u64
  let prSighold ← Parser.u64
  let prPid ← Parser.i32
  let prPpid ← Parser.i32
  let prPgrp ← Parser.i32
  let prSid ← Parser.i32
  let prUtime ← ElfTimeval.parser
  let prStime ← ElfTimeval.parser
  let prCutime ← ElfTimeval.parser
  let prCstime ← ElfTimeval.parser
  let prReg ← Regs.parser
  let prFpvalid ← Parser.u32
  let _ ← Parser.take 4
  pure ⟨⟨siSigno, siCode, siErrno⟩, prCursig, prSigpend, prSighold, prPid, prPpid, prPgrp, prSid,
    prUtime, prStime, prCutime, prCstime, prReg, prFpvalid⟩

/-- NT_PRSTATUS is read back field by field. -/
theorem parses_asBytes (status : Prstatus arch) : Parses parser status.asBytes status := by
  intro rest
  have short : Parses (Parser.take 2) [0, 0] [0, 0] := Parses.take_of_length rfl
  have long : Parses (Parser.take 4) [0, 0, 0, 0] [0, 0, 0, 0] := Parses.take_of_length rfl
  unfold parser asBytes
  simp only [List.append_assoc, Parser.bind_apply, Parser.pure_apply,
    Parses.i32 _ _, Parses.u16 _ _, Parses.u32 _ _, Parses.u64 _ _, short _, long _,
    ElfTimeval.parses_asBytes _ _, Regs.parses_asBytes _ _]

end Prstatus

/-- `prpsinfo`, the NT_PRPSINFO payload. -/
structure Prpsinfo where
  prState : UInt8
  prSname : UInt8
  prZomb : UInt8
  prNice : Int8
  prFlag : UInt64
  prUid : UInt32
  prGid : UInt32
  prPid : Int32
  prPpid : Int32
  prPgrp : Int32
  prSid : Int32
  prFname : Vector Byte 16
  prPsargs : Vector Byte 80

namespace Prpsinfo

def zeroed : Prpsinfo where
  prState := 0
  prSname := 0
  prZomb := 0
  prNice := 0
  prFlag := 0
  prUid := 0
  prGid := 0
  prPid := 0
  prPpid := 0
  prPgrp := 0
  prSid := 0
  prFname := Vector.replicate _ 0
  prPsargs := Vector.replicate _ 0

/-- `size_of::<Prpsinfo>()`. -/
def size : Nat := 136

def asBytes (info : Prpsinfo) : Bytes :=
  [info.prState] ++ [info.prSname] ++ [info.prZomb] ++ [info.prNice.toUInt8] ++ [0, 0, 0, 0] ++
    u64Bytes info.prFlag ++ u32Bytes info.prUid ++ u32Bytes info.prGid ++ i32Bytes info.prPid ++
    i32Bytes info.prPpid ++ i32Bytes info.prPgrp ++ i32Bytes info.prSid ++ info.prFname.toList ++
    info.prPsargs.toList

/-- The names are cut or filled to their arrays, so the size is fixed. -/
@[simp] theorem length_asBytes (info : Prpsinfo) : info.asBytes.length = size := by
  simp [asBytes, size]

def parser : Parser Prpsinfo := do
  let prState ← Parser.u8
  let prSname ← Parser.u8
  let prZomb ← Parser.u8
  let prNice ← Parser.u8
  let _ ← Parser.take 4
  let prFlag ← Parser.u64
  let prUid ← Parser.u32
  let prGid ← Parser.u32
  let prPid ← Parser.i32
  let prPpid ← Parser.i32
  let prPgrp ← Parser.i32
  let prSid ← Parser.i32
  let prFname ← Parser.array 16
  let prPsargs ← Parser.array 80
  pure ⟨prState, prSname, prZomb, prNice.toInt8, prFlag, prUid, prGid, prPid, prPpid, prPgrp, prSid,
    prFname, prPsargs⟩

/-- NT_PRPSINFO is read back field by field. -/
theorem parses_asBytes (info : Prpsinfo) : Parses parser info.asBytes info := by
  intro rest
  have padding : Parses (Parser.take 4) [0, 0, 0, 0] [0, 0, 0, 0] := Parses.take_of_length rfl
  simp only [parser, asBytes, List.append_assoc, Parser.bind_apply, Parser.pure_apply,
    Parses.u8 _ _, Parses.i32 _ _, Parses.u32 _ _, Parses.u64 _ _, padding _, Parses.array _ _,
    Int8.toInt8_toUInt8]

end Prpsinfo

/-- `core_user`, the NT_PRXREG payload. The last two fields exist on x86_64 only. -/
structure CoreUser (arch : Arch) where
  regs : Regs arch
  fpvalid : UInt64
  fpregs : FpRegs arch
  tsize : UInt64
  dsize : UInt64
  ssize : UInt64
  startCode : UInt64
  startStack : UInt64
  signal : UInt64
  reserved : UInt64
  regsPtr : UInt64
  fpregsPtr : UInt64
  magic : UInt64
  comm : Vector Byte 32
  debugreg : Vector UInt64 8
  errorCode : UInt64
  faultAddress : UInt64

namespace CoreUser

variable {arch : Arch}

def zeroed : CoreUser arch where
  regs := Regs.zeroed
  fpvalid := 0
  fpregs := FpRegs.zeroed
  tsize := 0
  dsize := 0
  ssize := 0
  startCode := 0
  startStack := 0
  signal := 0
  reserved := 0
  regsPtr := 0
  fpregsPtr := 0
  magic := 0
  comm := Vector.replicate _ 0
  debugreg := Vector.replicate _ 0
  errorCode := 0
  faultAddress := 0

/-- `size_of::<CoreUser>()`. -/
def size : Arch → Nat
  | .x86_64 => 928
  | .aarch64 => 992

/-- The seven size, address and signal words that follow the valid flag. -/
def processWords (user : CoreUser arch) : Bytes :=
  u64Bytes user.tsize ++ u64Bytes user.dsize ++ u64Bytes user.ssize ++ u64Bytes user.startCode ++
    u64Bytes user.startStack ++ u64Bytes user.signal ++ u64Bytes user.reserved

/-- The two architectures place the floating-point block differently; on aarch64
the record ends with eight bytes of alignment padding. -/
def asBytes (user : CoreUser arch) : Bytes :=
  Regs.asBytes user.regs ++ (u64Bytes user.fpvalid ++
    match arch with
    | .x86_64 => FpRegs.asBytes user.fpregs ++ user.processWords ++ u64Bytes user.regsPtr ++
        u64Bytes user.fpregsPtr ++ u64Bytes user.magic ++ user.comm.toList ++
        user.debugreg.toList.flatMap u64Bytes ++ u64Bytes user.errorCode ++ u64Bytes user.faultAddress
    | .aarch64 => user.processWords ++ u64Bytes user.regsPtr ++ u64Bytes user.magic ++
        user.comm.toList ++ user.debugreg.toList.flatMap u64Bytes ++ FpRegs.asBytes user.fpregs ++
        u64Bytes user.fpregsPtr ++ List.replicate 8 0)

/-- The size of the descriptor depends on the architecture only. -/
@[simp] theorem length_asBytes (user : CoreUser arch) : user.asBytes.length = size arch := by
  have debug : (user.debugreg.toList.flatMap u64Bytes).length = 64 := by
    rw [length_words, Vector.length_toList]
  cases arch <;>
    simp [asBytes, processWords, size, debug, Regs.length_asBytes, FpRegs.length_asBytes,
      Arch.regWords, Arch.fpRegsSize]

end CoreUser

end Corus.Elf
