import Corus.Capi.Compressors

/-!
# Dump parameters

`CoreDumpParameters`, the functions that fill it, and how a parameter block becomes
the options of the engine.
-/

namespace Corus.Capi

open Corus.Logical Corus.Platform Corus.Output Corus.Elf Corus.Dump Corus.Compress

def coredumperFlagLimited : Int32 := 1
def coredumperFlagLimitedByPriority : Int32 := 2
def coredumperFlagInProcessFrozen : Int32 := 0x10000

/-- `usize::MAX`. -/
def usizeMax : UInt64 := 0xffffffffffffffff

/-- `MAX_EXTRA_NOTES`. -/
def maxExtraNotes : Nat := 64

/-- `sizeof(struct CoreDumpParameters)`. -/
def coreDumpParametersSize : UInt64 := 72

/-- `CoredumperNote`, with `none` for a null pointer. `description` is the memory that
the pointer leads to. -/
structure CoredumperNote where
  name : Option Bytes
  type : UInt32
  descriptionSize : UInt32
  description : Option Bytes
deriving DecidableEq, Repr

/-- `CoreDumpParameters`, with `none` for a null pointer. Of `selected_compressor` and
of the callback it only matters here whether they are set; the argument of the
callback is passed on to it. -/
structure CoreDumpParameters where
  size : UInt64
  flags : Int32
  maxLength : UInt64
  compressors : Option (List CoredumperCompressor)
  selectedCompressor : Bool
  notes : Option (List CoredumperNote)
  noteCount : Int32
  callbackFn : Bool
deriving DecidableEq, Repr

/-- Whether a flag is set. -/
def CoreDumpParameters.has (params : CoreDumpParameters) (flag : Int32) : Bool := params.flags &&& flag != 0

/-- `ClearCoreDumpParametersInternal`. -/
def clearCoreDumpParametersInternal (size : UInt64) : CoreDumpParameters where
  size := size
  flags := 0
  maxLength := usizeMax
  compressors := none
  selectedCompressor := false
  notes := none
  noteCount := 0
  callbackFn := false

/-- `ClearCoreDumpParameters`. -/
def clearCoreDumpParameters : CoreDumpParameters := clearCoreDumpParametersInternal coreDumpParametersSize

/-- The result of a function that fills parameters: its return value, the error
number it sets and the parameters it leaves. -/
structure Setting where
  rc : Int
  errno : Option Errno
  params : CoreDumpParameters
deriving DecidableEq, Repr

/-- A request that the parameters do not allow. -/
def CoreDumpParameters.refuse (params : CoreDumpParameters) : Setting := ⟨-1, some .einval, params⟩

/-- `SetCoreDumpLimited`. -/
def setCoreDumpLimited (params : CoreDumpParameters) (maxLength : UInt64) : Setting :=
  if params.has coredumperFlagLimitedByPriority then params.refuse
  else ⟨0, none, { params with flags := params.flags ||| coredumperFlagLimited, maxLength := maxLength }⟩

/-- `SetCoreDumpCompressed`. -/
def setCoreDumpCompressed (params : CoreDumpParameters) (compressors : Option (List CoredumperCompressor))
    (selected : Bool) : Setting :=
  if params.has coredumperFlagLimitedByPriority then params.refuse
  else ⟨0, none, { params with compressors := compressors, selectedCompressor := selected }⟩

/-- `SetCoreDumpLimitedByPriority`. -/
def setCoreDumpLimitedByPriority (params : CoreDumpParameters) (maxLength : UInt64) : Setting :=
  if (params.has coredumperFlagLimited && !params.has coredumperFlagLimitedByPriority) ||
      params.compressors.isSome then params.refuse
  else
    ⟨0, none, { params with
      flags := params.flags ||| (coredumperFlagLimited ||| coredumperFlagLimitedByPriority)
      maxLength := maxLength }⟩

/-- `SetCoreDumpNotes`. -/
def setCoreDumpNotes (params : CoreDumpParameters) (notes : Option (List CoredumperNote)) (noteCount : Int32) :
    Setting :=
  ⟨0, none, { params with notes := notes, noteCount := noteCount }⟩

/-- `SetCoreDumpCallback`. -/
def setCoreDumpCallback (params : CoreDumpParameters) (func : Bool) : Setting :=
  ⟨0, none, { params with callbackFn := func }⟩

/-- One round of the conversion of the notes; a note without a name is skipped. -/
def CoredumperNote.extra (note : CoredumperNote) : Option ExtraNote :=
  note.name.map fun name =>
    { name := name
      noteType := note.type
      description := match note.description with
        | none => []
        | some memory => memory.take note.descriptionSize.toNat }

/-- The notes of the engine. -/
def CoreDumpParameters.extraNotes (params : CoreDumpParameters) : List ExtraNote :=
  match params.notes with
  | none => []
  | some notes =>
      if 0 < params.noteCount then
        (notes.take (min params.noteCount.toInt.toNat maxExtraNotes)).filterMap CoredumperNote.extra
      else []

section Lowering

variable {arch : Arch}

/-- `DumpOptions::default`, with the frame of the caller. -/
def defaultOptions (frame : Int32 × Regs arch) : DumpOptions arch where
  strategy := .forkSnapshot
  maxLength := none
  prioritize := false
  notes := []
  callback := false
  frame := some frame

/-- The lowering in `dump_with_params_using`. -/
def lowerParams (params : Option CoreDumpParameters) (frame : Int32 × Regs arch) : DumpOptions arch :=
  match params with
  | none => defaultOptions frame
  | some params =>
      { strategy := if params.has coredumperFlagInProcessFrozen then .inProcessFrozen else .forkSnapshot
        maxLength := if params.has coredumperFlagLimited || params.has coredumperFlagLimitedByPriority then
          some params.maxLength.toNat else none
        prioritize := params.has coredumperFlagLimitedByPriority
        notes := params.extraNotes
        callback := params.callbackFn
        frame := some frame }

/-- The limit of the convenience functions. -/
def limitOf (maxLength : UInt64) : Option Nat := if maxLength = usizeMax then none else some maxLength.toNat

variable (attempts : Nat → Attempt arch)

/-- What the `With` functions do with a descriptor: `dump_with_params_using` with
`dump_compressed`, or `dump_with_params_framed`. -/
def dumpWith (params : Option CoreDumpParameters) (frame : Int32 × Regs arch) (effects : Effects) :
    Option (Int × Effects) :=
  match params with
  | some block =>
      match block.compressors with
      | some table => dumpCompressed attempts (lowerParams params frame) block.selectedCompressor (some table) effects
      | none => dumpPlain attempts (lowerParams params frame) 0 effects
  | none => dumpPlain attempts (lowerParams params frame) 0 effects

end Lowering

end Corus.Capi
