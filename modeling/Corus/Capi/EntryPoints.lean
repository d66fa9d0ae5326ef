import Corus.Capi.Parameters

/-!
# Entry points

The exported functions that write a core to a named file or hand out a descriptor of
one, over the files that the process can see.
-/

namespace Corus.Capi

open Corus.Logical Corus.Platform Corus.Output Corus.Elf Corus.Dump Corus.Compress

/-- What a call of the interface meets: the files before it, the answers of the file
system, the registers at its entry and the attempts of the engine. -/
structure Environment (arch : Arch) where
  files : Bytes → Option Bytes
  /-- `Path::exists`. -/
  pathExists : Bytes → Bool
  /-- Whether a path can be opened for writing, created and truncated. -/
  opens : Bytes → Bool
  /-- Whether the size of the open file can be asked for. -/
  metadata : Bool
  removes : Bytes → Bool
  /-- The descriptor of an unlinked temporary file. -/
  tempfile : Option Int
  seeks : Bool
  frame : Int32 × Regs arch
  attempts : Nat → Attempt arch

/-- What a call leaves: its return value, the error number it sets, the path it
created, the files, the contents of the descriptor it returns, and the effects of the
dump. -/
structure Outcome where
  rc : Int
  errno : Option Errno
  created : Option Bytes
  files : Bytes → Option Bytes
  handedOut : Option Bytes
  effects : Effects

/-- The path of the file that is left. -/
def Outcome.left (outcome : Outcome) : Option Bytes := outcome.created.filter fun path => (outcome.files path).isSome

/-- Nothing written, selected or invoked. -/
def Effects.empty : Effects := ⟨[], none, [], []⟩

namespace Environment

variable {arch : Arch} (env : Environment arch)

/-- A call that fails before any dump. -/
def fails (errno : Option Errno) : Outcome := ⟨-1, errno, none, env.files, none, .empty⟩

/-- The files with the contents of one of them changed. -/
def store (path : Bytes) (contents : Option Bytes) : Bytes → Option Bytes := fun other =>
  if other = path then contents else env.files other

/-- Open a file, dump into it, and remove it if the dump failed or wrote nothing. -/
def dumpToPath (path : Bytes) (dump : Effects → Option (Int × Effects)) : Option Outcome :=
  if env.opens path then
    (dump .empty).map fun (rc, effects) =>
      let empty := if env.metadata then effects.file.isEmpty else true
      let removed := (rc != 0 || empty) && env.removes path
      ⟨rc, none, some path, env.store path (if removed then none else some effects.file), none, effects⟩
  else some (env.fails none)

/-- `write_to_named_file`; `none` is a null file name. -/
def writeToNamedFile (fileName : Option Bytes) (dump : Effects → Option (Int × Effects)) : Option Outcome :=
  match fileName with
  | none => some (env.fails (some .einval))
  | some path => env.dumpToPath path dump

/-- The tail of the functions that return a descriptor. -/
def dumpToTempfile (dump : Effects → Option (Int × Effects)) : Option Outcome :=
  match env.tempfile with
  | none => some (env.fails none)
  | some fd =>
      (dump .empty).map fun (rc, effects) =>
        if rc = 0 ∧ env.seeks = true then ⟨fd, none, none, env.files, some effects.file, effects⟩
        else ⟨-1, none, none, env.files, none, effects⟩

/-- `get_core_dump_with`. -/
def getCoreDumpWithFrame (params : Option CoreDumpParameters) : Option Outcome :=
  env.dumpToTempfile (dumpWith env.attempts params env.frame)

/-- `GetCoreDump`. -/
def getCoreDump : Option Outcome := env.getCoreDumpWithFrame none

/-- `GetCoreDumpWith`. -/
def getCoreDumpWith (params : Option CoreDumpParameters) : Option Outcome :=
  match params with
  | some block =>
      if block.has (coredumperFlagLimited ||| coredumperFlagLimitedByPriority) then
        some (env.fails (some .einval))
      else env.getCoreDumpWithFrame params
  | none => env.getCoreDumpWithFrame params

/-- `GetCompressedCoreDump`. -/
def getCompressedCoreDump (compressors : Option (List CoredumperCompressor)) (selected : Bool) : Option Outcome :=
  env.dumpToTempfile (dumpCompressed env.attempts (defaultOptions env.frame) selected compressors)

/-- `WriteCoreDumpWith`. -/
def writeCoreDumpWith (params : Option CoreDumpParameters) (fileName : Option Bytes) : Option Outcome :=
  env.writeToNamedFile fileName (dumpWith env.attempts params env.frame)

/-- `WriteCoreDump`. -/
def writeCoreDump (fileName : Option Bytes) : Option Outcome := env.writeCoreDumpWith none fileName

/-- `WriteCoreDumpLimited`. -/
def writeCoreDumpLimited (fileName : Option Bytes) (maxLength : UInt64) : Option Outcome :=
  env.writeToNamedFile fileName
    (dumpPlain env.attempts { defaultOptions env.frame with maxLength := limitOf maxLength } 0)

/-- `WriteCoreDumpLimitedByPriority`. -/
def writeCoreDumpLimitedByPriority (fileName : Option Bytes) (maxLength : UInt64) : Option Outcome :=
  env.writeToNamedFile fileName
    (dumpPlain env.attempts
      { defaultOptions env.frame with maxLength := some maxLength.toNat, prioritize := true } 0)

/-- The suffix that `WriteCompressedCoreDump` appends. -/
def resolvedSuffix (compressors : Option (List CoredumperCompressor)) : Bytes :=
  match resolveCompressor env.pathExists compressors with
  | none => []
  | some index => (((compressors.getD [])[index]?).bind CoredumperCompressor.suffix).getD []

/-- `WriteCompressedCoreDump`. -/
def writeCompressedCoreDump (fileName : Option Bytes) (maxLength : UInt64)
    (compressors : Option (List CoredumperCompressor)) (selected : Bool) : Option Outcome :=
  match fileName with
  | none => some (env.fails (some .einval))
  | some base =>
      env.dumpToPath (base ++ env.resolvedSuffix compressors)
        (dumpCompressed env.attempts { defaultOptions env.frame with maxLength := limitOf maxLength } selected
          compressors)

end Environment

end Corus.Capi
