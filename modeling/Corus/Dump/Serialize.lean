import Corus.Elf.Segments
import Corus.Proc.Finalize

/-!
# Serializing a captured dump

`serialize_dump` parses the memory map, selects what is dumped and streams the
core from already captured thread state. `run_serialize` chooses the writer from
the options and counts a core that was cut at its limit as a success.
-/

namespace Corus.Dump

open Corus.Logical Corus.Platform Corus.Output Corus.Memory Corus.Proc Corus.Elf

/-- How the process is frozen while the core is written. -/
inductive DumpStrategy where
  | forkSnapshot
  | inProcessFrozen
deriving DecidableEq, Repr

/-- Options of a dump. `callback` tells that a pre-dump callback is set; `frame`
is the thread that called the public API with its register snapshot. -/
structure DumpOptions (arch : Arch) where
  strategy : DumpStrategy
  maxLength : Option Nat
  prioritize : Bool
  notes : List ExtraNote
  callback : Bool
  frame : Option (Int32 × Regs arch)

/-- Error returned while building a core from suspended threads. -/
inductive DumpError where
  | unknown
  | callbackAborted
  | ptraceGetRegs (pid : Int32) (errno : Errno)
  | parseMaps (error : ParseMapsError)
  | pipe (errno : Errno)
  | createElfCore (error : CreateElfCoreError)
deriving DecidableEq, Repr

/-- State captured from the stopped threads. -/
structure CapturedDump (arch : Arch) where
  threads : List (ThreadState arch)
  mainIdx : Nat
  auxv : List AuxvT
  prpsinfo : Prpsinfo
  mainPid : Int32

/-- `usize::is_power_of_two`. -/
def isPowerOfTwo (value : UInt64) : Bool := (List.range 64).any fun exponent => value.toNat == 2 ^ exponent

section Inputs

variable {arch : Arch}

/-- The runtime page size: AT_PAGESZ if it is plausible, else the compile-time one. -/
def CapturedDump.pagesize (cap : CapturedDump arch) : UInt64 :=
  match cap.auxv.find? fun entry => entry.aType == atPagesz with
  | some entry => if isPowerOfTwo entry.aVal then entry.aVal else UInt64.ofNat arch.pageSize
  | none => UInt64.ofNat arch.pageSize

/-- The NT_PRXREG payload of the main thread; entries past the captured ones are zero. -/
def CapturedDump.user (cap : CapturedDump arch) : Option (CoreUser arch) :=
  if 0 < cap.threads.length then
    let main := cap.threads.getD cap.mainIdx ⟨0, Regs.zeroed, FpRegs.zeroed⟩
    some { (CoreUser.zeroed : CoreUser arch) with regs := main.regs, fpregs := main.fpregs, fpvalid := 1 }
  else none

/-- The inputs of the assembly for a list of finalized mappings. -/
def coreInputs (cap : CapturedDump arch) (opts : DumpOptions arch) (mappings : List Mapping) :
    CoreInputs arch where
  prpsinfo := cap.prpsinfo
  threads := cap.threads
  mainThread := cap.mainIdx
  auxv := cap.auxv
  mappings := mappings
  pagesize := cap.pagesize
  notes := opts.notes
  user := cap.user

/-- `estimate_header_size`, without the padding in front of the first segment. -/
def estimateHeaderSize (arch : Arch) (nThreads nAuxv : Nat) (mappings : List Mapping)
    (notes : List ExtraNote) : Nat :=
  ehdrSize + (mappings.length + 1) * phdrSize +
    noteSectionSizeFor arch nThreads nAuxv mappings notes (decide (0 < nThreads))

/-- The first of the largest segments, from an index on. -/
def largestFrom : Nat → Option (Nat × UInt64) → List Mapping → Option (Nat × UInt64)
  | _, largest, [] => largest
  | index, largest, mapping :: rest =>
      let larger := match largest with
        | none => true
        | some (_, size) => size < mapping.writeSize
      largestFrom (index + 1) (if larger then some (index, mapping.writeSize) else largest) rest

/-- The loop of `apply_priority_limit`. A round that is not the last empties the
largest segment or brings the total down to the limit. -/
def priorityLoop (limit headerOverhead : Nat) : Nat → List Mapping → List Mapping
  | 0, mappings => mappings
  | fuel + 1, mappings =>
      let total := headerOverhead + (segmentSizes mappings).sum
      match largestFrom 0 none mappings with
      | none => mappings
      | some (index, size) =>
          if total > limit ∧ size > 0 then
            let need := total - limit
            let size := if need > size.toNat then 0 else size - UInt64.ofNat need
            priorityLoop limit headerOverhead fuel
              (mappings.modify index fun mapping => { mapping with writeSize := size })
          else mappings

/-- `apply_priority_limit`. -/
def applyPriorityLimit (mappings : List Mapping) (limit headerOverhead : Nat) : List Mapping :=
  priorityLoop limit headerOverhead (mappings.length + 1) mappings

/-- Priority limiting, where it is asked for. -/
def prioritized (cap : CapturedDump arch) (opts : DumpOptions arch) (mappings : List Mapping) :
    List Mapping :=
  match opts.prioritize, opts.maxLength with
  | true, some limit =>
      applyPriorityLimit mappings limit
        (estimateHeaderSize arch cap.threads.length cap.auxv.length mappings opts.notes)
  | _, _ => mappings

/-- Size of the scratch page of the leading-zeros scan. -/
def scratchLen (arch : Arch) : Nat := arch.pageSize

/-- The files under `/proc/self` that are read while serializing. -/
structure ProcFs where
  maps : ProcFile
  smaps : ProcFile

/-- The memory map part of `serialize_dump`: parse, open a loopback pipe, finalize. -/
def selectMappings (kernel : Kernel) (proc : ProcFs) (cap : CapturedDump arch) (world : World) :
    Except DumpError (List Mapping) × World :=
  match parseSelfMaps proc.maps maxMappings with
  | .error error => (.error (.parseMaps error), world)
  | .ok parsed =>
      match pipeNew kernel world with
      | (.error errno, world) => (.error (.pipe errno), world)
      | (.ok (), world) =>
          let final := finalizeMappings kernel proc.smaps parsed cap.pagesize
            (List.replicate (scratchLen arch) 0) world
          (.ok (final.maps.take final.kept), final.world)

/-- `serialize_dump`. -/
def serializeDump {Sink : Type} [Writer Sink] (kernel : Kernel) (proc : ProcFs) (cap : CapturedDump arch)
    (opts : DumpOptions arch) : Action (Machine Sink) DumpError Unit := do
  let mappings ← onWorld (selectMappings kernel proc cap)
  (createElfCore kernel (coreInputs cap opts (prioritized cap opts mappings))).mapError .createElfCore

/-- What `run_serialize` leaves behind: whether it succeeded, the error it
recorded, the output descriptor and the task. -/
structure Serialized where
  success : Bool
  error : Option DumpError
  fd : OutFd
  world : World

/-- `DumpCtx::run_serialize`. -/
def runSerialize (kernel : Kernel) (proc : ProcFs) (cap : CapturedDump arch) (opts : DumpOptions arch)
    (fd : OutFd) (world : World) : Serialized :=
  match opts.maxLength with
  | none =>
      match serializeDump kernel proc cap opts (⟨world, ⟨fd⟩⟩ : Machine SimpleWriter) with
      | (.ok (), after) => ⟨true, none, after.sink.fd, after.world⟩
      | (.error error, after) => ⟨Writer.done after, some error, after.sink.fd, after.world⟩
  | some limit =>
      match serializeDump kernel proc cap opts (⟨world, ⟨fd, limit⟩⟩ : Machine LimitWriter) with
      | (.ok (), after) => ⟨true, none, after.sink.fd, after.world⟩
      | (.error error, after) => ⟨Writer.done after, some error, after.sink.fd, after.world⟩

end Inputs

end Corus.Dump
