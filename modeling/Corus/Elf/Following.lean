import Corus.Output.Interruption
import Corus.Elf.Core

/-!
# The core writers on two machines

Everything that writes a core file is put together from complete writes and task
steps. So two machines that these keep in step are kept in step by the whole
assembly.
-/

namespace Corus.Elf

open Corus.Logical Corus.Platform Corus.Output Corus.Memory Corus.Proc

variable {arch : Arch} {Full Cut : Type} [Writer Full] [Writer Cut]
  {pair : Lockstep (Machine Full) (Machine Cut)} (carries : Carries pair)

include carries

/-- A write with its own error keeps two runs in step, as the write itself does. -/
theorem noteWrite_follows (buf : Bytes) : Follows pair (noteWrite buf) (noteWrite buf) :=
  (carries.writeFull buf).mapError

theorem pad_follows (count : Nat) : Follows pair (pad count) (pad count) := by
  unfold pad
  split
  · exact Follows.pure ()
  · exact noteWrite_follows carries _

/-- A note of the core is three writes and a padding. -/
theorem writeCoreNote_follows (nType : UInt32) (desc : Bytes) :
    Follows pair (writeCoreNote nType desc) (writeCoreNote nType desc) :=
  (noteWrite_follows carries _).bind fun _ => (noteWrite_follows carries _).bind fun _ =>
    (noteWrite_follows carries _).bind fun _ => pad_follows carries _

theorem writeExtraNote_follows (name : Bytes) (noteType : UInt32) (desc : Bytes) :
    Follows pair (writeExtraNote name noteType desc) (writeExtraNote name noteType desc) :=
  (noteWrite_follows carries _).bind fun _ => (noteWrite_follows carries _).bind fun _ =>
    (noteWrite_follows carries _).bind fun _ => (pad_follows carries _).bind fun _ =>
      (noteWrite_follows carries _).bind fun _ => pad_follows carries _

/-- The auxiliary vector is one note. -/
theorem writeAuxv_follows (auxv : List AuxvT) : Follows pair (writeAuxv auxv) (writeAuxv auxv) :=
  (noteWrite_follows carries _).bind fun _ => (noteWrite_follows carries _).bind fun _ =>
    (noteWrite_follows carries _).bind fun _ => pad_follows carries _

/-- The note of the mapped files is written entry by entry, the names last; it is left out if it
is empty. -/
theorem writeNtFile_follows (mappings : List Mapping) (pagesize : UInt64) :
    Follows pair (writeNtFile mappings pagesize) (writeNtFile mappings pagesize) := by
  unfold writeNtFile
  split
  split
  · exact Follows.pure ()
  · exact (noteWrite_follows carries _).bind fun _ => (noteWrite_follows carries _).bind fun _ =>
      (noteWrite_follows carries _).bind fun _ =>
        (Follows.forEach fun _ => Follows.onlyIf (noteWrite_follows carries _)).bind fun _ =>
          (Follows.forEach fun _ => Follows.onlyIf (noteWrite_follows carries _)).bind fun _ =>
            pad_follows carries _

/-- A thread is the notes of its registers. -/
theorem writeThread_follows (thread : ThreadState arch) :
    Follows pair (writeThread thread) (writeThread thread) :=
  (writeCoreNote_follows carries _ _).bind fun _ => writeCoreNote_follows carries _ _

/-- All notes, in the order in which the core has them. -/
theorem writeNotes_follows (inputs : CoreInputs arch) :
    Follows pair inputs.writeNotes inputs.writeNotes :=
  Follows.mapError <|
    (writeCoreNote_follows carries _ _).bind fun _ =>
    (Follows.forSome fun _ => writeCoreNote_follows carries _ _).bind fun _ =>
    (Follows.forSome (writeThread_follows carries)).bind fun _ =>
    (Follows.forEach fun _ => Follows.onlyIf (writeThread_follows carries _)).bind fun _ =>
    (Follows.onlyIf (writeAuxv_follows carries _)).bind fun _ =>
    (Follows.forEach fun _ => writeExtraNote_follows carries _ _ _).bind fun _ =>
    writeNtFile_follows carries _ _

theorem writeLoadPhdrs_follows (pagesize : UInt64) (offset : Nat) (mappings : List Mapping) :
    Follows pair (writeLoadPhdrs pagesize offset mappings) (writeLoadPhdrs pagesize offset mappings) := by
  induction mappings generalizing offset with
  | nil => exact Follows.pure ()
  | cons mapping rest ih => exact (carries.writeFull _).mapError.bind fun _ => ih _

/-- The padding goes out in pieces until nothing remains of it. -/
theorem writePadding_follows (remaining : Nat) :
    Follows pair (writePadding remaining) (writePadding remaining) := by
  induction remaining using Nat.strongRecOn with
  | _ remaining ih =>
    rw [writePadding, writePadding]
    by_cases more : remaining > 0
    · rw [dif_pos more, dif_pos more]
      exact (carries.writeFull _).mapError.bind fun _ => ih _ (by omega)
    · rw [dif_neg more, dif_neg more]
      exact Follows.pure ()

theorem writeHeaders_follows (inputs : CoreInputs arch) :
    Follows pair inputs.writeHeaders inputs.writeHeaders :=
  (carries.writeFull _).mapError.bind fun _ => (carries.writeFull _).mapError.bind fun _ =>
    (writeLoadPhdrs_follows carries _ _ _).bind fun _ => (writeNotes_follows carries _).bind fun _ =>
      writePadding_follows carries _

/-- A segment is probed and written page by page; the probes are no writes and touch the world
of both runs alike. -/
theorem writeSegment_follows (kernel : Kernel) (capacity : Nat) (mapping : Mapping) (offset : Nat)
    (scratch : Bytes) :
    Follows pair (writeSegment kernel capacity mapping offset scratch)
      (writeSegment kernel capacity mapping offset scratch) := by
  induction left : mapping.writeSize.toNat - offset using Nat.strongRecOn
    generalizing offset scratch with
  | _ remaining ih =>
    rw [writeSegment, writeSegment]
    by_cases more : offset < mapping.writeSize.toNat
    · have positive : 0 < memoryBufferSize := by decide
      rw [dif_pos more, dif_pos more]
      exact (carries.onWorld _).bind fun filled => (carries.writeFull _).mapError.bind fun _ =>
        ih _ (by omega) _ filled rfl
    · rw [dif_neg more, dif_neg more]
      exact Follows.pure scratch

/-- The scratch page of one segment is that of the next in both runs. -/
theorem writeSegments_follows (kernel : Kernel) (capacity : Nat) (mappings : List Mapping)
    (scratch : Bytes) :
    Follows pair (writeSegments kernel capacity mappings scratch)
      (writeSegments kernel capacity mappings scratch) := by
  induction mappings generalizing scratch with
  | nil => exact Follows.pure ()
  | cons mapping rest ih => exact (writeSegment_follows carries _ _ _ _ _).bind ih

/-- A whole core is written in step. -/
theorem createElfCore_follows (kernel : Kernel) (inputs : CoreInputs arch) :
    Follows pair (createElfCore kernel inputs) (createElfCore kernel inputs) :=
  Follows.bind
    ((carries.onWorld _).mapError.bind fun _ => (carries.onWorld _).mapError.bind fun _ =>
      (writeHeaders_follows carries _).bind fun _ => Follows.pure _)
    fun _ => writeSegments_follows carries _ _ _ _

end Corus.Elf
