import Corus.Dump.Fidelity
import Corus.Elf.Following
import Corus.Output.Truncation

/-!
# Limited output

A dump runs in step with itself on the limited writer, so a dump with a limit
leaves a prefix of the dump without one. Running out of the budget is the
intended outcome and counts as a success.
-/

namespace Corus.Dump

open Corus.Logical Corus.Platform Corus.Output Corus.Memory Corus.Proc Corus.Elf

/-- Two dumps with the same inputs of the assembly differ in nothing but the writer. -/
theorem serializeDump_follows {arch : Arch} {Full Cut : Type} [Writer Full] [Writer Cut]
    {pair : Lockstep (Machine Full) (Machine Cut)} (carries : Carries pair) (kernel : Kernel) (proc : ProcFs)
    (cap : CapturedDump arch) (opts cutOpts : DumpOptions arch)
    (same : ∀ mappings, coreInputs cap cutOpts (prioritized cap cutOpts mappings) =
      coreInputs cap opts (prioritized cap opts mappings)) :
    Follows pair (serializeDump kernel proc cap opts) (serializeDump kernel proc cap cutOpts) := by
  refine (carries.onWorld _).bind fun mappings => ?_
  rw [same]
  exact (createElfCore_follows carries kernel _).mapError

section Result

variable {arch : Arch} (kernel : Kernel) (proc : ProcFs) (cap : CapturedDump arch)
  (opts : DumpOptions arch) (fd : OutFd) (world : World)

/-- Without a limit the result is that of the serialization. -/
theorem runSerialize_none (unlimited : opts.maxLength = none) :
    let full := serializeDump kernel proc cap opts (⟨world, ⟨fd⟩⟩ : Machine SimpleWriter)
    (runSerialize kernel proc cap opts fd world).fd = full.2.sink.fd ∧
      ((runSerialize kernel proc cap opts fd world).success = true ↔ full.1 = .ok ()) := by
  intro full
  simp only [runSerialize, unlimited]
  split
  · rename_i final ran
    simp [full, ran]
  · rename_i failure final ran
    simp [full, ran, Writer.done]

/-- With a limit, an error after the budget was used up is a success too. -/
theorem runSerialize_some {limit : Nat} (limited : opts.maxLength = some limit) :
    let cut := serializeDump kernel proc cap opts (⟨world, ⟨fd, limit⟩⟩ : Machine LimitWriter)
    (runSerialize kernel proc cap opts fd world).fd = cut.2.sink.fd ∧
      ((runSerialize kernel proc cap opts fd world).success = true ↔
        cut.1 = .ok () ∨ (∃ failure, cut.1 = .error failure) ∧ cut.2.sink.maxLength = 0) := by
  intro cut
  simp only [runSerialize, limited]
  split
  · rename_i final ran
    simp [cut, ran]
  · rename_i failure final ran
    simp [cut, ran, Writer.done]

end Result

/-- How the two dumps end: with the same result after the same bytes, or the
limited one with an error after using its budget up. -/
theorem serializeDump_ends {arch : Arch} (kernel : Kernel) (proc : ProcFs) (cap : CapturedDump arch)
    (opts cutOpts : DumpOptions arch) (limit : Nat) (fd cutFd : OutFd) (world : World)
    (same : ∀ mappings, coreInputs cap cutOpts (prioritized cap cutOpts mappings) =
      coreInputs cap opts (prioritized cap opts mappings))
    (willing : fd.Willing) (cutWilling : cutFd.Willing) :
    let full := serializeDump kernel proc cap opts (⟨world, ⟨fd⟩⟩ : Machine SimpleWriter)
    let cut := serializeDump kernel proc cap cutOpts (⟨world, ⟨cutFd, limit⟩⟩ : Machine LimitWriter)
    ∃ bytes, full.2.sink.fd.accepted = fd.accepted ++ bytes ∧
      cut.2.sink.fd.accepted = cutFd.accepted ++ bytes.take (min limit bytes.length) ∧
      (cut.1 = full.1 ∨ (∃ failure, cut.1 = .error failure) ∧ cut.2.sink.maxLength = 0) := by
  intro full cut
  have follows : Follows (truncation fd.accepted cutFd.accepted limit) _ _ :=
    serializeDump_follows truncation_carries kernel proc cap opts cutOpts same
  have start : (truncation fd.accepted cutFd.accepted limit).sync ⟨world, ⟨fd⟩⟩ ⟨world, ⟨cutFd, limit⟩⟩ :=
    ⟨[], by simp, by simp, by simp, rfl, willing, cutWilling⟩
  rcases follows.tracks _ _ start with ⟨same, written, inSync⟩ | ⟨failed, written, cutOff⟩
  · refine ⟨written, inSync.output, ?_, .inl same⟩
    have budget := inSync.budget
    rw [Nat.min_eq_right (by omega), List.take_length]
    exact inSync.cutOutput
  · refine ⟨written, cutOff.output, ?_, .inr ⟨failed, cutOff.spent⟩⟩
    rw [Nat.min_eq_left cutOff.reached]
    exact cutOff.cutOutput

/-- In an environment that serves it, on a willing descriptor, every dump succeeds. -/
theorem runSerialize_served {arch : Arch} {kernel : Kernel} {proc : ProcFs} {cap : CapturedDump arch}
    {parsed : List Mapping} (served : Served kernel proc cap parsed) (opts : DumpOptions arch) {fd : OutFd}
    (willing : fd.Willing) (world : World) : (runSerialize kernel proc cap opts fd world).success = true := by
  obtain ⟨_, _, final, _, _, ran, _⟩ := serializeDump_documented SimpleWriter.acceptsEveryByte served opts
    (show SimpleWriter.acceptsEveryByte.accepting (⟨world, ⟨fd⟩⟩ : Machine SimpleWriter).sink from willing)
  cases limited : opts.maxLength with
  | none => exact (runSerialize_none kernel proc cap opts fd world limited).2.mpr (by rw [ran])
  | some limit =>
      obtain ⟨_, _, _, ended⟩ :=
        serializeDump_ends kernel proc cap opts opts limit fd fd world (fun _ => rfl) willing willing
      refine (runSerialize_some kernel proc cap opts fd world limited).2.mpr (ended.imp_left ?_)
      intro same
      rw [same, ran]

/-- Limited output is a prefix. Whatever the environment does and however the two
descriptors split the writes, the dump with a limit leaves exactly the first bytes
of the dump without one, and succeeds if that one does; in an environment that
serves the dump both succeed. -/
theorem runSerialize_limited {arch : Arch} (kernel : Kernel) (proc : ProcFs) (cap : CapturedDump arch)
    (opts : DumpOptions arch) (limit : Nat) (fd cutFd : OutFd) (world : World)
    (unprioritized : opts.prioritize = false) (willing : fd.Willing) (cutWilling : cutFd.Willing) :
    ∃ bytes,
      (runSerialize kernel proc cap { opts with maxLength := none } fd world).fd.accepted =
        fd.accepted ++ bytes ∧
      (runSerialize kernel proc cap { opts with maxLength := some limit } cutFd world).fd.accepted =
        cutFd.accepted ++ bytes.take (min limit bytes.length) ∧
      ((runSerialize kernel proc cap { opts with maxLength := none } fd world).success = true →
        (runSerialize kernel proc cap { opts with maxLength := some limit } cutFd world).success = true) ∧
      (∀ parsed, Served kernel proc cap parsed →
        (runSerialize kernel proc cap { opts with maxLength := none } fd world).success = true ∧
        (runSerialize kernel proc cap { opts with maxLength := some limit } cutFd world).success = true) := by
  have noPriority : ∀ (length : Option Nat) (mappings : List Mapping),
      prioritized cap { opts with maxLength := length } mappings = mappings := by
    intro length mappings
    simp only [prioritized, unprioritized]
  obtain ⟨bytes, output, cutOutput, ended⟩ := serializeDump_ends kernel proc cap { opts with maxLength := none }
    { opts with maxLength := some limit } limit fd cutFd world
    (fun mappings => by rw [noPriority none, noPriority (some limit)]; rfl) willing cutWilling
  obtain ⟨fullFd, fullSuccess⟩ :=
    runSerialize_none kernel proc cap { opts with maxLength := none } fd world rfl
  obtain ⟨cutFd_eq, cutSuccess⟩ :=
    runSerialize_some kernel proc cap { opts with maxLength := some limit } cutFd world rfl
  have carries : (runSerialize kernel proc cap { opts with maxLength := none } fd world).success = true →
      (runSerialize kernel proc cap { opts with maxLength := some limit } cutFd world).success = true := by
    intro success
    rw [cutSuccess]
    rcases ended with same | spent
    · exact .inl (same.trans (fullSuccess.mp success))
    · exact .inr spent
  refine ⟨bytes, by rw [fullFd, output], by rw [cutFd_eq, cutOutput], carries, ?_⟩
  intro parsed served
  exact ⟨runSerialize_served served _ willing world, runSerialize_served served _ cutWilling world⟩

/-- A descriptor that is interrupted and takes more from call to call. -/
def unevenFd : OutFd := ⟨[], 0, fun call => ⟨call, .ok (call + 1)⟩⟩

theorem runSerialize_limited_sample : ∃ bytes,
    (runSerialize faultyKernel sampleProc sampleCapture { sampleOptions with maxLength := none }
      sampleMachine.sink.fd sampleMachine.world).fd.accepted = bytes ∧
    (runSerialize faultyKernel sampleProc sampleCapture { sampleOptions with maxLength := some 100 }
      unevenFd sampleMachine.world).fd.accepted = bytes.take (min 100 bytes.length) ∧
    (runSerialize faultyKernel sampleProc sampleCapture { sampleOptions with maxLength := some 100 }
      unevenFd sampleMachine.world).success = true := by
  have uneven : unevenFd.Willing := fun call => ⟨call + 1, Nat.succ_pos _, rfl⟩
  obtain ⟨bytes, full, cut, _, served⟩ := runSerialize_limited faultyKernel sampleProc sampleCapture
    sampleOptions 100 sampleMachine.sink.fd unevenFd sampleMachine.world rfl sampleMachine_accepting uneven
  exact ⟨bytes, full, cut, (served sampleParsed sampleCapture_served).2⟩

end Corus.Dump
