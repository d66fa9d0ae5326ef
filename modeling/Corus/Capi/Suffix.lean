import Corus.Capi.Callbacks

/-!
# The name of a compressed core

`WriteCompressedCoreDump` names its file after the entry that `resolve_compressor`
finds, before it is known which entry will produce the data.
-/

namespace Corus.Capi

open Corus.Logical Corus.Platform Corus.Output Corus.Elf Corus.Threads Corus.Dump Corus.Compress

section Suffix

variable {arch : Arch}

/-- The options of `WriteCompressedCoreDump`. -/
def Environment.compressedOptions (env : Environment arch) (maxLength : UInt64) : DumpOptions arch :=
  { defaultOptions env.frame with maxLength := limitOf maxLength }

/-- Any entry whose attempt is the first not to fail has the suffix of the entry that
`resolve_compressor` finds. -/
def Environment.SuffixAgrees (env : Environment arch) (maxLength : UInt64) (table : List CoredumperCompressor) : Prop :=
  ∀ index entry, table[index]? = some entry →
    ReachedFrom env.attempts (env.compressedOptions maxLength) 0 table index →
    ¬ FailsOver env.attempts (env.compressedOptions maxLength) index entry →
    env.resolvedSuffix (some table) = entry.suffix.getD []

/-- The suffix names the compressor. When `WriteCompressedCoreDump` returns 0 and
leaves a file, an entry is selected, and the file has its suffix if and only if the
two rules that choose an entry agree about it. -/
theorem writeCompressedCoreDump_suffix_iff (env : Environment arch) (base path : Bytes) (maxLength : UInt64)
    (table : List CoredumperCompressor) (outcome : Outcome)
    (allowed : ∀ number, (env.attempts number).lawful (env.compressedOptions maxLength) = true)
    (returned : env.writeCompressedCoreDump (some base) maxLength (some table) true = some outcome)
    (success : outcome.rc = 0) (left : outcome.left = some path) :
    ∃ index entry, outcome.effects.selected = some index ∧ table[index]? = some entry ∧
      (path = base ++ entry.suffix.getD [] ↔ env.SuffixAgrees maxLength table) := by
  simp only [Environment.writeCompressedCoreDump, Environment.dumpToPath] at returned
  split at returned
  case isFalse =>
    cases returned
    cases success
  rw [Option.map_eq_some_iff] at returned
  obtain ⟨⟨rc, effects⟩, dumped, rfl⟩ := returned
  obtain rfl : rc = 0 := success
  obtain ⟨earlier, call, entry, tries, present, made, ok, rfl⟩ := dumpCompressed_succeeds allowed dumped
  refine ⟨earlier.length, entry, rfl, present, ?_⟩
  -- The file has the name it was given.
  obtain rfl : base ++ env.resolvedSuffix (some table) = path := Option.some.inj (Option.filter_eq_some_iff.mp left).1
  rw [List.append_cancel_left_eq]
  have last : (earlier ++ [call])[earlier.length]? = some call := by simp
  have reached := (tries.made last).1
  have succeeds : ¬ FailsOver env.attempts (env.compressedOptions maxLength) earlier.length entry := by
    rintro ⟨_, same, again, nonzero⟩
    obtain rfl : call = same := Option.some.inj (made.symm.trans again)
    rw [ok] at nonzero
    exact nonzero rfl
  constructor
  · intro same index other listed attempted sound
    -- No other entry is the first not to fail.
    obtain rfl : index = earlier.length := by
      rcases Nat.lt_trichotomy index earlier.length with before | equal | behind
      · obtain ⟨found, listed', fails⟩ := reached index before
        rw [listed] at listed'
        cases listed'
        rw [Nat.zero_add] at fails
        exact absurd fails sound
      · exact equal
      · obtain ⟨found, listed', fails⟩ := attempted earlier.length behind
        rw [present] at listed'
        cases listed'
        rw [Nat.zero_add] at fails
        exact absurd fails succeeds
    rw [present] at listed
    cases listed
    exact same
  · intro agrees
    exact agrees _ entry present reached succeeds

/-- A dump that succeeds and writes something leaves its file. -/
theorem writeCompressedCoreDump_of_dumped {env : Environment arch} {base : Bytes} {maxLength : UInt64}
    {table : List CoredumperCompressor} {effects : Effects}
    (opened : env.opens (base ++ env.resolvedSuffix (some table)) = true) (sized : env.metadata = true)
    (dumped : dumpCompressed env.attempts (env.compressedOptions maxLength) true (some table) .empty =
      some (0, effects)) (written : effects.file ≠ []) :
    ∃ outcome, env.writeCompressedCoreDump (some base) maxLength (some table) true = some outcome ∧ outcome.rc = 0 ∧
      outcome.effects = effects ∧ outcome.left = some (base ++ env.resolvedSuffix (some table)) := by
  rw [Environment.compressedOptions] at dumped
  simp only [Environment.writeCompressedCoreDump, Environment.dumpToPath, opened, if_true, dumped, Option.map_some]
  refine ⟨_, rfl, rfl, rfl, ?_⟩
  have kept : effects.file.isEmpty = false := List.isEmpty_eq_false_iff.mpr written
  simp [Outcome.left, Environment.store, sized, kept]

end Suffix

/-- A compressor that succeeds. -/
def fineProgram : Program := fun _ => ([0x1f, 0x8b], .exited 0)

/-- The compressor of the sample table succeeds. -/
theorem dumpCompressed_sampleTable_first {attempts : Nat → Attempt .x86_64} {opts : DumpOptions .x86_64} {call : Call}
    (first : (attempts 0).writeCoreDumpCompressedToFdWith gzipPath [gzipPath] opts = some call)
    (ok : call.result = .ok 0) :
    dumpCompressed attempts opts true (some sampleTable) .empty =
      some (0, ⟨call.output, some 0, [call.stream], call.callbacks⟩) := by
  have gzip : gzipPath ≠ [] := by decide
  have zero : orErrno (.ok 0) = 0 := rfl
  simp only [dumpCompressed, sampleTable, dumpFrom, CoredumperCompressor.argv, if_neg gzip, first, ok, zero, if_true]
  rfl

/-- The ".gz" of the sample table. -/
theorem resolvedSuffix_sample (attempts : Nat → Attempt .x86_64) :
    (sampleEnvironment attempts).resolvedSuffix (some sampleTable) = [0x2e, 0x67, 0x7a] := rfl

/-- Where "/bin/gzip" succeeds, "core.gz" is what it is called. -/
theorem writeCompressedCoreDump_suffix_iff_sample : ∃ outcome,
    (sampleEnvironment fun _ => sampleAttempt 0 (.ok fineProgram) 0).writeCompressedCoreDump (some coreName) usizeMax
      (some sampleTable) true = some outcome ∧ outcome.effects.selected = some 0 ∧
      (sampleEnvironment fun _ => sampleAttempt 0 (.ok fineProgram) 0).SuffixAgrees usizeMax sampleTable := by
  have first := sampleAttempt_compressed (.ok fineProgram) 0
  rw [if_pos (by decide)] at first
  have dumped : dumpCompressed (fun _ => sampleAttempt 0 (.ok fineProgram) 0) (interfaceOptions false) true
      (some sampleTable) .empty = some (0, ⟨[0x1f, 0x8b], some 0, [sampleCore false], []⟩) :=
    @dumpCompressed_sampleTable_first (fun _ => sampleAttempt 0 (.ok fineProgram) 0) _ _ first rfl
  obtain ⟨outcome, returned, success, effects, left⟩ :=
    @writeCompressedCoreDump_of_dumped _ (sampleEnvironment fun _ => sampleAttempt 0 (.ok fineProgram) 0) coreName
      usizeMax sampleTable _ rfl rfl dumped (by simp)
  refine ⟨outcome, returned, by rw [effects], ?_⟩
  obtain ⟨index, entry, selected, present, agrees⟩ := writeCompressedCoreDump_suffix_iff _ _ _ _ _ outcome
    (fun _ => sampleSite_lawful false 0 (.inl rfl)) returned success left
  rw [effects] at selected
  cases selected
  cases present
  exact agrees.mp rfl

/-- Where it fails, the plain core of the fallback is called "core.gz" as well. -/
theorem writeCompressedCoreDump_misnamed : ∃ outcome,
    (sampleAttempt 0 (.ok brokenProgram) 256).lawful (interfaceOptions false) = true ∧
      (sampleEnvironment fun _ => sampleAttempt 0 (.ok brokenProgram) 256).writeCompressedCoreDump (some coreName)
        usizeMax (some sampleTable) true = some outcome ∧
      outcome.rc = 0 ∧ outcome.effects.selected = some 1 ∧ sampleTable[1]? = some ⟨some [], none, some []⟩ ∧
      outcome.left = some (coreName ++ [0x2e, 0x67, 0x7a]) ∧ coreName ++ [0x2e, 0x67, 0x7a] ≠ coreName ++ [] := by
  have dumped := dumpCompressed_sample (.ok brokenProgram) (show ¬ (termSignal 256 = 0 ∧ exitCode 256 = 0) by decide)
  obtain ⟨outcome, returned, success, effects, left⟩ :=
    @writeCompressedCoreDump_of_dumped _ (sampleEnvironment fun _ => sampleAttempt 0 (.ok brokenProgram) 256) coreName
      usizeMax sampleTable _ rfl rfl dumped (List.cons_ne_nil _ _)
  refine ⟨outcome, sampleSite_lawful false 0 (.inl rfl), returned, success, by rw [effects], rfl, ?_, by decide⟩
  rw [left, resolvedSuffix_sample]

end Corus.Capi
