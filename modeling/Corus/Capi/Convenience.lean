import Corus.Capi.Suffix
import Corus.Dump.Ample
import Corus.Dump.Written

/-!
# The convenience functions

Each of them stands for a sequence that clears a parameter block, sets something in
it and calls a `With` function. They have bodies of their own here; for all but
`WriteCompressedCoreDump` the bodies agree with the sequences.
-/

namespace Corus.Capi

open Corus.Logical Corus.Platform Corus.Output Corus.Proc Corus.Elf Corus.Threads Corus.Dump Corus.Compress

/-! ## The sequences -/

/-- Cleared parameters with a limit. -/
def limitedParams (maxLength : UInt64) : CoreDumpParameters :=
  (setCoreDumpLimited clearCoreDumpParameters maxLength).params

/-- Cleared parameters with a limit by priority. -/
def priorityParams (maxLength : UInt64) : CoreDumpParameters :=
  (setCoreDumpLimitedByPriority clearCoreDumpParameters maxLength).params

/-- Cleared parameters with compression. -/
def compressedParams (compressors : Option (List CoredumperCompressor)) (selected : Bool) : CoreDumpParameters :=
  (setCoreDumpCompressed clearCoreDumpParameters compressors selected).params

/-- Cleared parameters with compression and a limit. -/
def limitedCompressedParams (compressors : Option (List CoredumperCompressor)) (selected : Bool) (maxLength : UInt64) :
    CoreDumpParameters :=
  (setCoreDumpLimited (compressedParams compressors selected) maxLength).params

theorem clearCoreDumpParameters_has (flag : Int32) : clearCoreDumpParameters.has flag = false := by
  show (0 &&& flag != 0) = false
  simp

theorem compressedParams_eq (compressors : Option (List CoredumperCompressor)) (selected : Bool) :
    compressedParams compressors selected =
      { clearCoreDumpParameters with compressors := compressors, selectedCompressor := selected } := by
  simp only [compressedParams, setCoreDumpCompressed, clearCoreDumpParameters_has, Bool.false_eq_true, if_false]

theorem limitedParams_eq (maxLength : UInt64) :
    limitedParams maxLength = { clearCoreDumpParameters with flags := 1, maxLength := maxLength } := by
  simp only [limitedParams, setCoreDumpLimited, clearCoreDumpParameters_has, Bool.false_eq_true, if_false]
  rfl

theorem limitedCompressedParams_eq (compressors : Option (List CoredumperCompressor)) (selected : Bool)
    (maxLength : UInt64) :
    limitedCompressedParams compressors selected maxLength =
      { clearCoreDumpParameters with
        flags := 1, maxLength := maxLength, compressors := compressors, selectedCompressor := selected } := by
  have unset : (compressedParams compressors selected).has coredumperFlagLimitedByPriority = false := by
    rw [compressedParams_eq]
    exact clearCoreDumpParameters_has _
  have flags : clearCoreDumpParameters.flags ||| coredumperFlagLimited = 1 := rfl
  simp only [limitedCompressedParams, setCoreDumpLimited, unset, Bool.false_eq_true, if_false]
  simp only [compressedParams_eq, flags]

theorem priorityParams_eq (maxLength : UInt64) :
    priorityParams maxLength = { clearCoreDumpParameters with flags := 3, maxLength := maxLength } := by
  have none : clearCoreDumpParameters.compressors.isSome = false := rfl
  simp only [priorityParams, setCoreDumpLimitedByPriority, clearCoreDumpParameters_has, none, Bool.false_and,
    Bool.or_self, Bool.false_eq_true, if_false]
  rfl

section Lowering

variable {arch : Arch} (frame : Int32 × Regs arch)

/-- The lowering reads the flags and the limit of a block without notes and callback. -/
theorem lowerParams_of_plain {params : CoreDumpParameters} (notes : params.notes = none)
    (callback : params.callbackFn = false) (strategy : params.has coredumperFlagInProcessFrozen = false) :
    lowerParams (some params) frame =
      { defaultOptions frame with
        maxLength := if params.has coredumperFlagLimited || params.has coredumperFlagLimitedByPriority then
          some params.maxLength.toNat else none
        prioritize := params.has coredumperFlagLimitedByPriority } := by
  simp only [lowerParams, defaultOptions, CoreDumpParameters.extraNotes, notes, callback, strategy, Bool.false_eq_true,
    if_false]

theorem lowerParams_clear : lowerParams (some clearCoreDumpParameters) frame = defaultOptions frame := by
  rw [lowerParams_of_plain frame rfl rfl (clearCoreDumpParameters_has _), clearCoreDumpParameters_has,
    clearCoreDumpParameters_has]
  rfl

theorem lowerParams_compressedParams (compressors : Option (List CoredumperCompressor)) (selected : Bool) :
    lowerParams (some (compressedParams compressors selected)) frame = defaultOptions frame := by
  have unset : ∀ flag, (compressedParams compressors selected).has flag = false := by
    intro flag
    rw [compressedParams_eq]
    exact clearCoreDumpParameters_has flag
  rw [lowerParams_of_plain frame (by rw [compressedParams_eq]; rfl) (by rw [compressedParams_eq]; rfl) (unset _), unset,
    unset]
  rfl

/-- What the lowering makes of the flags of a block with a limit. -/
theorem lowerParams_limited {params : CoreDumpParameters} (notes : params.notes = none)
    (callback : params.callbackFn = false) (flags : params.flags = 1) :
    lowerParams (some params) frame = { defaultOptions frame with maxLength := some params.maxLength.toNat } := by
  have frozen : params.has coredumperFlagInProcessFrozen = false := by
    rw [CoreDumpParameters.has, flags]
    decide
  have limited : params.has coredumperFlagLimited = true := by
    rw [CoreDumpParameters.has, flags]
    decide
  have priority : params.has coredumperFlagLimitedByPriority = false := by
    rw [CoreDumpParameters.has, flags]
    decide
  rw [lowerParams_of_plain frame notes callback frozen, limited, priority]
  rfl

theorem lowerParams_limitedParams (maxLength : UInt64) :
    lowerParams (some (limitedParams maxLength)) frame =
      { defaultOptions frame with maxLength := some maxLength.toNat } := by
  rw [limitedParams_eq]
  exact lowerParams_limited frame rfl rfl rfl

theorem lowerParams_limitedCompressedParams (compressors : Option (List CoredumperCompressor)) (selected : Bool)
    (maxLength : UInt64) :
    lowerParams (some (limitedCompressedParams compressors selected maxLength)) frame =
      { defaultOptions frame with maxLength := some maxLength.toNat } := by
  rw [limitedCompressedParams_eq]
  exact lowerParams_limited frame rfl rfl rfl

theorem lowerParams_priorityParams (maxLength : UInt64) :
    lowerParams (some (priorityParams maxLength)) frame =
      { defaultOptions frame with maxLength := some maxLength.toNat, prioritize := true } := by
  have frozen : (priorityParams maxLength).has coredumperFlagInProcessFrozen = false := by
    rw [priorityParams_eq]
    show ((3 : Int32) &&& coredumperFlagInProcessFrozen != 0) = false
    decide
  have priority : (priorityParams maxLength).has coredumperFlagLimitedByPriority = true := by
    rw [priorityParams_eq]
    show ((3 : Int32) &&& coredumperFlagLimitedByPriority != 0) = true
    decide
  rw [lowerParams_of_plain frame (by rw [priorityParams_eq]; rfl) (by rw [priorityParams_eq]; rfl) frozen, priority,
    Bool.or_true, priorityParams_eq]
  rfl

end Lowering

/-! ## A limit that is not reached -/

section Ample

variable {arch : Arch} {attempts : Nat → Attempt arch} {opts other : DumpOptions arch}

/-- The attempts do the same with two sets of options. -/
structure SameAttempts (attempts : Nat → Attempt arch) (opts other : DumpOptions arch) : Prop where
  plain : ∀ index, (attempts index).writePlain other = (attempts index).writePlain opts
  compressed : ∀ index path argv, (attempts index).writeCoreDumpCompressedToFdWith path argv other =
    (attempts index).writeCoreDumpCompressedToFdWith path argv opts

theorem SameAttempts.dumpPlain (same : SameAttempts attempts opts other) :
    dumpPlain attempts other 0 = dumpPlain attempts opts 0 := by
  funext effects
  simp only [Capi.dumpPlain, same.plain]

theorem SameAttempts.dumpCompressed (same : SameAttempts attempts opts other) (wanted : Bool)
    (compressors : Option (List CoredumperCompressor)) :
    dumpCompressed attempts other wanted compressors = dumpCompressed attempts opts wanted compressors := by
  funext effects
  cases compressors with
  | none => exact congrFun same.dumpPlain effects
  | some table =>
      have loop : ∀ index effects, dumpFrom attempts other wanted index table effects =
          dumpFrom attempts opts wanted index table effects := by
        induction table with
        | nil => exact fun _ _ => rfl
        | cons entry rest ih =>
            intro index effects
            simp only [dumpFrom, Capi.dumpPlain, same.plain, same.compressed, ih]
      exact loop _ _

/-- With a limit above all cores of the process the attempts are those without one. -/
theorem sameAttempts_ample {limit : Nat} (framed : opts.frame.isSome = true) (unprioritized : opts.prioritize = false)
    (fits : ∀ index, (attempts index).CoresFit opts limit) :
    SameAttempts attempts { opts with maxLength := none } { opts with maxLength := some limit } := by
  have agrees := fun index => Site.agrees (Site.ample framed unprioritized (fits index)) rfl
  constructor
  · intro index
    obtain ⟨result, stream, callbacks⟩ := agrees index
    simp only [Attempt.writePlain, result, stream, callbacks]
  · intro index path argv
    obtain ⟨result, stream, callbacks⟩ := agrees index
    simp only [Attempt.writeCoreDumpCompressedToFdWith, result, stream, callbacks]

/-- No core that an attempt can capture has `usize::MAX` bytes. -/
def Environment.CoresFit (env : Environment arch) : Prop :=
  ∀ index, (env.attempts index).CoresFit (defaultOptions env.frame) usizeMax.toNat

/-- So `usize::MAX` as a limit is no limit. -/
theorem sameAttempts_limitOf {env : Environment arch} {maxLength : UInt64}
    (fits : maxLength = usizeMax → env.CoresFit) :
    SameAttempts env.attempts { defaultOptions env.frame with maxLength := limitOf maxLength }
      { defaultOptions env.frame with maxLength := some maxLength.toNat } := by
  unfold limitOf
  split
  · rename_i most
    subst most
    exact sameAttempts_ample rfl rfl (fits rfl)
  · exact ⟨fun _ => rfl, fun _ _ _ => rfl⟩

end Ample

/-! ## The functions -/

section Functions

variable {arch : Arch}

/-- A block without a table is one with the null table. -/
theorem dumpWith_eq (attempts : Nat → Attempt arch) (params : CoreDumpParameters) (frame : Int32 × Regs arch) :
    dumpWith attempts (some params) frame =
      dumpCompressed attempts (lowerParams (some params) frame) params.selectedCompressor params.compressors := by
  funext effects
  cases listed : params.compressors with
  | none => simp only [dumpWith, listed, dumpCompressed]
  | some table => simp only [dumpWith, listed]

theorem dumpToPath_created {env : Environment arch} {path : Bytes} {dump : Effects → Option (Int × Effects)}
    {outcome : Outcome} (returned : env.dumpToPath path dump = some outcome) :
    outcome.created = if env.opens path then some path else none := by
  unfold Environment.dumpToPath at returned
  split at returned
  · rename_i opened
    obtain ⟨_, _, rfl⟩ := Option.map_eq_some_iff.mp returned
    rw [if_pos opened]
  · rename_i unopened
    cases returned
    rw [if_neg unopened]
    rfl

/-- Two dumps to different paths have the same effects only if neither is opened. -/
theorem dumpToPath_eq_iff {env : Environment arch} {path base : Bytes} {dump : Effects → Option (Int × Effects)}
    {outcome other : Outcome} (returned : env.dumpToPath path dump = some outcome)
    (returnedOther : env.dumpToPath base dump = some other) :
    outcome = other ↔ path = base ∨ env.opens base = false ∧ env.opens path = false := by
  constructor
  · rintro rfl
    have created := dumpToPath_created returned
    rw [dumpToPath_created returnedOther] at created
    cases first : env.opens base <;> cases second : env.opens path <;> simp [first, second] at created ⊢
    exact created.symm
  · rintro (rfl | ⟨unopened, unopenedPath⟩)
    · exact Option.some.inj (returned.symm.trans returnedOther)
    · simp only [Environment.dumpToPath, unopened, unopenedPath, Bool.false_eq_true, if_false] at returned returnedOther
      exact Option.some.inj (returned.symm.trans returnedOther)

/-- The convenience functions agree with their sequences. This is so for all but
`WriteCompressedCoreDump` whatever the environment does; what that one does is what
its sequence does if and only if it appends no suffix, or can open neither file. -/
theorem convenience_agrees_iff (env : Environment arch) (fileName : Option Bytes) (maxLength : UInt64)
    (compressors : Option (List CoredumperCompressor)) (selected : Bool) (fits : maxLength = usizeMax → env.CoresFit) :
    env.writeCoreDump fileName = env.writeCoreDumpWith (some clearCoreDumpParameters) fileName ∧
    env.writeCoreDumpLimited fileName maxLength = env.writeCoreDumpWith (some (limitedParams maxLength)) fileName ∧
    env.writeCoreDumpLimitedByPriority fileName maxLength =
      env.writeCoreDumpWith (some (priorityParams maxLength)) fileName ∧
    env.getCompressedCoreDump compressors selected =
      env.getCoreDumpWith (some (compressedParams compressors selected)) ∧
    ∀ outcome other, env.writeCompressedCoreDump fileName maxLength compressors selected = some outcome →
      env.writeCoreDumpWith (some (limitedCompressedParams compressors selected maxLength)) fileName = some other →
      (outcome = other ↔ ∀ base, fileName = some base → env.resolvedSuffix compressors = [] ∨
        env.opens base = false ∧ env.opens (base ++ env.resolvedSuffix compressors) = false) := by
  have same := sameAttempts_limitOf fits
  refine ⟨?_, ?_, ?_, ?_, ?_⟩
  · have dump : dumpWith env.attempts (some clearCoreDumpParameters) env.frame =
        dumpWith env.attempts none env.frame := by
      rw [dumpWith_eq, lowerParams_clear]
      rfl
    simp only [Environment.writeCoreDump, Environment.writeCoreDumpWith, dump]
  · have dump : dumpWith env.attempts (some (limitedParams maxLength)) env.frame =
        dumpPlain env.attempts { defaultOptions env.frame with maxLength := limitOf maxLength } 0 := by
      rw [dumpWith_eq, lowerParams_limitedParams, limitedParams_eq, ← same.dumpPlain]
      rfl
    simp only [Environment.writeCoreDumpLimited, Environment.writeCoreDumpWith, dump]
  · have dump : dumpWith env.attempts (some (priorityParams maxLength)) env.frame =
        dumpPlain env.attempts { defaultOptions env.frame with maxLength := some maxLength.toNat, prioritize := true }
          0 := by
      rw [dumpWith_eq, lowerParams_priorityParams, priorityParams_eq]
      rfl
    simp only [Environment.writeCoreDumpLimitedByPriority, Environment.writeCoreDumpWith, dump]
  · have dump : dumpWith env.attempts (some (compressedParams compressors selected)) env.frame =
        dumpCompressed env.attempts (defaultOptions env.frame) selected compressors := by
      rw [dumpWith_eq, lowerParams_compressedParams, compressedParams_eq]
    have unlimited : (compressedParams compressors selected).has
        (coredumperFlagLimited ||| coredumperFlagLimitedByPriority) = false := by
      rw [compressedParams_eq]
      exact clearCoreDumpParameters_has _
    simp only [Environment.getCompressedCoreDump, Environment.getCoreDumpWith, unlimited, Bool.false_eq_true, if_false,
      Environment.getCoreDumpWithFrame, dump]
  · intro outcome other returned returnedOther
    have dump : dumpWith env.attempts (some (limitedCompressedParams compressors selected maxLength)) env.frame =
        dumpCompressed env.attempts { defaultOptions env.frame with maxLength := limitOf maxLength } selected
          compressors := by
      rw [dumpWith_eq, lowerParams_limitedCompressedParams, limitedCompressedParams_eq, same.dumpCompressed]
    simp only [Environment.writeCoreDumpWith, dump] at returnedOther
    cases fileName with
    | none =>
        refine ⟨fun _ base named => (by cases named), fun _ => ?_⟩
        exact Option.some.inj (returned.symm.trans returnedOther)
    | some base =>
        refine (dumpToPath_eq_iff returned returnedOther).trans ?_
        simp

end Functions

/-- The sample process, in which every attempt writes a core. -/
def fineEnvironment : Environment .x86_64 := sampleEnvironment fun _ => sampleAttempt 0 (.ok fineProgram) 0

/-- The cores of the sample process are short: three pages are mapped. -/
theorem fineEnvironment_fits : fineEnvironment.CoresFit := by
  intro index
  refine @Site.coresFit_of_served _ (sampleSite 0) (defaultOptions sampleFrame) sampleParsed ?_ rfl (by decide +kernel)
  rintro cap ⟨pids, captured⟩
  have auxv : cap.auxv = [] := (captureDump_bounded captured).2.1
  have pagesize : cap.pagesize.toNat = faultyKernel.pageSize := by
    rw [CapturedDump.pagesize, auxv]
    rfl
  exact ⟨faultyKernel_documented, pagesize, by decide, sampleCapture_served.parses, sampleCapture_served.regular⟩

/-- The core of the sample process begins with a header. -/
theorem sampleCore_ne_nil : sampleCore false ≠ [] := by
  obtain ⟨_, ⟨cap, success, core⟩, _⟩ := Site.ok_of_lawful (sampleSite_lawful false 0 (.inl rfl)) (sampleSite_writes false)
  obtain ⟨file, accepted, _, whole⟩ := runSerialize_begins faultyKernel sampleProc cap
    ((sampleSite 0).engine (interfaceOptions false)).opts ((sampleSite 0).engine (interfaceOptions false)).fd
    sampleMachine.world
  obtain ⟨mappings, more, storable, rfl⟩ := whole rfl success
  intro empty
  have length := congrArg List.length (accepted.symm.trans (core.symm.trans empty))
  rw [List.length_append, List.length_append, CoreInputs.length_headerBytes _ storable.nameLen] at length
  simp only [CoreInputs.segmentsStart, CoreInputs.phdrsEnd, ehdrSize, List.length_nil] at length
  omega

/-- With `SIZE_MAX` as its limit the convenience function writes the core that its sequence writes. -/
theorem convenience_agrees_iff_sample : ∃ outcome,
    fineEnvironment.writeCoreDumpLimited (some coreName) usizeMax = some outcome ∧
      fineEnvironment.writeCoreDumpWith (some (limitedParams usizeMax)) (some coreName) = some outcome ∧
      outcome.rc = 0 ∧ outcome.files coreName = some (sampleCore false) ∧ sampleCore false ≠ [] := by
  have same := (convenience_agrees_iff fineEnvironment (some coreName) usizeMax none false fun _ =>
    fineEnvironment_fits).2.1
  have plain := sampleAttempt_plain (.ok fineProgram) 0 false
  have zero : orMinusOne (.ok 0) = 0 := rfl
  have dumped : dumpPlain (fun _ => sampleAttempt 0 (.ok fineProgram) 0) (interfaceOptions false) 0 .empty =
      some (0, ⟨sampleCore false, none, [sampleCore false], []⟩) := by
    simp only [dumpPlain, plain, Option.map_some, zero, Effects.add, Effects.empty, List.nil_append, Bool.false_eq_true,
      if_false]
  have written : (sampleCore false).isEmpty = false := by
    rw [List.isEmpty_eq_false_iff]
    exact sampleCore_ne_nil
  rw [← same]
  have opened : fineEnvironment.opens coreName = true := rfl
  have limited : fineEnvironment.writeCoreDumpLimited (some coreName) usizeMax = fineEnvironment.dumpToPath coreName
      (dumpPlain (fun _ => sampleAttempt 0 (.ok fineProgram) 0) (interfaceOptions false) 0) := rfl
  rw [limited]
  simp only [Environment.dumpToPath, opened, if_true, dumped, Option.map_some]
  refine ⟨_, rfl, rfl, rfl, ?_, sampleCore_ne_nil⟩
  simp only [written, Environment.store, if_true]
  rfl

/-- Options with a limit of one page. -/
def pageOptions : DumpOptions .x86_64 := { defaultOptions sampleFrame with maxLength := some 4096 }

theorem sampleSite_writes_page : (sampleSite 0).writeCoreDumpToFdOptions pageOptions = some (.ok 0) := by
  have returned : ((sampleSite 0).final pageOptions).caller.pc = .returned (.ok 0) := by decide +kernel
  have written : ∃ cap, cap.auxv = [] ∧ ((sampleSite 0).final pageOptions).memory.result =
      if (((sampleSite 0).engine pageOptions).serialize cap).success then 0 else -1 := ⟨_, rfl, rfl⟩
  obtain ⟨cap, auxv, written⟩ := written
  have success : (((sampleSite 0).engine pageOptions).serialize cap).success = true := runSerialize_sample _ auxv
  rw [success] at written
  simp only [Site.writeCoreDumpToFdOptions, Dumping.result, returned, written, if_true]

/-- What is returned and created where the file can be opened. -/
theorem dumpToPath_of_dumped {arch : Arch} {env : Environment arch} {path : Bytes}
    {dump : Effects → Option (Int × Effects)} {rc : Int} {effects : Effects} (opened : env.opens path = true)
    (dumped : dump .empty = some (rc, effects)) :
    ∃ outcome, env.dumpToPath path dump = some outcome ∧ outcome.rc = rc ∧ outcome.created = some path := by
  simp only [Environment.dumpToPath, opened, if_true, dumped, Option.map_some]
  exact ⟨_, rfl, rfl, rfl⟩

/-- One form writes "core.gz", the other "core". -/
theorem writeCompressedCoreDump_disagrees : ∃ outcome other,
    (sampleAttempt 0 (.ok fineProgram) 0).lawful pageOptions = true ∧
      (sampleEnvironment fun _ => sampleAttempt 0 (.ok fineProgram) 0).writeCompressedCoreDump (some coreName) 4096
        (some sampleTable) true = some outcome ∧
      (sampleEnvironment fun _ => sampleAttempt 0 (.ok fineProgram) 0).writeCoreDumpWith
        (some (limitedCompressedParams (some sampleTable) true 4096)) (some coreName) = some other ∧
      outcome.rc = 0 ∧ other.rc = 0 ∧ outcome.created = some (coreName ++ [0x2e, 0x67, 0x7a]) ∧
      other.created = some coreName ∧ outcome ≠ other := by
  have allowed : (sampleSite 0).lawful pageOptions = true := by decide +kernel
  have compressed : ∃ call, (sampleAttempt 0 (.ok fineProgram) 0).writeCoreDumpCompressedToFdWith gzipPath [gzipPath]
      pageOptions = some call ∧ call.result = .ok 0 := by
    have spawn : (sampleAttempt 0 (.ok fineProgram) 0).spawn = .ok () := rfl
    have writes : (sampleAttempt 0 (.ok fineProgram) 0).writeCoreDumpToFdOptions pageOptions = some (.ok 0) :=
      sampleSite_writes_page
    have finish : (sampleAttempt 0 (.ok fineProgram) 0).finish = .ok () := rfl
    simp only [Attempt.writeCoreDumpCompressedToFdWith, spawn, writes, finish]
    exact ⟨_, rfl, rfl⟩
  obtain ⟨call, first, ok⟩ := compressed
  have dumped := @dumpCompressed_sampleTable_first (fun _ => sampleAttempt 0 (.ok fineProgram) 0) _ _ first ok
  have sequence : dumpWith (fun _ => sampleAttempt 0 (.ok fineProgram) 0)
      (some (limitedCompressedParams (some sampleTable) true 4096)) sampleFrame =
        dumpCompressed (fun _ => sampleAttempt 0 (.ok fineProgram) 0) pageOptions true (some sampleTable) := by
    rw [dumpWith_eq, lowerParams_limitedCompressedParams, limitedCompressedParams_eq]
    rfl
  obtain ⟨outcome, returned, rc, created⟩ :=
    @dumpToPath_of_dumped _ (sampleEnvironment fun _ => sampleAttempt 0 (.ok fineProgram) 0)
      (coreName ++ [0x2e, 0x67, 0x7a]) _ _ _ rfl dumped
  obtain ⟨other, returnedOther, rcOther, createdOther⟩ :=
    @dumpToPath_of_dumped _ (sampleEnvironment fun _ => sampleAttempt 0 (.ok fineProgram) 0) coreName _ _ _ rfl dumped
  refine ⟨outcome, other, allowed, returned, ?_, rc, rcOther, created, createdOther, ?_⟩
  · rw [← sequence] at returnedOther
    exact returnedOther
  · rintro rfl
    rw [created] at createdOther
    exact absurd createdOther (by decide)

end Corus.Capi
