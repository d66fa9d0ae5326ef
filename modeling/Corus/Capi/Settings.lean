import Corus.Capi.EntryPoints

/-!
# Sequences of settings

The functions that fill a parameter block look at different fields before they agree
to a call. Taken together, in whatever order and however often they are called, they
keep a block in one of three states: without a limit, with a limit, or with a limit by
priority and without compressors.
-/

namespace Corus.Capi

open Corus.Platform Corus.Elf Corus.Dump

/-- A call that fills a parameter block. -/
inductive SettingCall where
  | limited (maxLength : UInt64)
  | limitedByPriority (maxLength : UInt64)
  | compressed (compressors : Option (List CoredumperCompressor)) (selected : Bool)
  | notes (table : Option (List CoredumperNote)) (noteCount : Int32)
  | callback (func : Bool)

namespace SettingCall

/-- What the call does to a block. -/
def apply (call : SettingCall) (params : CoreDumpParameters) : Setting :=
  match call with
  | .limited maxLength => setCoreDumpLimited params maxLength
  | .limitedByPriority maxLength => setCoreDumpLimitedByPriority params maxLength
  | .compressed compressors selected => setCoreDumpCompressed params compressors selected
  | .notes table noteCount => setCoreDumpNotes params table noteCount
  | .callback func => setCoreDumpCallback params func

/-- The limit that the call asks for. -/
def limit : SettingCall → Option UInt64
  | .limited maxLength | .limitedByPriority maxLength => some maxLength
  | _ => none

/-- A call is refused or succeeds. -/
theorem apply_cases (call : SettingCall) (params : CoreDumpParameters) :
    call.apply params = params.refuse ∨ (call.apply params).rc = 0 := by
  cases call with
  | limited maxLength =>
      simp only [apply, setCoreDumpLimited]
      split
      · exact .inl rfl
      · exact .inr rfl
  | limitedByPriority maxLength =>
      simp only [apply, setCoreDumpLimitedByPriority]
      split
      · exact .inl rfl
      · exact .inr rfl
  | compressed compressors selected =>
      simp only [apply, setCoreDumpCompressed]
      split
      · exact .inl rfl
      · exact .inr rfl
  | notes table noteCount => exact .inr rfl
  | callback func => exact .inr rfl

/-- A call that fails leaves the block as it was. -/
theorem apply_failed (call : SettingCall) {params : CoreDumpParameters} (failed : (call.apply params).rc = -1) :
    (call.apply params).params = params := by
  rcases call.apply_cases params with refused | succeeded
  · rw [refused]
    rfl
  · rw [succeeded] at failed
    cases failed

end SettingCall

/-- A block with an observer, who knows the limits that were agreed to. -/
structure ObservedBlock where
  params : CoreDumpParameters
  limits : List UInt64

namespace ObservedBlock

/-- One call on the block. -/
def step (block : ObservedBlock) (call : SettingCall) : ObservedBlock :=
  let setting := call.apply block.params
  ⟨setting.params, if setting.rc = 0 then block.limits ++ call.limit.toList else block.limits⟩

/-- A cleared block after a sequence of calls. -/
def after (calls : List SettingCall) : ObservedBlock := calls.foldl step ⟨clearCoreDumpParameters, []⟩

/-- The three states of a block, by its flags. -/
inductive Exclusive (flags : Int32) (compressors : Option (List CoredumperCompressor)) (limits : List UInt64) :
    Prop where
  | unlimited (flags : flags = 0) (none : limits = [])
  | limited (flags : flags = coredumperFlagLimited) (agreed : limits ≠ [])
  | prioritized (flags : flags = coredumperFlagLimited ||| coredumperFlagLimitedByPriority) (agreed : limits ≠ [])
      (plain : compressors = .none)

/-- What every sequence of calls keeps: the states, and that the limit in force is the
last one agreed to. -/
structure Invariant (block : ObservedBlock) : Prop where
  exclusive : Exclusive block.params.flags block.params.compressors block.limits
  limit : block.params.maxLength = block.limits.getLast?.getD usizeMax

theorem Invariant.initial : Invariant ⟨clearCoreDumpParameters, []⟩ := ⟨.unlimited rfl rfl, rfl⟩

/-- A refused call changes nothing. -/
theorem step_refused {call : SettingCall} {block : ObservedBlock}
    (refused : call.apply block.params = block.params.refuse) : block.step call = block := by
  simp only [step, refused, CoreDumpParameters.refuse]
  rfl

/-- A call about something else keeps the limits. -/
theorem step_kept {call : SettingCall} {block : ObservedBlock} {params : CoreDumpParameters}
    (other : call.limit = none) (succeeded : call.apply block.params = ⟨0, none, params⟩) :
    block.step call = ⟨params, block.limits⟩ := by
  simp only [step, succeeded, if_true, other, Option.toList_none, List.append_nil]

/-- A limit that is agreed to is the last one. -/
theorem step_agreed {call : SettingCall} {block : ObservedBlock} {params : CoreDumpParameters} {length : UInt64}
    (asked : call.limit = some length) (succeeded : call.apply block.params = ⟨0, none, params⟩) :
    block.step call = ⟨params, block.limits ++ [length]⟩ := by
  simp only [step, succeeded, if_true, asked, Option.toList_some]

/-- The flags of a block with a limit, -/
theorem has_of_limited {params : CoreDumpParameters} (flags : params.flags = coredumperFlagLimited) :
    params.has coredumperFlagLimited = true ∧ params.has coredumperFlagLimitedByPriority = false := by
  rw [CoreDumpParameters.has, CoreDumpParameters.has, flags]
  decide

/-- and with a limit by priority. -/
theorem has_of_prioritized {params : CoreDumpParameters}
    (flags : params.flags = coredumperFlagLimited ||| coredumperFlagLimitedByPriority) :
    params.has coredumperFlagLimited = true ∧ params.has coredumperFlagLimitedByPriority = true := by
  rw [CoreDumpParameters.has, CoreDumpParameters.has, flags]
  decide

/-- A limit that is agreed to is the last one. -/
theorem Invariant.agreed {params : CoreDumpParameters} {limits : List UInt64} {length : UInt64}
    (exclusive : limits ++ [length] ≠ [] → Exclusive params.flags params.compressors (limits ++ [length]))
    (limit : params.maxLength = length) : Invariant ⟨params, limits ++ [length]⟩ :=
  ⟨exclusive (by simp), by simp [limit]⟩

/-- A block that may be compressed or limited has no limit by priority. -/
theorem Exclusive.unprioritized {params : CoreDumpParameters} {limits : List UInt64}
    (exclusive : Exclusive params.flags params.compressors limits)
    (allowed : ¬ params.has coredumperFlagLimitedByPriority = true) :
    params.flags = 0 ∧ limits = [] ∨ params.flags = coredumperFlagLimited ∧ limits ≠ [] := by
  cases exclusive with
  | unlimited flags none => exact .inl ⟨flags, none⟩
  | limited flags agreed => exact .inr ⟨flags, agreed⟩
  | prioritized flags agreed plain => exact absurd (has_of_prioritized flags).2 allowed

/-- Every call keeps the invariant. -/
theorem Invariant.step {block : ObservedBlock} (invariant : block.Invariant) (call : SettingCall) :
    (block.step call).Invariant := by
  obtain ⟨exclusive, limit⟩ := invariant
  cases call with
  | notes table count =>
      rw [step_kept rfl rfl]
      exact ⟨exclusive, limit⟩
  | callback func =>
      rw [step_kept rfl rfl]
      exact ⟨exclusive, limit⟩
  | compressed table wanted =>
      by_cases priority : block.params.has coredumperFlagLimitedByPriority = true
      · rw [@step_refused (.compressed table wanted) block (if_pos priority)]
        exact ⟨exclusive, limit⟩
      · rw [@step_kept (.compressed table wanted) block _ rfl (if_neg priority)]
        refine ⟨?_, limit⟩
        rcases exclusive.unprioritized priority with ⟨flags, none⟩ | ⟨flags, agreed⟩
        · exact .unlimited flags none
        · exact .limited flags agreed
  | limited length =>
      by_cases priority : block.params.has coredumperFlagLimitedByPriority = true
      · rw [@step_refused (.limited length) block (if_pos priority)]
        exact ⟨exclusive, limit⟩
      · rw [@step_agreed (.limited length) block _ length rfl (if_neg priority)]
        refine Invariant.agreed (.limited ?_) rfl
        rcases exclusive.unprioritized priority with ⟨flags, _⟩ | ⟨flags, _⟩
        · simp only [flags]
          decide
        · simp only [flags]
          decide
  | limitedByPriority length =>
      by_cases excluded : ((block.params.has coredumperFlagLimited &&
          !block.params.has coredumperFlagLimitedByPriority) || block.params.compressors.isSome) = true
      · rw [@step_refused (.limitedByPriority length) block (if_pos excluded)]
        exact ⟨exclusive, limit⟩
      · rw [@step_agreed (.limitedByPriority length) block _ length rfl (if_neg excluded)]
        simp only [Bool.or_eq_true, not_or, Bool.not_eq_true, Option.isSome_eq_false_iff, Option.isNone_iff_eq_none]
          at excluded
        refine Invariant.agreed (fun agreed => .prioritized ?_ agreed excluded.2) rfl
        cases exclusive with
        | unlimited flags none =>
            simp only [flags]
            decide
        | limited flags agreed =>
            rw [(has_of_limited flags).1, (has_of_limited flags).2] at excluded
            exact absurd excluded.1 (by decide)
        | prioritized flags agreed plain =>
            simp only [flags]
            decide

/-- The invariant holds after every sequence of calls. -/
theorem Invariant.after (calls : List SettingCall) : (after calls).Invariant := by
  have run : ∀ block : ObservedBlock, block.Invariant → (calls.foldl ObservedBlock.step block).Invariant := by
    induction calls with
    | nil => exact fun block invariant => invariant
    | cons call rest ih => exact fun block invariant => ih _ (invariant.step call)
  exact run _ Invariant.initial

/-- `GetCoreDumpWith` looks for either flag, so it refuses the blocks with a limit. -/
theorem Exclusive.has_either {params : CoreDumpParameters} {limits : List UInt64}
    (exclusive : Exclusive params.flags params.compressors limits) :
    params.has (coredumperFlagLimited ||| coredumperFlagLimitedByPriority) = true ↔ limits ≠ [] := by
  rw [CoreDumpParameters.has]
  cases exclusive with
  | unlimited flags none =>
      rw [flags, none]
      decide
  | limited flags agreed =>
      rw [flags]
      exact ⟨fun _ => agreed, fun _ => by decide⟩
  | prioritized flags agreed plain =>
      rw [flags]
      exact ⟨fun _ => agreed, fun _ => by decide⟩

end ObservedBlock

/-- A dump that is tried leaves the error number alone. -/
theorem Environment.getCoreDumpWithFrame_errno {arch : Arch} (env : Environment arch)
    {params : Option CoreDumpParameters} {outcome : Outcome} (ran : env.getCoreDumpWithFrame params = some outcome) :
    outcome.errno = none := by
  unfold Environment.getCoreDumpWithFrame Environment.dumpToTempfile at ran
  split at ran
  · cases ran
    rfl
  · obtain ⟨⟨rc, effects⟩, _, rfl⟩ := Option.map_eq_some_iff.mp ran
    simp only
    split <;> rfl

/-- `GetCoreDumpWith` refuses a block exactly if one of the flags is set. -/
theorem Environment.getCoreDumpWith_refuses_iff {arch : Arch} (env : Environment arch) (params : CoreDumpParameters) :
    env.getCoreDumpWith (some params) = some (env.fails (some .einval)) ↔
      params.has (coredumperFlagLimited ||| coredumperFlagLimitedByPriority) = true := by
  unfold Environment.getCoreDumpWith
  simp only
  split
  · rename_i limited
    exact ⟨fun _ => limited, fun _ => rfl⟩
  · rename_i unlimited
    refine ⟨fun refused => ?_, fun limited => absurd limited unlimited⟩
    have errno := env.getCoreDumpWithFrame_errno refused
    cases errno

/-- What the engine and `GetCoreDumpWith` rely on in a block. -/
structure ObservedBlock.Consistent (block : ObservedBlock) : Prop where
  /-- A call that fails changes nothing. -/
  failed : ∀ call : SettingCall, (call.apply block.params).rc = -1 → (call.apply block.params).params = block.params
  priority : block.params.has coredumperFlagLimitedByPriority = true →
    block.params.has coredumperFlagLimited = true ∧ block.params.compressors = none
  /-- The limit is that of the last limit call that succeeded. -/
  limit : block.params.maxLength = block.limits.getLast?.getD usizeMax
  options : ∀ {arch : Arch} (frame : Int32 × Regs arch), (lowerParams (some block.params) frame).prioritize = true →
    (lowerParams (some block.params) frame).maxLength.isSome = true ∧ block.params.compressors = none
  refused : ∀ {arch : Arch} (env : Environment arch),
    env.getCoreDumpWith (some block.params) = some (env.fails (some .einval)) ↔ block.limits ≠ []

/-- Every sequence of calls on a cleared block leaves a consistent one. -/
theorem settings_consistent (calls : List SettingCall) : (ObservedBlock.after calls).Consistent := by
  obtain ⟨exclusive, limit⟩ := ObservedBlock.Invariant.after calls
  generalize ObservedBlock.after calls = block at *
  have priority : block.params.has coredumperFlagLimitedByPriority = true →
      block.params.has coredumperFlagLimited = true ∧ block.params.compressors = none := by
    intro prioritized
    cases exclusive with
    | unlimited flags none =>
        rw [CoreDumpParameters.has, flags] at prioritized
        exact absurd prioritized (by decide)
    | limited flags agreed =>
        rw [(ObservedBlock.has_of_limited flags).2] at prioritized
        cases prioritized
    | prioritized flags agreed plain => exact ⟨(ObservedBlock.has_of_prioritized flags).1, plain⟩
  refine ⟨fun call => call.apply_failed, priority, limit, ?_, ?_⟩
  · intro arch frame prioritized
    have flagged : block.params.has coredumperFlagLimitedByPriority = true := prioritized
    refine ⟨?_, (priority flagged).2⟩
    simp only [lowerParams, flagged, Bool.or_true, if_true, Option.isSome_some]
  · intro arch env
    rw [env.getCoreDumpWith_refuses_iff, exclusive.has_either]

end Corus.Capi
