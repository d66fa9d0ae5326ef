import Corus.Capi.Fallback

/-!
# The pre-dump callback

Each attempt suspends the threads anew and asks the callback again. A refusal is a
failure like any other to the loop over the compressors, which then goes on to the
next entry.
-/

namespace Corus.Capi

open Corus.Logical Corus.Platform Corus.Output Corus.Elf Corus.Threads Corus.Dump Corus.Compress

/-- Of lists with at most one element each, no two have one if and only if they have
at most one together. -/
theorem length_flatten_le_one_iff {Element : Type} {lists : List (List Element)}
    (short : ∀ list ∈ lists, list.length ≤ 1) :
    lists.flatten.length ≤ 1 ↔ lists.Pairwise fun first second => first = [] ∨ second = [] := by
  induction lists with
  | nil => simp
  | cons list rest ih =>
      have tail := ih fun other member => short other (List.mem_cons_of_mem _ member)
      rw [List.flatten_cons, List.length_append, List.pairwise_cons, ← tail]
      rcases list with _ | ⟨element, _ | ⟨second, more⟩⟩
      · simp
      · have none : rest.flatten.length = 0 ↔ ∀ other ∈ rest, other = [] := by
          rw [List.length_eq_zero_iff, List.flatten_eq_nil_iff]
        constructor
        · intro total
          have zero : rest.flatten.length = 0 := by
            simp only [List.length_singleton] at total
            omega
          exact ⟨fun other member => .inr (none.mp zero other member), by omega⟩
        · rintro ⟨others, _⟩
          have zero := none.mpr fun other member => (others other member).resolve_left (List.cons_ne_nil _ _)
          simp only [List.length_singleton]
          omega
      · have long := short _ List.mem_cons_self
        simp only [List.length_cons] at long
        omega

section Callbacks

variable {arch : Arch} {attempts : Nat → Attempt arch} {opts : DumpOptions arch}

/-- The attempt for an entry gets to the suspended threads: the pipeline to its
compressor is set up, and the lister comes to the capture. -/
def Suspends (attempts : Nat → Attempt arch) (opts : DumpOptions arch) (index : Nat) (entry : CoredumperCompressor) :
    Prop :=
  (∃ name, entry.compressor = some name ∧ (name ≠ [] → (attempts index).spawn = .ok ())) ∧
    ((attempts index).origin opts).invocations (attempts index).choices ≠ 0

/-- With suspended threads the callback is asked, and only then. -/
theorem attemptFor_asks_iff {index : Nat} {entry : CoredumperCompressor} {call : Call} (set : opts.callback = true)
    (made : attemptFor attempts opts index entry = some call) :
    call.callbacks ≠ [] ↔ Suspends attempts opts index entry := by
  have asks : (attempts index).callbacks opts ≠ [] ↔
      ((attempts index).origin opts).invocations (attempts index).choices ≠ 0 := by
    rw [Site.callbacks, if_pos set, Ne, List.replicate_eq_nil_iff]
  obtain ⟨name, named, made⟩ := Option.bind_eq_some_iff.mp made
  split at made
  · rename_i plain
    unfold Attempt.writePlain at made
    split at made
    · cases made
    cases made
    exact asks.trans ⟨fun invoked => ⟨⟨name, named, fun some => absurd plain some⟩, invoked⟩, And.right⟩
  · rename_i compressor
    unfold Attempt.writeCoreDumpCompressedToFdWith at made
    split at made
    · rename_i number unspawned
      cases made
      refine ⟨fun some => absurd rfl some, ?_⟩
      rintro ⟨⟨other, same, spawned⟩, _⟩
      rw [named] at same
      cases same
      rw [spawned compressor] at unspawned
      cases unspawned
    · rename_i spawned
      split at made
      · cases made
      cases made
      exact asks.trans ⟨fun invoked => ⟨⟨name, named, fun _ => spawned⟩, invoked⟩, And.right⟩

/-- No two attempts of the table get to the suspended threads. -/
def SuspendsOnce (attempts : Nat → Attempt arch) (opts : DumpOptions arch) (table : List CoredumperCompressor) :
    Prop :=
  ∀ (first second : Nat) (one other : CoredumperCompressor), first < second → table[first]? = some one →
    table[second]? = some other → ReachedFrom attempts opts 0 table second →
    Suspends attempts opts first one → ¬ Suspends attempts opts second other

variable {table : List CoredumperCompressor} {calls : List Call} {selected : Option Nat} {rc : Int}

/-- The attempts that ask the callback are those that suspend the threads. -/
theorem Tries.pairwise_iff (tries : Tries attempts opts 0 table calls selected rc) (set : opts.callback = true) :
    (calls.map Call.callbacks).Pairwise (fun first second => first = [] ∨ second = []) ↔
      SuspendsOnce attempts opts table := by
  rw [List.pairwise_map, List.pairwise_iff_getElem]
  constructor
  · intro apart first second one other before firstListed secondListed reached suspends again
    obtain ⟨name, named, _⟩ := again.1
    obtain ⟨later, found⟩ := tries.reached reached secondListed named
    obtain ⟨bound, rfl⟩ := List.getElem?_eq_some_iff.mp found
    have earlier : calls[first]? = some calls[first] := List.getElem?_eq_getElem (before.trans bound)
    obtain ⟨_, same, listed, made⟩ := tries.made earlier
    obtain rfl : one = same := Option.some.inj (firstListed.symm.trans listed)
    obtain ⟨_, same, listed, madeLater⟩ := tries.made found
    obtain rfl : other = same := Option.some.inj (secondListed.symm.trans listed)
    rw [Nat.zero_add] at made madeLater
    rcases apart first second (before.trans bound) bound before with silent | silent
    · exact (attemptFor_asks_iff set made).mpr suspends silent
    · exact (attemptFor_asks_iff set madeLater).mpr again silent
  · intro once first second firstBound secondBound before
    obtain ⟨_, one, firstListed, made⟩ := tries.made (List.getElem?_eq_getElem firstBound)
    obtain ⟨reached, other, secondListed, madeLater⟩ := tries.made (List.getElem?_eq_getElem secondBound)
    rw [Nat.zero_add] at made madeLater
    by_contra both
    rw [not_or] at both
    exact once first second one other before firstListed secondListed reached
      ((attemptFor_asks_iff set made).mp both.1) ((attemptFor_asks_iff set madeLater).mp both.2)

/-- Some attempt of the table gets to the suspended threads. -/
def ReachesSuspension (attempts : Nat → Attempt arch) (opts : DumpOptions arch)
    (table : List CoredumperCompressor) : Prop :=
  ∃ index entry, table[index]? = some entry ∧ ReachedFrom attempts opts 0 table index ∧
    Suspends attempts opts index entry

theorem Tries.asks_iff (tries : Tries attempts opts 0 table calls selected rc) (set : opts.callback = true) :
    (calls.map Call.callbacks).flatten ≠ [] ↔ ReachesSuspension attempts opts table := by
  rw [Ne, List.flatten_eq_nil_iff]
  constructor
  · intro some
    simp only [not_forall] at some
    obtain ⟨answers, member, asked⟩ := some
    obtain ⟨call, among, rfl⟩ := List.mem_map.mp member
    obtain ⟨index, found⟩ := List.getElem?_of_mem among
    obtain ⟨reached, entry, listed, made⟩ := tries.made found
    rw [Nat.zero_add] at made
    exact ⟨index, entry, listed, reached, (attemptFor_asks_iff set made).mp asked⟩
  · rintro ⟨index, entry, listed, reached, suspends⟩ none
    obtain ⟨name, named, _⟩ := suspends.1
    obtain ⟨call, found⟩ := tries.reached reached listed named
    obtain ⟨_, same, listed', made⟩ := tries.made found
    obtain rfl : entry = same := Option.some.inj (listed.symm.trans listed')
    rw [Nat.zero_add] at made
    exact (attemptFor_asks_iff set made).mpr suspends
      (none _ (List.mem_map_of_mem (List.mem_of_getElem? found)))

/-- A single answer decides: unless it is zero, the loop fails and no engine writes. -/
theorem Tries.decided (tries : Tries attempts opts 0 table calls selected rc)
    (allowed : ∀ number, (attempts number).lawful opts = true) (set : opts.callback = true) {answer : Int32}
    (single : (calls.map Call.callbacks).flatten = [answer]) (refused : answer ≠ 0) :
    rc ≠ 0 ∧ ∀ stream ∈ calls.map Call.stream, stream = [] := by
  have each : ∀ call ∈ calls, 0 ∉ call.callbacks := by
    intro call among zero
    have member : 0 ∈ (calls.map Call.callbacks).flatten :=
      List.mem_flatten.mpr ⟨_, List.mem_map_of_mem among, zero⟩
    rw [single, List.mem_singleton] at member
    exact refused member.symm
  have answered : ∀ call ∈ calls, (call.result = .ok 0 → call.callbacks = [0]) ∧ call.stream = [] := by
    intro call among
    obtain ⟨index, found⟩ := List.getElem?_of_mem among
    obtain ⟨_, entry, _, made⟩ := tries.made found
    obtain ⟨_, succeeded, declined⟩ := attemptFor_callbacks (allowed _) set made
    exact ⟨succeeded, declined (each call among)⟩
  constructor
  · intro zero
    obtain ⟨earlier, call, rfl, _, ok⟩ := tries.succeeded allowed zero
    have among : call ∈ earlier ++ [call] := by simp
    have once := (answered call among).1 ok
    exact each call among (by rw [once]; exact List.mem_singleton_self 0)
  · intro stream member
    obtain ⟨call, among, rfl⟩ := List.mem_map.mp member
    exact (answered call among).2

end Callbacks

/-! ## The entry points -/

/-- The only entry of a dump without a table. -/
def uncompressed : CoredumperCompressor := ⟨some [], none, none⟩

section Parameters

variable {arch : Arch} (env : Environment arch) (params : CoreDumpParameters)

/-- The entries that a parameter block asks for. -/
def CoreDumpParameters.entries : List CoredumperCompressor := params.compressors.getD [uncompressed]

/-- The callback decides once about a call that reaches the suspended threads: it is
invoked exactly once, and unless it returns zero the call fails without a core. -/
def DecidesOnce (begun : Prop) (outcome : Outcome) : Prop :=
  begun → ReachesSuspension env.attempts (lowerParams (some params) env.frame) params.entries →
    ∃ answer, outcome.effects.callbacks = [answer] ∧
      (answer ≠ 0 → outcome.rc = -1 ∧ ∀ stream ∈ outcome.effects.streams, stream = [])

variable {env params}

/-- A dump with a parameter block makes the attempts for its entries. -/
theorem dumpWith_tries {rc : Int} {after : Effects}
    (ran : dumpWith env.attempts (some params) env.frame .empty = some (rc, after)) :
    ∃ calls selected,
      Tries env.attempts (lowerParams (some params) env.frame) 0 params.entries calls selected rc ∧
        after.callbacks = (calls.map Call.callbacks).flatten ∧ after.streams = calls.map Call.stream := by
  unfold dumpWith at ran
  cases listed : params.compressors with
  | some table =>
      simp only [listed] at ran
      obtain ⟨calls, selected, tries, rfl⟩ := dumpFrom_tries ran
      refine ⟨calls, selected, by simpa only [CoreDumpParameters.entries, listed, Option.getD_some] using tries, ?_⟩
      cases selected <;> simp [Effects.settle, Effects.select, foldl_add_callbacks, foldl_add_streams, Effects.empty]
  | none =>
      simp only [listed, dumpPlain, Option.map_eq_some_iff] at ran
      obtain ⟨call, made, equal⟩ := ran
      cases equal
      have tries : Tries env.attempts (lowerParams (some params) env.frame) 0 params.entries [call]
          (if orMinusOne call.result = 0 then some 0 else none) (orMinusOne call.result) := by
        rw [CoreDumpParameters.entries, listed]
        exact .plain rfl made
      exact ⟨[call], _, tries, by simp [Effects.add, Effects.empty], by simp [Effects.add, Effects.empty]⟩

/-- The callback decides once if and only if no two attempts suspend the threads. -/
theorem decidesOnce_iff {begun : Prop} {outcome : Outcome}
    (set : params.callbackFn = true)
    (allowed : ∀ number, (env.attempts number).lawful (lowerParams (some params) env.frame) = true)
    (ran : begun → ∃ rc, dumpWith env.attempts (some params) env.frame .empty = some (rc, outcome.effects) ∧
      (rc = -1 → outcome.rc = -1)) :
    DecidesOnce env params begun outcome ↔
      (begun → ∀ table, params.compressors = some table →
        SuspendsOnce env.attempts (lowerParams (some params) env.frame) table) := by
  refine imp_congr_right fun begins => ?_
  obtain ⟨rc, dumped, failing⟩ := ran begins
  obtain ⟨calls, selected, tries, callbacks, streams⟩ := dumpWith_tries dumped
  have asked : (lowerParams (some params) env.frame).callback = true := set
  -- Together the attempts have at most one answer if no two of them suspend the threads.
  have short : ∀ answers ∈ calls.map Call.callbacks, answers.length ≤ 1 := by
    intro answers member
    obtain ⟨call, among, rfl⟩ := List.mem_map.mp member
    obtain ⟨index, found⟩ := List.getElem?_of_mem among
    obtain ⟨_, entry, _, made⟩ := tries.made found
    exact (attemptFor_callbacks (allowed _) asked made).1
  have once := (length_flatten_le_one_iff short).trans (tries.pairwise_iff asked)
  have entries : SuspendsOnce env.attempts (lowerParams (some params) env.frame) params.entries ↔
      ∀ table, params.compressors = some table →
        SuspendsOnce env.attempts (lowerParams (some params) env.frame) table := by
    cases listed : params.compressors with
    | some table => simp [CoreDumpParameters.entries, listed]
    | none =>
        simp only [CoreDumpParameters.entries, listed, Option.getD_none, reduceCtorEq, false_implies,
          implies_true, iff_true]
        intro first second one other before _ present
        have bound := (List.getElem?_eq_some_iff.mp present).1
        rw [List.length_singleton] at bound
        omega
  rw [← entries, ← once, callbacks, streams, ← tries.asks_iff asked]
  constructor
  · intro decides
    by_cases none : (calls.map Call.callbacks).flatten = []
    · rw [none]
      exact Nat.zero_le _
    · obtain ⟨answer, single, _⟩ := decides none
      rw [single]
      rfl
  · intro most some
    obtain ⟨answer, single⟩ := List.length_eq_one_iff.mp
      (Nat.le_antisymm most (List.length_pos_of_ne_nil some))
    refine ⟨answer, single, fun refused => ?_⟩
    obtain ⟨nonzero, empty⟩ := tries.decided allowed asked single refused
    exact ⟨failing ((tries.returns allowed).resolve_left nonzero), empty⟩

/-- What `WriteCoreDumpWith` returns and leaves of a dump. -/
theorem writeCoreDumpWith_of_dumped {path : Bytes} {rc : Int} {effects : Effects} (opened : env.opens path = true)
    (dumped : dumpWith env.attempts (some params) env.frame .empty = some (rc, effects)) :
    ∃ outcome, env.writeCoreDumpWith (some params) (some path) = some outcome ∧ outcome.rc = rc ∧
      outcome.effects = effects := by
  simp only [Environment.writeCoreDumpWith, Environment.writeToNamedFile, Environment.dumpToPath, opened, if_true,
    dumped, Option.map_some]
  exact ⟨_, rfl, rfl, rfl⟩

/-- The pre-dump callback decides once. For every parameter block with a callback and
every call of `WriteCoreDumpWith` or `GetCoreDumpWith` with it, this is so if and only
if no two attempts of the compressor table suspend the threads. -/
theorem callback_decides_once_iff (env : Environment arch) (params : CoreDumpParameters)
    (set : params.callbackFn = true)
    (allowed : ∀ number, (env.attempts number).lawful (lowerParams (some params) env.frame) = true) :
    (∀ fileName outcome, env.writeCoreDumpWith (some params) fileName = some outcome →
      let begun := ∃ path, fileName = some path ∧ env.opens path = true
      DecidesOnce env params begun outcome ↔ (begun → ∀ table, params.compressors = some table →
        SuspendsOnce env.attempts (lowerParams (some params) env.frame) table)) ∧
    (∀ outcome, env.getCoreDumpWith (some params) = some outcome →
      let begun := params.has (coredumperFlagLimited ||| coredumperFlagLimitedByPriority) = false ∧
        env.tempfile ≠ none
      DecidesOnce env params begun outcome ↔ (begun → ∀ table, params.compressors = some table →
        SuspendsOnce env.attempts (lowerParams (some params) env.frame) table)) := by
  constructor
  · intro fileName outcome returned begun
    refine decidesOnce_iff set allowed ?_
    rintro ⟨path, rfl, opened⟩
    simp only [Environment.writeCoreDumpWith, Environment.writeToNamedFile, Environment.dumpToPath, opened, if_true,
      Option.map_eq_some_iff] at returned
    obtain ⟨⟨rc, effects⟩, dumped, rfl⟩ := returned
    exact ⟨rc, dumped, fun failed => failed⟩
  · intro outcome returned begun
    refine decidesOnce_iff set allowed ?_
    rintro ⟨unlimited, temporary⟩
    obtain ⟨fd, created⟩ := Option.ne_none_iff_exists'.mp temporary
    simp only [Environment.getCoreDumpWith, unlimited, Bool.false_eq_true, if_false, Environment.getCoreDumpWithFrame,
      Environment.dumpToTempfile, created, Option.map_eq_some_iff] at returned
    obtain ⟨⟨rc, effects⟩, dumped, same⟩ := returned
    refine ⟨rc, ?_, fun failed => ?_⟩
    · rw [dumped, ← same]
      split
      · rfl
      · rfl
    · rw [← same, if_neg (by rw [failed]; simp)]

end Parameters

/-- A process in which every path exists and can be written. -/
def sampleEnvironment (attempts : Nat → Attempt .x86_64) : Environment .x86_64 where
  files := fun _ => none
  pathExists := fun _ => true
  opens := fun _ => true
  metadata := true
  removes := fun _ => true
  tempfile := some 5
  seeks := true
  frame := sampleFrame
  attempts := attempts

/-- A parameter block with a callback. -/
def callbackParams (compressors : Option (List CoredumperCompressor)) : CoreDumpParameters :=
  { clearCoreDumpParameters with compressors := compressors, selectedCompressor := true, callbackFn := true }

theorem lowerParams_callbackParams (compressors : Option (List CoredumperCompressor)) :
    lowerParams (some (callbackParams compressors)) sampleFrame = interfaceOptions true := by
  have unset : ∀ flag, (callbackParams compressors).has flag = false := by
    intro flag
    show (0 &&& flag != 0) = false
    simp
  simp only [lowerParams, unset, Bool.false_or, Bool.false_eq_true, if_false]
  rfl

/-- "core". -/
def coreName : Bytes := [0x63, 0x6f, 0x72, 0x65]

/-- The compressor of the first attempt cannot be forked. -/
def unstartedAttempts : Nat → Attempt .x86_64
  | 0 => { sampleAttempt 0 (.error .enoent) 32512 with fork := .error .eagain }
  | _ => sampleAttempt 0 (.error .enoent) 32512

/-- The second attempt of a table whose first one fails succeeds. -/
theorem dumpWith_second {attempts : Nat → Attempt .x86_64} {failed : Call}
    (first : (attempts 0).writeCoreDumpCompressedToFdWith gzipPath [gzipPath] (interfaceOptions true) = some failed)
    (nonzero : orErrno failed.result ≠ 0) (second : attempts 1 = sampleAttempt 0 (.error .enoent) 32512) :
    dumpWith attempts (some (callbackParams (some sampleTable))) sampleFrame .empty =
      some (0, ⟨failed.output ++ sampleCore true, some 1, [failed.stream, sampleCore true], failed.callbacks ++ [0]⟩) := by
  have table : (callbackParams (some sampleTable)).compressors = some sampleTable := rfl
  have wanted : (callbackParams (some sampleTable)).selectedCompressor = true := rfl
  have plain : (attempts 1).writePlain (interfaceOptions true) =
      some ⟨.ok 0, sampleCore true, sampleCore true, [0]⟩ := by
    rw [second, sampleAttempt_plain, if_pos rfl]
  simp only [dumpWith, table, wanted, lowerParams_callbackParams]
  exact dumpCompressed_sampleTable first nonzero plain rfl

/-- The callback is asked by the second attempt only. -/
theorem callback_decides_once_iff_sample : ∃ outcome,
    (sampleEnvironment unstartedAttempts).writeCoreDumpWith (some (callbackParams (some sampleTable)))
        (some coreName) = some outcome ∧ outcome.effects.callbacks = [0] ∧
      outcome.effects.streams = [[], sampleCore true] ∧
      DecidesOnce (sampleEnvironment unstartedAttempts) (callbackParams (some sampleTable))
        (∃ path, some coreName = some path ∧ true = true) outcome := by
  have unstarted : (unstartedAttempts 0).spawn = .error Errno.eagain.code := rfl
  have failed : (unstartedAttempts 0).writeCoreDumpCompressedToFdWith gzipPath [gzipPath] (interfaceOptions true) =
      some ⟨.error (.compressor Errno.eagain.code), [], [], []⟩ := by
    simp only [Attempt.writeCoreDumpCompressedToFdWith, unstarted]
  obtain ⟨outcome, returned, _, effects⟩ :=
    @writeCoreDumpWith_of_dumped _ (sampleEnvironment unstartedAttempts) _ coreName _ _ rfl
      (dumpWith_second failed (by decide) rfl)
  refine ⟨outcome, returned, by rw [effects]; rfl, by rw [effects], ?_⟩
  refine ((callback_decides_once_iff _ _ rfl ?_).1 _ outcome returned).mpr ?_
  · intro number
    show (unstartedAttempts number).lawful (lowerParams (some (callbackParams (some sampleTable))) sampleFrame) = true
    rw [lowerParams_callbackParams]
    cases number with
    | zero => exact sampleSite_lawful true 0 (.inl rfl)
    | succ number => exact sampleSite_lawful true 0 (.inl rfl)
  · -- There are two entries, and the first one does not get to the threads.
    rintro _ _ ⟨⟩ first second one other before firstListed secondListed _ ⟨⟨name, named, starts⟩, _⟩
    have last : second < sampleTable.length := (List.getElem?_eq_some_iff.mp secondListed).1
    have zero : first = 0 := by
      have length : sampleTable.length = 2 := rfl
      omega
    subst zero
    cases firstListed
    cases named
    have started : (unstartedAttempts 0).spawn = .ok () := starts (by decide)
    rw [unstarted] at started
    cases started

/-- The callback refuses the first attempt and, asked again, allows the second. -/
def waveringAttempts : Nat → Attempt .x86_64
  | 0 => sampleAttempt 1 (.error .enoent) 32512
  | _ => sampleAttempt 0 (.error .enoent) 32512

/-- The first attempt fails. -/
theorem waveringAttempts_refused :
    (waveringAttempts 0).writeCoreDumpCompressedToFdWith gzipPath [gzipPath] (interfaceOptions true) =
      some ⟨.error (.dump .callbackAborted), [], [], [1]⟩ := by
  have spawn : (waveringAttempts 0).spawn = .ok () := rfl
  have aborted : (waveringAttempts 0).writeCoreDumpToFdOptions (interfaceOptions true) =
      some (.error (.dump .callbackAborted)) := rfl
  have stream : (waveringAttempts 0).stream (interfaceOptions true) = [] := rfl
  have callbacks : (waveringAttempts 0).callbacks (interfaceOptions true) = [1] :=
    sampleSite_callbacks true 1 (.inr rfl)
  have child : ((waveringAttempts 0).child gzipPath [gzipPath] []).1 = [] := rfl
  simp only [Attempt.writeCoreDumpCompressedToFdWith, spawn, aborted, stream, callbacks, Attempt.bothSucceed, child]

/-- A core is generated although the callback refused it. -/
theorem callback_asked_again : ∃ outcome,
    (∀ number, (waveringAttempts number).lawful (lowerParams (some (callbackParams (some sampleTable))) sampleFrame) =
      true) ∧
      (sampleEnvironment waveringAttempts).writeCoreDumpWith (some (callbackParams (some sampleTable)))
        (some coreName) = some outcome ∧
      outcome.effects.callbacks = [1, 0] ∧ outcome.rc = 0 ∧ sampleCore true ∈ outcome.effects.streams ∧
      ¬ DecidesOnce (sampleEnvironment waveringAttempts) (callbackParams (some sampleTable))
        (∃ path, some coreName = some path ∧ true = true) outcome := by
  have lowered := lowerParams_callbackParams (some sampleTable)
  obtain ⟨outcome, returned, rc, effects⟩ :=
    @writeCoreDumpWith_of_dumped _ (sampleEnvironment waveringAttempts) _ coreName _ _ rfl
      (dumpWith_second waveringAttempts_refused (by decide) rfl)
  refine ⟨outcome, ?_, returned, by rw [effects]; rfl, rc, by rw [effects]; simp, ?_⟩
  · rw [lowered]
    intro number
    cases number with
    | zero => exact sampleSite_lawful true 1 (.inr rfl)
    | succ number => exact sampleSite_lawful true 0 (.inl rfl)
  · intro decides
    have suspends : ReachesSuspension waveringAttempts (interfaceOptions true) sampleTable :=
      ⟨0, _, rfl, nofun, ⟨gzipPath, rfl, fun _ => rfl⟩, by decide +kernel⟩
    obtain ⟨answer, single, _⟩ := decides ⟨coreName, rfl, rfl⟩ (by rw [← lowered] at suspends; exact suspends)
    rw [effects] at single
    cases single

end Corus.Capi
