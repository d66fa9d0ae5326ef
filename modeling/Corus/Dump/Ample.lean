import Corus.Dump.Call
import Corus.Output.Metered

/-!
# A dump below its limit

With a limit that the core of the process does not reach, a call of the engine does
what it does without a limit, whatever the descriptor answers.
-/

namespace Corus.Dump

open Corus.Logical Corus.Platform Corus.Output Corus.Proc Corus.Elf Corus.Threads

/-- A descriptor that takes everything. -/
def boundlessFd : OutFd := ⟨[], 0, fun _ => ⟨0, .ok 0x7ffff000⟩⟩

section Serialization

variable {arch : Arch} (kernel : Kernel) (proc : ProcFs) (cap : CapturedDump arch) (opts : DumpOptions arch)
  (world : World)

/-- What a dump without a limit writes if nothing stops it. -/
def wholeCore : Bytes :=
  (serializeDump kernel proc cap { opts with maxLength := none }
    (⟨world, ⟨boundlessFd⟩⟩ : Machine SimpleWriter)).2.sink.fd.accepted

/-- A serialization with a limit that ends in step with the one without, and not
because of the limit, is that one. -/
theorem runSerialize_agrees {limit : Nat} (fd : OutFd) :
    let plain := serializeDump kernel proc cap { opts with maxLength := none } (⟨world, ⟨fd⟩⟩ : Machine SimpleWriter)
    let limited := serializeDump kernel proc cap { opts with maxLength := some limit }
      (⟨world, ⟨fd, limit⟩⟩ : Machine LimitWriter)
    limited.1 = plain.1 → limited.2.sink.fd = plain.2.sink.fd → limited.2.world = plain.2.world →
      limited.2.sink.maxLength ≠ 0 →
      runSerialize kernel proc cap { opts with maxLength := some limit } fd world =
        runSerialize kernel proc cap { opts with maxLength := none } fd world := by
  intro plain limited results fds worlds unspent
  simp only [runSerialize]
  split
  · rename_i final ran
    rw [show limited = _ from ran] at results fds worlds
    split
    · rename_i plainFinal plainRan
      rw [show plain = _ from plainRan] at fds worlds
      simp only at fds worlds
      rw [fds, worlds]
    · rename_i error plainFinal plainRan
      rw [show plain = _ from plainRan] at results
      cases results
  · rename_i error final ran
    rw [show limited = _ from ran] at results fds worlds unspent
    have undone : Writer.done final = false := decide_eq_false unspent
    split
    · rename_i plainFinal plainRan
      rw [show plain = _ from plainRan] at results
      cases results
    · rename_i plainError plainFinal plainRan
      rw [show plain = _ from plainRan] at results fds worlds
      simp only [Except.error.injEq] at results fds worlds
      rw [fds, worlds, results, undone]
      rfl

/-- Below its limit a serialization does not notice it. -/
theorem runSerialize_ample {limit : Nat} (fd : OutFd) (empty : fd.accepted = [])
    (unprioritized : opts.prioritize = false)
    (fits : (wholeCore kernel proc cap opts world).length < limit) :
    runSerialize kernel proc cap { opts with maxLength := some limit } fd world =
      runSerialize kernel proc cap { opts with maxLength := none } fd world := by
  have noPriority : ∀ (length : Option Nat) (mappings : List Mapping),
      prioritized cap { opts with maxLength := length } mappings = mappings := by
    intro length mappings
    simp only [prioritized, unprioritized]
  have same : ∀ (first second : Option Nat) mappings,
      coreInputs cap { opts with maxLength := first } (prioritized cap { opts with maxLength := first } mappings) =
        coreInputs cap { opts with maxLength := second } (prioritized cap { opts with maxLength := second } mappings) := by
    intro first second mappings
    rw [noPriority, noPriority]
    rfl
  let unlimited := { opts with maxLength := none }
  let metered := serializeDump kernel proc cap unlimited (⟨world, ⟨⟨fd⟩, 0⟩⟩ : Machine (Metered SimpleWriter))
  let plain := serializeDump kernel proc cap unlimited (⟨world, ⟨fd⟩⟩ : Machine SimpleWriter)
  let limited := serializeDump kernel proc cap { opts with maxLength := some limit }
    (⟨world, ⟨fd, limit⟩⟩ : Machine LimitWriter)
  -- The meter changes nothing.
  have first : plain.1 = metered.1 ∧ plain.2.world = metered.2.world ∧ plain.2.sink = metered.2.sink.sink := by
    have follows : Follows (unmetered SimpleWriter) _ _ :=
      serializeDump_follows unmetered_carries kernel proc cap unlimited unlimited fun _ => rfl
    rcases follows.tracks ⟨world, ⟨⟨fd⟩, 0⟩⟩ ⟨world, ⟨fd⟩⟩ ⟨rfl, rfl⟩ with ⟨result, sync⟩ | ⟨_, stopped⟩
    · exact ⟨result, sync⟩
    · exact stopped.elim
  -- It shows at most the whole core.
  have offered : metered.2.sink.offered < limit := by
    have follows : Follows (metering SimpleWriter) _ _ :=
      serializeDump_follows metering_carries kernel proc cap unlimited unlimited fun _ => rfl
    have start : (metering SimpleWriter).sync ⟨world, ⟨boundlessFd⟩⟩ ⟨world, ⟨⟨fd⟩, 0⟩⟩ :=
      ⟨fun _ => ⟨0x7ffff000, by decide, rfl⟩, rfl, Nat.zero_le _⟩
    rcases follows.tracks _ _ start with ⟨_, _, _, shown⟩ | ⟨_, shown⟩
    · exact shown.trans_lt fits
    · exact shown.trans_lt fits
  -- So the limit is never exceeded.
  have second : limited.1 = metered.1 ∧ (ample limit).sync metered.2 limited.2 := by
    have follows : Follows (ample limit) _ _ :=
      serializeDump_follows ample_carries kernel proc cap unlimited { opts with maxLength := some limit } (same _ _)
    have start : (ample limit).sync ⟨world, ⟨⟨fd⟩, 0⟩⟩ ⟨world, ⟨fd, limit⟩⟩ := by
      refine ⟨rfl, rfl, ?_, ?_⟩
      · rw [empty]
        exact Nat.le_refl _
      · exact Nat.le_add_left _ _
    rcases follows.tracks _ _ start with ⟨result, sync⟩ | ⟨_, exceeded⟩
    · exact ⟨result, sync⟩
    · exact absurd exceeded (Nat.not_lt.mpr (Nat.le_of_lt offered))
  obtain ⟨result, plainWorld, plainSink⟩ := first
  obtain ⟨limitedResult, limitedWorld, limitedFd, taken, left⟩ := second
  have unspent : limited.2.sink.maxLength ≠ 0 := by omega
  have fds : limited.2.sink.fd = plain.2.sink.fd := by rw [limitedFd, plainSink]
  have worlds : limited.2.world = plain.2.world := by rw [limitedWorld, plainWorld]
  have results : limited.1 = plain.1 := by rw [limitedResult, result]
  exact runSerialize_agrees kernel proc cap opts world fd results fds worlds unspent

end Serialization

/-! ## How long a core is -/

section Length

variable {arch : Arch} {kernel : Kernel} {proc : ProcFs} {cap : CapturedDump arch} {opts : DumpOptions arch}
  {parsed : List Mapping}

theorem length_readAuxvFrom (host : Host arch) (index room : Nat) : (readAuxvFrom host index room).length ≤ room := by
  induction room generalizing index with
  | zero => exact Nat.le_refl _
  | succ room ih =>
      simp only [readAuxvFrom]
      split
      · exact Nat.zero_le _
      · split
        · exact Nat.succ_le_succ (Nat.zero_le _)
        · exact Nat.succ_le_succ (ih _)

/-- A capture holds the auxiliary vector that was read, and both fit into its arrays. -/
theorem captureDump_bounded {host : Host arch} {pids : List Int32} {mainPid : Int32}
    (captured : captureDump host pids mainPid opts = .ok cap) :
    cap.threads.length ≤ maxDumpThreads ∧ cap.auxv = readAuxv host ∧ cap.auxv.length ≤ maxAuxv := by
  have few : cap.threads.length ≤ maxDumpThreads := by
    rw [← (captureDump_ok captured).1.length_eq]
    exact List.length_take_le ..
  have vector : cap.auxv = readAuxv host := by
    simp only [captureDump] at captured
    split at captured
    · cases captured
    split at captured
    · cases captured
    · cases captured
      rfl
  refine ⟨few, vector, ?_⟩
  rw [vector, readAuxv]
  split
  · exact Nat.zero_le _
  · exact length_readAuxvFrom host 0 maxAuxv

/-- The notes of as many threads and entries as fit into a capture are short. -/
theorem noteSectionSizeFor_few (arch : Arch) {nThreads nAuxv : Nat} (threads : nThreads ≤ maxDumpThreads)
    (auxv : nAuxv ≤ maxAuxv) (hasUser : Bool) : noteSectionSizeFor arch nThreads nAuxv [] [] hasUser ≤ 2 ^ 21 := by
  have none : ntFileSizes [] = (0, 0) := rfl
  have info : coreNote Prpsinfo.size ≤ 2 ^ 10 := by decide
  have user : coreNote (CoreUser.size arch) ≤ 2 ^ 11 := by cases arch <;> decide
  have thread : coreNote (Prstatus.size arch) + coreNote arch.fpRegsSize ≤ 2 ^ 11 := by cases arch <;> decide
  have each := Nat.mul_le_mul threads thread
  have vector : coreNote (nAuxv * auxvSize) ≤ 2 ^ 12 := by
    have aligned := alignNote_bounds (nAuxv * auxvSize)
    have named : alignNote coreNamesz ≤ 8 := by decide
    have many := Nat.mul_le_mul_right auxvSize auxv
    simp only [coreNote, noteSize, nhdrSize, maxAuxv, auxvSize] at *
    omega
  simp only [noteSectionSizeFor, none, List.foldl_nil, Nat.lt_irrefl, if_false]
  simp only [maxDumpThreads] at each
  split <;> split <;> omega

/-- On the documented kernel the whole core of a capture is not much longer than what is mapped. -/
theorem length_wholeCore_le (served : Served kernel proc cap parsed) (unnoted : opts.notes = [])
    (threads : cap.threads.length ≤ maxDumpThreads) (auxv : cap.auxv.length ≤ maxAuxv) (world : World) :
    (wholeCore kernel proc cap opts world).length ≤
      (parsed.map fun mapping => mapping.end.toNat - mapping.start.toNat).sum + 2 ^ 24 := by
  let unlimited := { opts with maxLength := none }
  have accepting : SimpleWriter.acceptsEveryByte.accepting (⟨boundlessFd⟩ : SimpleWriter) :=
    fun _ => ⟨0x7ffff000, by decide, rfl⟩
  obtain ⟨kept, _, final, _, selects, ran, wrote, _⟩ := @serializeDump_documented _ _ _ _ _ _ _
    SimpleWriter.acceptsEveryByte served unlimited (⟨world, ⟨boundlessFd⟩⟩ : Machine SimpleWriter) accepting
  rw [prioritized_of_unlimited rfl] at wrote
  have contents : wholeCore kernel proc cap opts world =
      (coreInputs cap unlimited kept).headerBytes ++ (visibleSegments kernel kept).flatten := by
    rw [wholeCore, ran]
    exact wrote.emitted
  have size := @fileSize_le _ _ _ _ unlimited _ served _ selects
  have notes := noteSectionSizeFor_few arch threads auxv cap.user.isSome
  rw [contents, List.length_append, CoreInputs.length_headerBytes _ (nameLen_lt served selects), List.length_flatten]
  have sizes : (visibleSegments kernel kept).map List.length = segmentSizes kept := by
    simp [visibleSegments, segmentSizes]
  rw [sizes]
  rw [show unlimited.notes = [] from unnoted] at size
  exact Nat.le_trans size (by omega)

end Length

/-! ## Engines that do the same -/

section Captures

variable {arch : Arch} (engine : Engine arch)

/-- The engine can make this capture. -/
def Engine.Captures (cap : CapturedDump arch) : Prop := ∃ pids, engine.capture pids = .ok cap

/-- What a position of the callback holds is a capture of the engine. -/
def DumpPosition.Captured : DumpPosition arch → Prop
  | .fork cap | .inline cap => engine.Captures cap
  | .capture _ | .publishChild _ | .provisional => True

end Captures

/-- Two engines capture the same, and serialize what they capture the same. -/
structure Engine.Agrees {arch : Arch} (first second : Engine arch) : Prop where
  capture : ∀ pids, second.capture pids = first.capture pids
  strategy : second.opts.strategy = first.opts.strategy
  serialize : ∀ cap, first.Captures cap → second.serialize cap = first.serialize cap

namespace Dumping

variable {arch : Arch} {first second : Engine arch}

/-- Whatever the parties hold of a capture, the engine has captured. -/
structure Captured (state : Dumping first) : Prop where
  position : ∀ position, state.lister.pc = .callback position → position.Captured first
  child : ∀ pid cap, state.memory.child = .running pid cap → first.Captures cap
  serialized : ∀ cap, state.memory.serialized = some cap → first.Captures cap

theorem start_captured (engine : Engine arch) (flags : ProcessFlags) (statics : Statics) :
    (start engine flags statics).Captured where
  position _ here := by cases here
  child _ _ running := by cases running
  serialized _ present := by cases present

/-- A step of the callback passes its capture on. -/
theorem Captured.callbackStep {state : Dumping first} (captured : state.Captured) {position : DumpPosition arch}
    (here : state.lister.pc = .callback position) (reply : Reply) :
    Captured { state with lister := state.lister.step reply } := by
  obtain ⟨held, child, serialized⟩ := captured
  have source := held position here
  simp only [Lister.step, here, dumpCallback]
  cases position with
  | capture pids =>
      simp only [dumpCallbackStep]
      cases captured : first.capture pids with
      | error error => exact ⟨by simp, child, serialized⟩
      | ok cap =>
          refine ⟨?_, ?_, ?_⟩
          · intro later entered
            cases strategy : first.opts.strategy <;> simp only [strategy] at entered <;> cases entered <;>
              exact ⟨pids, captured⟩
          · cases first.opts.strategy <;> exact child
          · cases first.opts.strategy <;> exact serialized
  | fork cap =>
      cases reply with
      | ok answer =>
          refine ⟨?_, ?_, serialized⟩
          · rintro later ⟨rfl⟩
            trivial
          · rintro pid other ⟨rfl⟩
            exact source
      | error errno =>
          refine ⟨?_, child, serialized⟩
          rintro later ⟨rfl⟩
          exact source
  | publishChild pid =>
      refine ⟨?_, child, serialized⟩
      rintro later ⟨rfl⟩
      trivial
  | provisional => exact ⟨by simp [dumpCallbackStep], child, serialized⟩
  | inline cap =>
      refine ⟨by simp [dumpCallbackStep], child, ?_⟩
      rintro other ⟨rfl⟩
      exact source

/-- Every choice keeps that. -/
theorem Captured.apply {state : Dumping first} (captured : state.Captured) (choice : Choice) :
    (state.apply choice).Captured := by
  obtain ⟨held, child, serialized⟩ := captured
  cases choice with
  | caller reply => exact ⟨held, child, serialized⟩
  | lister reply =>
      rcases @Lister.step_involved _ state.lister reply with
        pc | ⟨pid, pc⟩ | pc | ⟨position, pc⟩ | uninvolved
      · cases reply <;> simp only [Dumping.apply, Lister.step, pc]
        · exact ⟨fun _ here => (by cases here), child, serialized⟩
        · exact ⟨fun _ here => (by cases here), child, serialized⟩
      · simp only [Dumping.apply, Lister.step, pc]
        exact ⟨fun _ here => (by cases here), child, serialized⟩
      · simp only [Dumping.apply, Lister.step, pc]
        split
        · refine ⟨?_, child, serialized⟩
          rintro position ⟨rfl⟩
          trivial
        · exact ⟨fun _ here => (by cases here), child, serialized⟩
      · exact Captured.callbackStep ⟨held, child, serialized⟩ pc reply
      · have same : (state.apply (.lister reply)).memory = state.memory := uninvolved.memory
        exact ⟨fun position here => absurd here (uninvolved.position position), same ▸ child, same ▸ serialized⟩
  | childExits =>
      simp only [Dumping.apply, endChild]
      split
      · rename_i pid cap running
        refine ⟨held, fun _ _ ended => (by cases ended), ?_⟩
        rintro other ⟨rfl⟩
        exact child pid cap running
      · exact ⟨held, child, serialized⟩
  | childKilled signal core =>
      simp only [Dumping.apply, endChild]
      split
      · exact ⟨held, fun _ _ ended => (by cases ended), serialized⟩
      · exact ⟨held, child, serialized⟩
  | crash signum => exact ⟨fun _ here => (by cases here), child, serialized⟩
  | kill signal core => exact ⟨fun _ here => (by cases here), child, serialized⟩

theorem Captured.replay {state : Dumping first} (captured : state.Captured) (choices : List Choice) :
    (state.replay choices).Captured := by
  induction choices generalizing state with
  | nil => exact captured
  | cons choice rest ih => exact ih (captured.apply choice)

/-- A dump by one engine as one by another. -/
def recast (second : Engine arch) (state : Dumping first) : Dumping second where
  caller := state.caller
  cloned := state.cloned
  lister := @Lister.under (dumpCallback first) (dumpCallbackStep second) state.lister

theorem dumpCallbackStep_agrees (agrees : first.Agrees second) {position : DumpPosition arch}
    (captured : position.Captured first) : dumpCallbackStep second position = dumpCallbackStep first position := by
  funext reply shared
  cases position with
  | capture pids => simp only [dumpCallbackStep, agrees.capture, agrees.strategy]
  | inline cap => simp only [dumpCallbackStep, agrees.serialize cap captured]
  | fork | publishChild | provisional => rfl

theorem recast_apply (agrees : first.Agrees second) {state : Dumping first} (captured : state.Captured)
    (choice : Choice) : (state.recast second).apply choice = (state.apply choice).recast second := by
  cases choice with
  | lister reply =>
      have step : ((state.recast second).lister).step reply = ((state.apply (.lister reply)).recast second).lister :=
        @Lister.under_step (dumpCallback first) state.lister (dumpCallbackStep second) reply
          fun position here => congrFun (dumpCallbackStep_agrees agrees (captured.position position here)) reply
      simp only [apply, step]
      rfl
  | childExits =>
      have same : (state.recast second).memory.child = state.memory.child := rfl
      simp only [apply, endChild, same]
      split
      · rename_i pid cap running
        rw [agrees.serialize cap (captured.child pid cap running)]
        rfl
      · rfl
  | childKilled signal core =>
      have same : (state.recast second).memory.child = state.memory.child := rfl
      simp only [apply, endChild, same]
      split
      · rfl
      · rfl
  | caller reply => rfl
  | crash signum => rfl
  | kill signal core => rfl

theorem recast_replay (agrees : first.Agrees second) {state : Dumping first} (captured : state.Captured)
    (choices : List Choice) : (state.recast second).replay choices = (state.replay choices).recast second := by
  induction choices generalizing state with
  | nil => rfl
  | cons choice rest ih =>
      show ((state.recast second).apply choice).replay rest = _
      rw [recast_apply agrees captured]
      exact ih (captured.apply choice)

theorem recast_captures (state : Dumping first) (second : Engine arch) (choice : Choice) :
    (state.recast second).captures choice = state.captures choice := by
  have here : (state.recast second).lister.pc = state.lister.pc := rfl
  cases choice with
  | lister reply =>
      simp only [captures, here]
      cases state.lister.pc with
      | callback position => cases position <;> rfl
      | _ => rfl
  | _ => rfl

theorem recast_invocations (agrees : first.Agrees second) {state : Dumping first} (captured : state.Captured)
    (choices : List Choice) : (state.recast second).invocations choices = state.invocations choices := by
  induction choices generalizing state with
  | nil => rfl
  | cons choice rest ih =>
      have captures := state.recast_captures second choice
      simp only [invocations, captures, recast_apply agrees captured, ih (captured.apply choice)]

end Dumping

/-- A call with engines that agree: the same is returned and written, and the callback
is invoked as often. -/
theorem Site.agrees {arch : Arch} {site : Site arch} {opts other : DumpOptions arch}
    (engines : (site.engine opts).Agrees (site.engine other)) (callback : other.callback = opts.callback) :
    site.writeCoreDumpToFdOptions other = site.writeCoreDumpToFdOptions opts ∧ site.stream other = site.stream opts ∧
      site.callbacks other = site.callbacks opts := by
  have origin := Dumping.start_captured (site.engine opts) site.flags site.statics
  have captured : (site.final opts).Captured := origin.replay site.choices
  have final : site.final other = (site.final opts).recast (site.engine other) :=
    Dumping.recast_replay engines origin site.choices
  refine ⟨?_, ?_, ?_⟩
  · rw [Site.writeCoreDumpToFdOptions, final]
    rfl
  · have memory : ((site.final opts).recast (site.engine other)).memory = (site.final opts).memory := rfl
    rw [Site.stream, final, Site.stream, memory]
    cases present : (site.final opts).memory.serialized with
    | none => cases (site.final opts).memory.child <;> rfl
    | some cap => exact congrArg (fun out => out.fd.accepted) (engines.serialize cap (captured.serialized cap present))
  · have invocations : (site.origin other).invocations site.choices = (site.origin opts).invocations site.choices :=
      Dumping.recast_invocations engines origin site.choices
    rw [Site.callbacks, Site.callbacks, invocations, callback]

/-- Of the options a capture reads only the callback and the frame. -/
theorem captureDump_congr {arch : Arch} {opts other : DumpOptions arch} (callback : other.callback = opts.callback)
    (frame : other.frame = opts.frame) (host : Host arch) (pids : List Int32) (mainPid : Int32) :
    captureDump host pids mainPid other = captureDump host pids mainPid opts := by
  have threads : ∀ listed index mainIdx,
      captureThreads host other mainPid index mainIdx listed = captureThreads host opts mainPid index mainIdx listed := by
    intro listed
    induction listed with
    | nil => exact fun _ _ => rfl
    | cons pid rest ih =>
        intro index mainIdx
        simp only [captureThreads, captureThread, frame, ih]
  simp only [captureDump, callback, threads]

/-- The core of every capture that the call can make has fewer bytes than a limit. -/
def Site.CoresFit {arch : Arch} (site : Site arch) (opts : DumpOptions arch) (limit : Nat) : Prop :=
  ∀ cap, (site.engine opts).Captures cap → (wholeCore site.kernel site.proc cap opts site.world).length < limit

/-- In a process of which at most half of the addresses are mapped every core is short of the largest limit. -/
theorem Site.coresFit_of_served {arch : Arch} {site : Site arch} {opts : DumpOptions arch} {parsed : List Mapping}
    (served : ∀ cap, (site.engine opts).Captures cap → Served site.kernel site.proc cap parsed)
    (unnoted : opts.notes = [])
    (mapped : (parsed.map fun mapping => mapping.end.toNat - mapping.start.toNat).sum ≤ 2 ^ 63) :
    site.CoresFit opts (2 ^ 64 - 1) := by
  rintro cap ⟨pids, captured⟩
  obtain ⟨threads, _, auxv⟩ := captureDump_bounded captured
  have length := length_wholeCore_le (served cap ⟨pids, captured⟩) unnoted threads auxv site.world
  omega

/-- A call with a limit that is not reached is a call without a limit. -/
theorem Site.ample {arch : Arch} {site : Site arch} {opts : DumpOptions arch} {limit : Nat}
    (framed : opts.frame.isSome = true) (unprioritized : opts.prioritize = false) (fits : site.CoresFit opts limit) :
    (site.engine { opts with maxLength := none }).Agrees (site.engine { opts with maxLength := some limit }) := by
  have kept : ∀ length, (site.engine { opts with maxLength := length }).opts = { opts with maxLength := length } := by
    intro length
    obtain ⟨frame, present⟩ := Option.isSome_iff_exists.mp framed
    simp only [Engine.opts, Site.engine, DumpOptions.withFrame, present]
  have captures : ∀ length pids,
      (site.engine { opts with maxLength := length }).capture pids = (site.engine opts).capture pids := by
    intro length pids
    rw [Engine.capture, Engine.capture, kept, show (site.engine opts).opts = opts from kept opts.maxLength]
    exact @captureDump_congr _ opts { opts with maxLength := length } rfl rfl site.host pids (site.host.mainPid pids)
  refine ⟨fun pids => ?_, ?_, fun cap captured => ?_⟩
  · exact (captures _ pids).trans (captures _ pids).symm
  · rw [kept, kept]
  · obtain ⟨pids, made⟩ := captured
    rw [captures] at made
    rw [Engine.serialize, Engine.serialize, kept, kept]
    exact runSerialize_ample _ _ _ _ _ _ rfl unprioritized (fits cap ⟨pids, made⟩)

end Corus.Dump
