import Corus.Dump.Limited
import Corus.Dump.Priority
import Corus.Elf.Reading

/-!
# What every serialization leaves

Whatever the kernel answers, whatever the descriptor takes, wherever a limit
lies and however the serialization ends, the bytes it leaves are a beginning of a
core of the captured threads. So every reader of them finds that capture.
-/

namespace Corus.Dump

open Corus.Logical Corus.Platform Corus.Output Corus.Memory Corus.Proc Corus.Elf

/-- Few enough mappings, with stored paths of the documented size. -/
structure Storable (mappings : List Mapping) : Prop where
  count : mappings.length ≤ maxMappings
  nameLen : ∀ mapping ∈ mappings, mapping.nameLen < fnameMax

/-- The file holds all headers of a core of the capture. -/
def Heads {arch : Arch} (cap : CapturedDump arch) (opts : DumpOptions arch) (file : Bytes) : Prop :=
  ∃ mappings more, Storable mappings ∧ file = (coreInputs cap opts mappings).headerBytes ++ more

/-- The file is a beginning of a core of the capture. -/
def Begins {arch : Arch} (cap : CapturedDump arch) (opts : DumpOptions arch) (file : Bytes) : Prop :=
  ∃ core, Heads cap opts core ∧ file <+: core

section Selection

variable {arch : Arch} {kernel : Kernel} {proc : ProcFs} {cap : CapturedDump arch}

/-- The selected mappings are finalized ones of the parsed, whatever the kernel answers. -/
theorem selectMappings_origin {world after : World} {mappings : List Mapping}
    (selected : selectMappings kernel proc cap world = (.ok mappings, after)) :
    ∃ parsed, parseSelfMaps proc.maps maxMappings = .ok parsed ∧ mappings.length ≤ parsed.length ∧
      ∀ record ∈ mappings, ∃ mapping ∈ enrichFromSmaps proc.smaps parsed, ∃ scratch world,
        (finalizeMapping kernel cap.pagesize mapping scratch world).1 = some record := by
  unfold selectMappings at selected
  split at selected
  · cases selected
  rename_i parsed parses
  split at selected
  · cases selected
  rename_i piped _
  have enriched : (enrichFromSmaps proc.smaps parsed).length = parsed.length := by
    simpa using congrArg List.length (enrichFromSmaps_plain proc.smaps parsed)
  have compacted := finalizeMappings_eq kernel proc.smaps parsed cap.pagesize
    (List.replicate (scratchLen arch) 0) piped
  obtain ⟨kept, origin⟩ := finalizeList_origin kernel cap.pagesize (enrichFromSmaps proc.smaps parsed)
    (List.replicate (scratchLen arch) 0) piped
  rw [← compacted] at kept origin
  cases selected
  exact ⟨parsed, parses, enriched ▸ kept, origin⟩

/-- The selected mappings are storable, whatever the kernel answers. -/
theorem selectMappings_storable {world after : World} {mappings : List Mapping}
    (selected : selectMappings kernel proc cap world = (.ok mappings, after)) : Storable mappings := by
  obtain ⟨parsed, parses, kept, origin⟩ := selectMappings_origin selected
  obtain ⟨count, fresh⟩ := parseSelfMaps_fresh parses
  refine ⟨Nat.le_trans kept count, ?_⟩
  intro record member
  obtain ⟨mapping, listed, _, _, finalized⟩ := origin record member
  obtain ⟨source, present, equal⟩ := enriched_origin listed
  rw [finalizeMapping_nameLen finalized]
  exact (congrArg Mapping.nameLen equal) ▸ (fresh source present).nameLen

theorem Storable.limited {mappings : List Mapping} (storable : Storable mappings)
    (cap : CapturedDump arch) (opts : DumpOptions arch) :
    Storable (prioritized cap opts mappings) := by
  obtain ⟨index, trims⟩ := prioritized_trims cap opts mappings
  have same : (prioritized cap opts mappings).map Mapping.nameLen = mappings.map Mapping.nameLen :=
    trims.map fun _ _ => rfl
  constructor
  · rw [trims.length]
    exact storable.count
  · intro mapping member
    have listed : mapping.nameLen ∈ mappings.map Mapping.nameLen := same ▸ List.mem_map_of_mem member
    obtain ⟨source, present, equal⟩ := List.mem_map.mp listed
    exact equal ▸ storable.nameLen source present

end Selection

section Output

variable {arch : Arch} (kernel : Kernel) (proc : ProcFs) (cap : CapturedDump arch) (opts : DumpOptions arch)

/-- Once the mappings are selected, on an empty descriptor that takes everything:
the serialization leaves nothing and fails, or it leaves all headers and no more
than the announced segments, all of them if it returns. -/
theorem serializeDump_selected {machine : Machine SimpleWriter} (willing : machine.sink.fd.Willing)
    (empty : machine.sink.fd.accepted = []) {mappings : List Mapping} {world : World}
    (selected : selectMappings kernel proc cap machine.world = (.ok mappings, world)) :
    let run := serializeDump kernel proc cap opts machine
    let inputs := coreInputs cap opts (prioritized cap opts mappings)
    (run.2.sink.fd.accepted = [] ∧ run.1 ≠ .ok ()) ∨
      ∃ more, run.2.sink.fd.accepted = inputs.headerBytes ++ more ∧
        more.length ≤ (segmentSizes inputs.mappings).sum ∧
        (run.1 = .ok () → more.length = (segmentSizes inputs.mappings).sum) := by
  intro run inputs
  have storable := (selectMappings_storable selected).limited cap opts
  have ran : run = (createElfCore kernel inputs).mapError .createElfCore { machine with world := world } :=
    Action.bind_of_ok (onWorld_of_eq selected)
  have prepares := @prepareCore_wrote _ _ _ SimpleWriter.acceptsEveryByte inputs storable.nameLen kernel
    { machine with world := world } willing
  rcases prepares with ⟨failure, failedWorld, failed⟩ | ⟨capacity, prepared, returned, headers⟩
  · have failedRun : createElfCore kernel inputs { machine with world := world } =
        (.error failure, { machine with world := failedWorld }) := Action.bind_of_error failed
    rw [ran, Action.mapError_of_error failedRun]
    exact .inl ⟨empty, by simp⟩
  · right
    have emitted : prepared.sink.fd.accepted = machine.sink.fd.accepted ++ inputs.headerBytes := headers.emitted
    rw [empty, List.nil_append] at emitted
    have core : createElfCore kernel inputs { machine with world := world } =
        writeSegments kernel capacity inputs.mappings (List.replicate memoryBufferSize 0) prepared := by
      rw [createElfCore, Action.bind_of_ok returned]
    obtain ⟨more, wrote, within⟩ := writeSegments_within SimpleWriter.acceptsEveryByte kernel capacity
      inputs.mappings (List.replicate memoryBufferSize 0) headers.accepting
    have grown : (writeSegments kernel capacity inputs.mappings (List.replicate memoryBufferSize 0)
        prepared).2.sink.fd.accepted = prepared.sink.fd.accepted ++ more := wrote.emitted
    refine ⟨more, ?_, within, ?_⟩
    · rw [ran, Action.mapError_state, core, grown, emitted]
    · intro succeeded
      have segmentsRan := @Action.mapError_eq_ok _ _ _ _ _ _ { machine with world := world } run.2 ()
        (show _ = (Except.ok (), run.2) by rw [← ran, ← succeeded])
      rw [core] at segmentsRan
      obtain ⟨wroteAll, sizes⟩ := writeSegments_wrote SimpleWriter.acceptsEveryByte headers.accepting
        (List.length_replicate ..) segmentsRan
      have all : run.2.sink.fd.accepted = prepared.sink.fd.accepted ++ _ := wroteAll.emitted
      rw [segmentsRan] at grown
      rw [List.append_cancel_left (grown.symm.trans all), List.length_flatten, sizes]

/-- On an empty descriptor that takes everything, the serialization leaves nothing
and fails, or it leaves all headers. -/
theorem serializeDump_heads {machine : Machine SimpleWriter} (willing : machine.sink.fd.Willing)
    (empty : machine.sink.fd.accepted = []) :
    let run := serializeDump kernel proc cap opts machine
    (run.2.sink.fd.accepted = [] ∧ run.1 ≠ .ok ()) ∨ Heads cap opts run.2.sink.fd.accepted := by
  intro run
  rcases selected : selectMappings kernel proc cap machine.world with ⟨error | mappings, world⟩
  · have failed : run = (.error error, { machine with world := world }) :=
      Action.bind_of_error (onWorld_of_eq selected)
    rw [failed]
    exact .inl ⟨empty, by simp⟩
  · refine (serializeDump_selected kernel proc cap opts willing empty selected).imp_right ?_
    rintro ⟨more, headers, _⟩
    exact ⟨_, more, (selectMappings_storable selected).limited cap opts, headers⟩

/-- An empty descriptor that takes a byte at a time. -/
def freshFd : OutFd := ⟨[], 0, fun _ => ⟨0, .ok 1⟩⟩

theorem freshFd_willing : freshFd.Willing := fun _ => ⟨1, Nat.one_pos, rfl⟩

/-- Whatever the sink does, what reaches it begins what reaches an empty descriptor
that takes everything. If the serialization returns, it is all of it. -/
theorem serializeDump_leads {Sink : Type} [Writer Sink] (passes : PassesPrefixes Sink) (machine : Machine Sink) :
    let run := serializeDump kernel proc cap opts machine
    let whole := serializeDump kernel proc cap opts (⟨machine.world, ⟨freshFd⟩⟩ : Machine SimpleWriter)
    ∃ file, passes.emitted run.2.sink = passes.emitted machine.sink ++ file ∧
      file <+: whole.2.sink.fd.accepted ∧
      (run.1 = .ok () → whole.1 = .ok () ∧ file = whole.2.sink.fd.accepted) := by
  intro run whole
  have follows := serializeDump_follows (interruption_carries passes (passes.emitted machine.sink))
    kernel proc cap opts opts fun _ => rfl
  rcases follows.tracks ⟨machine.world, ⟨freshFd⟩⟩ machine
      ⟨freshFd_willing, rfl, (List.append_nil _).symm⟩ with
    ⟨same, _, _, emitted⟩ | ⟨⟨failure, failed⟩, part, begins, emitted⟩
  · exact ⟨_, emitted, List.prefix_rfl, fun returned => ⟨same.symm.trans returned, rfl⟩⟩
  · refine ⟨part, emitted, begins, ?_⟩
    intro returned
    cases failed.symm.trans returned

/-- Whatever the sink does, the serialization leaves a beginning of a core, with
all headers if it returns. -/
theorem serializeDump_begins {Sink : Type} [Writer Sink] (passes : PassesPrefixes Sink) (machine : Machine Sink) :
    let run := serializeDump kernel proc cap opts machine
    ∃ file, passes.emitted run.2.sink = passes.emitted machine.sink ++ file ∧ Begins cap opts file ∧
      (run.1 = .ok () → Heads cap opts file) := by
  intro run
  have none : Heads cap opts ((coreInputs cap opts []).headerBytes ++ []) :=
    ⟨[], [], ⟨Nat.zero_le _, by simp⟩, rfl⟩
  have heads := @serializeDump_heads _ kernel proc cap opts ⟨machine.world, ⟨freshFd⟩⟩ freshFd_willing rfl
  obtain ⟨file, emitted, begins, all⟩ := serializeDump_leads kernel proc cap opts passes machine
  refine ⟨file, emitted, ?_, ?_⟩
  · rcases heads with ⟨empty, _⟩ | complete
    · rw [empty] at begins
      exact ⟨_, none, begins.trans List.nil_prefix⟩
    · exact ⟨_, complete, begins⟩
  · intro returned
    obtain ⟨finished, same⟩ := all returned
    rcases heads with ⟨_, refused⟩ | complete
    · exact absurd finished refused
    · rw [same]
      exact complete

/-- What `run_serialize` leaves on whatever descriptor begins what it leaves on an
empty one that takes everything. -/
theorem runSerialize_leads (fd : OutFd) (world : World) :
    ∃ file, (runSerialize kernel proc cap opts fd world).fd.accepted = fd.accepted ++ file ∧
      file <+: (serializeDump kernel proc cap opts (⟨world, ⟨freshFd⟩⟩ : Machine SimpleWriter)).2.sink.fd.accepted := by
  cases limited : opts.maxLength with
  | none =>
      obtain ⟨left, _⟩ := runSerialize_none kernel proc cap opts fd world limited
      obtain ⟨file, emitted, begins, _⟩ :=
        serializeDump_leads kernel proc cap opts SimpleWriter.passesPrefixes ⟨world, ⟨fd⟩⟩
      rw [left]
      exact ⟨file, emitted, begins⟩
  | some limit =>
      obtain ⟨left, _⟩ := runSerialize_some kernel proc cap opts fd world limited
      obtain ⟨file, emitted, begins, _⟩ :=
        serializeDump_leads kernel proc cap opts LimitWriter.passesPrefixes ⟨world, ⟨fd, limit⟩⟩
      rw [left]
      exact ⟨file, emitted, begins⟩

/-- What `run_serialize` leaves on its descriptor is a beginning of a core, with
all headers if it succeeds without a limit. -/
theorem runSerialize_begins (fd : OutFd) (world : World) :
    ∃ file, (runSerialize kernel proc cap opts fd world).fd.accepted = fd.accepted ++ file ∧
      Begins cap opts file ∧
      (opts.maxLength = none → (runSerialize kernel proc cap opts fd world).success = true →
        Heads cap opts file) := by
  cases limited : opts.maxLength with
  | none =>
      obtain ⟨left, success⟩ := runSerialize_none kernel proc cap opts fd world limited
      obtain ⟨file, emitted, begins, complete⟩ :=
        serializeDump_begins kernel proc cap opts SimpleWriter.passesPrefixes ⟨world, ⟨fd⟩⟩
      rw [left]
      exact ⟨file, emitted, begins, fun _ succeeded => complete (success.mp succeeded)⟩
  | some limit =>
      obtain ⟨left, _⟩ := runSerialize_some kernel proc cap opts fd world limited
      obtain ⟨file, emitted, begins, _⟩ :=
        serializeDump_begins kernel proc cap opts LimitWriter.passesPrefixes ⟨world, ⟨fd, limit⟩⟩
      rw [left]
      exact ⟨file, emitted, begins, by simp⟩

end Output

/-! ## What a reader finds -/

section Reading

variable {arch : Arch} {cap : CapturedDump arch} {opts : DumpOptions arch} {file : Bytes}

theorem Heads.processInfo (heads : Heads cap opts file) : processInfo file = some cap.prpsinfo := by
  obtain ⟨mappings, more, storable, rfl⟩ := heads
  exact processInfo_headerBytes (Nat.le_trans storable.count (by decide)) more

/-- A complete core starts with the main thread of the capture. -/
theorem Heads.leadingThread (heads : Heads cap opts file) {thread : ThreadState arch}
    (main : cap.threads[cap.mainIdx]? = some thread) : leadingThread file = some thread.leading := by
  obtain ⟨mappings, more, storable, rfl⟩ := heads
  obtain ⟨inside, found⟩ := List.getElem?_eq_some_iff.mp main
  have index : (coreInputs cap opts mappings).main = cap.mainIdx := by
    simp only [CoreInputs.main, coreInputs]
    omega
  have user : cap.user = some thread.user := by
    rw [CapturedDump.user, if_pos (by omega), List.getD_eq_getElem?_getD, main]
    rfl
  apply leadingThread_headerBytes (Nat.le_trans storable.count (by decide)) user
  rw [index]
  exact main

/-- Any process information that is found is the captured one. -/
theorem Begins.processInfo (begins : Begins cap opts file) {info : Prpsinfo}
    (found : processInfo file = some info) : info = cap.prpsinfo := by
  obtain ⟨core, heads, more, rfl⟩ := begins
  exact Option.some.inj ((processInfo_append found more).symm.trans heads.processInfo)

/-- Any leading thread that is found is the main thread of the capture. -/
theorem Begins.leadingThread (begins : Begins cap opts file) {thread : ThreadState arch}
    (main : cap.threads[cap.mainIdx]? = some thread) {lead : LeadingThread}
    (found : leadingThread file = some lead) : lead = thread.leading := by
  obtain ⟨core, heads, more, rfl⟩ := begins
  exact Option.some.inj ((leadingThread_append found more).symm.trans (heads.leadingThread main))

end Reading

end Corus.Dump
