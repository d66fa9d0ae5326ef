import Corus.Capi.Attempts

/-!
# What is left of failed attempts

All attempts write to one descriptor, one behind the other, so that the output of a
compressor that fails precedes that of its successor.
-/

namespace Corus.Capi

open Corus.Logical Corus.Platform Corus.Output Corus.Elf Corus.Threads Corus.Dump Corus.Compress

section Clean

variable {arch : Arch} {attempts : Nat → Attempt arch} {opts : DumpOptions arch}

/-- The compressor of an entry writes nothing: it is not started, or it ends without a
byte of output for the stream it gets. -/
def Silent (attempts : Nat → Attempt arch) (opts : DumpOptions arch) (index : Nat) (entry : CoredumperCompressor) :
    Prop :=
  ∀ name, entry.compressor = some name → (attempts index).spawn = .ok () →
    ((attempts index).child name (entry.argv name) ((attempts index).stream opts)).1 = []

/-- The attempt for a compressor leaves the file alone if the compressor is silent. -/
theorem attemptFor_output_iff {index : Nat} {entry : CoredumperCompressor} {call : Call}
    (compressor : entry.compressor ≠ some []) (made : attemptFor attempts opts index entry = some call) :
    call.output = [] ↔ Silent attempts opts index entry := by
  obtain ⟨name, named, made⟩ := Option.bind_eq_some_iff.mp made
  have some : name ≠ [] := fun empty => compressor (by rw [named, empty])
  rw [if_neg some] at made
  unfold Attempt.writeCoreDumpCompressedToFdWith at made
  split at made
  · rename_i number unspawned
    cases made
    refine ⟨fun _ other _ spawned => ?_, fun _ => rfl⟩
    rw [unspawned] at spawned
    cases spawned
  · rename_i spawned
    split at made
    · cases made
    cases made
    refine ⟨fun nothing other same _ => ?_, fun silent => silent name named spawned⟩
    rw [named] at same
    cases same
    exact nothing

/-- The attempts before the last one, and the last one, of a dump that succeeds. -/
theorem dumpCompressed_succeeds {wanted : Bool} {table : List CoredumperCompressor} {effects after : Effects}
    (allowed : ∀ number, (attempts number).lawful opts = true)
    (returned : dumpCompressed attempts opts wanted (some table) effects = some (0, after)) :
    ∃ earlier call entry, Tries attempts opts 0 table (earlier ++ [call]) (some earlier.length) 0 ∧
      table[earlier.length]? = some entry ∧ attemptFor attempts opts earlier.length entry = some call ∧
      call.result = .ok 0 ∧
      after = ((earlier ++ [call]).foldl Effects.add (effects.select wanted (terminal table))).select wanted
        earlier.length := by
  obtain ⟨calls, selected, tries, settled⟩ := dumpFrom_tries returned
  obtain ⟨earlier, call, rfl, rfl, ok⟩ := tries.succeeded allowed rfl
  simp only [Nat.zero_add] at tries settled
  have last : (earlier ++ [call])[earlier.length]? = some call := by simp
  obtain ⟨_, entry, present, made⟩ := tries.made last
  rw [Nat.zero_add] at made
  exact ⟨earlier, call, entry, tries, present, made, ok, settled⟩

/-- Clean output. When `dump_compressed` returns 0 with an entry selected, the entries
before it are compressors whose attempts failed, a complete core went through the
attempt for the entry, and the file holds exactly what that attempt produced if and
only if the compressors of the earlier entries are silent. -/
theorem dumpCompressed_clean_iff (attempts : Nat → Attempt arch) (opts : DumpOptions arch)
    (table : List CoredumperCompressor) (effects after : Effects) (index : Nat)
    (allowed : ∀ number, (attempts number).lawful opts = true) (opened : effects.file = [])
    (returned : dumpCompressed attempts opts true (some table) effects = some (0, after))
    (selected : after.selected = some index) :
    ∃ entry, table[index]? = some entry ∧ ReachedFrom attempts opts 0 table index ∧
      (attempts index).Complete opts ((attempts index).stream opts) ∧
      (after.file = producedFrom attempts index entry ((attempts index).stream opts) ↔
        ∀ earlier < index, ∀ other, table[earlier]? = some other → Silent attempts opts earlier other) := by
  obtain ⟨earlier, call, entry, tries, present, made, ok, rfl⟩ := dumpCompressed_succeeds allowed returned
  cases selected
  have last : (earlier ++ [call])[earlier.length]? = some call := by simp
  obtain ⟨reached, _⟩ := tries.made last
  have result := (attemptFor_result (allowed _) made).resolve_right fun ⟨_, failed, _⟩ => by
    rw [ok] at failed
    cases failed
  obtain ⟨_, complete, output⟩ := result
  have stream : call.stream = (attempts earlier.length).stream opts := by
    rcases attemptFor_parts made with ⟨errno, rfl⟩ | ⟨_, _, stream, _⟩
    · cases ok
    · exact stream
  rw [stream] at complete output
  refine ⟨entry, present, reached, complete, ?_⟩
  -- The file is what the attempts left, one after the other.
  have file : (((earlier ++ [call]).foldl Effects.add (effects.select true (terminal table))).select true
      earlier.length).file = (earlier.map Call.output).flatten ++ call.output := by
    show ((earlier ++ [call]).foldl Effects.add (effects.select true (terminal table))).file = _
    rw [foldl_add_file, show (effects.select true (terminal table)).file = [] from opened]
    simp
  rw [file, ← output, List.append_left_eq_self, List.flatten_eq_nil_iff]
  -- Each earlier attempt is for a compressor, and it left nothing if that is silent.
  have each : ∀ position left, earlier[position]? = some left →
      ∃ other, table[position]? = some other ∧ (left.output = [] ↔ Silent attempts opts position other) := by
    intro position left found
    have before := (List.getElem?_eq_some_iff.mp found).1
    have among : (earlier ++ [call])[position]? = some left := by rwa [List.getElem?_append_left before]
    obtain ⟨_, other, listed, attempt⟩ := tries.made among
    rw [Nat.zero_add] at attempt
    obtain ⟨same, listed', ⟨name, named, some⟩, _⟩ := reached position before
    rw [listed] at listed'
    cases listed'
    refine ⟨other, listed, attemptFor_output_iff (fun plain => some ?_) attempt⟩
    rw [named] at plain
    cases plain
    rfl
  constructor
  · intro clean position before other listed
    obtain ⟨left, found⟩ : ∃ left, earlier[position]? = some left := ⟨_, List.getElem?_eq_getElem before⟩
    obtain ⟨_, same, silent⟩ := each position left found
    rw [listed] at same
    cases same
    exact silent.mp (clean _ (List.mem_map_of_mem (List.mem_of_getElem? found)))
  · intro clean output member
    obtain ⟨left, among, rfl⟩ := List.mem_map.mp member
    obtain ⟨position, found⟩ := List.getElem?_of_mem among
    obtain ⟨other, listed, silent⟩ := each position left found
    exact silent.mpr (clean position (List.getElem?_eq_some_iff.mp found).1 other listed)

end Clean

/-! ### A sample process -/

open Lister in
/-- The lister suspends a thread and, when its fork fails, serializes in-line; the
pre-dump callback returns `answer`. -/
def sampleSite (answer : Int32) : Site .x86_64 where
  gettid := .ok 100
  frame := Regs.zeroed
  host := { sampleHost with preDump := answer }
  kernel := faultyKernel
  proc := sampleProc
  answers := sampleMachine.sink.fd.answers
  world := sampleMachine.world
  flags := ⟨1, 0⟩
  statics := .fresh
  choices := patientChoices ++ [.lister (succeeds 0 0), .lister (.error .enomem)] ++
    (List.replicate 8 (succeeds 0 0)).map .lister ++
    [.caller (succeeds 0 0), .caller (succeeds 0 0), .caller (succeeds 0 0)]
  fragment := []

def sampleFrame : Int32 × Regs .x86_64 := (100, Regs.zeroed)

/-- The options of the C interface, with or without a callback. -/
def interfaceOptions (callback : Bool) : DumpOptions .x86_64 :=
  { defaultOptions sampleFrame with callback := callback }

/-- The core of the sample process. -/
def sampleCore (callback : Bool) : Bytes := (sampleSite 0).stream (interfaceOptions callback)

theorem sampleSite_lawful (callback : Bool) (answer : Int32) (either : answer = 0 ∨ answer = 1) :
    (sampleSite answer).lawful (interfaceOptions callback) = true := by
  rcases either with rfl | rfl
  · cases callback
    · decide +kernel
    · decide +kernel
  · cases callback
    · decide +kernel
    · decide +kernel

theorem sampleSite_callbacks (callback : Bool) (answer : Int32) (either : answer = 0 ∨ answer = 1) :
    (sampleSite answer).callbacks (interfaceOptions callback) = if callback then [answer] else [] := by
  rcases either with rfl | rfl
  · cases callback
    · decide +kernel
    · decide +kernel
  · cases callback
    · decide +kernel
    · decide +kernel

theorem sampleSite_writes (callback : Bool) :
    (sampleSite 0).writeCoreDumpToFdOptions (interfaceOptions callback) = some (.ok 0) := by
  have returned : ((sampleSite 0).final (interfaceOptions callback)).caller.pc = .returned (.ok 0) := by
    cases callback
    · decide +kernel
    · decide +kernel
  have written : ∃ cap, cap.auxv = [] ∧ ((sampleSite 0).final (interfaceOptions callback)).memory.result =
      if (((sampleSite 0).engine (interfaceOptions callback)).serialize cap).success then 0 else -1 := by
    cases callback
    · exact ⟨_, rfl, rfl⟩
    · exact ⟨_, rfl, rfl⟩
  obtain ⟨cap, auxv, written⟩ := written
  have success : (((sampleSite 0).engine (interfaceOptions callback)).serialize cap).success = true :=
    runSerialize_sample _ auxv
  rw [success] at written
  simp only [Site.writeCoreDumpToFdOptions, Dumping.result, returned, written, if_true]

/-- An attempt whose compressor does not succeed: it cannot be executed, or it is
`program`, and `status` is what the wait for it stores. -/
def sampleAttempt (answer : Int32) (program : Except Errno Program) (status : Nat) : Attempt .x86_64 where
  toSite := sampleSite answer
  pipe := .ok ()
  fork := .ok ()
  dupStdin := .ok ()
  dupStdout := .ok ()
  execve := fun _ _ => program
  wait := ⟨0, .ok status⟩

/-- A compressor that writes the first bytes of its format and gives up. -/
def brokenProgram : Program := fun _ => ([0x1f, 0x8b], .exited 1)

/-- "/bin/gzip". -/
def gzipPath : Bytes := [0x2f, 0x62, 0x69, 0x6e, 0x2f, 0x67, 0x7a, 0x69, 0x70]

/-- "/bin/gzip" with ".gz", and the fallback without compression. -/
def sampleTable : List CoredumperCompressor :=
  [⟨some gzipPath, none, some [0x2e, 0x67, 0x7a]⟩, ⟨some [], none, some []⟩]

/-- The fallback of the sample table succeeds where its compressor fails. -/
theorem dumpCompressed_sampleTable {attempts : Nat → Attempt .x86_64} {opts : DumpOptions .x86_64} {failed call : Call}
    (first : (attempts 0).writeCoreDumpCompressedToFdWith gzipPath [gzipPath] opts = some failed)
    (nonzero : orErrno failed.result ≠ 0) (second : (attempts 1).writePlain opts = some call)
    (ok : call.result = .ok 0) :
    dumpCompressed attempts opts true (some sampleTable) .empty =
      some (0, ⟨failed.output ++ call.output, some 1, [failed.stream, call.stream],
        failed.callbacks ++ call.callbacks⟩) := by
  have gzip : gzipPath ≠ [] := by decide
  simp only [dumpCompressed, sampleTable, dumpFrom, dumpPlain, CoredumperCompressor.argv, if_neg gzip, first,
    if_neg nonzero, second, if_true, Option.map_some, ok]
  rfl

/-- In the sample process the dump into the pipeline succeeds, so that the compressor
decides. -/
theorem sampleAttempt_compressed (program : Except Errno Program) (status : Nat) :
    (sampleAttempt 0 program status).writeCoreDumpCompressedToFdWith gzipPath [gzipPath] (interfaceOptions false) =
      some ⟨if termSignal status = 0 ∧ exitCode status = 0 then .ok 0 else .error (.compressor (-1)),
        ((sampleAttempt 0 program status).child gzipPath [gzipPath] (sampleCore false)).1, sampleCore false, []⟩ := by
  have spawn : (sampleAttempt 0 program status).spawn = .ok () := rfl
  have writes : (sampleAttempt 0 program status).writeCoreDumpToFdOptions (interfaceOptions false) = some (.ok 0) :=
    sampleSite_writes false
  have stream : (sampleAttempt 0 program status).stream (interfaceOptions false) = sampleCore false := rfl
  have callbacks : (sampleAttempt 0 program status).callbacks (interfaceOptions false) = [] := rfl
  have finish : (sampleAttempt 0 program status).finish =
      if termSignal status = 0 ∧ exitCode status = 0 then .ok () else .error (-1) := rfl
  simp only [Attempt.writeCoreDumpCompressedToFdWith, spawn, writes, finish, stream, callbacks, Attempt.bothSucceed,
    if_true]
  by_cases fine : termSignal status = 0 ∧ exitCode status = 0
  · simp only [if_pos fine]
  · simp only [if_neg fine]

/-- So does the dump of the fallback. -/
theorem sampleAttempt_plain (program : Except Errno Program) (status : Nat) (callback : Bool) :
    (sampleAttempt 0 program status).writePlain (interfaceOptions callback) =
      some ⟨.ok 0, sampleCore callback, sampleCore callback, if callback then [0] else []⟩ := by
  have writes : (sampleAttempt 0 program status).writeCoreDumpToFdOptions (interfaceOptions callback) = some (.ok 0) :=
    sampleSite_writes callback
  have callbacks : (sampleAttempt 0 program status).callbacks (interfaceOptions callback) =
      if callback then [0] else [] :=
    sampleSite_callbacks callback 0 (.inl rfl)
  have stream : (sampleAttempt 0 program status).stream (interfaceOptions callback) = sampleCore callback := rfl
  simp only [Attempt.writePlain, writes, callbacks, stream]

/-- What the fallback produces. -/
theorem producedFrom_plain {arch : Arch} (attempts : Nat → Attempt arch) (index : Nat) (args : Option (List Bytes))
    (suffix : Option Bytes) (stream : Bytes) :
    producedFrom attempts index ⟨some [], args, suffix⟩ stream = stream := rfl

/-- The sample table, with a compressor that cannot be executed or does not succeed. -/
theorem dumpCompressed_sample (program : Except Errno Program) {status : Nat}
    (failed : ¬ (termSignal status = 0 ∧ exitCode status = 0)) :
    dumpCompressed (fun _ => sampleAttempt 0 program status) (interfaceOptions false) true (some sampleTable) .empty =
      some (0, ⟨((sampleAttempt 0 program status).child gzipPath [gzipPath] (sampleCore false)).1 ++ sampleCore false,
        some 1, [sampleCore false, sampleCore false], []⟩) := by
  have nonzero : CoreDumpError.errno (.compressor (-1)) ≠ 0 := by decide
  have first := sampleAttempt_compressed program status
  rw [if_neg failed] at first
  have second := sampleAttempt_plain program status false
  have ran := @dumpCompressed_sampleTable (fun _ => sampleAttempt 0 program status) _ _ _ first nonzero second rfl
  simpa only [Bool.false_eq_true, if_false, List.append_nil] using ran

/-- With a compressor that cannot be executed the file holds the core alone. -/
theorem dumpCompressed_clean_iff_sample : ∃ after,
    dumpCompressed (fun _ => sampleAttempt 0 (.error .enoent) 32512) (interfaceOptions false) true (some sampleTable)
      .empty = some (0, after) ∧ after.selected = some 1 ∧ after.file = sampleCore false := by
  have returned := dumpCompressed_sample (.error .enoent) (show ¬ (termSignal 32512 = 0 ∧ exitCode 32512 = 0) by decide)
  refine ⟨_, returned, rfl, ?_⟩
  obtain ⟨entry, present, _, _, clean⟩ := dumpCompressed_clean_iff _ _ _ _ _ 1
    (fun _ => sampleSite_lawful false 0 (.inl rfl)) rfl returned rfl
  obtain rfl : (⟨some [], none, some []⟩ : CoredumperCompressor) = entry := Option.some.inj present
  rw [producedFrom_plain] at clean
  apply clean.mpr
  intro earlier before other listed name named spawned
  obtain rfl : earlier = 0 := by omega
  rfl

/-- With one that gives up, its first bytes precede the core. -/
theorem dumpCompressed_unclean : ∃ after,
    (sampleAttempt 0 (.ok brokenProgram) 256).lawful (interfaceOptions false) = true ∧
      dumpCompressed (fun _ => sampleAttempt 0 (.ok brokenProgram) 256) (interfaceOptions false) true
        (some sampleTable) .empty = some (0, after) ∧ after.selected = some 1 ∧
      sampleTable[1]? = some ⟨some [], none, some []⟩ ∧ after.file = [0x1f, 0x8b] ++ sampleCore false ∧
      after.file ≠ producedFrom (fun _ => sampleAttempt 0 (.ok brokenProgram) 256) 1 ⟨some [], none, some []⟩
        (sampleCore false) := by
  have returned := dumpCompressed_sample (.ok brokenProgram) (show ¬ (termSignal 256 = 0 ∧ exitCode 256 = 0) by decide)
  have first : ((sampleAttempt 0 (.ok brokenProgram) 256).child gzipPath [gzipPath] (sampleCore false)).1 =
      [0x1f, 0x8b] := rfl
  rw [first] at returned
  refine ⟨_, sampleSite_lawful false 0 (.inl rfl), returned, rfl, rfl, rfl, ?_⟩
  rw [producedFrom_plain, Ne, List.append_left_eq_self]
  decide

end Corus.Capi
