import Corus.Capi.Fallback

/-!
# The Rust interface

`CoreDump` is a builder over the engine that the C interface uses. It looks for an
executable of the wanted compressor first and makes a single attempt. Which program a
name stands for is decided by the `which` crate, a parameter here.
-/

namespace Corus.RustApi

open Corus.Logical Corus.Platform Corus.Output Corus.Elf Corus.Dump Corus.Compress Corus.Capi

/-- `Compression`. -/
inductive Compression where
  | auto
  | bzip2
  | gzip
  | compress
deriving DecidableEq, Repr

/-- `Error`. -/
inductive Error where
  | failed
  | io
  | core (error : CoreDumpError)

/-- The builder. -/
structure CoreDump where
  maxLength : Option Nat
  compression : Option Compression
  strategy : DumpStrategy

/-- `CoreDump::builder`. -/
def CoreDump.builder : CoreDump := ⟨none, none, .forkSnapshot⟩

/-- "bzip2", "gzip" and "compress". -/
def bzip2Name : Bytes := [0x62, 0x7a, 0x69, 0x70, 0x32]
def gzipName : Bytes := [0x67, 0x7a, 0x69, 0x70]
def compressName : Bytes := [0x63, 0x6f, 0x6d, 0x70, 0x72, 0x65, 0x73, 0x73]

/-- `compressor_candidates`. -/
def compressorCandidates : Compression → List Bytes
  | .auto => [bzip2Name, gzipName, compressName]
  | .bzip2 => [bzip2Name]
  | .gzip => [gzipName]
  | .compress => [compressName]

/-- What a call meets: the files that `which` finds, the creation of the output file,
the frame of the caller, and one attempt of the engine. -/
structure Environment (arch : Arch) where
  which : Bytes → Option Bytes
  create : Except Errno Unit
  frame : Option (Int32 × Regs arch)
  attempt : Attempt arch

/-- What a call amounts to: its result, what it appended to the descriptor, and the
streams of the engine. -/
structure Written where
  result : Except Error Unit
  output : Bytes
  streams : List Bytes

section

variable {arch : Arch} (env : Environment arch) (dump : CoreDump)

/-- `compressor_path`; a path with a NUL in it is no C string. -/
def compressorPath (which : Bytes → Option Bytes) (family : Compression) : Except Error (Option Bytes) :=
  match (compressorCandidates family).findSome? which with
  | some path => if 0 ∈ path then .error .failed else .ok (some path)
  | none => if family = .auto then .ok none else .error .failed

/-- The options handed to the engine. -/
def CoreDump.options (frame : Option (Int32 × Regs arch)) : DumpOptions arch :=
  ⟨dump.strategy, dump.maxLength, false, [], false, frame⟩

/-- The conversion of the engine's result. -/
def concludeCall (call : Call) : Written where
  result := match call.result with
    | .ok rc => if rc = 0 then .ok () else .error .failed
    | .error error => .error (.core error)
  output := call.output
  streams := [call.stream]

/-- `write_to_fd`. -/
def CoreDump.writeToFd : Option Written :=
  match dump.compression with
  | none => (env.attempt.writePlain (dump.options env.frame)).map concludeCall
  | some family =>
      match compressorPath env.which family with
      | .error error => some ⟨.error error, [], []⟩
      | .ok (some path) =>
          (env.attempt.writeCoreDumpCompressedToFdWith path [path] (dump.options env.frame)).map concludeCall
      | .ok none => (env.attempt.writePlain (dump.options env.frame)).map concludeCall

/-- `write_to_path`: the result, and what the file holds if it was created. -/
def CoreDump.writeToPath : Option (Except Error Unit × Option Bytes) :=
  match env.create with
  | .error _ => some (.error .io, none)
  | .ok () => (dump.writeToFd env).map fun written => (written.result, some written.output)

/-! ## Agreement with the C interface -/

/-- The entry of a compressor table that stands for a request. -/
def CoreDump.entry : Except Error CoredumperCompressor :=
  match dump.compression with
  | none => .ok ⟨some [], none, none⟩
  | some family =>
      (compressorPath env.which family).map fun path => ⟨some (path.getD []), none, none⟩

variable {env} {dump}

/-- Files that can be executed have a name. -/
def Named (which : Bytes → Option Bytes) : Prop := ∀ name path, which name = some path → path ≠ []

/-- A path that is chosen is one that was found, without a NUL. -/
theorem compressorPath_found {which : Bytes → Option Bytes} {family : Compression} {path : Bytes}
    (chosen : compressorPath which family = .ok (some path)) :
    ∃ name ∈ compressorCandidates family, which name = some path ∧ 0 ∉ path := by
  unfold compressorPath at chosen
  split at chosen
  · rename_i found first
    split at chosen
    · cases chosen
    · rename_i proper
      cases chosen
      obtain ⟨name, member, same⟩ := List.exists_of_findSome?_eq_some first
      exact ⟨name, member, same, proper⟩
  · split at chosen <;> cases chosen

/-- Only `Auto` does without a compressor. -/
theorem compressorPath_none {which : Bytes → Option Bytes} {family : Compression}
    (chosen : compressorPath which family = .ok none) : family = .auto := by
  unfold compressorPath at chosen
  split at chosen
  · split at chosen <;> cases chosen
  · split at chosen
    · assumption
    · cases chosen

theorem compressorPath_error {which : Bytes → Option Bytes} {family : Compression} {error : Error}
    (failed : compressorPath which family = .error error) : error = .failed := by
  unfold compressorPath at failed
  split at failed
  · split at failed <;> cases failed
    rfl
  · split at failed <;> cases failed
    rfl

/-- A request makes the attempt for its entry, if it has one. -/
theorem writeToFd_entry (named : Named env.which) :
    dump.writeToFd env = match dump.entry env with
      | .error _ => some ⟨.error .failed, [], []⟩
      | .ok entry => (attemptFor (fun _ => env.attempt) (dump.options env.frame) 0 entry).map concludeCall := by
  unfold CoreDump.writeToFd CoreDump.entry
  split
  · rfl
  · rename_i family _
    cases chosen : compressorPath env.which family with
    | error error => rw [compressorPath_error chosen]; rfl
    | ok path =>
        cases path with
        | none => rfl
        | some path =>
            obtain ⟨name, -, found, -⟩ := compressorPath_found chosen
            simp only [Except.map, Option.getD_some, attemptFor, Option.bind_some, if_neg (named name path found),
              CoredumperCompressor.argv]

/-- A named compressor is never replaced by plain output. -/
theorem entry_compressed (named : Named env.which) {entry : CoredumperCompressor} {family : Compression}
    (chosen : dump.entry env = .ok entry) (wanted : dump.compression = some family) (strict : family ≠ .auto) :
    ∃ name path, entry.compressor = some path ∧ path ≠ [] ∧ name ∈ compressorCandidates family ∧
      env.which name = some path := by
  simp only [CoreDump.entry, wanted] at chosen
  cases resolved : compressorPath env.which family with
  | error error =>
      rw [resolved] at chosen
      cases chosen
  | ok path =>
      rw [resolved] at chosen
      cases chosen
      cases path with
      | none => exact absurd (compressorPath_none resolved) strict
      | some path =>
          obtain ⟨name, member, found, -⟩ := compressorPath_found resolved
          exact ⟨name, path, rfl, named name path found, member, found⟩

/-- One attempt for the entry of a table that holds nothing else. -/
theorem dumpCompressed_single {attempt : Attempt arch} {opts : DumpOptions arch} {entry : CoredumperCompressor}
    {call : Call} (lawful : attempt.lawful opts = true)
    (made : attemptFor (fun _ => attempt) opts 0 entry = some call) :
    ∃ rc after, dumpCompressed (fun _ => attempt) opts true (some [entry]) .empty = some (rc, after) ∧
      (rc = 0 ↔ call.result = .ok 0) ∧ after.file = call.output ∧ after.streams = [call.stream] := by
  have zero := attemptFor_zero_iff lawful made
  obtain ⟨name, named, own⟩ := Option.bind_eq_some_iff.mp made
  by_cases plain : name = []
  · rw [if_pos plain] at own
    simp only [dumpCompressed, dumpFrom, named, if_pos plain, dumpPlain, own, Option.map_some]
    refine ⟨_, _, rfl, zero.2, ?_, ?_⟩
    · split <;> rfl
    · split <;> rfl
  · rw [if_neg plain] at own
    simp only [dumpCompressed, dumpFrom, named, if_neg plain, own]
    by_cases success : orErrno call.result = 0
    · rw [if_pos success]
      exact ⟨_, _, rfl, ⟨fun _ => zero.1.mp success, fun _ => rfl⟩, rfl, rfl⟩
    · rw [if_neg success]
      refine ⟨_, _, rfl, ⟨fun wrong => absurd wrong (by decide), fun ok => absurd (zero.1.mpr ok) success⟩, rfl, rfl⟩

end

/-- Only `/bin/gzip` is installed, and it compresses everything to its magic number. -/
def sampleEnvironment : Environment .x86_64 where
  which name := if name = gzipName then some gzipPath else none
  create := .ok ()
  frame := some sampleFrame
  attempt := sampleAttempt 0 (.ok fun _ => ([0x1f, 0x8b], .exited 0)) 0

theorem sampleEnvironment_named : Named sampleEnvironment.which := by
  intro name path found
  simp only [sampleEnvironment] at found
  split at found
  · cases found
    decide
  · cases found

def sampleDump : CoreDump := { CoreDump.builder with compression := some .auto }

end Corus.RustApi
