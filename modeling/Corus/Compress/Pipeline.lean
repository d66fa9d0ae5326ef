import Corus.Dump.Call

/-!
# The compression pipeline

`spawn` forks a child that becomes the compressor, with a pipe as its input and the
output file as its output; the engine writes into the pipe, and `finish` closes it and
waits for the child.
-/

namespace Corus.Compress

open Corus.Logical Corus.Platform Corus.Output Corus.Elf Corus.Dump

/-- What a compressor does with everything it can read: what it writes to its output,
and how it ends. -/
abbrev Program := Bytes → Bytes × Exit

/-- One attempt to write a compressed core: what the engine meets, the answers to the
calls of `spawn` in the parent and in the child, and the wait of `finish`. -/
structure Attempt (arch : Arch) extends Site arch where
  pipe : Except Errno Unit
  fork : Except Errno Unit
  dupStdin : Except Errno Unit
  dupStdout : Except Errno Unit
  execve : Bytes → List Bytes → Except Errno Program
  wait : Response (Except Errno Nat)

/-- What an attempt amounts to: its result, and what it appended to the output file.
The observer also knows the stream of the engine and what the pre-dump callback
returned. -/
structure Call where
  result : Except CoreDumpError Int32
  output : Bytes
  stream : Bytes
  callbacks : List Int32

namespace Attempt

variable {arch : Arch} (attempt : Attempt arch)

/-- The child: it wires its descriptors and becomes the program, or exits with 127. -/
def child (path : Bytes) (argv : List Bytes) (stdin : Bytes) : Bytes × Exit :=
  match attempt.dupStdin, attempt.dupStdout, attempt.execve path argv with
  | .ok (), .ok (), .ok program => program stdin
  | _, _, _ => ([], .exited 127)

/-- `spawn`, in the parent. -/
def spawn : Except Int Unit :=
  match attempt.pipe, attempt.fork with
  | .error errno, _ => .error errno.code
  | .ok (), .error errno => .error errno.code
  | .ok (), .ok () => .ok ()

/-- `Pipeline::finish`. -/
def finish : Except Int Unit :=
  match attempt.wait.retry with
  | .error errno => .error errno.code
  | .ok status => if termSignal status = 0 ∧ exitCode status = 0 then .ok () else .error (-1)

/-- `write_core_dump_to_fd_options` on the output file itself. -/
def writePlain (opts : DumpOptions arch) : Option Call :=
  match attempt.writeCoreDumpToFdOptions opts with
  | none => none
  | some result => some ⟨result, attempt.stream opts, attempt.stream opts, attempt.callbacks opts⟩

/-- The result of a dump into a pipeline: both the dump and the compressor must succeed. -/
def bothSucceed (rc : Except CoreDumpError Int32) (compressorResult : Except Int Unit) :
    Except CoreDumpError Int32 :=
  match rc with
  | .error error => .error error
  | .ok value =>
      if value = 0 then
        match compressorResult with
        | .ok () => .ok 0
        | .error errno => .error (.compressor errno)
      else .ok value

/-- `write_core_dump_compressed_to_fd_with`. -/
def writeCoreDumpCompressedToFdWith (path : Bytes) (argv : List Bytes) (opts : DumpOptions arch) :
    Option Call :=
  match attempt.spawn with
  | .error errno => some ⟨.error (.compressor errno), [], [], []⟩
  | .ok () =>
      match attempt.writeCoreDumpToFdOptions opts with
      | none => none
      | some rc =>
          some ⟨bothSucceed rc attempt.finish, (attempt.child path argv (attempt.stream opts)).1,
            attempt.stream opts, attempt.callbacks opts⟩

/-- A failure to set up the pipeline has a number. -/
theorem spawn_error {number : Int} (failed : attempt.spawn = .error number) :
    ∃ errno : Errno, number = errno.code := by
  unfold spawn at failed
  split at failed
  · cases failed
    exact ⟨_, rfl⟩
  · cases failed
    exact ⟨_, rfl⟩
  · cases failed

/-- So does a failure of the compressor. -/
theorem finish_error {number : Int} (failed : attempt.finish = .error number) : number ≠ 0 := by
  unfold finish at failed
  split at failed
  · rename_i errno _
    cases failed
    exact_mod_cast Nat.ne_of_gt errno.positive
  · split at failed
    · cases failed
    · cases failed
      decide

/-- The compressor decides only about a dump that succeeded. -/
theorem bothSucceed_cases (rc : Except CoreDumpError Int32) :
    bothSucceed rc attempt.finish = rc ∨ rc = .ok 0 ∧
      ∃ number : Int, number ≠ 0 ∧ bothSucceed rc attempt.finish = .error (.compressor number) := by
  cases rc with
  | error error => exact .inl rfl
  | ok value =>
      by_cases zero : value = 0
      · subst zero
        cases finished : attempt.finish with
        | ok done => exact .inl rfl
        | error number => exact .inr ⟨rfl, number, attempt.finish_error finished, rfl⟩
      · simp only [bothSucceed, if_neg zero, true_or]

end Attempt

end Corus.Compress
