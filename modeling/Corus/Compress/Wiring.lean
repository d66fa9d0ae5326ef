import Corus.Compress.Inheritance

/-!
# The descriptors of the compressor

The child of `spawn` puts the read end of the pipe on its standard input and the output
file on its standard output. It does so one descriptor after the other, without moving
them out of the way first, so the numbers they come with matter.
-/

namespace Corus.Compress

open Corus.Logical Corus.Platform Corus.Elf Corus.Threads Corus.Dump

section Wiring

variable {File : Type}

/-- The calls of the child up to `execve`, on the table it was forked with; without a
table it has exited with 127, because one of the `dup2` calls failed. -/
def wire (table : DescriptorTable File) (readFd writeFd outFd : Nat) (dupStdin dupStdout : Except Errno Unit) :
    Option (DescriptorTable File) :=
  let table := table.close writeFd
  match dupStdin with
  | .error _ => none
  | .ok () =>
      let table := table.dup2 readFd 0
      match dupStdout with
      | .error _ => none
      | .ok () =>
          let table := table.dup2 outFd 1
          some (if readFd = 0 then table else table.close readFd)

/-- The files of a pipeline. -/
structure Endpoints (File : Type) where
  readEnd : File
  writeEnd : File
  output : File
  distinct : readEnd ≠ output

/-- The table of the process that forks: the three descriptors are open under different
numbers, and nothing else refers to the write end of the pipe. -/
structure Forked (files : Endpoints File) (table : DescriptorTable File) (readFd writeFd outFd : Nat) : Prop where
  readOpen : table.fileAt readFd = some files.readEnd
  writeOpen : table.fileAt writeFd = some files.writeEnd
  outOpen : table.fileAt outFd = some files.output
  onlyWrite : table.Only files.writeEnd writeFd
  readWrite : readFd ≠ writeFd
  readOut : readFd ≠ outFd
  writeOut : writeFd ≠ outFd

/-- The descriptors that a compressor needs. -/
structure Wired (files : Endpoints File) (table : DescriptorTable File) : Prop where
  stdin : table.fileAt 0 = some files.readEnd
  stdout : table.fileAt 1 = some files.output
  closed : ¬ table.Holds files.writeEnd

variable {files : Endpoints File} {table child : DescriptorTable File} {readFd writeFd outFd : Nat}
  {dupStdin dupStdout : Except Errno Unit}

/-- What the standard descriptors of the child are open on, and that the write end is gone. -/
theorem wire_files (forked : Forked files table readFd writeFd outFd)
    (reached : wire table readFd writeFd outFd dupStdin dupStdout = some child) :
    child.fileAt 0 = some files.readEnd ∧
      child.fileAt 1 = (if readFd = 1 then none else if outFd = 0 then some files.readEnd else some files.output) ∧
      ¬ child.Holds files.writeEnd := by
  obtain ⟨readOpen, _, outOpen, only, readWrite, readOut, writeOut⟩ := forked
  have first : (table.close writeFd).fileAt readFd = some files.readEnd := by
    rw [DescriptorTable.fileAt_close, if_neg readWrite, readOpen]
  have second : ((table.close writeFd).dup2 readFd 0).fileAt outFd =
      if outFd = 0 then some files.readEnd else some files.output := by
    rw [DescriptorTable.fileAt_dup2 first, DescriptorTable.fileAt_close, if_neg writeOut.symm, outOpen]
  obtain ⟨copied, isCopied⟩ : ∃ file, (if outFd = 0 then some files.readEnd else some files.output) = some file := by
    split <;> exact ⟨_, rfl⟩
  rw [isCopied] at second ⊢
  have gone : ¬ (((table.close writeFd).dup2 readFd 0).dup2 outFd 1).Holds files.writeEnd :=
    fun holds => only.not_holds_close holds.of_dup2.of_dup2
  have stdin : (((table.close writeFd).dup2 readFd 0).dup2 outFd 1).fileAt 0 = some files.readEnd := by
    rw [DescriptorTable.fileAt_dup2 second, if_neg Nat.zero_ne_one, DescriptorTable.fileAt_dup2 first, if_pos rfl]
  have stdout : (((table.close writeFd).dup2 readFd 0).dup2 outFd 1).fileAt 1 = some copied := by
    rw [DescriptorTable.fileAt_dup2 second, if_pos rfl]
  unfold wire at reached
  cases dupStdin with
  | error errno => cases reached
  | ok done =>
      cases dupStdout with
      | error errno => cases reached
      | ok done =>
          simp only [Option.some.injEq] at reached
          subst reached
          by_cases zero : readFd = 0
          · have notOne : readFd ≠ 1 := by omega
            rw [if_pos zero, if_neg notOne]
            exact ⟨stdin, stdout, gone⟩
          · rw [if_neg zero, DescriptorTable.fileAt_close, DescriptorTable.fileAt_close, if_neg (Ne.symm zero), stdout]
            refine ⟨stdin, ?_, fun holds => gone holds.of_close⟩
            by_cases one : readFd = 1
            · rw [if_pos one, if_pos one.symm]
            · rw [if_neg one, if_neg (Ne.symm one)]

/-- With these files the descriptors are as needed in one case. -/
theorem Wired.iff_of_files (stdin : child.fileAt 0 = some files.readEnd)
    (stdout : child.fileAt 1 =
      if readFd = 1 then none else if outFd = 0 then some files.readEnd else some files.output)
    (closed : ¬ child.Holds files.writeEnd) : Wired files child ↔ readFd ≠ 1 ∧ outFd ≠ 0 := by
  constructor
  · rintro ⟨_, output, _⟩
    rw [stdout] at output
    constructor
    · intro one
      rw [if_pos one] at output
      cases output
    · intro zero
      rw [if_pos zero] at output
      split at output
      · cases output
      · exact files.distinct (Option.some.inj output)
  · rintro ⟨notOne, notZero⟩
    refine ⟨stdin, ?_, closed⟩
    rw [stdout, if_neg notOne, if_neg notZero]

/-- A child that reaches `execve` has its descriptors as it needs them exactly if the
read end does not come as descriptor 1 and the output file not as descriptor 0. -/
theorem wired_iff (forked : Forked files table readFd writeFd outFd)
    (reached : wire table readFd writeFd outFd dupStdin dupStdout = some child) :
    Wired files child ↔ readFd ≠ 1 ∧ outFd ≠ 0 := by
  obtain ⟨stdin, stdout, closed⟩ := wire_files forked reached
  exact Wired.iff_of_files stdin stdout closed

/-- The terminal is file 0, the pipe has files 1 and 2, and the output is file 3. -/
def sampleFiles : Endpoints Nat := ⟨1, 2, 3, by decide⟩

/-- A host with its standard descriptors on the terminal. -/
def ordinaryHost : DescriptorTable Nat :=
  ⟨[(4, ⟨2, false⟩), (3, ⟨1, false⟩), (5, ⟨3, false⟩), (0, ⟨0, false⟩), (1, ⟨0, false⟩), (2, ⟨0, false⟩)]⟩

theorem ordinaryHost_forked : Forked sampleFiles ordinaryHost 3 4 5 :=
  ⟨by decide, by decide, by decide, by decide, by decide, by decide, by decide⟩

theorem wired_ordinary : ∃ child, wire ordinaryHost 3 4 5 (.ok ()) (.ok ()) = some child ∧ Wired sampleFiles child := by
  refine ⟨_, rfl, ?_⟩
  exact (@wired_iff _ sampleFiles ordinaryHost _ 3 4 5 (.ok ()) (.ok ()) ordinaryHost_forked rfl).mpr
    ⟨by decide, by decide⟩

/-- A host with its standard input closed, which got number 0 for the output file. -/
def stdinClosedHost : DescriptorTable Nat :=
  ⟨[(4, ⟨2, false⟩), (3, ⟨1, false⟩), (0, ⟨3, false⟩), (1, ⟨0, false⟩), (2, ⟨0, false⟩)]⟩

/-- Its compressor has the read end of the pipe as standard output as well. -/
theorem miswired_stdin_closed : Forked sampleFiles stdinClosedHost 3 4 0 ∧
    ∃ child, wire stdinClosedHost 3 4 0 (.ok ()) (.ok ()) = some child ∧
      child.fileAt 1 = some sampleFiles.readEnd ∧ ¬ Wired sampleFiles child := by
  refine ⟨⟨by decide, by decide, by decide, by decide, by decide, by decide, by decide⟩, _, rfl, by decide, ?_⟩
  rintro ⟨_, stdout, _⟩
  revert stdout
  decide

end Wiring

/-! ## The child in a compressed dump -/

namespace Compressor

/-- The table of the child at its positions up to `execve`. -/
def Follows (start compressor : Compressor) : Prop :=
  compressor.readFd = start.readFd ∧ compressor.writeFd = start.writeFd ∧ compressor.outFd = start.outFd ∧
    match compressor.pc with
    | .closeWrite => compressor.table = start.table
    | .dupStdin => compressor.table = start.table.close start.writeFd
    | .dupStdout => compressor.table = (start.table.close start.writeFd).dup2 start.readFd 0
    | .closeRead =>
        compressor.table = ((start.table.close start.writeFd).dup2 start.readFd 0).dup2 start.outFd 1
    | .execve => wire start.table start.readFd start.writeFd start.outFd (.ok ()) (.ok ()) = some compressor.table
    | .reading | .ended _ => True

theorem Follows.step {start compressor : Compressor} (follows : Follows start compressor)
    (answer : Except Errno Unit) : Follows start (compressor.step answer) := by
  have unchanged := follows
  obtain ⟨readFd, writeFd, outFd, table⟩ := follows
  cases pc : compressor.pc <;> simp only [pc] at table <;> simp only [Compressor.step, pc]
  case closeWrite => exact ⟨readFd, writeFd, outFd, by rw [table, writeFd]⟩
  case dupStdin =>
    cases answer with
    | ok done => exact ⟨readFd, writeFd, outFd, by rw [table, readFd]⟩
    | error errno => exact ⟨readFd, writeFd, outFd, trivial⟩
  case dupStdout =>
    cases answer with
    | ok done => exact ⟨readFd, writeFd, outFd, by rw [table, outFd]⟩
    | error errno => exact ⟨readFd, writeFd, outFd, trivial⟩
  case closeRead => exact ⟨readFd, writeFd, outFd, by rw [table, readFd]; rfl⟩
  case execve =>
    cases answer with
    | ok done => exact ⟨readFd, writeFd, outFd, trivial⟩
    | error errno => exact ⟨readFd, writeFd, outFd, trivial⟩
  case reading | ended => exact unchanged

/-- The child that comes to `execve` has wired the table it was forked with. -/
theorem Follows.wire_of_execve {start compressor : Compressor} (follows : Follows start compressor)
    (reached : compressor.pc = .execve) :
    wire start.table start.readFd start.writeFd start.outFd (.ok ()) (.ok ()) = some compressor.table := by
  obtain ⟨_, _, _, table⟩ := follows
  rw [reached] at table
  exact table

end Compressor

/-- The files of the pipeline in a compressed dump. -/
def pipeline : Endpoints PipeFile := ⟨.readEnd, .writeEnd, .other, by decide⟩

/-- What the table of the host is before and at the fork. -/
def Stage.Lays (stage : Stage) (host : Table) (outFd : Nat) : Prop :=
  match stage with
  | .pipe => host.fileAt outFd = some .other ∧ ¬ host.Holds .writeEnd
  | .fork readFd writeFd => Forked pipeline host readFd writeFd outFd
  | _ => True

namespace Compression

variable {arch : Arch} {engine : Engine arch}

/-- The pipe is laid under numbers of its own, and the child follows the calls of `wire`. -/
structure Laid (outFd : Nat) (state : Compression engine) : Prop where
  out : state.outFd = outFd
  host : state.stage.Lays state.host outFd
  compressor : ∀ child, state.compressor = some child → ∃ start : Compressor,
    Forked pipeline start.table start.readFd start.writeFd outFd ∧ start.outFd = outFd ∧ start.Follows child

/-- A pipe gets two numbers that are free. -/
theorem forked_install {host : Table} {readFd writeFd outFd : Nat} (out : host.fileAt outFd = some .other)
    (unpiped : ¬ host.Holds .writeEnd) (distinct : readFd ≠ writeFd) (readFree : host.find readFd = none)
    (writeFree : host.find writeFd = none) :
    Forked pipeline ((host.install readFd ⟨.readEnd, false⟩).install writeFd ⟨.writeEnd, false⟩) readFd writeFd
      outFd := by
  have readOut : readFd ≠ outFd := by
    rintro rfl
    rw [DescriptorTable.fileAt, readFree] at out
    cases out
  have writeOut : writeFd ≠ outFd := by
    rintro rfl
    rw [DescriptorTable.fileAt, writeFree] at out
    cases out
  refine ⟨?_, ?_, ?_, ?_, distinct, readOut, writeOut⟩
  · simp only [DescriptorTable.fileAt, DescriptorTable.find_install, if_neg distinct, if_true, Option.map_some, pipeline]
  · simp only [DescriptorTable.fileAt, DescriptorTable.find_install, if_true, Option.map_some, pipeline]
  · rw [DescriptorTable.fileAt, DescriptorTable.find_install, DescriptorTable.find_install, if_neg writeOut.symm,
      if_neg readOut.symm]
    exact out
  · refine DescriptorTable.Only.install (fun holds => ?_) _
    rcases holds.of_install with wrong | old
    · cases wrong
    · exact unpiped old

/-- A move that the kernel admits keeps the pipe laid. -/
theorem Laid.apply {outFd : Nat} {state : Compression engine} (laid : state.Laid outFd) {move : Move}
    (admitted : state.admits move = true) : (state.apply move).Laid outFd := by
  obtain ⟨out, host, compressor⟩ := laid
  cases move with
  | pipe2 fds =>
      cases stage : state.stage <;> simp only [admits, stage, Bool.false_eq_true] at admitted
      rw [stage] at host
      cases fds with
      | error errno => exact ⟨by simp only [Compression.apply, stage, out], by simp only [Compression.apply, stage]; trivial,
          by simpa only [Compression.apply, stage] using compressor⟩
      | ok numbers =>
          obtain ⟨readFd, writeFd⟩ := numbers
          simp only [Bool.and_eq_true, bne_iff_ne, ne_eq, Option.isNone_iff_eq_none] at admitted
          obtain ⟨⟨distinct, readFree⟩, writeFree⟩ := admitted
          simp only [Compression.apply, stage]
          exact ⟨out, forked_install host.1 host.2 distinct readFree writeFree, compressor⟩
  | fork answer =>
      cases stage : state.stage <;> simp only [admits, stage, Bool.false_eq_true] at admitted
      rw [stage] at host
      cases answer with
      | error errno =>
          simp only [Compression.apply, stage]
          exact ⟨out, trivial, compressor⟩
      | ok done =>
          simp only [Compression.apply, stage]
          refine ⟨out, trivial, ?_⟩
          intro child new
          cases new
          exact ⟨⟨.closeWrite, _, _, state.outFd, state.host⟩, host, out, rfl, rfl, rfl, rfl⟩
  | compressor answer =>
      refine ⟨out, host, ?_⟩
      intro child new
      obtain ⟨old, present, rfl⟩ := Option.map_eq_some_iff.mp new
      obtain ⟨start, forked, same, follows⟩ := compressor old present
      exact ⟨start, forked, same, follows.step answer⟩
  | compressorEnds exit =>
      refine ⟨out, host, ?_⟩
      intro child new
      obtain ⟨old, present, rfl⟩ := Option.map_eq_some_iff.mp new
      obtain ⟨start, forked, same, readFd, writeFd, outFd, _⟩ := compressor old present
      exact ⟨start, forked, same, readFd, writeFd, outFd, trivial⟩
  | closeRead =>
      simp only [Compression.apply]
      split
      · exact ⟨out, trivial, compressor⟩
      · exact ⟨out, host, compressor⟩
  | closeWrite =>
      simp only [Compression.apply]
      split
      · exact ⟨out, trivial, compressor⟩
      · exact ⟨out, host, compressor⟩
  | wait answer =>
      simp only [Compression.apply]
      split
      · exact ⟨out, trivial, compressor⟩
      · split
        · exact ⟨out, host, compressor⟩
        · exact ⟨out, trivial, compressor⟩
      · exact ⟨out, host, compressor⟩
  | dump | hostForks | offspringForks | offspringExecs | offspringCloses | offspringEnds => exact ⟨out, host, compressor⟩

/-- A call on an output file that is open. -/
theorem start_laid {opened : List (Nat × Bool)} {outFd : Nat} {closeOnExec : Bool}
    (opens : (outFd, closeOnExec) ∈ opened) (flags : ProcessFlags) (statics : Statics) :
    (start engine opened outFd flags statics).Laid outFd := by
  refine ⟨rfl, ⟨?_, (start_contained engine opened outFd flags statics).host⟩, nofun⟩
  have listed : (outFd, ⟨.other, closeOnExec⟩) ∈ (start engine opened outFd flags statics).host.entries :=
    List.mem_map_of_mem opens
  obtain ⟨descriptor, found, present⟩ := DescriptorTable.find_of_mem listed
  obtain ⟨_, _, same⟩ := List.mem_map.mp present
  cases same
  rw [DescriptorTable.fileAt, found, Option.map_some]

/-- From the pipe at 5 and 6 up to the program of the compressor. -/
def wiringMoves : List Move :=
  [.pipe2 (.ok (5, 6)), .fork (.ok ()), .closeRead] ++ List.replicate 4 (.compressor (.ok ()))

end Compression

end Corus.Compress
