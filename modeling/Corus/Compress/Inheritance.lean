import Corus.Compress.Pipeline
import Corus.Platform.Descriptors

/-!
# Who holds the pipe

A compressed dump step by step, over the descriptor tables of the processes that take
part in it: the host, whose table the calling thread, its other threads and the lister
share, the compressor, the snapshot child, and whatever the other threads of the host
fork meanwhile. The compressor reads to the end of its input only when no table is
left in which the write end of the pipe is open.
-/

namespace Corus.Compress

open Corus.Logical Corus.Platform Corus.Output Corus.Elf Corus.Threads Corus.Dump

/-- The files that matter: the ends of the pipe, and all others. -/
inductive PipeFile where
  | readEnd
  | writeEnd
  | other
deriving DecidableEq, Repr

abbrev Table := DescriptorTable PipeFile

/-- Where `write_core_dump_compressed_to_fd_with` stands. -/
inductive Stage where
  | pipe
  | fork (readFd writeFd : Nat)
  | closeRead (readFd writeFd : Nat)
  | dumping (writeFd : Nat)
  | wait (rc : Except CoreDumpError Int32)
  | returned (result : Except CoreDumpError Int32)

/-- Where the child stands on its way to the compressor. -/
inductive ChildPc where
  | closeWrite
  | dupStdin
  | dupStdout
  | closeRead
  | execve
  | reading
  | ended (exit : Exit)
deriving DecidableEq, Repr

/-- The child of `spawn`. -/
structure Compressor where
  pc : ChildPc
  readFd : Nat
  writeFd : Nat
  outFd : Nat
  table : Table

namespace Compressor

/-- The child ends, and with it its descriptors. -/
def finish (compressor : Compressor) (exit : Exit) : Compressor :=
  { compressor with pc := .ended exit, table := .empty }

/-- The next call of the child. A failure to close is ignored. -/
def step (compressor : Compressor) (answer : Except Errno Unit) : Compressor :=
  match compressor.pc, answer with
  | .closeWrite, _ => { compressor with pc := .dupStdin, table := compressor.table.close compressor.writeFd }
  | .dupStdin, .ok () => { compressor with pc := .dupStdout, table := compressor.table.dup2 compressor.readFd 0 }
  | .dupStdout, .ok () => { compressor with pc := .closeRead, table := compressor.table.dup2 compressor.outFd 1 }
  | .closeRead, _ =>
      { compressor with
        pc := .execve
        table := if compressor.readFd = 0 then compressor.table else compressor.table.close compressor.readFd }
  | .execve, .ok () => { compressor with pc := .reading, table := compressor.table.exec }
  | .dupStdin, .error _ | .dupStdout, .error _ | .execve, .error _ => compressor.finish (.exited 127)
  | .reading, _ | .ended _, _ => compressor

end Compressor

/-- A compressed dump: the calling thread, the dump it makes, and the tables of the
processes around it. -/
structure Compression {arch : Arch} (engine : Engine arch) where
  stage : Stage
  outFd : Nat
  host : Table
  dump : Dumping engine
  compressor : Option Compressor
  snapshot : Option Table
  offspring : List Table

/-- What happens next: a call of the calling thread is answered, a party of the dump or
the compressor goes on, another thread of the host forks, or a child of such a thread
does something. -/
inductive Move where
  | pipe2 (fds : Except Errno (Nat × Nat))
  | fork (answer : Except Errno Unit)
  | closeRead
  | dump (choice : Choice)
  | closeWrite
  | wait (answer : Except Errno Nat)
  | compressor (answer : Except Errno Unit)
  | compressorEnds (exit : Exit)
  | hostForks (tid : Int32)
  | offspringForks (index : Nat)
  | offspringExecs (index : Nat)
  | offspringCloses (index fd : Nat)
  | offspringEnds (index : Nat)

namespace Compression

variable {arch : Arch} {engine : Engine arch}

/-- The call, in a process with some descriptors that are open. -/
def start (engine : Engine arch) (opened : List (Nat × Bool)) (outFd : Nat) (flags : ProcessFlags) (statics : Statics) :
    Compression engine where
  stage := .pipe
  outFd := outFd
  host := ⟨opened.map fun (fd, closeOnExec) => (fd, ⟨.other, closeOnExec⟩)⟩
  dump := .start engine flags statics
  compressor := none
  snapshot := none
  offspring := []

/-- The snapshot child gets a copy of the table when the lister forks it, and loses it
when it ends. -/
def snapshotAfter (state : Compression engine) : Choice → Option Table
  | .lister (.ok _) =>
      match state.dump.lister.pc with
      | .callback (.fork _) => some state.host
      | _ => state.snapshot
  | .childExits | .childKilled _ _ => none
  | _ => state.snapshot

/-- The state after a move. `Pipe::new` asks for descriptors without flags. -/
def apply (state : Compression engine) : Move → Compression engine
  | .pipe2 fds =>
      match state.stage, fds with
      | .pipe, .ok (readFd, writeFd) =>
          { state with
            stage := .fork readFd writeFd
            host := (state.host.install readFd ⟨.readEnd, false⟩).install writeFd ⟨.writeEnd, false⟩ }
      | .pipe, .error errno => { state with stage := .returned (.error (.compressor errno.code)) }
      | _, _ => state
  | .fork answer =>
      match state.stage, answer with
      | .fork readFd writeFd, .ok () =>
          { state with
            stage := .closeRead readFd writeFd
            compressor := some ⟨.closeWrite, readFd, writeFd, state.outFd, state.host⟩ }
      | .fork readFd writeFd, .error errno =>
          { state with
            stage := .returned (.error (.compressor errno.code))
            host := (state.host.close readFd).close writeFd }
      | _, _ => state
  | .closeRead =>
      match state.stage with
      | .closeRead readFd writeFd => { state with stage := .dumping writeFd, host := state.host.close readFd }
      | _ => state
  | .dump choice => { state with dump := state.dump.apply choice, snapshot := state.snapshotAfter choice }
  | .closeWrite =>
      match state.stage, state.dump.result with
      | .dumping writeFd, some rc => { state with stage := .wait rc, host := state.host.close writeFd }
      | _, _ => state
  | .wait answer =>
      match state.stage, answer with
      | .wait rc, .ok status =>
          let finished := if termSignal status = 0 ∧ exitCode status = 0 then .ok () else .error (-1)
          { state with stage := .returned (Attempt.bothSucceed rc finished) }
      | .wait rc, .error errno =>
          if errno = .eintr then state
          else { state with stage := .returned (Attempt.bothSucceed rc (.error errno.code)) }
      | _, _ => state
  | .compressor answer => { state with compressor := state.compressor.map fun child => child.step answer }
  | .compressorEnds exit => { state with compressor := state.compressor.map fun child => child.finish exit }
  | .hostForks _ => { state with offspring := state.offspring ++ [state.host] }
  | .offspringForks index => { state with offspring := state.offspring ++ state.offspring[index]?.toList }
  | .offspringExecs index => { state with offspring := state.offspring.modify index DescriptorTable.exec }
  | .offspringCloses index fd => { state with offspring := state.offspring.modify index fun table => table.close fd }
  | .offspringEnds index => { state with offspring := state.offspring.modify index fun _ => .empty }

/-- A thread of the host runs unless the lister holds it. -/
def runs (state : Compression engine) (tid : Int32) : Bool :=
  !state.dump.lister.held.contains tid || state.dump.lister.ending.isSome

/-- The dump has begun. -/
def begun (state : Compression engine) : Bool :=
  match state.stage with
  | .dumping _ | .wait _ => true
  | .returned _ => state.compressor.isSome
  | _ => false

/-- Whether the kernel admits a move. -/
def admits (state : Compression engine) : Move → Bool
  | .pipe2 fds =>
      match state.stage, fds with
      | .pipe, .ok (readFd, writeFd) =>
          readFd != writeFd && (state.host.find readFd).isNone && (state.host.find writeFd).isNone
      | .pipe, .error _ => true
      | _, _ => false
  | .fork _ =>
      match state.stage with
      | .fork _ _ => true
      | _ => false
  | .closeRead =>
      match state.stage with
      | .closeRead _ _ => true
      | _ => false
  | .dump choice =>
      state.begun && state.dump.admits choice &&
        match choice, state.stage with
        | .caller _, .dumping _ => true
        | .caller _, _ => false
        | _, _ => true
  | .closeWrite =>
      match state.stage with
      | .dumping _ => state.dump.result.isSome
      | _ => false
  | .wait answer =>
      match state.stage, answer, state.compressor.map Compressor.pc with
      | .wait _, .ok status, some (.ended exit) => status == exit.status
      | .wait _, .error _, _ => true
      | _, _, _ => false
  | .compressor _ =>
      match state.compressor.map Compressor.pc with
      | none | some .reading | some (.ended _) => false
      | _ => true
  | .compressorEnds _ =>
      match state.compressor.map Compressor.pc with
      | none | some (.ended _) => false
      | _ => true
  | .hostForks tid => state.runs tid
  | .offspringForks index | .offspringExecs index | .offspringCloses index _ | .offspringEnds index =>
      decide (index < state.offspring.length)

/-! ## The write end -/

/-- A process around the dump. The lister has the table of the host. -/
inductive Party where
  | host
  | compressor
  | snapshot
  | offspring (index : Nat)
deriving DecidableEq, Repr

/-- The descriptors of a process, if there is one. -/
def tableOf (state : Compression engine) : Party → Option Table
  | .host => some state.host
  | .compressor => state.compressor.map Compressor.table
  | .snapshot => state.snapshot
  | .offspring index => state.offspring[index]?

/-- The process has the write end of the pipe open. -/
def HoldsWriteEnd (state : Compression engine) (party : Party) : Prop :=
  ∃ table, state.tableOf party = some table ∧ table.Holds .writeEnd

/-- The move does not make a copy of the write end for a child of the host. -/
def spares (state : Compression engine) : Move → Bool
  | .hostForks _ => !decide (state.host.Holds .writeEnd)
  | _ => true

end Compression

/-- What the table of the host may hold at a stage. -/
def Stage.Contains (stage : Stage) (host : Table) : Prop :=
  match stage with
  | .fork _ writeFd | .closeRead _ writeFd | .dumping writeFd => host.Only .writeEnd writeFd
  | .pipe | .wait _ | .returned _ => ¬ host.Holds .writeEnd

/-- The child holds the write end at most until its first call. -/
def Compressor.Contained (compressor : Compressor) : Prop :=
  match compressor.pc with
  | .closeWrite => compressor.table.Only .writeEnd compressor.writeFd
  | _ => ¬ compressor.table.Holds .writeEnd

namespace Compressor

theorem Contained.finish {compressor : Compressor} (exit : Exit) : (compressor.finish exit).Contained :=
  DescriptorTable.not_holds_empty

theorem Contained.step {compressor : Compressor} (contained : compressor.Contained) (answer : Except Errno Unit) :
    (compressor.step answer).Contained := by
  unfold Contained at contained
  cases pc : compressor.pc <;> rw [pc] at contained
  case closeWrite =>
    simp only [Compressor.step, pc]
    exact contained.not_holds_close
  case dupStdin =>
    cases answer with
    | ok done =>
        simp only [Compressor.step, pc]
        exact fun holds => contained holds.of_dup2
    | error errno =>
        simp only [Compressor.step, pc]
        exact Contained.finish _
  case dupStdout =>
    cases answer with
    | ok done =>
        simp only [Compressor.step, pc]
        exact fun holds => contained holds.of_dup2
    | error errno =>
        simp only [Compressor.step, pc]
        exact Contained.finish _
  case closeRead =>
    simp only [Compressor.step, pc]
    split
    · exact contained
    · exact fun holds => contained holds.of_close
  case execve =>
    cases answer with
    | ok done =>
        simp only [Compressor.step, pc]
        exact fun holds => contained holds.of_exec
    | error errno =>
        simp only [Compressor.step, pc]
        exact Contained.finish _
  case reading | ended =>
    simp only [Compressor.step, pc]
    unfold Contained
    rw [pc]
    exact contained

end Compressor

namespace Compression

variable {arch : Arch} {engine : Engine arch}

/-- The write end is in the hands of the host, the compressor and the snapshot child. -/
structure Contained (state : Compression engine) : Prop where
  host : state.stage.Contains state.host
  compressor : ∀ child, state.compressor = some child → child.Contained
  offspring : ∀ table ∈ state.offspring, ¬ table.Holds .writeEnd

theorem start_contained (engine : Engine arch) (opened : List (Nat × Bool)) (outFd : Nat) (flags : ProcessFlags)
    (statics : Statics) : (start engine opened outFd flags statics).Contained := by
  refine ⟨?_, nofun, nofun⟩
  rintro ⟨entry, member, same⟩
  obtain ⟨pair, _, rfl⟩ := List.mem_map.mp member
  cases same

/-- Only the table of a child that forks, or of a thread of the host, is copied. -/
theorem Contained.modify {tables : List Table} (contained : ∀ table ∈ tables, ¬ table.Holds .writeEnd) (index : Nat)
    {change : Table → Table} (keeps : ∀ table, (change table).Holds .writeEnd → table.Holds .writeEnd) :
    ∀ table ∈ tables.modify index change, ¬ table.Holds .writeEnd := by
  intro table member holds
  obtain ⟨position, found⟩ := List.getElem?_of_mem member
  rw [List.getElem?_modify] at found
  obtain ⟨old, present, rfl⟩ := Option.map_eq_some_iff.mp found
  have clean := contained old (List.mem_of_getElem? present)
  split at holds
  · exact clean (keeps old holds)
  · exact clean holds

/-- A move that spares the write end keeps it contained. -/
theorem Contained.apply {state : Compression engine} (contained : state.Contained) {move : Move}
    (spared : state.spares move = true) : (state.apply move).Contained := by
  obtain ⟨host, compressor, offspring⟩ := contained
  cases move with
  | pipe2 fds =>
      simp only [Compression.apply]
      split
      · rename_i readFd writeFd stage
        refine ⟨?_, compressor, offspring⟩
        rw [stage] at host
        refine DescriptorTable.Only.install (fun holds => ?_) _
        rcases holds.of_install with wrong | old
        · cases wrong
        · exact host old
      · rename_i errno stage
        rw [stage] at host
        exact ⟨host, compressor, offspring⟩
      · exact ⟨host, compressor, offspring⟩
  | fork answer =>
      simp only [Compression.apply]
      split
      · rename_i readFd writeFd stage
        rw [stage] at host
        refine ⟨host, ?_, offspring⟩
        intro child new
        cases new
        exact host
      · rename_i readFd writeFd errno stage
        rw [stage] at host
        have only : state.host.Only .writeEnd writeFd := host
        exact ⟨(only.close readFd).not_holds_close, compressor, offspring⟩
      · exact ⟨host, compressor, offspring⟩
  | closeRead =>
      simp only [Compression.apply]
      split
      · rename_i readFd writeFd stage
        rw [stage] at host
        have only : state.host.Only .writeEnd writeFd := host
        exact ⟨only.close readFd, compressor, offspring⟩
      · exact ⟨host, compressor, offspring⟩
  | dump choice => exact ⟨host, compressor, offspring⟩
  | closeWrite =>
      simp only [Compression.apply]
      split
      · rename_i writeFd rc stage result
        rw [stage] at host
        have only : state.host.Only .writeEnd writeFd := host
        exact ⟨only.not_holds_close, compressor, offspring⟩
      · exact ⟨host, compressor, offspring⟩
  | wait answer =>
      simp only [Compression.apply]
      split
      · rename_i rc status stage
        rw [stage] at host
        exact ⟨host, compressor, offspring⟩
      · rename_i rc errno stage
        split
        · exact ⟨host, compressor, offspring⟩
        · rw [stage] at host
          exact ⟨host, compressor, offspring⟩
      · exact ⟨host, compressor, offspring⟩
  | compressor answer =>
      refine ⟨host, ?_, offspring⟩
      intro child new
      obtain ⟨old, present, rfl⟩ := Option.map_eq_some_iff.mp new
      exact (compressor old present).step answer
  | compressorEnds exit =>
      refine ⟨host, ?_, offspring⟩
      intro child new
      obtain ⟨old, present, rfl⟩ := Option.map_eq_some_iff.mp new
      exact Compressor.Contained.finish exit
  | hostForks tid =>
      refine ⟨host, compressor, ?_⟩
      intro table member
      rcases List.mem_append.mp member with old | new
      · exact offspring table old
      · rw [List.mem_singleton.mp new]
        simpa [spares] using spared
  | offspringForks index =>
      refine ⟨host, compressor, ?_⟩
      intro table member
      rcases List.mem_append.mp member with old | new
      · exact offspring table old
      · exact offspring table (List.mem_of_getElem? (Option.mem_toList.mp new))
  | offspringExecs index => exact ⟨host, compressor, Contained.modify offspring index fun _ holds => holds.of_exec⟩
  | offspringCloses index fd => exact ⟨host, compressor, Contained.modify offspring index fun _ holds => holds.of_close⟩
  | offspringEnds index =>
      refine ⟨host, compressor, Contained.modify offspring index fun _ holds => ?_⟩
      exact absurd holds DescriptorTable.not_holds_empty

/-- The end of the input. In every run in which no other thread of the host forks while
the host has the write end open, whoever has it open while `finish` waits is the
snapshot child, or the compressor before its first call; so when the snapshot child
has ended and the compressor reads, it is open nowhere. -/
theorem finish_eof (engine : Engine arch) (opened : List (Nat × Bool)) (outFd : Nat) (flags : ProcessFlags)
    (statics : Statics) (moves : List Move)
    (spared : throughout apply spares (start engine opened outFd flags statics) moves = true)
    (rc : Except CoreDumpError Int32)
    (waiting : (moves.foldl apply (start engine opened outFd flags statics)).stage = .wait rc) :
    let state := moves.foldl apply (start engine opened outFd flags statics)
    (∀ party, state.HoldsWriteEnd party → party = .snapshot ∨
      party = .compressor ∧ state.compressor.map Compressor.pc = some .closeWrite) ∧
    (state.snapshot = none → state.compressor.map Compressor.pc = some .reading →
      ∀ party, ¬ state.HoldsWriteEnd party) := by
  intro state
  obtain ⟨host, compressor, offspring⟩ : state.Contained :=
    foldl_keep (fun _ _ contained spared => contained.apply spared) (start_contained engine opened outFd flags statics)
      spared
  have holders : ∀ party, state.HoldsWriteEnd party → party = .snapshot ∨
      party = .compressor ∧ state.compressor.map Compressor.pc = some .closeWrite := by
    rintro party ⟨table, present, holds⟩
    cases party with
    | host =>
        cases present
        rw [show state.stage = _ from waiting] at host
        exact absurd holds host
    | compressor =>
        obtain ⟨child, there, rfl⟩ := Option.map_eq_some_iff.mp present
        have contained := compressor child there
        refine .inr ⟨rfl, ?_⟩
        rw [there, Option.map_some]
        unfold Compressor.Contained at contained
        split at contained
        · rename_i pc
          rw [pc]
        · exact absurd holds contained
    | snapshot => exact .inl rfl
    | offspring index => exact absurd holds (offspring table (List.mem_of_getElem? present))
  refine ⟨holders, fun ended reading party holding => ?_⟩
  rcases holders party holding with rfl | ⟨rfl, closing⟩
  · obtain ⟨table, present, _⟩ := holding
    rw [show state.tableOf .snapshot = none from ended] at present
    cases present
  · rw [reading] at closing
    cases closing

end Compression

/-- From the fork of the compressor, which gets as far as its program, through a dump
with success to the wait for it. -/
def sampleMoves : List Move :=
  [.fork (.ok ()), .closeRead] ++ List.replicate 5 (.compressor (.ok ())) ++ [.offspringExecs 0] ++
    inlineChoices.map .dump ++ [.closeWrite]

/-- The host with an output file at 4. -/
def sampleCompression : Compression sampleEngine :=
  .start sampleEngine [(0, false), (1, false), (2, false), (4, true)] 4 ⟨1, 0⟩ .fresh

/-- Thread 101 forks a child before there is a pipe. -/
theorem finish_eof_sample :
    let state := ([Move.hostForks 101, .pipe2 (.ok (5, 6))] ++ sampleMoves).foldl Compression.apply sampleCompression
    (∃ rc, state.stage = .wait rc) ∧ state.compressor.map Compressor.pc = some .reading ∧
      ∀ party, ¬ state.HoldsWriteEnd party := by
  refine ⟨⟨_, rfl⟩, by decide +kernel, ?_⟩
  exact (Compression.finish_eof sampleEngine _ _ _ _ _ (by decide +kernel) _ rfl).2 (by decide +kernel)
    (by decide +kernel)

/-- Thread 101 forks a child right after `pipe2`, which then executes a program. While
`finish` waits the child has the write end open, and nothing makes it end. -/
theorem finish_waits_for_offspring :
    let moves := [Move.pipe2 (.ok (5, 6)), .hostForks 101] ++ sampleMoves
    let state := moves.foldl Compression.apply sampleCompression
    throughout Compression.apply Compression.admits sampleCompression moves = true ∧
      (∃ rc, state.stage = .wait rc) ∧ state.compressor.map Compressor.pc = some .reading ∧ state.snapshot = none ∧
      state.HoldsWriteEnd (.offspring 0) := by
  refine ⟨by decide +kernel, ⟨_, rfl⟩, by decide +kernel, by decide +kernel, ?_⟩
  exact ⟨_, rfl, by decide +kernel⟩

end Corus.Compress
