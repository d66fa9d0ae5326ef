import Corus.Logical.Action
import Corus.Platform.Kernel

/-!
# Output sinks

The `Writer` trait with its default method `write_full`, the retrying `c_write`,
and the two sinks built on it. `SimpleWriter` passes everything on, `LimitWriter`
stops at its budget. A `Machine` pairs a sink with the state of the serializing
task, whose system calls do not touch the output descriptor.
-/

namespace Corus.Output

open Corus.Logical Corus.Platform

/-- Error returned by `write_full`. -/
inductive WriteError where
  | failed
  | shortWrite (requested written : Nat)
deriving DecidableEq, Repr

/-- Output sink for the core file: `write` returns the accepted byte count or a
negative error marker, `done` tells that no more output should be produced. -/
class Writer (Sink : Type) where
  write : Bytes → Sink → Int × Sink
  done : Sink → Bool

/-- `Writer::write_full`: anything but a complete write is an error. -/
def writeFull {Sink : Type} [Writer Sink] (buf : Bytes) : Action Sink WriteError Unit := fun sink =>
  match Writer.write buf sink with
  | (written, after) =>
      if written < 0 then (.error .failed, after)
      else if written.toNat = buf.length then (.ok (), after)
      else (.error (.shortWrite buf.length written.toNat), after)

/-- An output descriptor: the bytes that reached it and the answers `write(2)`
gives, one for each uninterrupted call. -/
structure OutFd where
  accepted : Bytes
  clock : Nat
  answers : Nat → Response (Except Errno Nat)

namespace OutFd

/-- One `write(2)` that was not interrupted; a count is at most what was offered. -/
def sysWrite (fd : OutFd) (buf : Bytes) : Except Errno Nat × OutFd :=
  match (fd.answers fd.clock).retry with
  | .error errno => (.error errno, { fd with clock := fd.clock + 1 })
  | .ok count =>
      (.ok (min count buf.length),
        { fd with clock := fd.clock + 1, accepted := fd.accepted ++ buf.take (min count buf.length) })

/-- The descriptor neither fails nor refuses to make progress. -/
def Willing (fd : OutFd) : Prop :=
  ∀ call, ∃ count, 0 < count ∧ (fd.answers call).result = .ok count

end OutFd

/-- The loop of `c_write`; `remaining` is the part of the buffer not yet accepted. -/
def cWriteLoop (len : Nat) (fd : OutFd) (remaining : Bytes) : Except Errno Nat × OutFd :=
  if _exhausted : remaining = [] then (.ok len, fd)
  else
    match fd.sysWrite remaining with
    | (.error errno, after) => (.error errno, after)
    | (.ok 0, after) => (.ok (len - remaining.length), after)
    | (.ok (count + 1), after) => cWriteLoop len after (remaining.drop (count + 1))
termination_by remaining.length
decreasing_by
  have positive : 0 < remaining.length := List.length_pos_iff.mpr _exhausted
  simp only [List.length_drop]
  omega

/-- `c_write`: write until everything is accepted, the sink refuses, or an error. -/
def cWrite (fd : OutFd) (buf : Bytes) : Except Errno Nat × OutFd := cWriteLoop buf.length fd buf

/-- Synchronous writer to one descriptor, without a limit. -/
structure SimpleWriter where
  fd : OutFd

instance : Writer SimpleWriter where
  write buf writer :=
    match cWrite writer.fd buf with
    | (.ok count, fd) => (count, ⟨fd⟩)
    | (.error _, fd) => (-1, ⟨fd⟩)
  done _ := false

/-- Writer that honours a maximum output size, truncating the final write. -/
structure LimitWriter where
  fd : OutFd
  maxLength : Nat

instance : Writer LimitWriter where
  write buf writer :=
    let bytes := if buf.length > writer.maxLength then writer.maxLength else buf.length
    if bytes = 0 then (0, writer)
    else
      match cWrite writer.fd (buf.take bytes) with
      | (.ok count, fd) => (count, ⟨fd, writer.maxLength - count⟩)
      | (.error _, fd) => (-1, ⟨fd, writer.maxLength⟩)
  done writer := decide (writer.maxLength = 0)

/-- The serializing task together with the sink it writes to. -/
structure Machine (Sink : Type) where
  world : World
  sink : Sink

instance {Sink : Type} [Writer Sink] : Writer (Machine Sink) where
  write buf machine :=
    match Writer.write buf machine.sink with
    | (written, sink) => (written, { machine with sink := sink })
  done machine := Writer.done machine.sink

/-- Run a task step that never touches the sink. -/
def onWorld {Sink Error Result : Type} (step : World → Except Error Result × World) :
    Action (Machine Sink) Error Result := fun machine =>
  match step machine.world with
  | (outcome, world) => (outcome, { machine with world := world })

/-- A machine writes through its sink. -/
theorem write_machine {Sink : Type} [Writer Sink] {buf : Bytes} {machine : Machine Sink} {written : Int}
    {sink : Sink} (wrote : Writer.write buf machine.sink = (written, sink)) :
    Writer.write buf machine = (written, { machine with sink := sink }) := by
  change (match Writer.write buf machine.sink with
    | (written, sink) => (written, { machine with sink := sink })) = _
  rw [wrote]

theorem writeFull_of_complete {Sink : Type} [Writer Sink] {buf : Bytes} {sink after : Sink}
    (wrote : Writer.write buf sink = ((buf.length : Int), after)) : writeFull buf sink = (.ok (), after) := by
  simp [writeFull, wrote]

theorem writeFull_of_incomplete {Sink : Type} [Writer Sink] {buf : Bytes} {sink after : Sink} {written : Int}
    (wrote : Writer.write buf sink = (written, after)) (incomplete : written ≠ buf.length) :
    ∃ failure, writeFull buf sink = (.error failure, after) := by
  simp only [writeFull, wrote]
  split
  · exact ⟨_, rfl⟩
  · rw [if_neg (by omega)]
    exact ⟨_, rfl⟩

theorem onWorld_of_eq {Sink Error Result : Type} {step : World → Except Error Result × World}
    {machine : Machine Sink} {outcome : Except Error Result} {world : World}
    (ran : step machine.world = (outcome, world)) :
    onWorld step machine = (outcome, { machine with world := world }) := by
  rw [onWorld, ran]

/-- A task step that returns leaves the sink as it was. -/
theorem onWorld_eq_ok {Sink Error Result : Type} {step : World → Except Error Result × World}
    {before after : Machine Sink} {result : Result} (ran : onWorld step before = (.ok result, after)) :
    ∃ world, step before.world = (.ok result, world) ∧ after = { before with world := world } := by
  cases equation : step before.world with
  | mk outcome world =>
    simp only [onWorld, equation] at ran
    cases ran
    exact ⟨world, rfl, rfl⟩

/-! ## What the sinks do on a willing descriptor -/

/-- A willing descriptor accepts a non-empty prefix of every non-empty buffer. -/
theorem OutFd.Willing.sysWrite {fd : OutFd} (willing : fd.Willing) {buf : Bytes} (nonempty : buf ≠ []) :
    ∃ count after, fd.sysWrite buf = (.ok (count + 1), after) ∧ count + 1 ≤ buf.length ∧
      after.accepted = fd.accepted ++ buf.take (count + 1) ∧ after.answers = fd.answers := by
  obtain ⟨offered, positive, answer⟩ := willing fd.clock
  have present : 0 < buf.length := List.length_pos_iff.mpr nonempty
  obtain ⟨count, counted⟩ : ∃ less, min offered buf.length = less + 1 :=
    ⟨min offered buf.length - 1, by omega⟩
  refine ⟨count, { fd with
    clock := fd.clock + 1, accepted := fd.accepted ++ buf.take (count + 1) }, ?_, by omega, rfl, rfl⟩
  simp only [OutFd.sysWrite, Response.retry_eq, answer, counted]

theorem OutFd.Willing.of_answers {fd other : OutFd} (willing : fd.Willing)
    (same : other.answers = fd.answers) : other.Willing := by
  intro call
  rw [same]
  exact willing call

/-- On a willing descriptor `c_write` delivers the whole buffer, in order. -/
theorem cWriteLoop_willing {len : Nat} {fd : OutFd} {remaining : Bytes} (willing : fd.Willing) :
    ∃ after, cWriteLoop len fd remaining = (.ok len, after) ∧
      after.accepted = fd.accepted ++ remaining ∧ after.answers = fd.answers := by
  -- Every uninterrupted call accepts at least one byte, so the rest is shorter.
  induction size : remaining.length using Nat.strongRecOn generalizing fd remaining with
  | _ length ih =>
    rw [cWriteLoop]
    by_cases empty : remaining = []
    · exact ⟨fd, by simp [empty], by simp [empty], rfl⟩
    · obtain ⟨count, after, call, bounded, accepted, answers⟩ := willing.sysWrite empty
      obtain ⟨final, ran, finalAccepted, finalAnswers⟩ :=
        ih (remaining.drop (count + 1)).length (by simp only [List.length_drop]; omega)
          (willing.of_answers answers) rfl
      refine ⟨final, ?_, ?_, finalAnswers.trans answers⟩
      · simp only [empty, dif_neg, not_false_eq_true, call, ran]
      · rw [finalAccepted, accepted, List.append_assoc, List.take_append_drop]

theorem cWrite_willing {fd : OutFd} (willing : fd.Willing) (buf : Bytes) :
    ∃ after, cWrite fd buf = (.ok buf.length, after) ∧
      after.accepted = fd.accepted ++ buf ∧ after.answers = fd.answers :=
  cWriteLoop_willing willing

/-- The sink takes every buffer whole and stays in an accepting state. -/
structure AcceptsEveryByte (Sink : Type) [Writer Sink] where
  emitted : Sink → Bytes
  accepting : Sink → Prop
  accepts : ∀ buf sink, accepting sink → ∃ after, Writer.write buf sink = ((buf.length : Int), after) ∧
    emitted after = emitted sink ++ buf ∧ accepting after

/-- An unlimited writer on a willing descriptor accepts every byte. -/
def SimpleWriter.acceptsEveryByte : AcceptsEveryByte SimpleWriter where
  emitted writer := writer.fd.accepted
  accepting writer := writer.fd.Willing
  accepts := by
    intro buf writer willing
    obtain ⟨after, ran, accepted, answers⟩ := cWrite_willing willing buf
    exact ⟨⟨after⟩, by simp only [Writer.write, ran], accepted, willing.of_answers answers⟩

/-- The output of a machine, everything else being the state of the task. -/
def AcceptsEveryByte.observation {Sink : Type} [Writer Sink] (total : AcceptsEveryByte Sink) :
    Observation (Machine Sink) World where
  emitted machine := total.emitted machine.sink
  rest machine := machine.world
  accepting machine := total.accepting machine.sink

/-- A complete write emits exactly its buffer. -/
theorem writeFull_emits {Sink : Type} [Writer Sink] (total : AcceptsEveryByte Sink) (buf : Bytes) :
    Emits total.observation (writeFull buf) buf := by
  intro machine accepting
  obtain ⟨after, wrote, emitted, accepts⟩ := total.accepts buf machine.sink accepting
  exact ⟨{ machine with sink := after }, writeFull_of_complete (write_machine wrote), emitted, rfl, accepts⟩

end Corus.Output
