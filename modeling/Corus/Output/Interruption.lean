import Corus.Logical.Lockstep
import Corus.Output.Writer

/-!
# A sink that may give up next to one that never does

Whatever a descriptor answers and wherever a limit lies, a sink passes on a
beginning of each buffer, and all of it if it reports a complete write. So a run
on such a sink leaves a beginning of what the same run leaves on a sink that
accepts every byte.
-/

namespace Corus.Output

open Corus.Logical Corus.Platform

/-- Task steps and complete writes keep two machines in step. Everything that is
built from them does, too. -/
structure Carries {Full Cut : Type} [Writer Full] [Writer Cut]
    (pair : Lockstep (Machine Full) (Machine Cut)) : Prop where
  writeFull : ∀ buf, Follows pair (writeFull buf) (writeFull buf)
  onWorld : ∀ {Error Result : Type} (step : World → Except Error Result × World),
    Follows pair (onWorld step) (onWorld step)

/-! ## What a descriptor takes -/

/-- A call of `write(2)` appends as many bytes as it returns. -/
theorem OutFd.sysWrite_takes (fd : OutFd) (buf : Bytes) :
    match fd.sysWrite buf with
    | (.ok count, after) => after.accepted = fd.accepted ++ buf.take count
    | (.error _, after) => after.accepted = fd.accepted := by
  unfold OutFd.sysWrite
  cases (fd.answers fd.clock).retry <;> rfl

/-- `c_write` appends a beginning of its buffer, and counts what it appended. -/
theorem cWriteLoop_takes {len : Nat} {fd : OutFd} {remaining : Bytes} (within : remaining.length ≤ len) :
    ∃ part, part <+: remaining ∧ (cWriteLoop len fd remaining).2.accepted = fd.accepted ++ part ∧
      ∀ count, (cWriteLoop len fd remaining).1 = .ok count →
        count + remaining.length = len + part.length := by
  induction size : remaining.length using Nat.strongRecOn generalizing fd remaining with
  | _ length ih =>
    have taken := fd.sysWrite_takes remaining
    rw [cWriteLoop]
    split
    · rename_i exhausted
      refine ⟨[], List.nil_prefix, by simp, ?_⟩
      rintro count ⟨rfl⟩
      rw [← size, exhausted]
    · rename_i nonempty
      have positive : 0 < remaining.length := List.length_pos_iff.mpr nonempty
      split
      · rename_i call
        rw [call] at taken
        exact ⟨[], List.nil_prefix, by simpa using taken, by simp⟩
      · rename_i call
        rw [call] at taken
        refine ⟨[], List.nil_prefix, by simpa using taken, ?_⟩
        rintro count ⟨rfl⟩
        rw [List.length_nil]
        omega
      · rename_i count after call
        rw [call] at taken
        have shorter : (remaining.drop (count + 1)).length < remaining.length := by
          simp only [List.length_drop]
          omega
        obtain ⟨part, begins, accepted, counted⟩ :=
          ih _ (size ▸ shorter) (by omega : (remaining.drop (count + 1)).length ≤ len) rfl
        have split := List.take_append_drop (count + 1) remaining
        refine ⟨remaining.take (count + 1) ++ part, ?_, ?_, ?_⟩
        · nth_rewrite 2 [← split]
          exact (List.prefix_append_right_inj _).mpr begins
        · rw [accepted, show after.accepted = _ from taken, List.append_assoc]
        · intro total returned
          have rest := counted total returned
          simp only [List.length_append, List.length_take, List.length_drop] at rest ⊢
          omega

/-- A sink that passes on a beginning of every buffer, and all of it if it
reports a complete write. -/
structure PassesPrefixes (Sink : Type) [Writer Sink] where
  emitted : Sink → Bytes
  passes : ∀ buf sink written after, Writer.write buf sink = (written, after) →
    ∃ part, part <+: buf ∧ emitted after = emitted sink ++ part ∧ (written = buf.length → part = buf)

def SimpleWriter.passesPrefixes : PassesPrefixes SimpleWriter where
  emitted writer := writer.fd.accepted
  passes buf writer written after wrote := by
    obtain ⟨part, begins, accepted, counted⟩ := @cWriteLoop_takes buf.length writer.fd buf (Nat.le_refl _)
    refine ⟨part, begins, ?_⟩
    simp only [Writer.write, cWrite] at wrote
    split at wrote <;> rename_i ran <;> rw [ran] at accepted counted <;> cases wrote
    · refine ⟨accepted, fun complete => begins.eq_of_length ?_⟩
      have sum := counted _ rfl
      omega
    · refine ⟨accepted, fun complete => absurd complete ?_⟩
      omega

def LimitWriter.passesPrefixes : PassesPrefixes LimitWriter where
  emitted writer := writer.fd.accepted
  passes buf writer written after wrote := by
    simp only [Writer.write] at wrote
    generalize clamp : (if buf.length > writer.maxLength then writer.maxLength else buf.length) = bytes at wrote
    have within : bytes ≤ buf.length := by
      rw [← clamp]
      split <;> omega
    have length : (buf.take bytes).length = bytes := by
      rw [List.length_take]
      omega
    obtain ⟨part, begins, accepted, counted⟩ :=
      @cWriteLoop_takes (buf.take bytes).length writer.fd (buf.take bytes) (Nat.le_refl _)
    split at wrote
    · cases wrote
      refine ⟨[], List.nil_prefix, by simp, ?_⟩
      intro complete
      have empty : buf.length = 0 := by exact_mod_cast complete.symm
      exact (List.length_eq_zero_iff.mp empty).symm
    · refine ⟨part, begins.trans (List.take_prefix _ _), ?_⟩
      simp only [cWrite] at wrote
      split at wrote <;> rename_i ran <;> rw [ran] at accepted counted <;> cases wrote
      · rename_i count _
        refine ⟨accepted, fun complete => ?_⟩
        have sum := counted count rfl
        have short := begins.length_le
        exact (begins.trans (List.take_prefix _ _)).eq_of_length (by omega)
      · refine ⟨accepted, fun complete => absurd complete ?_⟩
        omega

/-! ## Two runs -/

/-- What was accepted is a beginning of what is accepted later. -/
theorem accepted_refl (machine : Machine SimpleWriter) :
    machine.sink.fd.accepted <+: machine.sink.fd.accepted := List.prefix_rfl

theorem accepted_trans {first second third : Machine SimpleWriter}
    (before : first.sink.fd.accepted <+: second.sink.fd.accepted)
    (after : second.sink.fd.accepted <+: third.sink.fd.accepted) :
    first.sink.fd.accepted <+: third.sink.fd.accepted := before.trans after

section Pair

variable {Sink : Type} [Writer Sink] (passes : PassesPrefixes Sink) (base : Bytes)

/-- A machine on a willing descriptor that was empty, next to one on any sink:
they wrote the same so far, or the second one stopped short. -/
def interruption : Lockstep (Machine SimpleWriter) (Machine Sink) where
  sync full cut := full.sink.fd.Willing ∧ cut.world = full.world ∧
    passes.emitted cut.sink = base ++ full.sink.fd.accepted
  stopped full cut := ∃ part, part <+: full.sink.fd.accepted ∧ passes.emitted cut.sink = base ++ part
  later before after := before.sink.fd.accepted <+: after.sink.fd.accepted
  refl := accepted_refl
  trans := accepted_trans
  stays := by
    rintro state next cut ⟨part, begins, emitted⟩ grown
    exact ⟨part, begins.trans grown, emitted⟩

/-- An unlimited writer only ever appends to its descriptor. -/
theorem writeFull_grows (buf : Bytes) (machine : Machine SimpleWriter) :
    machine.sink.fd.accepted <+: (writeFull buf machine).2.sink.fd.accepted := by
  obtain ⟨part, _, emitted, _⟩ :=
    SimpleWriter.passesPrefixes.passes buf machine.sink _ _ (Prod.eta _).symm
  have state : (writeFull buf machine).2 = (Writer.write buf machine).2 := by
    unfold writeFull
    split
    rename_i written after wrote
    split
    · rw [wrote]
    · split <;> rw [wrote]
  rw [state]
  exact ⟨part, emitted.symm⟩

/-- A write that is not complete fails, and what it passed on is a beginning. -/
theorem interruption_carries : Carries (interruption passes base) where
  writeFull buf := by
    refine ⟨fun state => writeFull_grows buf state, ?_⟩
    rintro state other ⟨willing, world, emitted⟩
    obtain ⟨after, wrote, accepted, stillWilling⟩ :=
      SimpleWriter.acceptsEveryByte.accepts buf state.sink willing
    cases cutWrote : Writer.write buf other.sink with
    | mk written cutAfter =>
      obtain ⟨part, begins, cutEmitted, whole⟩ := passes.passes buf other.sink written cutAfter cutWrote
      rw [writeFull_of_complete (write_machine wrote)]
      by_cases complete : written = buf.length
      · rw [complete] at cutWrote
        rw [writeFull_of_complete (write_machine cutWrote)]
        refine .inl ⟨rfl, stillWilling, world, ?_⟩
        rw [cutEmitted, emitted, whole complete, List.append_assoc]
        exact congrArg (base ++ ·) accepted.symm
      · obtain ⟨failure, failed⟩ := writeFull_of_incomplete (write_machine cutWrote) complete
        rw [failed]
        refine .inr ⟨⟨failure, rfl⟩, state.sink.fd.accepted ++ part, ?_, ?_⟩
        · rw [show after.fd.accepted = _ from accepted]
          exact (List.prefix_append_right_inj _).mpr begins
        · rw [cutEmitted, emitted, List.append_assoc]
  onWorld step := by
    refine ⟨fun state => List.prefix_rfl, ?_⟩
    rintro state other ⟨willing, world, emitted⟩
    refine .inl ?_
    simp only [onWorld, world]
    exact ⟨trivial, willing, rfl, emitted⟩

end Pair

end Corus.Output
