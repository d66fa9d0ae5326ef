import Corus.Output.Interruption

/-!
# A limited writer next to an unlimited one

Both writers sit on willing descriptors, which may cut the same buffer into
different pieces. As long as the budget lasts they write the same bytes; the
write that exceeds it fails after its first bytes have used the budget up.
-/

namespace Corus.Output

open Corus.Logical Corus.Platform

/-- Both runs wrote the same bytes so far, within the limit. -/
structure InSync (base cutBase : Bytes) (limit : Nat) (full : Machine SimpleWriter)
    (cut : Machine LimitWriter) (written : Bytes) : Prop where
  output : full.sink.fd.accepted = base ++ written
  cutOutput : cut.sink.fd.accepted = cutBase ++ written
  budget : written.length + cut.sink.maxLength = limit
  world : cut.world = full.world
  willing : full.sink.fd.Willing
  cutWilling : cut.sink.fd.Willing

/-- The budget is used up and the full output goes at least as far. -/
structure CutOff (base cutBase : Bytes) (limit : Nat) (full : Machine SimpleWriter)
    (cut : Machine LimitWriter) (written : Bytes) : Prop where
  output : full.sink.fd.accepted = base ++ written
  reached : limit ≤ written.length
  cutOutput : cut.sink.fd.accepted = cutBase ++ written.take limit
  spent : cut.sink.maxLength = 0

/-- The two writers as a pair of runs, with what was in the descriptors before. -/
def truncation (base cutBase : Bytes) (limit : Nat) :
    Lockstep (Machine SimpleWriter) (Machine LimitWriter) where
  sync full cut := ∃ written, InSync base cutBase limit full cut written
  stopped full cut := ∃ written, CutOff base cutBase limit full cut written
  later before after := ∃ more, after.sink.fd.accepted = before.sink.fd.accepted ++ more
  refl _ := ⟨[], by simp⟩
  trans := by
    rintro first second third ⟨more, second_eq⟩ ⟨most, third_eq⟩
    exact ⟨more ++ most, by rw [third_eq, second_eq, List.append_assoc]⟩
  stays := by
    rintro state next cut ⟨written, isCut⟩ ⟨more, grown⟩
    refine ⟨written ++ more, ?_, ?_, ?_, isCut.spent⟩
    · rw [grown, isCut.output, List.append_assoc]
    · have reached := isCut.reached
      rw [List.length_append]
      omega
    · rw [isCut.cutOutput, List.take_append_of_le_length isCut.reached]

section Rules

variable {base cutBase : Bytes} {limit : Nat} {Error Result : Type}

/-- The step of the task is the same in both runs. -/
theorem onWorld_follows (step : World → Except Error Result × World) :
    Follows (truncation base cutBase limit) (onWorld step) (onWorld step) where
  grows state := ⟨[], by simp [onWorld]⟩
  tracks state other sync := by
    obtain ⟨written, inSync⟩ := sync
    refine .inl ?_
    simp only [onWorld, inSync.world]
    exact ⟨trivial, written, inSync.output, inSync.cutOutput, inSync.budget, rfl, inSync.willing,
      inSync.cutWilling⟩

/-- What a limited writer on a willing descriptor does with a buffer: everything
if the budget allows, else it uses the budget up. -/
theorem limitWriter_write {writer : LimitWriter} (willing : writer.fd.Willing) (buf : Bytes) :
    ∃ after, Writer.write buf writer = (((min buf.length writer.maxLength : Nat) : Int), after) ∧
      after.fd.accepted = writer.fd.accepted ++ buf.take writer.maxLength ∧
      after.maxLength = writer.maxLength - buf.length ∧ after.fd.Willing := by
  have clamp : (if buf.length > writer.maxLength then writer.maxLength else buf.length) =
      min buf.length writer.maxLength := by
    split <;> omega
  have shown : buf.take (min buf.length writer.maxLength) = buf.take writer.maxLength := by
    rcases Nat.le_total buf.length writer.maxLength with fits | exceeds
    · rw [Nat.min_eq_left fits, List.take_length, List.take_of_length_le fits]
    · rw [Nat.min_eq_right exceeds]
  by_cases none : min buf.length writer.maxLength = 0
  · refine ⟨writer, ?_, ?_, ?_, willing⟩
    · simp only [Writer.write, clamp, none, if_true]
      rfl
    · rw [← shown, none, List.take_zero, List.append_nil]
    · omega
  · obtain ⟨after, ran, accepted, answers⟩ :=
      cWrite_willing willing (buf.take (min buf.length writer.maxLength))
    have length : (buf.take (min buf.length writer.maxLength)).length =
        min buf.length writer.maxLength := by
      rw [List.length_take]
      omega
    rw [length] at ran
    refine ⟨⟨after, writer.maxLength - min buf.length writer.maxLength⟩, ?_, ?_, ?_,
      willing.of_answers answers⟩
    · simp only [Writer.write, clamp, none, if_false, ran]
    · rw [accepted, shown]
    · simp only
      omega

/-- The two writers write in step until the budget is exceeded. -/
theorem writeFull_follows (buf : Bytes) :
    Follows (truncation base cutBase limit) (writeFull buf) (writeFull buf) where
  grows state := by
    obtain ⟨more, appended⟩ := writeFull_grows buf state
    exact ⟨more, appended.symm⟩
  tracks state other sync := by
    obtain ⟨written, inSync⟩ := sync
    obtain ⟨after, wrote, accepted, willing⟩ :=
      SimpleWriter.acceptsEveryByte.accepts buf state.sink inSync.willing
    obtain ⟨afterCut, wroteCut, acceptedCut, budget, willingCut⟩ := limitWriter_write inSync.cutWilling buf
    have ran : writeFull buf state = (.ok (), { state with sink := after }) :=
      writeFull_of_complete (write_machine wrote)
    have output : after.fd.accepted = base ++ (written ++ buf) := by
      rw [← List.append_assoc, ← inSync.output]
      exact accepted
    have total := inSync.budget
    rw [ran]
    by_cases fits : buf.length ≤ other.sink.maxLength
    · rw [Nat.min_eq_left fits] at wroteCut
      rw [writeFull_of_complete (write_machine wroteCut)]
      refine .inl ⟨rfl, written ++ buf, output, ?_, ?_, inSync.world, willing, willingCut⟩
      · rw [acceptedCut, inSync.cutOutput, List.take_of_length_le fits, List.append_assoc]
      · simp only [List.length_append, budget]
        omega
    · rw [Nat.min_eq_right (Nat.le_of_not_le fits)] at wroteCut
      obtain ⟨failure, failed⟩ := writeFull_of_incomplete (write_machine wroteCut) (by omega)
      rw [failed]
      refine .inr ⟨⟨failure, rfl⟩, written ++ buf, output, ?_, ?_, ?_⟩
      · rw [List.length_append]
        omega
      · have room : limit - written.length = other.sink.maxLength := by omega
        have whole : written.take limit = written := List.take_of_length_le (by omega)
        rw [acceptedCut, inSync.cutOutput, List.append_assoc, List.take_append, whole, room]
      · simp only [budget]
        omega

theorem truncation_carries : Carries (truncation base cutBase limit) :=
  ⟨writeFull_follows, fun step => onWorld_follows step⟩

end Rules

end Corus.Output
