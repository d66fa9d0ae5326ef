import Corus.Output.Interruption

/-!
# What a limited writer has used up

On any descriptor, a limited writer that says it is done has passed on exactly as
many bytes as its limit, and they are a beginning of what the same run leaves on a
descriptor that takes everything.
-/

namespace Corus.Output

open Corus.Logical Corus.Platform

/-- A limited writer uses up what it reports. If the write is not complete and the
budget is used up, a beginning as long as the budget was passed on. -/
theorem LimitWriter.write_spends (buf : Bytes) (writer : LimitWriter) {written : Int} {after : LimitWriter}
    (wrote : Writer.write buf writer = (written, after)) :
    ∃ part, part <+: buf ∧ after.fd.accepted = writer.fd.accepted ++ part ∧
      (written = buf.length → part = buf ∧ buf.length + after.maxLength = writer.maxLength) ∧
      (after.maxLength = 0 → part.length = writer.maxLength) := by
  simp only [Writer.write] at wrote
  generalize clamp : (if buf.length > writer.maxLength then writer.maxLength else buf.length) = bytes at wrote
  have bounds : bytes ≤ buf.length ∧ bytes ≤ writer.maxLength ∧
      (bytes = 0 → buf.length = 0 ∨ writer.maxLength = 0) := by
    rw [← clamp]
    split <;> omega
  have length : (buf.take bytes).length = bytes := by
    rw [List.length_take]
    omega
  split at wrote
  · rename_i nothing
    cases wrote
    refine ⟨[], List.nil_prefix, by simp, ?_, fun spent => by rw [spent, List.length_nil]⟩
    intro complete
    have empty : buf.length = 0 := by exact_mod_cast complete.symm
    exact ⟨(List.length_eq_zero_iff.mp empty).symm, by omega⟩
  · rename_i something
    obtain ⟨part, begins, accepted, counted⟩ :=
      @cWriteLoop_takes (buf.take bytes).length writer.fd (buf.take bytes) (Nat.le_refl _)
    have short := begins.length_le
    refine ⟨part, begins.trans (List.take_prefix _ _), ?_⟩
    simp only [cWrite] at wrote
    split at wrote <;> rename_i ran <;> rw [ran] at accepted counted <;> cases wrote
    · rename_i count _
      have sum := counted count rfl
      refine ⟨accepted, ?_, fun spent => ?_⟩
      · intro complete
        exact ⟨(begins.trans (List.take_prefix _ _)).eq_of_length (by omega), by simp only; omega⟩
      · simp only at spent
        omega
    · refine ⟨accepted, fun complete => absurd complete (by omega), fun spent => ?_⟩
      simp only at spent
      omega

/-- An unlimited machine on a willing descriptor that was empty, next to a limited
one on any descriptor: they wrote the same so far, and the budget is what is left
of the limit; or the limited one gave up, at its limit if it says it is done. -/
def budget (base : Bytes) (limit : Nat) : Lockstep (Machine SimpleWriter) (Machine LimitWriter) where
  sync full cut := full.sink.fd.Willing ∧ cut.world = full.world ∧
    cut.sink.fd.accepted = base ++ full.sink.fd.accepted ∧
    full.sink.fd.accepted.length + cut.sink.maxLength = limit
  stopped full cut := cut.sink.maxLength = 0 → ∃ part, part <+: full.sink.fd.accepted ∧
    cut.sink.fd.accepted = base ++ part ∧ part.length = limit
  later before after := before.sink.fd.accepted <+: after.sink.fd.accepted
  refl := accepted_refl
  trans := accepted_trans
  stays := by
    intro state next cut gaveUp grown spent
    obtain ⟨part, begins, accepted, length⟩ := gaveUp spent
    exact ⟨part, begins.trans grown, accepted, length⟩

theorem budget_carries {base : Bytes} {limit : Nat} : Carries (budget base limit) where
  writeFull buf := by
    refine ⟨fun state => writeFull_grows buf state, ?_⟩
    rintro state other ⟨willing, world, accepted, left⟩
    obtain ⟨after, wrote, grown, stillWilling⟩ :=
      SimpleWriter.acceptsEveryByte.accepts buf state.sink willing
    have grown : after.fd.accepted = state.sink.fd.accepted ++ buf := grown
    cases cutWrote : Writer.write buf other.sink with
    | mk written cutAfter =>
      obtain ⟨part, begins, cutAccepted, whole, spends⟩ := LimitWriter.write_spends buf other.sink cutWrote
      rw [writeFull_of_complete (write_machine wrote)]
      by_cases complete : written = buf.length
      · rw [complete] at cutWrote
        obtain ⟨rfl, rest⟩ := whole complete
        rw [writeFull_of_complete (write_machine cutWrote)]
        refine .inl ⟨rfl, stillWilling, world, ?_, ?_⟩
        · rw [cutAccepted, accepted, grown, List.append_assoc]
        · rw [grown, List.length_append]
          simp only
          omega
      · obtain ⟨failure, failed⟩ := writeFull_of_incomplete (write_machine cutWrote) complete
        rw [failed]
        refine .inr ⟨⟨failure, rfl⟩, fun spent => ⟨state.sink.fd.accepted ++ part, ?_, ?_, ?_⟩⟩
        · rw [grown]
          exact (List.prefix_append_right_inj _).mpr begins
        · rw [cutAccepted, accepted, List.append_assoc]
        · rw [List.length_append, spends spent]
          exact left
  onWorld step := by
    refine ⟨fun state => List.prefix_rfl, ?_⟩
    rintro state other ⟨willing, world, accepted, left⟩
    refine .inl ?_
    simp only [onWorld, world]
    exact ⟨trivial, willing, rfl, accepted, left⟩

end Corus.Output
