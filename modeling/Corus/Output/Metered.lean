import Corus.Output.Budget

/-!
# A limit that is not reached

A meter counts what a sink is offered, whether the sink takes it or not. A limited
writer that is offered no more than its limit does exactly what an unlimited one
does on the same descriptor.
-/

namespace Corus.Output

open Corus.Logical Corus.Platform

/-- A sink with a meter in front of it. -/
structure Metered (Sink : Type) where
  sink : Sink
  offered : Nat

instance {Sink : Type} [Writer Sink] : Writer (Metered Sink) where
  write buf metered :=
    match Writer.write buf metered.sink with
    | (written, sink) => (written, ⟨sink, metered.offered + buf.length⟩)
  done metered := Writer.done metered.sink

theorem write_metered {Sink : Type} [Writer Sink] {buf : Bytes} {metered : Metered Sink} {written : Int} {sink : Sink}
    (wrote : Writer.write buf metered.sink = (written, sink)) :
    Writer.write buf metered = (written, ⟨sink, metered.offered + buf.length⟩) := by
  change (match Writer.write buf metered.sink with
    | (written, sink) => (written, (⟨sink, metered.offered + buf.length⟩ : Metered Sink))) = _
  rw [wrote]

/-- Two complete writes of one buffer that report the same have the same result. -/
theorem writeFull_congr {First Second : Type} [Writer First] [Writer Second] {buf : Bytes} {first after : First}
    {second later : Second} {written : Int} (wrote : Writer.write buf first = (written, after))
    (same : Writer.write buf second = (written, later)) :
    ∃ result, writeFull buf first = (result, after) ∧ writeFull buf second = (result, later) := by
  simp only [writeFull, wrote, same]
  split
  · exact ⟨_, rfl, rfl⟩
  · split
    · exact ⟨_, rfl, rfl⟩
    · exact ⟨_, rfl, rfl⟩

/-- The meter shows every buffer. -/
theorem writeFull_offered {Sink : Type} [Writer Sink] (buf : Bytes) (machine : Machine (Metered Sink)) :
    (writeFull buf machine).2.sink.offered = machine.sink.offered + buf.length := by
  have wrote : Writer.write buf machine.sink.sink = ((Writer.write buf machine.sink.sink).1, _) := rfl
  obtain ⟨result, ran, _⟩ := writeFull_congr (write_machine (write_metered wrote)) wrote
  rw [ran]

/-! ## The meter does not interfere -/

/-- A machine with a meter next to the machine without it. -/
def unmetered (Sink : Type) : Lockstep (Machine (Metered Sink)) (Machine Sink) where
  sync metered plain := plain.world = metered.world ∧ plain.sink = metered.sink.sink
  stopped _ _ := False
  later _ _ := True
  refl _ := trivial
  trans _ _ := trivial
  stays stopped _ := stopped

theorem unmetered_carries {Sink : Type} [Writer Sink] : Carries (unmetered Sink) where
  writeFull buf := by
    refine ⟨fun _ => trivial, ?_⟩
    rintro metered plain ⟨world, sink⟩
    cases wrote : Writer.write buf metered.sink.sink with
    | mk written after =>
      obtain ⟨result, ran, ranPlain⟩ := writeFull_congr (write_machine (write_metered wrote))
        (write_machine (show Writer.write buf plain.sink = (written, after) by rw [sink, wrote]))
      rw [ran, ranPlain]
      exact .inl ⟨rfl, world, rfl⟩
  onWorld step := by
    refine ⟨fun _ => trivial, ?_⟩
    rintro metered plain ⟨world, sink⟩
    refine .inl ?_
    simp only [onWorld, world]
    exact ⟨trivial, rfl, sink⟩

/-! ## What is offered -/

/-- A machine on a willing descriptor next to one with a meter, which shows no more
than the first one takes. -/
def metering (Sink : Type) : Lockstep (Machine SimpleWriter) (Machine (Metered Sink)) where
  sync full metered := full.sink.fd.Willing ∧ metered.world = full.world ∧
    metered.sink.offered ≤ full.sink.fd.accepted.length
  stopped full metered := metered.sink.offered ≤ full.sink.fd.accepted.length
  later before after := before.sink.fd.accepted <+: after.sink.fd.accepted
  refl := accepted_refl
  trans := accepted_trans
  stays shown grown := shown.trans grown.length_le

theorem metering_carries {Sink : Type} [Writer Sink] : Carries (metering Sink) where
  writeFull buf := by
    refine ⟨fun state => writeFull_grows buf state, ?_⟩
    rintro full metered ⟨willing, world, shown⟩
    obtain ⟨after, wrote, accepted, stillWilling⟩ :=
      SimpleWriter.acceptsEveryByte.accepts buf full.sink willing
    have taken : after.fd.accepted.length = full.sink.fd.accepted.length + buf.length := by
      rw [show after.fd.accepted = full.sink.fd.accepted ++ buf from accepted, List.length_append]
    cases cutWrote : Writer.write buf metered.sink.sink with
    | mk written cutAfter =>
      have offered := write_machine (write_metered cutWrote)
      rw [writeFull_of_complete (write_machine wrote)]
      by_cases complete : written = buf.length
      · rw [complete] at offered
        rw [writeFull_of_complete offered]
        refine .inl ⟨rfl, stillWilling, world, ?_⟩
        simp only [taken]
        omega
      · obtain ⟨failure, failed⟩ := writeFull_of_incomplete offered complete
        rw [failed]
        refine .inr ⟨⟨failure, rfl⟩, ?_⟩
        show metered.sink.offered + buf.length ≤ after.fd.accepted.length
        omega
  onWorld step := by
    refine ⟨fun state => List.prefix_rfl, ?_⟩
    rintro full metered ⟨willing, world, shown⟩
    refine .inl ?_
    simp only [onWorld, world]
    exact ⟨trivial, willing, rfl, shown⟩

/-! ## The limit -/

/-- What `c_write` appends is no longer than its buffer, and counted if it returns. -/
theorem cWrite_length (fd : OutFd) (buf : Bytes) :
    fd.accepted.length ≤ (cWrite fd buf).2.accepted.length ∧
      (cWrite fd buf).2.accepted.length ≤ fd.accepted.length + buf.length ∧
      ∀ count, (cWrite fd buf).1 = .ok count → (cWrite fd buf).2.accepted.length = fd.accepted.length + count := by
  obtain ⟨part, begins, accepted, counted⟩ := @cWriteLoop_takes buf.length fd buf (Nat.le_refl _)
  have short := begins.length_le
  have length : (cWrite fd buf).2.accepted.length = fd.accepted.length + part.length := by
    rw [cWrite, accepted, List.length_append]
  refine ⟨by omega, by omega, fun count returned => ?_⟩
  have sum := counted count returned
  omega

/-- A machine with a meter next to a limited one on the same descriptor. They do the
same, until more than the limit was offered. -/
def ample (limit : Nat) : Lockstep (Machine (Metered SimpleWriter)) (Machine LimitWriter) where
  sync full cut := cut.world = full.world ∧ cut.sink.fd = full.sink.sink.fd ∧
    full.sink.sink.fd.accepted.length ≤ full.sink.offered ∧
    limit ≤ full.sink.sink.fd.accepted.length + cut.sink.maxLength
  stopped full _ := limit < full.sink.offered
  later before after := before.sink.offered ≤ after.sink.offered
  refl _ := Nat.le_refl _
  trans first second := first.trans second
  stays exceeded grown := exceeded.trans_le grown

/-- Within its budget a limited writer writes what an unlimited one does. -/
theorem LimitWriter.write_within {buf : Bytes} {writer : LimitWriter} (within : buf.length ≤ writer.maxLength) :
    Writer.write buf writer = match cWrite writer.fd buf with
      | (.ok count, fd) => ((count : Int), ⟨fd, writer.maxLength - count⟩)
      | (.error _, fd) => (-1, ⟨fd, writer.maxLength⟩) := by
  have clamp : (if buf.length > writer.maxLength then writer.maxLength else buf.length) = buf.length :=
    if_neg (by omega)
  simp only [Writer.write, clamp, List.take_length]
  split
  · rename_i empty
    rw [List.length_eq_zero_iff.mp empty, cWrite, cWriteLoop]
    simp
  · rfl

theorem ample_carries {limit : Nat} : Carries (ample limit) where
  writeFull buf := by
    constructor
    · intro full
      show full.sink.offered ≤ (writeFull buf full).2.sink.offered
      rw [writeFull_offered]
      exact Nat.le_add_right _ _
    rintro full cut ⟨world, fd, taken, left⟩
    by_cases within : buf.length ≤ cut.sink.maxLength
    · -- Both make the same calls on the descriptor.
      have cutWrote := LimitWriter.write_within within
      rw [fd] at cutWrote
      have length := cWrite_length full.sink.sink.fd buf
      have wrote : Writer.write buf full.sink.sink = match cWrite full.sink.sink.fd buf with
          | (.ok count, fd) => ((count : Int), ⟨fd⟩)
          | (.error _, fd) => (-1, ⟨fd⟩) := rfl
      cases ran : cWrite full.sink.sink.fd buf with
      | mk outcome after =>
        rw [ran] at length cutWrote wrote
        obtain ⟨grown, short, counts⟩ := length
        simp only at grown short counts
        cases outcome with
        | ok count =>
            obtain ⟨result, first, second⟩ :=
              writeFull_congr (write_machine (write_metered wrote)) (write_machine cutWrote)
            rw [first, second]
            have counted := counts count rfl
            refine .inl ⟨rfl, world, rfl, ?_, ?_⟩
            · simp only
              omega
            · simp only
              omega
        | error errno =>
            obtain ⟨result, first, second⟩ :=
              writeFull_congr (write_machine (write_metered wrote)) (write_machine cutWrote)
            rw [first, second]
            refine .inl ⟨rfl, world, rfl, ?_, ?_⟩
            · simp only
              omega
            · simp only
              omega
    · -- The limited one cannot complete its write.
      cases cutWrote : Writer.write buf cut.sink with
      | mk written cutAfter =>
        obtain ⟨_, _, _, whole, _⟩ := LimitWriter.write_spends buf cut.sink cutWrote
        have incomplete : written ≠ buf.length := by
          intro complete
          have budget := (whole complete).2
          omega
        obtain ⟨failure, failed⟩ := writeFull_of_incomplete (write_machine cutWrote) incomplete
        rw [failed]
        refine .inr ⟨⟨failure, rfl⟩, ?_⟩
        show limit < (writeFull buf full).2.sink.offered
        rw [writeFull_offered]
        omega
  onWorld step := by
    refine ⟨fun state => Nat.le_refl _, ?_⟩
    rintro full cut ⟨world, rest⟩
    refine .inl ?_
    simp only [onWorld, world]
    exact ⟨trivial, rfl, rest⟩

end Corus.Output
