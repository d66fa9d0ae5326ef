import Corus.Threads.Caller

/-!
# What the caller leaves behind

`list_all_process_threads` changes the dumpable flag and the signal mask and puts them
back on each of its return paths. It decides by the flag it has read whether there is
anything to put back, and takes a failed query for a flag of zero.
-/

namespace Corus.Threads

open Corus.Logical Corus.Platform

/-- What happens at a step of the caller: the block it shares with the lister as it is
then, and the answer to its call. -/
abbrev CallerMove := Params × Reply

namespace Caller

/-- The caller after a move. -/
def apply (caller : Caller) (move : CallerMove) : Caller := (caller.step move.1 move.2).1

/-- The query tells the flag if it succeeds, and the calls that put things back do
succeed. All other calls may fail. -/
def admits (caller : Caller) (move : CallerMove) : Bool :=
  match caller.pc, move.2 with
  | .getDumpable, .ok answer => answer.returned == caller.flags.dumpable
  | .restoreMask _, .error _ => false
  | .restoreDumpable _, .error _ => caller.dumpable != 0
  | _, _ => true

/-- What is known on the way of a mask, of the flag and of the flag that was read, given
the values on entry: the flag is as it was unless it was taken for zero. -/
structure Knows (entry : ProcessFlags) (mask dumpable read : UInt64) : Prop where
  mask : mask = entry.mask
  dumpable : read ≠ 0 → dumpable = entry.dumpable

/-- What holds at a position after the query. -/
def Restoring (entry : ProcessFlags) (caller : Caller) : Prop :=
  match caller.pc with
  | .mmap | .getDumpable => False
  | .setDumpable => caller.dumpable = 0 ∧ caller.flags.mask = entry.mask
  | .clone | .setPtracer _ | .restoreMask _ => Knows entry caller.old caller.flags.dumpable caller.dumpable
  | .blockSignals | .wait _ | .restoreDumpable _ =>
      Knows entry caller.flags.mask caller.flags.dumpable caller.dumpable
  | .munmap _ | .returned _ => Knows entry caller.flags.mask caller.flags.dumpable caller.dumpable ∧
      (caller.dumpable = 0 → caller.flags.dumpable = 0)

variable {entry : ProcessFlags} {caller : Caller}

/-- Every move keeps it. -/
theorem Restoring.apply (restoring : Restoring entry caller) {move : CallerMove}
    (admitted : caller.admits move = true) : Restoring entry (caller.apply move) := by
  obtain ⟨params, reply⟩ := move
  have unchanged := restoring
  unfold Restoring at restoring
  cases pc : caller.pc <;> simp only [pc] at restoring <;> simp only [Caller.apply, Caller.step, pc]
  case setDumpable =>
    obtain ⟨zero, mask⟩ := restoring
    cases reply <;> exact ⟨mask, fun nonzero => absurd zero nonzero⟩
  case blockSignals =>
    obtain ⟨mask, dumpable⟩ := restoring
    cases reply <;> exact ⟨mask, dumpable⟩
  case clone => cases reply <;> exact restoring
  case setPtracer clonePid => exact restoring
  case restoreMask cloned =>
    obtain ⟨mask, dumpable⟩ := restoring
    cases reply with
    | ok answer => cases cloned <;> exact ⟨mask, dumpable⟩
    | error errno => simp [admits, pc] at admitted
  case wait clonePid =>
    cases reply with
    | ok answer => exact restoring
    | error errno =>
        simp only
        split
        · exact unchanged
        · exact restoring
  case restoreDumpable early =>
    obtain ⟨mask, dumpable⟩ := restoring
    cases reply with
    | ok answer =>
        by_cases zero : caller.dumpable = 0
        · simp only [zero, if_true]
          exact ⟨⟨mask, fun nonzero => absurd rfl nonzero⟩, fun _ => rfl⟩
        · simp only [zero, if_false]
          exact ⟨⟨mask, dumpable⟩, fun isZero => absurd isZero zero⟩
    | error errno =>
        have nonzero : caller.dumpable ≠ 0 := by simpa [admits, pc] using admitted
        exact ⟨⟨mask, dumpable⟩, fun isZero => absurd isZero nonzero⟩
  case munmap result => exact restoring
  case returned result => exact unchanged

/-- Only the query sets the flag that was read. -/
theorem apply_dumpable (later : caller.pc ≠ .getDumpable) (move : CallerMove) :
    (caller.apply move).dumpable = caller.dumpable := by
  obtain ⟨params, reply⟩ := move
  cases pc : caller.pc <;> simp only [Caller.apply, Caller.step, pc]
  case getDumpable => exact absurd pc later
  case restoreMask cloned => cases cloned <;> rfl
  case wait clonePid =>
    cases reply with
    | ok answer => rfl
    | error errno =>
        simp only
        split <;> rfl
  all_goals cases reply <;> rfl

/-- The flag that is taken for read. -/
def readDumpable : Reply → UInt64
  | .ok answer => answer.returned
  | .error _ => 0

/-- The query starts it. -/
theorem Restoring.query (start : caller.pc = .getDumpable) (move : CallerMove) :
    Restoring caller.flags (caller.apply move) ∧ (caller.apply move).dumpable = readDumpable move.2 := by
  obtain ⟨params, reply⟩ := move
  have applied : caller.apply (params, reply) = { caller with
      dumpable := readDumpable reply
      pc := if readDumpable reply = 0 then .setDumpable else .blockSignals } := by
    simp only [Caller.apply, Caller.step, start]
    cases reply <;> rfl
  rw [applied]
  refine ⟨?_, rfl⟩
  by_cases zero : readDumpable reply = 0
  · simp only [Restoring, zero, if_true, and_self]
  · simp only [Restoring, zero, if_false]
    exact ⟨rfl, fun _ => rfl⟩

/-- What a run of admitted moves from the entry leads to. -/
theorem Restoring.run (start : caller.pc = .getDumpable) {first : CallerMove} {rest : List CallerMove}
    (admitted : throughout Caller.apply admits caller (first :: rest) = true) :
    Restoring caller.flags ((first :: rest).foldl Caller.apply caller) ∧
      ((first :: rest).foldl Caller.apply caller).dumpable = readDumpable first.2 := by
  simp only [throughout, Bool.and_eq_true] at admitted
  refine @foldl_keep _ _ _ _ (fun state => Restoring caller.flags state ∧ state.dumpable = readDumpable first.2)
    ?_ _ rest (Restoring.query start first) admitted.2
  rintro state move ⟨restoring, read⟩ allowed
  refine ⟨restoring.apply allowed, ?_⟩
  rw [apply_dumpable ?_ move, read]
  intro pc
  rw [Restoring, pc] at restoring
  exact restoring

/-- When `list_all_process_threads` returns, with whatever result, the dumpable flag and
the signal mask are what they were on entry exactly if the flag could be queried or
was zero. -/
theorem flags_restored_iff (start : caller.pc = .getDumpable) {first : CallerMove} {rest : List CallerMove}
    (admitted : throughout Caller.apply admits caller (first :: rest) = true) {result : Except Int Int32}
    (returned : ((first :: rest).foldl Caller.apply caller).pc = .munmap result) :
    ((first :: rest).foldl Caller.apply caller).flags = caller.flags ↔
      (∃ answer, first.2 = .ok answer) ∨ caller.flags.dumpable = 0 := by
  have truthful : ∀ answer, first.2 = .ok answer → answer.returned = caller.flags.dumpable := by
    intro answer queried
    simp only [throughout, Bool.and_eq_true] at admitted
    simpa [admits, start, queried] using admitted.1
  obtain ⟨restoring, read⟩ := Restoring.run start admitted
  rw [Restoring, returned] at restoring
  obtain ⟨⟨mask, kept⟩, cleared⟩ := restoring
  generalize (first :: rest).foldl Caller.apply caller = final at *
  have same : final.flags = caller.flags ↔ final.flags.dumpable = caller.flags.dumpable := by
    constructor
    · exact fun equal => by rw [equal]
    · intro dumpable
      cases flags : final.flags
      cases entry : caller.flags
      simp only [flags, entry] at mask dumpable
      rw [mask, dumpable]
  rw [same]
  constructor
  · intro equal
    cases reply : first.2 with
    | ok answer => exact .inl ⟨answer, rfl⟩
    | error errno =>
        right
        rw [← equal]
        exact cleared (by rw [read, reply]; rfl)
  · rintro (⟨answer, queried⟩ | zero)
    · have dumpable : final.dumpable = caller.flags.dumpable := by
        rw [read, queried]
        exact truthful answer queried
      by_cases isZero : final.dumpable = 0
      · rw [cleared isZero, ← dumpable, isZero]
      · exact kept isZero
    · by_cases isZero : final.dumpable = 0
      · rw [cleared isZero, zero]
      · exact kept isZero

/-- A call in a process that is dumpable, with one signal blocked. -/
def dumpableEntry : Caller := ⟨.getDumpable, 0, 0, ⟨1, 2⟩, []⟩

/-- A call succeeds, with what it returns. -/
def answers (returned : UInt64) : CallerMove := (⟨0, 0⟩, .ok ⟨returned, 0, []⟩)

/-- The flag is queried, and everything goes well. -/
def queriedMoves : List CallerMove := [answers 0, answers 7, answers 0, answers 0, answers 0, answers 0]

theorem flags_restored_sample :
    ((answers 1 :: queriedMoves).foldl Caller.apply dumpableEntry).flags = dumpableEntry.flags :=
  (flags_restored_iff rfl (by decide +kernel)
    (show ((answers 1 :: queriedMoves).foldl Caller.apply dumpableEntry).pc = .munmap (.ok 0) by decide +kernel)).mpr
    (.inl ⟨_, rfl⟩)

/-- The query is refused, the flag set, and everything goes well from then on. -/
def refusedMoves : List CallerMove := (⟨-1, 0⟩, .error .eperm) :: answers 0 :: queriedMoves

/-- After a query that was refused, a dumpable process is left not dumpable, although
the call succeeds and every restoring call does. -/
theorem flags_lost_unqueried :
    throughout Caller.apply admits dumpableEntry refusedMoves = true ∧
      (refusedMoves.foldl Caller.apply dumpableEntry).pc = .munmap (.ok 0) ∧
      (refusedMoves.foldl Caller.apply dumpableEntry).flags ≠ dumpableEntry.flags :=
  ⟨by decide +kernel, by decide +kernel, by decide +kernel⟩

end Caller

end Corus.Threads
