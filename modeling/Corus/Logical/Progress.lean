import Mathlib.Order.Filter.AtTopBot.Basic
import Corus.Logical.Transition

/-!
# Progress of a run

An unending run of a machine with computed steps, and two rules by which a goal is
reached on it: an effort that every step lowers unless it is held up, and a count
that keeps growing. That something happens again and again is Mathlib's `∃ᶠ`.
-/

namespace Corus.Logical

open Filter

section Run

variable {State Event : Type}

/-- The states of a run, one event for each step. -/
def runAt (step : State → Event → State) (start : State) (events : Nat → Event) : Nat → State
  | 0 => start
  | time + 1 => step (runAt step start events time) (events time)

/-- A state of a run is what the events before it lead to. -/
theorem runAt_eq_foldl (step : State → Event → State) (start : State) (events : Nat → Event) (time : Nat) :
    runAt step start events time = ((List.range time).map events).foldl step start := by
  induction time with
  | zero => rfl
  | succ time ih => rw [runAt, ih, List.range_succ, List.map_append, List.foldl_append, List.map_singleton,
      List.foldl_cons, List.foldl_nil]

/-- The states of a run from an initial state are reachable. -/
theorem reachable_runAt {initial : State → Prop} {step : State → Event → State} {start : State}
    (isInitial : initial start) (events : Nat → Event) (time : Nat) :
    (TransitionSystem.ofFunction initial step).Reachable (runAt step start events time) := by
  rw [runAt_eq_foldl]
  exact ⟨start, _, isInitial, TransitionSystem.steps_foldl ..⟩

end Run

/-- A goal is reached if each step before it lowers an effort, apart from steps that
are held up, which do not raise it and do not go on for ever. -/
theorem reaches_of_effort {goal heldUp : Nat → Prop} {effort : Nat → Nat}
    (released : ∃ᶠ time in atTop, ¬ heldUp time)
    (works : ∀ time, ¬ goal time → ¬ heldUp time → goal (time + 1) ∨ effort (time + 1) < effort time)
    (waits : ∀ time, ¬ goal time → goal (time + 1) ∨ effort (time + 1) ≤ effort time) (time : Nat) :
    ∃ later, time ≤ later ∧ goal later := by
  induction bound : effort time using Nat.strongRecOn generalizing time with
  | _ amount ih =>
    by_contra never
    have missed : ∀ later, time ≤ later → ¬ goal later := fun later after reached => never ⟨later, after, reached⟩
    have sinks : ∀ delay, effort (time + delay) ≤ effort time := by
      intro delay
      induction delay with
      | zero => exact Nat.le_refl _
      | succ delay lower =>
          rcases waits (time + delay) (missed _ (Nat.le_add_right ..)) with reached | below
          · exact absurd reached (missed _ (by omega))
          · exact Nat.le_trans below lower
    obtain ⟨later, after, free⟩ := frequently_atTop.mp released time
    rcases works later (missed later after) free with reached | below
    · exact missed _ (by omega) reached
    · have start := sinks (later - time)
      rw [Nat.add_sub_cancel' after] at start
      obtain ⟨finish, beyond, reached⟩ := ih (effort (later + 1)) (by omega) (later + 1) rfl
      exact missed finish (by omega) reached

/-- A count that never falls and grows again and again passes every bound. -/
theorem exceeds_of_grows {count : Nat → Nat} (kept : ∀ time, count time ≤ count (time + 1))
    (grows : ∃ᶠ time in atTop, count time < count (time + 1)) (bound : Nat) : ∃ time, bound ≤ count time := by
  induction bound with
  | zero => exact ⟨0, Nat.zero_le _⟩
  | succ bound ih =>
      obtain ⟨time, reached⟩ := ih
      obtain ⟨later, after, grown⟩ := frequently_atTop.mp grows time
      have between : count time ≤ count later := monotone_nat_of_le_succ kept after
      exact ⟨later + 1, by omega⟩

end Corus.Logical
