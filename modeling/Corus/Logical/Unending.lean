import Corus.Logical.Progress

/-!
# Unending executions

An execution of a transition system that never stops, and how properties are carried
along it: what every step keeps, what is kept until a move of some kind, and what a
growing position gets past.
-/

namespace Corus.Logical

open Filter

variable {State Event : Type}

/-- One step after the other, for ever. -/
structure Unending (system : TransitionSystem State Event) where
  states : Nat → State
  events : Nat → Event
  initial : system.Initial (states 0)
  steps : ∀ time, system.Step (states time) (events time) (states (time + 1))

namespace Unending

variable {system : TransitionSystem State Event} (run : Unending system)

theorem reachable (time : Nat) : system.Reachable (run.states time) := by
  induction time with
  | zero => exact ⟨_, [], run.initial, .refl⟩
  | succ time ih => exact ih.step (run.steps time)

/-- What every step keeps holds from then on. -/
theorem keeps {Property : State → Prop}
    (kept : ∀ time, Property (run.states time) → Property (run.states (time + 1))) {time later : Nat}
    (after : time ≤ later) (holds : Property (run.states time)) : Property (run.states later) := by
  induction after with
  | refl => exact holds
  | step _ ih => exact kept _ ih

/-- What all other steps keep is met by a kind of move that is made again and again. -/
theorem meets {Move : Nat → Prop} {Property : State → Prop} (again : ∃ᶠ time in atTop, Move time)
    (kept : ∀ time, ¬ Move time → Property (run.states time) → Property (run.states (time + 1))) {time : Nat}
    (holds : Property (run.states time)) : ∃ later, time ≤ later ∧ Move later ∧ Property (run.states later) := by
  obtain ⟨bound, after, moves⟩ := frequently_atTop.mp again time
  induction distance : bound - time generalizing time with
  | zero =>
      have same : bound = time := by omega
      exact ⟨time, Nat.le_refl _, same ▸ moves, holds⟩
  | succ distance ih =>
      by_cases now : Move time
      · exact ⟨time, Nat.le_refl _, now, holds⟩
      · obtain ⟨later, beyond, found⟩ := ih (kept time now holds) (by omega) (by omega)
        exact ⟨later, by omega, found⟩

end Unending

end Corus.Logical
