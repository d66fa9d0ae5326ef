/-!
# Transition systems

Labelled steps between states, the executions they form, and the rules by which
a property of single steps becomes a property of whole executions.
-/

namespace Corus.Logical

/-- Initial states and labelled steps. -/
structure TransitionSystem (State Event : Type) where
  Initial : State → Prop
  Step : State → Event → State → Prop

namespace TransitionSystem

variable {State Event : Type}

/-- A system whose steps are computed from the event. -/
def ofFunction (initial : State → Prop) (step : State → Event → State) :
    TransitionSystem State Event where
  Initial := initial
  Step state event next := next = step state event

/-- Zero or more steps. -/
inductive Steps (system : TransitionSystem State Event) : State → List Event → State → Prop where
  | refl {state} : Steps system state [] state
  | step {state events current event next} (prior : Steps system state events current)
      (transition : system.Step current event next) : Steps system state (events ++ [event]) next

/-- Some execution leads to the state. -/
def Reachable (system : TransitionSystem State Event) (state : State) : Prop :=
  ∃ initial events, system.Initial initial ∧ system.Steps initial events state

variable {system : TransitionSystem State Event}

/-- Executions that meet in a state compose. -/
theorem Steps.trans {first middle last : State} {before after : List Event}
    (prior : system.Steps first before middle) (suffix : system.Steps middle after last) :
    system.Steps first (before ++ after) last := by
  induction suffix with
  | refl => simpa using prior
  | step _ transition ih => simpa [List.append_assoc] using Steps.step ih transition

theorem Steps.single {state next : State} {event : Event} (transition : system.Step state event next) :
    system.Steps state [event] next :=
  .step .refl transition

theorem Reachable.trans {state later : State} {events : List Event} (reached : system.Reachable state)
    (suffix : system.Steps state events later) : system.Reachable later := by
  obtain ⟨initial, before, start, steps⟩ := reached
  exact ⟨initial, before ++ events, start, steps.trans suffix⟩

theorem Reachable.step {state next : State} {event : Event} (reached : system.Reachable state)
    (transition : system.Step state event next) : system.Reachable next :=
  reached.trans (.single transition)

/-- A property of the initial states that steps between reachable states keep
holds in every reachable state. -/
theorem Reachable.invariant {Invariant : State → Prop}
    (start : ∀ state, system.Initial state → Invariant state)
    (keep : ∀ state event next, system.Reachable state → Invariant state →
      system.Step state event next → Invariant next)
    {state : State} (reached : system.Reachable state) : Invariant state := by
  obtain ⟨initial, events, isInitial, steps⟩ := reached
  induction steps with
  | refl => exact start _ isInitial
  | step prior transition ih =>
      exact keep _ _ _ ⟨initial, _, isInitial, prior⟩ ih transition

/-- Computed steps can be run. -/
theorem steps_foldl (initial : State → Prop) (step : State → Event → State) (state : State)
    (events : List Event) : (ofFunction initial step).Steps state events (events.foldl step state) := by
  induction events generalizing state with
  | nil => exact .refl
  | cons event rest ih => exact (Steps.single rfl).trans (ih (step state event))

end TransitionSystem

/-! ## Schedules -/

section Schedules

variable {State Move : Type}

/-- Whether every move of a schedule has a property, in the state in which it is made. -/
def throughout (apply : State → Move → State) (property : State → Move → Bool) : State → List Move → Bool
  | _, [] => true
  | state, move :: rest => property state move && throughout apply property (apply state move) rest

theorem throughout_append (apply : State → Move → State) (property : State → Move → Bool) (state : State)
    (first second : List Move) : throughout apply property state (first ++ second) =
      (throughout apply property state first && throughout apply property (first.foldl apply state) second) := by
  induction first generalizing state with
  | nil => rfl
  | cons move rest ih => simp only [List.cons_append, throughout, List.foldl_cons, ih, Bool.and_assoc]

/-- What moves with a property keep holds after a schedule of such moves. -/
theorem foldl_keep {apply : State → Move → State} {property : State → Move → Bool} {Invariant : State → Prop}
    (keep : ∀ state move, Invariant state → property state move = true → Invariant (apply state move)) {state : State}
    {moves : List Move} (holds : Invariant state) (always : throughout apply property state moves = true) :
    Invariant (moves.foldl apply state) := by
  induction moves generalizing state with
  | nil => exact holds
  | cons move rest ih =>
      simp only [throughout, Bool.and_eq_true] at always
      exact ih (keep state move holds always.1) always.2

end Schedules

end Corus.Logical
