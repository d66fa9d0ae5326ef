import Corus.Logical.Bytes

/-!
# Fallible actions over an explicit state

An `Action` always reports the state it reached, also when it fails, so that
what a failed computation already did stays visible. `Emits` describes actions
that append known bytes to an observed output and leave the rest of the state
alone; its rules follow the ways in which actions are put together.
-/

namespace Corus.Logical

/-- A computation that updates a state and then returns or fails. -/
def Action (State Error Result : Type) : Type := State → Except Error Result × State

namespace Action

variable {State Error Failure Result Other Item : Type}

protected def pure (result : Result) : Action State Error Result := fun state =>
  (.ok result, state)

protected def bind (first : Action State Error Result)
    (next : Result → Action State Error Other) : Action State Error Other := fun state =>
  match first state with
  | (.ok result, after) => next result after
  | (.error failure, after) => (.error failure, after)

instance : Monad (Action State Error) where
  pure := Action.pure
  bind := Action.bind

/-- Rename the failures of an action. -/
def mapError (rename : Error → Failure) (action : Action State Error Result) :
    Action State Failure Result := fun state =>
  match action state with
  | (.ok result, after) => (.ok result, after)
  | (.error failure, after) => (.error (rename failure), after)

/-- Run the body on every item in order, stopping at the first failure. -/
def forEach : List Item → (Item → Action State Error Unit) → Action State Error Unit
  | [], _ => Action.pure ()
  | item :: rest, body => Action.bind (body item) fun _ => forEach rest body

/-- Run the body on an optional item. -/
def forSome : Option Item → (Item → Action State Error Unit) → Action State Error Unit
  | none, _ => Action.pure ()
  | some item, body => body item

/-- Run the action only under a condition. -/
def onlyIf (condition : Bool) (action : Action State Error Unit) : Action State Error Unit :=
  if condition then action else Action.pure ()

theorem bind_of_ok {first : Action State Error Result}
    {next : Result → Action State Error Other} {state after : State} {result : Result}
    (ran : first state = (.ok result, after)) : (first >>= next) state = next result after := by
  change Action.bind first next state = _
  rw [Action.bind, ran]

theorem bind_of_error {first : Action State Error Result}
    {next : Result → Action State Error Other} {state after : State} {failure : Error}
    (ran : first state = (.error failure, after)) :
    (first >>= next) state = (.error failure, after) := by
  change Action.bind first next state = _
  rw [Action.bind, ran]

/-- A sequence returns only if its first part returned and the rest returned from there. -/
theorem bind_eq_ok {first : Action State Error Result}
    {next : Result → Action State Error Other} {state final : State} {output : Other}
    (ran : (first >>= next) state = (.ok output, final)) :
    ∃ result middle, first state = (.ok result, middle) ∧ next result middle = (.ok output, final) := by
  cases step : first state with
  | mk outcome middle =>
    cases outcome with
    | ok result => exact ⟨result, middle, rfl, by rwa [bind_of_ok step] at ran⟩
    | error failure => rw [bind_of_error step] at ran; cases ran

theorem mapError_of_ok {rename : Error → Failure} {action : Action State Error Result}
    {state after : State} {result : Result} (ran : action state = (.ok result, after)) :
    action.mapError rename state = (.ok result, after) := by
  rw [mapError, ran]

theorem mapError_of_error {rename : Error → Failure} {action : Action State Error Result}
    {state after : State} {failure : Error} (ran : action state = (.error failure, after)) :
    action.mapError rename state = (.error (rename failure), after) := by
  rw [mapError, ran]

/-- Renaming failures does not change the state that is reached. -/
theorem mapError_state (rename : Error → Failure) (action : Action State Error Result) (state : State) :
    (action.mapError rename state).2 = (action state).2 := by
  unfold mapError
  split <;> rename_i ran <;> rw [ran]

/-- Renaming failures does not change which runs return. -/
theorem mapError_eq_ok {rename : Error → Failure} {action : Action State Error Result}
    {state after : State} {result : Result}
    (ran : action.mapError rename state = (.ok result, after)) :
    action state = (.ok result, after) := by
  unfold mapError at ran
  split at ran
  · rename_i step
    cases ran
    exact step
  · cases ran

end Action

/-- What an action's effect is measured by: the output it produced so far, the
part of the state that output does not touch, and the states in which the output
accepts everything it is given. -/
structure Observation (State Rest : Type) where
  emitted : State → Bytes
  rest : State → Rest
  accepting : State → Prop

/-- The action returns, appends exactly `bytes` to the output and changes nothing else. -/
def Emits {State Rest Error : Type} (observation : Observation State Rest)
    (action : Action State Error Unit) (bytes : Bytes) : Prop :=
  ∀ state, observation.accepting state → ∃ after, action state = (.ok (), after) ∧
    observation.emitted after = observation.emitted state ++ bytes ∧
    observation.rest after = observation.rest state ∧ observation.accepting after

namespace Emits

variable {State Rest Error Failure Item : Type} {observation : Observation State Rest}

theorem pure : Emits observation (Pure.pure () : Action State Error Unit) [] := by
  intro state ready
  exact ⟨state, rfl, by simp, rfl, ready⟩

/-- Sequencing concatenates the emitted bytes. -/
theorem bind {first next : Action State Error Unit} {firstBytes nextBytes : Bytes}
    (head : Emits observation first firstBytes) (tail : Emits observation next nextBytes) :
    Emits observation (first >>= fun _ => next) (firstBytes ++ nextBytes) := by
  intro state ready
  obtain ⟨middle, firstRan, firstEmitted, firstRest, middleReady⟩ := head state ready
  obtain ⟨after, nextRan, nextEmitted, nextRest, afterReady⟩ := tail middle middleReady
  refine ⟨after, ?_, ?_, nextRest.trans firstRest, afterReady⟩
  · rw [Action.bind_of_ok firstRan, nextRan]
  · rw [nextEmitted, firstEmitted, List.append_assoc]

theorem mapError {action : Action State Error Unit} {bytes : Bytes} {rename : Error → Failure}
    (emits : Emits observation action bytes) : Emits observation (action.mapError rename) bytes := by
  intro state ready
  obtain ⟨after, ran, effect⟩ := emits state ready
  exact ⟨after, Action.mapError_of_ok ran, effect⟩

theorem forSome {item : Option Item} {body : Item → Action State Error Unit}
    {bytes : Item → Bytes} (each : ∀ value, Emits observation (body value) (bytes value)) :
    Emits observation (Action.forSome item body) (item.toList.flatMap bytes) := by
  cases item with
  | none => exact Emits.pure
  | some value => simpa [Action.forSome] using each value

theorem onlyIf {condition : Bool} {action : Action State Error Unit} {bytes : Bytes}
    (emits : Emits observation action bytes) :
    Emits observation (Action.onlyIf condition action) (if condition then bytes else []) := by
  cases condition with
  | false => exact Emits.pure
  | true => exact emits

/-- A loop emits the concatenation of what its body emits for each item. -/
theorem forEach {items : List Item} {body : Item → Action State Error Unit}
    {bytes : Item → Bytes} (each : ∀ item ∈ items, Emits observation (body item) (bytes item)) :
    Emits observation (Action.forEach items body) (items.flatMap bytes) := by
  induction items with
  | nil => exact Emits.pure
  | cons item rest ih =>
      exact Emits.bind (each item List.mem_cons_self)
        (ih fun other member => each other (List.mem_cons_of_mem _ member))

/-- A loop that skips some items emits the concatenation over the others. -/
theorem forEach_onlyIf (items : List Item) (keep : Item → Bool)
    {body : Item → Action State Error Unit} {bytes : Item → Bytes}
    (each : ∀ item ∈ items, Emits observation (body item) (bytes item)) :
    Emits observation (Action.forEach items fun item => Action.onlyIf (keep item) (body item))
      ((items.filter keep).flatMap bytes) := by
  have kept : (items.flatMap fun item => if keep item then bytes item else []) =
      (items.filter keep).flatMap bytes := by
    induction items with
    | nil => rfl
    | cons item rest ih =>
        have tail := ih fun other member => each other (List.mem_cons_of_mem _ member)
        cases kept : keep item <;> simp [kept, tail]
  rw [← kept]
  exact Emits.forEach fun item member => Emits.onlyIf (each item member)

end Emits

end Corus.Logical
