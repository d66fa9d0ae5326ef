import Corus.Logical.Action

/-!
# Two runs in lockstep until one gives up

The same computation is run on two states. The runs stay in step, or the second
one fails for good, from which point on only the first one goes on. `Follows`
is closed under the ways in which actions are put together.
-/

namespace Corus.Logical

/-- How two states are related while both runs go on and after the second one
gave up; `later` orders the states of the first run. -/
structure Lockstep (Full Cut : Type) where
  sync : Full → Cut → Prop
  stopped : Full → Cut → Prop
  later : Full → Full → Prop
  refl : ∀ state, later state state
  trans : ∀ {first second third}, later first second → later second third → later first third
  stays : ∀ {state next cut}, stopped state cut → later state next → stopped next cut

/-- The second action does what the first one does, unless it gives up. -/
structure Follows {Full Cut Error Result : Type} (pair : Lockstep Full Cut)
    (full : Action Full Error Result) (cut : Action Cut Error Result) : Prop where
  grows : ∀ state, pair.later state (full state).2
  tracks : ∀ state other, pair.sync state other →
    ((cut other).1 = (full state).1 ∧ pair.sync (full state).2 (cut other).2) ∨
    ((∃ failure, (cut other).1 = .error failure) ∧ pair.stopped (full state).2 (cut other).2)

namespace Follows

variable {Full Cut Error Failure Result Other Item : Type} {pair : Lockstep Full Cut}

/-- To return a result is no step. -/
theorem pure (result : Result) :
    Follows pair (Pure.pure result : Action Full Error Result) (Pure.pure result) where
  grows := pair.refl
  tracks _ _ sync := .inl ⟨rfl, sync⟩

/-- Two runs in step go on in step; where the cut one fails for good, the rest of the full one
only adds to it. -/
theorem bind {first : Action Full Error Result} {firstCut : Action Cut Error Result}
    {next : Result → Action Full Error Other} {nextCut : Result → Action Cut Error Other}
    (head : Follows pair first firstCut) (tail : ∀ result, Follows pair (next result) (nextCut result)) :
    Follows pair (first >>= next) (firstCut >>= nextCut) where
  grows state := by
    have grown := head.grows state
    cases ran : first state with
    | mk outcome middle =>
      rw [ran] at grown
      cases outcome with
      | ok result =>
          rw [Action.bind_of_ok ran]
          exact pair.trans grown ((tail result).grows middle)
      | error failure =>
          rw [Action.bind_of_error ran]
          exact grown
  tracks state other sync := by
    have step := head.tracks state other sync
    cases ran : first state with
    | mk outcome middle =>
      cases ranCut : firstCut other with
      | mk outcomeCut middleCut =>
        rw [ran, ranCut] at step
        rcases step with ⟨same, synced⟩ | ⟨⟨failure, failed⟩, gaveUp⟩
        · simp only at same
          subst same
          cases outcomeCut with
          | ok result =>
              rw [Action.bind_of_ok ran, Action.bind_of_ok ranCut]
              exact (tail result).tracks middle middleCut synced
          | error failure =>
              rw [Action.bind_of_error ran, Action.bind_of_error ranCut]
              exact .inl ⟨rfl, synced⟩
        · simp only at failed
          subst failed
          rw [Action.bind_of_error ranCut]
          refine .inr ⟨⟨failure, rfl⟩, ?_⟩
          -- The first run may still go on; what was cut off stays cut off.
          cases outcome with
          | ok result =>
              rw [Action.bind_of_ok ran]
              exact pair.stays gaveUp ((tail result).grows middle)
          | error _ =>
              rw [Action.bind_of_error ran]
              exact gaveUp

/-- Another name for an error changes no step. -/
theorem mapError {first : Action Full Error Result} {firstCut : Action Cut Error Result}
    {rename : Error → Failure} (follows : Follows pair first firstCut) :
    Follows pair (first.mapError rename) (firstCut.mapError rename) := by
  have failed : ∀ {State : Type} (action : Action State Error Result) (state : State) {failure : Error},
      (action state).1 = .error failure → (action.mapError rename state).1 = .error (rename failure) := by
    intro State action state failure failed
    unfold Action.mapError
    split <;> rename_i ran <;> rw [ran] at failed <;> cases failed
    rfl
  constructor
  · intro state
    rw [Action.mapError_state]
    exact follows.grows state
  · intro state other sync
    rw [Action.mapError_state, Action.mapError_state]
    rcases follows.tracks state other sync with ⟨same, synced⟩ | ⟨⟨failure, gaveUp⟩, stays⟩
    · refine .inl ⟨?_, synced⟩
      cases ran : first state with
      | mk outcome middle =>
        cases ranCut : firstCut other with
        | mk outcomeCut middleCut =>
          rw [ran, ranCut] at same
          simp only at same
          subst same
          simp only [Action.mapError, ran, ranCut]
          cases outcomeCut <;> rfl
    · exact .inr ⟨⟨_, failed firstCut other gaveUp⟩, stays⟩

/-- A loop whose rounds are in step is in step. -/
theorem forEach {items : List Item} {body : Item → Action Full Error Unit}
    {bodyCut : Item → Action Cut Error Unit} (each : ∀ item, Follows pair (body item) (bodyCut item)) :
    Follows pair (Action.forEach items body) (Action.forEach items bodyCut) := by
  induction items with
  | nil => exact Follows.pure ()
  | cons item rest ih => exact Follows.bind (each item) fun _ => ih

theorem forSome {item : Option Item} {body : Item → Action Full Error Unit}
    {bodyCut : Item → Action Cut Error Unit} (each : ∀ value, Follows pair (body value) (bodyCut value)) :
    Follows pair (Action.forSome item body) (Action.forSome item bodyCut) := by
  cases item with
  | none => exact Follows.pure ()
  | some value => exact each value

theorem onlyIf {condition : Bool} {action : Action Full Error Unit} {actionCut : Action Cut Error Unit}
    (follows : Follows pair action actionCut) :
    Follows pair (Action.onlyIf condition action) (Action.onlyIf condition actionCut) := by
  cases condition with
  | false => exact Follows.pure ()
  | true => exact follows

end Follows

end Corus.Logical
