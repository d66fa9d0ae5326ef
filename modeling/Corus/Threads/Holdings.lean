import Corus.Threads.Suspension
import Mathlib.Logic.Function.Basic

/-!
# The descriptors of the lister

The lister shares the descriptor table with the process, whose threads open and close
descriptors of their own until they are suspended. What the lister opens it closes on
every way to its exit, before the callback runs, and it never closes what it does not hold.
-/

namespace Corus.Threads

open Corus.Logical Corus.Platform

/-! ## What is open where -/

/-- Which of its two descriptors the lister holds. -/
inductive Holdings where
  | nothing
  | marker
  /-- The marker socket and the task directory. -/
  | both
deriving DecidableEq, Repr

/-- What is open at a position. -/
def Pc.holdings {Local : Type} : Pc Local → Holdings
  | .setCloexec | .statMarker | .closeUnused _ | .storePids | .storeCount | .installHandlers | .openTask
  | .closeMarker _ => .marker
  | .rewind | .getdents | .walk | .statThread _ | .attach _ | .waitStop _ | .peekFirst _ | .peekSecond _
  | .drop _ | .record _ | .publish _ | .closeProc _ => .both
  | _ => .nothing

namespace Lister

variable {callback : Callback} (lister : Lister callback)

/-- What is open after a step: only four calls change it. -/
def holdsAfter (reply : Reply) : Holdings :=
  match lister.pc with
  | .socket => if reply.isOk then .marker else .nothing
  | .openTask => if reply.isOk then .both else .marker
  | .closeProc _ => .marker
  | .closeUnused _ | .closeMarker _ => .nothing
  | pc => pc.holdings

theorem holdings_advance : lister.advance.pc.holdings = .both := by
  obtain ⟨entries, skipped, equal⟩ := lister.advance_eq
  rw [equal]
  rfl

/-- Where the lister rests, what is open stays. -/
theorem holdsAfter_rests {reply : Reply} (rests : lister.pc.Rests reply) :
    lister.holdsAfter reply = lister.pc.holdings := by
  cases pc : lister.pc <;> rw [pc] at rests
  case openTask =>
    cases rests
    simp only [holdsAfter, pc]
    rfl
  case getdents | waitStop | reap | finished | dead => simp only [holdsAfter, pc]
  all_goals cases rests

theorem holdings_step (reply : Reply) : (lister.step reply).pc.holdings = lister.holdsAfter reply := by
  have moves := lister.step_moves reply
  generalize lister.step reply = after at moves
  cases moves with
  | rests rests => exact (lister.holdsAfter_rests rests).symm
  | turns here turn =>
      cases turn with
      | mismatch mismatches => cases mismatches <;> simp only [holdsAfter, here] <;> rfl
      | _ =>
          simp only [holdsAfter, here]
          rfl
  | failsEarly here fails =>
      cases fails with
      | socket failed =>
          simp only [holdsAfter, here, failed]
          rfl
      | _ =>
          simp only [holdsAfter, here]
          rfl
  | passes here passed =>
      rw [holdings_advance]
      cases passed <;> simp only [holdsAfter, here] <;> rfl
  | advances here | drops here | publishes here =>
      rw [holdings_advance]
      simp only [holdsAfter, here]
      rfl
  | runs here ran =>
      rename_i progress shared
      simp only [holdsAfter, here]
      cases progress <;> rfl
  | takesChild here =>
      simp only [holdsAfter, here]
      split <;> rfl
  | _ here =>
      simp only [holdsAfter, here]
      rfl

end Lister

/-! ## The shared table -/

/-- Who opened a descriptor. -/
inductive Holder where
  | lister
  | process
deriving DecidableEq, Repr

/-- The lister with its local variables `marker` and `proc`, and the descriptors that are
open in the process. -/
structure Holding (callback : Callback) where
  lister : Lister callback
  marker : Int32
  proc : Int32
  table : Int32 → Option Holder

/-- What happens next: an answer to the lister, or a thread of the process opens or closes
a descriptor of its own. -/
inductive HoldingEvent where
  | lister (reply : Reply)
  | opens (fd : Int32)
  | closes (fd : Int32)

namespace Holding

variable {callback : Callback}

/-- A step of the lister. A close frees the number, whatever it answers. -/
def listerStep (state : Holding callback) (reply : Reply) : Holding callback :=
  let next := state.lister.step reply
  match state.lister.pc, reply with
  | .socket, .ok answer =>
      { state with
        lister := next
        marker := cInt answer.returned
        table := Function.update state.table (cInt answer.returned) (some .lister) }
  | .openTask, .ok answer =>
      { state with
        lister := next
        proc := cInt answer.returned
        table := Function.update state.table (cInt answer.returned) (some .lister) }
  | .closeProc _, _ => { state with lister := next, table := Function.update state.table state.proc none }
  | .closeUnused _, _ | .closeMarker _, _ =>
      { state with lister := next, table := Function.update state.table state.marker none }
  | _, _ => { state with lister := next }

/-- The kernel's side of a step of the lister: a new descriptor gets a free number. -/
def Answer (state : Holding callback) (reply : Reply) : Prop :=
  ∀ answer, state.lister.pc = .socket ∨ state.lister.pc = .openTask → reply = .ok answer →
    state.table (cInt answer.returned) = none

/-- One step. -/
inductive Step : Holding callback → HoldingEvent → Holding callback → Prop where
  | lister {state : Holding callback} {reply : Reply} (answered : state.Answer reply) :
      Step state (.lister reply) (state.listerStep reply)
  | opens {state : Holding callback} {fd : Int32} (free : state.table fd = none) :
      Step state (.opens fd) { state with table := Function.update state.table fd (some .process) }
  | closes {state : Holding callback} {fd : Int32} (own : state.table fd = some .process) :
      Step state (.closes fd) { state with table := Function.update state.table fd none }

/-- A new lister, which holds nothing. -/
structure Initial (state : Holding callback) : Prop where
  lister : state.lister.Initial
  nothing : ∀ fd, state.table fd ≠ some .lister

def system (callback : Callback) : TransitionSystem (Holding callback) HoldingEvent where
  Initial := Initial
  Step := Step

/-- The descriptors that the lister holds are those of its position. -/
def Sound (state : Holding callback) : Prop :=
  match state.lister.pc.holdings with
  | .nothing => ∀ fd, state.table fd ≠ some .lister
  | .marker => ∀ fd, state.table fd = some .lister ↔ fd = state.marker
  | .both => (∀ fd, state.table fd = some .lister ↔ fd = state.marker ∨ fd = state.proc) ∧
      state.marker ≠ state.proc

/-- The numbers of the lister do not change by what others do. -/
theorem Sound.of_same {state next : Holding callback} (sound : state.Sound) (lister : next.lister = state.lister)
    (marker : next.marker = state.marker) (proc : next.proc = state.proc)
    (table : ∀ fd, next.table fd = some .lister ↔ state.table fd = some .lister) : next.Sound := by
  rw [Sound] at sound ⊢
  simpa only [lister, marker, proc, ne_eq, table] using sound

theorem listerStep_lister (state : Holding callback) (reply : Reply) :
    (state.listerStep reply).lister = state.lister.step reply := by
  unfold listerStep
  simp only
  split <;> rfl

/-- The steps of the lister keep to what its position says. -/
theorem Sound.listerStep {state : Holding callback} (sound : state.Sound) {reply : Reply}
    (answered : state.Answer reply) : (state.listerStep reply).Sound := by
  have after := state.lister.holdings_step reply
  rw [Sound] at sound
  rw [Sound, listerStep_lister, after]
  cases pc : state.lister.pc <;> simp only [pc, Pc.holdings] at sound <;>
    simp only [Lister.holdsAfter, Holding.listerStep, pc]
  case socket =>
    cases reply with
    | ok answer =>
        intro fd
        simp only [Function.update_apply]
        split
        · rename_i same
          simp [same]
        · rename_i other
          simp [other, sound fd]
    | error errno => exact sound
  case openTask =>
    cases reply with
    | ok answer =>
        have free := answered answer (.inr pc) rfl
        have other : state.marker ≠ cInt answer.returned := by
          intro same
          rw [← same, (sound state.marker).mpr rfl] at free
          cases free
        refine ⟨fun fd => ?_, other⟩
        simp only [Function.update_apply]
        split
        · rename_i same
          simp [same]
        · rename_i apart
          simp [apart, sound fd]
    | error errno => exact sound
  case closeProc failure =>
    obtain ⟨held, other⟩ := sound
    intro fd
    simp only [Function.update_apply]
    split
    · rename_i same
      simp [same, other.symm]
    · rename_i apart
      simp [apart, held fd]
  case closeUnused errno | closeMarker failure =>
    intro fd
    simp only [Function.update_apply]
    split
    · nofun
    · rename_i apart
      simp [apart, sound fd]
  all_goals exact sound

theorem Sound.of_reachable {state : Holding callback} (reached : (system callback).Reachable state) :
    state.Sound := by
  refine @TransitionSystem.Reachable.invariant _ _ _ Sound ?_ ?_ _ reached
  · intro state start
    rw [Sound, start.lister.pc]
    exact start.nothing
  · intro before event after _ sound step
    cases step with
    | lister answered => exact sound.listerStep answered
    | @opens fd free =>
        refine sound.of_same rfl rfl rfl fun other => ?_
        simp only [Function.update_apply]
        split
        · rename_i same
          simp [same, free]
        · rfl
    | @closes fd own =>
        refine sound.of_same rfl rfl rfl fun other => ?_
        simp only [Function.update_apply]
        split
        · rename_i same
          simp [same, own]
        · rfl

/-- What the descriptors of the lister are good for in a state. -/
structure Balanced (state : Holding callback) : Prop where
  /-- A thread is compared with the marker only while the marker is open. -/
  compares : ∀ pid, state.lister.pc = .statThread pid → state.table state.marker = some .lister
  /-- The directory is read only while it is open. -/
  reads : state.lister.pc = .getdents → state.table state.proc = some .lister
  /-- The callback does not see the descriptors of the lister. -/
  hidden : ∀ position, state.lister.pc = .callback position → ∀ fd, state.table fd ≠ some .lister
  /-- Whichever way the lister returns, nothing of it stays open. -/
  closed : ∀ code, state.lister.pc = .finished code → ∀ fd, state.table fd ≠ some .lister
  /-- A step of the lister leaves the descriptors of the process alone. -/
  spared : ∀ reply, state.Answer reply → ∀ fd, state.table fd = some .process →
    (state.listerStep reply).table fd = some .process

/-- In every reachable state the descriptors of the lister are balanced: whatever the calls
answer, whatever the process opens in between, and whichever of its own descriptors it
closes. Numbers that it did not open it leaves alone. -/
theorem descriptors_balanced {state : Holding callback} (reached : (system callback).Reachable state) :
    state.Balanced := by
  have sound := Sound.of_reachable reached
  rw [Sound] at sound
  constructor
  · intro pid pc
    rw [pc] at sound
    exact (sound.1 _).mpr (.inl rfl)
  · intro pc
    rw [pc] at sound
    exact (sound.1 _).mpr (.inr rfl)
  · intro position pc
    rw [pc] at sound
    exact sound
  · intro code pc
    rw [pc] at sound
    exact sound
  · intro reply answered fd own
    have apart : ∀ number, state.table number ≠ some .process → fd ≠ number := by
      rintro number other rfl
      exact other own
    cases pc : state.lister.pc <;> simp only [pc, Pc.holdings] at sound <;>
      simp only [Holding.listerStep, pc]
    case socket | openTask =>
      cases reply with
      | ok answer =>
          have free := answered answer (by simp [pc]) rfl
          exact (Function.update_of_ne (apart _ (by simp [free])) _ _).trans own
      | error errno => exact own
    case closeProc failure =>
      exact (Function.update_of_ne (apart _ (by simp [(sound.1 state.proc).mpr (.inr rfl)])) _ _).trans own
    case closeUnused errno | closeMarker failure =>
      exact (Function.update_of_ne (apart _ (by simp [(sound state.marker).mpr rfl])) _ _).trans own
    all_goals exact own

/-! ## A run -/

/-- The number that the reply brings is free. -/
def free (state : Holding callback) (reply : Reply) : Bool :=
  match state.lister.pc, reply with
  | .socket, .ok answer | .openTask, .ok answer => (state.table (cInt answer.returned)).isNone
  | _, _ => true

def freeRun : Holding callback → List Reply → Bool
  | _, [] => true
  | state, reply :: rest => state.free reply && freeRun (state.listerStep reply) rest

/-- Answers with free numbers are an execution. -/
theorem steps_replies {replies : List Reply} {state : Holding callback} (run : state.freeRun replies = true) :
    (system callback).Steps state (replies.map .lister) (replies.foldl listerStep state) := by
  induction replies generalizing state with
  | nil => exact .refl
  | cons reply rest ih =>
      simp only [freeRun, Bool.and_eq_true] at run
      have answered : state.Answer reply := by
        intro answer opens succeeded
        have number := run.1
        rcases opens with pc | pc
        · simpa only [free, pc, succeeded, Option.isNone_iff_eq_none] using number
        · simpa only [free, pc, succeeded, Option.isNone_iff_eq_none] using number
      exact (TransitionSystem.Steps.single (Step.lister answered)).trans (ih run.2)

/-- A new lister in a process with its standard descriptors. -/
def sampleStart : Holding Lister.returning where
  lister := Lister.newborn
  marker := 0
  proc := 0
  table fd := if 0 ≤ fd ∧ fd < 3 then some .process else none

theorem sampleStart_initial : sampleStart.Initial where
  lister := Lister.newborn_initial
  nothing fd := by
    simp only [sampleStart]
    split <;> simp

theorem descriptors_balanced_sample :
    (Lister.sampleReplies.foldl listerStep sampleStart).lister.pc = .finished 0 ∧
      (Lister.sampleReplies.foldl listerStep sampleStart).Balanced :=
  ⟨by decide +kernel, descriptors_balanced ⟨sampleStart, _, sampleStart_initial,
    steps_replies (show sampleStart.freeRun Lister.sampleReplies = true by decide +kernel)⟩⟩

end Holding

end Corus.Threads
