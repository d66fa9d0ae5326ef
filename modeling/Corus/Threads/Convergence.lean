import Corus.Logical.Progress
import Corus.Threads.Scan

/-!
# The scan comes to an end

Every pass over the task directory but the last one records a thread, and the array
has room for `MAX_THREADS` of them. So whatever the passes see, and however the
attaches end, the scan is over after at most `MAX_THREADS + 1` passes, and the list
it leaves has no repetition, no zero and not the lister itself.
-/

namespace Corus.Threads

open Filter Corus.Logical Corus.Platform

/-! ## The walk over one buffer -/

/-- `while off < n` over the records in `dirbuf`, which may say anything about their
own length. The fuel bounds the rounds; without enough of it there is no result. -/
def walkDirents (dirbuf : Nat → Dirent) (n : Nat) : Nat → Nat → Option (List Dirent)
  | 0, _ => none
  | fuel + 1, off =>
      if off < n then
        let dirent := dirbuf off
        if dirent.dReclen = 0 then some [dirent]
        else (walkDirents dirbuf n fuel (off + dirent.dReclen.toNat)).map fun rest => dirent :: rest
      else some []

/-- The walk ends after at most one round for each byte. -/
theorem walkDirents_ends (dirbuf : Nat → Dirent) (n : Nat) {fuel off : Nat} (enough : n - off < fuel) :
    ∃ entries, walkDirents dirbuf n fuel off = some entries ∧ entries.length ≤ n - off := by
  induction fuel generalizing off with
  | zero => exact absurd enough (Nat.not_lt_zero _)
  | succ fuel ih =>
      unfold walkDirents
      split
      · rename_i inside
        simp only
        split
        · exact ⟨_, rfl, by simp only [List.length_singleton]; omega⟩
        · rename_i nonzero
          have positive : 0 < (dirbuf off).dReclen.toNat := by
            apply Nat.pos_of_ne_zero
            intro zero
            exact nonzero (UInt16.toNat_inj.mp zero)
          obtain ⟨entries, ended, few⟩ := @ih (off + (dirbuf off).dReclen.toNat) (by omega)
          refine ⟨_, by rw [ended]; rfl, ?_⟩
          rw [List.length_cons]
          omega
      · exact ⟨[], rfl, Nat.zero_le _⟩

/-- The lister goes through the records of a buffer as the loop goes through its
offsets: it stops behind a record of length zero and else adds the length. -/
theorem Lister.advance_walkDirents {callback : Callback} {lister : Lister callback} {dirbuf : Nat → Dirent}
    {n fuel off : Nat} (more : off < n) (walked : walkDirents dirbuf n (fuel + 1) off = some lister.entries) :
    if (dirbuf off).dReclen = 0 then lister.advance.entries = []
    else walkDirents dirbuf n fuel (off + (dirbuf off).dReclen.toNat) = some lister.advance.entries := by
  unfold walkDirents at walked
  rw [if_pos more] at walked
  simp only at walked
  split at walked
  · rename_i last
    have entries : lister.entries = [dirbuf off] := (Option.some.inj walked).symm
    simp only [last, if_true, Lister.advance, entries]
  · rename_i further
    obtain ⟨rest, later, split⟩ := Option.map_eq_some_iff.mp walked
    simp only [further, if_false, Lister.advance, ← split, later]

/-- No record in use names thread zero. -/
theorem Dirent.thread_ne_zero {dirent : Dirent} {pid : Int32}
    (named : dirent.thread = some pid) : pid ≠ 0 := by
  unfold Dirent.thread at named
  split at named
  · cases named
  · obtain ⟨_, nonzero⟩ := Option.filter_eq_some_iff.mp named
    simpa using nonzero

/-! ## Passes -/

/-- The stages of the scan as far as its passes go. -/
inductive PassPhase where
  | setup
  /-- A pass is about to begin. -/
  | beginning
  | passing
  /-- There is room for the thread in view. -/
  | attaching
  /-- That thread is recorded and not yet counted. -/
  | counting
  /-- A pass has added nothing. -/
  | complete
  | abandoned

/-- The stage that a position of the lister belongs to. -/
def Pc.passPhase {Local : Type} : Pc Local → PassPhase
  | .gettid | .getppid | .socket | .setCloexec | .statMarker | .closeUnused _ | .storePids
  | .storeCount | .installHandlers | .openTask => .setup
  | .rewind => .beginning
  | .getdents | .walk | .statThread _ => .passing
  | .attach _ | .waitStop _ | .peekFirst _ | .peekSecond _ | .drop _ | .record _ => .attaching
  | .publish _ => .counting
  | .closeProc none | .closeMarker none | .callback _ | .storeResult _ | .storeErr => .complete
  | _ => .abandoned

/-- How far a position is from the next record, which is at most eight steps. -/
def Pc.distance {Local : Type} : Pc Local → Nat
  | .walk => 8
  | .statThread _ => 7
  | .attach _ => 6
  | .waitStop _ => 5
  | .peekFirst _ => 4
  | .peekSecond _ => 3
  | .drop _ | .record _ => 2
  | .publish _ => 1
  | _ => 0

/-- The position is in the scan loop. -/
def Pc.Scanning {Local : Type} (pc : Pc Local) : Prop :=
  match pc.passPhase with
  | .beginning | .passing | .attaching | .counting => True
  | _ => False

/-- A lister with an observer, who counts the passes begun and keeps the list as it
was when the last of them began. -/
structure Observed (callback : Callback) where
  lister : Lister callback
  passes : Nat
  before : List Int32

namespace Observed

variable {callback : Callback}

/-- One step of the lister. -/
def step (observed : Observed callback) (reply : Reply) : Observed callback :=
  match observed.lister.pc with
  | .rewind => ⟨observed.lister.step reply, observed.passes + 1, observed.lister.pids⟩
  | _ => ⟨observed.lister.step reply, observed.passes, observed.before⟩

@[simp] theorem step_lister (observed : Observed callback) (reply : Reply) :
    (observed.step reply).lister = observed.lister.step reply := by
  unfold step
  split <;> rfl

/-- The observer starts with the lister. -/
def Initial (observed : Observed callback) : Prop :=
  observed.lister.Initial ∧ observed.passes = 0 ∧ observed.before = []

/-- A run of the lister under observation. -/
def run (start : Lister callback) (replies : Nat → Reply) : Nat → Observed callback :=
  runAt step ⟨start, 0, []⟩ replies

theorem run_lister (start : Lister callback) (replies : Nat → Reply) (time : Nat) :
    (run start replies time).lister = runAt Lister.step start replies time := by
  induction time with
  | zero => rfl
  | succ time ih =>
      rw [run, runAt, runAt, step_lister, ← ih]
      rfl

end Observed

/-- Since the pass began, this many threads were recorded; every pass before it had
recorded one at least. -/
structure InPass (pids before : List Int32) (added passes : Nat) : Prop where
  kept : before <+: pids
  added : pids.length = before.length + added
  passes : passes ≤ before.length + 1

/-- What holds in a stage. -/
def PassPhase.Holds (pids before : List Int32) (added passes : Nat) : PassPhase → Prop
  | .setup => pids = [] ∧ passes = 0
  | .beginning => passes ≤ pids.length ∧ pids.length ≤ maxThreads
  | .passing => InPass pids before added passes ∧ pids.length ≤ maxThreads
  | .attaching => InPass pids before added passes ∧ pids.length < maxThreads
  | .counting => InPass pids before (added + 1) passes ∧ pids.length ≤ maxThreads
  | .complete => pids = before ∧ passes ≤ before.length + 1 ∧ pids.length ≤ maxThreads
  | .abandoned => passes ≤ maxThreads + 1 ∧ pids.length ≤ maxThreads

/-- In every stage both the list and the number of passes are bounded. -/
theorem PassPhase.Holds.bounded {phase : PassPhase} {pids before : List Int32} {added passes : Nat}
    (holds : phase.Holds pids before added passes) : passes ≤ maxThreads + 1 ∧ pids.length ≤ maxThreads := by
  cases phase with
  | setup =>
      obtain ⟨rfl, rfl⟩ := holds
      exact ⟨Nat.zero_le _, Nat.zero_le _⟩
  | beginning =>
      obtain ⟨few, room⟩ := holds
      exact ⟨by omega, room⟩
  | passing | attaching | counting =>
      obtain ⟨⟨kept, count, few⟩, room⟩ := holds
      exact ⟨by omega, by omega⟩
  | complete =>
      obtain ⟨rfl, few, room⟩ := holds
      exact ⟨by omega, room⟩
  | abandoned => exact holds

namespace Observed

variable {callback : Callback} (observed : Observed callback)

/-- The invariant of the passes. -/
def Counted : Prop :=
  observed.lister.pc.passPhase.Holds observed.lister.pids observed.before observed.lister.added observed.passes

variable {observed}

theorem Counted.initial (start : observed.Initial) : observed.Counted := by
  simp [Counted, start.1.pc, Pc.passPhase, PassPhase.Holds, start.1.pids, start.2.1]

/-- Passing on to the next record. -/
theorem Counted.advance {lister : Lister callback} {passes : Nat} {before : List Int32}
    (passing : PassPhase.passing.Holds lister.pids before lister.added passes) :
    (⟨lister.advance, passes, before⟩ : Observed callback).Counted := by
  obtain ⟨entries, skipped, equal⟩ := lister.advance_eq
  rw [Counted, equal]
  exact passing

/-- Outside the passes only the bounds are to be shown. -/
theorem Counted.of_abandoned {lister : Lister callback} {passes : Nat} {before : List Int32}
    (abandoned : lister.pc.passPhase = .abandoned)
    (bounded : passes ≤ maxThreads + 1 ∧ lister.pids.length ≤ maxThreads) :
    (⟨lister, passes, before⟩ : Observed callback).Counted := by
  rw [Counted, abandoned]
  exact bounded

/-- A step that only moves on keeps the invariant. -/
theorem Counted.turn {lister : Lister callback} {passes : Nat} {before : List Int32}
    (invariant : (⟨lister, passes, before⟩ : Observed callback).Counted) {reply : Reply} {later : Pc callback.Local}
    (turn : lister.Turn lister.pc reply later) :
    (⟨{ lister with pc := later }, passes, before⟩ : Observed callback).Counted := by
  have bounded := PassPhase.Holds.bounded invariant
  unfold Counted at invariant
  simp only at invariant bounded
  generalize lister.pc = pc at invariant turn
  cases turn with
  | openTask => exact ⟨by simp [invariant.2], bounded.2⟩
  | again last busy =>
      obtain ⟨⟨kept, count, few⟩, room⟩ := invariant
      -- The pass recorded a thread as well.
      have fewer : passes ≤ lister.pids.length := by omega
      exact ⟨fewer, room⟩
  | settled last idle =>
      obtain ⟨⟨kept, count, few⟩, room⟩ := invariant
      have same : before = lister.pids := kept.eq_of_length (by omega)
      exact ⟨same.symm, few, room⟩
  | room marked room => exact ⟨invariant.1, room⟩
  | mismatch mismatches => cases mismatches <;> exact invariant
  | @closeProc failure =>
      cases failure with
      | none => exact invariant
      | some errno => exact bounded
  | unlisted | full | giveUp | missing | reportMissing | reportDumped | reaped => exact bounded
  | _ => exact invariant

/-- A step that begins no pass keeps the invariant. -/
theorem Counted.moves {lister after : Lister callback} {passes : Nat} {before : List Int32}
    (invariant : (⟨lister, passes, before⟩ : Observed callback).Counted) {reply : Reply}
    (within : lister.pc ≠ .rewind) (moves : lister.Moves reply after) :
    (⟨after, passes, before⟩ : Observed callback).Counted := by
  have holds := invariant
  have bounded := PassPhase.Holds.bounded invariant
  unfold Counted at holds
  simp only at holds bounded
  cases moves with
  | rests => exact invariant
  | turns here turn => exact invariant.turn (here ▸ turn)
  | rewind here => exact absurd here within
  | advances here =>
      rw [here] at holds
      exact Counted.advance holds
  | @passes pid _ here passed =>
      rw [here] at holds
      apply @Counted.advance _ (lister.skip [pid])
      cases passed with
      | unmarked => exact holds
      | denied => exact ⟨holds.1, Nat.le_of_lt holds.2⟩
  | @drops pid here =>
      rw [here] at holds
      exact @Counted.advance _ ((lister.request (.detach pid)).skip [pid]) _ _ ⟨holds.1, Nat.le_of_lt holds.2⟩
  | @records pid here =>
      rw [here] at holds
      obtain ⟨⟨kept, count, few⟩, room⟩ := holds
      have longer : (lister.pids ++ [pid]).length = lister.pids.length + 1 := List.length_append
      refine ⟨⟨kept.trans (List.prefix_append ..), ?_, few⟩, ?_⟩
      · simp only [longer]
        omega
      · simp only [longer]
        omega
  | publishes here =>
      rw [here] at holds
      obtain ⟨⟨kept, count, few⟩, room⟩ := holds
      exact Counted.advance ⟨⟨kept, count, few⟩, room⟩
  | takesChild =>
      refine Counted.of_abandoned ?_ bounded
      simp only
      split <;> rfl
  | failsEarly | failsLate | storeErr | clearPids | clearCount | detaches | reapsFailure | reapFails =>
      exact Counted.of_abandoned rfl bounded
  | @runs _ progress _ here =>
      rw [here] at holds
      cases progress <;> exact holds
  | gettid here | getppid here | statMarker here | storePids here | storeCount here | installHandlers here
  | reads here | attaches here | waitFails here | storeResult here =>
      rw [here] at holds
      exact holds

/-- Every step keeps the invariant. -/
theorem Counted.step (invariant : observed.Counted) (reply : Reply) : (observed.step reply).Counted := by
  obtain ⟨lister, passes, before⟩ := observed
  unfold Observed.step
  split
  · rename_i pc
    simp only at pc
    rw [Counted, pc] at invariant
    simp only [Lister.step, pc]
    exact ⟨⟨List.prefix_rfl, rfl, Nat.succ_le_succ invariant.1⟩, invariant.2⟩
  · rename_i within
    exact invariant.moves within (lister.step_moves reply)

theorem run_reachable {start : Lister callback} (isInitial : start.Initial) (replies : Nat → Reply) (time : Nat) :
    (Lister.system callback).Reachable (run start replies time).lister := by
  rw [run_lister]
  exact reachable_runAt isInitial replies time

/-- The invariant holds along every run. -/
theorem Counted.of_run {start : Lister callback} (isInitial : start.Initial) (replies : Nat → Reply) (time : Nat) :
    (run start replies time).Counted := by
  induction time with
  | zero => exact Counted.initial ⟨isInitial, rfl, rfl⟩
  | succ time ih => exact ih.step (replies time)

/-- A pass is counted when it begins. -/
theorem passes_step (reply : Reply) : observed.passes ≤ (observed.step reply).passes ∧
    (observed.lister.pc = .rewind → observed.passes < (observed.step reply).passes) := by
  unfold step
  split
  · exact ⟨Nat.le_succ _, fun _ => Nat.lt_succ_self _⟩
  · rename_i other
    exact ⟨Nat.le_refl _, fun rewinds => absurd rewinds other⟩

end Observed

namespace Lister

variable {callback : Callback} {lister : Lister callback}

/-- The recorded threads are distinct, proper ones, other than the lister. -/
structure Clean (lister : Lister callback) : Prop where
  distinct : lister.pids.Nodup
  proper : ∀ pid ∈ lister.pids, pid ≠ 0 ∧ pid ≠ lister.cloneTid

theorem Clean.of_same {other : Lister callback} (clean : lister.Clean) (pids : other.pids = lister.pids)
    (cloneTid : other.cloneTid = lister.cloneTid) : other.Clean := by
  obtain ⟨distinct, proper⟩ := clean
  constructor
  · rw [pids]
    exact distinct
  · rw [pids, cloneTid]
    exact proper

theorem Clean.of_empty (nothing : lister.pids = []) : lister.Clean := by
  constructor
  · simp [nothing]
  · simp [nothing]

/-- Every step keeps the list clean. -/
theorem Clean.step (suspended : lister.Suspended) (scanned : lister.Scanned) (clean : lister.Clean)
    (reply : Reply) : (lister.step reply).Clean := by
  rcases lister.step_involved reply with pc | ⟨pid, pc⟩ | pc | ⟨position, pc⟩ | uninvolved
  · have nothing : lister.pids = [] := by
      rw [Suspended, pc] at suspended
      exact suspended.1
    have kept : (lister.step reply).pids = lister.pids := by
      simp only [Lister.step, pc]
      cases reply <;> rfl
    exact Clean.of_empty (kept.trans nothing)
  · rw [Scanned, pc] at scanned
    obtain ⟨_, _, ⟨dirent, rest, _, named⟩, other, unlisted⟩ := scanned
    have fresh : pid ∉ lister.pids := unlisted
    simp only [Lister.step, pc]
    constructor
    · simpa [List.nodup_append, clean.distinct] using fun known member => ne_of_mem_of_not_mem member fresh
    · intro recorded member
      rcases List.mem_append.mp member with old | new
      · exact clean.proper recorded old
      · rw [List.mem_singleton.mp new]
        exact ⟨Dirent.thread_ne_zero named, other⟩
  · simp only [Lister.step, pc]
    exact clean.of_same rfl rfl
  · simp only [Lister.step, pc]
    split <;> exact clean.of_same rfl rfl
  · exact clean.of_same uninvolved.pids uninvolved.cloneTid

theorem Clean.of_reachable (reached : (system callback).Reachable lister) : lister.Clean := by
  refine @TransitionSystem.Reachable.invariant _ _ _ Clean ?_ ?_ _ reached
  · exact fun state start => Clean.of_empty start.pids
  · rintro before reply after known clean rfl
    exact clean.step (Suspended.of_reachable known) (Scanned.of_reachable known) reply

/-! ## The end of a pass -/

/-- The steps that the records of the buffer can still take. -/
def effort (lister : Lister callback) : Nat := 9 * lister.entries.length + lister.pc.distance

/-- Passing on to the next record lowers the effort. -/
theorem effort_advance (more : lister.entries ≠ []) : lister.advance.effort < 9 * lister.entries.length := by
  unfold Lister.advance
  split
  · rename_i nothing
    exact absurd nothing more
  · rename_i dirent rest entries
    rw [entries, List.length_cons]
    split
    · simp only [effort, Pc.distance, List.length_nil]
      omega
    · simp only [effort, Pc.distance]
      omega

/-- A step between two reads of the directory leaves the scan, reads the directory
next, lowers the effort, or is an interrupted call that is made again. -/
theorem effort_step (scanned : lister.Scanned) (scanning : lister.pc.Scanning) (walking : lister.pc ≠ .getdents)
    (reply : Reply) : ¬ (lister.step reply).pc.Scanning ∨ (lister.step reply).pc = .getdents ∨
      (lister.step reply).effort < lister.effort ∨ reply = .error .eintr ∧ lister.step reply = lister := by
  have named : ∀ pid, lister.scanView.Names pid → lister.entries ≠ [] := by
    rintro pid ⟨dirent, rest, entries, _⟩ nothing
    rw [show lister.scanView.entries = _ from nothing] at entries
    cases entries
  have advances : ∀ other : Lister callback, other.entries = lister.entries → lister.entries ≠ [] →
      other.advance.effort < lister.effort := by
    intro other same more
    have lower := @effort_advance _ other (same ▸ more)
    rw [same] at lower
    unfold effort at lower ⊢
    omega
  unfold Scanned at scanned
  have moves := lister.step_moves reply
  generalize lister.step reply = after at moves
  cases moves with
  | rests rests =>
      refine .inr (.inr (.inr ⟨?_, rfl⟩))
      cases pc : lister.pc <;> rw [pc] at rests scanning walking
      case getdents => exact absurd rfl walking
      case waitStop => exact rests
      case openTask | reap | finished | dead => exact absurd scanning id
      all_goals cases rests
  | turns here turn =>
      cases turn with
      | refill => exact .inr (.inl rfl)
      | full => exact .inl id
      | view | room | stopped | peekFirst | peekSecond =>
          refine .inr (.inr (.inl ?_))
          simp only [effort, here, Pc.distance]
          omega
      | mismatch mismatches =>
          refine .inr (.inr (.inl ?_))
          cases mismatches <;> simp only [effort, here, Pc.distance] <;> omega
      | again | settled | unlisted => exact absurd here walking
      | @closeProc failure =>
          rw [here] at scanning
          cases failure <;> exact absurd scanning id
      | _ =>
          rw [here] at scanning
          exact absurd scanning id
  | rewind here => exact .inr (.inl rfl)
  | reads here => exact absurd here walking
  | advances here entries => exact .inr (.inr (.inl (advances lister rfl (by simp [entries]))))
  | passes here passed =>
      refine .inr (.inr (.inl (advances (lister.skip _) rfl ?_)))
      cases passed <;> simp only [here, Pc.scanPhase] at scanned <;> exact named _ scanned.2.2.1
  | drops here =>
      simp only [here, Pc.scanPhase] at scanned
      exact .inr (.inr (.inl (advances ((lister.request _).skip _) rfl (named _ scanned.2.2.1))))
  | publishes here =>
      simp only [here, Pc.scanPhase] at scanned
      exact .inr (.inr (.inl (advances _ rfl (named _ scanned.2.1))))
  | attaches here | waitFails here | records here =>
      refine .inr (.inr (.inl ?_))
      simp only [effort, request, waitFailed, here, Pc.distance]
      omega
  | failsEarly here fails =>
      rw [here] at scanning
      cases fails <;> exact absurd scanning id
  | @clearPids outcome here | @clearCount outcome here =>
      rw [here] at scanning
      cases outcome <;> exact absurd scanning id
  | _ here =>
      rw [here] at scanning
      exact absurd scanning id

/-- The answer says that the directory has been read to its end, or that it cannot be read. -/
def endsListing : Reply → Bool
  | .ok answer => answer.entries.isEmpty
  | .error errno => errno != .eintr

/-- With the end of the directory the pass is over. -/
theorem step_endsListing (asking : lister.pc = .getdents) {reply : Reply} (ends : endsListing reply = true) :
    (lister.step reply).pc = .rewind ∨ ¬ (lister.step reply).pc.Scanning := by
  simp only [Lister.step, asking]
  cases reply with
  | ok answer =>
      simp only [endsListing] at ends
      simp only [ends, if_true]
      split
      · exact .inr id
      · exact .inl rfl
  | error errno =>
      have other : errno ≠ .eintr := by simpa [endsListing] using ends
      simp only [other, if_false]
      exact .inr id

/-- The run meets directories that end and calls that are not interrupted for ever: a
directory that is read again and again is read to its end again and again. -/
structure FiniteListings (start : Lister callback) (replies : Nat → Reply) : Prop where
  listing : (∃ᶠ time in atTop, (runAt step start replies time).pc = .getdents) →
    ∃ᶠ time in atTop, (runAt step start replies time).pc = .getdents ∧ endsListing (replies time) = true
  interruption : ∃ᶠ time in atTop, replies time ≠ .error .eintr

end Lister

namespace Observed

variable {callback : Callback}

/-- On such a run the scan loop is left: it cannot read a directory to its end for
ever, because the next pass is counted each time. -/
theorem leaves_scan {start : Lister callback} (isInitial : start.Initial) {replies : Nat → Reply}
    (finite : Lister.FiniteListings start replies) (time : Nat) :
    ∃ later, time ≤ later ∧ ¬ (run start replies later).lister.pc.Scanning := by
  by_contra never
  have scanning : ∀ later, time ≤ later → (run start replies later).lister.pc.Scanning := by
    intro later after
    by_contra left
    exact never ⟨later, after, left⟩
  have next : ∀ moment, (run start replies (moment + 1)).lister =
      (run start replies moment).lister.step (replies moment) := fun moment => step_lister _ _
  have reads : ∃ᶠ moment in atTop, (runAt Lister.step start replies moment).pc = .getdents := by
    refine frequently_atTop.mpr fun moment => ?_
    have steps : ∀ now, ¬ ((run start replies now).lister.pc = .getdents ∨
          ¬ (run start replies now).lister.pc.Scanning) →
        ((run start replies (now + 1)).lister.pc = .getdents ∨
          ¬ (run start replies (now + 1)).lister.pc.Scanning) ∨
        (run start replies (now + 1)).lister.effort < (run start replies now).lister.effort ∨
        replies now = .error .eintr ∧
          (run start replies (now + 1)).lister = (run start replies now).lister := by
      intro now unreached
      simp only [not_or, not_not] at unreached
      obtain ⟨walking, inside⟩ := unreached
      rw [next now]
      rcases Lister.effort_step (Lister.Scanned.of_reachable (run_reachable isInitial replies now)) inside walking
        (replies now) with left | asking | lower | held
      · exact .inl (.inr left)
      · exact .inl (.inl asking)
      · exact .inr (.inl lower)
      · exact .inr (.inr held)
    obtain ⟨later, after, reached⟩ := @reaches_of_effort
      (fun now => (run start replies now).lister.pc = .getdents ∨ ¬ (run start replies now).lister.pc.Scanning)
      (fun now => replies now = .error .eintr) (fun now => (run start replies now).lister.effort)
      finite.interruption
      (by
        intro now unreached free
        rcases steps now unreached with reached | lower | ⟨held, _⟩
        · exact .inl reached
        · exact .inr lower
        · exact absurd held free)
      (by
        intro now unreached
        rcases steps now unreached with reached | lower | ⟨_, same⟩
        · exact .inl reached
        · exact .inr (Nat.le_of_lt lower)
        · exact .inr (by rw [same]))
      (max moment time)
    refine ⟨later, by omega, ?_⟩
    rw [← run_lister]
    rcases reached with asking | left
    · exact asking
    · exact absurd (scanning later (by omega)) left
  have begins : ∃ᶠ moment in atTop, (run start replies moment).passes < (run start replies (moment + 1)).passes := by
    refine frequently_atTop.mpr fun moment => ?_
    obtain ⟨later, after, asking, ends⟩ := frequently_atTop.mp (finite.listing reads) (max moment time)
    rw [← run_lister] at asking
    refine ⟨later + 1, by omega, ?_⟩
    rcases Lister.step_endsListing asking ends with rewinds | left
    · rw [← next later] at rewinds
      exact (passes_step (replies (later + 1))).2 rewinds
    · rw [← next later] at left
      exact absurd (scanning (later + 1) (by omega)) left
  obtain ⟨moment, many⟩ := exceeds_of_grows (fun moment => (passes_step (replies moment)).1) begins (maxThreads + 2)
  have few := (Counted.of_run isInitial replies moment).bounded.1
  omega

/-- What holds in every state of a scan. -/
structure Sound (observed : Observed callback) : Prop where
  passes : observed.passes ≤ maxThreads + 1
  room : observed.lister.pids.length ≤ maxThreads
  distinct : observed.lister.pids.Nodup
  proper : ∀ pid ∈ observed.lister.pids, pid ≠ 0 ∧ pid ≠ observed.lister.cloneTid
  /-- Between two records, and between two buffers, the published count is right. -/
  published : observed.lister.pc = .walk ∨ observed.lister.pc = .getdents →
    observed.lister.sigNumThreads = observed.lister.pids.length
  /-- The pass before the callback recorded nothing. -/
  settled : ∀ position, observed.lister.pc = .callback position → observed.lister.pids = observed.before

theorem Sound.of_run {start : Lister callback} (isInitial : start.Initial) (replies : Nat → Reply) (time : Nat) :
    (run start replies time).Sound := by
  have counted := Counted.of_run isInitial replies time
  have reached := run_reachable isInitial replies time
  have clean := Lister.Clean.of_reachable reached
  have suspended := Lister.Suspended.of_reachable reached
  refine ⟨counted.bounded.1, counted.bounded.2, clean.distinct, clean.proper, ?_, ?_⟩
  · rintro (walking | asking)
    · rw [Lister.Suspended, walking] at suspended
      exact suspended.2.2.2
    · rw [Lister.Suspended, asking] at suspended
      exact suspended.2.2.2
  · intro position running
    rw [Counted, running] at counted
    exact counted.1

/-- The scan converges: on every run whose directories end, every state is sound, the
scan loop is left, and so is the walk over each buffer, whatever lengths its records
give. -/
theorem scan_converges {start : Lister callback} (isInitial : start.Initial) (replies : Nat → Reply)
    (finite : Lister.FiniteListings start replies) :
    (∀ time, (run start replies time).Sound) ∧
      (∀ time, ∃ later, time ≤ later ∧ ¬ (run start replies later).lister.pc.Scanning) ∧
      ∀ (dirbuf : Nat → Dirent) (n : Nat), ∃ entries, walkDirents dirbuf n (n + 1) 0 = some entries ∧
        entries.length ≤ n := by
  refine ⟨Sound.of_run isInitial replies, leaves_scan isInitial finite, ?_⟩
  intro dirbuf n
  exact walkDirents_ends dirbuf n (Nat.lt_succ_self n)

/-- The answers of a finished run, and success for ever after. -/
def sampleRun (time : Nat) : Reply := Lister.sampleReplies.getD time (Lister.succeeds 0 0)

theorem sampleRun_finished (delay : Nat) :
    (runAt Lister.step Lister.newborn sampleRun (Lister.sampleReplies.length + delay)).pc = .finished 0 := by
  induction delay with
  | zero =>
      have replies : (List.range Lister.sampleReplies.length).map sampleRun = Lister.sampleReplies := by
        apply List.ext_getElem
        · simp
        · intro index _ inside
          simp [sampleRun, inside]
      rw [Nat.add_zero, runAt_eq_foldl, replies]
      decide +kernel
  | succ delay ih =>
      rw [← Nat.add_assoc, runAt]
      simp only [Lister.step, ih]

theorem sampleRun_finite : Lister.FiniteListings Lister.newborn sampleRun := by
  constructor
  · intro reads
    obtain ⟨later, after, asking⟩ := frequently_atTop.mp reads Lister.sampleReplies.length
    have finished := sampleRun_finished (later - Lister.sampleReplies.length)
    rw [Nat.add_sub_cancel' after, asking] at finished
    cases finished
  · refine frequently_atTop.mpr fun time => ⟨Lister.sampleReplies.length + time, Nat.le_add_left .., ?_⟩
    have beyond : sampleRun (Lister.sampleReplies.length + time) = Lister.succeeds 0 0 := by
      simp [sampleRun]
    rw [beyond]
    exact fun interrupted => (by cases interrupted)

theorem scan_converges_sample : Lister.FiniteListings Lister.newborn sampleRun ∧
    ∃ later, 20 ≤ later ∧ ¬ (run Lister.newborn sampleRun later).lister.pc.Scanning :=
  ⟨sampleRun_finite, (scan_converges Lister.newborn_initial sampleRun sampleRun_finite).2.1 20⟩

end Observed

end Corus.Threads
