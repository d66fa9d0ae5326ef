import Corus.Threads.Moves

/-!
# Which threads are held

Along every run of the lister the threads that are attached and not yet detached
are the recorded ones and at most the one that is being verified. So nothing is
held when the lister returns, and what its crash handler finds in the published
list can be compared with what is held at every step.
-/

namespace Corus.Threads

open Corus.Logical Corus.Platform

/-- The threads held after one more request. -/
def hold (held : List Int32) : Request → List Int32
  | .attach pid => held ++ [pid]
  | .detach pid => held.filter fun other => other != pid
  | .kill _ => held

/-- The threads that were attached and have not been sent a detach since. -/
def outstanding (requests : List Request) : List Int32 := requests.foldl hold []

@[simp] theorem outstanding_append (requests : List Request) (request : Request) :
    outstanding (requests ++ [request]) = hold (outstanding requests) request := by
  simp [outstanding]

/-- Detaching the last thread of a list without repetitions leaves the others. -/
theorem hold_detach_append {pids : List Int32} {pid : Int32} (fresh : pid ∉ pids) :
    hold (pids ++ [pid]) (.detach pid) = pids := by
  have others : ∀ other ∈ pids, (other != pid) = true := by
    intro other member
    simpa using ne_of_mem_of_not_mem member fresh
  simp [hold, List.filter_append, List.filter_eq_self.mpr others]

theorem hold_detach_cons {rest : List Int32} {pid : Int32} (fresh : pid ∉ rest) :
    hold (pid :: rest) (.detach pid) = rest := by
  have others : ∀ other ∈ rest, (other != pid) = true := by
    intro other member
    simpa using ne_of_mem_of_not_mem member fresh
  simp [hold, List.filter_eq_self.mpr others]

/-- A held thread stays held until it is detached. -/
theorem mem_foldl_hold {held : List Int32} {requests : List Request} {pid : Int32}
    (member : pid ∈ held) (kept : .detach pid ∉ requests) : pid ∈ requests.foldl hold held := by
  induction requests generalizing held with
  | nil => exact member
  | cons request rest ih =>
      simp only [List.mem_cons, not_or] at kept
      apply ih _ kept.2
      cases request with
      | attach other => exact List.mem_append_left _ member
      | detach other =>
          refine List.mem_filter.mpr ⟨member, ?_⟩
          simpa using fun same : pid = other => kept.1 (same ▸ rfl)
      | kill other => exact member

/-- If nothing is outstanding, every attach was followed by a detach. -/
theorem detach_mem_of_outstanding {before after : List Request} {pid : Int32}
    (none : outstanding (before ++ .attach pid :: after) = []) : .detach pid ∈ after := by
  by_contra kept
  have attached : pid ∈ hold (before.foldl hold []) (.attach pid) := by simp [hold]
  have still := mem_foldl_hold attached kept
  rw [outstanding, List.foldl_append, List.foldl_cons] at none
  rw [none] at still
  cases still

/-- The stages of a suspension, as far as threads and the published list go. -/
inductive Phase where
  /-- No thread recorded, nothing published yet. -/
  | starting
  /-- The list is published, its count not yet. -/
  | storing
  /-- The empty list is published. -/
  | ready
  /-- The recorded threads are held and published. -/
  | idle
  /-- As `idle`, with a thread in view that is not recorded. -/
  | looking (pid : Int32)
  /-- That thread is attached as well. -/
  | verifying (pid : Int32)
  /-- It is recorded, and the count does not include it yet. -/
  | publishing (pid : Int32)
  /-- The recorded threads are held, the list is withdrawn. -/
  | cleared
  /-- Some of them are still to be detached; `armed` if the list is still published. -/
  | resuming (rest : List Int32) (armed : Bool)
  | released
  | crashed

/-- The list that the crash handler sees is published with a count. -/
def Published (sigPids : Bool) (sigNumThreads count : Nat) : Prop :=
  sigPids = true ∧ sigNumThreads = count

/-- What holds in a stage, of the recorded threads, the held ones and the two
variables that the crash handler reads. -/
def Phase.Holds (pids held : List Int32) (sigPids : Bool) (sigNumThreads : Nat) : Phase → Prop
  | .starting => pids = [] ∧ held = []
  | .storing => pids = [] ∧ held = [] ∧ sigPids = true
  | .ready => pids = [] ∧ held = [] ∧ Published sigPids sigNumThreads 0
  | .idle => pids.Nodup ∧ held = pids ∧ Published sigPids sigNumThreads pids.length
  | .looking pid => pids.Nodup ∧ held = pids ∧ Published sigPids sigNumThreads pids.length ∧ pid ∉ pids
  | .verifying pid =>
      pids.Nodup ∧ held = pids ++ [pid] ∧ Published sigPids sigNumThreads pids.length ∧ pid ∉ pids
  | .publishing pid => ∃ before, pids = before ++ [pid] ∧ pids.Nodup ∧ held = pids ∧
      Published sigPids sigNumThreads before.length
  | .cleared => pids.Nodup ∧ held = pids ∧ sigPids = false
  | .resuming rest armed => pids.Nodup ∧ rest <:+ pids ∧ held = rest ∧
      if armed then Published sigPids sigNumThreads pids.length else sigPids = false
  | .released => held = []
  | .crashed => False

/-- The stage that a position of the lister belongs to. -/
def Pc.phase {Local : Type} : Pc Local → Phase
  | .gettid | .getppid | .socket | .setCloexec | .statMarker | .closeUnused _ | .storePids => .starting
  | .storeCount => .storing
  | .installHandlers | .openTask => .ready
  | .rewind | .getdents | .walk | .closeProc _ | .closeMarker _ | .callback _ | .storeResult _
  | .storeErr | .clearPids _ => .idle
  | .statThread pid | .attach pid => .looking pid
  | .waitStop pid | .peekFirst pid | .peekSecond pid | .drop pid | .record pid => .verifying pid
  | .publish pid => .publishing pid
  | .clearCount _ => .cleared
  | .resume rest (.fail _) => .resuming rest true
  | .resume rest (.report _) => .resuming rest false
  | .takeChild | .reap _ | .finished _ => .released
  | .dead _ => .crashed

namespace Lister

variable {callback : Callback} (lister : Lister callback)

/-- The threads that are attached and not yet detached. -/
def held : List Int32 := outstanding lister.history.requests

/-- The invariant of the suspension. -/
def Suspended : Prop :=
  lister.pc.phase.Holds lister.pids lister.held lister.sigPids lister.sigNumThreads

variable {lister}

/-- Passing on to the next record keeps what holds between two threads. -/
theorem Suspended.advance (idle : Phase.idle.Holds lister.pids lister.held lister.sigPids lister.sigNumThreads) :
    lister.advance.Suspended := by
  obtain ⟨entries, skipped, equal⟩ := lister.advance_eq
  rw [equal]
  exact idle

theorem Suspended.initial (start : Initial lister) : lister.Suspended := by
  simp [Suspended, start.pc, Pc.phase, Phase.Holds, start.pids, held, start.history, outstanding]

/-- A thread that the walk has to look at is not recorded, and not the lister. -/
theorem candidate_fresh {dirent : Dirent} {pid : Int32} (found : lister.candidate dirent = some pid) :
    dirent.thread = some pid ∧ pid ≠ lister.cloneTid ∧ pid ∉ lister.pids := by
  obtain ⟨named, fresh⟩ := Option.filter_eq_some_iff.mp found
  simp only [Bool.and_eq_true, bne_iff_ne, Bool.not_eq_true', List.contains_eq_mem,
    decide_eq_false_iff_not] at fresh
  exact ⟨named, fresh⟩

/-- A step that only moves on keeps the invariant. -/
theorem Suspended.turn (invariant : lister.Suspended) {reply : Reply} {later : Pc callback.Local}
    (turn : lister.Turn lister.pc reply later) : Suspended { lister with pc := later } := by
  unfold Suspended at invariant
  generalize lister.pc = pc at invariant turn
  cases turn with
  | openTask =>
      obtain ⟨nothing, empty, published⟩ := invariant
      refine ⟨?_, empty.trans nothing.symm, published.1, ?_⟩
      · simp [nothing]
      · simpa [nothing] using published.2
  | unopened => exact ⟨invariant.1, invariant.2.1⟩
  | view entries found => exact ⟨invariant.1, invariant.2.1, invariant.2.2, (candidate_fresh found).2.2⟩
  | full => exact ⟨invariant.1, invariant.2.1, invariant.2.2.1⟩
  | mismatch mismatches => cases mismatches <;> exact invariant
  | giveUp => exact ⟨invariant.1, List.suffix_rfl, invariant.2⟩
  | reportMissing | reportDumped => exact invariant.2.2.1
  | _ => exact invariant

/-- Every step keeps the invariant. -/
theorem Suspended.moves (invariant : lister.Suspended) {reply : Reply} {after : Lister callback}
    (moves : lister.Moves reply after) : after.Suspended := by
  have holds := invariant
  unfold Suspended at holds
  cases moves with
  | rests => exact invariant
  | turns here turn => exact invariant.turn (here ▸ turn)
  | failsEarly here fails =>
      rw [here] at holds
      cases fails <;> exact holds.2
  | storePids here =>
      rw [here] at holds
      exact ⟨holds.1, holds.2, rfl⟩
  | storeCount here =>
      rw [here] at holds
      exact ⟨holds.1, holds.2.1, holds.2.2, rfl⟩
  | advances here =>
      rw [here] at holds
      exact Suspended.advance holds
  | passes here passed =>
      rw [here] at holds
      cases passed <;> exact Suspended.advance ⟨holds.1, holds.2.1, holds.2.2.1⟩
  | attaches here =>
      rw [here] at holds
      obtain ⟨distinct, held, published, fresh⟩ := holds
      refine ⟨distinct, ?_, published, fresh⟩
      show outstanding (lister.history.requests ++ _) = _
      rw [outstanding_append, show outstanding lister.history.requests = _ from held]
      rfl
  | @drops pid here =>
      rw [here] at holds
      obtain ⟨distinct, held, published, fresh⟩ := holds
      have dropped : outstanding (lister.history.requests ++ [.detach pid]) = lister.pids := by
        rw [outstanding_append, show outstanding lister.history.requests = _ from held]
        exact hold_detach_append fresh
      exact Suspended.advance ⟨distinct, dropped, published⟩
  | records here =>
      rw [here] at holds
      obtain ⟨distinct, held, published, fresh⟩ := holds
      refine ⟨lister.pids, rfl, ?_, held, published⟩
      simpa [List.nodup_append, distinct] using fun other member => ne_of_mem_of_not_mem member fresh
  | publishes here =>
      rw [here] at holds
      obtain ⟨before, recorded, distinct, held, published⟩ := holds
      exact Suspended.advance ⟨distinct, held, published.1, rfl⟩
  | clearPids here =>
      rw [here] at holds
      exact ⟨holds.1, holds.2.1, rfl⟩
  | clearCount here =>
      rw [here] at holds
      exact ⟨holds.1, List.suffix_rfl, holds.2.1, holds.2.2⟩
  | @detaches pid rest next here =>
      rw [here] at holds
      rcases next with errno | outcome
      all_goals
        obtain ⟨distinct, suffix, held, signals⟩ := holds
        have fresh := (List.nodup_cons.mp (suffix.sublist.nodup distinct)).1
        have detached : outstanding (lister.history.requests ++ [.detach pid]) = rest := by
          rw [outstanding_append, show outstanding lister.history.requests = _ from held]
          exact hold_detach_cons fresh
        exact ⟨distinct, (List.suffix_cons pid rest).trans suffix, detached, signals⟩
  | failsLate here =>
      -- The loop is over, so nothing is held any more.
      rw [here] at holds
      exact holds.2.2.1
  | takesChild here =>
      rw [here] at holds
      rw [Suspended]
      split <;> exact holds
  | @runs _ progress _ here =>
      rw [here] at holds
      cases progress <;> exact holds
  | gettid here | getppid here | statMarker here | installHandlers here | rewind here | reads here | waitFails here
  | storeResult here | storeErr here | reapsFailure here | reapFails here =>
      rw [here] at holds
      exact holds

theorem Suspended.step (invariant : lister.Suspended) (reply : Reply) : (lister.step reply).Suspended :=
  invariant.moves (lister.step_moves reply)

theorem Suspended.of_reachable (reached : (system callback).Reachable lister) : lister.Suspended := by
  refine @TransitionSystem.Reachable.invariant _ _ _ Suspended (fun _ start => Suspended.initial start) ?_ _ reached
  rintro before reply after - invariant rfl
  exact invariant.step reply

/-- No thread is left stopped: when the lister returns, on whichever path, every
attach that succeeded has been followed by a detach of that thread. -/
theorem returned_detached {code : UInt8} (reached : (system callback).Reachable lister)
    (returned : lister.pc = .finished code) {before after : List Request} {pid : Int32}
    (attached : lister.history.requests = before ++ .attach pid :: after) : .detach pid ∈ after := by
  have released := Suspended.of_reachable reached
  rw [Suspended, returned] at released
  apply detach_mem_of_outstanding
  rw [← attached]
  exact released

/-- A callback that returns at once. -/
def returning : Callback where
  Local := Unit
  Memory := Unit
  enter _ := ()
  step _ _ shared := (.returned 0, shared)

instance : DecidableEq returning.Local := inferInstanceAs (DecidableEq Unit)

/-- A lister that has just been cloned. -/
def newborn : Lister returning where
  pc := .gettid
  cloneTid := 0
  ppid := 0
  markerIno := 0
  entries := []
  pids := []
  foundParent := false
  added := 0
  sigPids := false
  sigNumThreads := 0
  handlersInstalled := false
  params := ⟨-1, 0⟩
  snapshotChild := 0
  memory := ()
  history := ⟨[], [], [], []⟩

theorem newborn_initial : Initial newborn := ⟨rfl, rfl, rfl, rfl, rfl, rfl, rfl⟩

theorem newborn_reachable (replies : List Reply) :
    (system returning).Reachable (replies.foldl step newborn) :=
  ⟨newborn, replies, newborn_initial, TransitionSystem.steps_foldl ..⟩

/-- A call that succeeds, with what it returns and stores. -/
def succeeds (returned stored : UInt64) : Reply := .ok ⟨returned, stored, []⟩

/-- Two threads, 100 and 101, in a directory. -/
def twoThreads : Reply :=
  .ok ⟨48, 0, [⟨8, 24, [0x31, 0x30, 0x30, 0]⟩, ⟨9, 24, [0x31, 0x30, 0x31, 0]⟩]⟩

/-- The setup of lister 102 of process 100, up to the first read of the directory. -/
def setupReplies : List Reply :=
  [succeeds 102 0, succeeds 100 0, succeeds 3 0, succeeds 0 0, succeeds 0 7, succeeds 0 0, succeeds 0 0,
    succeeds 0 0, succeeds 4 0, succeeds 0 0, twoThreads]

/-- Look at the next record and suspend its thread, with one interrupted wait. -/
def suspendReplies : List Reply :=
  [succeeds 0 0, succeeds 0 7, succeeds 0 0, .error .eintr, succeeds 0 0, succeeds 0 0, succeeds 0 1,
    succeeds 0 0, succeeds 0 0]

/-- A run that suspends thread 100, gives up on thread 101 because it does not
share the address space, and in the second pass because it cannot be attached. -/
def sampleReplies : List Reply :=
  setupReplies ++ suspendReplies ++
    [succeeds 0 0, succeeds 0 7, succeeds 0 0, succeeds 0 0, succeeds 0 5, succeeds 0 0] ++
    [succeeds 0 0, succeeds 0 0, succeeds 0 0, twoThreads, succeeds 0 0, succeeds 0 0, succeeds 0 7,
      .error .eperm, succeeds 0 0, succeeds 0 0] ++
    [succeeds 0 0, succeeds 0 0, succeeds 0 0, succeeds 0 0, succeeds 0 0, succeeds 0 0, succeeds 0 0,
      .error .eperm, succeeds 0 0, succeeds 0 0]

/-- That run up to its callback, with thread 100 suspended. -/
def callbackReplies : List Reply := sampleReplies.take 38

theorem returned_detached_sample : (sampleReplies.foldl step newborn).pc = .finished 0 ∧
    ∃ before after, (sampleReplies.foldl step newborn).history.requests = before ++ .attach 101 :: after ∧
      .detach 101 ∈ after :=
  ⟨by decide +kernel, [.attach 100], [.detach 101, .detach 100], by decide +kernel,
    returned_detached (newborn_reachable sampleReplies)
      (show (sampleReplies.foldl step newborn).pc = .finished 0 by decide +kernel)
      (show _ = [Request.attach 100] ++ .attach 101 :: [.detach 101, .detach 100] by decide +kernel)⟩

end Lister

end Corus.Threads
