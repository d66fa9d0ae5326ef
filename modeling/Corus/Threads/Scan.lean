import Corus.Threads.Suspension

/-!
# What a scan accounts for

Every thread that the current pass over the task directory listed is the lister,
is recorded, was passed over, or is still to be looked at. At the end of the last
pass nothing is left to be looked at, and what was passed over is not recorded.
-/

namespace Corus.Threads

open Corus.Logical Corus.Platform

/-- The stages of a scan. -/
inductive ScanPhase where
  | before
  /-- All records that were read have been looked at. -/
  | between
  | walking
  /-- The first of the remaining records names the thread in view. -/
  | viewing (pid : Int32)
  /-- That thread has been recorded. -/
  | counting (pid : Int32)
  /-- A pass has added nothing. -/
  | complete
  | abandoned

/-- The stage that a position of the lister belongs to. -/
def Pc.scanPhase {Local : Type} : Pc Local → ScanPhase
  | .gettid | .getppid | .socket | .setCloexec | .statMarker | .closeUnused _ | .storePids
  | .storeCount | .installHandlers | .openTask => .before
  | .rewind | .getdents => .between
  | .walk => .walking
  | .statThread pid | .attach pid | .waitStop pid | .peekFirst pid | .peekSecond pid | .drop pid
  | .record pid => .viewing pid
  | .publish pid => .counting pid
  | .closeProc none | .closeMarker none | .callback _ | .storeResult _ | .storeErr => .complete
  | _ => .abandoned

/-- The part of the lister that a scan works on. -/
structure ScanView where
  cloneTid : Int32
  pids : List Int32
  entries : List Dirent
  added : Nat
  listed : List Int32
  skipped : List Int32

namespace ScanView

/-- A thread that needs no further look: the lister, a recorded thread or one that
was passed over. -/
def Settled (view : ScanView) (pid : Int32) : Prop :=
  pid = view.cloneTid ∨ pid ∈ view.pids ∨ pid ∈ view.skipped

/-- Every listed thread is settled or among the remaining records, which belong to
the pass, and so does what was passed over, which is never the lister. -/
structure Walk (view : ScanView) : Prop where
  accounted : ∀ pid ∈ view.listed, view.Settled pid ∨ pid ∈ threadsOf view.entries
  listed : ∀ pid ∈ threadsOf view.entries, pid ∈ view.listed
  skipped : ∀ pid ∈ view.skipped, pid ∈ view.listed ∧ pid ≠ view.cloneTid

/-- As long as a pass has added nothing, what it passed over is not recorded. -/
def Apart (view : ScanView) : Prop := view.added = 0 → ∀ pid ∈ view.skipped, pid ∉ view.pids

/-- The first of the remaining records names the thread. -/
def Names (view : ScanView) (pid : Int32) : Prop :=
  ∃ dirent rest, view.entries = dirent :: rest ∧ dirent.thread = some pid

/-- What holds in a stage of the scan. -/
def Holds (view : ScanView) : ScanPhase → Prop
  | .before => view.entries = [] ∧ view.listed = [] ∧ view.skipped = []
  | .between => view.Walk ∧ view.Apart ∧ view.entries = []
  | .walking => view.Walk ∧ view.Apart
  | .viewing pid => view.Walk ∧ view.Apart ∧ view.Names pid ∧ pid ≠ view.cloneTid ∧ pid ∉ view.pids
  | .counting pid => view.Walk ∧ view.Names pid ∧ pid ∈ view.pids
  | .complete => view.Walk ∧ view.Apart ∧ view.entries = [] ∧ view.added = 0
  | .abandoned => True

/-- An empty pass accounts for everything it listed. -/
theorem walk_of_empty {view : ScanView} (entries : view.entries = []) (listed : view.listed = [])
    (skipped : view.skipped = []) : view.Walk where
  accounted := by simp [listed]
  listed := by simp [entries, threadsOf]
  skipped := by simp [skipped]

theorem apart_of_empty {view : ScanView} (skipped : view.skipped = []) : view.Apart := by
  simp [Apart, skipped]

/-- The first of the remaining records names one thread only. -/
theorem Names.eq {view : ScanView} {pid other : Int32} {dirent : Dirent} {rest : List Dirent}
    (names : view.Names pid) (entries : view.entries = dirent :: rest) (named : dirent.thread = some other) :
    other = pid := by
  obtain ⟨first, others, split, firstNamed⟩ := names
  cases entries.symm.trans split
  exact Option.some.inj (named.symm.trans firstNamed)

end ScanView

namespace Lister

variable {callback : Callback} (lister : Lister callback)

def scanView : ScanView :=
  ⟨lister.cloneTid, lister.pids, lister.entries, lister.added, lister.history.listed, lister.history.skipped⟩

/-- The invariant of the scan. -/
def Scanned : Prop := lister.scanView.Holds lister.pc.scanPhase

variable {lister}

/-- A named thread is the lister, is recorded, or has to be looked at. -/
theorem candidate_or_settled {dirent : Dirent} {pid : Int32} (named : dirent.thread = some pid) :
    pid = lister.cloneTid ∨ pid ∈ lister.pids ∨ lister.candidate dirent = some pid := by
  by_cases own : pid = lister.cloneTid
  · exact .inl own
  by_cases recorded : pid ∈ lister.pids
  · exact .inr (.inl recorded)
  · exact .inr (.inr (by simp [candidate, named, own, recorded]))

/-- Passing on to the next record, once the first one needs no further look. -/
theorem Scanned.advance (walk : lister.scanView.Walk) (apart : lister.scanView.Apart)
    (settled : ∀ dirent rest pid, lister.entries = dirent :: rest → dirent.thread = some pid →
      lister.scanView.Settled pid) : lister.advance.Scanned := by
  have walking : lister.advance.pc.scanPhase = .walking := by
    obtain ⟨_, _, equal⟩ := lister.advance_eq
    rw [equal]
    rfl
  rw [Scanned, walking]
  obtain ⟨accounted, listed, skipped⟩ := walk
  unfold Lister.advance
  split
  · exact ⟨⟨accounted, listed, skipped⟩, apart⟩
  rename_i dirent rest entries
  have tail : ∀ pid ∈ threadsOf rest, pid ∈ threadsOf lister.entries := by
    intro pid member
    rw [entries]
    obtain ⟨record, later, named⟩ := List.mem_filterMap.mp member
    exact List.mem_filterMap.mpr ⟨record, List.mem_cons_of_mem _ later, named⟩
  have pending : ∀ pid ∈ lister.history.listed, lister.scanView.Settled pid ∨ pid ∈ threadsOf rest := by
    intro pid member
    rcases accounted pid member with known | unread
    · exact .inl known
    rw [show lister.scanView.entries = _ from entries] at unread
    obtain ⟨record, place, named⟩ := List.mem_filterMap.mp unread
    rcases List.mem_cons.mp place with rfl | later
    · exact .inl (settled _ rest pid entries named)
    · exact .inr (List.mem_filterMap.mpr ⟨record, later, named⟩)
  split
  · -- The records behind one of length zero are never looked at.
    have unseen : ∀ pid ∈ rest.filterMap lister.candidate,
        pid ∈ threadsOf rest ∧ pid ≠ lister.cloneTid ∧ pid ∉ lister.pids := by
      intro pid member
      obtain ⟨record, later, found⟩ := List.mem_filterMap.mp member
      obtain ⟨named, fresh⟩ := candidate_fresh found
      exact ⟨List.mem_filterMap.mpr ⟨record, later, named⟩, fresh⟩
    refine ⟨⟨?_, ?_, ?_⟩, ?_⟩
    · intro pid member
      left
      rcases pending pid member with (own | recorded | old) | later
      · exact .inl own
      · exact .inr (.inl recorded)
      · exact .inr (.inr (List.mem_append_left _ old))
      · obtain ⟨record, behind, named⟩ := List.mem_filterMap.mp later
        rcases candidate_or_settled named with own | recorded | found
        · exact .inl own
        · exact .inr (.inl recorded)
        · exact .inr (.inr (List.mem_append_right _ (List.mem_filterMap.mpr ⟨record, behind, found⟩)))
    · exact fun pid member => (List.not_mem_nil member).elim
    · intro pid member
      rcases List.mem_append.mp member with old | new
      · exact skipped pid old
      · exact ⟨listed pid (tail pid (unseen pid new).1), (unseen pid new).2.1⟩
    · intro nothing pid member
      rcases List.mem_append.mp member with old | new
      · exact apart nothing pid old
      · exact (unseen pid new).2.2
  · exact ⟨⟨pending, fun pid member => listed pid (tail pid member), skipped⟩, apart⟩

/-- Passing over the thread in view. -/
theorem Scanned.skip_advance {pid : Int32} (viewing : lister.scanView.Holds (.viewing pid)) :
    (lister.skip [pid]).advance.Scanned := by
  obtain ⟨⟨accounted, listed, skipped⟩, apart, names, other, fresh⟩ := viewing
  apply Scanned.advance
  · refine ⟨?_, listed, ?_⟩
    · intro listedPid member
      rcases accounted listedPid member with (own | recorded | old) | pending
      · exact .inl (.inl own)
      · exact .inl (.inr (.inl recorded))
      · exact .inl (.inr (.inr (List.mem_append_left _ old)))
      · exact .inr pending
    · intro skippedPid member
      rcases List.mem_append.mp member with old | new
      · exact skipped skippedPid old
      · obtain ⟨dirent, rest, entries, named⟩ := names
        rw [List.mem_singleton.mp new]
        refine ⟨listed pid ?_, other⟩
        rw [entries]
        exact List.mem_filterMap.mpr ⟨dirent, List.mem_cons_self, named⟩
  · intro nothing skippedPid member
    rcases List.mem_append.mp member with old | new
    · exact apart nothing skippedPid old
    · rw [List.mem_singleton.mp new]
      exact fresh
  · intro first others firstPid split firstNamed
    rw [names.eq split firstNamed]
    exact .inr (.inr (List.mem_append_right _ List.mem_cons_self))

theorem Scanned.initial (start : Initial lister) : lister.Scanned := by
  simp [Scanned, start.pc, Pc.scanPhase, ScanView.Holds, scanView, start.entries, start.history]

/-- Outside the scan nothing is to be shown. -/
theorem Scanned.of_abandoned (abandoned : lister.pc.scanPhase = .abandoned) : lister.Scanned := by
  rw [Scanned, abandoned]
  trivial

/-- A step that only moves on keeps the invariant. -/
theorem Scanned.turn (invariant : lister.Scanned) {reply : Reply} {later : Pc callback.Local}
    (turn : lister.Turn lister.pc reply later) : Scanned { lister with pc := later } := by
  unfold Scanned at invariant
  generalize lister.pc = pc at invariant turn
  cases turn with
  | openTask =>
      obtain ⟨entries, listed, skipped⟩ := invariant
      exact ⟨ScanView.walk_of_empty entries listed skipped, ScanView.apart_of_empty skipped, entries⟩
  | settled last idle => exact ⟨invariant.1, invariant.2.1, invariant.2.2, idle⟩
  | refill nothing => exact ⟨invariant.1, invariant.2, nothing⟩
  | @view _ dirent rest pid entries found =>
      obtain ⟨named, other, fresh⟩ := candidate_fresh found
      exact ⟨invariant.1, invariant.2, ⟨dirent, rest, entries, named⟩, other, fresh⟩
  | mismatch mismatches => cases mismatches <;> exact invariant
  | @closeProc failure =>
      cases failure with
      | none => exact invariant
      | some errno => trivial
  | unlisted | full | giveUp | missing | reportMissing | reportDumped | reaped => trivial
  | _ => exact invariant

/-- Every step keeps the invariant. -/
theorem Scanned.moves (invariant : lister.Scanned) {reply : Reply} {after : Lister callback}
    (moves : lister.Moves reply after) : after.Scanned := by
  have holds := invariant
  unfold Scanned at holds
  cases moves with
  | rests => exact invariant
  | turns here turn => exact invariant.turn (here ▸ turn)
  | rewind here =>
      rw [here] at holds
      exact ⟨ScanView.walk_of_empty holds.2.2 rfl rfl, ScanView.apart_of_empty rfl, holds.2.2⟩
  | reads here =>
      rw [here] at holds
      obtain ⟨walk, apart, entries⟩ := holds
      refine ⟨⟨?_, ?_, ?_⟩, apart⟩
      · intro pid member
        rcases List.mem_append.mp member with old | new
        · rcases walk.accounted pid old with settled | unread
          · exact .inl settled
          · rw [entries] at unread
            cases unread
        · exact .inr new
      · exact fun pid member => List.mem_append_right _ member
      · intro pid member
        exact ⟨List.mem_append_left _ (walk.skipped pid member).1, (walk.skipped pid member).2⟩
  | advances here entries settled =>
      rw [here] at holds
      refine Scanned.advance holds.1 holds.2 ?_
      intro first others pid split named
      rw [entries] at split
      cases split
      rcases @candidate_or_settled _ lister _ _ named with own | recorded | found
      · exact .inl own
      · exact .inr (.inl recorded)
      · rw [settled] at found
        cases found
  | passes here passed =>
      rw [here] at holds
      cases passed <;> exact Scanned.skip_advance holds
  | @drops pid here =>
      rw [here] at holds
      exact Scanned.skip_advance (show (lister.request (.detach pid)).scanView.Holds (.viewing pid) from holds)
  | records here =>
      rw [here] at holds
      obtain ⟨⟨accounted, listed, skipped⟩, _, names, _, _⟩ := holds
      refine ⟨⟨?_, listed, skipped⟩, names, List.mem_append_right _ List.mem_cons_self⟩
      intro other member
      rcases accounted other member with (own | recorded | old) | unread
      · exact .inl (.inl own)
      · exact .inl (.inr (.inl (List.mem_append_left _ recorded)))
      · exact .inl (.inr (.inr old))
      · exact .inr unread
  | publishes here =>
      rw [here] at holds
      obtain ⟨walk, names, recorded⟩ := holds
      refine Scanned.advance ⟨walk.accounted, walk.listed, walk.skipped⟩
        (fun nothing => absurd nothing (Nat.succ_ne_zero _)) ?_
      intro first others firstPid split firstNamed
      rw [names.eq split firstNamed]
      exact .inr (.inl recorded)
  | takesChild =>
      apply Scanned.of_abandoned
      simp only
      split <;> rfl
  | failsEarly | failsLate | storeErr | clearPids | clearCount | detaches | reapsFailure | reapFails =>
      exact Scanned.of_abandoned rfl
  | @runs _ progress _ here =>
      rw [here] at holds
      cases progress <;> exact holds
  | gettid here | getppid here | statMarker here | storePids here | storeCount here | installHandlers here
  | attaches here | waitFails here | storeResult here =>
      rw [here] at holds
      exact holds

theorem Scanned.step (invariant : lister.Scanned) (reply : Reply) : (lister.step reply).Scanned :=
  invariant.moves (lister.step_moves reply)

theorem Scanned.of_reachable (reached : (system callback).Reachable lister) : lister.Scanned := by
  refine @TransitionSystem.Reachable.invariant _ _ _ Scanned (fun _ start => Scanned.initial start) ?_ _ reached
  rintro before reply after - invariant rfl
  exact invariant.step reply

end Lister

end Corus.Threads
