import Corus.Threads.Scan

/-!
# Threads that a scan gives up on

`lister_thread` goes on without a thread that it could not suspend. It asks for the
leading thread only, so the callback runs with all live threads suspended exactly if
no answer during the last pass makes it give up on another one of them.
-/

namespace Corus.Threads

open Corus.Logical Corus.Platform

/-- The thread in view: the first of the records names it, and it is not settled yet. -/
def Pc.viewed {Local : Type} : Pc Local → Option Int32
  | .statThread pid | .attach pid | .waitStop pid | .peekFirst pid | .peekSecond pid | .drop pid | .record pid
  | .publish pid => some pid
  | _ => none

/-- The thread is attached and not recorded yet. -/
def Pc.Verifying {Local : Type} (pid : Int32) : Pc Local → Prop
  | .waitStop viewed | .peekFirst viewed | .peekSecond viewed | .record viewed => viewed = pid
  | _ => False

namespace Lister

variable {callback : Callback} (lister : Lister callback)

/-- The threads behind a first record of length zero, which the walk will not look at. -/
def unread : List Int32 :=
  match lister.entries with
  | dirent :: rest => if dirent.dReclen = 0 then rest.filterMap lister.candidate else []
  | [] => []

/-- The threads that the lister gives up on when it gets this answer: the one whose
marker it cannot confirm, whose attach is denied, whose stop or address space it
cannot verify, or those behind a record of length zero. -/
def givesUp (reply : Reply) : List Int32 :=
  match lister.pc with
  | .statThread pid =>
      match reply with
      | .ok answer => if answer.stored = lister.markerIno then [] else [pid]
      | .error _ => [pid]
  | .attach pid =>
      match reply with
      | .ok _ => []
      | .error _ => [pid]
  | .waitStop pid =>
      match reply with
      | .ok _ => []
      | .error errno => if errno = .eintr then [] else [pid]
  | .peekFirst pid =>
      match reply with
      | .ok answer => if answer.stored = 0 then [] else [pid]
      | .error _ => [pid]
  | .peekSecond pid =>
      match reply with
      | .ok answer => if answer.stored = 1 then [] else [pid]
      | .error _ => [pid]
  | .walk => lister.unread.filter fun pid => lister.entries.head?.bind lister.candidate != some pid
  | _ => []

/-- Every live thread that the last pass listed is suspended, apart from the lister. -/
def Suspends (alive : Int32 → Prop) : Prop :=
  ∀ pid ∈ lister.history.listed, alive pid → pid ≠ lister.cloneTid → pid ∈ lister.pids

variable {lister}

theorem advance_unread (lister : Lister callback) :
    lister.advance.history.skipped = lister.history.skipped ++ lister.unread := by
  unfold advance unread
  cases lister.entries with
  | nil => exact (List.append_nil _).symm
  | cons dirent rest =>
      dsimp only
      split
      · rfl
      · exact (List.append_nil _).symm

/-- They are threads that the walk would have to look at. -/
theorem mem_unread {pid : Int32} : pid ∈ lister.unread ↔
    (∃ dirent rest, lister.entries = dirent :: rest ∧ dirent.dReclen = 0 ∧ pid ∈ threadsOf rest) ∧
      pid ≠ lister.cloneTid ∧ pid ∉ lister.pids := by
  unfold unread
  constructor
  · intro member
    split at member
    · rename_i dirent rest entries
      split at member
      · rename_i zero
        obtain ⟨record, behind, found⟩ := List.mem_filterMap.mp member
        obtain ⟨named, fresh⟩ := candidate_fresh found
        exact ⟨⟨dirent, rest, entries, zero, List.mem_filterMap.mpr ⟨record, behind, named⟩⟩, fresh⟩
      · cases member
    · cases member
  · rintro ⟨⟨dirent, rest, entries, zero, behind⟩, other, fresh⟩
    obtain ⟨record, member, named⟩ := List.mem_filterMap.mp behind
    rw [entries]
    simp only [zero, if_true]
    have found := ((@candidate_or_settled _ lister _ _ named).resolve_left other).resolve_left fresh
    exact List.mem_filterMap.mpr ⟨record, member, found⟩

/-! ## The leading thread -/

/-- The lister has found the leading thread only if it recorded it. -/
structure Led (lister : Lister callback) : Prop where
  found : lister.foundParent = true → lister.ppid ∈ lister.pids
  early : lister.pc = .gettid ∨ lister.pc = .getppid → lister.foundParent = false

theorem Led.initial (start : Initial lister) : lister.Led where
  found found := by simp [start.foundParent] at found
  early _ := start.foundParent

theorem Led.advance (found : lister.foundParent = true → lister.ppid ∈ lister.pids) : lister.advance.Led := by
  obtain ⟨entries, skipped, equal⟩ := lister.advance_eq
  rw [equal]
  exact ⟨found, by simp⟩

theorem Led.moves (led : lister.Led) (scanned : lister.Scanned) {reply : Reply} {after : Lister callback}
    (moves : lister.Moves reply after) : after.Led := by
  obtain ⟨found, early⟩ := led
  cases moves with
  | rests => exact ⟨found, early⟩
  | turns here turn => exact ⟨found, by cases turn <;> simp⟩
  | gettid here => exact ⟨found, fun _ => early (.inl here)⟩
  | getppid here => exact ⟨fun known => by simp [early (.inr here)] at known, by simp⟩
  | advances | passes | drops => exact Led.advance found
  | records => exact ⟨fun known => List.mem_append_left _ (found known), by simp⟩
  | @publishes pid here =>
      refine Led.advance ?_
      intro known
      rcases Bool.or_eq_true _ _ ▸ known with earlier | now
      · exact found earlier
      · rw [Scanned, here] at scanned
        show lister.ppid ∈ lister.pids
        rw [← beq_iff_eq.mp now]
        exact scanned.2.2
  | @runs _ progress _ here => exact ⟨found, by cases progress <;> simp [Progress.pc]⟩
  | takesChild => exact ⟨found, by simp only; split <;> simp⟩
  | _ => exact ⟨found, by simp [fail]⟩

/-! ## Threads that are never attached -/

/-- The thread is neither recorded nor about to be. -/
structure Unattached (pid : Int32) (lister : Lister callback) : Prop where
  pids : pid ∉ lister.pids
  elsewhere : ¬ lister.pc.Verifying pid

theorem Unattached.advance {pid : Int32} (pids : pid ∉ lister.pids) : lister.advance.Unattached pid := by
  obtain ⟨entries, skipped, equal⟩ := lister.advance_eq
  rw [equal]
  exact ⟨pids, id⟩

/-- As long as no attach on it succeeds, it stays so. -/
theorem Unattached.moves {pid : Int32} (unattached : lister.Unattached pid) {reply : Reply} {after : Lister callback}
    (denied : lister.pc = .attach pid → ∀ answer, reply ≠ .ok answer) (moves : lister.Moves reply after) :
    after.Unattached pid := by
  obtain ⟨pids, elsewhere⟩ := unattached
  cases moves with
  | rests => exact ⟨pids, elsewhere⟩
  | turns here turn =>
      rw [here] at elsewhere
      exact ⟨pids, fun verifying => elsewhere (by cases turn <;> first | exact verifying | exact verifying.elim)⟩
  | attaches here ok =>
      refine ⟨pids, ?_⟩
      rintro rfl
      exact denied here _ ok
  | @records other here =>
      rw [here] at elsewhere
      refine ⟨?_, id⟩
      intro member
      rcases List.mem_append.mp member with old | new
      · exact pids old
      · exact elsewhere (List.mem_singleton.mp new).symm
  | advances | passes | drops | publishes => exact Unattached.advance pids
  | @runs _ progress _ here => exact ⟨pids, by cases progress <;> exact id⟩
  | takesChild => exact ⟨pids, by simp only; split <;> exact id⟩
  | _ => exact ⟨pids, id⟩

/-! ## Giving up on none but the leading thread -/

/-- No live thread has been passed over in this pass, apart from the leading one. -/
def Spared (alive : Int32 → Prop) (lister : Lister callback) : Prop :=
  ∀ pid ∈ lister.history.skipped, alive pid → pid = lister.ppid

/-- And none is going to be with the records that are dropped, apart from the one in view. -/
def Sparing (alive : Int32 → Prop) (lister : Lister callback) (viewed : Int32) : Prop :=
  lister.Spared alive ∧ ∀ pid ∈ lister.unread, alive pid → pid = lister.ppid ∨ pid = viewed

/-- What holds at a position if the answers of the pass spare the live threads. -/
def SparedAt (alive : Int32 → Prop) (lister : Lister callback) : Pc callback.Local → Prop
  | .getdents | .walk | .closeProc none | .closeMarker none => lister.Spared alive
  | .statThread pid | .attach pid | .waitStop pid | .peekFirst pid | .peekSecond pid | .record pid | .publish pid =>
      lister.Sparing alive pid
  | .drop pid => lister.Sparing alive pid ∧ (alive pid → pid = lister.ppid)
  | .callback _ | .storeResult _ | .storeErr | .clearPids .dumped | .clearCount .dumped | .resume _ (.report .dumped)
  | .takeChild | .reap _ | .finished 0 => lister.Suspends alive
  | _ => True

/-- The invariant of a pass that spares the live threads. -/
def Thorough (alive : Int32 → Prop) (lister : Lister callback) : Prop := lister.SparedAt alive lister.pc

section Thorough

variable {alive : Int32 → Prop} {reply : Reply}

/-- A pass that spared them and ended with the leading thread has suspended them. -/
theorem Spared.suspends (spared : lister.Spared alive) (walk : lister.scanView.Walk) (apart : lister.scanView.Apart)
    (entries : lister.entries = []) (nothing : lister.added = 0) (leading : lister.ppid ∈ lister.pids) :
    lister.Suspends alive := by
  intro pid member living other
  rcases walk.accounted pid member with (own | recorded | passed) | remaining
  · exact absurd own other
  · exact recorded
  · have leads := spared pid passed living
    exact absurd (leads ▸ leading) (apart nothing pid passed)
  · rw [show lister.scanView.entries = _ from entries] at remaining
    cases remaining

/-- Passing on to the next record. -/
theorem Thorough.advance (spared : lister.Spared alive) (rest : ∀ pid ∈ lister.unread, alive pid → pid = lister.ppid) :
    lister.advance.Thorough alive := by
  have skipped := advance_unread lister
  obtain ⟨entries, passed, equal⟩ := lister.advance_eq
  rw [equal] at skipped ⊢
  intro pid member living
  rw [show passed = _ from skipped] at member
  rcases List.mem_append.mp member with old | new
  · exact spared pid old living
  · exact rest pid new living

/-- Passing over the thread in view. -/
theorem Thorough.skip_advance {pid : Int32} (sparing : lister.Sparing alive pid)
    (dead : alive pid → pid = lister.ppid) :
    (lister.skip [pid]).advance.Thorough alive := by
  apply Thorough.advance
  · intro other member living
    rcases List.mem_append.mp member with old | new
    · exact sparing.1 other old living
    · rw [List.mem_singleton.mp new] at living ⊢
      exact dead living
  · intro other member living
    rcases sparing.2 other member living with leads | rfl
    · exact leads
    · exact dead living

/-- A step that only moves on keeps the invariant. -/
theorem Thorough.turn (thorough : lister.Thorough alive) (scanned : lister.Scanned) (led : lister.Led)
    (spares : ∀ pid ∈ lister.givesUp reply, alive pid → pid = lister.ppid) {later : Pc callback.Local}
    {pc : Pc callback.Local} (here : lister.pc = pc) (turn : lister.Turn pc reply later) :
    Thorough alive { lister with pc := later } := by
  rw [Thorough, here] at thorough
  rw [givesUp, here] at spares
  rw [Scanned, here] at scanned
  cases turn with
  | @view _ dirent rest pid entries found =>
      refine ⟨thorough, ?_⟩
      intro other member living
      by_cases viewed : other = pid
      · exact .inr viewed
      · refine .inl (spares other (List.mem_filter.mpr ⟨member, ?_⟩) living)
        simp [entries, found, Ne.symm viewed]
  | mismatch mismatches =>
      cases mismatches with
      | first different | second different =>
          refine ⟨thorough, spares _ ?_⟩
          cases reply with
          | error errno => exact List.mem_singleton_self _
          | ok answer => simp [different answer rfl]
  | @closeProc failure => cases failure <;> exact thorough
  | enter found =>
      obtain ⟨walk, apart, entries, nothing⟩ := scanned
      exact thorough.suspends walk apart entries nothing (led.found found)
  | openTask | again | unlisted | inherited | unmarked | unopened | full | giveUp | missing | reportMissing => trivial
  | _ => exact thorough

/-- So does every step. -/
theorem Thorough.moves (thorough : lister.Thorough alive) (scanned : lister.Scanned) (led : lister.Led)
    (spares : ∀ pid ∈ lister.givesUp reply, alive pid → pid = lister.ppid) {after : Lister callback}
    (moves : lister.Moves reply after) : after.Thorough alive := by
  have holds := thorough
  unfold Thorough at holds
  cases moves with
  | rests => exact thorough
  | turns here turn => exact thorough.turn scanned led spares here turn
  | rewind => exact fun pid member => (List.not_mem_nil member).elim
  | reads here =>
      rw [here] at holds
      exact holds
  | advances here entries settled =>
      rw [here] at holds
      rw [givesUp, here] at spares
      refine Thorough.advance holds fun pid member => spares pid (List.mem_filter.mpr ⟨member, ?_⟩)
      simp [entries, settled]
  | passes here passed =>
      rw [here] at holds
      rw [givesUp, here] at spares
      cases passed with
      | unmarked different =>
          refine Thorough.skip_advance holds (spares _ ?_)
          cases reply with
          | error errno => exact List.mem_singleton_self _
          | ok answer => simp [different answer rfl]
      | denied denied =>
          rw [denied] at spares
          exact Thorough.skip_advance holds (spares _ (List.mem_singleton_self _))
  | @waitFails pid errno here error failed =>
      rw [here] at holds
      rw [givesUp, here, error] at spares
      exact ⟨holds, spares pid (by simp [failed])⟩
  | @drops pid here =>
      rw [here] at holds
      exact @Thorough.skip_advance _ (lister.request (.detach pid)) _ _ holds.1 holds.2
  | @records pid here =>
      rw [here] at holds
      refine ⟨holds.1, fun other member => holds.2 other ?_⟩
      obtain ⟨behind, foreign, fresh⟩ := mem_unread.mp member
      exact mem_unread.mpr ⟨behind, foreign, fun recorded => fresh (List.mem_append_left _ recorded)⟩
  | @publishes pid here =>
      rw [here] at holds
      rw [Scanned, here] at scanned
      refine Thorough.advance holds.1 ?_
      intro other member living
      rcases holds.2 other member living with leads | rfl
      · exact leads
      · exact absurd scanned.2.2 (mem_unread.mp member).2.2
  | @runs _ progress _ here =>
      rw [here] at holds
      cases progress <;> exact holds
  | @clearPids outcome here | @clearCount outcome here =>
      rw [here] at holds
      cases outcome <;> exact holds
  | @detaches pid rest next here =>
      rw [here] at holds
      rcases next with errno | _ | _ <;> exact holds
  | takesChild here =>
      rw [here] at holds
      rw [Thorough]
      split <;> exact holds
  | attaches here | storeResult here | storeErr here | reapsFailure here | reapFails here =>
      rw [here] at holds
      exact holds
  | failsEarly | failsLate | gettid | getppid | statMarker | storePids | storeCount | installHandlers => trivial

end Thorough

/-! ## Giving up on another live thread -/

/-- The thread has been given up on in this pass, or is going to be, or the callback
is not going to run. -/
def Doomed (pid : Int32) (lister : Lister callback) : Prop :=
  pid ∈ lister.history.skipped ∨ lister.pc = .drop pid ∨
    (pid ∈ lister.unread ∧ ∃ viewed, lister.pc.viewed = some viewed ∧ viewed ≠ pid) ∨ lister.pc.scanPhase = .abandoned

section Doomed

variable {pid : Int32} {reply : Reply}

/-- The walk drops what is behind a record of length zero. -/
theorem doomed_advance (behind : pid ∈ lister.history.skipped ∨ pid ∈ lister.unread) : lister.advance.Doomed pid := by
  left
  rw [advance_unread]
  exact List.mem_append.mpr behind

/-- A thread that the lister gives up on is doomed. -/
theorem doomed_of_givesUp (member : pid ∈ lister.givesUp reply) : (lister.step reply).Doomed pid := by
  have passed : (lister.skip [pid]).advance.Doomed pid :=
    doomed_advance (.inl (List.mem_append_right _ (List.mem_singleton_self pid)))
  cases pc : lister.pc <;> simp only [givesUp, pc, List.not_mem_nil] at member <;> simp only [Lister.step, pc]
  case walk =>
    obtain ⟨behind, other⟩ := List.mem_filter.mp member
    obtain ⟨⟨dirent, rest, entries, _⟩, _⟩ := mem_unread.mp behind
    simp only [entries, List.head?_cons, Option.bind_some, bne_iff_ne, ne_eq] at other
    have unread := behind
    rw [Lister.unread, entries] at unread
    simp only [entries]
    split
    · rename_i viewed found
      refine .inr (.inr (.inl ⟨unread, viewed, rfl, ?_⟩))
      rintro rfl
      exact other found
    · exact doomed_advance (.inr behind)
  case statThread viewed =>
    cases reply with
    | error errno => exact List.mem_singleton.mp member ▸ passed
    | ok answer =>
        simp only at member ⊢
        split
        · rename_i marked
          rw [if_pos marked] at member
          cases member
        · rename_i unmarked
          rw [if_neg unmarked] at member
          exact List.mem_singleton.mp member ▸ passed
  case attach viewed =>
    cases reply with
    | error errno => exact List.mem_singleton.mp member ▸ passed
    | ok answer => cases member
  case waitStop viewed =>
    cases reply with
    | ok answer => cases member
    | error errno =>
        simp only at member ⊢
        split
        · rename_i interrupted
          rw [if_pos interrupted] at member
          cases member
        · rename_i failed
          rw [if_neg failed] at member
          exact .inr (.inl (congrArg Pc.drop (List.mem_singleton.mp member).symm))
  case peekFirst viewed | peekSecond viewed =>
    cases reply with
    | error errno => exact .inr (.inl (congrArg Pc.drop (List.mem_singleton.mp member).symm))
    | ok answer =>
        simp only at member ⊢
        split
        · rename_i stored
          rw [if_pos stored] at member
          cases member
        · rename_i different
          rw [if_neg different] at member
          exact .inr (.inl (congrArg Pc.drop (List.mem_singleton.mp member).symm))

/-- A scan that was given up or is over does not go on. -/
theorem abandoned_step (abandoned : lister.pc.scanPhase = .abandoned) (reply : Reply) :
    (lister.step reply).pc.scanPhase = .abandoned := by
  have moves := lister.step_moves reply
  generalize lister.step reply = after at moves ⊢
  cases moves with
  | rests => exact abandoned
  | turns here turn =>
      rw [here] at abandoned
      cases turn with
      | @closeProc failure =>
          cases failure with
          | none => cases abandoned
          | some errno => rfl
      | mismatch mismatches => cases mismatches <;> cases abandoned
      | giveUp | reportMissing | reportDumped | reaped => rfl
      | _ => cases abandoned
  | passes here passed =>
      rw [here] at abandoned
      cases passed <;> cases abandoned
  | takesChild => simp only; split <;> rfl
  | failsEarly | failsLate | clearPids | clearCount | detaches | reapsFailure | reapFails => rfl
  | gettid here | getppid here | statMarker here | storePids here | storeCount here | installHandlers here
  | rewind here | reads here | advances here | attaches here | waitFails here | drops here | records here
  | publishes here | runs here | storeResult here | storeErr here =>
      rw [here] at abandoned
      cases abandoned

/-- A thread behind a record of length zero stays there until the record is done with. -/
theorem Doomed.view_step {viewed : Int32} (unread : pid ∈ lister.unread) (view : lister.pc.viewed = some viewed)
    (other : viewed ≠ pid) (reply : Reply) : (lister.step reply).Doomed pid := by
  have moves := lister.step_moves reply
  generalize lister.step reply = after at moves ⊢
  have stays : ∀ later : Lister callback, later.unread = lister.unread → later.pc.viewed = some viewed →
      later.Doomed pid := fun later same view => .inr (.inr (.inl ⟨same ▸ unread, viewed, view, other⟩))
  cases moves with
  | rests => exact stays _ rfl view
  | turns here turn =>
      rw [here] at view
      cases turn with
      | full => exact .inr (.inr (.inr rfl))
      | mismatch mismatches => cases mismatches <;> exact stays _ rfl view
      | room | stopped | peekFirst | peekSecond => exact stays _ rfl view
      | _ => cases view
  | passes => exact doomed_advance (.inr unread)
  | attaches here | waitFails here =>
      rw [here] at view
      exact stays _ rfl view
  | drops => exact doomed_advance (.inr unread)
  | records here =>
      rw [here] at view
      cases view
      refine .inr (.inr (.inl ⟨?_, viewed, rfl, other⟩))
      obtain ⟨behind, foreign, fresh⟩ := mem_unread.mp unread
      refine mem_unread.mpr ⟨behind, foreign, ?_⟩
      intro member
      rcases List.mem_append.mp member with old | new
      · exact fresh old
      · exact other (List.mem_singleton.mp new).symm
  | publishes => exact doomed_advance (.inr unread)
  | failsEarly here fails =>
      rw [here] at view
      cases fails <;> cases view
  | gettid here | getppid here | statMarker here | storePids here | storeCount here | installHandlers here
  | rewind here | reads here | advances here | runs here | storeResult here | storeErr here | clearPids here
  | clearCount here | detaches here | failsLate here | takesChild here | reapsFailure here | reapFails here =>
      rw [here] at view
      cases view

/-- A doomed thread stays so until the next pass. -/
theorem Doomed.step (doomed : lister.Doomed pid) (within : lister.pc ≠ .rewind) (reply : Reply) :
    (lister.step reply).Doomed pid := by
  rcases doomed with skipped | dropping | ⟨unread, viewed, view, other⟩ | abandoned
  · have moves := lister.step_moves reply
    generalize lister.step reply = after at moves ⊢
    cases moves with
    | rewind here => exact absurd here within
    | passes | drops => exact doomed_advance (.inl (List.mem_append_left _ skipped))
    | advances | publishes => exact doomed_advance (.inl skipped)
    | _ => exact .inl skipped
  · simp only [Lister.step, dropping]
    exact doomed_advance (.inl (List.mem_append_right _ (List.mem_singleton_self pid)))
  · exact Doomed.view_step unread view other reply
  · exact .inr (.inr (.inr (abandoned_step abandoned reply)))

/-- If the callback runs all the same, it runs with a live thread missing. -/
theorem Doomed.degrades {alive : Int32 → Prop} (doomed : lister.Doomed pid) (scanned : lister.Scanned)
    {position : callback.Local} (running : lister.pc = .callback position) (living : alive pid) :
    ¬ lister.Suspends alive := by
  rw [Scanned, running] at scanned
  obtain ⟨walk, apart, _, nothing⟩ := scanned
  rcases doomed with skipped | dropping | ⟨_, viewed, view, _⟩ | abandoned
  · intro suspends
    obtain ⟨listed, other⟩ := walk.skipped pid skipped
    exact apart nothing pid skipped (suspends pid listed living other)
  · rw [running] at dropping
    cases dropping
  · rw [running] at view
    cases view
  · rw [running] at abandoned
    cases abandoned

end Doomed

end Lister

end Corus.Threads
