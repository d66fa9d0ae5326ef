import Corus.Threads.Lister

/-!
# What a step of the lister can do

The inversion of `Lister.step`: each step moves on and changes nothing else, or is
one of the few that store, record, request or report something. Invariants of the
lister are proved over these moves, so that only here all branches of the step are
split.
-/

namespace Corus.Threads

open Corus.Logical Corus.Platform

/-- The answer leaves the lister where it is: an interrupted call that is made again,
or nothing more to do. -/
def Pc.Rests {Local : Type} (reply : Reply) : Pc Local → Prop
  | .openTask | .getdents | .waitStop _ | .reap _ => reply = .error .eintr
  | .finished _ | .dead _ => True
  | _ => False

/-- The answer makes `lister_thread` fail before it has suspended any thread. -/
inductive Pc.FailsEarly {Local : Type} (reply : Reply) (errno : Errno) : Pc Local → Prop where
  | gettid (failed : reply = .error errno) : FailsEarly reply errno .gettid
  | getppid (failed : reply = .error errno) : FailsEarly reply errno .getppid
  | socket (failed : reply = .error errno) : FailsEarly reply errno .socket
  | closeUnused : FailsEarly reply errno (.closeUnused errno)

/-- The thread in view is passed over: its marker is not the one looked for, or its
attach is denied. -/
inductive Pc.PassesOver {Local : Type} (reply : Reply) (markerIno : UInt64) (pid : Int32) : Pc Local → Prop where
  | unmarked (different : ∀ answer, reply = .ok answer → answer.stored ≠ markerIno) :
      PassesOver reply markerIno pid (.statThread pid)
  | denied {errno : Errno} (denied : reply = .error errno) : PassesOver reply markerIno pid (.attach pid)

/-- The word peeked at is not the one expected. -/
inductive Pc.Mismatches {Local : Type} (reply : Reply) (pid : Int32) : Pc Local → Prop where
  | first (different : ∀ answer, reply = .ok answer → answer.stored ≠ 0) : Mismatches reply pid (.peekFirst pid)
  | second (different : ∀ answer, reply = .ok answer → answer.stored ≠ 1) : Mismatches reply pid (.peekSecond pid)

/-- The step from here reads or writes a static variable of the process, or runs the callback. -/
def Pc.Touches {Local : Type} : Pc Local → Prop
  | .storePids | .storeCount | .publish _ | .callback _ | .clearPids _ | .clearCount _ | .takeChild => True
  | _ => False

/-- Where the lister stands after a step of its callback. -/
def Progress.pc {Local : Type} : Progress Local → Pc Local
  | .running later => .callback later
  | .returned rc => .storeResult rc

namespace Lister

variable {callback : Callback}

/-- The steps that only move on, with the conditions on which they do. -/
inductive Turn (lister : Lister callback) : Pc callback.Local → Reply → Pc callback.Local → Prop where
  | socket {answer : Success} : Turn lister .socket (.ok answer) .setCloexec
  | setCloexec {answer : Success} : Turn lister .setCloexec (.ok answer) .statMarker
  | inherited {errno : Errno} : Turn lister .setCloexec (.error errno) (.closeUnused errno)
  | unmarked {errno : Errno} : Turn lister .statMarker (.error errno) (.closeUnused errno)
  | openTask {answer : Success} : Turn lister .openTask (.ok answer) .rewind
  | unopened {errno : Errno} (failed : errno ≠ .eintr) : Turn lister .openTask (.error errno) (.closeUnused errno)
  | again {answer : Success} (last : answer.entries.isEmpty = true) (busy : lister.added ≠ 0) :
      Turn lister .getdents (.ok answer) .rewind
  | settled {answer : Success} (last : answer.entries.isEmpty = true) (idle : lister.added = 0) :
      Turn lister .getdents (.ok answer) (.closeProc none)
  | unlisted {errno : Errno} (failed : errno ≠ .eintr) :
      Turn lister .getdents (.error errno) (.closeProc (some errno))
  | refill {reply : Reply} (nothing : lister.entries = []) : Turn lister .walk reply .getdents
  | view {reply : Reply} {dirent : Dirent} {rest : List Dirent} {pid : Int32}
      (entries : lister.entries = dirent :: rest)
      (found : lister.candidate dirent = some pid) : Turn lister .walk reply (.statThread pid)
  | full {pid : Int32} {answer : Success} (marked : answer.stored = lister.markerIno)
      (full : maxThreads ≤ lister.pids.length) : Turn lister (.statThread pid) (.ok answer) (.closeProc (some .enomem))
  | room {pid : Int32} {answer : Success} (marked : answer.stored = lister.markerIno)
      (room : lister.pids.length < maxThreads) : Turn lister (.statThread pid) (.ok answer) (.attach pid)
  | stopped {pid : Int32} {answer : Success} : Turn lister (.waitStop pid) (.ok answer) (.peekFirst pid)
  | peekFirst {pid : Int32} {answer : Success} (stored : answer.stored = 0) :
      Turn lister (.peekFirst pid) (.ok answer) (.peekSecond pid)
  | peekSecond {pid : Int32} {answer : Success} (stored : answer.stored = 1) :
      Turn lister (.peekSecond pid) (.ok answer) (.record pid)
  | mismatch {pc : Pc callback.Local} {reply : Reply} {pid : Int32} (mismatches : pc.Mismatches reply pid) :
      Turn lister pc reply (.drop pid)
  | closeProc {failure : Option Errno} {reply : Reply} : Turn lister (.closeProc failure) reply (.closeMarker failure)
  | giveUp {errno : Errno} {reply : Reply} :
      Turn lister (.closeMarker (some errno)) reply (.resume lister.pids (.fail errno))
  | enter {reply : Reply} (found : lister.foundParent = true) :
      Turn lister (.closeMarker none) reply (.callback (callback.enter lister.pids))
  | missing {reply : Reply} (unfound : lister.foundParent = false) :
      Turn lister (.closeMarker none) reply (.clearPids .parentMissing)
  | reportMissing {reply : Reply} : Turn lister (.resume [] (.report .parentMissing)) reply (.finished 3)
  | reportDumped {reply : Reply} : Turn lister (.resume [] (.report .dumped)) reply .takeChild
  | reaped {child : Int32} {answer : Success} (clean : exitedCleanly answer.stored.toNat = true) :
      Turn lister (.reap child) (.ok answer) (.finished 0)

/-- What a step does, given the answer to the call it makes. -/
inductive Moves (lister : Lister callback) (reply : Reply) : Lister callback → Prop where
  | rests (rests : lister.pc.Rests reply) : Moves lister reply lister
  | turns {pc later : Pc callback.Local} (here : lister.pc = pc) (turn : lister.Turn pc reply later) :
      Moves lister reply { lister with pc := later }
  | failsEarly {errno : Errno} {pc : Pc callback.Local} (here : lister.pc = pc) (fails : pc.FailsEarly reply errno) :
      Moves lister reply (lister.fail errno)
  | gettid {answer : Success} (here : lister.pc = .gettid) (ok : reply = .ok answer) :
      Moves lister reply { lister with cloneTid := cInt answer.returned, pc := .getppid }
  | getppid {answer : Success} (here : lister.pc = .getppid) (ok : reply = .ok answer) :
      Moves lister reply { lister with ppid := cInt answer.returned, pc := .socket }
  | statMarker {answer : Success} (here : lister.pc = .statMarker) (ok : reply = .ok answer) :
      Moves lister reply { lister with markerIno := answer.stored, pc := .storePids }
  | storePids (here : lister.pc = .storePids) : Moves lister reply { lister with sigPids := true, pc := .storeCount }
  | storeCount (here : lister.pc = .storeCount) :
      Moves lister reply { lister with sigNumThreads := 0, pc := .installHandlers }
  | installHandlers (here : lister.pc = .installHandlers) :
      Moves lister reply { lister with handlersInstalled := true, pc := .openTask }
  | rewind (here : lister.pc = .rewind) :
      Moves lister reply { lister with
        added := 0
        history := { lister.history with listed := [], skipped := [] }
        pc := .getdents }
  | reads {answer : Success} (here : lister.pc = .getdents) (ok : reply = .ok answer)
      (more : answer.entries.isEmpty = false) :
      Moves lister reply { lister with
        entries := answer.entries
        history := { lister.history with listed := lister.history.listed ++ threadsOf answer.entries }
        pc := .walk }
  | advances {dirent : Dirent} {rest : List Dirent} (here : lister.pc = .walk)
      (entries : lister.entries = dirent :: rest)
      (settled : lister.candidate dirent = none) : Moves lister reply lister.advance
  | passes {pid : Int32} {pc : Pc callback.Local} (here : lister.pc = pc)
      (passed : pc.PassesOver reply lister.markerIno pid) : Moves lister reply (lister.skip [pid]).advance
  | attaches {pid : Int32} {answer : Success} (here : lister.pc = .attach pid) (ok : reply = .ok answer) :
      Moves lister reply { lister.request (.attach pid) with pc := .waitStop pid }
  | waitFails {pid : Int32} {errno : Errno} (here : lister.pc = .waitStop pid) (error : reply = .error errno)
      (failed : errno ≠ .eintr) : Moves lister reply { lister.waitFailed errno with pc := .drop pid }
  | drops {pid : Int32} (here : lister.pc = .drop pid) :
      Moves lister reply ((lister.request (.detach pid)).skip [pid]).advance
  | records {pid : Int32} (here : lister.pc = .record pid) :
      Moves lister reply { lister with pids := lister.pids ++ [pid], pc := .publish pid }
  | publishes {pid : Int32} (here : lister.pc = .publish pid) :
      Moves lister reply (advance { lister with
        sigNumThreads := lister.pids.length
        foundParent := lister.foundParent || pid == lister.ppid
        added := lister.added + 1 })
  | runs {position : callback.Local} {progress : Progress callback.Local} {shared : Shared callback.Memory}
      (here : lister.pc = .callback position)
      (ran : callback.step position reply ⟨lister.snapshotChild, lister.memory⟩ = (progress, shared)) :
      Moves lister reply { lister with
        snapshotChild := shared.snapshotChild
        memory := shared.memory
        pc := progress.pc }
  | storeResult {rc : Int32} (here : lister.pc = .storeResult rc) :
      Moves lister reply { lister with params := { lister.params with result := rc }, pc := .storeErr }
  | storeErr (here : lister.pc = .storeErr) :
      Moves lister reply { lister with params := { lister.params with err := 0 }, pc := .clearPids .dumped }
  | clearPids {outcome : Outcome} (here : lister.pc = .clearPids outcome) :
      Moves lister reply { lister with sigPids := false, pc := .clearCount outcome }
  | clearCount {outcome : Outcome} (here : lister.pc = .clearCount outcome) :
      Moves lister reply { lister with sigNumThreads := 0, pc := .resume lister.pids (.report outcome) }
  | detaches {pid : Int32} {rest : List Int32} {next : AfterResume} (here : lister.pc = .resume (pid :: rest) next) :
      Moves lister reply { lister.request (.detach pid) with pc := .resume rest next }
  | failsLate {errno : Errno} (here : lister.pc = .resume [] (.fail errno)) : Moves lister reply (lister.fail errno)
  | takesChild (here : lister.pc = .takeChild) :
      Moves lister reply { lister with
        snapshotChild := 0
        pc := if 0 < lister.snapshotChild then .reap lister.snapshotChild else .finished 0 }
  | reapsFailure {child : Int32} {answer : Success} (here : lister.pc = .reap child) (ok : reply = .ok answer)
      (unclean : exitedCleanly answer.stored.toNat = false) :
      Moves lister reply { lister with params := ⟨-1, Errno.efault.code⟩, pc := .finished 0 }
  | reapFails {child : Int32} {errno : Errno} (here : lister.pc = .reap child) (error : reply = .error errno)
      (failed : errno ≠ .eintr) :
      Moves lister reply { lister.waitFailed errno with params := ⟨-1, errno.code⟩, pc := .finished 0 }

variable {lister : Lister callback}

theorem openTask_moves {reply : Reply} (pc : lister.pc = .openTask) : lister.Moves reply (lister.step reply) := by
  simp only [Lister.step, pc]
  cases reply with
  | ok answer => exact .turns pc .openTask
  | error errno =>
      simp only
      split
      · rename_i interrupted
        exact .rests (by rw [pc, interrupted]; rfl)
      · rename_i failed
        exact .turns pc (.unopened failed)

/-- A buffer is filled, the pass is over, or the directory cannot be read. -/
theorem getdents_moves {reply : Reply} (pc : lister.pc = .getdents) : lister.Moves reply (lister.step reply) := by
  simp only [Lister.step, pc]
  cases reply with
  | ok answer =>
      simp only
      split
      · rename_i last
        split
        · rename_i none
          exact .turns pc (.settled last none)
        · rename_i some
          exact .turns pc (.again last some)
      · rename_i some
        exact .reads pc rfl (Bool.eq_false_iff.mpr some)
  | error errno =>
      simp only
      split
      · rename_i interrupted
        exact .rests (by rw [pc, interrupted]; rfl)
      · rename_i failed
        exact .turns pc (.unlisted failed)

theorem walk_moves {reply : Reply} (pc : lister.pc = .walk) : lister.Moves reply (lister.step reply) := by
  simp only [Lister.step, pc]
  split
  · rename_i nothing
    exact .turns pc (.refill nothing)
  · rename_i dirent rest entries
    split
    · rename_i pid found
      exact .turns pc (.view entries found)
    · rename_i settled
      exact .advances pc entries settled

/-- A thread with the marker is attached if there is room for it. -/
theorem statThread_moves {reply : Reply} {pid : Int32} (pc : lister.pc = .statThread pid) :
    lister.Moves reply (lister.step reply) := by
  simp only [Lister.step, pc]
  cases reply with
  | ok answer =>
      simp only
      split
      · rename_i marked
        split
        · rename_i full
          exact .turns pc (.full marked full)
        · rename_i room
          exact .turns pc (.room marked (Nat.not_le.mp room))
      · rename_i unmarked
        exact .passes pc (.unmarked fun other same => by cases same; exact unmarked)
  | error errno => exact .passes pc (.unmarked fun other same => by cases same)

theorem waitStop_moves {reply : Reply} {pid : Int32} (pc : lister.pc = .waitStop pid) :
    lister.Moves reply (lister.step reply) := by
  simp only [Lister.step, pc]
  cases reply with
  | ok answer => exact .turns pc .stopped
  | error errno =>
      simp only
      split
      · rename_i interrupted
        exact .rests (by rw [pc, interrupted]; rfl)
      · rename_i failed
        exact .waitFails pc rfl failed

/-- The second word is looked at only behind a first one that matches. -/
theorem peek_moves {reply : Reply} {pid : Int32} (pc : lister.pc = .peekFirst pid ∨ lister.pc = .peekSecond pid) :
    lister.Moves reply (lister.step reply) := by
  rcases pc with pc | pc <;> simp only [Lister.step, pc]
  all_goals
    cases reply with
    | ok answer =>
        simp only
        split
        · rename_i stored
          exact .turns pc (by constructor; exact stored)
        · rename_i different
          exact .turns pc (.mismatch (by constructor; intro other same; cases same; exact different))
    | error errno => exact .turns pc (.mismatch (by constructor; intro other same; cases same))

/-- The child of the callback is waited for, and counts as failed if the wait for it does. -/
theorem reap_moves {reply : Reply} {child : Int32} (pc : lister.pc = .reap child) :
    lister.Moves reply (lister.step reply) := by
  simp only [Lister.step, pc]
  cases reply with
  | ok answer =>
      simp only
      split
      · rename_i clean
        exact .turns pc (.reaped clean)
      · rename_i unclean
        exact .reapsFailure pc rfl (Bool.eq_false_iff.mpr unclean)
  | error errno =>
      simp only
      split
      · rename_i interrupted
        exact .rests (by rw [pc, interrupted]; rfl)
      · rename_i failed
        exact .reapFails pc rfl failed

/-- A step makes one of the moves. -/
theorem step_moves (lister : Lister callback) (reply : Reply) : lister.Moves reply (lister.step reply) := by
  have turns := @Moves.turns _ lister reply
  cases pc : lister.pc
  case openTask => exact openTask_moves pc
  case getdents => exact getdents_moves pc
  case walk => exact walk_moves pc
  case statThread pid => exact statThread_moves pc
  case waitStop pid => exact waitStop_moves pc
  case peekFirst pid => exact peek_moves (.inl pc)
  case peekSecond pid => exact peek_moves (.inr pc)
  case reap child => exact reap_moves pc
  all_goals simp only [Lister.step, pc]
  case gettid =>
    cases reply with
    | ok answer => exact .gettid pc rfl
    | error errno => exact .failsEarly pc (.gettid rfl)
  case getppid =>
    cases reply with
    | ok answer => exact .getppid pc rfl
    | error errno => exact .failsEarly pc (.getppid rfl)
  case socket =>
    cases reply with
    | ok answer => exact turns pc .socket
    | error errno => exact .failsEarly pc (.socket rfl)
  case setCloexec =>
    cases reply with
    | ok answer => exact turns pc .setCloexec
    | error errno => exact turns pc .inherited
  case statMarker =>
    cases reply with
    | ok answer => exact .statMarker pc rfl
    | error errno => exact turns pc .unmarked
  case closeUnused errno => exact .failsEarly pc .closeUnused
  case storePids => exact .storePids pc
  case storeCount => exact .storeCount pc
  case installHandlers => exact .installHandlers pc
  case rewind => exact .rewind pc
  case attach pid =>
    cases reply with
    | ok answer => exact .attaches pc rfl
    | error errno => exact .passes pc (.denied rfl)
  case drop pid => exact .drops pc
  case record pid => exact .records pc
  case publish pid => exact .publishes pc
  case closeProc failure => exact turns pc .closeProc
  case closeMarker failure =>
    cases failure with
    | some errno => exact turns pc .giveUp
    | none =>
        simp only
        split
        · rename_i found
          exact turns pc (.enter found)
        · rename_i unfound
          exact turns pc (.missing (Bool.eq_false_iff.mpr unfound))
  case callback position =>
    split
    · rename_i ran
      exact .runs pc ran
    · rename_i ran
      exact .runs pc ran
  case storeResult rc => exact .storeResult pc
  case storeErr => exact .storeErr pc
  case clearPids outcome => exact .clearPids pc
  case clearCount outcome => exact .clearCount pc
  case resume rest next =>
    rcases rest with _ | ⟨pid, rest⟩
    · rcases next with errno | _ | _
      · exact .failsLate pc
      · exact turns pc .reportMissing
      · exact turns pc .reportDumped
    · exact .detaches pc
  case takeChild => exact .takesChild pc
  case finished code => exact .rests (by rw [pc]; trivial)
  case dead exit => exact .rests (by rw [pc]; trivial)

/-! ## Steps that leave the record of threads and the callback alone -/

/-- A step that neither records a thread nor has to do with the callback. -/
structure Uninvolved (before after : Lister callback) : Prop where
  cloneTid : after.cloneTid = before.cloneTid
  pids : after.pids = before.pids
  memory : after.memory = before.memory
  later : after.pc ≠ .gettid
  position : ∀ position, after.pc ≠ .callback position

theorem Uninvolved.advance {before : Lister callback} (cloneTid : lister.cloneTid = before.cloneTid)
    (pids : lister.pids = before.pids) (memory : lister.memory = before.memory) :
    Uninvolved before lister.advance := by
  obtain ⟨entries, skipped, equal⟩ := lister.advance_eq
  rw [equal]
  exact ⟨cloneTid, pids, memory, by simp, by simp⟩

/-- The steps that do: the lister learns its own id, records a thread, enters the
callback or runs it. -/
theorem step_involved (reply : Reply) :
    lister.pc = .gettid ∨ (∃ pid, lister.pc = .record pid) ∨ lister.pc = .closeMarker none ∨
      (∃ position, lister.pc = .callback position) ∨ Uninvolved lister (lister.step reply) := by
  by_cases first : lister.pc = .gettid
  · exact .inl first
  have moves := lister.step_moves reply
  generalize lister.step reply = after at moves ⊢
  cases moves with
  | gettid here => exact .inl here
  | @records pid here => exact .inr (.inl ⟨pid, here⟩)
  | @runs position _ _ here => exact .inr (.inr (.inr (.inl ⟨position, here⟩)))
  | rests rests =>
      refine .inr (.inr (.inr (.inr ⟨rfl, rfl, rfl, first, ?_⟩)))
      intro position here
      rw [here] at rests
      exact rests
  | turns here turn =>
      cases turn with
      | enter | missing => exact .inr (.inr (.inl here))
      | _ => exact .inr (.inr (.inr (.inr ⟨rfl, rfl, rfl, by simp, by simp⟩)))
  | advances | passes | drops | publishes => exact .inr (.inr (.inr (.inr (Uninvolved.advance rfl rfl rfl))))
  | takesChild =>
      refine .inr (.inr (.inr (.inr ⟨rfl, rfl, rfl, ?_, ?_⟩)))
      · simp only
        split <;> simp
      · simp only
        split <;> simp
  | _ => exact .inr (.inr (.inr (.inr ⟨rfl, rfl, rfl, by simp [fail], by simp [fail]⟩)))

/-! ## Steps that leave the static variables alone -/

section Elsewhere

variable (step : callback.Local → Reply → Shared callback.Memory → Progress callback.Local × Shared callback.Memory)
  (sigPids : Bool) (sigNumThreads : Nat) (snapshotChild : Int32)

/-- The lister under a callback with other steps, in a process whose static variables
have other values. -/
def elsewhere (lister : Lister callback) : Lister { callback with step := step } where
  pc := lister.pc
  cloneTid := lister.cloneTid
  ppid := lister.ppid
  markerIno := lister.markerIno
  entries := lister.entries
  pids := lister.pids
  foundParent := lister.foundParent
  added := lister.added
  sigPids := sigPids
  sigNumThreads := sigNumThreads
  handlersInstalled := lister.handlersInstalled
  params := lister.params
  snapshotChild := snapshotChild
  memory := lister.memory
  history := lister.history

theorem elsewhere_advance (lister : Lister callback) :
    (lister.elsewhere step sigPids sigNumThreads snapshotChild).advance =
      lister.advance.elsewhere step sigPids sigNumThreads snapshotChild := by
  have entries : (lister.elsewhere step sigPids sigNumThreads snapshotChild).entries = lister.entries := rfl
  simp only [advance, entries]
  split
  · rfl
  · split <;> rfl

/-- A step that touches neither the static variables nor the callback is the same there. -/
theorem elsewhere_step {lister : Lister callback} (untouched : ¬ lister.pc.Touches) (reply : Reply) :
    (lister.elsewhere step sigPids sigNumThreads snapshotChild).step reply =
      (lister.step reply).elsewhere step sigPids sigNumThreads snapshotChild := by
  have here : (lister.elsewhere step sigPids sigNumThreads snapshotChild).pc = lister.pc := rfl
  have advanced := fun other => @elsewhere_advance callback step sigPids sigNumThreads snapshotChild other
  cases pc : lister.pc <;> rw [pc] at untouched <;> try exact absurd trivial untouched
  all_goals simp only [Lister.step, here, pc]
  case walk =>
    have entries : (lister.elsewhere step sigPids sigNumThreads snapshotChild).entries = lister.entries := rfl
    have candidate : (lister.elsewhere step sigPids sigNumThreads snapshotChild).candidate = lister.candidate := rfl
    simp only [entries, candidate]
    split
    · rfl
    · split
      · rfl
      · exact advanced lister
  case statThread pid =>
    have marker : (lister.elsewhere step sigPids sigNumThreads snapshotChild).markerIno = lister.markerIno := rfl
    have pids : (lister.elsewhere step sigPids sigNumThreads snapshotChild).pids = lister.pids := rfl
    cases reply with
    | ok answer =>
        simp only [marker, pids]
        split
        · split <;> rfl
        · exact advanced (lister.skip [pid])
    | error errno => exact advanced (lister.skip [pid])
  case attach pid =>
    cases reply with
    | ok answer => rfl
    | error errno => exact advanced (lister.skip [pid])
  case drop pid => exact advanced ((lister.request (.detach pid)).skip [pid])
  case closeMarker failure => cases failure <;> rfl
  case resume rest next =>
    cases rest with
    | nil => rcases next with errno | _ | _ <;> rfl
    | cons pid rest => rfl
  all_goals first
    | rfl
    | (cases reply <;> first | rfl | (dsimp only; split <;> rfl))

end Elsewhere

/-- The statics are what such a step leaves alone. -/
theorem step_untouched (untouched : ¬ lister.pc.Touches) (reply : Reply) :
    (lister.step reply).sigPids = lister.sigPids ∧ (lister.step reply).sigNumThreads = lister.sigNumThreads ∧
      (lister.step reply).snapshotChild = lister.snapshotChild := by
  have advanced : ∀ other : Lister callback, other.advance.sigPids = other.sigPids ∧
      other.advance.sigNumThreads = other.sigNumThreads ∧ other.advance.snapshotChild = other.snapshotChild := by
    intro other
    obtain ⟨entries, skipped, equal⟩ := other.advance_eq
    rw [equal]
    exact ⟨rfl, rfl, rfl⟩
  have moves := lister.step_moves reply
  generalize lister.step reply = after at moves ⊢
  cases moves with
  | advances | passes | drops => exact advanced _
  | storePids here | storeCount here | publishes here | runs here | clearPids here | clearCount here
  | takesChild here =>
      rw [here] at untouched
      exact absurd trivial untouched
  | _ => exact ⟨rfl, rfl, rfl⟩

/-- The lister under a callback with other steps. -/
def under (step : callback.Local → Reply → Shared callback.Memory → Progress callback.Local × Shared callback.Memory)
    (lister : Lister callback) : Lister { callback with step := step } :=
  lister.elsewhere step lister.sigPids lister.sigNumThreads lister.snapshotChild

theorem under_advance {step : callback.Local → Reply → Shared callback.Memory →
    Progress callback.Local × Shared callback.Memory} (lister : Lister callback) :
    (lister.under step).advance = lister.advance.under step := by
  refine (elsewhere_advance step _ _ _ lister).trans ?_
  obtain ⟨entries, skipped, equal⟩ := lister.advance_eq
  rw [equal]
  rfl

/-- It does the same as long as its callback does. -/
theorem under_step {step : callback.Local → Reply → Shared callback.Memory →
      Progress callback.Local × Shared callback.Memory} {reply : Reply}
    (same : ∀ position, lister.pc = .callback position → step position reply = callback.step position reply) :
    (lister.under step).step reply = (lister.step reply).under step := by
  by_cases touched : lister.pc.Touches
  case neg =>
    obtain ⟨sigPids, sigNumThreads, snapshotChild⟩ := step_untouched touched reply
    rw [under, under, sigPids, sigNumThreads, snapshotChild]
    exact elsewhere_step step _ _ _ touched reply
  have here : (lister.under step).pc = lister.pc := rfl
  cases pc : lister.pc <;> rw [pc] at touched <;> try exact touched.elim
  case publish pid =>
    simp only [Lister.step, here, pc]
    exact @under_advance callback step { lister with
      pc := .publish pid
      sigNumThreads := lister.pids.length
      foundParent := lister.foundParent || pid == lister.ppid
      added := lister.added + 1 }
  case callback position =>
    have shared : Shared.mk (lister.under step).snapshotChild (lister.under step).memory =
        ⟨lister.snapshotChild, lister.memory⟩ := rfl
    simp only [Lister.step, here, pc, same position pc, shared]
    split <;> rfl
  all_goals
    simp only [Lister.step, here, pc]
    rfl

end Lister

end Corus.Threads
