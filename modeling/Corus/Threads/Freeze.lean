import Corus.Threads.Population

/-!
# A frozen process

Threads come and go while the lister scans. A pass that has added nothing and during
which no thread went or was denied to the lister has left nothing behind that runs: such
a thread would have been started by one that ran, and that one was there since the pass
began. So the process stands still while the callback runs, and what the callback is
given is all of it.
-/

namespace Corus.Threads

open Corus.Logical Corus.Platform

namespace Freezing

variable {callback : Callback}

/-! ## What is known of the threads -/

/-- The stages of a scan, as far as the threads go. -/
inductive Stage where
  | outside
  | passing
  /-- A thread of the process is in view. -/
  | viewing (pid : Int32)
  /-- It has stopped, unless it is gone. -/
  | verified (pid : Int32)
  | dropping (pid : Int32)
  | counting (pid : Int32)
  | complete

end Freezing

/-- The stage that a position of the lister belongs to. -/
def Pc.stage {Local : Type} : Pc Local → Freezing.Stage
  | .getdents | .walk => .passing
  | .statThread pid | .attach pid | .waitStop pid => .viewing pid
  | .peekFirst pid | .peekSecond pid | .record pid => .verified pid
  | .drop pid => .dropping pid
  | .publish pid => .counting pid
  | .closeProc none | .closeMarker none | .callback _ | .storeResult _ | .storeErr
  | .clearPids .dumped | .clearCount .dumped => .complete
  | _ => .outside

/-- Between its first record and its end, a pass is on. -/
theorem Pc.stage_inPass {Local : Type} (pc : Pc Local) :
    pc.stage = .outside ∨ pc.stage = .complete ∨ pc.inPass = true := by
  cases pc with
  | closeProc failure | closeMarker failure => cases failure <;> simp [stage]
  | clearPids outcome | clearCount outcome => cases outcome <;> simp [stage]
  | _ => simp [stage, inPass, scanPhase]

namespace Freezing

variable {callback : Callback} {own : Int32} {state : Freezing callback}

/-- A pass that lost no thread and added none has, if a thread runs at all, one ahead
of it that it began with. -/
def Led (state : Freezing callback) : Prop :=
  state.lost = true ∨ 0 < state.lister.added ∨
    ∀ pid, state.life pid = .running → ∃ first ∈ state.early, state.life first = .running

/-- What holds in a stage. -/
def Holds (state : Freezing callback) : Stage → Prop
  | .outside => True
  | .passing => state.Led
  | .viewing pid => state.Led ∧ state.life pid ≠ .unborn
  | .verified pid =>
      (state.Led ∨ state.life pid = .stopped) ∧ (state.life pid = .stopped ∨ state.life pid = .gone)
  | .dropping pid => state.Led ∧ (state.lost = true ∨ state.life pid = .gone)
  | .counting pid => state.Led ∨ state.life pid = .stopped
  | .complete => state.lost = true ∨ ∀ pid, state.life pid ≠ .running

/-- What holds throughout: a stopped thread is held, a recorded and held one does not
run, one that was passed over is gone or was denied, and the records that are left name
threads of the process. -/
structure Tracked (own : Int32) (state : Freezing callback) : Prop where
  foreign : state.life own = .gone
  clone : state.lister.pc = .gettid ∨ state.lister.cloneTid = own ∨ ∃ code, state.lister.pc = .finished code
  born : ∀ pid, state.life pid ≠ .unborn → pid ∈ state.born
  stopped : ∀ pid, state.life pid = .stopped → pid ∈ state.lister.held
  recorded : ∀ pid ∈ state.lister.pids, pid ∈ state.lister.held →
    state.life pid = .stopped ∨ state.life pid = .gone
  skipped : ∀ pid ∈ state.lister.history.skipped, state.lost = true ∨ state.life pid = .gone
  entries : ∀ dirent ∈ state.lister.entries, dirent.dReclen ≠ 0 ∧
    ∀ pid, dirent.thread = some pid → state.life pid ≠ .unborn

/-- What is known of the threads in a state. -/
structure Known (own : Int32) (state : Freezing callback) : Prop where
  tracked : state.Tracked own
  stage : state.Holds state.lister.pc.stage

/-- The invariant of the scan beside the threads. -/
structure Sound (own : Int32) (state : Freezing callback) : Prop where
  suspended : state.lister.Suspended
  scanned : state.lister.Scanned
  known : state.Known own

/-! ## Threads that start and exit -/

/-- What a thread can do on its own: come to life, or go. -/
def Moves (before after : Life) : Prop :=
  after = before ∨ before = .unborn ∧ after = .running ∨ before.alive = true ∧ after = .gone

theorem Moves.stopped {before after : Life} (moves : Moves before after) (stopped : after = .stopped) :
    before = .stopped := by
  rcases moves with same | ⟨_, runs⟩ | ⟨_, gone⟩
  · exact same ▸ stopped
  · simp [runs] at stopped
  · simp [gone] at stopped

theorem Moves.gone {before after : Life} (moves : Moves before after) (gone : before = .gone) : after = .gone := by
  rcases moves with same | ⟨unborn, _⟩ | ⟨alive, _⟩
  · exact same.trans gone
  · simp [gone] at unborn
  · simp [gone, Life.alive] at alive

theorem Moves.born {before after : Life} (moves : Moves before after) (born : before ≠ .unborn) :
    after ≠ .unborn := by
  rcases moves with same | ⟨_, runs⟩ | ⟨_, gone⟩
  · exact same ▸ born
  · simp [runs]
  · simp [gone]

theorem Moves.halted {before after : Life} (moves : Moves before after)
    (halted : before = .stopped ∨ before = .gone) : after = .stopped ∨ after = .gone := by
  rcases moves with same | ⟨unborn, _⟩ | ⟨_, gone⟩
  · exact same ▸ halted
  · simp [unborn] at halted
  · exact .inr gone

/-- What threads do on their own keeps what is known of them. -/
theorem Tracked.live {life : Int32 → Life} {born : List Int32} {lost : Bool} (tracked : state.Tracked own)
    (moves : ∀ pid, Moves (state.life pid) (life pid)) (known : ∀ pid, life pid ≠ .unborn → pid ∈ born)
    (noted : state.lost = true → lost = true) :
    Tracked own { state with life := life, born := born, lost := lost } where
  foreign := (moves own).gone tracked.foreign
  clone := tracked.clone
  born := known
  stopped pid stopped := tracked.stopped pid ((moves pid).stopped stopped)
  recorded pid member held := (moves pid).halted (tracked.recorded pid member held)
  skipped pid member := (tracked.skipped pid member).imp noted (moves pid).gone
  entries dirent member := by
    obtain ⟨length, named⟩ := tracked.entries dirent member
    exact ⟨length, fun pid thread => (moves pid).born (named pid thread)⟩

/-- A running thread starts another one. -/
theorem Sound.spawn {parent child : Int32} (sound : state.Sound own) (running : state.life parent = .running)
    (fresh : state.life child = .unborn) : (state.apply (.spawn parent child)).Sound own := by
  obtain ⟨suspended, scanned, tracked, stage⟩ := sound
  have moves : ∀ pid, Moves (state.life pid) (Function.update state.life child .running pid) := by
    intro pid
    by_cases isChild : pid = child
    · subst isChild
      exact .inr (.inl ⟨fresh, Function.update_self ..⟩)
    · exact .inl (Function.update_of_ne isChild ..)
  have kept : ∀ pid, state.life pid ≠ .unborn →
      Function.update state.life child .running pid = state.life pid := by
    intro pid old
    refine Function.update_of_ne ?_ ..
    rintro rfl
    exact old fresh
  have known : ∀ pid, Function.update state.life child .running pid ≠ .unborn → pid ∈ child :: state.born := by
    intro pid alive
    by_cases isChild : pid = child
    · exact isChild ▸ List.mem_cons_self
    · rw [Function.update_of_ne isChild] at alive
      exact List.mem_cons_of_mem _ (tracked.born pid alive)
  have led : state.Led → (state.apply (.spawn parent child)).Led := by
    rintro (lost | added | ahead)
    · exact .inl lost
    · exact .inr (.inl added)
    · refine .inr (.inr fun _ _ => ?_)
      obtain ⟨first, early, runs⟩ := ahead parent running
      exact ⟨first, early, (kept first (by simp [runs])).trans runs⟩
  have stays : ∀ pid, state.life pid = .stopped → Function.update state.life child .running pid = .stopped := by
    intro pid stopped
    exact (kept pid (by simp [stopped])).trans stopped
  refine ⟨suspended, scanned, tracked.live moves known id, ?_⟩
  show Holds (state.apply (.spawn parent child)) state.lister.pc.stage
  revert stage
  cases state.lister.pc.stage with
  | outside => exact id
  | passing => exact led
  | viewing pid => exact fun ⟨ahead, born⟩ => ⟨led ahead, (moves pid).born born⟩
  | verified pid => exact fun ⟨ahead, halted⟩ => ⟨ahead.imp led (stays pid), (moves pid).halted halted⟩
  | dropping pid => exact fun ⟨ahead, gone⟩ => ⟨led ahead, gone.imp_right (moves pid).gone⟩
  | counting pid => exact fun ahead => ahead.imp led (stays pid)
  | complete =>
      -- Nothing is started where nothing runs.
      rintro (lost | still)
      · exact .inl lost
      · exact absurd running (still parent)

/-- A thread goes. Within a pass the observer takes note. -/
theorem Sound.exit {pid : Int32} (sound : state.Sound own) (alive : (state.life pid).alive = true) :
    (state.apply (.exit pid)).Sound own := by
  obtain ⟨suspended, scanned, tracked, stage⟩ := sound
  have moves : ∀ other, Moves (state.life other) (Function.update state.life pid .gone other) := by
    intro other
    by_cases same : other = pid
    · subst same
      exact .inr (.inr ⟨alive, Function.update_self ..⟩)
    · exact .inl (Function.update_of_ne same ..)
  have known : ∀ other, Function.update state.life pid .gone other ≠ .unborn → other ∈ state.born := by
    intro other born
    by_cases same : other = pid
    · subst same
      refine tracked.born other ?_
      intro unborn
      simp [unborn, Life.alive] at alive
    · rw [Function.update_of_ne same] at born
      exact tracked.born other born
  refine ⟨suspended, scanned, tracked.live moves known (fun lost => by simp [lost]), ?_⟩
  show Holds (state.apply (.exit pid)) state.lister.pc.stage
  rcases state.lister.pc.stage_inPass with outside | complete | inPass
  · rw [outside]
    exact trivial
  · rw [complete] at stage ⊢
    rcases stage with lost | still
    · exact .inl (by simp [apply, lost])
    · right
      intro other runs
      by_cases same : other = pid
      · subst same
        rw [show (state.apply (.exit other)).life other = .gone from Function.update_self ..] at runs
        cases runs
      · rw [show (state.apply (.exit pid)).life other = _ from Function.update_of_ne same ..] at runs
        exact still other runs
  · have lost : (state.apply (.exit pid)).lost = true := by simp [apply, inPass]
    have led : (state.apply (.exit pid)).Led := .inl lost
    revert stage
    cases state.lister.pc.stage with
    | outside => exact id
    | passing => exact fun _ => led
    | viewing other => exact fun ⟨_, born⟩ => ⟨led, (moves other).born born⟩
    | verified other => exact fun ⟨_, halted⟩ => ⟨.inl led, (moves other).halted halted⟩
    | dropping other => exact fun _ => ⟨led, .inl lost⟩
    | counting other => exact fun _ => .inl led
    | complete => exact fun _ => .inl lost

/-! ## Steps of the lister -/

/-- The end of the loop body, over records that all have a length. -/
theorem advance_records {lister : Lister callback} (records : ∀ dirent ∈ lister.entries, dirent.dReclen ≠ 0) :
    lister.advance = { lister with pc := .walk, entries := lister.entries.tail } := by
  unfold Lister.advance
  cases entries : lister.entries with
  | nil => simp
  | cons dirent rest =>
      have length : dirent.dReclen ≠ 0 := records dirent (by simp [entries])
      simp [length]

/-- The lister learns its own id once. -/
theorem clone_step {reply : Reply} (tracked : state.Tracked own) (answered : state.answers own reply = true) :
    (state.lister.step reply).pc = .gettid ∨ (state.lister.step reply).cloneTid = own ∨
      ∃ code, (state.lister.step reply).pc = .finished code := by
  by_cases first : state.lister.pc = .gettid
  · cases reply with
    | ok answer =>
        simp only [answers, first, beq_iff_eq] at answered
        simp only [Lister.step, first]
        exact .inr (.inl answered)
    | error errno =>
        simp only [Lister.step, first]
        exact .inr (.inr ⟨1, rfl⟩)
  rcases tracked.clone with pc | known | ⟨code, pc⟩
  · exact absurd pc first
  · refine .inr (.inl ?_)
    rcases @Lister.step_involved _ state.lister reply with pc | ⟨pid, pc⟩ | pc | ⟨position, pc⟩ | uninvolved
    · exact absurd pc first
    · simpa only [Lister.step, pc] using known
    · simpa only [Lister.step, pc] using known
    · simp only [Lister.step, pc]
      split <;> exact known
    · exact uninvolved.cloneTid.trans known
  · refine .inr (.inr ⟨code, ?_⟩)
    simp only [Lister.step, pc]

/-- A step that leaves the threads alone, holds and records the same ones, and passes
over none but those that are gone or denied. -/
theorem Tracked.keep {after : Freezing callback} (tracked : state.Tracked own) (life : after.life = state.life)
    (born : after.born = state.born)
    (clone : after.lister.pc = .gettid ∨ after.lister.cloneTid = own ∨ ∃ code, after.lister.pc = .finished code)
    (pids : after.lister.pids = state.lister.pids) (held : after.lister.held = state.lister.held)
    (skipped : ∀ pid ∈ after.lister.history.skipped, after.lost = true ∨ state.life pid = .gone)
    (entries : ∀ dirent ∈ after.lister.entries, dirent ∈ state.lister.entries) : after.Tracked own where
  foreign := life ▸ tracked.foreign
  clone := clone
  born := by
    rw [life, born]
    exact tracked.born
  stopped := by
    rw [life, held]
    exact tracked.stopped
  recorded := by
    rw [life, pids, held]
    exact tracked.recorded
  skipped := by
    rw [life]
    exact skipped
  entries dirent member := by
    rw [life]
    exact tracked.entries dirent (entries dirent member)

/-- A position whose step works on the records or on the threads. -/
def busy {Local : Type} : Pc Local → Bool
  | .rewind | .getdents | .walk | .statThread _ | .attach _ | .waitStop _ | .drop _ | .record _ | .publish _
  | .resume (_ :: _) _ => true
  | _ => false

/-- A step that does neither. -/
structure Idle (before after : Lister callback) : Prop where
  pids : after.pids = before.pids
  held : after.held = before.held
  skipped : after.history.skipped = before.history.skipped
  entries : after.entries = before.entries
  added : after.added = before.added

theorem Idle.of_step {lister : Lister callback} (reply : Reply) (idle : busy lister.pc = false) :
    Idle lister (lister.step reply) := by
  have moves := lister.step_moves reply
  generalize lister.step reply = after at moves
  cases moves with
  | rewind here | reads here | advances here | attaches here | waitFails here | drops here | records here
  | publishes here | detaches here =>
      rw [here] at idle
      cases idle
  | passes here passed =>
      rw [here] at idle
      cases passed <;> cases idle
  | _ => exact ⟨rfl, rfl, rfl, rfl, rfl⟩

/-- Outside those positions and outside a pass, a step does nothing to the threads. -/
theorem listerStep_idle (reply : Reply) (idle : busy state.lister.pc = false)
    (outside : state.lister.pc.inPass = false) :
    state.listerStep reply = { state with lister := state.lister.step reply } := by
  cases pc : state.lister.pc <;> rw [pc] at idle outside
  case resume rest next =>
    rcases rest with _ | ⟨pid, rest⟩
    · simp only [listerStep, lives, denies, Bool.or_false, pc]
    · cases idle
  case rewind | getdents | walk | statThread | attach | waitStop | drop | record | publish => cases idle
  case peekFirst | peekSecond => cases outside
  all_goals simp only [listerStep, lives, denies, Bool.or_false, pc]

/-- The state with a denial noted. -/
def note (state : Freezing callback) (reply : Reply) : Freezing callback :=
  { state with lost := state.lost || state.denies reply }

/-- Where no thread is looked at, none is denied. -/
theorem note_eq {reply : Reply} (spares : state.denies reply = false) : state.note reply = state := by
  simp only [note, spares, Bool.or_false]

theorem Led.note (led : state.Led) (reply : Reply) : (state.note reply).Led :=
  led.imp_left fun lost => by simp [Freezing.note, lost]

theorem Tracked.note (tracked : state.Tracked own) (reply : Reply) : (state.note reply).Tracked own :=
  tracked.live (fun _ => .inl rfl) tracked.born fun lost => by simp [lost]

/-- What is denied, or is not there any more, can be passed over. -/
theorem missed_of_note {reply : Reply} {pid : Int32} (born : state.life pid ≠ .unborn)
    (missed : (state.life pid).alive = true → state.denies reply = true) :
    (state.note reply).lost = true ∨ state.life pid = .gone := by
  cases life : state.life pid with
  | unborn => exact absurd life born
  | gone => exact .inr rfl
  | running | stopped => exact .inl (by simp [note, missed (by rw [life]; rfl)])

/-- In a pass the lister knows its own id. -/
theorem Tracked.cloneTid (tracked : state.Tracked own) (inPass : state.lister.pc.inPass = true) :
    state.lister.cloneTid = own := by
  rcases tracked.clone with pc | known | ⟨code, pc⟩
  · simp [pc, Pc.inPass, Pc.scanPhase] at inPass
  · exact known
  · simp [pc, Pc.inPass, Pc.scanPhase] at inPass

/-- A detach takes one thread off the held ones. -/
theorem mem_outstanding_detach {requests : List Request} {pid other : Int32} :
    other ∈ outstanding (requests ++ [.detach pid]) ↔ other ∈ outstanding requests ∧ other ≠ pid := by
  rw [outstanding_append]
  simp [hold]

/-- Going on to another position. -/
theorem Tracked.moved (tracked : state.Tracked own) (cloneTid : state.lister.cloneTid = own)
    (pc : Pc callback.Local) : Tracked own { state with lister := { state.lister with pc := pc } } :=
  tracked.keep rfl rfl (.inr (.inl cloneTid)) rfl rfl tracked.skipped fun _ member => member

/-- A step that stops or resumes one live thread. -/
theorem Tracked.change {after : Freezing callback} {pid : Int32} (tracked : state.Tracked own)
    (before : (state.life pid).alive = true)
    (elsewhere : ∀ other, other ≠ pid → after.life other = state.life other)
    (here : (after.life pid).alive = true) (born : after.born = state.born) (lost : after.lost = state.lost)
    (cloneTid : after.lister.cloneTid = own)
    (pids : after.lister.pids = state.lister.pids)
    (skipped : after.lister.history.skipped = state.lister.history.skipped)
    (entries : after.lister.entries = state.lister.entries)
    (others : ∀ other, other ≠ pid → (other ∈ after.lister.held ↔ other ∈ state.lister.held))
    (stopped : after.life pid = .stopped → pid ∈ after.lister.held)
    (recorded : pid ∈ state.lister.pids → pid ∈ after.lister.held →
      after.life pid = .stopped ∨ after.life pid = .gone) :
    after.Tracked own where
  foreign := by
    rw [elsewhere own ?_]
    · exact tracked.foreign
    · rintro rfl
      simp [tracked.foreign, Life.alive] at before
  clone := .inr (.inl cloneTid)
  born other known := by
    rw [born]
    by_cases same : other = pid
    · subst same
      refine tracked.born other ?_
      intro unborn
      simp [unborn, Life.alive] at before
    · exact tracked.born other (elsewhere other same ▸ known)
  stopped other stops := by
    by_cases same : other = pid
    · subst same
      exact stopped stops
    · exact (others other same).mpr (tracked.stopped other (elsewhere other same ▸ stops))
  recorded other member held := by
    rw [pids] at member
    by_cases same : other = pid
    · subst same
      exact recorded member held
    · rw [elsewhere other same]
      exact tracked.recorded other member ((others other same).mp held)
  skipped other member := by
    rw [skipped] at member
    rw [lost]
    refine (tracked.skipped other member).imp_right fun gone => ?_
    rw [elsewhere other ?_]
    · exact gone
    · rintro rfl
      simp [gone, Life.alive] at before
  entries dirent member := by
    rw [entries] at member
    obtain ⟨length, named⟩ := tracked.entries dirent member
    refine ⟨length, fun other thread => ?_⟩
    by_cases same : other = pid
    · subst same
      intro unborn
      simp [unborn, Life.alive] at here
    · rw [elsewhere other same]
      exact named other thread

/-- Passing over a thread that is gone or denied. -/
theorem Tracked.skip {pid : Int32} (tracked : state.Tracked own) (cloneTid : state.lister.cloneTid = own)
    (missed : state.lost = true ∨ state.life pid = .gone) :
    Tracked own { state with lister := state.lister.skip [pid] } := by
  refine tracked.keep rfl rfl (.inr (.inl cloneTid)) rfl rfl ?_ ?_
  · intro other member
    rcases List.mem_append.mp member with old | new
    · exact tracked.skipped other old
    · exact List.mem_singleton.mp new ▸ missed
  · exact fun dirent member => member

/-- Passing on to the next record. -/
theorem Tracked.advance (tracked : state.Tracked own) (cloneTid : state.lister.cloneTid = own) :
    Tracked own { state with lister := state.lister.advance } := by
  rw [advance_records fun dirent member => (tracked.entries dirent member).1]
  refine tracked.keep rfl rfl (.inr (.inl cloneTid)) rfl rfl tracked.skipped ?_
  exact fun dirent member => List.mem_of_mem_tail member

/-- Passing on, with nothing but the pass to be led. -/
theorem Known.advance (tracked : state.Tracked own) (cloneTid : state.lister.cloneTid = own) (led : state.Led) :
    Known own { state with lister := state.lister.advance } where
  tracked := tracked.advance cloneTid
  stage := by
    obtain ⟨entries, skipped, equal⟩ := state.lister.advance_eq
    rw [equal]
    exact led

theorem Known.skip_advance {pid : Int32} (tracked : state.Tracked own) (cloneTid : state.lister.cloneTid = own)
    (led : state.Led) (missed : state.lost = true ∨ state.life pid = .gone) :
    Known own { state with lister := (state.lister.skip [pid]).advance } :=
  @Known.advance _ _ { state with lister := state.lister.skip [pid] } (tracked.skip cloneTid missed) cloneTid led

/-- The rewind: every thread that runs is there at the start. -/
theorem Known.rewind (tracked : state.Tracked own) (pc : state.lister.pc = .rewind) (reply : Reply) :
    (state.listerStep reply).Known own := by
  have cloneTid := tracked.cloneTid (by simp [pc, Pc.inPass, Pc.scanPhase])
  constructor
  · refine tracked.keep ?_ rfl ?_ ?_ ?_ ?_ ?_
    all_goals simp [listerStep, lives, Lister.step, Lister.held, pc, cloneTid]
  · simp only [listerStep, Lister.step, pc]
    right
    right
    intro pid runs
    simp only [lives, pc] at runs ⊢
    refine ⟨pid, List.mem_filter.mpr ⟨tracked.born pid (by simp [runs]), ?_⟩, runs⟩
    simp [runs, Life.alive]

/-- At the end of a pass that added nothing, no thread that was there since its start
runs, so none does. -/
theorem Sound.still (sound : state.Sound own) (pc : state.lister.pc = .getdents) (nothing : state.lister.added = 0)
    (whole : ∀ pid ∈ state.early, (state.life pid).alive = true → pid ∈ state.lister.history.listed) :
    state.lost = true ∨ ∀ pid, state.life pid ≠ .running := by
  obtain ⟨suspended, scanned, tracked, stage⟩ := sound
  have cloneTid := tracked.cloneTid (by simp [pc, Pc.inPass, Pc.scanPhase])
  simp only [Lister.Suspended, pc, Pc.phase] at suspended
  simp only [Lister.Scanned, pc, Pc.scanPhase] at scanned
  rw [pc] at stage
  obtain ⟨walk, _, entries⟩ := scanned
  by_cases lost : state.lost = true
  · exact .inl lost
  rcases stage with noted | added | ahead
  · exact absurd noted lost
  · omega
  refine .inr fun pid runs => ?_
  obtain ⟨first, early, firstRuns⟩ := ahead pid runs
  have listed := whole first early (by simp [firstRuns, Life.alive])
  rcases walk.accounted first listed with (isOwn | recorded | skipped) | unread
  · have foreign := tracked.foreign
    rw [← cloneTid, ← show first = state.lister.cloneTid from isOwn, firstRuns] at foreign
    cases foreign
  · have held : first ∈ state.lister.held := suspended.2.1 ▸ recorded
    rcases tracked.recorded first recorded held with stopped | gone
    · simp [firstRuns] at stopped
    · simp [firstRuns] at gone
  · have gone := (tracked.skipped first skipped).resolve_left lost
    simp [firstRuns] at gone
  · rw [entries] at unread
    cases unread

/-- A read of the directory. -/
theorem Known.getdents {reply : Reply} (sound : state.Sound own) (answered : state.answers own reply = true)
    (pc : state.lister.pc = .getdents) : (state.listerStep reply).Known own := by
  have tracked := sound.known.tracked
  have stage := sound.known.stage
  have cloneTid := tracked.cloneTid (by simp [pc, Pc.inPass, Pc.scanPhase])
  have equal : state.listerStep reply = { state with lister := state.lister.step reply } := by
    simp only [listerStep, lives, denies, Bool.or_false, pc]
  rw [pc] at stage
  simp only [answers, pc] at answered
  rw [equal]
  cases reply with
  | error errno =>
      simp only [Lister.step, pc]
      split
      · exact sound.known
      · exact ⟨tracked.moved cloneTid _, trivial⟩
  | ok answer =>
      simp only at answered
      simp only [Lister.step, pc]
      split
      · rename_i empty
        refine ⟨tracked.moved cloneTid _, ?_⟩
        simp only [empty, if_true, List.all_eq_true, Bool.or_eq_true, Bool.not_eq_true', List.contains_eq_mem,
          decide_eq_true_eq] at answered
        split
        · rename_i nothing
          refine sound.still pc nothing ?_
          intro pid early alive
          rcases answered pid early with dead | listed
          · simp [alive] at dead
          · exact listed
        · exact trivial
      · rename_i some
        refine ⟨?_, stage⟩
        simp only [some, Bool.false_eq_true, if_false, List.all_eq_true, Bool.and_eq_true, bne_iff_ne] at answered
        refine ⟨tracked.foreign, .inr (.inl cloneTid), tracked.born, tracked.stopped, tracked.recorded,
          tracked.skipped, ?_⟩
        intro dirent member
        obtain ⟨length, named⟩ := answered dirent member
        refine ⟨length, fun pid thread => ?_⟩
        simpa [thread] using named

/-- The look at the next record. -/
theorem Known.walk {reply : Reply} (known : state.Known own) (pc : state.lister.pc = .walk) :
    (state.listerStep reply).Known own := by
  obtain ⟨tracked, stage⟩ := known
  have cloneTid := tracked.cloneTid (by simp [pc, Pc.inPass, Pc.scanPhase])
  have equal : state.listerStep reply = { state with lister := state.lister.step reply } := by
    simp only [listerStep, lives, denies, Bool.or_false, pc]
  rw [pc] at stage
  rw [equal]
  simp only [Lister.step, pc]
  split
  · exact ⟨tracked.moved cloneTid _, stage⟩
  · rename_i dirent rest entries
    split
    · rename_i pid found
      refine ⟨tracked.moved cloneTid _, stage, ?_⟩
      refine (tracked.entries dirent ?_).2 pid (Lister.candidate_fresh found).1
      rw [entries]
      exact List.mem_cons_self
    · exact Known.advance tracked cloneTid stage

/-- The look at the marker of a thread. One that does not show it is gone or denied. -/
theorem Known.statThread {reply : Reply} {pid : Int32} (known : state.Known own)
    (pc : state.lister.pc = .statThread pid) : (state.listerStep reply).Known own := by
  obtain ⟨tracked, stage⟩ := known
  have cloneTid := tracked.cloneTid (by simp [pc, Pc.inPass, Pc.scanPhase])
  have equal : state.listerStep reply = { state.note reply with lister := state.lister.step reply } := by
    simp only [listerStep, note, lives, pc]
  have noted := tracked.note reply
  rw [pc] at stage
  obtain ⟨led, born⟩ := stage
  rw [equal]
  cases reply with
  | error errno =>
      simp only [Lister.step, pc]
      refine Known.skip_advance noted cloneTid (led.note _) (missed_of_note born ?_)
      intro alive
      simp [denies, pc, alive, shows]
  | ok answer =>
      simp only [Lister.step, pc]
      split
      · split
        · exact ⟨noted.moved cloneTid _, trivial⟩
        · exact ⟨noted.moved cloneTid _, led.note _, born⟩
      · rename_i other
        refine Known.skip_advance noted cloneTid (led.note _) (missed_of_note born ?_)
        intro alive
        simp [denies, pc, alive, shows, other]

/-- The attach. A thread that cannot be attached is gone or denied. -/
theorem Known.attach {reply : Reply} {pid : Int32} (sound : state.Sound own)
    (pc : state.lister.pc = .attach pid) : (state.listerStep reply).Known own := by
  obtain ⟨suspended, scanned, tracked, stage⟩ := sound
  have cloneTid := tracked.cloneTid (by simp [pc, Pc.inPass, Pc.scanPhase])
  have equal : state.listerStep reply = { state.note reply with lister := state.lister.step reply } := by
    simp only [listerStep, note, lives, pc]
  have noted := tracked.note reply
  simp only [Lister.Suspended, pc, Pc.phase] at suspended
  rw [pc] at stage
  obtain ⟨led, born⟩ := stage
  rw [equal]
  cases reply with
  | error errno =>
      simp only [Lister.step, pc]
      refine Known.skip_advance noted cloneTid (led.note _) (missed_of_note born ?_)
      intro alive
      simp [denies, pc, alive, Except.isOk, Except.toBool]
  | ok answer =>
      simp only [Lister.step, pc]
      have held : ∀ other, other ∈ outstanding (state.lister.history.requests ++ [.attach pid]) ↔
          other ∈ state.lister.held ∨ other = pid := by
        intro other
        rw [outstanding_append]
        simp [hold, Lister.held]
      refine ⟨⟨noted.foreign, .inr (.inl cloneTid), noted.born, ?_, ?_, noted.skipped, noted.entries⟩,
        led.note _, born⟩
      · exact fun other stopped => (held other).mpr (.inl (tracked.stopped other stopped))
      · intro other recorded heldAfter
        rcases (held other).mp heldAfter with before | isPid
        · exact tracked.recorded other recorded before
        · subst isPid
          exact absurd recorded suspended.2.2.2

/-- The wait for an attached thread, which stops it. -/
theorem Known.waitStop {reply : Reply} {pid : Int32} (sound : state.Sound own)
    (pc : state.lister.pc = .waitStop pid) : (state.listerStep reply).Known own := by
  obtain ⟨suspended, scanned, tracked, stage⟩ := sound
  have cloneTid := tracked.cloneTid (by simp [pc, Pc.inPass, Pc.scanPhase])
  simp only [Lister.Suspended, pc, Pc.phase] at suspended
  have known : state.Known own := ⟨tracked, stage⟩
  rw [pc] at stage
  obtain ⟨led, born⟩ := stage
  cases reply with
  | error errno =>
      have equal : state.listerStep (.error errno) =
          { state.note (.error errno) with lister := state.lister.step (.error errno) } := by
        simp only [listerStep, note, lives, pc]
      have noted := tracked.note (.error errno)
      rw [equal]
      simp only [Lister.step, pc]
      split
      · rename_i interrupted
        rw [note_eq (by simp [denies, pc, interrupted])]
        exact known
      · rename_i other
        refine ⟨?_, led.note _, missed_of_note born ?_⟩
        · exact noted.keep rfl rfl (.inr (.inl cloneTid)) rfl rfl noted.skipped fun _ member => member
        · intro alive
          simp [denies, pc, alive, other]
  | ok answer =>
      have equal : state.listerStep (.ok answer) = { state with
          lister := { state.lister with pc := .peekFirst pid }
          life := Function.update state.life pid (state.life pid).stop } := by
        simp only [listerStep, lives, denies, Bool.or_false, Lister.step, pc]
      rw [equal]
      by_cases runs : state.life pid = .running
      · have here : Function.update state.life pid (state.life pid).stop pid = .stopped := by
          rw [Function.update_self, runs]
          rfl
        refine ⟨tracked.change (by simp [runs, Life.alive]) (fun other different => Function.update_of_ne different ..)
          (congrArg Life.alive here) rfl rfl cloneTid (by rfl) (by rfl) (by rfl) (fun other different => Iff.rfl) ?_
          (fun _ _ => .inl here), .inr here, .inl here⟩
        intro _
        show pid ∈ state.lister.held
        rw [suspended.2.1]
        simp
      · have settled : (state.life pid).stop = state.life pid := by
          cases life : state.life pid <;> simp [Life.stop, life] at runs ⊢
        rw [settled, Function.update_eq_self]
        refine ⟨tracked.moved cloneTid _, .inl led, ?_⟩
        cases life : state.life pid <;> simp [life] at runs born ⊢

/-- A verified thread that does not show what it should is gone or denied. -/
theorem Holds.dropped {reply : Reply} {pid : Int32} (verified : state.Holds (.verified pid))
    (denied : (state.life pid).alive = true → state.denies reply = true) :
    (state.note reply).Holds (.dropping pid) := by
  obtain ⟨ahead, halted⟩ := verified
  rcases halted with stopped | gone
  · have lost : (state.note reply).lost = true := by simp [note, denied (by simp [stopped, Life.alive])]
    exact ⟨.inl lost, .inl lost⟩
  · exact ⟨(ahead.resolve_right (by simp [gone])).note reply, .inr gone⟩

/-- Looking into the memory of a stopped thread. -/
theorem Known.peek {reply : Reply} {pid : Int32} (known : state.Known own)
    (pc : state.lister.pc = .peekFirst pid ∨ state.lister.pc = .peekSecond pid) :
    (state.listerStep reply).Known own := by
  obtain ⟨tracked, stage⟩ := known
  have cloneTid : state.lister.cloneTid = own :=
    tracked.cloneTid (by rcases pc with pc | pc <;> simp [pc, Pc.inPass, Pc.scanPhase])
  have noted := tracked.note reply
  rcases pc with pc | pc
  all_goals
    have equal : state.listerStep reply = { state.note reply with lister := state.lister.step reply } := by
      simp only [listerStep, note, lives, pc]
    rw [pc] at stage
    rw [equal]
    cases reply with
    | error errno =>
        simp only [Lister.step, pc]
        refine ⟨noted.moved cloneTid _, Holds.dropped stage ?_⟩
        intro alive
        simp [denies, pc, alive, shows]
    | ok answer =>
        simp only [Lister.step, pc]
        split
        · exact ⟨noted.moved cloneTid _, stage.1.imp_left fun led => led.note _, stage.2⟩
        · rename_i different
          refine ⟨noted.moved cloneTid _, Holds.dropped stage ?_⟩
          intro alive
          simp [denies, pc, alive, shows, different]

/-- A detach, which lets a stopped thread run. -/
theorem Tracked.detach {pid : Int32} (tracked : state.Tracked own) (cloneTid : state.lister.cloneTid = own) :
    Tracked own { state with
      lister := state.lister.request (.detach pid)
      life := Function.update state.life pid (state.life pid).resume } := by
  have held := fun other => @mem_outstanding_detach state.lister.history.requests pid other
  by_cases stopped : state.life pid = .stopped
  · have here : Function.update state.life pid (state.life pid).resume pid = .running := by
      rw [Function.update_self, stopped]
      rfl
    refine tracked.change (by simp [stopped, Life.alive]) (fun other different => Function.update_of_ne different ..)
      (congrArg Life.alive here) rfl rfl cloneTid (by rfl) (by rfl) (by rfl) ?_ ?_ ?_
    · intro other different
      exact ⟨fun after => ((held other).mp after).1, fun old => (held other).mpr ⟨old, different⟩⟩
    · intro stops
      exact absurd (here.symm.trans stops) (by simp)
    · exact fun _ after => absurd rfl ((held pid).mp after).2
  · rw [Life.resume_of_ne_stopped stopped, Function.update_eq_self]
    refine ⟨tracked.foreign, .inr (.inl cloneTid), tracked.born, ?_, ?_, tracked.skipped, tracked.entries⟩
    · intro other stops
      refine (held other).mpr ⟨tracked.stopped other stops, ?_⟩
      rintro rfl
      exact stopped stops
    · exact fun other recorded after => tracked.recorded other recorded ((held other).mp after).1

/-- A thread that is dropped is gone, or runs on. -/
theorem Known.drop {reply : Reply} {pid : Int32} (known : state.Known own) (pc : state.lister.pc = .drop pid) :
    (state.listerStep reply).Known own := by
  obtain ⟨tracked, stage⟩ := known
  have cloneTid := tracked.cloneTid (by simp [pc, Pc.inPass, Pc.scanPhase])
  rw [pc] at stage
  obtain ⟨led, missed⟩ := stage
  have equal : state.listerStep reply =
      { state with
        lister := ((state.lister.request (.detach pid)).skip [pid]).advance
        life := Function.update state.life pid (state.life pid).resume } := by
    simp only [listerStep, lives, denies, Bool.or_false, Lister.step, pc]
  have detached := @Tracked.detach _ _ _ pid tracked cloneTid
  rw [equal]
  refine @Known.skip_advance _ _ { state with
    lister := state.lister.request (.detach pid)
    life := Function.update state.life pid (state.life pid).resume } _ detached cloneTid ?_ ?_
  · rcases missed with lost | gone
    · exact .inl lost
    · have same : (state.life pid).resume = state.life pid := by simp [gone, Life.resume]
      rw [same, Function.update_eq_self]
      exact led
  · refine missed.imp_right fun gone => ?_
    show Function.update state.life pid (state.life pid).resume pid = .gone
    rw [Function.update_self, gone]
    rfl

/-- The record of a verified thread. -/
theorem Known.record {reply : Reply} {pid : Int32} (known : state.Known own) (pc : state.lister.pc = .record pid) :
    (state.listerStep reply).Known own := by
  obtain ⟨tracked, stage⟩ := known
  have cloneTid := tracked.cloneTid (by simp [pc, Pc.inPass, Pc.scanPhase])
  rw [pc] at stage
  obtain ⟨ahead, halted⟩ := stage
  have equal : state.listerStep reply =
      { state with lister := { state.lister with pids := state.lister.pids ++ [pid], pc := .publish pid } } := by
    simp only [listerStep, lives, denies, Bool.or_false, Lister.step, pc]
  rw [equal]
  refine ⟨⟨tracked.foreign, .inr (.inl cloneTid), tracked.born, tracked.stopped, ?_, tracked.skipped,
    tracked.entries⟩, ahead⟩
  intro other recorded held
  rcases List.mem_append.mp recorded with old | new
  · exact tracked.recorded other old held
  · exact List.mem_singleton.mp new ▸ halted

/-- The count of a recorded thread: from here on the pass has added something. -/
theorem Known.publish {reply : Reply} {pid : Int32} (known : state.Known own) (pc : state.lister.pc = .publish pid) :
    (state.listerStep reply).Known own := by
  obtain ⟨tracked, stage⟩ := known
  have cloneTid := tracked.cloneTid (by simp [pc, Pc.inPass, Pc.scanPhase])
  have equal : state.listerStep reply = { state with lister := Lister.advance { state.lister with
      sigNumThreads := state.lister.pids.length
      foundParent := state.lister.foundParent || pid == state.lister.ppid
      added := state.lister.added + 1 } } := by
    simp only [listerStep, lives, denies, Bool.or_false, Lister.step, pc]
  rw [equal]
  refine @Known.advance _ _ { state with lister := { state.lister with
      sigNumThreads := state.lister.pids.length
      foundParent := state.lister.foundParent || pid == state.lister.ppid
      added := state.lister.added + 1 } } ?_ cloneTid (.inr (.inl (Nat.succ_pos _)))
  exact tracked.keep rfl rfl (.inr (.inl cloneTid)) rfl rfl tracked.skipped fun _ member => member

/-- A detach while the threads are resumed. -/
theorem Known.resume {reply : Reply} {pid : Int32} {rest : List Int32} {next : AfterResume}
    (known : state.Known own) (pc : state.lister.pc = .resume (pid :: rest) next) :
    (state.listerStep reply).Known own := by
  obtain ⟨tracked, _⟩ := known
  have cloneTid : state.lister.cloneTid = own := by simpa [pc] using tracked.clone
  have equal : state.listerStep reply = { state with
      lister := { state.lister.request (.detach pid) with pc := .resume rest next }
      life := Function.update state.life pid (state.life pid).resume } := by
    simp only [listerStep, lives, denies, Bool.or_false, Lister.step, pc]
  rw [equal]
  exact ⟨(tracked.detach cloneTid).moved cloneTid _, trivial⟩

/-- Outside a pass the lister stays in its stage, or leaves it for good. -/
theorem stage_idle {lister : Lister callback} (reply : Reply) (idle : busy lister.pc = false)
    (outside : lister.pc.inPass = false) :
    (lister.step reply).pc.stage = .outside ∨ (lister.step reply).pc.stage = lister.pc.stage := by
  have moves := lister.step_moves reply
  generalize lister.step reply = after at moves
  cases moves with
  | rests => exact .inr rfl
  | turns here turn =>
      rw [here] at idle outside ⊢
      cases turn with
      | @closeProc failure => cases failure <;> exact .inr rfl
      | enter => exact .inr rfl
      | mismatch mismatches => cases mismatches <;> cases outside
      | refill | view | full | room | stopped | again | settled | unlisted => cases idle
      | peekFirst | peekSecond => cases outside
      | _ => exact .inl rfl
  | runs here ran =>
      rename_i progress shared
      rw [here]
      cases progress <;> exact .inr rfl
  | storeResult here | storeErr here =>
      rw [here]
      exact .inr rfl
  | @clearPids outcome here =>
      rw [here]
      cases outcome <;> exact .inr rfl
  | takesChild =>
      left
      simp only
      split <;> rfl
  | rewind here | reads here | advances here | attaches here | waitFails here | drops here | records here
  | publishes here | detaches here =>
      rw [here] at idle
      cases idle
  | passes here passed =>
      rw [here] at idle
      cases passed <;> cases idle
  | _ => exact .inl rfl

/-- The other steps of the lister leave threads and records alone. -/
theorem Known.idle {reply : Reply} (known : state.Known own) (answered : state.answers own reply = true)
    (idle : busy state.lister.pc = false) (outside : state.lister.pc.inPass = false) :
    (state.listerStep reply).Known own := by
  obtain ⟨pids, held, skipped, entries, added⟩ := Idle.of_step reply idle
  rw [listerStep_idle reply idle outside]
  constructor
  · refine known.tracked.keep rfl rfl (clone_step known.tracked answered) pids held ?_ ?_
    · exact skipped ▸ known.tracked.skipped
    · exact fun dirent member => entries ▸ member
  · have same : ∀ stage, state.Holds stage → Holds { state with lister := state.lister.step reply } stage := by
      intro stage holds
      cases stage with
      | outside => exact trivial
      | _ => simpa only [Holds, Led, added] using holds
    rcases stage_idle reply idle outside with left | stays
    · show Holds _ (state.lister.step reply).pc.stage
      rw [left]
      exact trivial
    · show Holds _ (state.lister.step reply).pc.stage
      rw [stays]
      exact same _ known.stage

/-- Every step of the lister keeps the invariant. -/
theorem Sound.listerStep {reply : Reply} (sound : state.Sound own) (answered : state.answers own reply = true) :
    (state.listerStep reply).Sound own := by
  refine ⟨sound.suspended.step reply, sound.scanned.step reply, ?_⟩
  have known := sound.known
  cases pc : state.lister.pc
  case rewind => exact Known.rewind known.tracked pc reply
  case getdents => exact Known.getdents sound answered pc
  case walk => exact known.walk pc
  case statThread => exact known.statThread pc
  case attach => exact Known.attach sound pc
  case waitStop => exact Known.waitStop sound pc
  case peekFirst => exact known.peek (.inl pc)
  case peekSecond => exact known.peek (.inr pc)
  case drop => exact known.drop pc
  case record => exact known.record pc
  case publish => exact known.publish pc
  case resume rest next =>
    cases rest with
    | cons pid rest => exact known.resume pc
    | nil => exact known.idle answered (by rw [pc]; rfl) (by rw [pc]; rfl)
  case closeProc failure | closeMarker failure =>
    cases failure <;> exact known.idle answered (by rw [pc]; rfl) (by rw [pc]; rfl)
  all_goals exact known.idle answered (by rw [pc]; rfl) (by rw [pc]; rfl)

/-! ## Whole runs -/

theorem Sound.initial (start : Initial own state) : state.Sound own where
  suspended := Lister.Suspended.initial start.lister
  scanned := Lister.Scanned.initial start.lister
  known := by
    obtain ⟨lister, foreign, born, untraced⟩ := start
    refine ⟨⟨foreign, .inl lister.pc, born, ?_, ?_, ?_, ?_⟩, ?_⟩
    · exact fun pid stopped => absurd stopped (untraced pid)
    · simp [lister.pids]
    · simp [lister.history]
    · simp [lister.entries]
    · rw [lister.pc]
      exact trivial

/-- The lister has died of a crash, or the invariant holds. -/
def Intact (own : Int32) (state : Freezing callback) : Prop :=
  (∃ exit, state.lister.pc = .dead exit) ∨ state.Sound own

theorem Intact.apply (intact : state.Intact own) {happening : Happening}
    (admitted : state.admits own happening = true) : (state.apply happening).Intact own := by
  rcases intact with ⟨exit, dead⟩ | sound
  · left
    cases happening with
    | lister reply => exact ⟨exit, by simp only [Freezing.apply, Freezing.listerStep, Lister.step, dead]⟩
    | spawn parent child => exact ⟨exit, dead⟩
    | exit pid => exact ⟨exit, dead⟩
    | crash signum => exact ⟨_, rfl⟩
  · cases happening with
    | lister reply => exact .inr (sound.listerStep admitted)
    | spawn parent child =>
        simp only [admits, Bool.and_eq_true, beq_iff_eq] at admitted
        exact .inr (sound.spawn admitted.1 admitted.2)
    | exit pid => exact .inr (sound.exit admitted)
    | crash signum => exact .inl ⟨_, rfl⟩

/-- While the callback runs, the process stands still and the callback has all of its
threads, unless one of them exited during the last pass over the task directory, or the
kernel denied the lister one that is alive: its marker, the attach, the wait or a look at
its memory. -/
theorem callback_frozen (start : Initial own state) {happenings : List Happening}
    (admitted : throughout apply (admits own) state happenings = true) {position : callback.Local}
    (entered : (happenings.foldl apply state).lister.pc = .callback position)
    (steady : (happenings.foldl apply state).lost = false) :
    (∀ pid, (happenings.foldl apply state).life pid ≠ .running) ∧
      ∀ pid, ((happenings.foldl apply state).life pid).alive = true →
        pid ∈ (happenings.foldl apply state).lister.pids := by
  have intact : (happenings.foldl apply state).Intact own :=
    foldl_keep (fun _ _ intact => intact.apply) (.inr (Sound.initial start)) admitted
  rcases intact with ⟨exit, dead⟩ | ⟨suspended, _, tracked, stage⟩
  · rw [entered] at dead
    cases dead
  rw [entered] at stage
  have still := stage.resolve_left (by simp [steady])
  refine ⟨still, ?_⟩
  intro pid alive
  have stopped : (happenings.foldl apply state).life pid = .stopped := by
    cases life : (happenings.foldl apply state).life pid with
    | running => exact absurd life (still pid)
    | stopped => rfl
    | unborn | gone => simp [life, Life.alive] at alive
  have held := tracked.stopped pid stopped
  simp only [Lister.Suspended, entered, Pc.phase] at suspended
  exact suspended.2.1 ▸ held

/-- Process 100 with threads 100 and 101, and its lister 102. -/
def sampleProcess : Freezing Lister.returning where
  lister := Lister.newborn
  born := [100, 101, 102]
  life := fun pid => if pid = 100 ∨ pid = 101 then .running else if pid = 102 then .gone else .unborn
  early := []
  lost := false

theorem sampleProcess_initial : sampleProcess.Initial 102 where
  lister := Lister.newborn_initial
  foreign := rfl
  born pid known := by
    simp only [sampleProcess] at known ⊢
    split at known
    · rename_i own
      rcases own with rfl | rfl <;> decide
    · split at known
      · rename_i own
        subst own
        decide
      · exact absurd rfl known
  untraced pid := by
    simp only [sampleProcess]
    split
    · simp
    · split <;> simp

/-- Threads 100, 101 and 103 in a directory. -/
def threeThreads : Reply :=
  .ok ⟨72, 0, [⟨8, 24, [0x31, 0x30, 0x30, 0]⟩, ⟨9, 24, [0x31, 0x30, 0x31, 0]⟩, ⟨10, 24, [0x31, 0x30, 0x33, 0]⟩]⟩

/-- Thread 101 starts thread 103 behind the back of the first pass, the second pass
finds it and the third one finds nothing new. -/
def sampleHappenings : List Happening :=
  Lister.setupReplies.map .lister ++ [.spawn 101 103] ++
    (Lister.suspendReplies ++ Lister.suspendReplies ++ List.replicate 3 (Lister.succeeds 0 0) ++ [threeThreads] ++
      List.replicate 2 (Lister.succeeds 0 0) ++ Lister.suspendReplies ++ List.replicate 3 (Lister.succeeds 0 0) ++
      [threeThreads] ++ List.replicate 7 (Lister.succeeds 0 0)).map .lister

theorem callback_frozen_sample :
    throughout apply (admits 102) sampleProcess sampleHappenings = true ∧
      (sampleHappenings.foldl apply sampleProcess).life 103 = .stopped ∧
      ∀ pid, (sampleHappenings.foldl apply sampleProcess).life pid ≠ .running :=
  ⟨by decide +kernel, by decide +kernel,
    (callback_frozen sampleProcess_initial (by decide +kernel)
      (show (sampleHappenings.foldl apply sampleProcess).lister.pc = .callback () by decide +kernel)
      (by decide +kernel)).1⟩

/-- Thread 101 starts thread 103 and exits; in the second pass 103 does the same, and
thread 104 is never listed. -/
def escapeHappenings : List Happening :=
  Lister.setupReplies.map .lister ++ Lister.suspendReplies.map .lister ++ [.spawn 101 103, .exit 101] ++
    [Lister.succeeds 0 0, .error .eperm, Lister.succeeds 0 0, Lister.succeeds 0 0, Lister.succeeds 0 0].map .lister ++
    [.spawn 103 104, .exit 103] ++
    [.ok ⟨24, 0, [⟨8, 24, [0x31, 0x30, 0x30, 0]⟩]⟩, Lister.succeeds 0 0, Lister.succeeds 0 0, Lister.succeeds 0 0,
      Lister.succeeds 0 0, Lister.succeeds 0 0].map .lister

example : throughout apply (admits 102) sampleProcess escapeHappenings = true ∧
    (escapeHappenings.foldl apply sampleProcess).lister.pc = .callback () ∧
    (escapeHappenings.foldl apply sampleProcess).life 104 = .running := by decide +kernel

/-- A thread that is denied to the lister runs beside the callback, and this is noted. -/
example : throughout apply (admits 102) sampleProcess (Lister.callbackReplies.map .lister) = true ∧
    ((Lister.callbackReplies.map .lister).foldl apply sampleProcess).lister.pc = .callback () ∧
    ((Lister.callbackReplies.map .lister).foldl apply sampleProcess).life 101 = .running ∧
    ((Lister.callbackReplies.map .lister).foldl apply sampleProcess).lost = true := by decide +kernel

end Freezing

end Corus.Threads
