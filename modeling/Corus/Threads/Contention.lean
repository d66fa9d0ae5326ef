import Corus.Threads.Caller
import Corus.Threads.Suspension
import Mathlib.Logic.Function.Basic

/-!
# Dumps at the same time

Any number of listers of one process, interleaved step by step. They share the three
static variables and compete for the threads, each of which has one tracer at most.
A lister runs its callback only while it traces the leading thread, so the callbacks
exclude each other although nothing in the library locks anything.
-/

namespace Corus.Threads

open Corus.Logical Corus.Platform

/-- The listers of a process, the tracer of each thread, and the statics. `SIG_PIDS`
points to the list of one of the listers. -/
structure Contention {Party : Type} (callback : Party → Callback) where
  listers : (party : Party) → Lister (callback party)
  tracer : Int32 → Option Party
  sigPids : Option Party
  sigNumThreads : Nat
  snapshotChild : Int32

/-- What happens next: an answer to one of the listers, a crash signal or another
deadly one for it, the exit of a lister that has returned, or the end of a thread. -/
inductive Contest (Party : Type) where
  | lister (party : Party) (reply : Reply)
  | crash (party : Party) (signum : Signal)
  | kill (party : Party) (signal : Signal) (core : Bool)
  | exit (party : Party)
  | threadExit (pid : Int32)

/-- The callback has begun and the leading thread is still suspended for it. -/
def Pc.dumping {Local : Type} : Pc Local → Bool
  | .callback _ | .storeResult _ | .storeErr | .clearPids .dumped | .clearCount .dumped => true
  | _ => false

/-- The lister is about to attach or to detach a thread. -/
def Pc.tracing {Local : Type} : Pc Local → Bool
  | .attach _ | .drop _ | .resume (_ :: _) _ => true
  | _ => false

namespace Contention

variable {Party : Type} [DecidableEq Party] {callback : Party → Callback}

/-- A lister with the statics as it finds them. -/
def view (state : Contention callback) (party : Party) : Lister (callback party) :=
  { state.listers party with
    sigPids := state.sigPids == some party
    sigNumThreads := state.sigNumThreads
    snapshotChild := state.snapshotChild }

/-- The threads without those of a tracer that is gone. -/
def release (tracer : Int32 → Option Party) (party : Party) : Int32 → Option Party :=
  fun pid => if tracer pid = some party then none else tracer pid

/-- What the call that a lister makes does to the threads. -/
def traced (state : Contention callback) (party : Party) (reply : Reply) : Int32 → Option Party :=
  match (state.listers party).pc, reply with
  | .attach pid, .ok _ => Function.update state.tracer pid (some party)
  | .drop pid, .ok _ => Function.update state.tracer pid none
  | .resume (pid :: _) _, .ok _ => Function.update state.tracer pid none
  | _, _ => state.tracer

/-- The threads that `sig_handler` finds behind `SIG_PIDS`. -/
def handlerPids (state : Contention callback) : List Int32 :=
  match state.sigPids with
  | some party => (state.listers party).pids.take state.sigNumThreads
  | none => []

/-- One move. -/
def apply (state : Contention callback) : Contest Party → Contention callback
  | .lister party reply =>
      let after := (state.view party).step reply
      { listers := Function.update state.listers party after
        tracer := state.traced party reply
        sigPids := match (state.listers party).pc with
          | .storePids => some party
          | .clearPids _ => none
          | _ => state.sigPids
        sigNumThreads := after.sigNumThreads
        snapshotChild := after.snapshotChild }
  -- The kernel detaches what the handler did not.
  | .crash party signum =>
      let lister := state.listers party
      { state with
        listers := Function.update state.listers party { lister with
          history := { lister.history with
            requests := lister.history.requests ++ state.handlerPids.map (Lister.handlerRequest signum) }
          pc := .dead (.exited (if signum = .sigabrt then 1 else 2)) }
        tracer := release state.tracer party
        sigPids := none }
  | .kill party signal core =>
      { state with
        listers := Function.update state.listers party { state.listers party with pc := .dead (.killed signal core) }
        tracer := release state.tracer party }
  | .exit party => { state with tracer := release state.tracer party }
  | .threadExit pid => { state with tracer := Function.update state.tracer pid none }

/-- The moves that a state allows. A thread is attached by one tracer at a time and
detached by no other. The leading thread keeps its id as long as the process lasts,
and every lister has the process as its parent. -/
def admits (leader : Int32) (state : Contention callback) : Contest Party → Bool
  | .lister party reply =>
      match (state.listers party).pc, reply with
      | .getppid, .ok answer => cInt answer.returned == leader
      | .attach pid, .ok _ => state.tracer pid == none
      | .drop pid, .ok _ => state.tracer pid == some party
      | .resume (pid :: _) _, .ok _ => state.tracer pid == some party
      | _, _ => true
  | .crash party signum =>
      (state.listers party).ending.isNone && (state.listers party).handlersInstalled &&
        listerCrashSignals.contains signum
  | .kill party _ _ => (state.listers party).ending.isNone
  | .exit party => (state.listers party).ending.isSome
  | .threadExit pid => pid != leader

/-- No dump has begun, and nothing traces the leading thread. -/
structure Initial (leader : Int32) (state : Contention callback) : Prop where
  listers : ∀ party, Lister.Initial (state.listers party)
  untraced : state.tracer leader = none

end Contention

/-! ## One lister among others -/

namespace Lister

variable {callback : Callback} {lister : Lister callback}

/-- The lister with other values in the variables that the crash handler reads. -/
def resigned (lister : Lister callback) (sigPids : Bool) (sigNumThreads : Nat) : Lister callback :=
  { lister with sigPids := sigPids, sigNumThreads := sigNumThreads }

theorem resigned_advance (sigPids : Bool) (sigNumThreads : Nat) :
    (lister.resigned sigPids sigNumThreads).advance = lister.advance.resigned sigPids sigNumThreads := by
  unfold advance
  cases entries : lister.entries with
  | nil => simp [resigned, entries]
  | cons dirent rest =>
      simp only [resigned, entries]
      split <;> rfl

section Resigned

variable (sigPids : Bool) (sigNumThreads : Nat)

@[simp] theorem resigned_pc : (lister.resigned sigPids sigNumThreads).pc = lister.pc := rfl

@[simp] theorem resigned_entries : (lister.resigned sigPids sigNumThreads).entries = lister.entries := rfl

@[simp] theorem resigned_child : (lister.resigned sigPids sigNumThreads).snapshotChild = lister.snapshotChild := rfl

@[simp] theorem resigned_memory : (lister.resigned sigPids sigNumThreads).memory = lister.memory := rfl

@[simp] theorem resigned_candidate (dirent : Dirent) :
    (lister.resigned sigPids sigNumThreads).candidate dirent = lister.candidate dirent := rfl

/-- The lister does not read the variables that only its crash handler reads. -/
theorem resigned_step (reply : Reply) : ∃ pids count,
    (lister.resigned sigPids sigNumThreads).step reply = (lister.step reply).resigned pids count := by
  by_cases touched : lister.pc.Touches
  case neg =>
    obtain ⟨_, _, snapshotChild⟩ := step_untouched touched reply
    have same := elsewhere_step callback.step sigPids sigNumThreads lister.snapshotChild touched reply
    have kept : (lister.step reply).elsewhere callback.step sigPids sigNumThreads lister.snapshotChild =
        (lister.step reply).resigned sigPids sigNumThreads := by
      rw [← snapshotChild]
      rfl
    exact ⟨sigPids, sigNumThreads, same.trans kept⟩
  cases pc : lister.pc <;> rw [pc] at touched <;> try exact touched.elim
  case storePids => exact ⟨true, sigNumThreads, by simp only [Lister.step, resigned_pc, pc]; rfl⟩
  case storeCount => exact ⟨sigPids, 0, by simp only [Lister.step, resigned_pc, pc]; rfl⟩
  case clearPids => exact ⟨false, sigNumThreads, by simp only [Lister.step, resigned_pc, pc]; rfl⟩
  case clearCount => exact ⟨sigPids, 0, by simp only [Lister.step, resigned_pc, pc]; rfl⟩
  case publish pid =>
    refine ⟨sigPids, lister.pids.length, ?_⟩
    simp only [Lister.step, resigned_pc, pc]
    rw [← resigned_advance]
    rfl
  case callback position =>
    refine ⟨sigPids, sigNumThreads, ?_⟩
    simp only [Lister.step, resigned_pc, pc, resigned_child, resigned_memory]
    split <;> rfl
  case takeChild =>
    refine ⟨sigPids, sigNumThreads, ?_⟩
    simp only [Lister.step, resigned_pc, pc]
    rfl

end Resigned

/-- What a lister holds, whatever other listers write into the statics. -/
def Holding (lister : Lister callback) : Prop :=
  ∃ sigPids sigNumThreads, (lister.resigned sigPids sigNumThreads).Suspended

theorem Holding.initial (start : Initial lister) : lister.Holding :=
  ⟨lister.sigPids, lister.sigNumThreads, Suspended.initial start⟩

theorem Holding.step (holding : lister.Holding) (reply : Reply) : (lister.step reply).Holding := by
  obtain ⟨sigPids, sigNumThreads, suspended⟩ := holding
  obtain ⟨pids, count, equal⟩ := @resigned_step _ lister sigPids sigNumThreads reply
  exact ⟨pids, count, equal ▸ suspended.step reply⟩

/-- A lister that returned or runs its callback holds what it recorded, or nothing. -/
theorem Holding.dumping (holding : lister.Holding) (dumping : lister.pc.dumping = true) :
    lister.held = lister.pids := by
  obtain ⟨sigPids, sigNumThreads, suspended⟩ := holding
  simp only [Suspended, resigned_pc] at suspended
  cases pc : lister.pc <;> rw [pc] at suspended dumping
  case callback | storeResult | storeErr => exact suspended.2.1
  case clearPids outcome | clearCount outcome => exact suspended.2.1
  all_goals cases dumping

theorem ending_of_dumping (dumping : lister.pc.dumping = true) : lister.ending = none := by
  cases pc : lister.pc <;> rw [pc] at dumping
  case finished | dead => cases dumping
  all_goals simp only [ending, pc]

/-- What a lister knows of the leading thread: the id of its parent, once it has asked
for it, and that it has recorded it. -/
structure Leads (leader : Int32) (lister : Lister callback) : Prop where
  ppid : lister.ppid = leader ∨ lister.pc = .gettid ∨ lister.pc = .getppid ∨ lister.ending ≠ none
  found : lister.foundParent = true → lister.ppid ∈ lister.pids
  dumping : lister.pc.dumping = true → lister.foundParent = true

theorem Leads.initial {leader : Int32} (start : Initial lister) : lister.Leads leader where
  ppid := .inr (.inl start.pc)
  found found := by simp [start.foundParent] at found
  dumping dumping := by simp [start.pc, Pc.dumping] at dumping

theorem Leads.advance {leader : Int32} (ppid : lister.ppid = leader)
    (found : lister.foundParent = true → lister.ppid ∈ lister.pids) : lister.advance.Leads leader := by
  obtain ⟨entries, skipped, equal⟩ := lister.advance_eq
  rw [equal]
  exact ⟨.inl ppid, found, fun dumping => by cases dumping⟩

/-- Once the lister has asked for it, it knows the id of the leading thread to its end. -/
theorem Leads.known {leader : Int32} (leads : lister.Leads leader) (first : lister.pc ≠ .gettid)
    (second : lister.pc ≠ .getppid) (running : lister.ending = none) : lister.ppid = leader := by
  rcases leads.ppid with known | pc | pc | ended
  · exact known
  · exact absurd pc first
  · exact absurd pc second
  · exact absurd running ended

theorem Leads.moves {leader : Int32} (leads : lister.Leads leader) (holding : lister.Holding) {reply : Reply}
    (answered : ∀ answer, lister.pc = .getppid → reply = .ok answer → cInt answer.returned = leader)
    {after : Lister callback} (moves : lister.Moves reply after) : after.Leads leader := by
  have known := leads.known
  have found := leads.found
  have dumping := leads.dumping
  cases moves with
  | rests => exact leads
  | gettid => exact ⟨.inr (.inr (.inl rfl)), found, by simp [Pc.dumping]⟩
  | failsEarly | failsLate => exact ⟨.inr (.inr (.inr (by simp [fail, ending]))), found, by simp [fail, Pc.dumping]⟩
  | @getppid answer here ok =>
      obtain ⟨sigPids, sigNumThreads, suspended⟩ := holding
      simp only [Suspended, resigned_pc, here] at suspended
      refine ⟨.inl (answered answer here ok), ?_, by simp [Pc.dumping]⟩
      intro early
      have recorded := found early
      rw [show lister.pids = [] from suspended.1] at recorded
      cases recorded
  | turns here turn =>
      cases turn with
      | mismatch mismatches =>
          cases mismatches <;>
            exact ⟨.inl (known (by simp [here]) (by simp [here]) (by simp [ending, here])), found, by simp [Pc.dumping]⟩
      | enter leading =>
          exact ⟨.inl (known (by simp [here]) (by simp [here]) (by simp [ending, here])), found, fun _ => leading⟩
      | _ => exact ⟨.inl (known (by simp [here]) (by simp [here]) (by simp [ending, here])), found, by simp [Pc.dumping]⟩
  | passes here passed =>
      cases passed <;>
        exact Leads.advance (known (by simp [here]) (by simp [here]) (by simp [ending, here])) found
  | advances here | drops here =>
      exact Leads.advance (known (by simp [here]) (by simp [here]) (by simp [ending, here])) found
  | records here =>
      exact ⟨.inl (known (by simp [here]) (by simp [here]) (by simp [ending, here])),
        fun early => List.mem_append_left _ (found early), by simp [Pc.dumping]⟩
  | @publishes pid here =>
      obtain ⟨sigPids, sigNumThreads, suspended⟩ := holding
      simp only [Suspended, resigned_pc, here] at suspended
      obtain ⟨before, recorded, _⟩ := suspended
      refine Leads.advance (known (by simp [here]) (by simp [here]) (by simp [ending, here])) ?_
      intro leading
      rcases Bool.or_eq_true _ _ ▸ leading with earlier | now
      · exact found earlier
      · show lister.ppid ∈ lister.pids
        rw [← beq_iff_eq.mp now, show lister.pids = _ from recorded]
        simp
  | runs here | storeResult here | storeErr here =>
      exact ⟨.inl (known (by simp [here]) (by simp [here]) (by simp [ending, here])), found,
        fun _ => dumping (by rw [here]; rfl)⟩
  | @clearPids outcome here =>
      refine ⟨.inl (known (by simp [here]) (by simp [here]) (by simp [ending, here])), found, ?_⟩
      cases outcome with
      | parentMissing => simp [Pc.dumping]
      | dumped => exact fun _ => dumping (by rw [here]; rfl)
  | takesChild here =>
      refine ⟨.inl (known (by simp [here]) (by simp [here]) (by simp [ending, here])), found, ?_⟩
      simp only
      split <;> simp [Pc.dumping]
  | statMarker here | storePids here | storeCount here | installHandlers here | rewind here | reads here
  | attaches here | waitFails here | clearCount here | detaches here | reapsFailure here | reapFails here =>
      exact ⟨.inl (known (by simp [here]) (by simp [here]) (by simp [ending, here])), found, by simp [Pc.dumping]⟩

theorem Leads.step {leader : Int32} (leads : lister.Leads leader) (holding : lister.Holding) {reply : Reply}
    (answered : ∀ answer, lister.pc = .getppid → reply = .ok answer → cInt answer.returned = leader) :
    (lister.step reply).Leads leader :=
  leads.moves holding answered (lister.step_moves reply)

theorem held_advance (lister : Lister callback) : lister.advance.held = lister.held := by
  obtain ⟨entries, skipped, equal⟩ := lister.advance_eq
  rw [equal]
  rfl

/-- Only attaches and detaches change what is held. -/
theorem step_held (reply : Reply) (elsewhere : lister.pc.tracing = false) : (lister.step reply).held = lister.held := by
  cases pc : lister.pc <;> rw [pc] at elsewhere
  case attach | drop => cases elsewhere
  case resume rest next =>
    rcases rest with _ | ⟨pid, rest⟩
    · rcases next with errno | _ | _ <;> simp only [Lister.step, pc] <;> rfl
    · cases elsewhere
  case closeMarker failure => cases failure <;> simp only [Lister.step, pc] <;> rfl
  all_goals
    simp only [Lister.step, pc]
    repeat' split
    all_goals first | rfl | exact held_advance _

end Lister

namespace Contention

variable {Party : Type} {callback : Party → Callback} {leader : Int32} {state : Contention callback}

/-- What holds of each lister: it has died, or it traces the leading thread as long as
it holds it. -/
def Fair (leader : Int32) (state : Contention callback) (party : Party) : Prop :=
  (∃ exit, (state.listers party).pc = .dead exit) ∨
    (state.listers party).Holding ∧ (state.listers party).Leads leader ∧
      (leader ∈ (state.listers party).held → state.tracer leader = some party)

/-- Nothing that happens to the others takes the leading thread away from a lister. -/
theorem Fair.frame {after : Contention callback} {party : Party} (fair : state.Fair leader party)
    (same : after.listers party = state.listers party)
    (kept : state.tracer leader = some party → after.tracer leader = some party) : after.Fair leader party := by
  rcases fair with ⟨exit, dead⟩ | ⟨holding, leads, tracer⟩
  · exact .inl ⟨exit, same ▸ dead⟩
  · right
    rw [same]
    exact ⟨holding, leads, fun held => kept (tracer held)⟩

theorem traced_elsewhere {party : Party} (reply : Reply) (elsewhere : (state.listers party).pc.tracing = false) :
    state.traced party reply = state.tracer := by
  cases pc : (state.listers party).pc <;> rw [pc] at elsewhere
  case attach | drop => cases elsewhere
  case resume rest next =>
    cases rest with
    | nil => simp only [traced, pc]
    | cons pid rest => cases elsewhere
  all_goals simp only [traced, pc]

variable [DecidableEq Party]

theorem release_of_ne {tracer : Int32 → Option Party} {party other : Party} {pid : Int32} (different : other ≠ party)
    (traced : tracer pid = some party) : release tracer other pid = some party := by
  simp [release, traced, Ne.symm different]

/-- What an admitted step of a lister does to the threads: nothing, the attach of a free
thread, or the detach of one of its own. -/
theorem traced_cases {party : Party} {reply : Reply} (admitted : state.admits leader (.lister party reply) = true) :
    state.traced party reply = state.tracer ∨
      ∃ pid value, (state.tracer pid = none ∨ state.tracer pid = some party) ∧
        state.traced party reply = Function.update state.tracer pid value := by
  cases reply with
  | error errno =>
      left
      cases pc : (state.listers party).pc
      case resume rest next => cases rest <;> simp only [traced, pc]
      all_goals simp only [traced, pc]
  | ok answer =>
      cases pc : (state.listers party).pc
      case attach pid =>
        simp only [admits, pc, beq_iff_eq] at admitted
        exact .inr ⟨pid, some party, .inl admitted, by simp only [traced, pc]⟩
      case drop pid =>
        simp only [admits, pc, beq_iff_eq] at admitted
        exact .inr ⟨pid, none, .inr admitted, by simp only [traced, pc]⟩
      case resume rest next =>
        cases rest with
        | nil => exact .inl (by simp only [traced, pc])
        | cons pid rest =>
            simp only [admits, pc, beq_iff_eq] at admitted
            exact .inr ⟨pid, none, .inr admitted, by simp only [traced, pc]⟩
      all_goals exact .inl (by simp only [traced, pc])

/-- A step of another lister. -/
theorem Fair.other {party other : Party} {reply : Reply} (fair : state.Fair leader party) (different : other ≠ party)
    (admitted : state.admits leader (.lister other reply) = true) :
    (state.apply (.lister other reply)).Fair leader party := by
  refine fair.frame (Function.update_of_ne (Ne.symm different) ..) ?_
  intro traced
  show state.traced other reply leader = some party
  rcases traced_cases admitted with same | ⟨pid, value, free, changed⟩
  · rw [same]
    exact traced
  · rw [changed, Function.update_of_ne]
    · exact traced
    · rintro rfl
      rcases free with none | own
      · simp [none] at traced
      · exact different (Option.some.inj (own.symm.trans traced))

/-- A step of the lister itself. -/
theorem Fair.own {party : Party} {reply : Reply} (fair : state.Fair leader party)
    (admitted : state.admits leader (.lister party reply) = true) :
    (state.apply (.lister party reply)).Fair leader party := by
  have after : (state.apply (.lister party reply)).listers party = (state.view party).step reply :=
    Function.update_self ..
  have tracer : (state.apply (.lister party reply)).tracer = state.traced party reply := rfl
  have position : (state.view party).pc = (state.listers party).pc := rfl
  rw [Fair, after, tracer]
  rcases fair with ⟨exit, dead⟩ | ⟨⟨sigPids, count, suspended⟩, leads, traces⟩
  · left
    refine ⟨exit, ?_⟩
    rw [← position] at dead
    simp only [Lister.step, dead]
  right
  have holding : (state.view party).Holding := ⟨sigPids, count, suspended⟩
  have led : (state.view party).Leads leader := ⟨leads.ppid, leads.found, leads.dumping⟩
  refine ⟨holding.step reply, led.step holding ?_, ?_⟩
  · rintro answer pc rfl
    rw [position] at pc
    simpa [admits, pc] using admitted
  by_cases elsewhere : (state.listers party).pc.tracing = false
  · rw [(state.view party).step_held reply elsewhere, traced_elsewhere reply elsewhere]
    exact traces
  -- A thread is not held any more once its detach is under way, so it is another one
  -- than the leading thread if that is still held.
  have detached : ∀ pid, ((state.view party).step reply).held = hold (state.listers party).held (.detach pid) →
      (state.traced party reply = state.tracer ∨ state.traced party reply = Function.update state.tracer pid none) →
      leader ∈ ((state.view party).step reply).held → state.traced party reply leader = some party := by
    intro pid holds changed held
    rw [holds] at held
    obtain ⟨before, different⟩ := List.mem_filter.mp held
    rcases changed with same | released
    · rw [same]
      exact traces before
    · rw [released, Function.update_of_ne (by simpa using different)]
      exact traces before
  cases pc : (state.listers party).pc <;> rw [pc] at elsewhere
  case attach pid =>
    cases reply with
    | error errno =>
        have unchanged : ((state.view party).step (.error errno)).held = (state.listers party).held := by
          simp only [Lister.step, position, pc]
          exact Lister.held_advance _
        rw [unchanged]
        simpa only [traced, pc] using traces
    | ok answer =>
        intro held
        have holds : ((state.view party).step (.ok answer)).held = (state.listers party).held ++ [pid] := by
          simp only [Lister.step, position, pc]
          exact outstanding_append _ _
        simp only [traced, pc]
        by_cases same : leader = pid
        · rw [same]
          exact Function.update_self ..
        · rw [Function.update_of_ne same]
          rw [holds] at held
          exact traces ((List.mem_append.mp held).resolve_right (by simpa using same))
  case drop pid =>
    refine detached pid ?_ ?_
    · simp only [Lister.step, position, pc]
      exact (Lister.held_advance _).trans (outstanding_append _ _)
    · cases reply <;> simp only [traced, pc, true_or, or_true]
  case resume rest next =>
    cases rest with
    | nil => exact absurd rfl elsewhere
    | cons pid rest =>
        refine detached pid ?_ ?_
        · simp only [Lister.step, position, pc]
          exact outstanding_append _ _
        · cases reply <;> simp only [traced, pc, true_or, or_true]
  all_goals exact absurd rfl elsewhere

/-- Every move keeps what holds of each lister. -/
theorem Fair.apply {move : Contest Party} (fair : ∀ party, state.Fair leader party)
    (admitted : state.admits leader move = true) (party : Party) : (state.apply move).Fair leader party := by
  cases move with
  | lister other reply =>
      by_cases same : other = party
      · subst same
        exact (fair other).own admitted
      · exact (fair party).other same admitted
  | crash other signum =>
      by_cases same : other = party
      · subst same
        refine .inl ⟨.exited (if signum = .sigabrt then 1 else 2), ?_⟩
        simp only [Contention.apply, Function.update_self]
      · exact (fair party).frame (Function.update_of_ne (Ne.symm same) ..) (release_of_ne same)
  | kill other signal core =>
      by_cases same : other = party
      · subst same
        refine .inl ⟨.killed signal core, ?_⟩
        simp only [Contention.apply, Function.update_self]
      · exact (fair party).frame (Function.update_of_ne (Ne.symm same) ..) (release_of_ne same)
  | exit other =>
      by_cases same : other = party
      · subst same
        -- A lister that has returned holds nothing.
        rcases fair other with dead | ⟨holding, leads, traces⟩
        · exact .inl dead
        refine .inr ⟨holding, leads, ?_⟩
        obtain ⟨sigPids, count, suspended⟩ := holding
        intro held
        simp only [Lister.Suspended, Lister.resigned_pc] at suspended
        cases pc : (state.listers other).pc <;> rw [pc] at suspended <;> simp [admits, Lister.ending, pc] at admitted
        case finished code =>
          change leader ∈ (state.listers other).held at held
          rw [show (state.listers other).held = [] from suspended] at held
          cases held
        case dead exit => exact suspended.elim
      · exact (fair party).frame rfl (release_of_ne same)
  | threadExit pid =>
      simp only [admits, bne_iff_ne] at admitted
      refine (fair party).frame rfl fun traced => ?_
      exact (Function.update_of_ne (Ne.symm admitted) ..).trans traced

/-- However many dumps of a process are made at the same time, at most one of them is
between the begin of its callback and the resumption of the threads. -/
theorem callbacks_exclusive (start : Initial leader state) {moves : List (Contest Party)}
    (admitted : throughout apply (admits leader) state moves = true) {first second : Party}
    (here : ((moves.foldl apply state).listers first).pc.dumping = true)
    (there : ((moves.foldl apply state).listers second).pc.dumping = true) : first = second := by
  have fair : ∀ party, (moves.foldl apply state).Fair leader party := by
    refine @foldl_keep _ _ apply (admits leader) (fun state => ∀ party, state.Fair leader party)
      (fun _ _ fair step => Fair.apply fair step) _ _ ?_ admitted
    intro party
    have initial := start.listers party
    refine .inr ⟨.initial initial, .initial initial, ?_⟩
    intro held
    simp [Lister.held, initial.history, outstanding] at held
  have traces : ∀ party, ((moves.foldl apply state).listers party).pc.dumping = true →
      (moves.foldl apply state).tracer leader = some party := by
    intro party dumping
    rcases fair party with ⟨exit, dead⟩ | ⟨holding, leads, tracer⟩
    · rw [dead] at dumping
      cases dumping
    have recorded := leads.found (leads.dumping dumping)
    have isLeader : ((moves.foldl apply state).listers party).ppid = leader := by
      rcases leads.ppid with same | pc | pc | ended
      · exact same
      · simp [pc, Pc.dumping] at dumping
      · simp [pc, Pc.dumping] at dumping
      · exact absurd (Lister.ending_of_dumping dumping) ended
    refine tracer ?_
    rw [holding.dumping dumping, ← isLeader]
    exact recorded
  exact Option.some.inj ((traces first here).symm.trans (traces second there))

/-- Two dumps of process 100 that begin at the same time. -/
def samplePair : Contention fun _ : Bool => Lister.returning where
  listers := fun _ => Lister.newborn
  tracer := fun _ => none
  sigPids := none
  sigNumThreads := 0
  snapshotChild := 0

/-- The second lister finds thread 100 taken, and 101 as well, while the first one runs
its callback. -/
def sampleContest : List (Contest Bool) :=
  Lister.setupReplies.map (.lister false) ++ Lister.setupReplies.map (.lister true) ++
    (Lister.suspendReplies ++ Lister.suspendReplies ++ List.replicate 3 (Lister.succeeds 0 0) ++ [Lister.twoThreads] ++
      List.replicate 6 (Lister.succeeds 0 0)).map (.lister false) ++
    [Lister.succeeds 0 0, Lister.succeeds 0 7, .error .eperm, Lister.succeeds 0 0, Lister.succeeds 0 7, .error .eperm,
      Lister.succeeds 0 0].map (.lister true)

theorem callbacks_exclusive_sample :
    throughout apply (admits 100) samplePair sampleContest = true ∧
      ((sampleContest.foldl apply samplePair).listers false).pc.dumping = true ∧
      ∀ party, ((sampleContest.foldl apply samplePair).listers party).pc.dumping = true → party = false :=
  ⟨by decide +kernel, by decide +kernel, fun _ dumping =>
    callbacks_exclusive ⟨fun _ => Lister.newborn_initial, rfl⟩
      (show throughout apply (admits 100) samplePair sampleContest = true by decide +kernel) dumping
      (by decide +kernel)⟩

end Contention

end Corus.Threads
