import Corus.Threads.Suspension

/-!
# Crash cleanup

What `sig_handler` releases when one of the crash signals arrives at a step of
the lister, compared with what the lister holds at that step.
-/

namespace Corus.Threads

open Corus.Logical Corus.Platform

/-- The positions at which a held thread is not in the published list: from a
successful attach until the thread is detached again or counted, and from the
withdrawal of the list until the last thread is detached. -/
def Pc.Exposed {Local : Type} (pids : List Int32) : Pc Local → Prop
  | .waitStop _ | .peekFirst _ | .peekSecond _ | .drop _ | .record _ | .publish _ => True
  | .clearCount _ => pids ≠ []
  | .resume rest (.report _) => rest ≠ []
  | _ => False

/-- The stages of these positions. -/
def Phase.Exposed (pids : List Int32) : Phase → Prop
  | .verifying _ | .publishing _ => True
  | .cleared => pids ≠ []
  | .resuming rest armed => armed = false ∧ rest ≠ []
  | _ => False

theorem Pc.exposed_phase {Local : Type} (pids : List Int32) (pc : Pc Local) :
    pc.Exposed pids ↔ pc.phase.Exposed pids := by
  cases pc with
  | resume rest next => cases next <;> simp [Pc.Exposed, Pc.phase, Phase.Exposed]
  | _ => simp [Pc.Exposed, Pc.phase, Phase.Exposed]

namespace Lister

variable {callback : Callback} {lister : Lister callback}

/-- After the handler has run, the thread has been detached, or killed on `SIGABRT`. -/
def Released (signum : Signal) (lister : Lister callback) (pid : Int32) : Prop :=
  ∃ after, (sigHandler signum lister).history.requests = lister.history.requests ++ after ∧
    handlerRequest signum pid ∈ after

/-- The handler releases exactly the threads of the published list. -/
theorem released_iff {signum : Signal} {pid : Int32} :
    Released signum lister pid ↔ pid ∈ lister.handlerPids := by
  have injective : ∀ other, handlerRequest signum other = handlerRequest signum pid ↔ other = pid := by
    intro other
    unfold handlerRequest
    split <;> simp
  constructor
  · rintro ⟨after, appended, member⟩
    rw [← List.append_cancel_left appended] at member
    obtain ⟨other, listed, same⟩ := List.mem_map.mp member
    exact (injective other).mp same ▸ listed
  · intro listed
    exact ⟨_, rfl, List.mem_map_of_mem listed⟩

/-- A published list with a count shows its first threads. -/
theorem handlerPids_of_published {count : Nat}
    (published : Published lister.sigPids lister.sigNumThreads count) :
    lister.handlerPids = lister.pids.take count := by
  rw [handlerPids, published.1, published.2, if_pos rfl]

theorem handlerPids_of_withdrawn (withdrawn : lister.sigPids = false) : lister.handlerPids = [] := by
  simp [handlerPids, withdrawn]

/-- The held threads are published exactly at the positions that are not exposed. -/
theorem Suspended.published_iff (invariant : lister.Suspended) :
    (∀ pid ∈ lister.held, pid ∈ lister.handlerPids) ↔ ¬ lister.pc.Exposed lister.pids := by
  rw [Pc.exposed_phase]
  unfold Suspended at invariant
  cases phase : lister.pc.phase <;> simp only [phase, Phase.Holds] at invariant
  case starting | storing | ready | released => simp [Phase.Exposed, invariant]
  case idle =>
    obtain ⟨_, held, published⟩ := invariant
    simp [Phase.Exposed, held, handlerPids_of_published published]
  case looking pid =>
    obtain ⟨_, held, published, _⟩ := invariant
    simp [Phase.Exposed, held, handlerPids_of_published published]
  case verifying pid =>
    -- The thread in hand is held, and the published threads are the recorded ones.
    obtain ⟨_, held, published, fresh⟩ := invariant
    simp only [Phase.Exposed, not_true_eq_false, iff_false]
    intro covered
    have listed := covered pid (by simp [held])
    rw [handlerPids_of_published published, List.take_length] at listed
    exact fresh listed
  case publishing pid =>
    obtain ⟨before, recorded, distinct, held, published⟩ := invariant
    simp only [Phase.Exposed, not_true_eq_false, iff_false]
    intro covered
    have listed := covered pid (by simp [held, recorded])
    rw [handlerPids_of_published published, recorded, List.take_left] at listed
    rw [recorded] at distinct
    exact (List.nodup_append.mp distinct).2.2 pid listed pid List.mem_cons_self rfl
  case cleared =>
    obtain ⟨_, held, withdrawn⟩ := invariant
    simp [Phase.Exposed, held, handlerPids_of_withdrawn withdrawn, List.eq_nil_iff_forall_not_mem]
  case resuming rest armed =>
    obtain ⟨_, suffix, held, signals⟩ := invariant
    cases armed with
    | true =>
        simp only [Phase.Exposed, Bool.true_eq_false, false_and, not_false_eq_true, iff_true]
        intro pid member
        rw [handlerPids_of_published signals, List.take_length]
        exact suffix.subset (held ▸ member)
    | false =>
        simp [Phase.Exposed, held, handlerPids_of_withdrawn signals, List.eq_nil_iff_forall_not_mem]

/-- Crash cleanup. At every step of every run, the handler releases every thread
that the lister holds exactly if the lister is not between the attach of a thread
and its publication, and not between the withdrawal of the list and the end of
the resume loop. -/
theorem sigHandler_releases_iff (reached : (system callback).Reachable lister) (signum : Signal) :
    (∀ pid ∈ lister.held, Released signum lister pid) ↔ ¬ lister.pc.Exposed lister.pids := by
  simp only [released_iff]
  exact (Suspended.of_reachable reached).published_iff

theorem sigHandler_releases_sample :
    (callbackReplies.foldl step newborn).pc = .callback () ∧
      (callbackReplies.foldl step newborn).handlersInstalled = true ∧
      100 ∈ (callbackReplies.foldl step newborn).held ∧
      ∀ pid ∈ (callbackReplies.foldl step newborn).held,
        Released .sigsegv (callbackReplies.foldl step newborn) pid := by
  have inCallback : (callbackReplies.foldl step newborn).pc = .callback () := by decide +kernel
  refine ⟨inCallback, by decide +kernel, by decide +kernel, ?_⟩
  apply (sigHandler_releases_iff (newborn_reachable callbackReplies) .sigsegv).mpr
  rw [inCallback]
  exact not_false

/-- The run up to the attach of thread 101, which is waited for. -/
def attachReplies : List Reply := sampleReplies.take 23

/-- A fault right after an attach leaves the attached thread behind. -/
theorem sigHandler_misses_attached :
    (system returning).Reachable (attachReplies.foldl step newborn) ∧
      (attachReplies.foldl step newborn).handlersInstalled = true ∧
      Signal.sigsegv ∈ listerCrashSignals ∧
      101 ∈ (attachReplies.foldl step newborn).held ∧
      ¬ Released .sigsegv (attachReplies.foldl step newborn) 101 := by
  refine ⟨newborn_reachable attachReplies, by decide +kernel, by decide, by decide +kernel, ?_⟩
  rw [released_iff]
  decide +kernel

end Lister

end Corus.Threads
