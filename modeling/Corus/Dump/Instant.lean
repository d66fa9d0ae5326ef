import Corus.Dump.History
import Corus.Threads.Freeze

/-!
# One instant of the process

What only the threads of the process change, their registers and their memory, beside
the lister that dumps it. The callback looks at it while it captures and while it
serializes in-line; a fork copies it for the child, which looks at its copy long after
the threads run on. All of them see the same.
-/

namespace Corus.Dump

open Corus.Logical Corus.Platform Corus.Elf Corus.Threads

/-- From the callback on there is no further pass over the task directory. -/
def scanOver {Local : Type} : Pc Local → Bool
  | .callback _ | .storeResult _ | .storeErr | .clearPids _ | .clearCount _ | .resume _ _ | .takeChild | .reap _
  | .finished _ | .dead _ => true
  | _ => false

section Lister

variable {callback : Callback} {lister : Lister callback}

theorem scanOver_step (beyond : scanOver lister.pc = true) (reply : Reply) :
    scanOver (lister.step reply).pc = true := by
  have moves := lister.step_moves reply
  generalize lister.step reply = after at moves
  cases moves with
  | rests => exact beyond
  | turns here turn =>
      rw [here] at beyond
      cases turn with
      | mismatch mismatches => cases mismatches <;> cases beyond
      | reportMissing | reportDumped | reaped => rfl
      | _ => cases beyond
  | passes here passed =>
      rw [here] at beyond
      cases passed <;> cases beyond
  | runs here ran =>
      rename_i progress shared
      cases progress <;> rfl
  | takesChild =>
      simp only
      split <;> rfl
  | failsEarly | storeResult | storeErr | clearPids | clearCount | detaches | failsLate | reapsFailure | reapFails => rfl
  | _ here =>
      rw [here] at beyond
      cases beyond

/-- The callback is not entered a second time. -/
theorem callback_of_step (beyond : scanOver lister.pc = true) {reply : Reply} {position : callback.Local}
    (entered : (lister.step reply).pc = .callback position) : ∃ before, lister.pc = .callback before := by
  have moves := lister.step_moves reply
  generalize lister.step reply = after at moves entered
  cases moves with
  | rests => exact ⟨position, entered⟩
  | turns here turn =>
      rw [here] at beyond
      cases turn with
      | enter => cases beyond
      | _ => cases entered
  | advances here | drops here | publishes here =>
      rw [here] at beyond
      cases beyond
  | passes here passed =>
      rw [here] at beyond
      cases passed <;> cases beyond
  | runs here => exact ⟨_, here⟩
  | takesChild =>
      simp only at entered
      split at entered <;> cases entered
  | _ => cases entered

end Lister

/-- The process with its lister. `image` is what only its threads change, `copy` what a
child forked by the callback has of it, and `views` is what the dump has looked at. -/
structure Imaged {arch : Arch} (engine : Engine arch) (Image : Type) where
  process : Freezing (dumpCallback engine)
  image : Image
  copy : Option Image
  views : List Image

/-- What happens next: something in the process, a thread that changes the image, a
look at it by the callback, or one of the child at its copy. -/
inductive Scene (Image : Type) where
  | process (happening : Happening)
  | works (pid : Int32) (image : Image)
  | looks
  | childLooks

namespace Imaged

variable {arch : Arch} {engine : Engine arch} {Image : Type}

/-- Whether the lister forks in a happening. -/
def forks (state : Imaged engine Image) : Happening → Bool
  | .lister (.ok _) =>
      match state.process.lister.pc with
      | .callback (.fork _) => true
      | _ => false
  | _ => false

def apply (state : Imaged engine Image) : Scene Image → Imaged engine Image
  | .process happening =>
      { state with
        process := state.process.apply happening
        copy := if state.forks happening then some state.image else state.copy }
  | .works _ image => { state with image := image }
  | .looks => { state with views := state.views ++ [state.image] }
  | .childLooks => { state with views := state.views ++ state.copy.toList }

/-- The callback looks at the process while it captures and while it serializes, the
child while it runs. -/
def admits (own : Int32) (state : Imaged engine Image) : Scene Image → Bool
  | .process happening => state.process.admits own happening
  | .works pid _ => state.process.life pid == .running
  | .looks =>
      match state.process.lister.pc with
      | .callback (.capture _) | .callback (.inline _) => true
      | _ => false
  | .childLooks =>
      match state.process.lister.memory.child with
      | .running _ _ => true
      | _ => false

variable {own : Int32} {state : Imaged engine Image}

/-- All that was seen and all that will be is one image. -/
def OneOf (state : Imaged engine Image) (instant : Image) : Prop :=
  (∀ view ∈ state.views, view = instant) ∧ (∀ image ∈ state.copy, image = instant) ∧
    ∀ position, state.process.lister.pc = .callback position → state.image = instant

/-- Before the callback nothing was looked at. After it there is one image, unless a
thread exited or was denied to the lister during the last pass. -/
def Single (state : Imaged engine Image) : Prop :=
  if scanOver state.process.lister.pc then state.process.lost = true ∨ ∃ instant, state.OneOf instant
  else state.views = [] ∧ state.copy = none

/-- What the observer keeps track of. -/
structure Watched (own : Int32) (state : Imaged engine Image) : Prop where
  intact : state.process.Intact own
  single : state.Single

/-- At the callback, either a thread was lost or nothing runs. -/
theorem Watched.still (watched : state.Watched own) {position : (dumpCallback engine).Local}
    (entered : state.process.lister.pc = .callback position) :
    state.process.lost = true ∨ ∀ pid, state.process.life pid ≠ .running := by
  rcases watched.intact with ⟨exit, dead⟩ | ⟨_, _, _, stage⟩
  · rw [entered] at dead
    cases dead
  · rw [entered] at stage
    exact stage

/-- Past the scan no loss is noted or forgotten, and the callback is not entered. -/
theorem beyond_apply {process : Freezing (dumpCallback engine)} (beyond : scanOver process.lister.pc = true)
    (happening : Happening) : scanOver (process.apply happening).lister.pc = true ∧
      (process.apply happening).lost = process.lost ∧
      ∀ position, (process.apply happening).lister.pc = .callback position →
        ∃ before, process.lister.pc = .callback before := by
  cases happening with
  | lister reply =>
      refine ⟨scanOver_step beyond reply, ?_, fun _ entered => callback_of_step beyond entered⟩
      cases pc : process.lister.pc <;> rw [pc] at beyond
      case rewind | statThread | attach | waitStop | peekFirst | peekSecond => cases beyond
      all_goals simp only [Freezing.apply, Freezing.listerStep, Freezing.denies, Bool.or_false, pc]
  | spawn parent child => exact ⟨beyond, rfl, fun position entered => ⟨position, entered⟩⟩
  | exit pid =>
      refine ⟨beyond, ?_, fun position entered => ⟨position, entered⟩⟩
      have outside : process.lister.pc.inPass = false := by
        cases pc : process.lister.pc <;> rw [pc] at beyond <;> first | rfl | cases beyond
      simp only [Freezing.apply, outside, Bool.or_false]
  | crash signum =>
      refine ⟨rfl, rfl, ?_⟩
      intro position entered
      cases entered

/-- What happens in the process shows to nobody else. -/
theorem Single.process (single : state.Single) (happening : Happening) :
    (state.apply (.process happening)).Single := by
  unfold Single at single ⊢
  by_cases beyond : scanOver state.process.lister.pc = true
  · obtain ⟨still, lost, before⟩ := beyond_apply beyond happening
    rw [if_pos beyond] at single
    rw [if_pos (show scanOver (state.apply (.process happening)).process.lister.pc = true from still)]
    rcases single with noted | ⟨instant, views, copy, now⟩
    · exact .inl (lost.trans noted)
    · refine .inr ⟨instant, views, ?_, ?_⟩
      · intro image member
        simp only [apply] at member
        split at member
        · rename_i forked
          cases happening with
          | lister reply =>
              cases reply with
              | ok answer =>
                  simp only [forks] at forked
                  split at forked
                  · rename_i cap pc
                    exact (Option.mem_some.mp member) ▸ now _ pc
                  · cases forked
              | error errno => cases forked
          | spawn parent child => cases forked
          | exit pid => cases forked
          | crash signum => cases forked
        · exact copy image member
      · intro position entered
        obtain ⟨earlier, pc⟩ := before position entered
        exact now earlier pc
  · rw [if_neg beyond] at single
    obtain ⟨views, copy⟩ := single
    have noFork : state.forks happening = false := by
      cases happening with
      | lister reply =>
          cases reply with
          | ok answer =>
              simp only [forks]
              split
              · rename_i pc
                simp [pc, scanOver] at beyond
              · rfl
          | error errno => rfl
      | spawn parent child => rfl
      | exit pid => rfl
      | crash signum => rfl
    have kept : (state.apply (.process happening)).copy = none := by
      simp only [apply, noFork, copy, Bool.false_eq_true, if_false]
    split
    · -- The image at the call of the callback is the one.
      refine .inr ⟨state.image, ?_, ?_, fun _ _ => rfl⟩
      · intro view member
        simp only [apply, views, List.not_mem_nil] at member
      · intro image member
        rw [kept] at member
        cases member
    · exact ⟨views, kept⟩

/-- A thread that works does so before the callback or after it. -/
theorem Watched.works {pid : Int32} {image : Image} (watched : state.Watched own)
    (running : state.process.life pid = .running) : (state.apply (.works pid image)).Single := by
  have single := watched.single
  unfold Single at single ⊢
  by_cases beyond : scanOver state.process.lister.pc = true
  · rw [if_pos beyond] at single
    rw [if_pos (show scanOver (state.apply (.works pid image)).process.lister.pc = true from beyond)]
    rcases single with lost | ⟨instant, views, copy, _⟩
    · exact .inl lost
    by_cases lost : state.process.lost = true
    · exact .inl lost
    · refine .inr ⟨instant, views, copy, ?_⟩
      intro position entered
      have still := (watched.still entered).resolve_left lost
      exact absurd running (still pid)
  · rw [if_neg beyond] at single
    rw [if_neg (show ¬ scanOver (state.apply (.works pid image)).process.lister.pc = true from beyond)]
    exact single

/-- The callback looks at what the process is now. -/
theorem Single.looks (single : state.Single) {position : (dumpCallback engine).Local}
    (entered : state.process.lister.pc = .callback position) :
    (state.apply (.looks : Scene Image)).Single := by
  have beyond : scanOver state.process.lister.pc = true := by
    rw [entered]
    rfl
  unfold Single at single ⊢
  rw [if_pos beyond] at single
  rw [if_pos (show scanOver (state.apply (.looks : Scene Image)).process.lister.pc = true from beyond)]
  rcases single with lost | ⟨instant, views, copy, now⟩
  · exact .inl lost
  · refine .inr ⟨instant, ?_, copy, now⟩
    intro view member
    rcases List.mem_append.mp member with earlier | looked
    · exact views view earlier
    · exact (List.mem_singleton.mp looked).trans (now position entered)

/-- The child looks at what the process was at the fork. -/
theorem Single.childLooks (single : state.Single) : (state.apply (.childLooks : Scene Image)).Single := by
  unfold Single at single ⊢
  by_cases beyond : scanOver state.process.lister.pc = true
  · rw [if_pos beyond] at single
    rw [if_pos (show scanOver (state.apply (.childLooks : Scene Image)).process.lister.pc = true from beyond)]
    rcases single with lost | ⟨instant, views, copy, now⟩
    · exact .inl lost
    · refine .inr ⟨instant, ?_, copy, now⟩
      intro view member
      rcases List.mem_append.mp member with earlier | looked
      · exact views view earlier
      · exact copy view (Option.mem_toList.mp looked)
  · rw [if_neg beyond] at single
    rw [if_neg (show ¬ scanOver (state.apply (.childLooks : Scene Image)).process.lister.pc = true from beyond)]
    refine ⟨?_, single.2⟩
    simp only [apply, single.1, single.2, Option.toList_none, List.append_nil]

theorem Watched.apply (watched : state.Watched own) {scene : Scene Image} (admitted : state.admits own scene = true) :
    (state.apply scene).Watched own := by
  cases scene with
  | process happening => exact ⟨watched.intact.apply admitted, watched.single.process happening⟩
  | works pid image => exact ⟨watched.intact, watched.works (beq_iff_eq.mp admitted)⟩
  | looks =>
      refine ⟨watched.intact, ?_⟩
      simp only [admits] at admitted
      split at admitted
      · rename_i pc
        exact watched.single.looks pc
      · rename_i pc
        exact watched.single.looks pc
      · cases admitted
  | childLooks => exact ⟨watched.intact, watched.single.childLooks⟩

/-- A lister `own` that has just been cloned, and nothing looked at. -/
structure Initial (own : Int32) (state : Imaged engine Image) : Prop where
  process : Freezing.Initial own state.process
  copy : state.copy = none
  views : state.views = []

theorem Watched.initial (start : Initial own state) : state.Watched own := by
  refine ⟨.inr (.initial start.process), ?_⟩
  unfold Single
  rw [if_neg (by simp [start.process.lister.pc, scanOver])]
  exact ⟨start.views, start.copy⟩

/-- Whatever the callback and its child look at, and whenever they do, they see the
process at one and the same instant, unless a thread exited during the last pass over
the task directory or one that is alive was denied to the lister. -/
theorem views_instant (start : Initial own state) {scenes : List (Scene Image)}
    (admitted : throughout Imaged.apply (admits own) state scenes = true)
    (steady : (scenes.foldl Imaged.apply state).process.lost = false) :
    ∃ instant, (∀ view ∈ (scenes.foldl Imaged.apply state).views, view = instant) ∧
      ∀ position, (scenes.foldl Imaged.apply state).process.lister.pc = .callback position →
        (scenes.foldl Imaged.apply state).image = instant := by
  have watched : (scenes.foldl Imaged.apply state).Watched own :=
    foldl_keep (fun _ _ watched admitted => watched.apply admitted) (Watched.initial start) admitted
  have single := watched.single
  unfold Single at single
  split at single
  · obtain ⟨instant, views, _, now⟩ := single.resolve_left (by simp [steady])
    exact ⟨instant, views, now⟩
  · rename_i before
    refine ⟨(scenes.foldl Imaged.apply state).image, ?_, fun _ _ => rfl⟩
    intro view member
    rw [single.1] at member
    cases member

/-- Process 100 with one thread, whose counter is at 7. -/
def sampleImaged : Imaged snapshotEngine Nat where
  process :=
    { lister := { Lister.newborn with pc := .gettid, memory := DumpMemory.initial }
      born := [100, 101, 102]
      life := fun pid => if pid = 100 then .running else if pid = 101 ∨ pid = 102 then .gone else .unborn
      early := []
      lost := false }
  image := 7
  copy := none
  views := []

open Lister in
/-- The lister dumps the process with a snapshot child, which goes on while the thread
counts. -/
def sampleScenes : List (Scene Nat) :=
  [.works 100 8] ++ callbackReplies.map (.process ∘ .lister) ++ [.looks, .process (.lister (succeeds 0 0)),
    .process (.lister (succeeds 103 0)), .childLooks] ++
    (List.replicate 7 (succeeds 0 0)).map (.process ∘ .lister) ++ [.works 100 9, .childLooks]

theorem sampleImaged_initial : sampleImaged.Initial 102 where
  process := {
    lister := ⟨rfl, rfl, rfl, rfl, rfl, rfl, rfl⟩
    foreign := rfl
    born := by
      intro pid known
      simp only [sampleImaged] at known ⊢
      split at known
      · simp_all
      · split at known
        · simp_all
        · exact absurd rfl known
    untraced := by
      intro pid
      simp only [sampleImaged]
      split
      · simp
      · split <;> simp }
  copy := rfl
  views := rfl

theorem views_instant_sample :
    throughout Imaged.apply (admits 102) sampleImaged sampleScenes = true ∧
      (sampleScenes.foldl Imaged.apply sampleImaged).views = [8, 8, 8] ∧
      (sampleScenes.foldl Imaged.apply sampleImaged).image = 9 ∧
      ∃ instant, ∀ view ∈ (sampleScenes.foldl Imaged.apply sampleImaged).views, view = instant :=
  ⟨by decide +kernel, by decide +kernel, by decide +kernel,
    (views_instant sampleImaged_initial (by decide +kernel) (by decide +kernel)).imp fun _ same => same.1⟩

end Imaged

end Corus.Dump
