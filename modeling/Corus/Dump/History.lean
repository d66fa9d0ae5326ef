import Corus.Dump.Permission

/-!
# Dumps one after the other

Three static variables of the process outlive a dump. Two of them are written
before they are read again. `SNAPSHOT_CHILD` is read by a lister that published no
child of its own, and it is reset only by a lister that lives to do so.
-/

namespace Corus.Dump

open Corus.Logical Corus.Platform Corus.Output Corus.Elf Corus.Threads

section Lister

variable {callback : Callback}

/-- The lister in a process whose statics differ. -/
def withStatics (lister : Lister callback) (statics : Statics) : Lister callback :=
  { lister with
    sigPids := statics.sigPids
    sigNumThreads := statics.sigNumThreads
    snapshotChild := statics.snapshotChild }

/-- The statics agree wherever the lister can tell: neither holds a child or both
hold the same one, and what was written since the lister began is the same. -/
structure Agrees (lister : Lister callback) (statics : Statics) : Prop where
  child : statics.snapshotChild = lister.snapshotChild ∨
    statics.snapshotChild ≤ 0 ∧ lister.snapshotChild ≤ 0
  sigPids : lister.handlersInstalled = true ∨ lister.pc = .storeCount ∨ lister.pc = .installHandlers →
    statics.sigPids = lister.sigPids
  sigNumThreads : lister.handlersInstalled = true ∨ lister.pc = .installHandlers →
    statics.sigNumThreads = lister.sigNumThreads

@[simp] theorem withStatics_pc (lister : Lister callback) (statics : Statics) :
    (withStatics lister statics).pc = lister.pc := rfl

@[simp] theorem withStatics_entries (lister : Lister callback) (statics : Statics) :
    (withStatics lister statics).entries = lister.entries := rfl

@[simp] theorem withStatics_candidate (lister : Lister callback) (statics : Statics) (dirent : Dirent) :
    (withStatics lister statics).candidate dirent = lister.candidate dirent := rfl

theorem withStatics_advance (lister : Lister callback) (statics : Statics) :
    (withStatics lister statics).advance = withStatics lister.advance statics := by
  unfold Lister.advance
  cases entries : lister.entries with
  | nil => simp [withStatics, entries]
  | cons dirent rest =>
      simp only [withStatics, entries]
      split
      · rfl
      · rfl

/-- Positions between the stores of the setup. -/
def inSetup {Local : Type} : Pc Local → Bool
  | .storeCount | .installHandlers => true
  | _ => false

/-- A step that leaves the statics alone and ends outside the setup. -/
theorem Agrees.later {lister after : Lister callback} {statics : Statics} (agrees : Agrees lister statics)
    (installed : after.handlersInstalled = lister.handlersInstalled) (pids : after.sigPids = lister.sigPids)
    (count : after.sigNumThreads = lister.sigNumThreads) (child : after.snapshotChild = lister.snapshotChild)
    (past : inSetup after.pc = false) : Agrees after statics where
  child := child ▸ agrees.child
  sigPids := by
    rw [installed, pids]
    rintro (done | first | second)
    · exact agrees.sigPids (.inl done)
    · rw [first] at past
      cases past
    · rw [second] at past
      cases past
  sigNumThreads := by
    rw [installed, count]
    rintro (done | second)
    · exact agrees.sigNumThreads (.inl done)
    · rw [second] at past
      cases past

/-- Only the callback and the lister that takes it touch the published child. -/
theorem step_snapshotChild (lister : Lister callback) (reply : Reply) :
    lister.pc = .takeChild ∨ (∃ position, lister.pc = .callback position) ∨
      (lister.step reply).snapshotChild = lister.snapshotChild := by
  have advanced : ∀ other : Lister callback, other.advance.snapshotChild = other.snapshotChild := by
    intro other
    obtain ⟨entries, skipped, equal⟩ := other.advance_eq
    rw [equal]
  have moves := lister.step_moves reply
  generalize lister.step reply = after at moves ⊢
  cases moves with
  | takesChild here => exact .inl here
  | @runs position _ _ here => exact .inr (.inl ⟨position, here⟩)
  | advances | passes | drops | publishes => exact .inr (.inr (advanced _))
  | _ => exact .inr (.inr rfl)

theorem Agrees.advance {lister after : Lister callback} {statics : Statics} (agrees : Agrees lister statics)
    (installed : after.handlersInstalled = lister.handlersInstalled) (pids : after.sigPids = lister.sigPids)
    (count : after.sigNumThreads = lister.sigNumThreads) (child : after.snapshotChild = lister.snapshotChild) :
    Agrees after.advance statics := by
  obtain ⟨entries, skipped, equal⟩ := after.advance_eq
  rw [equal]
  exact agrees.later installed pids count child rfl

/-- A step that touches no static variable keeps their agreement. -/
theorem Agrees.untouched {lister : Lister callback} {statics : Statics} (agrees : Agrees lister statics)
    (untouched : ¬ lister.pc.Touches) (reply : Reply) : Agrees (lister.step reply) statics := by
  have moves := lister.step_moves reply
  generalize lister.step reply = after at moves ⊢
  cases moves with
  | rests => exact agrees
  | turns here turn => exact agrees.later rfl rfl rfl rfl (by cases turn <;> rfl)
  | installHandlers here =>
      exact ⟨agrees.child, fun _ => agrees.sigPids (.inr (.inr here)), fun _ => agrees.sigNumThreads (.inr here)⟩
  | advances | passes | drops => exact agrees.advance rfl rfl rfl rfl
  | storePids here | storeCount here | publishes here | runs here | clearPids here | clearCount here
  | takesChild here =>
      rw [here] at untouched
      exact absurd trivial untouched
  | _ => exact agrees.later rfl rfl rfl rfl rfl

end Lister

section Steps

variable {arch : Arch} {engine : Engine arch}

/-- Except where it publishes the child, `dump_callback` neither reads nor writes
`SNAPSHOT_CHILD`. -/
theorem dumpCallbackStep_blind (engine : Engine arch) (memory : DumpMemory arch) (reply : Reply)
    (position : DumpPosition arch) (elsewhere : ∀ pid, position ≠ .publishChild pid) :
    ∃ progress after, ∀ child,
      dumpCallbackStep engine position reply ⟨child, memory⟩ = (progress, ⟨child, after⟩) := by
  refine ⟨(dumpCallbackStep engine position reply ⟨0, memory⟩).1,
    (dumpCallbackStep engine position reply ⟨0, memory⟩).2.memory, ?_⟩
  intro child
  cases position with
  | publishChild pid => exact absurd rfl (elsewhere pid)
  | capture pids =>
      simp only [dumpCallbackStep]
      cases engine.capture pids with
      | error error => rfl
      | ok cap => cases engine.opts.strategy <;> rfl
  | fork cap => cases reply <;> rfl
  | provisional => rfl
  | inline cap => rfl

/-- A step of the lister does not tell such statics apart. -/
theorem withStatics_step {lister : Lister (dumpCallback engine)} {statics : Statics}
    (agrees : Agrees lister statics) (reply : Reply) :
    ∃ after, (withStatics lister statics).step reply = withStatics (lister.step reply) after ∧
      Agrees (lister.step reply) after := by
  by_cases touched : lister.pc.Touches
  case neg =>
    exact ⟨statics, Lister.elsewhere_step _ _ _ _ touched reply, agrees.untouched touched reply⟩
  cases pc : lister.pc <;> rw [pc] at touched <;> try exact touched.elim
  case storePids =>
    refine ⟨{ statics with sigPids := true }, by simp [Lister.step, withStatics, pc], ?_⟩
    simp only [Lister.step, pc]
    exact ⟨agrees.child, fun _ => rfl, fun early => agrees.sigNumThreads (early.imp_right (by simp))⟩
  case storeCount =>
    refine ⟨{ statics with sigNumThreads := 0 }, by simp [Lister.step, withStatics, pc], ?_⟩
    simp only [Lister.step, pc]
    exact ⟨agrees.child, fun _ => agrees.sigPids (.inr (.inl pc)), fun _ => rfl⟩
  case publish pid =>
    refine ⟨{ statics with sigNumThreads := lister.pids.length }, ?_, ?_⟩
    · simp only [Lister.step, withStatics, pc]
      exact withStatics_advance { lister with
        sigNumThreads := lister.pids.length
        foundParent := lister.foundParent || pid == lister.ppid
        added := lister.added + 1 } { statics with sigNumThreads := lister.pids.length }
    · simp only [Lister.step, pc]
      have counted : Agrees { lister with
          pc := .walk
          sigNumThreads := lister.pids.length } { statics with sigNumThreads := lister.pids.length } :=
        ⟨agrees.child, fun early => agrees.sigPids (early.imp_right (by simp)), fun _ => rfl⟩
      exact counted.advance rfl rfl rfl rfl
  case clearPids outcome =>
    refine ⟨{ statics with sigPids := false }, by simp [Lister.step, withStatics, pc], ?_⟩
    simp only [Lister.step, pc]
    exact ⟨agrees.child, fun _ => rfl, fun early => agrees.sigNumThreads (early.imp_right (by simp))⟩
  case clearCount outcome =>
    refine ⟨{ statics with sigNumThreads := 0 }, by simp [Lister.step, withStatics, pc], ?_⟩
    simp only [Lister.step, pc]
    exact ⟨agrees.child, fun early => agrees.sigPids (early.imp_right (by simp)), fun _ => rfl⟩
  case takeChild =>
    refine ⟨{ statics with snapshotChild := 0 }, ?_, ?_⟩
    · have same : (0 < statics.snapshotChild) = (0 < lister.snapshotChild) := by
        rcases agrees.child with equal | ⟨neither, other⟩
        · rw [equal]
        · exact propext ⟨fun some => absurd some (Int32.not_lt.mpr neither),
            fun some => absurd some (Int32.not_lt.mpr other)⟩
      simp only [Lister.step, withStatics, pc, same]
      rcases agrees.child with equal | ⟨neither, other⟩
      · rw [equal]
      · rw [if_neg (Int32.not_lt.mpr other), if_neg (Int32.not_lt.mpr other)]
    · simp only [Lister.step, pc]
      refine ⟨.inl rfl, ?_, ?_⟩
      · intro early
        exact agrees.sigPids (early.imp_right (by split <;> simp))
      · intro early
        exact agrees.sigNumThreads (early.imp_right (by split <;> simp))
  case callback position =>
    by_cases publishes : ∃ pid, position = .publishChild pid
    · obtain ⟨pid, rfl⟩ := publishes
      refine ⟨{ statics with snapshotChild := pid }, ?_, ?_⟩
      · simp [Lister.step, withStatics, pc, dumpCallback, dumpCallbackStep]
      · simp only [Lister.step, pc, dumpCallback, dumpCallbackStep]
        exact ⟨.inl rfl, fun early => agrees.sigPids (early.imp_right (by simp)),
          fun early => agrees.sigNumThreads (early.imp_right (by simp))⟩
    · obtain ⟨progress, memory, blind⟩ := dumpCallbackStep_blind engine lister.memory reply position
        (fun pid same => publishes ⟨pid, same⟩)
      refine ⟨statics, ?_, ?_⟩
      · simp only [Lister.step, withStatics, pc, dumpCallback, blind]
        cases progress <;> rfl
      · simp only [Lister.step, pc, dumpCallback, blind]
        cases progress <;> exact agrees.later rfl rfl rfl rfl rfl

end Steps

namespace Dumping

variable {arch : Arch} {engine : Engine arch}

/-- The dump in a process whose statics differ. -/
def inStatics (state : Dumping engine) (statics : Statics) : Dumping engine :=
  { state with lister := withStatics state.lister statics }

/-- A choice does not tell such statics apart. -/
theorem inStatics_apply {state : Dumping engine} {statics : Statics} (agrees : Agrees state.lister statics)
    {choice : Choice} (allowed : state.admits choice = true) :
    ∃ after, (state.inStatics statics).apply choice = (state.apply choice).inStatics after ∧
      Agrees (state.apply choice).lister after := by
  cases choice with
  | caller reply => exact ⟨statics, rfl, agrees.child, agrees.sigPids, agrees.sigNumThreads⟩
  | lister reply =>
      obtain ⟨after, same, kept⟩ := withStatics_step agrees reply
      exact ⟨after, by simp only [apply, inStatics, same], kept⟩
  | childExits | childKilled signal core =>
      refine ⟨statics, ?_, ?_⟩
      · simp only [apply, endChild, inStatics, memory, withStatics]
        split
        · rfl
        · rfl
      · simp only [apply, endChild]
        split
        · exact ⟨agrees.child, agrees.sigPids, agrees.sigNumThreads⟩
        · exact agrees
  | crash signum =>
      simp only [admits, Bool.and_eq_true] at allowed
      have pids := agrees.sigPids (.inl allowed.1.2)
      have count := agrees.sigNumThreads (.inl allowed.1.2)
      refine ⟨{ statics with sigPids := false }, ?_, agrees.child, fun _ => rfl, fun _ => count⟩
      simp only [apply, inStatics, Lister.sigHandler, Lister.handlerPids, withStatics, pids, count]
  | kill signal core =>
      refine ⟨statics, rfl, agrees.later rfl rfl rfl rfl rfl⟩

/-- Nor does a schedule. -/
theorem inStatics_replay {state : Dumping engine} {statics : Statics} (agrees : Agrees state.lister statics)
    {choices : List Choice} (allowed : (state.inStatics statics).lawful choices = true) :
    state.lawful choices = true ∧
      ∃ after, (state.inStatics statics).replay choices = (state.replay choices).inStatics after := by
  induction choices generalizing state statics with
  | nil => exact ⟨rfl, statics, rfl⟩
  | cons choice rest ih =>
      simp only [lawful, throughout_cons, Bool.and_eq_true] at allowed ⊢
      -- What is admitted does not depend on the statics.
      have here : state.admits choice = true := allowed.1
      obtain ⟨middle, same, kept⟩ := inStatics_apply agrees here
      rw [same] at allowed
      obtain ⟨later, after, equal⟩ := ih kept allowed.2
      refine ⟨⟨here, later⟩, after, ?_⟩
      rw [replay, List.foldl_cons, same]
      exact equal

/-! ## What a dump leaves behind -/

/-- Positions at which the lister has no child published, or at which it ended. -/
def unpublished : Pc (DumpPosition arch) → Bool
  | .callback .provisional | .storeResult _ | .storeErr | .clearPids .dumped | .clearCount .dumped
  | .resume _ (.report .dumped) | .takeChild => false
  | _ => true

/-- The lister is where the clone starts it until there is one, and no child is
published where none should be. -/
def Tidy (state : Dumping engine) : Prop :=
  (state.cloned = false → state.lister.pc = .gettid) ∧
    (unpublished state.lister.pc = true → state.lister.snapshotChild = 0)

/-- The choice does not end the lister while a child is published. -/
def spares (state : Dumping engine) : Choice → Bool
  | .crash _ | .kill _ _ => state.lister.snapshotChild == 0
  | _ => true

/-- A step of the callback leaves no child published where none should be. -/
theorem unpublished_callback {lister : Lister (dumpCallback engine)} {position : DumpPosition arch}
    (inside : lister.pc = .callback position) (reply : Reply)
    (tidy : unpublished lister.pc = true → lister.snapshotChild = 0)
    (later : unpublished (lister.step reply).pc = true) : (lister.step reply).snapshotChild = 0 := by
  by_cases publishes : ∃ pid, position = .publishChild pid
  · obtain ⟨pid, rfl⟩ := publishes
    simp only [Lister.step, inside, dumpCallback, dumpCallbackStep, unpublished] at later
    cases later
  · obtain ⟨progress, memory, blind⟩ := dumpCallbackStep_blind engine lister.memory reply position
      (fun pid same => publishes ⟨pid, same⟩)
    have unchanged : (lister.step reply).snapshotChild = lister.snapshotChild := by
      simp only [Lister.step, inside, dumpCallback, blind]
      cases progress <;> rfl
    rw [unchanged]
    apply tidy
    rw [inside]
    cases position with
    | provisional =>
        simp only [Lister.step, inside, dumpCallback, dumpCallbackStep, unpublished] at later
        cases later
    | _ => rfl

/-- Neither does any other step of the lister. -/
theorem unpublished_step {lister : Lister (dumpCallback engine)} (reply : Reply)
    (tidy : unpublished lister.pc = true → lister.snapshotChild = 0)
    (later : unpublished (lister.step reply).pc = true) : (lister.step reply).snapshotChild = 0 := by
  rcases step_snapshotChild lister reply with take | ⟨position, inside⟩ | same
  · simp only [Lister.step, take]
  · exact unpublished_callback inside reply tidy later
  · -- A child that is published stays so until the lister takes it.
    by_cases before : unpublished lister.pc = true
    · rw [same]
      exact tidy before
    · cases pc : lister.pc <;> simp only [pc, unpublished, not_true] at before
      case callback position => exact unpublished_callback pc reply tidy later
      case takeChild => simp only [Lister.step, pc]
      case storeResult | storeErr =>
        simp only [Lister.step, pc, unpublished] at later
        cases later
      case clearPids outcome | clearCount outcome =>
        cases outcome
        · exact absurd rfl before
        · simp only [Lister.step, pc, unpublished] at later
          cases later
      case resume rest next =>
        rcases next with errno | _ | _
        · exact absurd rfl before
        · exact absurd rfl before
        · cases rest <;> simp only [Lister.step, Lister.request, pc, unpublished] at later <;> cases later

/-- A choice that spares the lister keeps a dump tidy. -/
theorem Tidy.apply {state : Dumping engine} (tidy : state.Tidy) {choice : Choice}
    (allowed : state.admits choice = true) (spared : state.spares choice = true) : (state.apply choice).Tidy := by
  obtain ⟨unborn, child⟩ := tidy
  cases choice with
  | caller reply =>
      refine ⟨fun uncloned => unborn ?_, child⟩
      simp only [Dumping.apply, callerStep, Bool.or_eq_false_iff] at uncloned
      exact uncloned.1
  | lister reply =>
      have cloned := (admits_lister_iff.mp allowed).1
      refine ⟨fun uncloned => ?_, unpublished_step reply child⟩
      simp only [Dumping.apply, cloned] at uncloned
      cases uncloned
  | childExits | childKilled signal core =>
      simp only [Dumping.apply, endChild]
      split
      · exact ⟨unborn, child⟩
      · exact ⟨unborn, child⟩
  | crash signum =>
      simp only [admits, Bool.and_eq_true] at allowed
      have cloned := (alive_iff.mp allowed.1.1).1
      refine ⟨fun uncloned => ?_, fun _ => beq_iff_eq.mp spared⟩
      simp only [Dumping.apply, cloned] at uncloned
      cases uncloned
  | kill signal core =>
      have cloned := (alive_iff.mp allowed).1
      refine ⟨fun uncloned => ?_, fun _ => beq_iff_eq.mp spared⟩
      simp only [Dumping.apply, cloned] at uncloned
      cases uncloned

/-- The statics after some dumps, one after the other, all choices of which follow
a rule. -/
inductive After (rule : ∀ engine : Engine arch, Dumping engine → Choice → Bool) : Statics → Prop where
  | first : After rule .fresh
  | dump {statics : Statics} (prior : After rule statics) (engine : Engine arch) (flags : ProcessFlags)
      (choices : List Choice) (allowed : (start engine flags statics).lawful choices = true)
      (ruled : (start engine flags statics).throughout (rule engine) choices = true)
      (returned : ((start engine flags statics).replay choices).result.isSome = true) :
      After rule ((start engine flags statics).replay choices).statics

/-- Dumps whose listers were spared leave no child behind. -/
theorem After.snapshotChild {statics : Statics}
    (after : After (fun engine : Engine arch => (spares : Dumping engine → Choice → Bool)) statics) :
    statics.snapshotChild = 0 := by
  induction after with
  | first => rfl
  | @dump statics _ engine flags choices allowed ruled returned none =>
      have start : (start engine flags statics).Tidy := ⟨fun _ => rfl, fun _ => none⟩
      obtain ⟨_, unborn, child⟩ := @throughout_keep _ _ Tidy spares spares
        (fun _ _ tidy allowed spared => ⟨spared, tidy.apply allowed spared⟩) _ _ start allowed ruled
      apply child
      -- The call returns after the lister has ended, or without one.
      have sound := replay_sound (start_sound engine flags statics) allowed
      have ended : ((Dumping.start engine flags statics).replay choices).Over := by
        unfold Dumping.result at returned
        split at returned
        · rename_i pc
          simp only [Sound, pc, stage] at sound
          exact sound.1
        · rename_i pc
          simp only [Sound, pc, stage] at sound
          exact sound.1
        · cases returned
      rcases ended with uncloned | ended
      · rw [unborn uncloned]
        rfl
      · unfold Lister.ending at ended
        split at ended
        · rename_i pc
          rw [pc]
          rfl
        · rename_i pc
          rw [pc]
          rfl
        · exact absurd rfl ended

/-- Independence of the past. After any number of dumps with any strategies and
outcomes, of which none had its lister ended by a signal while a snapshot child was
published: whatever the next call meets, the kernel would admit the same in a process
that never dumped, and there the call returns the same, captures and serializes the
same and makes the same ptrace requests. -/
theorem dump_independent (statics : Statics)
    (after : After (fun engine : Engine arch => (spares : Dumping engine → Choice → Bool)) statics)
    (engine : Engine arch)
    (flags : ProcessFlags) (choices : List Choice)
    (allowed : (start engine flags statics).lawful choices = true) :
    let next := (start engine flags statics).replay choices
    let fresh := (start engine flags .fresh).replay choices
    (start engine flags .fresh).lawful choices = true ∧ next.result = fresh.result ∧
      next.memory = fresh.memory ∧ next.lister.history = fresh.lister.history := by
  intro next fresh
  have none := after.snapshotChild
  have agrees : Agrees (start engine flags .fresh).lister statics :=
    ⟨.inl none, by simp [start], by simp [start]⟩
  obtain ⟨lawful, left, same⟩ := inStatics_replay agrees allowed
  refine ⟨lawful, ?_⟩
  rw [show next = fresh.inStatics left from same]
  exact ⟨rfl, rfl, rfl⟩

end Dumping

/-- As the sample, with a snapshot child. -/
def snapshotEngine : Engine .x86_64 :=
  { sampleEngine with options := { sampleOptions with strategy := .forkSnapshot } }

open Lister in
/-- The lister publishes its child 103 and crashes; the caller finds it dead. -/
def crashChoices : List Choice :=
  patientChoices ++ [.lister (succeeds 0 0), .lister (succeeds 103 0), .lister (succeeds 0 0), .crash .sigsegv,
    .caller (succeeds 0 512), .caller (succeeds 0 0), .caller (succeeds 0 0)]

/-- What it leaves. -/
def crashStatics : Statics := ((Dumping.start snapshotEngine ⟨1, 0⟩ .fresh).replay crashChoices).statics

open Lister in
/-- The lister serializes in-line; if it has a child to wait for, there is none. -/
def inlineChoices : List Choice :=
  patientChoices ++ (List.replicate 9 (succeeds 0 0)).map .lister ++ [.lister (.error .echild)] ++
    [.caller (succeeds 0 0), .caller (succeeds 0 0), .caller (succeeds 0 0)]

/-- The next dump, which writes its core in full, fails with ECHILD. -/
theorem dump_dependent :
    Dumping.After (fun (engine : Engine .x86_64) (_ : Dumping engine) _ => true) crashStatics ∧
      (Dumping.start sampleEngine ⟨1, 0⟩ crashStatics).lawful inlineChoices = true ∧
      ((Dumping.start sampleEngine ⟨1, 0⟩ crashStatics).replay inlineChoices).result =
        some (.error (.threadList Errno.echild.code)) ∧
      ((Dumping.start sampleEngine ⟨1, 0⟩ .fresh).replay inlineChoices).result = some (.ok 0) := by
  refine ⟨.dump .first snapshotEngine ⟨1, 0⟩ crashChoices (by decide +kernel) (by decide +kernel) ?_,
    by decide +kernel, ?_, ?_⟩
  · have returned : ((Dumping.start snapshotEngine ⟨1, 0⟩ .fresh).replay crashChoices).caller.pc =
        .returned (.error Errno.efault.code) := by decide +kernel
    simp only [Dumping.result, returned, Option.isSome_some]
  · have returned : ((Dumping.start sampleEngine ⟨1, 0⟩ crashStatics).replay inlineChoices).caller.pc =
        .returned (.error Errno.echild.code) := by decide +kernel
    simp only [Dumping.result, returned]
  · have returned : ((Dumping.start sampleEngine ⟨1, 0⟩ .fresh).replay inlineChoices).caller.pc =
        .returned (.ok 0) := by decide +kernel
    have written : ((Dumping.start sampleEngine ⟨1, 0⟩ .fresh).replay inlineChoices).memory.result =
        if (sampleEngine.serialize sampleCaptured).success then 0 else -1 := rfl
    have success : (sampleEngine.serialize sampleCaptured).success = true := runSerialize_sample _ rfl
    rw [success] at written
    simp only [Dumping.result, returned, written, if_true]

theorem dump_independent_sample :
    ((Dumping.start sampleEngine ⟨1, 0⟩ ((Dumping.start sampleEngine ⟨1, 0⟩ .fresh).replay inlineChoices).statics).replay
      inlineChoices).result = ((Dumping.start sampleEngine ⟨1, 0⟩ .fresh).replay inlineChoices).result := by
  refine (Dumping.dump_independent _ (.dump .first sampleEngine ⟨1, 0⟩ inlineChoices (by decide +kernel)
    (by decide +kernel) ?_) sampleEngine ⟨1, 0⟩ inlineChoices (by decide +kernel)).2.1
  have returned : ((Dumping.start sampleEngine ⟨1, 0⟩ .fresh).replay inlineChoices).caller.pc =
      .returned (.ok 0) := by decide +kernel
  simp only [Dumping.result, returned, Option.isSome_some]

end Corus.Dump
