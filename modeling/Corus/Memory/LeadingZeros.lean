import Mathlib.Order.Lattice.Nat
import Corus.Logical.Ranges
import Corus.Memory.Delivery

/-!
# Leading zero pages

`leading_zeros` counts the zero bytes in front of a range, page by page through
the loopback pipe, and rounds down to a page boundary. Pages that cannot be read
count as zeros.
-/

namespace Corus.Memory

open Corus.Logical Corus.Platform

/-- The variables of the scan: bytes counted, next scratch byte to inspect, the
scratch buffer. -/
structure Scan where
  count : Nat
  ptr : Nat
  scratch : Bytes
  world : World

/-- Look at the next byte of the loaded page; true means that the scan goes on. -/
def Scan.inspect (scan : Scan) : Scan × Bool :=
  if scan.scratch[scan.ptr]? = some 0 then
    ({ scan with ptr := scan.ptr + 1, count := scan.count + 1 }, true)
  else (scan, false)

/-- One round of the loop. At a page boundary the next page is loaded first; one
that cannot be read in full is skipped. -/
def Scan.round (kernel : Kernel) (mem pagesize : Nat) (scan : Scan) : Scan × Bool :=
  if scan.count % pagesize = 0 then
    let filled := readMemory kernel ((mem + scan.count) % 2 ^ 64) (scan.scratch.take pagesize) scan.world
    let scan := { scan with scratch := overwrite scan.scratch 0 filled.scratch, world := filled.world }
    match filled.result with
    | .ok bytes =>
        if bytes = pagesize then Scan.inspect { scan with ptr := 0 }
        else ({ scan with count := scan.count + pagesize }, true)
    | .error errno =>
        if errno = .efault then ({ scan with count := scan.count + pagesize }, true)
        else (scan, false)
  else scan.inspect

/-- `while count < len`; every round that goes on counts at least one byte. -/
def Scan.run (kernel : Kernel) (mem len pagesize : Nat) : Nat → Scan → Scan
  | 0, scan => scan
  | fuel + 1, scan =>
      if scan.count < len then
        match scan.round kernel mem pagesize with
        | (scan, true) => Scan.run kernel mem len pagesize fuel scan
        | (scan, false) => scan
      else scan

/-- `leading_zeros`: the count, rounded down, and the scratch buffer. -/
def leadingZeros (kernel : Kernel) (mem len : Nat) (pagesize : UInt64) (scratch : Bytes)
    (world : World) : UInt64 × Bytes × World :=
  let scan := Scan.run kernel mem len pagesize.toNat len ⟨0, 0, scratch, world⟩
  (alignDown (UInt64.ofNat scan.count) pagesize, scan.scratch, scan.world)

/-! ## On every kernel -/

section Bounds

variable (kernel : Kernel) (mem : Nat) {len pagesize : Nat}

theorem Scan.inspect_count (scan : Scan) :
    scan.count ≤ scan.inspect.1.count ∧ scan.inspect.1.count ≤ scan.count + 1 ∧
      (scan.inspect.2 = true → scan.count < scan.inspect.1.count) := by
  unfold Scan.inspect
  split
  · exact ⟨Nat.le_succ _, Nat.le_refl _, fun _ => Nat.lt_succ_self _⟩
  · exact ⟨Nat.le_refl _, Nat.le_succ _, fun stopped => by cases stopped⟩

/-- Before the end of a range of whole pages there is room for one. -/
theorem page_fits {count : Nat} (whole : pagesize ∣ len) (boundary : count % pagesize = 0) (more : count < len) :
    count + pagesize ≤ len := by
  obtain ⟨pages, rfl⟩ := whole
  obtain ⟨done, rfl⟩ := Nat.dvd_of_mod_eq_zero boundary
  rw [← Nat.mul_succ]
  exact Nat.mul_le_mul_left _ (Nat.lt_of_mul_lt_mul_left more)

/-- One round stays in a range of whole pages, and counts something unless it is the last. -/
theorem Scan.round_count (positive : 0 < pagesize) (whole : pagesize ∣ len) {scan : Scan} (more : scan.count < len) :
    (scan.round kernel mem pagesize).1.count ≤ len ∧
      ((scan.round kernel mem pagesize).2 = true → scan.count < (scan.round kernel mem pagesize).1.count) := by
  have inspected : ∀ other : Scan, other.count = scan.count →
      other.inspect.1.count ≤ len ∧ (other.inspect.2 = true → scan.count < other.inspect.1.count) := by
    intro other same
    obtain ⟨_, high, counted⟩ := other.inspect_count
    rw [same] at high counted
    exact ⟨by omega, counted⟩
  unfold Scan.round
  split
  · rename_i boundary
    have room := page_fits whole boundary more
    simp only
    split
    · split
      · exact inspected _ rfl
      · exact ⟨room, fun _ => Nat.lt_add_of_pos_right positive⟩
    · split
      · exact ⟨room, fun _ => Nat.lt_add_of_pos_right positive⟩
      · exact ⟨Nat.le_of_lt more, fun stopped => by cases stopped⟩
  · exact inspected scan rfl

/-- The scan stays in its range and comes to an end in the rounds that it has. -/
theorem Scan.run_count (positive : 0 < pagesize) (whole : pagesize ∣ len) {fuel : Nat} {scan : Scan}
    (within : scan.count ≤ len) (enough : len ≤ fuel + scan.count) :
    (Scan.run kernel mem len pagesize fuel scan).count ≤ len ∧
      ∀ more, fuel ≤ more →
        Scan.run kernel mem len pagesize more scan = Scan.run kernel mem len pagesize fuel scan := by
  induction fuel generalizing scan with
  | zero =>
      refine ⟨within, ?_⟩
      intro more _
      have ended : ¬ scan.count < len := by omega
      cases more with
      | zero => rfl
      | succ more => simp only [Scan.run, ended, if_false]
  | succ fuel ih =>
      have stepped : ∀ more, fuel + 1 ≤ more → ∃ less, more = less + 1 ∧ fuel ≤ less := by
        intro more many
        exact ⟨more - 1, by omega, by omega⟩
      by_cases unfinished : scan.count < len
      · obtain ⟨bound, counted⟩ := Scan.round_count kernel mem positive whole unfinished
        cases round : scan.round kernel mem pagesize with
        | mk next goesOn =>
          rw [round] at bound counted
          cases goesOn with
          | true =>
              have further : scan.count < next.count := counted rfl
              obtain ⟨inside, stable⟩ := @ih next bound (by omega)
              refine ⟨by simp only [Scan.run, unfinished, if_true, round]; exact inside, ?_⟩
              intro more many
              obtain ⟨less, rfl, few⟩ := stepped more many
              simp only [Scan.run, unfinished, if_true, round, stable less few]
          | false =>
              refine ⟨by simp only [Scan.run, unfinished, if_true, round]; exact bound, ?_⟩
              intro more many
              obtain ⟨less, rfl, _⟩ := stepped more many
              simp only [Scan.run, unfinished, if_true, round]
      · refine ⟨by simp only [Scan.run, unfinished, if_false]; exact within, ?_⟩
        intro more many
        obtain ⟨less, rfl, _⟩ := stepped more many
        simp only [Scan.run, unfinished, if_false]

/-- Whatever the kernel answers, `leading_zeros` returns whole pages of the range. -/
theorem leadingZeros_within {pagesize : UInt64} {exponent : Nat} (power : pagesize.toNat = 2 ^ exponent)
    (whole : pagesize.toNat ∣ len) (small : len < 2 ^ 64) (scratch : Bytes) (world : World) :
    pagesize.toNat ∣ (leadingZeros kernel mem len pagesize scratch world).1.toNat ∧
      (leadingZeros kernel mem len pagesize scratch world).1.toNat ≤ len := by
  have positive : 0 < pagesize.toNat := by
    rw [power]
    exact Nat.two_pow_pos exponent
  obtain ⟨within, _⟩ := @Scan.run_count kernel mem len pagesize.toNat positive whole len
    ⟨0, 0, scratch, world⟩ (Nat.zero_le _) (Nat.le_refl _)
  simp only [leadingZeros]
  rw [toNat_alignDown power, UInt64.toNat_ofNat', Nat.mod_eq_of_lt (by omega)]
  exact ⟨Nat.dvd_mul_left _ _, Nat.le_trans (Nat.div_mul_le_self _ _) within⟩

end Bounds

/-- The scan makes no load of its own. -/
theorem Scan.round_faulted (kernel : Kernel) (mem pagesize : Nat) (scan : Scan) :
    (scan.round kernel mem pagesize).1.world.faulted = scan.world.faulted := by
  have inspected : ∀ other : Scan, other.inspect.1.world = other.world := by
    intro other
    unfold Scan.inspect
    split <;> rfl
  have read := faulted_readMemory kernel scan.world ((mem + scan.count) % 2 ^ 64) (scan.scratch.take pagesize)
  unfold Scan.round
  split
  · simp only
    split
    · split
      · rw [inspected]
        exact read
      · exact read
    · split <;> exact read
  · rw [inspected]

theorem Scan.run_faulted (kernel : Kernel) (mem len pagesize fuel : Nat) (scan : Scan) :
    (Scan.run kernel mem len pagesize fuel scan).world.faulted = scan.world.faulted := by
  induction fuel generalizing scan with
  | zero => rfl
  | succ fuel ih =>
      have stepped := scan.round_faulted kernel mem pagesize
      unfold Scan.run
      split
      · split
        · rename_i next ran
          rw [ran] at stepped
          exact (ih next).trans stepped
        · rename_i next ran
          rwa [ran] at stepped
      · rfl

theorem faulted_leadingZeros (kernel : Kernel) (mem len : Nat) (pagesize : UInt64) (scratch : Bytes) (world : World) :
    (leadingZeros kernel mem len pagesize scratch world).2.2.faulted = world.faulted :=
  Scan.run_faulted kernel mem len pagesize.toNat len ⟨0, 0, scratch, world⟩

/-! ## What the scan looks at -/

/-- A round of the scan reads a page into the front of the scratch buffer, or looks at a byte of it. -/
inductive ScanStep where
  | probe (asked size : Nat) (result : Except Errno Nat)
  | inspect (index size : Nat)

/-- The page could not be read for another reason than a fault. -/
def ScanStep.Failed : ScanStep → Prop
  | .probe _ _ (.error errno) => errno ≠ .efault
  | _ => False

instance : DecidablePred ScanStep.Failed
  | .probe _ _ (.error errno) => inferInstanceAs (Decidable (errno ≠ .efault))
  | .probe _ _ (.ok _) => .isFalse id
  | .inspect _ _ => .isFalse id

/-- The step stays inside the scratch buffer. -/
def ScanStep.InBounds : ScanStep → Prop
  | .probe asked size _ => asked ≤ size
  | .inspect index size => index < size

/-- The steps of one round. -/
def Scan.roundSteps (kernel : Kernel) (mem pagesize : Nat) (scan : Scan) : List ScanStep :=
  if scan.count % pagesize = 0 then
    let filled := readMemory kernel ((mem + scan.count) % 2 ^ 64) (scan.scratch.take pagesize) scan.world
    .probe pagesize scan.scratch.length filled.result ::
      match filled.result with
      | .ok bytes =>
          if bytes = pagesize then [.inspect 0 (overwrite scan.scratch 0 filled.scratch).length] else []
      | .error _ => []
  else [.inspect scan.ptr scan.scratch.length]

/-- The steps of the scan. -/
def Scan.runSteps (kernel : Kernel) (mem len pagesize : Nat) : Nat → Scan → List ScanStep
  | 0, _ => []
  | fuel + 1, scan =>
      if scan.count < len then
        scan.roundSteps kernel mem pagesize ++
          match scan.round kernel mem pagesize with
          | (scan, true) => Scan.runSteps kernel mem len pagesize fuel scan
          | (_, false) => []
      else []

/-! ## Blank pages -/

section Exact

variable {kernel : Kernel} {mem len pagesize size : Nat} {start : World} {scan : Scan}

/-- The address of a page of the range. -/
def pageAddress (mem pagesize number : Nat) : Nat := (mem + number * pagesize) % 2 ^ 64

/-- The page can be read in full. -/
def PageReadable (kernel : Kernel) (mem pagesize number : Nat) : Prop :=
  ∀ index < pagesize, kernel.readable (pageAddress mem pagesize number + index)

/-- The page is unreadable or all zero. -/
def BlankPage (kernel : Kernel) (mem pagesize number : Nat) : Prop :=
  PageReadable kernel mem pagesize number →
    ∀ index < pagesize, kernel.memory (pageAddress mem pagesize number + index) = 0

/-- The page that the count is in has been read into the scratch buffer, and is zero up to the count. -/
structure Scan.Loaded (kernel : Kernel) (mem pagesize : Nat) (scan : Scan) : Prop where
  ptr : scan.ptr = scan.count % pagesize
  page : scan.scratch.take pagesize =
    kernel.memoryRange (pageAddress mem pagesize (scan.count / pagesize)) pagesize
  readable : PageReadable kernel mem pagesize (scan.count / pagesize)
  zeros : ∀ index < scan.count % pagesize,
    kernel.memory (pageAddress mem pagesize (scan.count / pagesize) + index) = 0

/-- What has been counted. -/
structure Scan.Counted (kernel : Kernel) (mem len pagesize size : Nat) (scan : Scan) : Prop where
  within : scan.count ≤ len
  blank : ∀ number < scan.count / pagesize, BlankPage kernel mem pagesize number
  size : scan.scratch.length = size

/-- What the scan relies on between rounds, starting from a pipe state: all pages behind it
are blank, and inside a page the scratch buffer holds it. -/
structure Scan.Invariant (kernel : Kernel) (mem len pagesize size : Nat) (start : World) (scan : Scan) : Prop
    extends Scan.Counted kernel mem len pagesize size scan where
  settled : Settles start scan.world
  loaded : scan.count % pagesize ≠ 0 → scan.Loaded kernel mem pagesize

/-- The scan found data: the page that the count is in is not blank. -/
def Scan.AtData (kernel : Kernel) (mem pagesize : Nat) (scan : Scan) : Prop :=
  ¬ BlankPage kernel mem pagesize (scan.count / pagesize)

/-- The next byte is on the same page, or the first of the next one. -/
theorem succ_page (positive : 0 < pagesize) (count : Nat) :
    (count % pagesize + 1 = pagesize ∧ (count + 1) % pagesize = 0 ∧
        (count + 1) / pagesize = count / pagesize + 1) ∨
      (count + 1) % pagesize = count % pagesize + 1 ∧ (count + 1) / pagesize = count / pagesize := by
  have inside := Nat.mod_lt count positive
  have split := Nat.div_add_mod count pagesize
  by_cases last : count % pagesize + 1 = pagesize
  · have next : count + 1 = pagesize * (count / pagesize + 1) := by
      rw [Nat.mul_succ]
      omega
    refine .inl ⟨last, ?_, ?_⟩
    · rw [next, Nat.mul_mod_right]
    · rw [next, Nat.mul_div_cancel_left _ positive]
  · refine .inr ⟨?_, ?_⟩
    · rw [Nat.add_mod, Nat.mod_eq_of_lt (show 1 < pagesize by omega)]
      exact Nat.mod_eq_of_lt (by omega)
    · apply Nat.div_eq_of_lt_le
      · rw [Nat.mul_comm]
        omega
      · rw [Nat.succ_mul, Nat.mul_comm]
        omega

/-- Inspecting a byte of the loaded page counts it when it is zero and stops otherwise. -/
theorem Scan.inspect_invariant (positive : 0 < pagesize) (more : scan.count < len) (buffer : pagesize ≤ size)
    (counted : scan.Counted kernel mem len pagesize size) (settled : Settles start scan.world)
    (loaded : scan.Loaded kernel mem pagesize) :
    scan.ptr < scan.scratch.length ∧ scan.inspect.1.Invariant kernel mem len pagesize size start ∧
      if scan.inspect.2 then scan.count < scan.inspect.1.count else scan.inspect.1.AtData kernel mem pagesize := by
  obtain ⟨ptr, page, readable, zeros⟩ := loaded
  have inside := Nat.mod_lt scan.count positive
  have bounds : scan.ptr < scan.scratch.length := by
    rw [ptr, counted.size]
    omega
  have byte : scan.scratch[scan.ptr]? = some (kernel.memory
      (pageAddress mem pagesize (scan.count / pagesize) + scan.count % pagesize)) := by
    rw [ptr, ← List.getElem?_take_of_lt inside, page]
    simp [Kernel.memoryRange, inside]
  refine ⟨bounds, ?_⟩
  unfold Scan.inspect
  rw [byte]
  split
  · rename_i isZero
    rw [Option.some.injEq] at isZero
    have zerosNow : ∀ index < scan.count % pagesize + 1,
        kernel.memory (pageAddress mem pagesize (scan.count / pagesize) + index) = 0 := by
      intro index below
      rcases Nat.lt_succ_iff_lt_or_eq.mp below with before | rfl
      · exact zeros index before
      · exact isZero
    refine ⟨⟨⟨more, ?_, counted.size⟩, settled, ?_⟩, by simp⟩
    · intro number below
      rcases succ_page positive scan.count with ⟨last, _, next⟩ | ⟨_, same⟩
      · simp only [next] at below
        rcases Nat.lt_succ_iff_lt_or_eq.mp below with before | rfl
        · exact counted.blank number before
        · rw [last] at zerosNow
          exact fun _ => zerosNow
      · simp only [same] at below
        exact counted.blank number below
    · intro inPage
      rcases succ_page positive scan.count with ⟨_, boundary, _⟩ | ⟨next, same⟩
      · exact absurd boundary inPage
      · refine ⟨?_, ?_, ?_, ?_⟩
        · simp only [next, ptr]
        · simp only [same]
          exact page
        · simp only [same]
          exact readable
        · simp only [next, same]
          exact zerosNow
  · rename_i notZero
    refine ⟨⟨counted, settled, fun _ => ⟨ptr, page, readable, zeros⟩⟩, ?_⟩
    simp only [Bool.false_eq_true, if_false]
    intro blank
    exact notZero (by rw [blank readable _ inside])

/-- What the scan is called with. -/
structure ScanRange (start : World) (len pagesize size : Nat) : Prop where
  positive : 0 < pagesize
  whole : pagesize ∣ len
  buffer : pagesize ≤ size
  ready : Ready start pagesize

/-- Reading a page failed for another reason than a fault. -/
structure ScanFails (kernel : Kernel) (steps : List ScanStep) : Prop where
  step : ∃ step ∈ steps, step.Failed
  unreliable : ¬ Reliable kernel

theorem ScanFails.mono {steps more : List ScanStep} (fails : ScanFails kernel steps) (among : steps ⊆ more) :
    ScanFails kernel more := by
  obtain ⟨step, member, failed⟩ := fails.step
  exact ⟨⟨step, among member, failed⟩, fails.unreliable⟩

/-- How a round ends: it counts further, it stops at data, or reading the page failed. -/
inductive Scan.Rounds (kernel : Kernel) (mem len pagesize size : Nat) (start : World) (before : Scan)
    (steps : List ScanStep) : Scan × Bool → Prop where
  | further (scan : Scan) (invariant : scan.Invariant kernel mem len pagesize size start)
      (counts : before.count < scan.count) : Rounds kernel mem len pagesize size start before steps (scan, true)
  | data (scan : Scan) (invariant : scan.Invariant kernel mem len pagesize size start)
      (stops : scan.AtData kernel mem pagesize) : Rounds kernel mem len pagesize size start before steps (scan, false)
  | failed (scan : Scan) (counted : scan.Counted kernel mem len pagesize size)
      (fails : ScanFails kernel steps) : Rounds kernel mem len pagesize size start before steps (scan, false)

/-- Inspecting a byte of the loaded page is a round. -/
theorem Scan.inspect_rounds {before : Scan} {steps : List ScanStep} (range : ScanRange start len pagesize size)
    (more : scan.count < len) (same : scan.count = before.count)
    (counted : scan.Counted kernel mem len pagesize size) (settled : Settles start scan.world)
    (loaded : scan.Loaded kernel mem pagesize) :
    scan.ptr < scan.scratch.length ∧ Scan.Rounds kernel mem len pagesize size start before steps scan.inspect := by
  obtain ⟨bounds, invariant, progress⟩ :=
    Scan.inspect_invariant range.positive more range.buffer counted settled loaded
  refine ⟨bounds, ?_⟩
  rcases inspected : scan.inspect with ⟨next, goesOn⟩
  rw [inspected] at invariant progress
  cases goesOn with
  | true => exact .further next invariant (by simpa [same] using progress)
  | false => exact .data next invariant (by simpa using progress)

/-- A page that was read in full is loaded. -/
theorem Scan.loaded_page {filled : Filled} (boundary : scan.count % pagesize = 0)
    (readable : PageReadable kernel mem pagesize (scan.count / pagesize))
    (copied : filled.scratch = kernel.memoryRange (pageAddress mem pagesize (scan.count / pagesize)) pagesize) :
    ({ scan with ptr := 0, scratch := overwrite scan.scratch 0 filled.scratch, world := filled.world } : Scan).Loaded
      kernel mem pagesize := by
  refine ⟨boundary.symm, ?_, readable, ?_⟩
  · rw [copied, overwrite, List.take_zero, List.nil_append]
    exact List.take_left' (Kernel.length_memoryRange ..)
  · intro index below
    simp only [boundary] at below
    exact absurd below (Nat.not_lt_zero _)

/-- Skipping a page that cannot be read keeps the invariant. -/
theorem Scan.skip_invariant (range : ScanRange start len pagesize size) (more : scan.count < len)
    (boundary : scan.count % pagesize = 0) (counted : scan.Counted kernel mem len pagesize size)
    (settled : Settles start scan.world) (unreadable : ¬ PageReadable kernel mem pagesize (scan.count / pagesize)) :
    ({ scan with count := scan.count + pagesize } : Scan).Invariant kernel mem len pagesize size start := by
  refine ⟨⟨page_fits range.whole boundary more, ?_, counted.size⟩, settled, ?_⟩
  · intro number below
    simp only [Nat.add_div_right _ range.positive] at below
    rcases Nat.lt_succ_iff_lt_or_eq.mp below with before | rfl
    · exact counted.blank number before
    · exact fun readable => absurd readable unreadable
  · intro inPage
    exact absurd (by simpa using boundary) inPage

/-- One round keeps to the scratch buffer, and either counts further or stops for a reason. -/
theorem Scan.round_invariant (honest : Honest kernel) (range : ScanRange start len pagesize size)
    (more : scan.count < len) (invariant : scan.Invariant kernel mem len pagesize size start) :
    (∀ step ∈ scan.roundSteps kernel mem pagesize, step.InBounds) ∧
      Scan.Rounds kernel mem len pagesize size start scan (scan.roundSteps kernel mem pagesize)
        (scan.round kernel mem pagesize) := by
  have positive := range.positive
  have buffer := range.buffer
  unfold Scan.round Scan.roundSteps
  split
  · rename_i boundary
    have length : (scan.scratch.take pagesize).length = pagesize := by
      rw [List.length_take, invariant.size]
      omega
    have room := page_fits range.whole boundary more
    have address : (mem + scan.count) % 2 ^ 64 = pageAddress mem pagesize (scan.count / pagesize) := by
      rw [pageAddress, Nat.div_mul_cancel (Nat.dvd_of_mod_eq_zero boundary)]
    have ready : Ready scan.world (scan.scratch.take pagesize).length := by
      rw [length]
      exact range.ready.settled invariant.settled
    have kept := length_readMemory kernel (pageAddress mem pagesize (scan.count / pagesize))
      (scan.scratch.take pagesize) scan.world
    have delivered := @readMemory_honest kernel honest (pageAddress mem pagesize (scan.count / pagesize))
      (scan.scratch.take pagesize) scan.world ready
    have unreliable : ∀ {errno}, (readMemory kernel (pageAddress mem pagesize (scan.count / pagesize))
        (scan.scratch.take pagesize) scan.world).result = .error errno → errno ≠ .efault → ¬ Reliable kernel :=
      fun result other reliable => other (reliable.error_efault ready result)
    simp only [address]
    generalize readMemory kernel (pageAddress mem pagesize (scan.count / pagesize))
      (scan.scratch.take pagesize) scan.world = filled at delivered kept unreliable
    have sizeNow : (overwrite scan.scratch 0 filled.scratch).length = size := by
      rw [length_overwrite (by rw [kept, length, invariant.size]; omega), invariant.size]
    have probeBounds : pagesize ≤ scan.scratch.length := by
      rw [invariant.size]
      exact buffer
    have counted : ({ scan with
        scratch := overwrite scan.scratch 0 filled.scratch, world := filled.world } : Scan).Counted
        kernel mem len pagesize size := ⟨invariant.within, invariant.blank, sizeNow⟩
    rcases delivered with ⟨delivers, settled⟩ | ⟨errno, other, result⟩
    · have settledNow := invariant.settled.trans settled
      -- A page that cannot be read in full is skipped.
      have skipped := fun unreadable => @Scan.skip_invariant kernel mem len pagesize size start
        { scan with scratch := overwrite scan.scratch 0 filled.scratch, world := filled.world }
        range more boundary counted settledNow unreadable
      have further : scan.count < scan.count + pagesize := Nat.lt_add_of_pos_right positive
      cases delivers with
      | whole readable result copied =>
          rw [length] at readable result copied
          have loaded := Scan.loaded_page boundary readable copied
          simp only [result, if_true]
          obtain ⟨bounds, rounds⟩ := @Scan.inspect_rounds kernel mem len pagesize size start
            { scan with ptr := 0, scratch := overwrite scan.scratch 0 filled.scratch, world := filled.world } scan
            [.probe pagesize scan.scratch.length (.ok pagesize),
              .inspect 0 (overwrite scan.scratch 0 filled.scratch).length]
            range more rfl ⟨counted.within, counted.blank, counted.size⟩ settledNow loaded
          exact ⟨List.forall_mem_cons.mpr ⟨probeBounds, List.forall_mem_singleton.mpr bounds⟩, rounds⟩
      | short count faulted less _ result _ =>
          rw [length] at faulted less
          have differs : ¬ count = pagesize := by omega
          simp only [result, differs, if_false]
          exact ⟨List.forall_mem_singleton.mpr probeBounds, .further _ (skipped faulted) further⟩
      | fault faulted result _ =>
          rw [length] at faulted
          simp only [result, if_true]
          exact ⟨List.forall_mem_singleton.mpr probeBounds, .further _ (skipped faulted) further⟩
    · simp only [result, other, if_false]
      exact ⟨List.forall_mem_singleton.mpr probeBounds,
        .failed _ counted ⟨⟨_, List.mem_singleton_self _, other⟩, unreliable result other⟩⟩
  · rename_i inPage
    obtain ⟨bounds, rounds⟩ := @Scan.inspect_rounds kernel mem len pagesize size start scan scan
      [.inspect scan.ptr scan.scratch.length] range more rfl invariant.toCounted invariant.settled
      (invariant.loaded inPage)
    exact ⟨List.forall_mem_singleton.mpr bounds, rounds⟩

/-- How the whole scan ends. -/
structure Scan.Ends (kernel : Kernel) (mem len pagesize size : Nat) (start : World) (steps : List ScanStep)
    (scan : Scan) : Prop extends Scan.Counted kernel mem len pagesize size scan where
  ended : scan.count = len ∨ scan.AtData kernel mem pagesize ∨ ScanFails kernel steps
  settled : Settles start scan.world ∨ ScanFails kernel steps
  bounds : ∀ step ∈ steps, step.InBounds

/-- The scan counts blank pages up to the end of the range, to data, or to a failure. -/
theorem Scan.run_ends (honest : Honest kernel) {fuel : Nat} (range : ScanRange start len pagesize size)
    (enough : len ≤ fuel + scan.count) (invariant : scan.Invariant kernel mem len pagesize size start) :
    (Scan.run kernel mem len pagesize fuel scan).Ends kernel mem len pagesize size start
      (Scan.runSteps kernel mem len pagesize fuel scan) := by
  induction fuel generalizing scan with
  | zero =>
      have within := invariant.within
      exact ⟨invariant.toCounted, .inl (by simp only [Scan.run]; omega), .inl invariant.settled,
        by simp [Scan.runSteps]⟩
  | succ fuel ih =>
      by_cases more : scan.count < len
      · obtain ⟨bounds, rounds⟩ := Scan.round_invariant honest range more invariant
        simp only [Scan.run, Scan.runSteps, more, if_true]
        generalize scan.round kernel mem pagesize = round at rounds
        cases rounds with
        | further next kept counts =>
            have rest := ih (show len ≤ fuel + next.count by omega) kept
            have among := List.subset_append_right (scan.roundSteps kernel mem pagesize)
              (Scan.runSteps kernel mem len pagesize fuel next)
            refine ⟨rest.toCounted, ?_, ?_, List.forall_mem_append.mpr ⟨bounds, rest.bounds⟩⟩
            · rcases rest.ended with whole | data | fails
              · exact .inl whole
              · exact .inr (.inl data)
              · exact .inr (.inr (fails.mono among))
            · exact rest.settled.imp_right fun fails => fails.mono among
        | data next kept stops =>
            exact ⟨kept.toCounted, .inr (.inl stops), .inl kept.settled, by simpa using bounds⟩
        | failed next counted fails =>
            have fails := fails.mono (List.subset_append_left (scan.roundSteps kernel mem pagesize) [])
            exact ⟨counted, .inr (.inr fails), .inr fails, by simpa using bounds⟩
      · have within := invariant.within
        simp only [Scan.run, Scan.runSteps, more, if_false]
        exact ⟨invariant.toCounted, .inl (by omega), .inl invariant.settled, by simp⟩

/-- Before the first round. -/
theorem Scan.initial_invariant (scratch : Bytes) (world : World) :
    ({ count := 0, ptr := 0, scratch := scratch, world := world } : Scan).Invariant kernel mem len pagesize
      scratch.length world :=
  ⟨⟨Nat.zero_le _, by simp, rfl⟩, Settles.refl _, fun inPage => absurd (Nat.zero_mod _) inPage⟩

/-- The numbers of bytes that make up blank pages at the start of the range. -/
def blankLeads (kernel : Kernel) (mem len pagesize : Nat) : Set Nat :=
  {lead | pagesize ∣ lead ∧ lead ≤ len ∧ ∀ number < lead / pagesize, BlankPage kernel mem pagesize number}

/-- The whole pages of what was counted are blank. -/
theorem Scan.Counted.mem_blankLeads (positive : 0 < pagesize) (counted : scan.Counted kernel mem len pagesize size) :
    scan.count / pagesize * pagesize ∈ blankLeads kernel mem len pagesize := by
  refine ⟨Nat.dvd_mul_left _ _, Nat.le_trans (Nat.div_mul_le_self _ _) counted.within, ?_⟩
  rw [Nat.mul_div_cancel _ positive]
  exact counted.blank

/-- Without a failure there are no more blank pages. -/
theorem Scan.Ends.isGreatest {steps : List ScanStep} (range : ScanRange start len pagesize size)
    (ends : scan.Ends kernel mem len pagesize size start steps) (unfailed : ∀ step ∈ steps, ¬ step.Failed) :
    IsGreatest (blankLeads kernel mem len pagesize) (scan.count / pagesize * pagesize) := by
  refine ⟨ends.toCounted.mem_blankLeads range.positive, ?_⟩
  rintro lead ⟨pages, within, blank⟩
  rcases ends.ended with done | data | fails
  · rw [done, Nat.div_mul_cancel range.whole]
    exact within
  · -- The page with data would be among the blank ones.
    by_contra more
    have beyond : scan.count / pagesize < lead / pagesize := by
      apply Nat.lt_of_mul_lt_mul_right (a := pagesize)
      rw [Nat.div_mul_cancel pages]
      exact Nat.not_le.mp more
    exact data (blank _ beyond)
  · obtain ⟨step, member, failed⟩ := fails.step
    exact absurd failed (unfailed step member)

theorem exists_isGreatest_blankLeads (kernel : Kernel) (mem len pagesize : Nat) :
    ∃ lead, IsGreatest (blankLeads kernel mem len pagesize) lead := by
  have bounded : BddAbove (blankLeads kernel mem len pagesize) := ⟨len, fun _ member => member.2.1⟩
  have nonempty : (blankLeads kernel mem len pagesize).Nonempty := ⟨0, Nat.dvd_zero _, Nat.zero_le _, by simp⟩
  exact ⟨_, Nat.sSup_mem nonempty bounded, fun _ member => le_csSup bounded member⟩

/-- The count is rounded down to whole pages. -/
theorem toNat_leadingZeros {pagesize : UInt64} {exponent : Nat} (power : pagesize.toNat = 2 ^ exponent)
    {scratch : Bytes} {world : World} (small : len < 2 ^ 64)
    (within : (Scan.run kernel mem len pagesize.toNat len ⟨0, 0, scratch, world⟩).count ≤ len) :
    (leadingZeros kernel mem len pagesize scratch world).1.toNat =
      (Scan.run kernel mem len pagesize.toNat len ⟨0, 0, scratch, world⟩).count / pagesize.toNat * pagesize.toNat := by
  simp only [leadingZeros]
  rw [toNat_alignDown power, UInt64.toNat_ofNat', Nat.mod_eq_of_lt (by omega)]

/-- `leading_zeros` is exact: it returns the largest number of blank pages when no probe
fails otherwise than with a fault, and never a larger one. It stays inside the scratch
buffer, and has come to its end after as many rounds as the range has bytes. -/
theorem leadingZeros_exact (honest : Honest kernel) (mem : Nat) (len pagesize : UInt64) {exponent : Nat}
    (power : pagesize.toNat = 2 ^ exponent) (whole : pagesize.toNat ∣ len.toNat) {scratch : Bytes}
    (buffer : pagesize.toNat ≤ scratch.length) {world : World} (ready : Ready world pagesize.toNat) :
    ((∀ step ∈ Scan.runSteps kernel mem len.toNat pagesize.toNat len.toNat ⟨0, 0, scratch, world⟩, ¬ step.Failed) →
      IsGreatest (blankLeads kernel mem len.toNat pagesize.toNat)
        (leadingZeros kernel mem len.toNat pagesize scratch world).1.toNat) ∧
    (pagesize.toNat ∣ (leadingZeros kernel mem len.toNat pagesize scratch world).1.toNat ∧
      ∃ lead, IsGreatest (blankLeads kernel mem len.toNat pagesize.toNat) lead ∧
        (leadingZeros kernel mem len.toNat pagesize scratch world).1.toNat ≤ lead) ∧
    (∀ step ∈ Scan.runSteps kernel mem len.toNat pagesize.toNat len.toNat ⟨0, 0, scratch, world⟩, step.InBounds) ∧
    ∀ rounds, len.toNat ≤ rounds →
      Scan.run kernel mem len.toNat pagesize.toNat rounds ⟨0, 0, scratch, world⟩ =
        Scan.run kernel mem len.toNat pagesize.toNat len.toNat ⟨0, 0, scratch, world⟩ := by
  have positive : 0 < pagesize.toNat := by
    rw [power]
    exact Nat.two_pow_pos exponent
  have range : ScanRange world len.toNat pagesize.toNat scratch.length := ⟨positive, whole, buffer, ready⟩
  have ends := @Scan.run_ends kernel mem len.toNat pagesize.toNat scratch.length world ⟨0, 0, scratch, world⟩ honest
    len.toNat range (Nat.le_refl _) (Scan.initial_invariant scratch world)
  have result := toNat_leadingZeros power len.toNat_lt ends.within
  have member := ends.toCounted.mem_blankLeads positive
  rw [result]
  refine ⟨fun unfailed => ends.isGreatest range unfailed, ⟨member.1, ?_⟩, ends.bounds, ?_⟩
  · obtain ⟨lead, greatest⟩ := exists_isGreatest_blankLeads kernel mem len.toNat pagesize.toNat
    exact ⟨lead, greatest, greatest.2 member⟩
  · exact (@Scan.run_count kernel mem len.toNat pagesize.toNat positive whole len.toNat ⟨0, 0, scratch, world⟩
      (Nat.zero_le _) (Nat.le_refl _)).2

/-- An unreadable byte, a zero byte and data, each taken as a page. -/
theorem leadingZeros_exact_holeyKernel :
    (leadingZeros holeyKernel 8191 4 1 [7] ⟨0, ⟨[], 0, false, 4096⟩, false, false⟩).1.toNat = 2 ∧
      IsGreatest (blankLeads holeyKernel 8191 4 1) 2 := by
  have result : (leadingZeros holeyKernel 8191 4 1 [7] ⟨0, ⟨[], 0, false, 4096⟩, false, false⟩).1.toNat = 2 := by decide
  have greatest := (@leadingZeros_exact holeyKernel reliable_holeyKernel.toHonest 8191 4 1 0 rfl (by decide) [7]
    (by decide) ⟨0, ⟨[], 0, false, 4096⟩, false, false⟩ ⟨⟨rfl, rfl⟩, by decide⟩).1 (by decide)
  exact ⟨result, result ▸ greatest⟩

/-! ### Where the scan stops -/

/-- Inside a page the scan has read all of it. -/
def Scan.OnPage (kernel : Kernel) (mem pagesize : Nat) (scan : Scan) : Prop :=
  scan.count % pagesize ≠ 0 → PageReadable kernel mem pagesize (scan.count / pagesize)

/-- Looking at a byte of a page that has been read stays on it, or leaves it at its end. -/
theorem Scan.inspect_onPage (positive : 0 < pagesize)
    (readable : PageReadable kernel mem pagesize (scan.count / pagesize)) :
    if scan.inspect.2 then scan.inspect.1.OnPage kernel mem pagesize
    else PageReadable kernel mem pagesize (scan.inspect.1.count / pagesize) := by
  unfold Scan.inspect
  split
  · simp only [if_true]
    intro inPage
    rcases succ_page positive scan.count with ⟨_, boundary, _⟩ | ⟨_, same⟩
    · exact absurd boundary inPage
    · simp only [same]
      exact readable
  · exact readable

/-- A round that ends the scan ends it on a page that was read, or at one that could not be
read for another reason than a fault. -/
theorem Scan.round_onPage (truthful : Truthful kernel) (positive : 0 < pagesize)
    (onPage : scan.OnPage kernel mem pagesize) :
    if (scan.round kernel mem pagesize).2 then (scan.round kernel mem pagesize).1.OnPage kernel mem pagesize
    else PageReadable kernel mem pagesize ((scan.round kernel mem pagesize).1.count / pagesize) ∨
      ∃ step ∈ scan.roundSteps kernel mem pagesize, step.Failed := by
  have inspected : ∀ other : Scan, PageReadable kernel mem pagesize (other.count / pagesize) →
      if other.inspect.2 then other.inspect.1.OnPage kernel mem pagesize
      else PageReadable kernel mem pagesize (other.inspect.1.count / pagesize) ∨
        ∃ step ∈ scan.roundSteps kernel mem pagesize, step.Failed := by
    intro other readable
    have stays := @Scan.inspect_onPage kernel mem pagesize other positive readable
    split at stays
    · rename_i goesOn
      rwa [if_pos goesOn]
    · rename_i stops
      rw [if_neg stops]
      exact .inl stays
  unfold Scan.round
  split
  · rename_i boundary
    have skipped : ∀ other : Scan, other.count = scan.count + pagesize → other.OnPage kernel mem pagesize := by
      intro other next inPage
      exact absurd (by rw [next, Nat.add_mod_right, boundary]) inPage
    simp only
    split
    · rename_i bytes result
      split
      · rename_i all
        apply inspected
        have address : (mem + scan.count) % 2 ^ 64 = pageAddress mem pagesize (scan.count / pagesize) := by
          rw [pageAddress, Nat.div_mul_cancel (Nat.dvd_of_mod_eq_zero boundary)]
        obtain ⟨_, readable⟩ := truthful.readable result (by rw [all, List.length_take]; exact Nat.min_le_left ..)
        rw [all, address] at readable
        exact readable
      · exact skipped _ rfl
    · rename_i errno result
      split
      · exact skipped _ rfl
      · rename_i other
        refine .inr ⟨.probe pagesize scan.scratch.length (.error errno), ?_, other⟩
        unfold Scan.roundSteps
        rw [if_pos boundary]
        simp only [result]
        exact List.mem_cons_self
  · rename_i inside
    exact inspected scan (onPage inside)

/-- The scan comes to the end of its range, or stops at a page that was read, or at one that
could not be read for another reason than a fault. -/
theorem Scan.run_onPage (truthful : Truthful kernel) (positive : 0 < pagesize) (whole : pagesize ∣ len) {fuel : Nat}
    (enough : len ≤ fuel + scan.count) (onPage : scan.OnPage kernel mem pagesize) :
    len ≤ (Scan.run kernel mem len pagesize fuel scan).count ∨
      PageReadable kernel mem pagesize ((Scan.run kernel mem len pagesize fuel scan).count / pagesize) ∨
      ∃ step ∈ Scan.runSteps kernel mem len pagesize fuel scan, step.Failed := by
  induction fuel generalizing scan with
  | zero => exact .inl (by simp only [Scan.run]; omega)
  | succ fuel ih =>
      by_cases unfinished : scan.count < len
      · have counts := (Scan.round_count kernel mem positive whole unfinished).2
        have round := Scan.round_onPage truthful positive onPage
        simp only [Scan.run, Scan.runSteps, unfinished, if_true]
        generalize scan.round kernel mem pagesize = ran at round counts ⊢
        obtain ⟨next, _ | _⟩ := ran
        · rcases round with readable | ⟨step, member, failed⟩
          · exact .inr (.inl readable)
          · exact .inr (.inr ⟨step, List.mem_append_left _ member, failed⟩)
        · have further : scan.count < next.count := counts rfl
          rcases ih (show len ≤ fuel + next.count by omega) round with done | readable | ⟨step, member, failed⟩
          · exact .inl done
          · exact .inr (.inl readable)
          · exact .inr (.inr ⟨step, List.mem_append_right _ member, failed⟩)
      · simp only [Scan.run, unfinished, if_false]
        exact .inl (Nat.not_lt.mp unfinished)

/-- Where `leading_zeros` stops inside a range, the next page can be read, unless reading it
failed for another reason than a fault. -/
theorem leadingZeros_stops (truthful : Truthful kernel) {pagesize : UInt64} {exponent : Nat}
    (power : pagesize.toNat = 2 ^ exponent) (whole : pagesize.toNat ∣ len) (small : len < 2 ^ 64) {scratch : Bytes}
    {world : World} (less : (leadingZeros kernel mem len pagesize scratch world).1.toNat < len) :
    PageReadable kernel mem pagesize.toNat
        ((leadingZeros kernel mem len pagesize scratch world).1.toNat / pagesize.toNat) ∨
      ∃ step ∈ Scan.runSteps kernel mem len pagesize.toNat len ⟨0, 0, scratch, world⟩, step.Failed := by
  have positive : 0 < pagesize.toNat := by
    rw [power]
    exact Nat.two_pow_pos exponent
  obtain ⟨within, _⟩ := @Scan.run_count kernel mem len pagesize.toNat positive whole len
    ⟨0, 0, scratch, world⟩ (Nat.zero_le _) (Nat.le_refl _)
  have lead := toNat_leadingZeros power small within
  have stops := @Scan.run_onPage kernel mem len pagesize.toNat ⟨0, 0, scratch, world⟩ truthful positive whole len
    (Nat.le_refl _) (fun inPage => absurd (Nat.zero_mod _) inPage)
  rw [lead] at less ⊢
  rw [Nat.mul_div_cancel _ positive]
  refine stops.resolve_left fun done => ?_
  rw [Nat.le_antisymm within done, Nat.div_mul_cancel whole] at less
  exact Nat.lt_irrefl _ less

end Exact

/-! ## On the documented kernel -/

section Documented

variable {kernel : Kernel} {mem len : Nat}

/-- The bytes of an aligned page lie on one page. -/
theorem samePage_of_aligned {page index : Nat} (positive : 0 < kernel.pageSize)
    (aligned : kernel.pageSize ∣ page) (inside : index < kernel.pageSize) :
    (page + index) / kernel.pageSize = page / kernel.pageSize := by
  obtain ⟨number, rfl⟩ := aligned
  rw [Nat.mul_add_div positive, Nat.div_eq_of_lt inside, Nat.mul_div_cancel_left _ positive, Nat.add_zero]

/-- A range the scan is called for. -/
structure PageRange (kernel : Kernel) (mem len size : Nat) (world : World) : Prop where
  start : kernel.pageSize ∣ mem
  whole : kernel.pageSize ∣ len
  bounded : mem + len ≤ 2 ^ 64
  buffer : kernel.pageSize ≤ size
  ready : Ready world kernel.pageSize

/-- What `leading_zeros` returns: a number of whole pages, all of them zero or
unreadable, that is either the whole range or followed by a readable page with data. -/
structure LeadingZeros (kernel : Kernel) (mem len lead : Nat) : Prop where
  pages : kernel.pageSize ∣ lead
  within : lead ≤ len
  zeros : ∀ index < lead, kernel.visible (mem + index) = 0
  data : lead < len → ∃ index < kernel.pageSize,
    kernel.readable (mem + lead + index) ∧ kernel.memory (mem + lead + index) ≠ 0

/-- Inside the address space the pages of the range follow each other. -/
theorem PageRange.pageAddress_eq {size number : Nat} {world : World} (range : PageRange kernel mem len size world)
    (inside : number * kernel.pageSize < len) :
    pageAddress mem kernel.pageSize number = mem + number * kernel.pageSize := by
  have bounded := range.bounded
  exact Nat.mod_eq_of_lt (by omega)

/-- A reader sees only zeros on a blank page. -/
theorem PageRange.visible_of_blank {size number index : Nat} {world : World} (positive : 0 < kernel.pageSize)
    (range : PageRange kernel mem len size world) (inside : number * kernel.pageSize < len)
    (blank : BlankPage kernel mem kernel.pageSize number) (below : index < kernel.pageSize) :
    kernel.visible (mem + number * kernel.pageSize + index) = 0 := by
  have aligned : kernel.pageSize ∣ mem + number * kernel.pageSize :=
    Nat.dvd_add range.start (Nat.dvd_mul_left _ _)
  unfold BlankPage PageReadable at blank
  rw [range.pageAddress_eq inside] at blank
  unfold Kernel.visible
  split
  · rename_i readable
    apply blank _ index below
    intro other within
    exact readable_of_samePage (fun _ => samePage_of_aligned positive aligned) below within readable
  · rfl

theorem leadingZeros_documented (documented : Documented kernel) {pagesize : UInt64} {scratch : Bytes}
    {world : World} (runtime : pagesize.toNat = kernel.pageSize) {exponent : Nat}
    (power : pagesize.toNat = 2 ^ exponent) (small : len < 2 ^ 64)
    (range : PageRange kernel mem len scratch.length world) :
    LeadingZeros kernel mem len (leadingZeros kernel mem len pagesize scratch world).1.toNat ∧
      (leadingZeros kernel mem len pagesize scratch world).2.1.length = scratch.length ∧
      Settles world (leadingZeros kernel mem len pagesize scratch world).2.2 := by
  have positive := documented.pages.1
  have scanRange : ScanRange world len kernel.pageSize scratch.length :=
    ⟨positive, range.whole, range.buffer, range.ready⟩
  have ends := @Scan.run_ends kernel mem len kernel.pageSize scratch.length world ⟨0, 0, scratch, world⟩
    documented.reliable.toHonest len scanRange (Nat.le_refl _) (Scan.initial_invariant scratch world)
  have result := @toNat_leadingZeros kernel mem len pagesize exponent power scratch world small
    (by rw [runtime]; exact ends.within)
  rw [result]
  simp only [leadingZeros, runtime]
  generalize Scan.run kernel mem len kernel.pageSize len ⟨0, 0, scratch, world⟩ = scan at ends
  have settled := ends.settled.resolve_right fun fails => fails.unreliable documented.reliable
  have below : scan.count / kernel.pageSize * kernel.pageSize ≤ scan.count := Nat.div_mul_le_self ..
  refine ⟨⟨Nat.dvd_mul_left .., Nat.le_trans below ends.within, ?_, ?_⟩, ends.size, settled⟩
  · intro index inside
    have number : index / kernel.pageSize < scan.count / kernel.pageSize := Nat.div_lt_of_lt_mul (by rwa [Nat.mul_comm])
    have before : index / kernel.pageSize * kernel.pageSize ≤ index := Nat.div_mul_le_self ..
    have within := ends.within
    have shown := range.visible_of_blank positive (show index / kernel.pageSize * kernel.pageSize < len by omega)
      (ends.blank _ number) (Nat.mod_lt index positive)
    have place : mem + index / kernel.pageSize * kernel.pageSize + index % kernel.pageSize = mem + index := by
      rw [Nat.add_assoc, Nat.mul_comm, Nat.div_add_mod]
    rwa [place] at shown
  · intro less
    rcases ends.ended with whole | data | fails
    · rw [whole, Nat.div_mul_cancel range.whole] at less
      omega
    · unfold Scan.AtData BlankPage PageReadable at data
      rw [range.pageAddress_eq less] at data
      push Not at data
      obtain ⟨readable, index, inside, nonzero⟩ := data
      exact ⟨index, inside, readable index inside, nonzero⟩
    · exact absurd documented.reliable fails.unreliable

end Documented

end Corus.Memory
