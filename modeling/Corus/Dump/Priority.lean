import Corus.Dump.Serialize

/-!
# Priority limiting

`apply_priority_limit` takes the bytes that do not fit from the largest segments
first. A round that is not the last empties a segment, so at most one segment is
shrunk in part; together the segments keep exactly what the limit leaves beside
the estimated headers.
-/

namespace Corus.Dump

open Corus.Logical Corus.Platform Corus.Elf Corus.Proc

/-- The record with another write size. -/
def resized (mapping : Mapping) (size : UInt64) : Mapping := { mapping with writeSize := size }

/-! ## The largest segment -/

/-- The candidate found so far is a record in front of the index, and no record in
front of it is larger. -/
def Largest (mappings : List Mapping) (largest : Option (Nat × UInt64)) : Prop :=
  match largest with
  | none => mappings = []
  | some (index, size) => (∃ mapping, mappings[index]? = some mapping ∧ mapping.writeSize = size) ∧
      ∀ mapping ∈ mappings, mapping.writeSize ≤ size

theorem largestFrom_largest (before rest : List Mapping) (largest : Option (Nat × UInt64))
    (found : Largest before largest) :
    Largest (before ++ rest) (largestFrom before.length largest rest) := by
  induction rest generalizing before largest with
  | nil => simpa [largestFrom] using found
  | cons mapping rest ih =>
      have next : ∀ candidate, Largest (before ++ [mapping]) candidate →
          Largest (before ++ mapping :: rest) (largestFrom (before.length + 1) candidate rest) := by
        intro candidate isLargest
        have continued := ih (before ++ [mapping]) candidate isLargest
        rwa [List.length_append, List.length_singleton, List.append_assoc, List.singleton_append] at continued
      have last : (before ++ [mapping])[before.length]? = some mapping := by simp
      rcases largest with _ | ⟨index, size⟩
      · obtain rfl : before = [] := found
        exact next _ ⟨⟨mapping, rfl, rfl⟩, by simp⟩
      · obtain ⟨⟨source, listed, rfl⟩, bound⟩ := found
        simp only [largestFrom]
        by_cases larger : source.writeSize < mapping.writeSize
        · rw [if_pos (decide_eq_true larger)]
          refine next _ ⟨⟨mapping, last, rfl⟩, ?_⟩
          intro other member
          rcases List.mem_append.mp member with earlier | here
          · exact UInt64.le_of_lt (UInt64.lt_of_le_of_lt (bound other earlier) larger)
          · rw [List.mem_singleton.mp here]
            exact UInt64.le_refl _
        · rw [if_neg (by simpa using larger)]
          have inside := (List.getElem?_eq_some_iff.mp listed).1
          refine next _ ⟨⟨source, by rw [List.getElem?_append_left inside]; exact listed, rfl⟩, ?_⟩
          intro other member
          rcases List.mem_append.mp member with earlier | here
          · exact bound other earlier
          · rw [List.mem_singleton.mp here]
            exact UInt64.not_lt.mp larger

/-! ## One round -/

/-- The size of the largest segment after a round that is short of some bytes. -/
def shrunkSize (need : Nat) (size : UInt64) : UInt64 :=
  if need > size.toNat then 0 else size - UInt64.ofNat need

theorem shrunkSize_toNat (need : Nat) (size : UInt64) : (shrunkSize need size).toNat = size.toNat - need := by
  have bound := size.toNat_lt
  unfold shrunkSize
  split
  · rw [UInt64.toNat_zero]
    omega
  · have exact_ : (UInt64.ofNat need).toNat = need := by
      rw [UInt64.toNat_ofNat']
      omega
    rw [UInt64.toNat_sub_of_le _ _ (UInt64.le_iff_toNat_le.mpr (by omega)), exact_]

/-- What one pass of the loop does, however many are still allowed: it stops, with
everything fitting or nothing left to give, or it shrinks one of the largest segments. -/
theorem priorityLoop_succ (limit headerOverhead : Nat) (mappings : List Mapping) :
    ((∀ fuel, priorityLoop limit headerOverhead (fuel + 1) mappings = mappings) ∧
      (headerOverhead + (segmentSizes mappings).sum ≤ limit ∨ (segmentSizes mappings).sum = 0)) ∨
    ∃ index mapping, mappings[index]? = some mapping ∧ 0 < mapping.writeSize.toNat ∧
      (∀ other ∈ mappings, other.writeSize ≤ mapping.writeSize) ∧
      limit < headerOverhead + (segmentSizes mappings).sum ∧
      ∀ fuel, priorityLoop limit headerOverhead (fuel + 1) mappings =
        priorityLoop limit headerOverhead fuel (mappings.set index (resized mapping
          (shrunkSize (headerOverhead + (segmentSizes mappings).sum - limit) mapping.writeSize))) := by
  have largest := largestFrom_largest [] mappings none rfl
  rw [List.nil_append, List.length_nil] at largest
  simp only [priorityLoop]
  split
  · rename_i none
    rw [none] at largest
    rw [show mappings = [] from largest]
    exact .inl ⟨fun _ => rfl, .inr rfl⟩
  · rename_i index size found
    rw [found] at largest
    obtain ⟨⟨mapping, listed, rfl⟩, bound⟩ := largest
    split
    · rename_i goesOn
      refine .inr ⟨index, mapping, listed, UInt64.lt_iff_toNat_lt.mp goesOn.2, bound, goesOn.1, ?_⟩
      intro fuel
      rw [modify_eq_set_of_getElem? listed]
      rfl
    · rename_i stops
      refine .inl ⟨fun _ => rfl, ?_⟩
      by_cases fits : headerOverhead + (segmentSizes mappings).sum ≤ limit
      · exact .inl fits
      · right
        have empty : mapping.writeSize.toNat = 0 := by
          by_contra positive
          exact stops ⟨Nat.lt_of_not_le fits, UInt64.lt_iff_toNat_lt.mpr (Nat.pos_of_ne_zero positive)⟩
        apply List.sum_eq_zero
        intro size member
        obtain ⟨other, listedOther, rfl⟩ := List.mem_map.mp member
        have smaller := UInt64.le_iff_toNat_le.mp (bound other listedOther)
        omega

/-- The sizes after one segment was shrunk. -/
theorem segmentSizes_set (mappings : List Mapping) (index : Nat) (mapping : Mapping) :
    segmentSizes (mappings.set index mapping) = (segmentSizes mappings).set index mapping.writeSize.toNat := by
  simp [segmentSizes, List.map_set]

/-- Nothing changes once everything fits. -/
theorem priorityLoop_of_fits {limit headerOverhead : Nat} {mappings : List Mapping}
    (fits : headerOverhead + (segmentSizes mappings).sum ≤ limit) (fuel : Nat) :
    priorityLoop limit headerOverhead fuel mappings = mappings := by
  cases fuel with
  | zero => rfl
  | succ fuel =>
      rcases priorityLoop_succ limit headerOverhead mappings with ⟨stops, _⟩ | ⟨_, _, _, _, _, exceeds, _⟩
      · exact stops fuel
      · omega

/-! ## The whole loop -/

/-- One list of records comes from another by emptying records and shrinking the
one at an index. -/
structure Trims (mappings trimmed : List Mapping) (index : Nat) : Prop where
  length : trimmed.length = mappings.length
  record : ∀ position mapping, mappings[position]? = some mapping →
    ∃ size, trimmed[position]? = some (resized mapping size) ∧ size ≤ mapping.writeSize ∧
      (position ≠ index → size = mapping.writeSize ∨ size = 0)

theorem Trims.refl (mappings : List Mapping) (index : Nat) : Trims mappings mappings index where
  length := rfl
  record _ mapping listed := ⟨mapping.writeSize, listed, UInt64.le_refl _, fun _ => .inl rfl⟩

/-- Shrinking one record. -/
theorem Trims.set {mappings : List Mapping} {index : Nat} {mapping : Mapping}
    (listed : mappings[index]? = some mapping) {size : UInt64} (smaller : size ≤ mapping.writeSize) :
    Trims mappings (mappings.set index (resized mapping size)) index where
  length := List.length_set
  record position other found := by
    by_cases here : position = index
    · subst here
      cases found.symm.trans listed
      have inside := (List.getElem?_eq_some_iff.mp listed).1
      exact ⟨size, List.getElem?_set_self inside, smaller, fun away => absurd rfl away⟩
    · refine ⟨other.writeSize, ?_, UInt64.le_refl _, fun _ => .inl rfl⟩
      rw [List.getElem?_set_ne (Ne.symm here)]
      exact found

/-- Whatever does not depend on the write size is the same in both lists. -/
theorem Trims.map {mappings trimmed : List Mapping} {index : Nat} (trims : Trims mappings trimmed index)
    {Field : Type} {field : Mapping → Field} (blind : ∀ mapping size, field (resized mapping size) = field mapping) :
    trimmed.map field = mappings.map field := by
  apply List.ext_getElem?
  intro position
  rw [List.getElem?_map, List.getElem?_map]
  cases listed : mappings[position]? with
  | none =>
      have outside : trimmed[position]? = none := by
        rw [List.getElem?_eq_none_iff, trims.length]
        exact List.getElem?_eq_none_iff.mp listed
      rw [outside]
  | some mapping =>
      obtain ⟨size, shown, _⟩ := trims.record position mapping listed
      rw [shown, Option.map_some, Option.map_some, blind]

/-- Every trimmed record comes from a record. -/
theorem Trims.origin {mappings trimmed : List Mapping} {index : Nat} (trims : Trims mappings trimmed index)
    {record : Mapping} (member : record ∈ trimmed) :
    ∃ mapping ∈ mappings, ∃ size, record = resized mapping size ∧ size ≤ mapping.writeSize := by
  obtain ⟨position, inside, rfl⟩ := List.mem_iff_getElem.mp member
  have listed := List.getElem?_eq_getElem (trims.length ▸ inside)
  obtain ⟨size, shown, smaller, _⟩ := trims.record position _ listed
  rw [List.getElem?_eq_getElem inside, Option.some.injEq] at shown
  exact ⟨_, List.getElem_mem _, size, shown, smaller⟩

/-- Emptying one record before. -/
theorem Trims.emptied {mappings trimmed : List Mapping} {index last : Nat} {mapping : Mapping}
    (listed : mappings[index]? = some mapping)
    (trims : Trims (mappings.set index (resized mapping 0)) trimmed last) : Trims mappings trimmed last where
  length := trims.length.trans List.length_set
  record position other found := by
    by_cases here : position = index
    · subst here
      cases found.symm.trans listed
      have inside := (List.getElem?_eq_some_iff.mp listed).1
      obtain ⟨size, shown, smaller, _⟩ := trims.record position _ (List.getElem?_set_self inside)
      have empty : size = 0 := by
        apply UInt64.toNat_inj.mp
        exact Nat.le_zero.mp (UInt64.le_iff_toNat_le.mp smaller)
      subst empty
      exact ⟨0, shown, UInt64.le_iff_toNat_le.mpr (Nat.zero_le _), fun _ => .inr rfl⟩
    · exact trims.record position other (by rw [List.getElem?_set_ne (Ne.symm here)]; exact found)

/-- The rounds of the loop: it stops with everything fitting or nothing left to give,
one of the largest segments makes up for what is missing, or it is emptied and the
next round follows. -/
inductive Trimming (limit headerOverhead : Nat) : List Mapping → List Mapping → Prop where
  | stop {mappings : List Mapping}
      (reason : headerOverhead + (segmentSizes mappings).sum ≤ limit ∨ (segmentSizes mappings).sum = 0) :
      Trimming limit headerOverhead mappings mappings
  | last {mappings : List Mapping} {index : Nat} {mapping : Mapping} {size : UInt64}
      (listed : mappings[index]? = some mapping)
      (largest : ∀ other ∈ mappings, other.writeSize ≤ mapping.writeSize)
      (smaller : size ≤ mapping.writeSize)
      (exceeds : limit < headerOverhead + (segmentSizes mappings).sum)
      (fills : headerOverhead + (segmentSizes (mappings.set index (resized mapping size))).sum = limit) :
      Trimming limit headerOverhead mappings (mappings.set index (resized mapping size))
  | empty {mappings trimmed : List Mapping} {index : Nat} {mapping : Mapping}
      (listed : mappings[index]? = some mapping) (positive : 0 < mapping.writeSize.toNat)
      (largest : ∀ other ∈ mappings, other.writeSize ≤ mapping.writeSize)
      (short : limit + mapping.writeSize.toNat < headerOverhead + (segmentSizes mappings).sum)
      (rest : Trimming limit headerOverhead (mappings.set index (resized mapping 0)) trimmed) :
      Trimming limit headerOverhead mappings trimmed

/-- With more rounds than there are segments to empty the loop comes to its end, and
further rounds do not change what it leaves. -/
theorem priorityLoop_trimming (limit headerOverhead fuel : Nat) (mappings : List Mapping)
    (enough : (segmentSizes mappings).countP (0 < ·) < fuel) :
    Trimming limit headerOverhead mappings (priorityLoop limit headerOverhead fuel mappings) ∧
      ∀ more, fuel ≤ more →
        priorityLoop limit headerOverhead more mappings = priorityLoop limit headerOverhead fuel mappings := by
  induction fuel generalizing mappings with
  | zero => omega
  | succ fuel ih =>
      have stepped : ∀ more, fuel + 1 ≤ more → ∃ less, more = less + 1 ∧ fuel ≤ less := by
        intro more many
        exact ⟨more - 1, by omega, by omega⟩
      rcases priorityLoop_succ limit headerOverhead mappings with
        ⟨stops, reason⟩ | ⟨index, mapping, listed, positive, largest, exceeds, continues⟩
      · refine ⟨by rw [stops]; exact .stop reason, ?_⟩
        intro more many
        obtain ⟨less, rfl, _⟩ := stepped more many
        rw [stops, stops]
      · have here : (segmentSizes mappings)[index]? = some mapping.writeSize.toNat := by
          simp [segmentSizes, listed]
        have size := shrunkSize_toNat (headerOverhead + (segmentSizes mappings).sum - limit) mapping.writeSize
        have total := sum_set here (shrunkSize (headerOverhead + (segmentSizes mappings).sum - limit)
          mapping.writeSize).toNat
        have sizes := segmentSizes_set mappings index (resized mapping
          (shrunkSize (headerOverhead + (segmentSizes mappings).sum - limit) mapping.writeSize))
        have smaller : shrunkSize (headerOverhead + (segmentSizes mappings).sum - limit) mapping.writeSize ≤
            mapping.writeSize := by
          rw [UInt64.le_iff_toNat_le, size]
          exact Nat.sub_le _ _
        generalize shrunkSize (headerOverhead + (segmentSizes mappings).sum - limit) mapping.writeSize =
          left at *
        by_cases emptied : mapping.writeSize.toNat < headerOverhead + (segmentSizes mappings).sum - limit
        · -- The segment does not make up for what is missing, so it is emptied.
          have empty : left = 0 := UInt64.toNat_inj.mp (by rw [size, UInt64.toNat_zero]; omega)
          subst empty
          have fewer := countP_set_zero here positive
          obtain ⟨trimming, stable⟩ := ih (mappings.set index (resized mapping 0))
            (by rw [sizes]; simp only [resized, UInt64.toNat_zero]; omega)
          rw [continues]
          refine ⟨.empty listed positive largest (by omega) trimming, ?_⟩
          intro more many
          obtain ⟨less, rfl, few⟩ := stepped more many
          rw [continues, stable less few]
        · -- Now everything fits, and the next round is the last.
          have fills : headerOverhead + (segmentSizes (mappings.set index (resized mapping left))).sum = limit := by
            rw [sizes]
            simp only [resized]
            omega
          have done := priorityLoop_of_fits (Nat.le_of_eq fills)
          rw [continues, done]
          refine ⟨.last listed largest smaller exceeds fills, ?_⟩
          intro more many
          obtain ⟨less, rfl, _⟩ := stepped more many
          rw [continues, done]

namespace Trimming

variable {limit headerOverhead : Nat} {mappings trimmed : List Mapping}

/-- The segments keep what the limit leaves for them. -/
theorem sum (trimming : Trimming limit headerOverhead mappings trimmed) :
    (segmentSizes trimmed).sum = min (segmentSizes mappings).sum (limit - headerOverhead) := by
  induction trimming with
  | stop reason => omega
  | last listed largest smaller exceeds fills => omega
  | @empty mappings trimmed index mapping listed positive largest short rest ih =>
      have here : (segmentSizes mappings)[index]? = some mapping.writeSize.toNat := by
        simp [segmentSizes, listed]
      have total := sum_set here 0
      rw [ih, segmentSizes_set]
      simp only [resized, UInt64.toNat_zero]
      omega

/-- At most one segment is shrunk in part. -/
theorem trims (trimming : Trimming limit headerOverhead mappings trimmed) :
    ∃ index, Trims mappings trimmed index := by
  induction trimming with
  | stop => exact ⟨0, Trims.refl _ 0⟩
  | last listed _ smaller => exact ⟨_, Trims.set listed smaller⟩
  | empty listed _ _ _ _ ih =>
      obtain ⟨last, trims⟩ := ih
      exact ⟨last, trims.emptied listed⟩

end Trimming

/-- `apply_priority_limit` comes to its end in the rounds that it has. -/
theorem applyPriorityLimit_trimming (mappings : List Mapping) (limit headerOverhead : Nat) :
    Trimming limit headerOverhead mappings (applyPriorityLimit mappings limit headerOverhead) ∧
      ∀ fuel, mappings.length + 1 ≤ fuel →
        priorityLoop limit headerOverhead fuel mappings = applyPriorityLimit mappings limit headerOverhead := by
  apply priorityLoop_trimming
  have count := @List.countP_le_length _ (fun size => decide (0 < size)) (segmentSizes mappings)
  rw [segmentSizes, List.length_map] at count
  exact Nat.lt_succ_of_le count

/-- `apply_priority_limit` as a whole. -/
theorem applyPriorityLimit_trims (mappings : List Mapping) (limit headerOverhead : Nat) :
    (segmentSizes (applyPriorityLimit mappings limit headerOverhead)).sum =
        min (segmentSizes mappings).sum (limit - headerOverhead) ∧
      ∃ index, Trims mappings (applyPriorityLimit mappings limit headerOverhead) index := by
  have trimming := (applyPriorityLimit_trimming mappings limit headerOverhead).1
  exact ⟨trimming.sum, trimming.trims⟩

/-! ## The headers beside the segments -/

section Headers

variable {arch : Arch} (cap : CapturedDump arch) (opts : DumpOptions arch) (mappings : List Mapping)

/-- Priority limiting is trimming, whatever the options. -/
theorem prioritized_trims : ∃ index, Trims mappings (prioritized cap opts mappings) index := by
  unfold prioritized
  split
  · exact (applyPriorityLimit_trims ..).2
  · exact ⟨0, Trims.refl mappings 0⟩

theorem ntFileSizes_resized (size : UInt64) :
    ntFileSizes (mappings.map fun mapping => resized mapping size) = ntFileSizes mappings := by
  simp only [ntFileSizes, List.foldl_map]
  rfl

/-- The headers of a core do not depend on the write sizes. -/
theorem segmentsStart_prioritized :
    (coreInputs cap opts (prioritized cap opts mappings)).segmentsStart = (coreInputs cap opts mappings).segmentsStart ∧
      (coreInputs cap opts (prioritized cap opts mappings)).noteAlign = (coreInputs cap opts mappings).noteAlign := by
  obtain ⟨index, trims⟩ := prioritized_trims cap opts mappings
  have files : ntFileSizes (prioritized cap opts mappings) = ntFileSizes mappings := by
    have same : ((prioritized cap opts mappings).map fun mapping => resized mapping 0) =
        mappings.map fun mapping => resized mapping 0 := trims.map fun _ _ => rfl
    rw [← ntFileSizes_resized mappings 0, ← same, ntFileSizes_resized]
  have notes : (coreInputs cap opts (prioritized cap opts mappings)).noteSectionSize =
      (coreInputs cap opts mappings).noteSectionSize := by
    unfold CoreInputs.noteSectionSize noteSectionSizeFor coreInputs
    rw [files]
  have table : (coreInputs cap opts (prioritized cap opts mappings)).phdrsEnd =
      (coreInputs cap opts mappings).phdrsEnd := by
    simp only [CoreInputs.phdrsEnd, coreInputs, trims.length]
  have padding : (coreInputs cap opts (prioritized cap opts mappings)).noteAlign =
      (coreInputs cap opts mappings).noteAlign := by
    simp only [CoreInputs.noteAlign, notes, table]
    rfl
  exact ⟨by simp only [CoreInputs.segmentsStart, notes, table, padding], padding⟩

/-- The estimate leaves out the padding and nothing else. -/
theorem estimateHeaderSize_eq :
    estimateHeaderSize arch cap.threads.length cap.auxv.length mappings opts.notes +
        (coreInputs cap opts mappings).noteAlign = (coreInputs cap opts mappings).segmentsStart := by
  have user : cap.user.isSome = decide (0 < cap.threads.length) := by
    unfold CapturedDump.user
    split
    · rename_i some
      exact (decide_eq_true some).symm
    · rename_i none
      exact (decide_eq_false none).symm
  simp only [estimateHeaderSize, CoreInputs.segmentsStart, CoreInputs.phdrsEnd, CoreInputs.noteSectionSize,
    coreInputs, user]

/-- What is written with priorities: the headers, and of the segments what the
limit leaves beside the estimate. -/
theorem fileSize_prioritized {limit : Nat} (priorities : opts.prioritize = true)
    (limited : opts.maxLength = some limit) :
    (coreInputs cap opts (prioritized cap opts mappings)).fileSize =
      (coreInputs cap opts mappings).segmentsStart + min (segmentSizes mappings).sum
        (limit - ((coreInputs cap opts mappings).segmentsStart - (coreInputs cap opts mappings).noteAlign)) := by
  have sum := (applyPriorityLimit_trims mappings limit
    (estimateHeaderSize arch cap.threads.length cap.auxv.length mappings opts.notes)).1
  have shrinks : prioritized cap opts mappings = applyPriorityLimit mappings limit
      (estimateHeaderSize arch cap.threads.length cap.auxv.length mappings opts.notes) := by
    simp only [prioritized, priorities, limited]
  have estimate := estimateHeaderSize_eq cap opts mappings
  rw [CoreInputs.fileSize, (segmentsStart_prioritized cap opts mappings).1,
    show (coreInputs cap opts (prioritized cap opts mappings)).mappings = prioritized cap opts mappings from rfl,
    shrinks, sum]
  congr 3
  omega

end Headers

end Corus.Dump
