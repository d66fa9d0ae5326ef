import Corus.Dump.Priority

/-!
# Largest segments first

What `apply_priority_limit` promises to the smaller segments: a segment gives up
bytes only if no segment that kept all of its bytes was larger. Sizes and totals are
natural numbers here, which is what the loop computes as long as its total does not
overflow.
-/

namespace Corus.Dump

open Corus.Logical Corus.Platform Corus.Elf Corus.Proc

/-- The record at a position ends with fewer bytes than it had. -/
def Reduced (mappings trimmed : List Mapping) (position : Nat) : Prop :=
  ∃ mapping record, mappings[position]? = some mapping ∧ trimmed[position]? = some record ∧
    record.writeSize < mapping.writeSize

/-- The record at a position keeps all its bytes. -/
def Unreduced (mappings trimmed : List Mapping) (position : Nat) : Prop :=
  ∃ mapping record, mappings[position]? = some mapping ∧ trimmed[position]? = some record ∧
    record.writeSize = mapping.writeSize

/-- The record at a position keeps some of its bytes, but not all. -/
def Cut (mappings trimmed : List Mapping) (position : Nat) : Prop :=
  ∃ mapping record, mappings[position]? = some mapping ∧ trimmed[position]? = some record ∧
    0 < record.writeSize ∧ record.writeSize < mapping.writeSize

/-- Every reduced record was at least as large as every unreduced one. -/
def LargestFirst (mappings trimmed : List Mapping) : Prop :=
  ∀ reduced unreduced large small, Reduced mappings trimmed reduced → Unreduced mappings trimmed unreduced →
    mappings[reduced]? = some large → mappings[unreduced]? = some small → small.writeSize ≤ large.writeSize

/-- Only the record at the index of a trimming can be cut. -/
theorem Trims.cut {mappings trimmed : List Mapping} {index position : Nat} (trims : Trims mappings trimmed index)
    (cut : Cut mappings trimmed position) : position = index := by
  obtain ⟨mapping, record, listed, shown, some, less⟩ := cut
  obtain ⟨size, found, _, elsewhere⟩ := trims.record position mapping listed
  cases shown.symm.trans found
  by_contra away
  rcases elsewhere away with whole | none
  · rw [show (resized mapping size).writeSize = size from rfl, whole] at less
    exact UInt64.lt_irrefl _ less
  · rw [show (resized mapping size).writeSize = size from rfl, none] at some
    exact UInt64.lt_irrefl _ some

theorem Trimming.largestFirst {limit headerOverhead : Nat} {mappings trimmed : List Mapping}
    (trimming : Trimming limit headerOverhead mappings trimmed) : LargestFirst mappings trimmed := by
  induction trimming with
  | stop =>
      rintro reduced unreduced large small ⟨mapping, record, listed, shown, less⟩ _ _ _
      cases listed.symm.trans shown
      exact absurd less (UInt64.lt_irrefl _)
  | @last mappings index mapping size listed largest smaller exceeds fills =>
      rintro reduced unreduced large small ⟨source, record, found, shown, less⟩ _ here there
      by_cases same : reduced = index
      · subst same
        cases here.symm.trans listed
        exact largest small (List.mem_of_getElem? there)
      · rw [List.getElem?_set_ne (Ne.symm same), found] at shown
        cases shown
        exact absurd less (UInt64.lt_irrefl _)
  | @empty mappings trimmed index mapping listed positive largest short rest ih =>
      intro reduced unreduced large small less kept here there
      by_cases same : reduced = index
      · subst same
        cases here.symm.trans listed
        exact largest small (List.mem_of_getElem? there)
      -- A record that was just emptied is not among the unreduced ones.
      have elsewhere : unreduced ≠ index := by
        intro emptied
        subst emptied
        obtain ⟨source, record, found, shown, whole⟩ := kept
        cases found.symm.trans listed
        obtain ⟨last, trims⟩ := rest.trims
        have inside := (List.getElem?_eq_some_iff.mp listed).1
        obtain ⟨size, stored, bound, _⟩ := trims.record unreduced _ (List.getElem?_set_self inside)
        cases shown.symm.trans stored
        have none := UInt64.le_iff_toNat_le.mp bound
        rw [show (resized (resized mapping 0) size).writeSize = size from rfl] at whole
        rw [show (resized mapping 0).writeSize = 0 from rfl, whole, UInt64.toNat_zero] at none
        omega
      have unchanged : ∀ position, position ≠ index →
          (mappings.set index (resized mapping 0))[position]? = mappings[position]? := by
        intro position away
        exact List.getElem?_set_ne (Ne.symm away)
      apply ih reduced unreduced large small
      · simpa only [Reduced, unchanged reduced same] using less
      · simpa only [Unreduced, unchanged unreduced elsewhere] using kept
      · rw [unchanged reduced same]
        exact here
      · rw [unchanged unreduced elsewhere]
        exact there

/-- Largest-first trimming. `apply_priority_limit` ends, and whatever the sizes, the
limit and the headers, it changes nothing but write sizes and only lowers these. If
everything fits nothing changes; else headers and segments together take exactly the
limit, or no segment keeps a byte if the headers alone exceed it. At most one segment
is cut, and no segment gives up bytes while a larger one keeps all of its own. -/
theorem applyPriorityLimit_largestFirst (mappings : List Mapping) (limit headerOverhead : Nat) :
    (∀ fuel, mappings.length + 1 ≤ fuel →
      priorityLoop limit headerOverhead fuel mappings = applyPriorityLimit mappings limit headerOverhead) ∧
    (applyPriorityLimit mappings limit headerOverhead).length = mappings.length ∧
    (∀ (position : Nat) (mapping : Mapping), mappings[position]? = some mapping → ∃ size ≤ mapping.writeSize,
      (applyPriorityLimit mappings limit headerOverhead)[position]? = some { mapping with writeSize := size }) ∧
    (headerOverhead + (segmentSizes mappings).sum ≤ limit →
      applyPriorityLimit mappings limit headerOverhead = mappings) ∧
    (limit < headerOverhead + (segmentSizes mappings).sum →
      (headerOverhead ≤ limit →
        headerOverhead + (segmentSizes (applyPriorityLimit mappings limit headerOverhead)).sum = limit) ∧
      (limit < headerOverhead →
        ∀ record ∈ applyPriorityLimit mappings limit headerOverhead, record.writeSize = 0)) ∧
    (∀ first second, Cut mappings (applyPriorityLimit mappings limit headerOverhead) first →
      Cut mappings (applyPriorityLimit mappings limit headerOverhead) second → first = second) ∧
    LargestFirst mappings (applyPriorityLimit mappings limit headerOverhead) := by
  obtain ⟨trimming, ends⟩ := applyPriorityLimit_trimming mappings limit headerOverhead
  obtain ⟨index, trims⟩ := trimming.trims
  have sum := trimming.sum
  refine ⟨ends, trims.length, ?_, fun fits => priorityLoop_of_fits fits _, ?_, ?_, trimming.largestFirst⟩
  · intro position mapping listed
    obtain ⟨size, shown, smaller, _⟩ := trims.record position mapping listed
    exact ⟨size, smaller, shown⟩
  · intro exceeds
    refine ⟨fun room => by omega, ?_⟩
    intro full record member
    have none : (segmentSizes (applyPriorityLimit mappings limit headerOverhead)).sum = 0 := by omega
    have empty := List.sum_eq_zero_iff.mp none record.writeSize.toNat
      (List.mem_map.mpr ⟨record, member, rfl⟩)
    exact UInt64.toNat_inj.mp empty
  · intro first second cutFirst cutSecond
    rw [trims.cut cutFirst, trims.cut cutSecond]

end Corus.Dump
