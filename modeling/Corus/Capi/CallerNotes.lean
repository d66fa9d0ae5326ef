import Corus.Capi.Parameters

/-!
# Notes of the caller

`SetCoreDumpNotes` takes an array of notes of any length. The conversion for the engine
looks at the first `MAX_EXTRA_NOTES` entries only; what it hands over is in the note
section of the core.
-/

namespace Corus.Capi

open Corus.Logical Corus.Platform Corus.Output Corus.Elf Corus.Proc Corus.Dump

/-- The entries with a name among the first `noteCount` of an array. -/
def namedNotes (notes : Option (List CoredumperNote)) (noteCount : Int32) : List ExtraNote :=
  ((notes.getD []).take noteCount.toInt.toNat).filterMap CoredumperNote.extra

/-- An array whose entries behind the buffer have no name. -/
def FitsBuffer (notes : Option (List CoredumperNote)) (noteCount : Int32) : Prop :=
  ∀ index note, maxExtraNotes ≤ index → index < noteCount.toInt.toNat → (notes.getD [])[index]? = some note →
    note.name = none

/-- The conversion hands over the named entries of the first part of the array. -/
theorem extraNotes_setCoreDumpNotes (base : CoreDumpParameters) (notes : Option (List CoredumperNote))
    (noteCount : Int32) : (setCoreDumpNotes base notes noteCount).params.extraNotes =
      (((notes.getD []).take noteCount.toInt.toNat).take maxExtraNotes).filterMap CoredumperNote.extra := by
  cases notes with
  | none => simp [setCoreDumpNotes, CoreDumpParameters.extraNotes]
  | some notes =>
      have converted : (setCoreDumpNotes base (some notes) noteCount).params.extraNotes =
          if 0 < noteCount then
            (notes.take (min noteCount.toInt.toNat maxExtraNotes)).filterMap CoredumperNote.extra
          else [] := rfl
      rw [converted, Option.getD_some, List.take_take]
      by_cases positive : 0 < noteCount
      · rw [if_pos positive, Nat.min_comm]
      · have zero : noteCount.toInt.toNat = 0 := by
          have none : ¬ (0 : Int32).toInt < noteCount.toInt := fun less => positive (Int32.lt_iff_toInt_lt.mpr less)
          rw [Int32.toInt_zero] at none
          omega
        rw [if_neg positive, zero, Nat.min_zero, List.take_zero, List.filterMap_nil]

/-- Nothing is left out exactly if there is no name behind the buffer. -/
theorem extraNotes_eq_namedNotes_iff (base : CoreDumpParameters) (notes : Option (List CoredumperNote))
    (noteCount : Int32) :
    (setCoreDumpNotes base notes noteCount).params.extraNotes = namedNotes notes noteCount ↔
      FitsBuffer notes noteCount := by
  have split : namedNotes notes noteCount =
      (((notes.getD []).take noteCount.toInt.toNat).take maxExtraNotes).filterMap CoredumperNote.extra ++
        (((notes.getD []).take noteCount.toInt.toNat).drop maxExtraNotes).filterMap CoredumperNote.extra := by
    rw [namedNotes, ← List.filterMap_append, List.take_append_drop]
  rw [extraNotes_setCoreDumpNotes, split, List.self_eq_append_right, List.filterMap_eq_nil_iff]
  constructor
  · intro unnamed index note behind inside listed
    have member : note ∈ ((notes.getD []).take noteCount.toInt.toNat).drop maxExtraNotes := by
      refine List.mem_of_getElem? (i := index - maxExtraNotes) ?_
      rw [List.getElem?_drop, Nat.add_sub_cancel' behind, List.getElem?_take_of_lt inside]
      exact listed
    simpa [CoredumperNote.extra] using unnamed note member
  · intro fits note member
    obtain ⟨offset, listed⟩ := List.getElem?_of_mem member
    rw [List.getElem?_drop] at listed
    have inside : maxExtraNotes + offset < noteCount.toInt.toNat := by
      have within := (List.getElem?_eq_some_iff.mp listed).1
      rw [List.length_take] at within
      omega
    rw [List.getElem?_take_of_lt inside] at listed
    simp [CoredumperNote.extra, fits _ note (Nat.le_add_right ..) inside listed]

/-- The notes reach the engine, and from there the core: a reader of a complete core
finds them, one after the other, in its note section. -/
structure Carried (block : CoreDumpParameters) (wanted : List ExtraNote) : Prop where
  handed : ∀ {arch : Arch} (frame : Int32 × Regs arch), (lowerParams (some block) frame).notes = wanted
  written : ∀ {arch : Arch} (frame : Int32 × Regs arch) (cap : CapturedDump arch) (mappings : List Mapping)
    (kernel : Kernel) {Sink : Type} [Writer Sink] (total : AcceptsEveryByte Sink) (machine final : Machine Sink),
    (coreInputs cap (lowerParams (some block) frame) mappings).Sized →
    (coreInputs cap (lowerParams (some block) frame) mappings).Representable →
    total.accepting machine.sink →
    createElfCore kernel (coreInputs cap (lowerParams (some block) frame) mappings) machine = (.ok (), final) →
    ∃ file core phdr before behind, total.emitted final.sink = total.emitted machine.sink ++ file ∧
      decodeCore file = some core ∧ core.phdrs[0]? = some phdr ∧ phdr.pType = ptNote ∧
      decodeNotes (phdr.contents file) = some (before ++ wanted.map ExtraNote.note ++ behind)

/-- The notes that a complete core was given are in its note section. -/
theorem extraNotes_written {arch : Arch} {inputs : CoreInputs arch} {kernel : Kernel} {Sink : Type} [Writer Sink]
    {total : AcceptsEveryByte Sink} {machine final : Machine Sink} (sized : inputs.Sized)
    (representable : inputs.Representable) (accepting : total.accepting machine.sink)
    (ran : createElfCore kernel inputs machine = (.ok (), final)) :
    ∃ file core phdr before behind, total.emitted final.sink = total.emitted machine.sink ++ file ∧
      decodeCore file = some core ∧ core.phdrs[0]? = some phdr ∧ phdr.pType = ptNote ∧
      decodeNotes (phdr.contents file) = some (before ++ inputs.notes.map ExtraNote.note ++ behind) := by
  obtain ⟨_, _, _, wrote, _⟩ := createElfCore_wrote total sized.nameLen accepting ran
  obtain ⟨before, listed⟩ : ∃ before, inputs.noteList = before ++ inputs.notes.map ExtraNote.note ++ inputs.fileNotes :=
    ⟨_, rfl⟩
  refine ⟨_, _, inputs.notePhdr, before, inputs.fileNotes, wrote.emitted,
    inputs.decodeCore_headerBytes sized.count _, rfl, rfl, ?_⟩
  rw [CoreInputs.contents_notePhdr sized, ← listed]
  exact decodeNotes_flatMap representable.notes

/-- Every named note of the caller is carried exactly if none stands behind the first
`MAX_EXTRA_NOTES` entries. -/
theorem notes_carried_iff (base : CoreDumpParameters) (notes : Option (List CoredumperNote)) (noteCount : Int32) :
    Carried (setCoreDumpNotes base notes noteCount).params (namedNotes notes noteCount) ↔
      FitsBuffer notes noteCount := by
  rw [← extraNotes_eq_namedNotes_iff base]
  constructor
  · intro carried
    exact @Carried.handed _ _ carried .x86_64 (0, Regs.zeroed)
  · intro handed
    refine ⟨fun frame => handed, ?_⟩
    intro arch frame cap mappings kernel Sink _ total machine final sized representable accepting ran
    rw [← handed]
    exact extraNotes_written sized representable accepting ran

/-- One note more than the buffer holds. -/
def manyNotes : List CoredumperNote := (List.range 65).map fun index => ⟨some [0x61], UInt32.ofNat index, 0, none⟩

/-- The last of 65 notes is dropped, and nothing says so. -/
theorem notes_dropped :
    (setCoreDumpNotes clearCoreDumpParameters (some manyNotes) 65).rc = 0 ∧
      (namedNotes (some manyNotes) 65).length = 65 ∧
      (setCoreDumpNotes clearCoreDumpParameters (some manyNotes) 65).params.extraNotes.length = 64 ∧
      ¬ Carried (setCoreDumpNotes clearCoreDumpParameters (some manyNotes) 65).params (namedNotes (some manyNotes) 65) := by
  have wanted : (namedNotes (some manyNotes) 65).length = 65 := by decide +kernel
  have handed : (setCoreDumpNotes clearCoreDumpParameters (some manyNotes) 65).params.extraNotes.length = 64 := by
    decide +kernel
  refine ⟨rfl, wanted, handed, ?_⟩
  intro carried
  have same : (setCoreDumpNotes clearCoreDumpParameters (some manyNotes) 65).params.extraNotes =
      namedNotes (some manyNotes) 65 := @Carried.handed _ _ carried .x86_64 (0, Regs.zeroed)
  rw [same, wanted] at handed
  cases handed

end Corus.Capi
