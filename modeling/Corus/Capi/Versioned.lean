import Corus.Capi.EntryPoints

/-!
# Versioned parameter blocks

`CoreDumpParameters` as the bytes that a pointer leads to. Its first field is the size
that the caller was compiled with; this module says what the entry points make of a
block that is shorter than the structure they were compiled with.
-/

namespace Corus.Capi

open Corus.Logical Corus.Platform Corus.Elf Corus.Dump

/-- The memory from a pointer on. -/
abbrev Block := Nat → Byte

/-- The fields of `CoreDumpParameters`. -/
inductive Field where
  | size
  | flags
  | maxLength
  | compressors
  | selectedCompressor
  | notes
  | noteCount
  | callbackFn
  | callbackArg
deriving DecidableEq, Repr

namespace Field

/-- `offset_of!`. -/
def offset : Field → Nat
  | size => 0
  | flags => 8
  | maxLength => 16
  | compressors => 24
  | selectedCompressor => 32
  | notes => 40
  | noteCount => 48
  | callbackFn => 56
  | callbackArg => 64

/-- The size of a field: two of them are `int`s. -/
def width : Field → Nat
  | flags => 4
  | noteCount => 4
  | _ => 8

/-- All fields lie in the structure. -/
theorem inside (field : Field) : field.offset + field.width ≤ coreDumpParametersSize.toNat := by
  cases field <;> decide

end Field

/-- The bytes of a block at an offset. -/
def Block.bytes (block : Block) (offset count : Nat) : Bytes :=
  (List.range count).map fun index => block (offset + index)

/-- The little-endian word of a field. -/
def Block.word (block : Block) (field : Field) : Nat := leValue (block.bytes field.offset field.width)

/-- The word of a field that lies wholly within a size, zero for an absent one: the
`GetCoreDumpParameter` of the header. -/
def Block.versionedWord (block : Block) (size : Nat) (field : Field) : Nat :=
  if field.offset + field.width ≤ size then block.word field else 0

/-- What the pointers of a block lead to. -/
structure Pointees where
  compressors : Nat → List CoredumperCompressor
  notes : Nat → List CoredumperNote

/-- A pointer, unless it is null. -/
def pointer (word : Nat) : Option Nat := if word = 0 then none else some word

/-- `*params`, from the words of its fields. -/
def parametersOf (pointees : Pointees) (words : Field → Nat) : CoreDumpParameters where
  size := UInt64.ofNat (words .size)
  flags := (UInt32.ofNat (words .flags)).toInt32
  maxLength := UInt64.ofNat (words .maxLength)
  compressors := (pointer (words .compressors)).map pointees.compressors
  selectedCompressor := (pointer (words .selectedCompressor)).isSome
  notes := (pointer (words .notes)).map pointees.notes
  noteCount := (UInt32.ofNat (words .noteCount)).toInt32
  callbackFn := (pointer (words .callbackFn)).isSome

/-- What a block makes the library do: the options of the engine, the table of compressors
and the place for the selected one, the callback with its argument, and the outcomes of
`WriteCoreDumpWith` and `GetCoreDumpWith`. -/
structure Behaviour (arch : Arch) where
  options : DumpOptions arch
  compressors : Option (Nat × Option Nat)
  callback : Option (Nat × Nat)
  written : Option Outcome
  handedOut : Option Outcome

section Versions

variable {arch : Arch} (env : Environment arch) (pointees : Pointees) (fileName : Option Bytes)

def behaviour (words : Field → Nat) : Behaviour arch where
  options := lowerParams (some (parametersOf pointees words)) env.frame
  compressors := (pointer (words .compressors)).map fun table => (table, pointer (words .selectedCompressor))
  callback := (pointer (words .callbackFn)).map fun func => (func, words .callbackArg)
  written := env.writeCoreDumpWith (some (parametersOf pointees words)) fileName
  handedOut := env.getCoreDumpWith (some (parametersOf pointees words))

end Versions

/-- A store of eight bytes. -/
def Block.store (block : Block) (offset : Nat) (value : UInt64) : Block := fun index =>
  if offset ≤ index ∧ index < offset + 8 then ((u64Bytes value)[index - offset]?).getD 0 else block index

/-- `ClearCoreDumpParametersInternal` on the memory of the caller. -/
def Block.clear (block : Block) (size : UInt64) : Block :=
  let zeroed : Block := fun index => if index < size.toNat then 0 else block index
  (zeroed.store Field.size.offset size).store Field.maxLength.offset usizeMax

/-! ## Words of a block -/

/-- A word is made of the bytes of its field. -/
theorem Block.word_congr {first second : Block} {field : Field}
    (same : ∀ index < coreDumpParametersSize.toNat, first index = second index) :
    first.word field = second.word field := by
  have inside := field.inside
  unfold word bytes
  congr 1
  refine List.map_congr_left ?_
  intro index member
  rw [List.mem_range] at member
  exact same _ (by omega)

/-- With the whole structure in the block no field is absent. -/
theorem Block.versionedWord_eq (block : Block) {size : Nat} (whole : coreDumpParametersSize.toNat ≤ size)
    (field : Field) : block.versionedWord size field = block.word field := by
  have inside := field.inside
  exact if_pos (by omega)

/-- Only the first bytes of the structure are written, if there are as many. -/
theorem Block.clear_beyond (block : Block) {size : UInt64} (whole : 24 ≤ size.toNat) {index : Nat}
    (beyond : size.toNat ≤ index) : block.clear size index = block index := by
  have afterMax : ¬ (16 ≤ index ∧ index < 16 + 8) := by omega
  have afterSize : ¬ (0 ≤ index ∧ index < 0 + 8) := by omega
  simp only [clear, store, Field.offset, afterMax, afterSize, if_false, Nat.not_lt.mpr beyond]

/-- A store of a field gives its word. -/
theorem Block.bytes_store (block : Block) (offset : Nat) (value : UInt64) :
    (block.store offset value).bytes offset 8 = u64Bytes value := by
  have length : (u64Bytes value).length = 8 := length_leBytes ..
  apply List.ext_getElem
  · simp [bytes, length]
  · intro index inside _
    have small : index < 8 := by simpa [bytes] using inside
    have within : offset ≤ offset + index ∧ offset + index < offset + 8 := by omega
    simp only [bytes, List.getElem_map, List.getElem_range, store]
    rw [if_pos within, Nat.add_sub_cancel_left, List.getElem?_eq_getElem (by omega), Option.getD_some]

theorem leValue_u64Bytes (value : UInt64) : leValue (u64Bytes value) = value.toNat := by
  rw [u64Bytes, leValue_leBytes]
  exact Nat.mod_eq_of_lt value.toNat_lt

theorem leValue_replicate (count : Nat) : leValue (List.replicate count 0) = 0 := by
  induction count with
  | zero => rfl
  | succ count ih => simp [List.replicate_succ, leValue, ih]

/-- A store leaves what does not overlap it. -/
theorem Block.bytes_store_of_apart (block : Block) {offset start count : Nat} (value : UInt64)
    (apart : start + count ≤ offset ∨ offset + 8 ≤ start) :
    (block.store offset value).bytes start count = block.bytes start count := by
  refine List.map_congr_left ?_
  intro index member
  rw [List.mem_range] at member
  exact if_neg (by omega)

/-- A field that no store reaches is cleared to zero. -/
theorem Block.word_clear (block : Block) {size : UInt64} (whole : coreDumpParametersSize.toNat ≤ size.toNat)
    {field : Field} (notSize : field ≠ .size) (notMax : field ≠ .maxLength) : (block.clear size).word field = 0 := by
  have inside := field.inside
  have apart : Field.size.offset + 8 ≤ field.offset ∧
      (field.offset + field.width ≤ Field.maxLength.offset ∨ Field.maxLength.offset + 8 ≤ field.offset) := by
    revert notSize notMax
    cases field <;> decide
  unfold word clear
  rw [bytes_store_of_apart _ _ apart.2, bytes_store_of_apart _ _ (Or.inr apart.1)]
  refine (congrArg leValue ?_).trans (leValue_replicate field.width)
  refine List.eq_replicate_iff.mpr ⟨by simp [bytes], ?_⟩
  intro byte member
  obtain ⟨index, listed, rfl⟩ := List.mem_map.mp member
  rw [List.mem_range] at listed
  exact if_pos (by omega)

/-- Clearing a whole block gives the cleared parameters. -/
theorem parametersOf_clear (pointees : Pointees) (block : Block) {size : UInt64}
    (whole : coreDumpParametersSize.toNat ≤ size.toNat) :
    parametersOf pointees (block.clear size).word = clearCoreDumpParametersInternal size := by
  have others := fun field => @Block.word_clear block size whole field
  have sized : (block.clear size).word .size = size.toNat := by
    unfold Block.word Block.clear
    rw [Block.bytes_store_of_apart _ _ (Or.inl (by decide))]
    exact (congrArg leValue (Block.bytes_store ..)).trans (leValue_u64Bytes size)
  have limit : (block.clear size).word .maxLength = usizeMax.toNat :=
    (congrArg leValue (Block.bytes_store ..)).trans (leValue_u64Bytes usizeMax)
  simp only [parametersOf, others .flags (by decide) (by decide), others .compressors (by decide) (by decide),
    others .selectedCompressor (by decide) (by decide), others .notes (by decide) (by decide),
    others .noteCount (by decide) (by decide), others .callbackFn (by decide) (by decide), sized, limit,
    UInt64.ofNat_toNat]
  rfl

/-! ## Short blocks -/

/-- The library respects the size of a block: what lies beyond makes no difference, a field
that does not lie wholly within is absent, and clearing the block stays within. -/
structure Respected {arch : Arch} (env : Environment arch) (pointees : Pointees) (fileName : Option Bytes)
    (size : UInt64) : Prop where
  agrees : ∀ first second : Block, first.word .size = size.toNat → second.word .size = size.toNat →
    (∀ index < size.toNat, first index = second index) →
    behaviour env pointees fileName first.word = behaviour env pointees fileName second.word
  absent : ∀ block : Block, block.word .size = size.toNat →
    behaviour env pointees fileName block.word = behaviour env pointees fileName (block.versionedWord size.toNat)
  clears : ∀ (block : Block) (index : Nat), size.toNat ≤ index → block.clear size index = block index

/-- A block of a given size with the address of a callback, and one more byte. -/
def callbackBlock (size : UInt64) (extra : Nat) : Block :=
  Block.store (fun index => if index = Field.callbackFn.offset ∨ index = extra then 1 else 0) Field.size.offset size

theorem word_size_callbackBlock (size : UInt64) (extra : Nat) : (callbackBlock size extra).word .size = size.toNat :=
  (congrArg leValue (Block.bytes_store ..)).trans (leValue_u64Bytes size)

/-- The callback of such a block. -/
theorem word_callbackBlock (size : UInt64) (extra : Nat) {field : Field} (behind : 8 ≤ field.offset) :
    (callbackBlock size extra).word field =
      Block.word (fun index => if index = Field.callbackFn.offset ∨ index = extra then 1 else 0) field :=
  congrArg leValue (Block.bytes_store_of_apart _ size (Or.inr behind))

section Versions

variable {arch : Arch} (env : Environment arch) (pointees : Pointees) (fileName : Option Bytes)

/-- One more byte makes another callback, or another argument of it. -/
theorem behaviour_callbackBlock_ne (size : UInt64) {extra : Nat} (behind : extra = 63 ∨ extra = 71) :
    behaviour env pointees fileName (callbackBlock size 56).word ≠
      behaviour env pointees fileName (callbackBlock size extra).word := by
  intro same
  have callback := congrArg Behaviour.callback same
  have func := fun extra => @word_callbackBlock size extra .callbackFn (by decide)
  have argument := fun extra => @word_callbackBlock size extra .callbackArg (by decide)
  simp only [behaviour, func, argument] at callback
  revert callback
  rcases behind with rfl | rfl <;> decide

/-- The library respects the size of a block exactly if the whole structure lies in it: it
never looks at the size. -/
theorem respected_iff (size : UInt64) :
    Respected env pointees fileName size ↔ coreDumpParametersSize ≤ size := by
  rw [UInt64.le_iff_toNat_le]
  constructor
  · intro respected
    by_contra short
    have less : size.toNat < 72 := Nat.not_le.mp short
    -- A byte beyond the size: one of the address of the callback, or one of its argument.
    obtain ⟨extra, beyond, behind⟩ : ∃ extra, size.toNat ≤ extra ∧ (extra = 63 ∨ extra = 71) := by
      by_cases early : size.toNat ≤ 63
      · exact ⟨63, early, Or.inl rfl⟩
      · exact ⟨71, by omega, Or.inr rfl⟩
    refine behaviour_callbackBlock_ne env pointees fileName size behind
      (respected.agrees _ _ (word_size_callbackBlock ..) (word_size_callbackBlock ..) ?_)
    intro index inside
    have other : index ≠ extra := by omega
    simp [callbackBlock, Block.store, Field.offset, other]
  · intro whole
    refine ⟨?_, ?_, ?_⟩
    · intro first second _ _ same
      have words : first.word = second.word := by
        funext field
        exact Block.word_congr fun index inside => same index (Nat.lt_of_lt_of_le inside whole)
      rw [words]
    · intro block _
      have words : block.versionedWord size.toNat = block.word := funext (block.versionedWord_eq whole)
      rw [words]
    · intro block index beyond
      exact block.clear_beyond (Nat.le_trans (by decide) whole) beyond

end Versions

/-- A block of a client that knows no callback, cleared on a stack that holds a byte. -/
def oldBlock (garbage : Byte) : Block := Block.clear (fun _ => garbage) 56

/-- What an old client has on its stack behind the block becomes a callback. -/
theorem oldBlock_misread :
    (oldBlock 0).word .size = 56 ∧ (oldBlock 0xff).word .size = 56 ∧
      (∀ index < 56, oldBlock 0 index = oldBlock 0xff index) ∧
      (lowerParams (some (parametersOf ⟨fun _ => [], fun _ => []⟩ (oldBlock 0).word))
        ((100, Regs.zeroed) : Int32 × Regs .x86_64)).callback = false ∧
      (lowerParams (some (parametersOf ⟨fun _ => [], fun _ => []⟩ (oldBlock 0xff).word))
        ((100, Regs.zeroed) : Int32 × Regs .x86_64)).callback = true := by
  have clean : (oldBlock 0).word .callbackFn = 0 := by decide
  have dirty : (oldBlock 0xff).word .callbackFn ≠ 0 := by decide
  refine ⟨by decide, by decide, by decide, ?_, ?_⟩
  · simp [lowerParams, parametersOf, pointer, clean]
  · simp [lowerParams, parametersOf, pointer, dirty]

end Corus.Capi
