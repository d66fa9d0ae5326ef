import Corus.Capi.Settings
import Corus.Capi.Versioned
import Mathlib.Logic.Function.Basic

/-!
# Settings in the memory of the caller

The functions that fill a parameter block work on the bytes that a pointer leads to,
and a later call reads there what an earlier one has stored. On a block of the full size
they do to the bytes what the settings do to the parameters, and touch nothing behind it.
-/

namespace Corus.Capi

open Corus.Logical Corus.Platform Corus.Elf Corus.Dump

/-- Two fields share no byte. -/
theorem Field.apart {field other : Field} (distinct : other ≠ field) :
    other.offset + other.width ≤ field.offset ∨ field.offset + field.width ≤ other.offset := by
  revert distinct
  cases field <;> cases other <;> decide

/-! ## Fields of a block -/

namespace Block

/-- A store to a field. -/
def set (block : Block) (field : Field) (value : Nat) : Block := fun index =>
  if field.offset ≤ index ∧ index < field.offset + field.width then
    ((leBytes field.width value)[index - field.offset]?).getD 0
  else block index

/-- `p.flags`. -/
def flags (block : Block) : Int32 := (UInt32.ofNat (block.word .flags)).toInt32

/-- Whether a flag is set. -/
def has (block : Block) (flag : Int32) : Bool := block.flags &&& flag != 0

variable {field : Field} {value : Nat}

theorem bytes_set (block : Block) (field : Field) (value : Nat) :
    (block.set field value).bytes field.offset field.width = leBytes field.width value := by
  have length : (leBytes field.width value).length = field.width := length_leBytes ..
  apply List.ext_getElem
  · simp [bytes, length]
  · intro index inside _
    have small : index < field.width := by simpa [bytes] using inside
    have within : field.offset ≤ field.offset + index ∧ field.offset + index < field.offset + field.width := by omega
    simp only [bytes, List.getElem_map, List.getElem_range, set]
    rw [if_pos within, Nat.add_sub_cancel_left, List.getElem?_eq_getElem (by omega), Option.getD_some]

/-- A store changes the word of its field and no other one. -/
theorem word_set (block : Block) (fits : value < 256 ^ field.width) :
    (block.set field value).word = Function.update block.word field value := by
  funext other
  by_cases same : other = field
  · subst same
    rw [Function.update_self, word, bytes_set, leValue_leBytes, Nat.mod_eq_of_lt fits]
  · rw [Function.update_of_ne same]
    have apart := Field.apart same
    refine congrArg leValue (List.map_congr_left ?_)
    intro index member
    rw [List.mem_range] at member
    exact if_neg (by omega)

/-- No store reaches beyond the structure. -/
theorem set_beyond (block : Block) {index : Nat} (beyond : coreDumpParametersSize.toNat ≤ index) :
    block.set field value index = block index := by
  have inside := field.inside
  exact if_neg (by omega)

/-- What a function leaves of a block, with its return value and the error number it sets. -/
structure Filled where
  rc : Int
  errno : Option Errno
  block : Block

/-- A request that the block does not allow. -/
def refuse (block : Block) : Filled := ⟨-1, some .einval, block⟩

/-- `SetCoreDumpLimited`. -/
def setCoreDumpLimited (block : Block) (maxLength : UInt64) : Filled :=
  if block.has coredumperFlagLimitedByPriority then block.refuse
  else ⟨0, none, (block.set .flags (block.flags ||| coredumperFlagLimited).toUInt32.toNat).set .maxLength
    maxLength.toNat⟩

/-- `SetCoreDumpCompressed`, with the addresses of the table and of the place for the selected one. -/
def setCoreDumpCompressed (block : Block) (compressors selected : UInt64) : Filled :=
  if block.has coredumperFlagLimitedByPriority then block.refuse
  else ⟨0, none, (block.set .compressors compressors.toNat).set .selectedCompressor selected.toNat⟩

/-- `SetCoreDumpLimitedByPriority`. -/
def setCoreDumpLimitedByPriority (block : Block) (maxLength : UInt64) : Filled :=
  if (block.has coredumperFlagLimited && !block.has coredumperFlagLimitedByPriority) ||
      block.word .compressors != 0 then block.refuse
  else ⟨0, none, (block.set .flags
    (block.flags ||| (coredumperFlagLimited ||| coredumperFlagLimitedByPriority)).toUInt32.toNat).set .maxLength
      maxLength.toNat⟩

/-- `SetCoreDumpNotes`. -/
def setCoreDumpNotes (block : Block) (notes : UInt64) (noteCount : Int32) : Filled :=
  ⟨0, none, (block.set .notes notes.toNat).set .noteCount noteCount.toUInt32.toNat⟩

/-- `SetCoreDumpCallback`. -/
def setCoreDumpCallback (block : Block) (func arg : UInt64) : Filled :=
  ⟨0, none, (block.set .callbackFn func.toNat).set .callbackArg arg.toNat⟩

end Block

/-! ## Calls on a block -/

/-- A call that fills a block, with addresses for its pointers. -/
inductive BlockCall where
  | limited (maxLength : UInt64)
  | limitedByPriority (maxLength : UInt64)
  | compressed (compressors selected : UInt64)
  | notes (table : UInt64) (noteCount : Int32)
  | callback (func arg : UInt64)

namespace BlockCall

def apply (call : BlockCall) (block : Block) : Block.Filled :=
  match call with
  | .limited maxLength => block.setCoreDumpLimited maxLength
  | .limitedByPriority maxLength => block.setCoreDumpLimitedByPriority maxLength
  | .compressed compressors selected => block.setCoreDumpCompressed compressors selected
  | .notes table noteCount => block.setCoreDumpNotes table noteCount
  | .callback func arg => block.setCoreDumpCallback func arg

/-- The setting that the call is, for what its pointers lead to. -/
def setting (pointees : Pointees) : BlockCall → SettingCall
  | .limited maxLength => .limited maxLength
  | .limitedByPriority maxLength => .limitedByPriority maxLength
  | .compressed compressors selected =>
      .compressed ((pointer compressors.toNat).map pointees.compressors) (pointer selected.toNat).isSome
  | .notes table noteCount => .notes ((pointer table.toNat).map pointees.notes) noteCount
  | .callback func _ => .callback (pointer func.toNat).isSome

end BlockCall

section Refinement

variable (pointees : Pointees) (block : Block)

theorem word_lt (value : UInt64) : value.toNat < 256 ^ 8 := value.toNat_lt

theorem flags_lt (value : Int32) : value.toUInt32.toNat < 256 ^ 4 := value.toUInt32.toNat_lt

/-- A signed word is read as it was stored. -/
theorem toInt32_ofNat (value : Int32) : (UInt32.ofNat value.toUInt32.toNat).toInt32 = value := by
  rw [UInt32.ofNat_toNat]
  exact Int32.toInt32_toUInt32 value

/-- A table is there exactly if its address is not null. -/
theorem isSome_compressors :
    (parametersOf pointees block.word).compressors.isSome = (block.word .compressors != 0) := by
  simp only [parametersOf, pointer]
  split
  · rename_i null
    simp [null]
  · rename_i listed
    simp [listed]

/-- One call does to the bytes what the setting does to the parameters. -/
theorem BlockCall.apply_refines (call : BlockCall) :
    (call.apply block).rc = ((call.setting pointees).apply (parametersOf pointees block.word)).rc ∧
      (call.apply block).errno = ((call.setting pointees).apply (parametersOf pointees block.word)).errno ∧
      parametersOf pointees (call.apply block).block.word =
        ((call.setting pointees).apply (parametersOf pointees block.word)).params := by
  cases call with
  | limited maxLength =>
      simp only [apply, setting, SettingCall.apply, Block.setCoreDumpLimited, setCoreDumpLimited]
      by_cases prioritized : block.has coredumperFlagLimitedByPriority = true
      · rw [if_pos prioritized, if_pos (show (parametersOf pointees block.word).has _ = true from prioritized)]
        exact ⟨rfl, rfl, rfl⟩
      · rw [if_neg prioritized, if_neg (show ¬ (parametersOf pointees block.word).has _ = true from prioritized)]
        refine ⟨rfl, rfl, ?_⟩
        rw [Block.word_set _ (word_lt maxLength), Block.word_set _ (flags_lt _)]
        simp only [parametersOf, Function.update_self, Function.update_of_ne, ne_eq, reduceCtorEq, not_false_eq_true,
          toInt32_ofNat, UInt64.ofNat_toNat, Block.flags]
  | limitedByPriority maxLength =>
      simp only [apply, setting, SettingCall.apply, Block.setCoreDumpLimitedByPriority, setCoreDumpLimitedByPriority,
        isSome_compressors]
      by_cases refused : ((block.has coredumperFlagLimited && !block.has coredumperFlagLimitedByPriority) ||
          block.word .compressors != 0) = true
      · rw [if_pos refused, if_pos (show ((parametersOf pointees block.word).has _ &&
          !(parametersOf pointees block.word).has _ || _) = true from refused)]
        exact ⟨rfl, rfl, rfl⟩
      · rw [if_neg refused, if_neg (show ¬ ((parametersOf pointees block.word).has _ &&
          !(parametersOf pointees block.word).has _ || _) = true from refused)]
        refine ⟨rfl, rfl, ?_⟩
        rw [Block.word_set _ (word_lt maxLength), Block.word_set _ (flags_lt _)]
        simp only [parametersOf, Function.update_self, Function.update_of_ne, ne_eq, reduceCtorEq, not_false_eq_true,
          toInt32_ofNat, UInt64.ofNat_toNat, Block.flags]
  | compressed compressors selected =>
      simp only [apply, setting, SettingCall.apply, Block.setCoreDumpCompressed, setCoreDumpCompressed]
      by_cases prioritized : block.has coredumperFlagLimitedByPriority = true
      · rw [if_pos prioritized, if_pos (show (parametersOf pointees block.word).has _ = true from prioritized)]
        exact ⟨rfl, rfl, rfl⟩
      · rw [if_neg prioritized, if_neg (show ¬ (parametersOf pointees block.word).has _ = true from prioritized)]
        refine ⟨rfl, rfl, ?_⟩
        rw [Block.word_set _ (word_lt selected), Block.word_set _ (word_lt compressors)]
        simp only [parametersOf, Function.update_self, Function.update_of_ne, ne_eq, reduceCtorEq, not_false_eq_true]
  | notes table noteCount =>
      refine ⟨rfl, rfl, ?_⟩
      simp only [apply, setting, SettingCall.apply, Block.setCoreDumpNotes, setCoreDumpNotes]
      rw [Block.word_set _ (flags_lt noteCount), Block.word_set _ (word_lt table)]
      simp only [parametersOf, Function.update_self, Function.update_of_ne, ne_eq, reduceCtorEq, not_false_eq_true,
        toInt32_ofNat]
  | callback func arg =>
      refine ⟨rfl, rfl, ?_⟩
      simp only [apply, setting, SettingCall.apply, Block.setCoreDumpCallback, setCoreDumpCallback]
      rw [Block.word_set _ (word_lt arg), Block.word_set _ (word_lt func)]
      simp only [parametersOf, Function.update_self, Function.update_of_ne, ne_eq, reduceCtorEq, not_false_eq_true]

/-- No call reaches beyond the structure. -/
theorem BlockCall.apply_beyond (call : BlockCall) {index : Nat} (beyond : coreDumpParametersSize.toNat ≤ index) :
    (call.apply block).block index = block index := by
  have twice : ∀ (first second : Field) (one other : Nat),
      ((block.set first one).set second other) index = block index := by
    intro first second one other
    rw [Block.set_beyond _ beyond, Block.set_beyond _ beyond]
  cases call <;> simp only [apply, Block.setCoreDumpLimited, Block.setCoreDumpLimitedByPriority,
    Block.setCoreDumpCompressed, Block.setCoreDumpNotes, Block.setCoreDumpCallback]
  case notes | callback => exact twice ..
  all_goals
    split
    · rfl
    · exact twice ..

end Refinement

/-! ## Sequences of calls -/

/-- What the calls return, the error numbers they set, and the block in the end. -/
def BlockCall.run : List BlockCall → Block → List (Int × Option Errno) × Block
  | [], block => ([], block)
  | call :: rest, block =>
      let filled := call.apply block
      let later := run rest filled.block
      ((filled.rc, filled.errno) :: later.1, later.2)

/-- The same of the settings of a block. -/
def SettingCall.run : List SettingCall → CoreDumpParameters → List (Int × Option Errno) × CoreDumpParameters
  | [], params => ([], params)
  | call :: rest, params =>
      let setting := call.apply params
      let later := run rest setting.params
      ((setting.rc, setting.errno) :: later.1, later.2)

/-- The observer of a block does not change it. -/
theorem SettingCall.run_params (calls : List SettingCall) (block : ObservedBlock) :
    (SettingCall.run calls block.params).2 = (calls.foldl ObservedBlock.step block).params := by
  induction calls generalizing block with
  | nil => rfl
  | cons call rest ih => exact ih (block.step call)

/-- So do all calls of a sequence. -/
theorem BlockCall.run_refines (pointees : Pointees) (calls : List BlockCall) (block : Block) :
    (BlockCall.run calls block).1 =
        (SettingCall.run (calls.map (BlockCall.setting pointees)) (parametersOf pointees block.word)).1 ∧
      parametersOf pointees (BlockCall.run calls block).2.word =
        (SettingCall.run (calls.map (BlockCall.setting pointees)) (parametersOf pointees block.word)).2 ∧
      ∀ index, coreDumpParametersSize.toNat ≤ index → (BlockCall.run calls block).2 index = block index := by
  induction calls generalizing block with
  | nil => exact ⟨rfl, rfl, fun _ _ => rfl⟩
  | cons call rest ih =>
      obtain ⟨rc, errno, params⟩ := call.apply_refines pointees block
      obtain ⟨answers, last, beyond⟩ := ih (call.apply block).block
      rw [params] at answers last
      simp only [List.map_cons, SettingCall.run, BlockCall.run]
      refine ⟨?_, last, ?_⟩
      · rw [answers, rc, errno]
      · intro index outside
        rw [beyond index outside, call.apply_beyond block outside]

end Corus.Capi
