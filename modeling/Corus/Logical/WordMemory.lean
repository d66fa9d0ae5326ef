import Mathlib.Data.BitVec
import Mathlib.Tactic.IntervalCases

/-!
# Byte-addressed memory with 64-bit words

Memory is a total function from 64-bit addresses to bytes and addresses wrap
around. A word is stored little-endian in eight consecutive bytes. The lemmas
say what a load sees after a store, and what a sequence of stores into an array
of words leaves in every slot of the array and in every byte outside of it.
-/

namespace Corus.Logical

abbrev Word := BitVec 64

/-- The contents of the address space. -/
abbrev WordMemory := Word → BitVec 8

/-- The address lies in the `length` bytes from `base` on. -/
def InBlock (base : Word) (length : Nat) (address : Word) : Prop := (address - base).toNat < length

instance (base : Word) (length : Nat) (address : Word) : Decidable (InBlock base length address) :=
  inferInstanceAs (Decidable (_ < _))

/-- No byte belongs to both ranges. -/
def Separate (base : Word) (length : Nat) (other : Word) (size : Nat) : Prop :=
  ∀ address, InBlock base length address → ¬ InBlock other size address

theorem Separate.symm {base other : Word} {length size : Nat} (separate : Separate base length other size) :
    Separate other size base length := fun address inOther inBase => separate address inBase inOther

namespace WordMemory

/-- The little-endian word at an address. -/
def load (memory : WordMemory) (address : Word) : Word :=
  memory (address + 7) ++ memory (address + 6) ++ memory (address + 5) ++ memory (address + 4) ++
    memory (address + 3) ++ memory (address + 2) ++ memory (address + 1) ++ memory address

/-- Replace the eight bytes at an address by those of a word. -/
def store (memory : WordMemory) (address value : Word) : WordMemory := fun byte =>
  if InBlock address 8 byte then value.extractLsb' (8 * (byte - address).toNat) 8 else memory byte

theorem toNat_add_sub {base : Word} {offset : Nat} (small : offset < 2 ^ 64) :
    (base + BitVec.ofNat 64 offset - base).toNat = offset := by
  rw [BitVec.add_comm, BitVec.add_sub_cancel, BitVec.toNat_ofNat, Nat.mod_eq_of_lt small]

theorem inBlock_add {base : Word} {length offset : Nat} (small : offset < 2 ^ 64) :
    InBlock base length (base + BitVec.ofNat 64 offset) ↔ offset < length := by
  rw [InBlock, toNat_add_sub small]

/-- Bit by bit, a word is its bytes from the lowest address on. -/
theorem getElem_load (memory : WordMemory) (address : Word) {bit : Nat} (inBounds : bit < 64) :
    (memory.load address)[bit] = (memory (address + BitVec.ofNat 64 (bit / 8))).getLsbD (bit % 8) := by
  obtain ⟨byte, position, rfl, low⟩ : ∃ byte position, bit = 8 * byte + position ∧ position < 8 :=
    ⟨bit / 8, bit % 8, by omega, by omega⟩
  have high : byte < 8 := by omega
  have quotient : (8 * byte + position) / 8 = byte := by omega
  have remainder : (8 * byte + position) % 8 = position := by omega
  rw [quotient, remainder, ← BitVec.getLsbD_eq_getElem inBounds]
  interval_cases byte <;> simp (disch := omega) only [load, BitVec.getLsbD_append, if_pos, if_neg] <;> congr 1
  all_goals first | omega | simp

theorem load_store (memory : WordMemory) (address value : Word) :
    (memory.store address value).load address = value := by
  ext bit inBounds
  have position : bit / 8 < 2 ^ 64 := by omega
  have inWord : InBlock address 8 (address + BitVec.ofNat 64 (bit / 8)) := (inBlock_add position).mpr (by omega)
  have low : bit % 8 < 8 := Nat.mod_lt _ (by decide)
  rw [getElem_load _ _ inBounds, store, if_pos inWord, toNat_add_sub position, BitVec.getLsbD_extractLsb',
    Nat.div_add_mod, BitVec.getLsbD_eq_getElem inBounds, decide_eq_true low, Bool.true_and]

theorem load_congr {memory other : WordMemory} {address : Word}
    (same : ∀ byte, InBlock address 8 byte → memory byte = other byte) : memory.load address = other.load address := by
  ext bit inBounds
  have position : bit / 8 < 2 ^ 64 := by omega
  rw [getElem_load _ _ inBounds, getElem_load _ _ inBounds, same _ ((inBlock_add position).mpr (by omega))]

/-- A store changes no byte outside of its word. -/
theorem store_outside {memory : WordMemory} {address value byte : Word} (outside : ¬ InBlock address 8 byte) :
    memory.store address value byte = memory byte := if_neg outside

/-- A store leaves the words it does not overlap. -/
theorem load_store_of_separate {memory : WordMemory} {address other value : Word}
    (separate : Separate address 8 other 8) :
    (memory.store address value).load other = memory.load other :=
  load_congr fun _ inOther => store_outside fun inside => separate _ inside inOther

/-! ## Arrays of words -/

/-- The address of a slot of an array. -/
def slotAddress (base : Word) (slot : Nat) : Word := base + BitVec.ofNat 64 (8 * slot)

/-- Store words into slots of an array, one after the other. -/
def storeSlots (memory : WordMemory) (base : Word) (writes : List (Nat × Word)) : WordMemory :=
  writes.foldl (fun current write => current.store (slotAddress base write.1) write.2) memory

theorem storeSlots_append (memory : WordMemory) (base : Word) (before after : List (Nat × Word)) :
    memory.storeSlots base (before ++ after) = (memory.storeSlots base before).storeSlots base after :=
  List.foldl_append

/-- What the writes leave in a slot: the last word written to it. -/
def lastWrite (slot : Nat) (writes : List (Nat × Word)) : Option Word :=
  (writes.reverse.find? fun write => write.1 = slot).map Prod.snd

theorem lastWrite_append (slot : Nat) (writes : List (Nat × Word)) (write : Nat × Word) :
    lastWrite slot (writes ++ [write]) = if write.1 = slot then some write.2 else lastWrite slot writes := by
  by_cases same : write.1 = slot
  · simp [lastWrite, same]
  · simp [lastWrite, same]

theorem inBlock_slot {base address : Word} {slot : Nat} (small : 8 * slot + 8 ≤ 2 ^ 64) :
    InBlock (slotAddress base slot) 8 address ↔
      8 * slot ≤ (address - base).toNat ∧ (address - base).toNat < 8 * slot + 8 := by
  have split : address - slotAddress base slot = address - base - BitVec.ofNat 64 (8 * slot) := by
    rw [slotAddress, BitVec.sub_sub]
  have bounded := (address - base).isLt
  rw [InBlock, split, BitVec.toNat_sub, BitVec.toNat_ofNat, Nat.mod_eq_of_lt (by omega : 8 * slot < 2 ^ 64)]
  omega

theorem slots_separate {base : Word} {slot other : Nat} (different : slot ≠ other) (small : 8 * slot + 8 ≤ 2 ^ 64)
    (otherSmall : 8 * other + 8 ≤ 2 ^ 64) : Separate (slotAddress base slot) 8 (slotAddress base other) 8 := by
  intro address inSlot inOther
  rw [inBlock_slot small] at inSlot
  rw [inBlock_slot otherSmall] at inOther
  omega

/-- Every slot of the array holds the last word written to it, or what it held before. -/
theorem load_storeSlots {memory : WordMemory} {base : Word} {writes : List (Nat × Word)} {slot : Nat} (slots : Nat)
    (small : 8 * slots ≤ 2 ^ 64) (inBounds : ∀ write ∈ writes, write.1 < slots) (inArray : slot < slots) :
    (memory.storeSlots base writes).load (slotAddress base slot) =
      (lastWrite slot writes).getD (memory.load (slotAddress base slot)) := by
  induction writes using List.reverseRecOn with
  | nil => rfl
  | append_singleton writes write ih =>
      have earlier := ih fun prior member => inBounds prior (List.mem_append_left _ member)
      have last := inBounds write (by simp)
      rw [lastWrite_append]
      simp only [storeSlots, List.foldl_append, List.foldl_cons, List.foldl_nil]
      by_cases same : write.1 = slot
      · rw [if_pos same, same, load_store]
        rfl
      · rw [if_neg same, load_store_of_separate (slots_separate same (by omega) (by omega))]
        exact earlier

/-- Writes into an array change no byte outside of it. -/
theorem storeSlots_outside {memory : WordMemory} {base byte : Word} {writes : List (Nat × Word)} (slots : Nat)
    (small : 8 * slots ≤ 2 ^ 64) (inBounds : ∀ write ∈ writes, write.1 < slots)
    (outside : ¬ InBlock base (8 * slots) byte) : memory.storeSlots base writes byte = memory byte := by
  induction writes using List.reverseRecOn with
  | nil => rfl
  | append_singleton writes write ih =>
      have earlier := ih fun prior member => inBounds prior (List.mem_append_left _ member)
      have last := inBounds write (by simp)
      simp only [storeSlots, List.foldl_append, List.foldl_cons, List.foldl_nil]
      rw [store_outside]
      · exact earlier
      · intro inside
        rw [inBlock_slot (by omega)] at inside
        exact outside (by rw [InBlock]; omega)

/-- Writes into an array leave the words outside of it. -/
theorem load_storeSlots_of_separate {memory : WordMemory} {base other : Word} {writes : List (Nat × Word)} (slots : Nat)
    (small : 8 * slots ≤ 2 ^ 64) (inBounds : ∀ write ∈ writes, write.1 < slots)
    (separate : Separate base (8 * slots) other 8) : (memory.storeSlots base writes).load other = memory.load other :=
  load_congr fun _ inOther => storeSlots_outside slots small inBounds fun inside => separate _ inside inOther

end WordMemory

end Corus.Logical
