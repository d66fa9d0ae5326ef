import Mathlib.Algebra.BigOperators.Ring.List
import Mathlib.Algebra.Order.Ring.Nat
import Mathlib.Data.List.Basic

/-!
# Byte sequences

Little-endian words, exact windows into a byte sequence, and the slice
assignment used by fixed scratch buffers. Nothing here knows what the bytes
mean.
-/

namespace Corus.Logical

abbrev Byte := UInt8
abbrev Bytes := List UInt8

/-- The `width` low-order bytes of `value`, least significant first. -/
def leBytes : Nat → Nat → Bytes
  | 0, _ => []
  | width + 1, value => UInt8.ofNat value :: leBytes width (value / 256)

/-- The natural number spelled by little-endian bytes. -/
def leValue : Bytes → Nat
  | [] => 0
  | byte :: rest => byte.toNat + 256 * leValue rest

@[simp] theorem length_leBytes (width value : Nat) : (leBytes width value).length = width := by
  induction width generalizing value with
  | zero => rfl
  | succ width ih => simp [leBytes, ih]

/-- Writing `width` bytes and reading them back keeps exactly the low-order part. -/
theorem leValue_leBytes (width value : Nat) :
    leValue (leBytes width value) = value % 256 ^ width := by
  induction width generalizing value with
  | zero => simp [leBytes, leValue, Nat.mod_one]
  | succ width ih =>
      have low : (UInt8.ofNat value).toNat = value % 256 := by simp
      rw [leBytes, leValue, ih, low, Nat.pow_succ', Nat.mod_mul]

/-- The `count` bytes found at `offset`; shorter when the sequence ends before. -/
def window (bytes : Bytes) (offset count : Nat) : Bytes := (bytes.drop offset).take count

/-- A window that starts after a known prefix and spans a known chunk is that chunk. -/
theorem window_append {before chunk after : Bytes} {offset count : Nat}
    (starts : before.length = offset) (spans : chunk.length = count) :
    window (before ++ (chunk ++ after)) offset count = chunk := by
  subst starts spans
  simp [window]

/-- A window of a longer file that already lies in its prefix is that prefix's window. -/
theorem window_take {bytes : Bytes} {offset count limit : Nat} (within : offset + count ≤ limit) :
    window (bytes.take limit) offset count = window bytes offset count := by
  unfold window
  rw [List.drop_take, List.take_take, Nat.min_eq_left (by omega)]

/-- Reading one byte of a window reads the underlying sequence at the shifted index. -/
theorem window_getElem? {bytes : Bytes} {offset count index : Nat} (inside : index < count) :
    (window bytes offset count)[index]? = bytes[offset + index]? := by
  rw [window, List.getElem?_take_of_lt inside, List.getElem?_drop]

/-- Overwrite the elements of `buffer` from `position` on with `replacement`. -/
def overwrite (buffer : Bytes) (position : Nat) (replacement : Bytes) : Bytes :=
  buffer.take position ++ replacement ++ buffer.drop (position + replacement.length)

@[simp] theorem length_overwrite {buffer replacement : Bytes} {position : Nat}
    (fits : position + replacement.length ≤ buffer.length) :
    (overwrite buffer position replacement).length = buffer.length := by
  simp only [overwrite, List.length_append, List.length_take, List.length_drop]
  omega

/-- A prefix that contains the replaced range is overwritten like the whole. -/
theorem take_overwrite_of_le {buffer replacement : Bytes} {position count : Nat}
    (inside : position + replacement.length ≤ count) :
    (overwrite buffer position replacement).take count =
      overwrite (buffer.take count) position replacement := by
  rcases Nat.le_total position buffer.length with fits | short
  · have start : (buffer.take position ++ replacement).length = position + replacement.length := by
      simp [fits]
    rw [overwrite, overwrite, List.take_append, start, List.take_of_length_le (by omega),
      List.take_take, Nat.min_eq_left (by omega), List.drop_take]
  · rw [overwrite, overwrite, List.take_of_length_le (by simp; omega),
      List.take_of_length_le (show buffer.length ≤ count by omega)]

@[simp] theorem overwrite_nil (buffer : Bytes) (position : Nat) : overwrite buffer position [] = buffer := by
  simp [overwrite]

/-- Two pieces written one behind the other are written as one. -/
theorem overwrite_overwrite {buffer first second : Bytes} {position : Nat}
    (fits : position + first.length ≤ buffer.length) :
    overwrite (overwrite buffer position first) (position + first.length) second =
      overwrite buffer position (first ++ second) := by
  have front : (buffer.take position ++ first).length = position + first.length := by
    rw [List.length_append, List.length_take]
    omega
  rw [overwrite, overwrite, List.take_left' front, ← List.drop_drop, List.drop_left' front, List.drop_drop, overwrite,
    List.length_append, Nat.add_assoc, List.append_assoc, List.append_assoc, List.append_assoc, List.append_assoc]

/-- A byte and what follows it, written one after the other. -/
theorem overwrite_cons {buffer rest : Bytes} {position : Nat} {byte : Byte} (inside : position < buffer.length) :
    overwrite (overwrite buffer position [byte]) (position + 1) rest = overwrite buffer position (byte :: rest) :=
  @overwrite_overwrite buffer [byte] rest position inside

/-- Overwriting a window with as many bytes keeps the buffer's length. -/
theorem length_overwrite_window {buffer replacement : Bytes} {position count : Nat}
    (same : replacement.length = (window buffer position count).length) :
    (overwrite buffer position replacement).length = buffer.length := by
  simp only [window, List.length_take, List.length_drop] at same
  simp only [overwrite, List.length_append, List.length_take, List.length_drop]
  omega

/-- Overwriting a window with itself changes nothing. -/
theorem overwrite_window (buffer : Bytes) (position count : Nat) :
    overwrite buffer position (window buffer position count) = buffer := by
  have rest : (buffer.drop position).drop (window buffer position count).length =
      (buffer.drop position).drop count := by
    rw [window, List.length_take]
    rcases Nat.le_total count (buffer.drop position).length with fits | short
    · rw [Nat.min_eq_left fits]
    · rw [Nat.min_eq_right short, List.drop_length, List.drop_of_length_le short]
  rw [overwrite, ← List.drop_drop, rest, window, List.append_assoc, List.take_append_drop,
    List.take_append_drop]

/-! ## Consecutive chunks -/

/-- Where chunk `index` starts when chunks of the given sizes follow each other. -/
def chunkOffset (sizes : List Nat) (index : Nat) : Nat := (sizes.take index).sum

@[simp] theorem chunkOffset_zero (sizes : List Nat) : chunkOffset sizes 0 = 0 := by
  simp [chunkOffset]

theorem chunkOffset_succ {sizes : List Nat} {index size : Nat} (here : sizes[index]? = some size) :
    chunkOffset sizes (index + 1) = chunkOffset sizes index + size := by
  rw [chunkOffset, chunkOffset, List.take_add_one, here, Option.toList_some, List.sum_append,
    List.sum_singleton]

theorem chunkOffset_cons_succ (size : Nat) (sizes : List Nat) (index : Nat) :
    chunkOffset (size :: sizes) (index + 1) = size + chunkOffset sizes index := by
  simp [chunkOffset]

/-- Later chunks start no earlier than earlier ones end. -/
theorem chunkOffset_mono (sizes : List Nat) {first second : Nat} (ordered : first ≤ second) :
    chunkOffset sizes first ≤ chunkOffset sizes second := by
  obtain ⟨between, rfl⟩ := Nat.exists_eq_add_of_le ordered
  rw [chunkOffset, chunkOffset, List.take_add, List.sum_append]
  omega

theorem chunkOffset_le_sum (sizes : List Nat) (index : Nat) : chunkOffset sizes index ≤ sizes.sum := by
  have parts := congrArg List.sum (List.take_append_drop index sizes)
  rw [List.sum_append] at parts
  simp only [chunkOffset]
  omega

/-- Modifying the element at a position where one is. -/
theorem modify_eq_set_of_getElem? {Item : Type} {items : List Item} {index : Nat} {item : Item}
    (here : items[index]? = some item) (change : Item → Item) :
    items.modify index change = items.set index (change item) := by
  obtain ⟨inside, rfl⟩ := List.getElem?_eq_some_iff.mp here
  rw [List.modify_eq_set_getElem?, here]
  rfl

/-- The results of a partial function beside the items that have one. -/
theorem forall₂_filterMap {Item Value : Type} (result : Item → Option Value) (items : List Item) :
    List.Forall₂ (fun item value => result item = some value) (items.filter fun item => (result item).isSome)
      (items.filterMap result) := by
  induction items with
  | nil => exact .nil
  | cons item rest ih =>
      cases here : result item with
      | none => simpa [here] using ih
      | some value => simpa [here] using ih

/-- Replacing one size changes the sum by the difference. -/
theorem sum_set {sizes : List Nat} {index size : Nat} (here : sizes[index]? = some size) (other : Nat) :
    (sizes.set index other).sum + size = sizes.sum + other := by
  induction sizes generalizing index with
  | nil => simp at here
  | cons first rest ih =>
      cases index with
      | zero =>
          simp only [List.getElem?_cons_zero, Option.some.injEq] at here
          simp only [List.set_cons_zero, List.sum_cons]
          omega
      | succ index =>
          have shifted := ih (by simpa using here)
          simp only [List.set_cons_succ, List.sum_cons]
          omega

/-- Replacing a positive size by zero leaves one positive size less. -/
theorem countP_set_zero {sizes : List Nat} {index size : Nat} (here : sizes[index]? = some size)
    (positive : 0 < size) :
    (sizes.set index 0).countP (0 < ·) + 1 = sizes.countP (0 < ·) := by
  induction sizes generalizing index with
  | nil => simp at here
  | cons first rest ih =>
      cases index with
      | zero =>
          simp only [List.getElem?_cons_zero, Option.some.injEq] at here
          simp [here, positive]
      | succ index =>
          have shifted := ih (by simpa using here)
          simp only [List.set_cons_succ, List.countP_cons]
          omega

/-- If the sizes before a position are multiples, so is its offset. -/
theorem dvd_chunkOffset {sizes : List Nat} {divisor position : Nat}
    (multiples : ∀ index size, index < position → sizes[index]? = some size → divisor ∣ size) :
    divisor ∣ chunkOffset sizes position := by
  apply List.dvd_sum
  intro size member
  obtain ⟨index, found⟩ := List.getElem?_of_mem member
  rw [List.getElem?_take] at found
  split at found
  · rename_i before
    exact multiples index size before found
  · cases found

/-- If the sizes from a position on are multiples, its offset differs from the sum
by a multiple. -/
theorem chunkOffset_mod {sizes : List Nat} {divisor position : Nat}
    (multiples : ∀ index size, position ≤ index → sizes[index]? = some size → divisor ∣ size) :
    chunkOffset sizes position % divisor = sizes.sum % divisor := by
  have rest : divisor ∣ (sizes.drop position).sum := by
    apply List.dvd_sum
    intro size member
    obtain ⟨index, found⟩ := List.getElem?_of_mem member
    rw [List.getElem?_drop] at found
    exact multiples _ size (Nat.le_add_right _ _) found
  have parts := congrArg List.sum (List.take_append_drop position sizes)
  rw [List.sum_append] at parts
  obtain ⟨count, equal⟩ := rest
  rw [← parts, equal, Nat.add_mul_mod_self_left]
  rfl

/-- A position behind the start but within all chunks lies in one of them. -/
theorem exists_chunk_around {sizes : List Nat} {start position : Nat} (behind : start ≤ position)
    (inside : position < start + sizes.sum) :
    ∃ index size, sizes[index]? = some size ∧ start + chunkOffset sizes index ≤ position ∧
      position < start + chunkOffset sizes index + size := by
  induction sizes generalizing start with
  | nil => simp at inside; omega
  | cons size rest ih =>
      by_cases first : position < start + size
      · exact ⟨0, size, rfl, by simpa using behind, by simpa using first⟩
      · rw [List.sum_cons, ← Nat.add_assoc] at inside
        obtain ⟨index, other, found, low, high⟩ := ih (Nat.le_of_not_lt first) inside
        refine ⟨index + 1, other, found, ?_, ?_⟩
        · rw [chunkOffset_cons_succ]
          omega
        · rw [chunkOffset_cons_succ]
          omega

/-- Every chunk of a concatenation is found at its offset. -/
theorem window_flatten {chunks : List Bytes} {before after chunk : Bytes} {index : Nat}
    (here : chunks[index]? = some chunk) :
    window (before ++ (chunks.flatten ++ after))
      (before.length + chunkOffset (chunks.map List.length) index) chunk.length = chunk := by
  induction chunks generalizing before index with
  | nil => simp at here
  | cons head tail ih =>
      cases index with
      | zero =>
          cases here
          rw [List.flatten_cons, List.append_assoc]
          exact window_append (by simp) rfl
      | succ index =>
          have found := @ih (before ++ head) index here
          rw [List.map_cons, chunkOffset_cons_succ, List.flatten_cons, ← Nat.add_assoc,
            ← List.length_append, List.append_assoc, ← List.append_assoc before]
          exact found

end Corus.Logical
