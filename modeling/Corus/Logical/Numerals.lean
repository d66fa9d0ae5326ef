import Mathlib.Data.Nat.Digits.Lemmas
import Corus.Logical.Bytes

/-!
# Numerals

Numbers as digits of a base, most significant first, padded with zeros to a width, and
their rendering with lowercase letters. `numeralValue_numeral` is the round trip.
-/

namespace Corus.Logical

/-- The digits of a number, most significant first, padded to a width. -/
def numeral (base width value : Nat) : List Nat :=
  List.replicate (width - (Nat.digits base value).length) 0 ++ (Nat.digits base value).reverse

/-- The number that digits stand for, behind a number already read. -/
def numeralValue (base value : Nat) (digits : List Nat) : Nat :=
  digits.foldl (fun value digit => value * base + digit) value

@[simp] theorem numeralValue_cons (base value digit : Nat) (rest : List Nat) :
    numeralValue base value (digit :: rest) = numeralValue base (value * base + digit) rest := rfl

theorem numeralValue_append (base value : Nat) (front back : List Nat) :
    numeralValue base value (front ++ back) = numeralValue base (numeralValue base value front) back :=
  List.foldl_append ..

theorem numeralValue_zeros (base count : Nat) : numeralValue base 0 (List.replicate count 0) = 0 := by
  induction count with
  | zero => rfl
  | succ count ih =>
      rw [List.replicate_succ, numeralValue_cons, Nat.zero_mul]
      exact ih

/-- Reading further digits does not make a number smaller. -/
theorem le_numeralValue {base : Nat} (positive : 0 < base) (value : Nat) (digits : List Nat) :
    value ≤ numeralValue base value digits := by
  induction digits generalizing value with
  | nil => exact Nat.le_refl _
  | cons digit rest ih =>
      rw [numeralValue_cons]
      calc value ≤ value * base := Nat.le_mul_of_pos_right value positive
        _ ≤ value * base + digit := Nat.le_add_right _ _
        _ ≤ numeralValue base (value * base + digit) rest := ih _

/-- Reading a numeral gives the number back. -/
theorem numeralValue_numeral (base width value : Nat) : numeralValue base 0 (numeral base width value) = value := by
  rw [numeral, numeralValue_append, numeralValue_zeros, numeralValue, List.foldl_reverse]
  have horner : (fun digit value => value * base + digit) =
      fun (digit value : Nat) => (digit : Nat) + base * value := by
    funext digit value
    rw [Nat.mul_comm, Nat.add_comm]
  have digits := Nat.ofDigits_digits base value
  rw [Nat.ofDigits_eq_foldr] at digits
  rw [horner]
  exact digits

theorem numeral_lt {base width value digit : Nat} (valid : 1 < base) (member : digit ∈ numeral base width value) :
    digit < base := by
  rcases List.mem_append.mp member with padding | proper
  · rw [List.eq_of_mem_replicate padding]
    omega
  · exact Nat.digits_lt_base valid (List.mem_reverse.mp proper)

theorem length_numeral (base width value : Nat) : width ≤ (numeral base width value).length := by
  rw [numeral, List.length_append, List.length_replicate, List.length_reverse]
  omega

/-- Without padding only the numeral of zero starts with a zero. -/
theorem numeral_head {base : Nat} (valid : 1 < base) (value : Nat) :
    ∃ digit rest, numeral base 1 value = digit :: rest ∧ digit < base ∧ (0 < digit ↔ 0 < value) := by
  obtain rfl | positive := Nat.eq_zero_or_pos value
  · exact ⟨0, [], by simp [numeral], Nat.zero_lt_of_lt valid, Iff.rfl⟩
  · have nonempty : Nat.digits base value ≠ [] := Nat.digits_ne_nil_iff_ne_zero.mpr (Nat.ne_of_gt positive)
    have length := List.length_pos_of_ne_nil nonempty
    have unpadded : 1 - (Nat.digits base value).length = 0 := by omega
    have lead := Nat.getLast_digit_ne_zero base (Nat.ne_of_gt positive)
    refine ⟨(Nat.digits base value).getLast nonempty, (Nat.digits base value).dropLast.reverse, ?_, ?_, ?_⟩
    · rw [numeral, unpadded, List.replicate_zero, List.nil_append]
      nth_rewrite 1 [← List.dropLast_append_getLast nonempty]
      rw [List.reverse_append]
      rfl
    · exact Nat.digits_lt_base valid (List.getLast_mem nonempty)
    · exact iff_of_true (Nat.pos_of_ne_zero lead) positive

/-- The character of a digit, with lowercase letters from ten on. -/
def digitByte (digit : Nat) : Byte := if digit < 10 then UInt8.ofNat (0x30 + digit) else UInt8.ofNat (0x57 + digit)

/-- A number as text. -/
def numeralText (base width value : Nat) : Bytes := (numeral base width value).map digitByte

theorem numeralText_ne_nil {base width value : Nat} (padded : 0 < width) : numeralText base width value ≠ [] := by
  have length := length_numeral base width value
  intro empty
  rw [numeralText, List.map_eq_nil_iff] at empty
  rw [empty, List.length_nil] at length
  omega

theorem mem_numeralText {base width value : Nat} {byte : Byte} (valid : 1 < base)
    (member : byte ∈ numeralText base width value) : ∃ digit < base, byte = digitByte digit := by
  obtain ⟨digit, listed, rfl⟩ := List.mem_map.mp member
  exact ⟨digit, numeral_lt valid listed, rfl⟩

end Corus.Logical
