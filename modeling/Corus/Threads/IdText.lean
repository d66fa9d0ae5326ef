import Corus.Logical.Numerals
import Corus.Threads.TaskDirectory

/-!
# Thread ids as text

`local_itoa` and `local_atoi` replace the functions of libc, and `build_path` puts the ids
into the paths under `/proc`. Indexing beyond the end of a buffer panics, so the functions
below return `none` there.
-/

namespace Corus.Threads

open Corus.Logical Corus.Platform

/-! ## The source -/

/-- `buffer[index] = byte`. -/
def store (buffer : Bytes) (index : Nat) (byte : Byte) : Option Bytes :=
  if index < buffer.length then some (overwrite buffer index [byte]) else none

/-- `&mut buffer[len..]`. -/
def sliceFrom (buffer : Bytes) (len : Nat) : Option Bytes :=
  if len ≤ buffer.length then some (buffer.drop len) else none

/-- The sum of two bytes, as a byte. -/
def checkedByte (value : Nat) : Option Byte := if value < 256 then some (UInt8.ofNat value) else none

/-- `while v > 0`: the digits, the last one first. Every round stores a byte, so a buffer
has room for no more rounds than it has bytes. -/
def itoaDigits : Nat → Nat → Nat → Bytes → Option (Nat × Bytes)
  | rounds, v, n, tmp =>
      if v = 0 then some (n, tmp)
      else
        match rounds with
        | 0 => none
        | rounds + 1 => do
            let digit ← checkedByte (0x30 + v % 10)
            let tmp ← store tmp n digit
            itoaDigits rounds (v / 10) (n + 1) tmp

/-- `while n > 0`: the digits in order. -/
def itoaCopy (tmp : Bytes) : Nat → Nat → Bytes → Option (Nat × Bytes)
  | 0, out, buf => some (out, buf)
  | n + 1, out, buf => do
      let byte ← tmp[n]?
      let buf ← store buf out byte
      itoaCopy tmp n (out + 1) buf

/-- The first part of `local_itoa`: the digits in `tmp`, one of them for zero. -/
def itoaTemporary (v : Nat) : Option (Nat × Bytes) :=
  let tmp := List.replicate 16 0
  if v = 0 then (store tmp 0 0x30).map fun tmp => (1, tmp) else itoaDigits tmp.length v 0 tmp

/-- The sign in front of the digits. -/
def itoaSign (buf : Bytes) (value : Int32) : Option (Nat × Bytes) :=
  if value < 0 then (store buf 0 0x2d).map fun buf => (1, buf) else some (0, buf)

/-- `local_itoa`: the number of bytes written and the buffer. -/
def localItoa (buf : Bytes) (value : Int32) : Option (Nat × Bytes) := do
  let (n, tmp) ← itoaTemporary value.toInt.natAbs
  let (out, buf) ← itoaSign buf value
  itoaCopy tmp n out buf

/-- The integers of an `i32`. -/
def inInt32 (value : Int) : Bool := decide (-2 ^ 31 ≤ value ∧ value < 2 ^ 31)

/-- The digit loop of `local_atoi` in a build that checks every operation. -/
def atoiDigitsChecked : Int32 → Bytes → Option Int32
  | number, [] => some number
  | number, byte :: rest =>
      if isAsciiDigit byte then
        if inInt32 (number.toInt * 10) && inInt32 (number.toInt * 10 + (byte - 0x30).toNat) then
          atoiDigitsChecked (number * 10 + Int32.ofNat (byte - 0x30).toNat) rest
        else none
      else some number

/-- `local_atoi` in a build that checks every operation. -/
def localAtoiChecked (text : Bytes) : Option Int32 :=
  if text.head? = some 0x2d then
    (atoiDigitsChecked 0 text.tail).bind fun number =>
      if inInt32 (-number.toInt) then some (-number) else none
  else atoiDigitsChecked 0 text

/-- `for p in parts`. -/
def copyParts : List Bytes → Bytes → Nat → Option (Nat × Bytes)
  | [], buf, len => some (len, buf)
  | part :: rest, buf, len =>
      if len + part.length ≤ buf.length then copyParts rest (overwrite buf len part) (len + part.length)
      else none

/-- `build_path`: the length of the path and the buffer. -/
def buildPath (buf : Bytes) (parts : List Bytes) (num : Option Int32) : Option (Nat × Bytes) := do
  let (len, buf) ← copyParts parts buf 0
  match num with
  | none => some (len, buf)
  | some number => do
      let rest ← sliceFrom buf len
      let (count, rest) ← localItoa rest number
      some (len + count, buf.take len ++ rest)

def nulTerminatedPathLen : Nat := 80
def maxNulTerminatedPathPrefix : Nat := nulTerminatedPathLen - 1

/-- `nul_terminate`. -/
def nulTerminate (src : Bytes) (len : Nat) : Option Bytes :=
  let n := min len maxNulTerminatedPathPrefix
  if n ≤ src.length then store (overwrite (List.replicate nulTerminatedPathLen 0) 0 (src.take n)) n 0
  else none

/-- `b"/proc/"`. -/
def procPart : Bytes := [0x2f, 0x70, 0x72, 0x6f, 0x63, 0x2f]
/-- `b"/fd/"`. -/
def fdPart : Bytes := [0x2f, 0x66, 0x64, 0x2f]

/-- The buffer that `thread_shares_address_space` passes to `stat`. -/
def markerPath (tid marker : Int32) : Option Bytes := do
  let (len, path) ← buildPath (List.replicate 64 0) [procPart] (some tid)
  let rest ← sliceFrom path len
  let (more, rest) ← buildPath rest [fdPart] (some marker)
  nulTerminate (path.take len ++ rest) (len + more)

/-! ## Writing an id -/

/-- The decimal form of a number. -/
def decimalText (value : Int) : Bytes :=
  (if value < 0 then [0x2d] else []) ++ numeralText 10 1 value.natAbs

theorem store_of_lt {buffer : Bytes} {index : Nat} (inside : index < buffer.length) (byte : Byte) :
    store buffer index byte = some (overwrite buffer index [byte]) := if_pos inside

theorem checkedByte_digit (v : Nat) : checkedByte (0x30 + v % 10) = some (digitByte (v % 10)) := by
  have small : v % 10 < 10 := Nat.mod_lt _ (by decide)
  have fits : 0x30 + v % 10 < 256 := by omega
  rw [checkedByte, if_pos fits, digitByte, if_pos small]

/-- The digit loop stores the digits of the number, the last one first. -/
theorem itoaDigits_stores {rounds v n : Nat} {tmp : Bytes} (enough : (Nat.digits 10 v).length ≤ rounds)
    (fits : n + (Nat.digits 10 v).length ≤ tmp.length) :
    itoaDigits rounds v n tmp =
      some (n + (Nat.digits 10 v).length, overwrite tmp n ((Nat.digits 10 v).map digitByte)) := by
  induction rounds generalizing v n tmp with
  | zero =>
      have zero : v = 0 := by
        by_contra nonzero
        rw [Nat.digits_def' (by decide) (Nat.pos_of_ne_zero nonzero)] at enough
        simp at enough
      subst zero
      simp [itoaDigits]
  | succ rounds ih =>
      by_cases zero : v = 0
      · subst zero
        simp [itoaDigits]
      · have digits : Nat.digits 10 v = v % 10 :: Nat.digits 10 (v / 10) :=
          Nat.digits_def' (by decide) (Nat.pos_of_ne_zero zero)
        rw [digits, List.length_cons] at enough fits
        have length : (overwrite tmp n [digitByte (v % 10)]).length = tmp.length :=
          length_overwrite (by simp only [List.length_singleton]; omega)
        rw [itoaDigits, if_neg zero]
        simp only [checkedByte_digit, store_of_lt (show n < tmp.length by omega), Option.bind_eq_bind, Option.bind_some]
        rw [ih (by omega) (by omega), digits, List.length_cons, List.map_cons,
          overwrite_cons (show n < tmp.length by omega), Nat.add_assoc, Nat.add_comm 1]

/-- The copy loop stores the digits in order. -/
theorem itoaCopy_stores {tmp buf : Bytes} {n out : Nat} (loaded : n ≤ tmp.length) (fits : out + n ≤ buf.length) :
    itoaCopy tmp n out buf = some (out + n, overwrite buf out (tmp.take n).reverse) := by
  induction n generalizing out buf with
  | zero => simp [itoaCopy]
  | succ n ih =>
      have inside : out < buf.length := by omega
      have length : ∀ byte : Byte, (overwrite buf out [byte]).length = buf.length :=
        fun byte => length_overwrite inside
      have here : tmp[n]? = some tmp[n] := List.getElem?_eq_getElem loaded
      have digits : (tmp.take (n + 1)).reverse = tmp[n] :: (tmp.take n).reverse := by
        rw [List.take_succ_eq_append_getElem loaded, List.reverse_append, List.reverse_singleton,
          List.singleton_append]
      rw [itoaCopy]
      simp only [here, store_of_lt inside, Option.bind_eq_bind, Option.bind_some]
      rw [ih (by omega) (by rw [length]; omega), overwrite_cons inside, digits, Nat.add_assoc, Nat.add_comm 1]

/-- The digits of a number as text. -/
theorem numeralText_eq {value : Nat} (positive : 0 < value) :
    numeralText 10 1 value = ((Nat.digits 10 value).map digitByte).reverse := by
  have nonempty : Nat.digits 10 value ≠ [] := Nat.digits_ne_nil_iff_ne_zero.mpr (by omega)
  have padded : 1 - (Nat.digits 10 value).length = 0 := by
    have length := List.length_pos_iff.mpr nonempty
    omega
  rw [numeralText, numeral, padded, List.replicate_zero, List.nil_append, List.map_reverse]

/-- The numbers of an `i32` have at most ten digits. -/
theorem length_digits (value : Int32) : (Nat.digits 10 value.toInt.natAbs).length ≤ 10 := by
  rw [Nat.digits_length_le_iff (by decide)]
  have low := value.le_toInt
  have high := value.toInt_lt
  omega

theorem length_numeralText (value : Int32) : (numeralText 10 1 value.toInt.natAbs).length ≤ 10 := by
  have short := length_digits value
  simp only [numeralText, numeral, List.length_map, List.length_append, List.length_replicate, List.length_reverse]
  omega

theorem length_decimalText (value : Int32) : (decimalText value.toInt).length ≤ 11 := by
  have short := length_numeralText value
  rw [decimalText, List.length_append]
  split
  · rw [List.length_singleton]
    omega
  · rw [List.length_nil]
    omega

/-- The temporary buffer holds the digits, the last one first. -/
theorem itoaTemporary_digits (value : Int32) :
    ∃ tmp, itoaTemporary value.toInt.natAbs = some ((numeralText 10 1 value.toInt.natAbs).length, tmp) ∧
      (numeralText 10 1 value.toInt.natAbs).length ≤ tmp.length ∧
      (tmp.take (numeralText 10 1 value.toInt.natAbs).length).reverse = numeralText 10 1 value.toInt.natAbs := by
  by_cases zero : value.toInt.natAbs = 0
  · rw [zero]
    exact ⟨overwrite (List.replicate 16 0) 0 [0x30], by decide, by decide, by decide⟩
  · have short := length_digits value
    have text := numeralText_eq (Nat.pos_of_ne_zero zero)
    have size : (numeralText 10 1 value.toInt.natAbs).length = (Nat.digits 10 value.toInt.natAbs).length := by
      rw [text, List.length_reverse, List.length_map]
    have room : (List.replicate 16 (0 : Byte)).length = 16 := List.length_replicate
    refine ⟨overwrite (List.replicate 16 0) 0 ((Nat.digits 10 value.toInt.natAbs).map digitByte), ?_, ?_, ?_⟩
    · simp only [itoaTemporary, zero, if_false]
      rw [itoaDigits_stores (by omega) (by omega), size, Nat.zero_add]
    · rw [size, length_overwrite (by rw [List.length_map, room]; omega), room]
      omega
    · rw [size, text, overwrite, List.take_zero, List.nil_append, List.take_left' (List.length_map _)]

/-- `local_itoa` writes the decimal form of the number and leaves the rest of the buffer alone. -/
theorem localItoa_writes {buf : Bytes} {value : Int32} (fits : (decimalText value.toInt).length ≤ buf.length) :
    localItoa buf value =
      some ((decimalText value.toInt).length, overwrite buf 0 (decimalText value.toInt)) := by
  obtain ⟨tmp, digits, loaded, reversed⟩ := itoaTemporary_digits value
  have zero : (0 : Int32).toInt = 0 := rfl
  simp only [localItoa, digits, itoaSign, Option.bind_eq_bind, Option.bind_some, Int32.lt_iff_toInt_lt, zero]
  rw [decimalText] at fits ⊢
  by_cases negative : value.toInt < 0
  · rw [if_pos negative, List.singleton_append, List.length_cons] at fits
    have inside : 0 < buf.length := by omega
    have length : (overwrite buf 0 [0x2d]).length = buf.length := length_overwrite inside
    simp only [negative, if_true, store_of_lt inside, Option.map_some, Option.bind_some]
    rw [itoaCopy_stores loaded (by omega), reversed, overwrite_cons inside, List.singleton_append, List.length_cons,
      Nat.add_comm 1]
  · rw [if_neg negative, List.nil_append] at fits
    simp only [negative, if_false, Option.bind_some]
    rw [itoaCopy_stores loaded (by omega), reversed, List.nil_append, Nat.zero_add]

/-! ## Reading an id -/

theorem digitByte_spec : ∀ digit < 10, isAsciiDigit (digitByte digit) = true ∧
    (digitByte digit - 0x30).toNat = digit ∧ digitByte digit ≠ 0 ∧ digitByte digit ≠ 0x2d ∧
    digitByte digit ≠ 0x2e := by
  decide

/-- Digits are read without overflow exactly when the number that they stand for fits. -/
theorem atoiDigitsChecked_digits {digits : List Nat} (decimal : ∀ digit ∈ digits, digit < 10) {number : Nat}
    (small : number < 2 ^ 31) :
    atoiDigitsChecked (Int32.ofNat number) (digits.map digitByte) =
      if numeralValue 10 number digits < 2 ^ 31 then some (Int32.ofNat (numeralValue 10 number digits)) else none := by
  induction digits generalizing number with
  | nil => exact (if_pos small).symm
  | cons digit rest ih =>
      obtain ⟨here, later⟩ := List.forall_mem_cons.mp decimal
      obtain ⟨isDigit, value, _⟩ := digitByte_spec digit here
      have further := @le_numeralValue 10 (by decide) (number * 10 + digit) rest
      have next : Int32.ofNat number * 10 + Int32.ofNat digit = Int32.ofNat (number * 10 + digit) := by
        rw [Int32.ofNat_add, Int32.ofNat_mul]
        rfl
      rw [List.map_cons, atoiDigitsChecked, if_pos isDigit, value, Int32.toInt_ofNat_of_lt small, next,
        numeralValue_cons]
      by_cases fits : number * 10 + digit < 2 ^ 31
      · have checked : (inInt32 ((number : Int) * 10) && inInt32 ((number : Int) * 10 + digit)) = true := by
          simp only [inInt32, Bool.and_eq_true, decide_eq_true_eq]
          omega
        rw [if_pos checked, ih later fits]
      · have unchecked : ¬ (inInt32 ((number : Int) * 10) && inInt32 ((number : Int) * 10 + digit)) = true := by
          simp only [inInt32, Bool.and_eq_true, decide_eq_true_eq]
          omega
        rw [if_neg unchecked, if_neg (by omega)]

/-- Where no operation overflows, both builds read the same number. -/
theorem atoiDigits_of_checked {text : Bytes} {number result : Int32}
    (checked : atoiDigitsChecked number text = some result) : atoiDigits number text = result := by
  induction text generalizing number with
  | nil => exact Option.some.inj checked
  | cons byte rest ih =>
      rw [atoiDigitsChecked] at checked
      rw [atoiDigits]
      split at checked
      · rename_i isDigit
        split at checked
        · rw [if_pos isDigit]
          exact ih checked
        · cases checked
      · rename_i noDigit
        rw [if_neg noDigit]
        exact Option.some.inj checked

theorem localAtoi_of_checked {text : Bytes} {result : Int32} (checked : localAtoiChecked text = some result) :
    localAtoi text = result := by
  unfold localAtoiChecked at checked
  unfold localAtoi
  split at checked
  · rename_i negative
    rw [if_pos negative]
    obtain ⟨number, digits, negated⟩ := Option.bind_eq_some_iff.mp checked
    split at negated
    · rw [atoiDigits_of_checked digits]
      exact Option.some.inj negated
    · cases negated
  · rename_i unsigned
    rw [if_neg unsigned]
    exact atoiDigits_of_checked checked

/-- The digits of a number are read as that number, if it fits. -/
theorem atoiDigitsChecked_numeralText (value : Nat) :
    atoiDigitsChecked 0 (numeralText 10 1 value) = if value < 2 ^ 31 then some (Int32.ofNat value) else none := by
  have read := @atoiDigitsChecked_digits (numeral 10 1 value) (fun digit member => numeral_lt (by decide) member) 0
    (by decide)
  rwa [numeralValue_numeral] at read

theorem not_mem_numeralText {value : Nat} {byte : Byte} (other : ∀ digit < 10, byte ≠ digitByte digit) :
    byte ∉ numeralText 10 1 value := by
  intro member
  obtain ⟨digit, small, same⟩ := mem_numeralText (by decide) member
  exact other digit small same

theorem head?_numeralText_ne {value : Nat} {byte : Byte} (other : ∀ digit < 10, byte ≠ digitByte digit) :
    (numeralText 10 1 value).head? ≠ some byte :=
  fun same => not_mem_numeralText other (List.mem_of_head? same)

/-- `local_atoi` reads back what `local_itoa` wrote, and only the smallest number overflows. -/
theorem localAtoiChecked_decimalText (value : Int32) :
    localAtoiChecked (decimalText value.toInt) = if value = Int32.minValue then none else some value := by
  have low := value.le_toInt
  have high := value.toInt_lt
  have smallest : value = Int32.minValue ↔ value.toInt = -2 ^ 31 := by
    rw [← Int32.toInt_inj, Int32.toInt_minValue]
  rw [decimalText]
  by_cases negative : value.toInt < 0
  · rw [if_pos negative, localAtoiChecked, List.singleton_append, List.head?_cons, if_pos rfl, List.tail_cons,
      atoiDigitsChecked_numeralText]
    by_cases least : value = Int32.minValue
    · rw [if_pos least, if_neg (by rw [smallest] at least; omega)]
      rfl
    · have fits : value.toInt.natAbs < 2 ^ 31 := by
        rw [smallest] at least
        omega
      have negated : -Int32.ofNat value.toInt.natAbs = value := by
        rw [← Int32.ofInt_eq_ofNat, ← Int32.ofInt_neg, show -(value.toInt.natAbs : Int) = value.toInt by omega,
          Int32.ofInt_toInt]
      have checked : inInt32 (-(Int32.ofNat value.toInt.natAbs).toInt) = true := by
        rw [Int32.toInt_ofNat_of_lt fits, inInt32, decide_eq_true_eq]
        omega
      rw [if_neg least, if_pos fits, Option.bind_some, if_pos checked, negated]
  · have least : ¬ value = Int32.minValue := by
      rw [smallest]
      omega
    have unsigned : (numeralText 10 1 value.toInt.natAbs).head? ≠ some 0x2d :=
      head?_numeralText_ne (by decide)
    have number : Int32.ofNat value.toInt.natAbs = value := by
      rw [← Int32.ofInt_eq_ofNat, show (value.toInt.natAbs : Int) = value.toInt by omega, Int32.ofInt_toInt]
    rw [if_neg negative, List.nil_append, localAtoiChecked, if_neg unsigned, atoiDigitsChecked_numeralText,
      if_pos (by omega), if_neg least, number]

/-- The name of a task is read as its id, whatever follows its terminator. -/
theorem parseTid_text {tid : Int32} (positive : 0 < tid) (dot : Bool) (tail : Bytes) :
    parseTid ((if dot then [0x2e] else []) ++ decimalText tid.toInt ++ 0 :: tail) = some tid := by
  have above : ¬ tid.toInt < 0 := by
    rw [Int32.lt_iff_toInt_lt] at positive
    exact Int.not_lt.mpr (Int.le_of_lt positive)
  have text : decimalText tid.toInt = numeralText 10 1 tid.toInt.natAbs := by
    rw [decimalText, if_neg above, List.nil_append]
  have read : localAtoi (numeralText 10 1 tid.toInt.natAbs) = tid := by
    apply localAtoi_of_checked
    rw [← text, localAtoiChecked_decimalText, if_neg]
    rintro rfl
    cases positive
  obtain ⟨first, rest, begins⟩ : ∃ first rest, numeralText 10 1 tid.toInt.natAbs = first :: rest :=
    List.exists_cons_of_ne_nil (numeralText_ne_nil Nat.one_pos)
  obtain ⟨digit, small, isDigit⟩ : ∃ digit < 10, first = digitByte digit :=
    @mem_numeralText 10 1 tid.toInt.natAbs first (by decide) (begins ▸ List.mem_cons_self)
  -- The dot is skipped, and the name ends at the first zero.
  have name : (if ((if dot then [0x2e] else []) ++ (first :: rest) ++ (0 : Byte) :: tail).head? = some 0x2e then
      ((if dot then [0x2e] else []) ++ (first :: rest) ++ 0 :: tail).tail
      else (if dot then [0x2e] else []) ++ (first :: rest) ++ 0 :: tail) = first :: rest ++ 0 :: tail := by
    cases dot with
    | true => rfl
    | false =>
        have noDot : first ≠ 0x2e := isDigit ▸ (digitByte_spec digit small).2.2.2.2
        simp [noDot]
  have ends : (first :: rest ++ 0 :: tail).takeWhile (fun byte => byte != 0) = first :: rest := by
    rw [List.takeWhile_append_of_pos, List.takeWhile_cons_of_neg (by decide), List.append_nil]
    intro byte member
    rw [← begins] at member
    have nonzero : byte ≠ 0 := by
      rintro rfl
      exact not_mem_numeralText (by decide) member
    simpa using nonzero
  rw [text, begins]
  unfold parseTid
  simp only [name, ends]
  rw [if_pos (isDigit ▸ (digitByte_spec digit small).1), ← begins, read]

/-! ## Paths -/

theorem overwrite_zeros (text : Bytes) (size : Nat) :
    overwrite (List.replicate size 0) 0 text = text ++ List.replicate (size - text.length) 0 := by
  rw [overwrite, List.take_zero, List.nil_append, Nat.zero_add, List.drop_replicate]

/-- `build_path` of one part and a number, in a zeroed buffer with room for them. -/
theorem buildPath_writes {size : Nat} {part : Bytes} {number : Int32}
    (fits : part.length + (decimalText number.toInt).length ≤ size) :
    buildPath (List.replicate size 0) [part] (some number) =
      some (part.length + (decimalText number.toInt).length, part ++ decimalText number.toInt ++
        List.replicate (size - part.length - (decimalText number.toInt).length) 0) := by
  have room : part.length ≤ (List.replicate size (0 : Byte)).length := by
    rw [List.length_replicate]
    omega
  have slice : sliceFrom (part ++ List.replicate (size - part.length) 0) part.length =
      some (List.replicate (size - part.length) 0) := by
    rw [sliceFrom, if_pos (by simp), List.drop_left]
  have written := @localItoa_writes (List.replicate (size - part.length) 0) number
    (by rw [List.length_replicate]; omega)
  rw [overwrite_zeros] at written
  simp only [buildPath, copyParts, room, if_true, overwrite_zeros, Nat.zero_add, slice, written, Option.bind_eq_bind,
    Option.bind_some, List.take_left, List.append_assoc]

/-- The path of the marker under the candidate's directory. -/
def markerText (tid marker : Int32) : Bytes :=
  procPart ++ decimalText tid.toInt ++ (fdPart ++ decimalText marker.toInt)

theorem length_markerText (tid marker : Int32) : (markerText tid marker).length ≤ 32 := by
  have first := length_decimalText tid
  have second := length_decimalText marker
  simp only [markerText, List.length_append, procPart, fdPart, List.length_cons, List.length_nil]
  omega

/-- `nul_terminate` copies a path that fits and puts a zero behind it. -/
theorem nulTerminate_copies {text rest : Bytes} (fits : text.length ≤ maxNulTerminatedPathPrefix) :
    nulTerminate (text ++ rest) text.length =
      some (text ++ 0 :: List.replicate (maxNulTerminatedPathPrefix - text.length) 0) := by
  have limit : maxNulTerminatedPathPrefix = 79 := rfl
  have size : nulTerminatedPathLen = 80 := rfl
  have inside : text.length < (text ++ List.replicate (nulTerminatedPathLen - text.length) (0 : Byte)).length := by
    rw [List.length_append, List.length_replicate]
    omega
  have padding : (List.replicate (nulTerminatedPathLen - text.length) (0 : Byte)).drop 1 =
      List.replicate (maxNulTerminatedPathPrefix - text.length) 0 := by
    rw [List.drop_replicate]
    congr 1
    omega
  rw [nulTerminate, Nat.min_eq_left fits, if_pos (by simp), List.take_left, overwrite_zeros, store_of_lt inside,
    overwrite, List.take_left, ← List.drop_drop, List.drop_left, List.length_singleton, padding,
    List.append_assoc, List.singleton_append]

/-- `thread_shares_address_space` passes the path of the marker, terminated and in full. -/
theorem markerPath_eq (tid marker : Int32) :
    markerPath tid marker = some (markerText tid marker ++
      0 :: List.replicate (maxNulTerminatedPathPrefix - (markerText tid marker).length) 0) := by
  have shortTid := length_decimalText tid
  have shortMarker := length_decimalText marker
  have procLength : procPart.length = 6 := rfl
  have fdLength : fdPart.length = 4 := rfl
  have whole : procPart.length + (decimalText tid.toInt).length + (fdPart.length + (decimalText marker.toInt).length) =
      (markerText tid marker).length := by
    simp only [markerText, List.length_append]
  have short := length_markerText tid marker
  obtain ⟨left, leftEq⟩ : ∃ left, left = 64 - procPart.length - (decimalText tid.toInt).length := ⟨_, rfl⟩
  have first := @buildPath_writes 64 procPart tid (by omega)
  have second := @buildPath_writes left fdPart marker (by omega)
  have slice : sliceFrom (procPart ++ decimalText tid.toInt ++ List.replicate left 0)
      (procPart.length + (decimalText tid.toInt).length) = some (List.replicate left 0) := by
    rw [sliceFrom, ← List.length_append, if_pos (by simp), List.drop_left]
  rw [← leftEq] at first
  simp only [markerPath, first, slice, second, Option.bind_eq_bind, Option.bind_some]
  rw [← List.length_append, List.take_left, List.length_append, whole,
    ← List.append_assoc (procPart ++ decimalText tid.toInt)]
  exact nulTerminate_copies (Nat.le_trans short (by decide))

/-- The path has no zero byte of its own, so it ends where its terminator is. -/
theorem zero_not_mem_markerText (tid marker : Int32) : (0 : Byte) ∉ markerText tid marker := by
  have number : ∀ value : Int, (0 : Byte) ∉ decimalText value := by
    intro value member
    rcases List.mem_append.mp member with sign | digits
    · split at sign <;> simp at sign
    · exact not_mem_numeralText (by decide) digits
  simp only [markerText, List.mem_append, not_or]
  exact ⟨⟨by decide, number _⟩, by decide, number _⟩

/-! ## The round trip -/

/-- The text of a number keeps all of it: `local_itoa` writes its decimal form in a buffer
with room for that, `local_atoi` reads it back, and no operation of either overflows. -/
structure Lossless (value : Int32) : Prop where
  written : ∀ buf : Bytes, (decimalText value.toInt).length ≤ buf.length →
    localItoa buf value = some ((decimalText value.toInt).length, overwrite buf 0 (decimalText value.toInt))
  short : (decimalText value.toInt).length ≤ 11
  read : localAtoi (decimalText value.toInt) = value
  unwrapped : localAtoiChecked (decimalText value.toInt) = some value

theorem not_lossless_minValue : ¬ Lossless Int32.minValue := by
  intro lossless
  have overflow := localAtoiChecked_decimalText Int32.minValue
  rw [if_pos rfl] at overflow
  cases lossless.unwrapped.symm.trans overflow

/-- The text of a number keeps all of it for every number but the smallest one, whose
negation overflows. Task names are read as their ids, and `stat` gets the whole path of the
marker. -/
theorem lossless_iff (value tid marker : Int32) (dot : Bool) (tail : Bytes) :
    (Lossless value ↔ value ≠ Int32.minValue) ∧
    (0 < tid → parseTid ((if dot then [0x2e] else []) ++ decimalText tid.toInt ++ 0 :: tail) = some tid) ∧
    ∃ padding, markerPath tid marker = some (markerText tid marker ++ 0 :: padding) ∧
      (markerText tid marker ++ 0 :: padding).length = nulTerminatedPathLen ∧ 0 ∉ markerText tid marker := by
  refine ⟨⟨?_, ?_⟩, fun positive => parseTid_text positive dot tail, ?_⟩
  · rintro lossless rfl
    exact not_lossless_minValue lossless
  · intro other
    have checked := localAtoiChecked_decimalText value
    rw [if_neg other] at checked
    exact ⟨fun buf fits => localItoa_writes fits, length_decimalText value, localAtoi_of_checked checked, checked⟩
  · refine ⟨_, markerPath_eq tid marker, ?_, zero_not_mem_markerText tid marker⟩
    have short := length_markerText tid marker
    have limit : maxNulTerminatedPathPrefix = 79 := rfl
    have size : nulTerminatedPathLen = 80 := rfl
    rw [List.length_append, List.length_cons, List.length_replicate]
    omega

/-- `-2147483648` is written, and reading it back overflows. -/
theorem minValue_overflows :
    localAtoiChecked [0x2d, 0x32, 0x31, 0x34, 0x37, 0x34, 0x38, 0x33, 0x36, 0x34, 0x38] = none ∧
      localItoa (List.replicate 16 0) Int32.minValue =
        some (11, [0x2d, 0x32, 0x31, 0x34, 0x37, 0x34, 0x38, 0x33, 0x36, 0x34, 0x38] ++ List.replicate 5 0) ∧
      ¬ Lossless Int32.minValue :=
  ⟨by decide, by decide, not_lossless_minValue⟩

end Corus.Threads
